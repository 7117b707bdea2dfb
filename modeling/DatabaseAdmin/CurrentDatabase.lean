import DatabaseAdmin.MysqlConnector

/-! Which database a statement runs in. The cache of current databases is right as long as
`USE` is sent by the connector alone; a request that asks for nothing, or does not ask, gets
whatever its connection was last set to. -/
namespace DatabaseAdmin.MysqlConnector
open CodeUnits ConnectorPool StepSystem

section CurrentDatabase
variable {κ ι : Type} [DecidableEq κ] {cfg : MysqlConfig} {s : MysqlState κ ι}

def DatabasesHold (cfg : MysqlConfig) (s : MysqlState κ ι) : Prop :=
  Settled MysqlSession.db (fun cached => cached.or (nonEmpty cfg.database)) s

def KeepsDatabase (f : MysqlSession → MysqlSession) (σ : MysqlSession) : Prop := (f σ).db = σ.db

instance keepsDatabaseDecidable (f : MysqlSession → MysqlSession) (σ : MysqlSession) :
    Decidable (KeepsDatabase f σ) :=
  inferInstanceAs (Decidable ((f σ).db = σ.db))

def LeftAt (cfg : MysqlConfig) (s : MysqlState κ ι) (database : Option Text) (c : κ) : Prop :=
  (s.cache c).or (nonEmpty cfg.database) = cfg.asked database

instance leftAtDecidable (cfg : MysqlConfig) (s : MysqlState κ ι) (database : Option Text) (c : κ) :
    Decidable (LeftAt cfg s database c) :=
  inferInstanceAs (Decidable ((s.cache c).or (nonEmpty cfg.database) = cfg.asked database))

-- User SQL changes no current database, and a request that sends no USE finds the connection
-- where it wants it.
def DatabasesKept [DecidableEq ι] (cfg : MysqlConfig) (s : MysqlState κ ι) : MysqlAction κ ι → Prop
  | .query lease database known statement _ | .stream lease database known statement =>
      ∀ c ∈ leaseClient s lease, (cfg.want database = none → LeftAt cfg s database c) ∧
        ∀ s' ∈ ensureDatabase cfg s c database known, KeepsDatabase statement.effect (s'.server c)
  | .countTable c schema statement =>
      LeftAt cfg s schema c ∧ KeepsDatabase statement.effect (s.server c)
  | .explain c statement => LeftAt cfg s none c ∧ KeepsDatabase statement.effect (s.server c)
  | .applyChangeset c schema _ outcomes => (cfg.readOnly || outcomes.isEmpty) = false →
      cfg.want schema = none → LeftAt cfg s schema c
  | .fetchMore .. | .closeCursor _ | .openSession .. | .sessionCommand .. | .closeSession _ => True

instance databasesKeptDecidable [DecidableEq ι] (cfg : MysqlConfig) (s : MysqlState κ ι) :
    ∀ a, Decidable (DatabasesKept cfg s a)
  | .query lease database known statement _ | .stream lease database known statement =>
      inferInstanceAs (Decidable (∀ c ∈ leaseClient s lease,
        (cfg.want database = none → LeftAt cfg s database c) ∧
        ∀ s' ∈ ensureDatabase cfg s c database known, KeepsDatabase statement.effect (s'.server c)))
  | .countTable c schema statement => inferInstanceAs (Decidable (LeftAt cfg s schema c ∧
      KeepsDatabase statement.effect (s.server c)))
  | .explain c statement => inferInstanceAs (Decidable (LeftAt cfg s none c ∧
      KeepsDatabase statement.effect (s.server c)))
  | .applyChangeset c schema _ outcomes =>
      inferInstanceAs (Decidable ((cfg.readOnly || outcomes.isEmpty) = false →
        cfg.want schema = none → LeftAt cfg s schema c))
  | .fetchMore .. | .closeCursor _ | .openSession .. | .sessionCommand .. | .closeSession _ =>
      isTrue trivial

theorem wantAsked {database : Option Text} {want : Text} (wants : cfg.want database = some want) :
    cfg.asked database = some want := by
  unfold MysqlConfig.want at wants
  unfold MysqlConfig.asked
  cases database with
  | none => simpa [nonEmpty] using wants
  | some name =>
    rw [Option.some_or] at wants
    rw [wants, Option.some_or]

theorem ensureDatabaseHolds (databases : DatabasesHold cfg s) {c : κ} {database : Option Text}
    {known : Bool} {s' : MysqlState κ ι}
    (left : cfg.want database = none → LeftAt cfg s database c)
    (ensured : ensureDatabase cfg s c database known = some s') :
    DatabasesHold cfg s' ∧ (s'.server c).db = cfg.asked database := by
  unfold ensureDatabase at ensured
  split at ensured
  · rename_i none
    cases ensured
    exact ⟨databases, (databases.coherent c).trans (left none)⟩
  · rename_i want wants
    have asked := wantAsked wants
    split at ensured
    · rename_i cached
      cases ensured
      refine ⟨databases, (databases.coherent c).trans ?_⟩
      rw [cached, asked, Option.some_or]
    · split at ensured
      · cases ensured
        refine ⟨settledSet databases rfl, ?_⟩
        rw [asked]
        simp [remember]
      · contradiction

theorem heldDatabases (databases : DatabasesHold cfg s) (c : κ) (holder : Option (Holder ι)) :
    DatabasesHold cfg (hold s c holder) :=
  settledSame databases rfl rfl rfl

theorem applyDatabase (databases : DatabasesHold cfg s) {c : κ} {asked : Option Text}
    (found : (s.server c).db = asked) (outcomes : List ChangeOutcome) :
    DatabasesHold cfg (applyStatements asked s c outcomes) := by
  induction outcomes generalizing s with
  | nil => exact settledAnswer databases rfl
  | cons outcome rest ih =>
    have sent : DatabasesHold cfg (sendMysql s c asked id) := settledSend databases found rfl
    cases outcome with
    | matched =>
      refine ih sent ?_
      rw [sendMysql, sendSelf]
      exact found
    | mismatched => exact settledAnswer sent rfl
    | error => exact settledAnswer sent rfl

theorem directDatabase (databases : DatabasesHold cfg s) {c : κ} {database : Option Text}
    {statement : MysqlStatement}
    (kept : LeftAt cfg s database c ∧ KeepsDatabase statement.effect (s.server c)) :
    DatabasesHold cfg (poolQuery cfg s c database statement) := by
  have found : (s.server c).db = cfg.asked database := (databases.coherent c).trans kept.1
  exact settledSame (settledSend databases found kept.2) rfl rfl rfl

variable [DecidableEq ι]

theorem queryDatabase (databases : DatabasesHold cfg s) {c : κ} {pinned known : Bool}
    {database : Option Text} {statement : MysqlStatement} {keeps : Option ι} {s' : MysqlState κ ι}
    (left : cfg.want database = none → LeftAt cfg s database c)
    (kept : ∀ s' ∈ ensureDatabase cfg s c database known, KeepsDatabase statement.effect (s'.server c))
    (moved : query cfg database known statement keeps s c pinned = some s') :
    DatabasesHold cfg s' := by
  unfold query at moved
  split at moved
  · exact settledFinish databases moved
  · rename_i s2 ensured
    obtain ⟨databases2, found⟩ := ensureDatabaseHolds databases left ensured
    exact settledFinish (settledSend databases2 found (kept s2 ensured)) moved

theorem leaseDatabase (databases : DatabasesHold cfg s) {lease : LeaseOf κ ι}
    {database : Option Text} {known : Bool} {statement : MysqlStatement} {keeps : Option ι}
    {s' : MysqlState κ ι}
    (kept : ∀ c ∈ leaseClient s lease, (cfg.want database = none → LeftAt cfg s database c) ∧
      ∀ s' ∈ ensureDatabase cfg s c database known, KeepsDatabase statement.effect (s'.server c))
    (moved : withLease s lease (query cfg database known statement keeps) = some s') :
    DatabasesHold cfg s' := by
  cases lease with
  | pooled c =>
    obtain ⟨s1, taken, moved⟩ := Option.bind_eq_some_iff.mp moved
    obtain rfl := checkoutHold taken
    refine queryDatabase (heldDatabases databases c _) (kept c rfl).1 (fun s2 ensured => ?_) moved
    rw [ensureHeld] at ensured
    obtain ⟨s3, before, rfl⟩ := Option.map_eq_some_iff.mp ensured
    exact (kept c rfl).2 s3 before
  | session id =>
    unfold withLease at moved
    dsimp only at moved
    split at moved
    · cases moved
      exact databases
    · rename_i e here
      obtain ⟨left, keeps⟩ := kept e.client (by simp [leaseClient, here])
      exact queryDatabase databases left keeps moved

theorem stepDatabase {s' : MysqlState κ ι} {a : MysqlAction κ ι} (databases : DatabasesHold cfg s)
    (kept : DatabasesKept cfg s a) (moved : step cfg s a = some s') : DatabasesHold cfg s' := by
  cases a with
  | query lease database known statement keeps => exact leaseDatabase databases kept moved
  | stream lease database known statement => exact leaseDatabase databases kept moved
  | fetchMore cursor ends =>
    cases moved
    exact settledFetchMore databases cursor ends
  | closeCursor cursor =>
    cases moved
    exact settledFetchMore databases cursor true
  | countTable c schema statement =>
    obtain ⟨s1, taken, rfl⟩ := Option.map_eq_some_iff.mp moved
    obtain rfl := checkoutHold taken
    exact directDatabase (heldDatabases databases c _) kept
  | explain c statement =>
    obtain ⟨s1, taken, rfl⟩ := Option.map_eq_some_iff.mp moved
    obtain rfl := checkoutHold taken
    exact directDatabase (heldDatabases databases c _) kept
  | applyChangeset c schema known outcomes =>
    simp only [step] at moved
    split at moved
    · cases moved
      exact databases
    · rename_i runs
      obtain ⟨s1, taken, rfl⟩ := Option.map_eq_some_iff.mp moved
      obtain rfl := checkoutHold taken
      have held := heldDatabases databases c (some .request)
      unfold applyChangeset
      split
      · exact settledSame (settledAnswer held rfl) rfl rfl rfl
      · rename_i s2 ensured
        obtain ⟨databases2, found⟩ := ensureDatabaseHolds held (kept (by simpa using runs)) ensured
        have begun : DatabasesHold cfg (answer s2 c beginTransaction) := settledAnswer databases2 rfl
        refine settledSame (applyDatabase begun ?_ outcomes) rfl rfl rfl
        rw [answerSelf]
        exact found
  | openSession id c =>
    simp only [step, openSession] at moved
    split at moved
    · cases moved
      exact settledSame databases rfl rfl rfl
    · contradiction
  | sessionCommand id cmd ok =>
    have keeps (σ : MysqlSession) : KeepsDatabase cmd.effect σ ∧ KeepsDatabase cmd.refused σ := by
      cases cmd <;> exact ⟨rfl, rfl⟩
    cases moved
    unfold sessionCommand
    split
    · exact databases
    · split
      · exact settledSame (settledAnswer databases (keeps _).1) rfl rfl rfl
      · exact settledAnswer databases (keeps _).2
  | closeSession id =>
    cases moved
    unfold closeSession
    split
    · exact databases
    · rename_i e here
      have ended : DatabasesHold cfg (answer s e.client endTransaction) := settledAnswer databases rfl
      split
      · exact settledSame ended rfl rfl rfl
      · exact settledSame databases rfl rfl rfl

theorem statementsFindTheirDatabase (cfg : MysqlConfig) (acts : List (MysqlAction κ ι))
    {s : MysqlState κ ι} (ran : runSteps (step cfg) (cfg.connected κ ι) acts = some s)
    (kept : Along (DatabasesKept cfg) (step cfg) (cfg.connected κ ι) acts) : DatabasesHold cfg s := by
  have fresh : DatabasesHold cfg (cfg.connected κ ι) := settledOpened rfl
  exact runKeeps stepDatabase fresh kept ran

end CurrentDatabase

-- A user's USE is not seen, so the next request for the default skips its own.
theorem userUseIsInherited : ¬ ∀ (cfg : MysqlConfig) (acts : List (MysqlAction Nat Nat)) s,
    runSteps (step cfg) (cfg.connected Nat Nat) acts = some s → DatabasesHold cfg s := by
  intro all
  have databases := all ⟨some (units "main"), false⟩
    [.query (.pooled 0) none true (.other id) none,
      .query (.pooled 0) none true (.uses (units "other")) none,
      .query (.pooled 0) none true (.other id) none] _ rfl
  exact absurd (databases.truthful _ (List.mem_cons_self ..)) (by decide)

def databasesInTurn : List (MysqlAction Nat Nat) :=
  [.openSession 0 0, .query (.session 0) (some (units "app")) true .begins none,
    .query (.session 0) none true .ends none, .query (.pooled 1) (some (units "app")) true (.other id) (some 4),
    .countTable 2 none (.other id), .explain 2 (.other id), .closeCursor 4,
    .query (.pooled 1) (some (units "gone")) false (.other id) none,
    .applyChangeset 1 none true [.matched, .mismatched], .closeSession 0]

theorem statementsFindTheirDatabaseInTurn : ∃ s,
    runSteps (step ⟨some (units "main"), false⟩)
      (MysqlConfig.connected ⟨some (units "main"), false⟩ Nat Nat) databasesInTurn = some s ∧
    s.sent.length = 7 ∧ DatabasesHold ⟨some (units "main"), false⟩ s :=
  ⟨_, rfl, by decide,
    statementsFindTheirDatabase ⟨some (units "main"), false⟩ databasesInTurn rfl (by decide)⟩

end DatabaseAdmin.MysqlConnector
