import DatabaseAdmin.Transactions

/-! What `explain` leaves behind on the connection it runs on, in the three SQL connectors. -/
namespace DatabaseAdmin.ExplainEffects
open Transactions Connection

inductive Outcome (δ : Type) where
  | changed (contents : δ)
  | failed
  | rolledBack

inductive TxCommand (ν : Type) where
  | begin
  | commit
  | rollback
  | savepoint (name : ν)
  | release (name : ν)
  | rollbackTo (name : ν)

inductive CommandKind where
  | select | table | values | insert | replace | update | delete | merge
  | multiUpdate | multiDelete | execute | createTableAs | other
  deriving DecidableEq

inductive Statement (δ θ ν : Type) where
  | control (cmd : TxCommand ν)
  | command (kind : CommandKind) (plans : Bool) (run : δ → Outcome δ) (aside : θ → θ)

structure Server (δ θ ν : Type) where
  connection : Connection δ ν
  sequences : θ

structure FlavorInfo where
  supportsExplainAnalyze : Bool
  supportsAnalyzeJson : Bool
  deriving DecidableEq

inductive Connector where
  | postgres
  | mysql (flavor : FlavorInfo)
  | sqlite
  deriving DecidableEq

variable {δ θ ν : Type}

section Postgres

def pgExplainable : List CommandKind :=
  [.select, .table, .values, .insert, .update, .delete, .merge, .execute, .createTableAs]

def pgAccepts : Statement δ θ ν → Bool
  | .control _ => false
  | .command kind plans _ _ => kind ∈ pgExplainable && plans

def pgRun (s : Server δ θ ν) : Statement δ θ ν → Server δ θ ν
  | .control _ => s
  | .command _ _ run aside =>
      ⟨match run s.connection.seen with
        | .changed d => s.connection.write d
        | _ => s.connection.abort, aside s.sequences⟩

-- An aborted transaction refuses BEGIN and EXPLAIN alike; BEGIN in an open one is only a warning.
def pgExplain (analyze : Bool) (s : Server δ θ ν) (stmt : Statement δ θ ν) : Server δ θ ν :=
  if s.connection.isAborted then s
  else if analyze then
    let begun := if s.connection.transaction.isSome then s.connection else s.connection.start
    let ran := if pgAccepts stmt then pgRun { s with connection := begun } stmt
      else { s with connection := begun.abort }
    { ran with connection := ran.connection.discard }
  else if pgAccepts stmt then s
  else { s with connection := s.connection.abort }

end Postgres

section Mysql

def mysqlRuns (flavor : FlavorInfo) (kind : CommandKind) : Bool :=
  if flavor.supportsExplainAnalyze then kind ∈ [.select, .table, .multiUpdate, .multiDelete]
  else flavor.supportsAnalyzeJson &&
    kind ∈ [.select, .insert, .replace, .update, .delete, .multiUpdate, .multiDelete]

def mysqlExplain (flavor : FlavorInfo) (analyze : Bool) (s : Server δ θ ν) : Statement δ θ ν → Server δ θ ν
  | .control _ => s
  | .command kind plans run aside =>
      if analyze && plans && mysqlRuns flavor kind then
        ⟨match run s.connection.seen with
          | .changed d => s.connection.write d
          | .failed => s.connection
          | .rolledBack => s.connection.discard, aside s.sequences⟩
      else s

end Mysql

section Sqlite
variable [DecidableEq ν]

def sqlitePlans : Statement δ θ ν → Bool
  | .control _ => true
  | .command _ plans _ _ => plans

def sqliteControl (c : Connection δ ν) : TxCommand ν → Connection δ ν
  | .begin => if c.transaction.isSome then c else c.start
  | .commit => c.keep
  | .rollback => c.discard
  | .savepoint n => c.savepoint n
  | .release n => (c.release n).getD c
  | .rollbackTo n => (c.rollbackTo n).getD c

def sqliteRun (c : Connection δ ν) : Statement δ θ ν → Connection δ ν
  | .control cmd => sqliteControl c cmd
  | .command _ _ run _ => match run c.seen with
    | .changed d => c.write d
    | .failed => c
    | .rolledBack => c.discard

def undo (mark : ν) (c : Connection δ ν) : Connection δ ν :=
  match c.rollbackTo mark with
  | none => c
  | some back => (back.release mark).getD back

def sqliteExplain (mark : ν) (analyze : Bool) (s : Server δ θ ν) (stmt : Statement δ θ ν) : Server δ θ ν :=
  if sqlitePlans stmt && analyze then
    { s with connection := undo mark (sqliteRun (s.connection.savepoint mark) stmt) }
  else s

end Sqlite

def explain [DecidableEq ν] (mark : ν) (connector : Connector) (analyze : Bool) (s : Server δ θ ν)
    (stmt : Statement δ θ ν) : Server δ θ ν :=
  match connector with
  | .postgres => pgExplain analyze s stmt
  | .mysql flavor => mysqlExplain flavor analyze s stmt
  | .sqlite => sqliteExplain mark analyze s stmt

def Aside (s : Server δ θ ν) : Statement δ θ ν → Prop
  | .control _ => True
  | .command _ _ _ aside => aside s.sequences = s.sequences

def PgUnchanging (analyze : Bool) (s : Server δ θ ν) (stmt : Statement δ θ ν) : Prop :=
  s.connection.isAborted = true ∨
    if analyze then s.connection.transaction = none ∧ (pgAccepts stmt = true → Aside s stmt)
    else s.connection.transaction = none ∨ pgAccepts stmt = true

def MysqlUnchanging (flavor : FlavorInfo) (analyze : Bool) (s : Server δ θ ν) : Statement δ θ ν → Prop
  | .control _ => True
  | .command kind plans run aside => analyze = true → plans = true → mysqlRuns flavor kind = true →
      aside s.sequences = s.sequences ∧ match run s.connection.seen with
        | .changed d => d = s.connection.seen
        | .failed => True
        | .rolledBack => s.connection.transaction = none

def SqliteUnchanging [DecidableEq ν] (mark : ν) (analyze : Bool) (c : Connection δ ν) : Statement δ θ ν → Prop
  | .control .begin => True
  | .control .commit | .control .rollback => analyze = true → c.transaction = none
  | .control (.savepoint n) => analyze = true → n ≠ mark
  | .control (.release n) => analyze = true → if n = mark then mark ∉ names c else n ∉ names c
  | .control (.rollbackTo n) => analyze = true → n = mark ∨ n ∉ names c ∨
      (mark ∉ names c ∧ ∃ t ∈ c.transaction, t.savepoints.head? = some (n, t.working))
  | .command _ plans run _ => analyze = true → plans = true → run c.seen = .rolledBack → c.transaction = none

def Unchanging [DecidableEq ν] (mark : ν) (connector : Connector) (analyze : Bool) (s : Server δ θ ν)
    (stmt : Statement δ θ ν) : Prop :=
  match connector with
  | .postgres => PgUnchanging analyze s stmt
  | .mysql flavor => MysqlUnchanging flavor analyze s stmt
  | .sqlite => SqliteUnchanging mark analyze s.connection stmt

section Postgres
variable {analyze : Bool} {s : Server δ θ ν} {stmt : Statement δ θ ν}

theorem writeCommitted {c : Connection δ ν} (inTransaction : c.transaction.isSome = true) (d : δ) :
    (c.write d).committed = c.committed := by
  obtain ⟨t, open'⟩ := Option.isSome_iff_exists.mp inTransaction
  simp [write, open']

theorem writeKeeps {c : Connection δ ν} {d : δ} : c.write d = c ↔ d = c.seen := by
  obtain ⟨committed, transaction⟩ := c
  cases transaction with
  | none => simp [write, seen]
  | some t =>
    obtain ⟨begun, aborted, working, savepoints, isOpen⟩ := t
    simp [write, seen]

theorem pgRunDiscarded {c : Connection δ ν} (inTransaction : c.transaction.isSome = true) (q : θ)
    (accepted : pgAccepts stmt = true) :
    (pgRun ⟨c, q⟩ stmt).connection.discard = c.discard ∧
      ((pgRun ⟨c, q⟩ stmt).sequences = q ↔ Aside ⟨c, q⟩ stmt) := by
  cases stmt with
  | control cmd => simp [pgAccepts] at accepted
  | command kind plans run aside =>
    refine ⟨?_, Iff.rfl⟩
    simp only [pgRun]
    split
    · simp only [Connection.discard, writeCommitted inTransaction]
    · rfl

theorem pgAnalyzes (stmt : Statement δ θ ν) {c : Connection δ ν} (inTransaction : c.transaction.isSome = true) (q : θ) :
    let ran := if pgAccepts stmt then pgRun ⟨c, q⟩ stmt else ⟨c.abort, q⟩
    ran.connection.discard = c.discard ∧ (ran.sequences = q ↔ (pgAccepts stmt = true → Aside ⟨c, q⟩ stmt)) := by
  by_cases accepted : pgAccepts stmt = true
  · simpa [accepted] using pgRunDiscarded inTransaction q accepted
  · rw [if_neg accepted]
    exact ⟨rfl, by simp [accepted]⟩

theorem pgExplainKeeps : pgExplain analyze s stmt = s ↔ PgUnchanging analyze s stmt := by
  obtain ⟨⟨committed, transaction⟩, q⟩ := s
  by_cases aborted : (⟨committed, transaction⟩ : Connection δ ν).isAborted = true
  · simp [PgUnchanging, pgExplain, aborted]
  · simp only [PgUnchanging, pgExplain, aborted]
    cases analyze with
    | false =>
      by_cases accepted : pgAccepts stmt = true
      · simp [accepted]
      · cases transaction with
        | none => simp [accepted, abort]
        | some t =>
          have working : t.aborted = false := by simpa [isAborted] using aborted
          obtain ⟨begun, still, contents, savepoints, isOpen⟩ := t
          simp_all [abort]
    | true =>
      cases transaction with
      | none =>
        have started : (Connection.start (⟨committed, none⟩ : Connection δ ν)).transaction.isSome = true := rfl
        obtain ⟨left, aside⟩ := pgAnalyzes stmt started q
        have same : Aside ⟨Connection.start ⟨committed, none⟩, q⟩ stmt ↔ Aside ⟨⟨committed, none⟩, q⟩ stmt := by
          cases stmt <;> rfl
        simp only [Option.isSome_none, Bool.false_eq_true, if_false, if_true, Server.mk.injEq, left, aside, same]
        simp [Connection.discard, Connection.start]
      | some t =>
        have inTransaction : (⟨committed, some t⟩ : Connection δ ν).transaction.isSome = true := rfl
        obtain ⟨left, -⟩ := pgAnalyzes stmt inTransaction q
        simp only [Option.isSome_some, Bool.false_eq_true, if_false, if_true, Server.mk.injEq, left]
        simp [Connection.discard]

end Postgres

section Mysql

theorem mysqlExplainKeeps {flavor : FlavorInfo} {analyze : Bool} {s : Server δ θ ν} {stmt : Statement δ θ ν} :
    mysqlExplain flavor analyze s stmt = s ↔ MysqlUnchanging flavor analyze s stmt := by
  cases stmt with
  | control cmd => simp [mysqlExplain, MysqlUnchanging]
  | command kind plans run aside =>
    obtain ⟨⟨committed, transaction⟩, q⟩ := s
    by_cases runs : (analyze && plans && mysqlRuns flavor kind) = true
    · obtain ⟨⟨rfl, rfl⟩, accepted⟩ : (analyze = true ∧ plans = true) ∧ mysqlRuns flavor kind = true := by
        simpa using runs
      simp only [mysqlExplain, MysqlUnchanging, accepted, Bool.and_self, if_true, Server.mk.injEq, forall_const]
      rw [and_comm]
      refine and_congr_right fun _ => ?_
      cases run (seen ⟨committed, transaction⟩) with
      | changed d => exact writeKeeps
      | failed => simp
      | rolledBack => simp [Connection.discard, eq_comm]
    · simp only [mysqlExplain, MysqlUnchanging, if_neg runs, true_iff]
      intro analyzed planned accepted
      exact absurd (by simp [analyzed, planned, accepted]) runs

end Mysql

section Sqlite
variable [DecidableEq ν] {mark n : ν} {c : Connection δ ν}

theorem undoAbsent (absent : mark ∉ c.names) : undo mark c = c := by
  simp [undo, rollbackToAbsent absent]

theorem undoShrinks (present : mark ∈ c.names) : (undo mark c).depth < c.depth := by
  obtain ⟨back, went, still, shorter⟩ := rollbackToPresent present
  obtain ⟨out, left, shrunk⟩ := releaseShrinks still
  simp only [undo, went, left, Option.getD_some]
  omega

theorem undoDepth (mark : ν) (c : Connection δ ν) : (undo mark c).depth ≤ c.depth := by
  by_cases present : mark ∈ c.names
  · exact (undoShrinks present).le
  · rw [undoAbsent present]

theorem undoWrite (mark : ν) (c : Connection δ ν) (d : δ) : undo mark ((c.savepoint mark).write d) = c := by
  have undone := savepointUndone c mark d
  obtain ⟨back, went, out⟩ := Option.bind_eq_some_iff.mp undone
  simp [undo, went, out]

theorem undoNothing (mark : ν) (c : Connection δ ν) : undo mark (c.savepoint mark) = c := by
  have same : (c.savepoint mark).write (c.savepoint mark).seen = c.savepoint mark := by
    obtain ⟨committed, transaction⟩ := c
    cases transaction <;> rfl
  rw [← same, undoWrite]

theorem undoClosed (mark : ν) (contents : δ) : undo mark ⟨contents, none⟩ = ⟨contents, none⟩ := rfl

theorem depthApart {d : Connection δ ν} (shorter : d.depth < c.depth) : undo mark d ≠ c := by
  intro same
  have left := undoDepth mark d
  rw [same] at left
  omega

theorem undoKeeps : undo mark c = c ↔ mark ∉ c.names := by
  constructor
  · intro same present
    have shorter := undoShrinks present
    rw [same] at shorter
    omega
  · exact undoAbsent

theorem savepointKeeps : undo mark ((c.savepoint mark).savepoint n) = c ↔ n ≠ mark := by
  constructor
  · rintro same rfl
    rw [undoNothing] at same
    have deeper := savepointDepth c n
    rw [same] at deeper
    omega
  · intro apart
    obtain ⟨committed, transaction⟩ := c
    cases transaction with
    | none => simp [undo, Connection.savepoint, Connection.rollbackTo, Connection.release, backToHead, backToOther apart]
    | some t =>
      obtain ⟨begun, aborted, working, savepoints, isOpen⟩ := t
      simp [undo, Connection.savepoint, Connection.rollbackTo, Connection.release, backToHead, backToOther apart, isOpen]

theorem releaseKeeps : undo mark (((c.savepoint mark).release n).getD (c.savepoint mark)) = c ↔
    if n = mark then mark ∉ c.names else n ∉ c.names := by
  split
  · next same => rw [same, releaseOwn, Option.getD_some, undoKeeps]
  · next apart =>
    rw [releaseBelow apart]
    by_cases present : n ∈ c.names
    · obtain ⟨d, left, shorter⟩ := releaseShrinks present
      simp [left, present, depthApart shorter]
    · simp [releaseAbsent present, present, undoNothing]

theorem rollbackToKeeps : undo mark (((c.savepoint mark).rollbackTo n).getD (c.savepoint mark)) = c ↔
    n = mark ∨ n ∉ c.names ∨
      (mark ∉ c.names ∧ ∃ t ∈ c.transaction, t.savepoints.head? = some (n, t.working)) := by
  by_cases own : n = mark
  · simp [own, rollbackToOwn, undoNothing]
  rw [rollbackToBelow own, ← rollbackToStays]
  by_cases present : n ∈ c.names
  · obtain ⟨d, went, -, kept⟩ := rollbackToPresent present
    simp only [went, own, present, Option.getD_some, not_true_eq_false, false_or, Option.some.injEq]
    constructor
    · intro same
      have absent : mark ∉ d.names := fun inside => by
        have shorter := undoShrinks inside
        rw [same] at shorter
        omega
      rw [undoAbsent absent] at same
      exact ⟨same ▸ absent, same⟩
    · rintro ⟨absent, rfl⟩
      exact undoAbsent absent
  · simp [rollbackToAbsent present, own, present, undoNothing]

theorem sqliteControlKeeps {cmd : TxCommand ν} :
    undo mark (sqliteControl (c.savepoint mark) cmd) = c ↔
      SqliteUnchanging mark true c (.control cmd : Statement δ θ ν) := by
  cases cmd with
  | «begin» =>
    simp only [sqliteControl, SqliteUnchanging, if_pos (savepointOpen c mark), iff_true]
    exact undoNothing mark c
  | commit =>
    simp only [sqliteControl, SqliteUnchanging, forall_const]
    obtain ⟨committed, transaction⟩ := c
    cases transaction <;> simp [Connection.keep, Connection.savepoint, undoClosed, seen]
  | rollback =>
    simp only [sqliteControl, SqliteUnchanging, forall_const]
    obtain ⟨committed, transaction⟩ := c
    cases transaction <;> simp [Connection.discard, Connection.savepoint, undoClosed]
  | savepoint n => simpa [sqliteControl, SqliteUnchanging] using savepointKeeps
  | release n => simpa only [sqliteControl, SqliteUnchanging, forall_const] using releaseKeeps
  | rollbackTo n => simpa only [sqliteControl, SqliteUnchanging, forall_const] using rollbackToKeeps

theorem sqliteExplainKeeps {analyze : Bool} {s : Server δ θ ν} {stmt : Statement δ θ ν} :
    sqliteExplain mark analyze s stmt = s ↔ SqliteUnchanging mark analyze s.connection stmt := by
  obtain ⟨c, q⟩ := s
  cases analyze with
  | false => cases stmt with
    | control cmd => cases cmd <;> simp [sqliteExplain, SqliteUnchanging]
    | command kind plans run aside => simp [sqliteExplain, SqliteUnchanging]
  | true => cases stmt with
    | control cmd => simpa [sqliteExplain, sqlitePlans, sqliteRun] using sqliteControlKeeps
    | command kind plans run aside =>
      cases plans with
      | false => simp [sqliteExplain, SqliteUnchanging, sqlitePlans]
      | true =>
        simp only [sqliteExplain, SqliteUnchanging, sqlitePlans, sqliteRun, savepointSeen, Bool.and_self, if_true,
          Server.mk.injEq, and_true, forall_const]
        cases run c.seen with
        | changed d => simp [undoWrite]
        | failed => simp [undoNothing]
        | rolledBack =>
          obtain ⟨committed, transaction⟩ := c
          cases transaction <;> simp [Connection.discard, Connection.savepoint, undoClosed]

end Sqlite

theorem explainKeeps [DecidableEq ν] (mark : ν) (connector : Connector) (analyze : Bool) (s : Server δ θ ν)
    (stmt : Statement δ θ ν) :
    explain mark connector analyze s stmt = s ↔ Unchanging mark connector analyze s stmt := by
  cases connector with
  | postgres => exact pgExplainKeeps
  | mysql flavor => exact mysqlExplainKeeps
  | sqlite => exact sqliteExplainKeeps

-- MariaDB commits the deletion it times, and a COMMIT on SQLite commits what the caller had pending.
theorem explainCommits :
    (explain "dbadmin_explain_analyze" (.mysql ⟨false, true⟩) true ⟨⟨["row"], none⟩, ()⟩
      (.command .delete true (fun _ => .changed []) id)).connection.committed = [] ∧
    (explain "dbadmin_explain_analyze" .sqlite true
      (⟨⟨["row"], some ⟨true, false, [], [], Or.inl rfl⟩⟩, ()⟩ : Server (List String) Unit String)
      (.control .commit)).connection.committed = [] :=
  ⟨rfl, rfl⟩

end DatabaseAdmin.ExplainEffects
