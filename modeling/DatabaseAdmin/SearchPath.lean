import DatabaseAdmin.PgConnector

/-! Which search_path a statement runs under. The connector's cache is right as long as its
own SET is the only statement that changes the setting; what rolls such a SET back, or never
asks for a path, is what can break it. -/
namespace DatabaseAdmin.PgConnector
open CodeUnits ConnectorPool StepSystem

section SearchPath
variable {κ ι : Type} [DecidableEq κ] {cfg : PgConfig} {s : PgState κ ι}

def PathsHold (cfg : PgConfig) (s : PgState κ ι) : Prop :=
  Settled PgSession.path (fun cached => cached.getD cfg.defaultSearchPath) s

def changeEffect : List ChangeOutcome → PgSession → PgSession
  | [], σ => commitTx σ
  | .matched :: rest, σ => changeEffect rest σ
  | .mismatched :: _, σ => rollbackTx σ
  | .error :: _, σ => rollbackTx (raise σ)

def explainEffect (analyze : Bool) (statement : PgStatement) (σ : PgSession) : PgSession :=
  if analyze then rollbackTx (statement.effect (beginTx σ)) else statement.effect σ

def KeepsPath (f : PgSession → PgSession) (σ : PgSession) : Prop := (f σ).path = σ.path

instance keepsPathDecidable (f : PgSession → PgSession) (σ : PgSession) : Decidable (KeepsPath f σ) :=
  inferInstanceAs (Decidable ((f σ).path = σ.path))

def AtDefault (cfg : PgConfig) (s : PgState κ ι) (c : κ) : Prop :=
  (s.cache c).getD cfg.defaultSearchPath = cfg.defaultSearchPath

instance atDefaultDecidable (cfg : PgConfig) (s : PgState κ ι) (c : κ) :
    Decidable (AtDefault cfg s c) :=
  inferInstanceAs (Decidable ((s.cache c).getD cfg.defaultSearchPath = cfg.defaultSearchPath))

-- Nothing but the connector's own SET changes a search_path, and what asks for no path gets
-- a client that the cache has at the default.
def PathsKept [DecidableEq ι] (cfg : PgConfig) (s : PgState κ ι) : PgAction κ ι → Prop
  | .query lease schema statement _ | .stream lease schema statement =>
      ∀ c ∈ leaseClient s lease, ∀ s' ∈ ensureSearchPath cfg s c schema,
        KeepsPath statement.effect (s'.server c)
  | .countTable c statement => AtDefault cfg s c ∧ KeepsPath statement.effect (s.server c)
  | .applyChangeset c outcomes => (cfg.readOnly || outcomes.isEmpty) = false →
      AtDefault cfg s c ∧ KeepsPath (fun σ => changeEffect outcomes (beginTx σ)) (s.server c)
  | .explain c analyze statement =>
      AtDefault cfg s c ∧ KeepsPath (explainEffect analyze statement) (s.server c)
  | .sessionCommand id cmd ok => ∀ e ∈ s.sessions id,
      KeepsPath (if ok then cmd.effect else cmd.refused) (s.server e.client)
  | .closeSession id => ∀ e ∈ s.sessions id, e.inTransaction = true →
      KeepsPath rollbackTx (s.server e.client)
  | .fetchMore .. | .closeCursor _ | .openSession .. => True

instance pathsKeptDecidable [DecidableEq ι] (cfg : PgConfig) (s : PgState κ ι) : ∀ a, Decidable (PathsKept cfg s a)
  | .query lease schema statement _ | .stream lease schema statement =>
      inferInstanceAs (Decidable (∀ c ∈ leaseClient s lease, ∀ s' ∈ ensureSearchPath cfg s c schema,
        KeepsPath statement.effect (s'.server c)))
  | .countTable c statement =>
      inferInstanceAs (Decidable (AtDefault cfg s c ∧ KeepsPath statement.effect (s.server c)))
  | .applyChangeset c outcomes =>
      inferInstanceAs (Decidable ((cfg.readOnly || outcomes.isEmpty) = false → AtDefault cfg s c ∧
        KeepsPath (fun σ => changeEffect outcomes (beginTx σ)) (s.server c)))
  | .explain c analyze statement => inferInstanceAs (Decidable (AtDefault cfg s c ∧
      KeepsPath (explainEffect analyze statement) (s.server c)))
  | .sessionCommand id cmd ok => inferInstanceAs (Decidable (∀ e ∈ s.sessions id,
      KeepsPath (if ok then cmd.effect else cmd.refused) (s.server e.client)))
  | .closeSession id => inferInstanceAs (Decidable (∀ e ∈ s.sessions id, e.inTransaction = true →
      KeepsPath rollbackTx (s.server e.client)))
  | .fetchMore .. | .closeCursor _ | .openSession .. => isTrue trivial

theorem beginKeepsPath (σ : PgSession) : (beginTx σ).path = σ.path := by
  unfold beginTx
  split <;> rfl

theorem ensurePath (paths : PathsHold cfg s) {c : κ} {schema : Option Text} {s' : PgState κ ι}
    (ensured : ensureSearchPath cfg s c schema = some s') :
    PathsHold cfg s' ∧ (s'.server c).path = pathOf schema cfg.defaultSearchPath := by
  unfold ensureSearchPath at ensured
  dsimp only at ensured
  split at ensured
  · rename_i cached
    cases ensured
    have found := (paths.coherent c).trans cached
    exact ⟨settledCache paths found, found⟩
  · obtain ⟨σ, set, rfl⟩ := Option.map_eq_some_iff.mp ensured
    unfold setPath at set
    split at set
    · contradiction
    · cases set
      exact ⟨settledSet paths rfl, by simp [remember]⟩

theorem heldPath (paths : PathsHold cfg s) (c : κ) (holder : Option (Holder ι)) :
    PathsHold cfg (hold s c holder) :=
  settledSame paths rfl rfl rfl

theorem applyPath (paths : PathsHold cfg s) {c : κ} (atDefault : AtDefault cfg s c)
    (outcomes : List ChangeOutcome)
    (keeps : KeepsPath (changeEffect outcomes) (s.server c)) :
    PathsHold cfg (applyStatements cfg s c outcomes) := by
  have found : (s.server c).path = cfg.defaultSearchPath := (paths.coherent c).trans atDefault
  induction outcomes generalizing s with
  | nil => exact settledAnswer paths keeps
  | cons outcome rest ih =>
    have matched : PathsHold cfg (sendPg s c cfg.defaultSearchPath id) := settledSend paths found rfl
    cases outcome with
    | matched =>
      have next : (sendPg s c cfg.defaultSearchPath id).server c = s.server c := sendSelf _ _ _ _ _
      refine ih matched atDefault ?_ ?_
      · rw [next]
        exact keeps
      · rw [next]
        exact found
    | mismatched =>
      refine settledAnswer matched ?_
      rw [sendPg, sendSelf]
      exact keeps
    | error =>
      have raised : PathsHold cfg (sendPg s c cfg.defaultSearchPath raise) := settledSend paths found rfl
      refine settledAnswer raised ?_
      rw [sendPg, sendSelf]
      exact keeps

theorem directPath (paths : PathsHold cfg s) {c : κ} {statement : PgStatement}
    (kept : AtDefault cfg s c ∧ KeepsPath statement.effect (s.server c)) :
    PathsHold cfg (release (sendPg s c cfg.defaultSearchPath statement.effect) c) := by
  have found : (s.server c).path = cfg.defaultSearchPath := (paths.coherent c).trans kept.1
  exact settledSame (settledSend paths found kept.2) rfl rfl rfl

theorem explainPath (paths : PathsHold cfg s) {c : κ} {statement : PgStatement}
    (kept : AtDefault cfg s c ∧ KeepsPath (explainEffect true statement) (s.server c)) :
    PathsHold cfg (explain cfg s c true statement) := by
  have found : (s.server c).path = cfg.defaultSearchPath := (paths.coherent c).trans kept.1
  refine settledMove paths c (fun d different => ?_) ?_ rfl (fun e member => ?_)
  · rw [explain, if_pos rfl, release, holdServer, answerOther _ _ different, sendPg, send,
      answerOther _ _ different]
    exact answerOther _ _ different
  · rw [explain, if_pos rfl, release, holdServer, answerSelf, sendPg, sendSelf, answerSelf]
    exact kept.2
  · rcases List.mem_cons.mp member with rfl | old
    · refine Or.inr ?_
      rw [answerSelf, beginKeepsPath]
      exact found
    · exact Or.inl old

variable [DecidableEq ι]

theorem queryPath (paths : PathsHold cfg s) {c : κ} {pinned : Bool} {schema : Option Text}
    {statement : PgStatement} {keeps : Option ι} {s' : PgState κ ι}
    (kept : ∀ s' ∈ ensureSearchPath cfg s c schema, KeepsPath statement.effect (s'.server c))
    (moved : query cfg schema statement keeps s c pinned = some s') : PathsHold cfg s' := by
  unfold query at moved
  split at moved
  · exact settledFinish paths moved
  · rename_i s2 ensured
    obtain ⟨paths2, found⟩ := ensurePath paths ensured
    exact settledFinish (settledSend paths2 found (kept s2 ensured)) moved

theorem leasePath (paths : PathsHold cfg s) {lease : LeaseOf κ ι} {schema : Option Text}
    {statement : PgStatement} {keeps : Option ι} {s' : PgState κ ι}
    (kept : ∀ c ∈ leaseClient s lease, ∀ s' ∈ ensureSearchPath cfg s c schema,
      KeepsPath statement.effect (s'.server c))
    (moved : withLease s lease (query cfg schema statement keeps) = some s') : PathsHold cfg s' := by
  cases lease with
  | pooled c =>
    obtain ⟨s1, taken, moved⟩ := Option.bind_eq_some_iff.mp moved
    obtain rfl := checkoutHold taken
    refine queryPath (heldPath paths c _) (fun s2 ensured => ?_) moved
    rw [ensureHeld] at ensured
    obtain ⟨s3, before, rfl⟩ := Option.map_eq_some_iff.mp ensured
    exact kept c rfl s3 before
  | session id =>
    unfold withLease at moved
    dsimp only at moved
    split at moved
    · cases moved
      exact paths
    · rename_i e here
      exact queryPath paths (kept e.client (by simp [leaseClient, here])) moved

theorem stepPath {s' : PgState κ ι} {a : PgAction κ ι} (paths : PathsHold cfg s)
    (kept : PathsKept cfg s a) (moved : step cfg s a = some s') : PathsHold cfg s' := by
  cases a with
  | query lease schema statement keeps => exact leasePath paths kept moved
  | stream lease schema statement => exact leasePath paths kept moved
  | fetchMore cursor ends =>
    cases moved
    exact settledFetchMore paths cursor ends
  | closeCursor cursor =>
    cases moved
    exact settledFetchMore paths cursor true
  | countTable c statement =>
    obtain ⟨s1, taken, rfl⟩ := Option.map_eq_some_iff.mp moved
    obtain rfl := checkoutHold taken
    exact directPath (heldPath paths c _) kept
  | applyChangeset c outcomes =>
    simp only [step] at moved
    split at moved
    · cases moved
      exact paths
    · rename_i runs
      obtain ⟨s1, taken, rfl⟩ := Option.map_eq_some_iff.mp moved
      obtain rfl := checkoutHold taken
      obtain ⟨atDefault, keeps⟩ := kept (by simpa using runs)
      have begun : PathsHold cfg (answer (hold s c (some .request)) c beginTx) :=
        settledAnswer (heldPath paths c _) (beginKeepsPath _)
      refine settledSame (applyPath begun atDefault outcomes ?_) rfl rfl rfl
      rw [KeepsPath, answerSelf, beginKeepsPath]
      exact keeps
  | explain c analyze statement =>
    obtain ⟨s1, taken, rfl⟩ := Option.map_eq_some_iff.mp moved
    obtain rfl := checkoutHold taken
    cases analyze with
    | true => exact explainPath (heldPath paths c _) kept
    | false => exact directPath (heldPath paths c _) kept
  | openSession id c =>
    simp only [step, openSession] at moved
    split at moved
    · cases moved
      exact settledSame paths rfl rfl rfl
    · contradiction
  | sessionCommand id cmd ok =>
    cases moved
    unfold sessionCommand
    split
    · exact paths
    · rename_i e here
      have keeps := kept e here
      split
      · rename_i granted
        rw [granted] at keeps
        exact settledSame (settledAnswer paths keeps) rfl rfl rfl
      · rename_i refused
        rw [if_neg refused] at keeps
        exact settledAnswer paths keeps
  | closeSession id =>
    cases moved
    unfold closeSession
    split
    · exact paths
    · rename_i e here
      split
      · rename_i flag
        exact settledSame (settledAnswer paths (kept e here flag)) rfl rfl rfl
      · exact settledSame paths rfl rfl rfl

theorem statementsFindTheirPath (cfg : PgConfig) (acts : List (PgAction κ ι)) {s : PgState κ ι}
    (ran : runSteps (step cfg) (cfg.connected κ ι) acts = some s)
    (kept : Along (PathsKept cfg) (step cfg) (cfg.connected κ ι) acts) : PathsHold cfg s := by
  have fresh : PathsHold cfg (cfg.connected κ ι) := settledOpened rfl
  exact runKeeps stepPath fresh kept ran

end SearchPath

-- The SET that the first query made is undone by the ROLLBACK, and the cache does not know.
theorem rolledBackPathIsCached : ¬ ∀ (cfg : PgConfig) (acts : List (PgAction Nat Nat)) s,
    runSteps (step cfg) (cfg.connected Nat Nat) acts = some s → PathsHold cfg s := by
  intro all
  have paths := all ⟨none, false⟩
    [.openSession 0 0, .sessionCommand 0 .begin true,
      .query (.session 0) (some (units "app")) (.other id) none, .sessionCommand 0 .rollback true,
      .query (.session 0) (some (units "app")) (.other id) none] _ rfl
  exact absurd (paths.truthful _ (List.mem_cons_self ..)) (by decide)

def pathsInTurn : List (PgAction Nat Nat) :=
  [.openSession 0 0, .query (.session 0) (some (units "app")) (.other id) none,
    .sessionCommand 0 .begin true, .query (.session 0) (some (units "app")) .begins none,
    .sessionCommand 0 .rollback true, .query (.pooled 1) (some (units "app")) (.other raise) (some 3),
    .closeCursor 3, .countTable 2 (.other id), .explain 2 true (.setsPath (units "public")),
    .applyChangeset 2 [.matched, .error], .query (.pooled 1) none .commits none, .closeSession 0]

theorem statementsFindTheirPathInTurn : ∃ s,
    runSteps (step ⟨some (units "main"), false⟩)
      (PgConfig.connected ⟨some (units "main"), false⟩ Nat Nat) pathsInTurn = some s ∧
    s.sent.length = 8 ∧ PathsHold ⟨some (units "main"), false⟩ s :=
  ⟨_, rfl, by decide, statementsFindTheirPath ⟨some (units "main"), false⟩ pathsInTurn rfl (by decide)⟩

end DatabaseAdmin.PgConnector
