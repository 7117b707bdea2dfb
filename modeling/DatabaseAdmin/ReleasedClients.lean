import DatabaseAdmin.MysqlConnector
import DatabaseAdmin.PgConnector

/-! No client goes back to its pool inside a transaction. The connectors know of a
transaction by one flag that only `sessionCommand` sets, so a transaction begun by a user's
own SQL is the one thing they do not close. -/
namespace DatabaseAdmin
open CodeUnits ConnectorPool StepSystem

namespace PgConnector

def IdleSession (σ : PgSession) : Prop := σ.inTx = false

section Transactions
variable {κ ι : Type} [DecidableEq κ] {cfg : PgConfig} {s : PgState κ ι}

-- A user's SQL leaves no transaction open on a pooled client, nor on a session that is
-- closed while its flag is off.
def LeavesIdle (cfg : PgConfig) (s : PgState κ ι) : PgAction κ ι → Prop
  | .query (.pooled c) schema statement _ | .stream (.pooled c) schema statement =>
      ∀ s' ∈ ensureSearchPath cfg s c schema, (statement.effect (s'.server c)).inTx = false
  | .countTable c statement | .explain c false statement =>
      (statement.effect (s.server c)).inTx = false
  | .closeSession id => ∀ e ∈ s.sessions id, e.inTransaction = false →
      (s.server e.client).inTx = false
  | _ => True

instance leavesIdleDecidable [DecidableEq ι] (cfg : PgConfig) (s : PgState κ ι) :
    ∀ a, Decidable (LeavesIdle cfg s a)
  | .query (.pooled c) schema statement _ | .stream (.pooled c) schema statement =>
      inferInstanceAs (Decidable (∀ s' ∈ ensureSearchPath cfg s c schema,
        (statement.effect (s'.server c)).inTx = false))
  | .countTable c statement | .explain c false statement =>
      inferInstanceAs (Decidable ((statement.effect (s.server c)).inTx = false))
  | .closeSession id => inferInstanceAs (Decidable (∀ e ∈ s.sessions id,
      e.inTransaction = false → (s.server e.client).inTx = false))
  | .query (.session _) .. | .stream (.session _) .. | .fetchMore .. | .closeCursor _
  | .applyChangeset .. | .explain _ true _ | .openSession .. | .sessionCommand .. => isTrue trivial

theorem rollbackIdle (σ : PgSession) : IdleSession (rollbackTx σ) := by
  unfold rollbackTx IdleSession
  split
  · rfl
  · rename_i none
    simpa using none

theorem commitIdle (σ : PgSession) : IdleSession (commitTx σ) := by
  unfold commitTx
  split
  · exact rollbackIdle σ
  · rfl

theorem ensureIdle (idle : Idle IdleSession s) {c : κ} (busy : Busy s c) {schema : Option Text}
    {s' : PgState κ ι} (ensured : ensureSearchPath cfg s c schema = some s') :
    Idle IdleSession s' ∧ s'.holder = s.holder ∧ (s'.server c).inTx = (s.server c).inTx := by
  unfold ensureSearchPath at ensured
  dsimp only at ensured
  split at ensured
  · cases ensured
    exact ⟨idleRemember idle c _, rfl, rfl⟩
  · obtain ⟨σ, set, rfl⟩ := Option.map_eq_some_iff.mp ensured
    refine ⟨idleRemember (idleAnswer idle busy _) c _, rfl, ?_⟩
    unfold setPath at set
    split at set
    · contradiction
    · cases set
      simp [remember, answer]

theorem applyIdle (cfg : PgConfig) (idle : Idle IdleSession s) {c : κ}
    (request : s.holder c = some .request) (outcomes : List ChangeOutcome) :
    Idle IdleSession (applyStatements cfg s c outcomes) ∧
      (applyStatements cfg s c outcomes).holder c = some .request ∧
      IdleSession ((applyStatements cfg s c outcomes).server c) := by
  induction outcomes generalizing s with
  | nil => exact ⟨idleAnswer idle (Or.inl request) _, request, by simp [applyStatements, answer, commitIdle]⟩
  | cons outcome rest ih =>
    cases outcome with
    | matched => exact ih (idleSend idle (Or.inl request) _ _ _) request
    | mismatched =>
      exact ⟨idleAnswer (idleSend idle (Or.inl request) _ _ _) (Or.inl request) _, request,
        by simp [applyStatements, answer, rollbackIdle]⟩
    | error =>
      exact ⟨idleAnswer (idleSend idle (Or.inl request) _ _ _) (Or.inl request) _, request,
        by simp [applyStatements, answer, rollbackIdle]⟩

variable [DecidableEq ι]

theorem queryIdle (idle : Idle IdleSession s) {lease : LeaseOf κ ι} {schema : Option Text}
    {statement : PgStatement} {keeps : Option ι} {s' : PgState κ ι}
    (leaves : ∀ c, lease = .pooled c → ∀ s' ∈ ensureSearchPath cfg s c schema,
      (statement.effect (s'.server c)).inTx = false)
    (moved : withLease s lease (query cfg schema statement keeps) = some s') :
    Idle IdleSession s' :=
  idleLeased idle PgSession.path (pathOf schema cfg.defaultSearchPath) statement.effect keeps
    (ensureSearchPath cfg · · schema) (fun s c _ => by rw [query]; cases ensureSearchPath cfg s c schema <;> rfl)
    (fun idle busy ensured => (ensureIdle idle busy ensured).imp_right And.left) (fun s c h => ensureHeld s c schema h) leaves moved

theorem stepIdle {s' : PgState κ ι} {a : PgAction κ ι} (idle : Idle IdleSession s)
    (leaves : LeavesIdle cfg s a) (moved : step cfg s a = some s') : Idle IdleSession s' := by
  cases a with
  | query lease schema statement keeps =>
    refine queryIdle idle (fun c same => ?_) moved
    subst same
    exact leaves
  | stream lease schema statement =>
    refine queryIdle idle (fun c same => ?_) moved
    subst same
    exact leaves
  | fetchMore cursor ends =>
    cases moved
    exact idleFetchMore idle cursor ends
  | closeCursor cursor =>
    cases moved
    exact idleCloseCursor idle cursor
  | countTable c statement =>
    obtain ⟨s1, taken, rfl⟩ := Option.map_eq_some_iff.mp moved
    obtain ⟨idle1, request, rfl, _⟩ := idleCheckout idle taken
    refine idleRelease (idleSend idle1 (Or.inl request) _ _ _) request ?_
    have leaves : (statement.effect (s.server c)).inTx = false := leaves
    simpa [IdleSession] using leaves
  | applyChangeset c outcomes =>
    simp only [step] at moved
    split at moved
    · cases moved
      exact idle
    · obtain ⟨s1, taken, rfl⟩ := Option.map_eq_some_iff.mp moved
      obtain ⟨idle1, request, rfl, _⟩ := idleCheckout idle taken
      obtain ⟨idle2, request2, done⟩ :=
        applyIdle cfg (idleAnswer idle1 (Or.inl request) beginTx) request outcomes
      exact idleRelease idle2 request2 done
  | explain c analyze statement =>
    obtain ⟨s1, taken, rfl⟩ := Option.map_eq_some_iff.mp moved
    obtain ⟨idle1, request, rfl, _⟩ := idleCheckout idle taken
    unfold explain
    cases analyze with
    | true =>
      have idle2 := idleAnswer (idleSend (idleAnswer idle1 (Or.inl request) beginTx) (Or.inl request)
        PgSession.path cfg.defaultSearchPath statement.effect) (Or.inl request) rollbackTx
      refine idleRelease idle2 request ?_
      simp [answer, rollbackIdle]
    | false =>
      refine idleRelease (idleSend idle1 (Or.inl request) _ _ _) request ?_
      have leaves : (statement.effect (s.server c)).inTx = false := leaves
      simpa [IdleSession] using leaves
  | openSession id c => exact idleOpenSession idle moved
  | sessionCommand id cmd ok =>
    cases moved
    unfold sessionCommand
    split
    · exact idle
    · rename_i e here
      have busy : Busy s e.client := Or.inr ⟨id, idle.pinned id e here⟩
      split
      · exact idleFlag (idleAnswer idle busy _) here _
      · exact idleAnswer idle busy _
  | closeSession id =>
    cases moved
    unfold closeSession
    split
    · exact idle
    · rename_i e here
      have busy : Busy s e.client := Or.inr ⟨id, idle.pinned id e here⟩
      split
      · refine idleEndSession (idleAnswer idle busy rollbackTx) here ?_
        simp [answer, rollbackIdle]
      · rename_i flag
        exact idleEndSession idle here (leaves e here (by simpa using flag))

end Transactions

end PgConnector

namespace MysqlConnector

def IdleSession (σ : MysqlSession) : Prop := σ.inTx = false

section Transactions
variable {κ ι : Type} [DecidableEq κ] {cfg : MysqlConfig} {s : MysqlState κ ι}

def LeavesIdle [DecidableEq ι] (cfg : MysqlConfig) (s : MysqlState κ ι) : MysqlAction κ ι → Prop
  | .query (.pooled c) database known statement _ | .stream (.pooled c) database known statement =>
      ∀ s' ∈ ensureDatabase cfg s c database known, (statement.effect (s'.server c)).inTx = false
  | .countTable c _ statement | .explain c statement =>
      (statement.effect (s.server c)).inTx = false
  | .closeSession id => ∀ e ∈ s.sessions id, e.inTransaction = false →
      (s.server e.client).inTx = false
  | _ => True

instance leavesIdleDecidable [DecidableEq ι] (cfg : MysqlConfig) (s : MysqlState κ ι) :
    ∀ a, Decidable (LeavesIdle cfg s a)
  | .query (.pooled c) database known statement _ | .stream (.pooled c) database known statement =>
      inferInstanceAs (Decidable (∀ s' ∈ ensureDatabase cfg s c database known,
        (statement.effect (s'.server c)).inTx = false))
  | .countTable c _ statement | .explain c statement =>
      inferInstanceAs (Decidable ((statement.effect (s.server c)).inTx = false))
  | .closeSession id => inferInstanceAs (Decidable (∀ e ∈ s.sessions id,
      e.inTransaction = false → (s.server e.client).inTx = false))
  | .query (.session _) .. | .stream (.session _) .. | .fetchMore .. | .closeCursor _
  | .applyChangeset .. | .openSession .. | .sessionCommand .. => isTrue trivial

theorem ensureIdle (idle : Idle IdleSession s) {c : κ} (busy : Busy s c) {database : Option Text}
    {known : Bool} {s' : MysqlState κ ι} (ensured : ensureDatabase cfg s c database known = some s') :
    Idle IdleSession s' ∧ s'.holder = s.holder := by
  unfold ensureDatabase at ensured
  split at ensured
  · cases ensured
    exact ⟨idle, rfl⟩
  · split at ensured
    · cases ensured
      exact ⟨idle, rfl⟩
    · split at ensured
      · cases ensured
        exact ⟨idleRemember (idleAnswer idle busy _) c _, rfl⟩
      · contradiction

theorem applyIdle {asked : Option Text} (idle : Idle IdleSession s) {c : κ}
    (request : s.holder c = some .request) (outcomes : List ChangeOutcome) :
    Idle IdleSession (applyStatements asked s c outcomes) ∧
      (applyStatements asked s c outcomes).holder c = some .request ∧
      IdleSession ((applyStatements asked s c outcomes).server c) := by
  induction outcomes generalizing s with
  | nil =>
    exact ⟨idleAnswer idle (Or.inl request) _, request,
      by simp [applyStatements, IdleSession, endTransaction]⟩
  | cons outcome rest ih =>
    cases outcome with
    | matched => exact ih (idleSend idle (Or.inl request) _ _ _) request
    | mismatched =>
      exact ⟨idleAnswer (idleSend idle (Or.inl request) _ _ _) (Or.inl request) _, request,
        by simp [applyStatements, IdleSession, endTransaction]⟩
    | error =>
      exact ⟨idleAnswer (idleSend idle (Or.inl request) _ _ _) (Or.inl request) _, request,
        by simp [applyStatements, IdleSession, endTransaction]⟩

theorem poolQueryIdle (idle : Idle IdleSession s) {c : κ} {database : Option Text}
    {statement : MysqlStatement} {s' : MysqlState κ ι}
    (leaves : (statement.effect (s.server c)).inTx = false)
    (moved : (checkout s c).map (fun s => poolQuery cfg s c database statement) = some s') :
    Idle IdleSession s' := by
  obtain ⟨s1, taken, rfl⟩ := Option.map_eq_some_iff.mp moved
  obtain ⟨idle1, request, rfl, _⟩ := idleCheckout idle taken
  refine idleRelease (idleSend idle1 (Or.inl request) _ _ _) request ?_
  simpa [IdleSession] using leaves

variable [DecidableEq ι]

theorem queryIdle (idle : Idle IdleSession s) {lease : LeaseOf κ ι} {database : Option Text}
    {known : Bool} {statement : MysqlStatement} {keeps : Option ι} {s' : MysqlState κ ι}
    (leaves : ∀ c, lease = .pooled c → ∀ s' ∈ ensureDatabase cfg s c database known,
      (statement.effect (s'.server c)).inTx = false)
    (moved : withLease s lease (query cfg database known statement keeps) = some s') :
    Idle IdleSession s' :=
  idleLeased idle MysqlSession.db (cfg.asked database) statement.effect keeps (ensureDatabase cfg · · database known)
    (fun s c _ => by rw [query]; cases ensureDatabase cfg s c database known <;> rfl)
    (fun idle busy ensured => ensureIdle idle busy ensured) (fun s c h => ensureHeld s c database known h) leaves moved

theorem stepIdle {s' : MysqlState κ ι} {a : MysqlAction κ ι} (idle : Idle IdleSession s)
    (leaves : LeavesIdle cfg s a) (moved : step cfg s a = some s') : Idle IdleSession s' := by
  cases a with
  | query lease database known statement keeps =>
    refine queryIdle idle (fun c same => ?_) moved
    subst same
    exact leaves
  | stream lease database known statement =>
    refine queryIdle idle (fun c same => ?_) moved
    subst same
    exact leaves
  | fetchMore cursor ends =>
    cases moved
    exact idleFetchMore idle cursor ends
  | closeCursor cursor =>
    cases moved
    exact idleCloseCursor idle cursor
  | countTable c schema statement => exact poolQueryIdle idle leaves moved
  | explain c statement => exact poolQueryIdle idle leaves moved
  | applyChangeset c schema known outcomes =>
    simp only [step] at moved
    split at moved
    · cases moved
      exact idle
    · obtain ⟨s1, taken, rfl⟩ := Option.map_eq_some_iff.mp moved
      obtain ⟨idle1, request, rfl, _⟩ := idleCheckout idle taken
      unfold applyChangeset
      split
      · refine idleRelease (idleAnswer idle1 (Or.inl request) _) request ?_
        simp [IdleSession, endTransaction]
      · rename_i s2 ensured
        obtain ⟨idle2, holder⟩ := ensureIdle idle1 (Or.inl request) ensured
        have request2 : s2.holder c = some .request := holder ▸ request
        obtain ⟨idle3, request3, done⟩ :=
          applyIdle (idleAnswer idle2 (Or.inl request2) beginTransaction) request2 outcomes
        exact idleRelease idle3 request3 done
  | openSession id c => exact idleOpenSession idle moved
  | sessionCommand id cmd ok =>
    cases moved
    unfold sessionCommand
    split
    · exact idle
    · rename_i e here
      have busy : Busy s e.client := Or.inr ⟨id, idle.pinned id e here⟩
      split
      · exact idleFlag (idleAnswer idle busy _) here _
      · exact idleAnswer idle busy _
  | closeSession id =>
    cases moved
    unfold closeSession
    split
    · exact idle
    · rename_i e here
      have busy : Busy s e.client := Or.inr ⟨id, idle.pinned id e here⟩
      split
      · refine idleEndSession (idleAnswer idle busy endTransaction) here ?_
        simp [IdleSession, endTransaction]
      · rename_i flag
        exact idleEndSession idle here (leaves e here (by simpa using flag))

end Transactions

end MysqlConnector

section Claim
variable {κ ι : Type} [DecidableEq κ] [DecidableEq ι]

theorem releasedClientsAreIdle :
    (∀ (cfg : PgConnector.PgConfig) (acts : List (PgConnector.PgAction κ ι)) s,
      runSteps (PgConnector.step cfg) (cfg.connected κ ι) acts = some s →
      Along (PgConnector.LeavesIdle cfg) (PgConnector.step cfg) (cfg.connected κ ι) acts →
      ∀ c, s.holder c = none → (s.server c).inTx = false) ∧
    (∀ (cfg : MysqlConnector.MysqlConfig) (acts : List (MysqlConnector.MysqlAction κ ι)) s,
      runSteps (MysqlConnector.step cfg) (cfg.connected κ ι) acts = some s →
      Along (MysqlConnector.LeavesIdle cfg) (MysqlConnector.step cfg) (cfg.connected κ ι) acts →
      ∀ c, s.holder c = none → (s.server c).inTx = false) := by
  constructor
  · intro cfg acts s ran along
    have fresh : Idle PgConnector.IdleSession (cfg.connected κ ι) := idleOpened rfl
    exact (runKeeps PgConnector.stepIdle fresh along ran).free
  · intro cfg acts s ran along
    have fresh : Idle MysqlConnector.IdleSession (cfg.connected κ ι) := idleOpened rfl
    exact (runKeeps MysqlConnector.stepIdle fresh along ran).free

end Claim

-- A raw BEGIN in a session the flag knows nothing of, and one on a pooled client.
theorem rawBeginLeavesTransaction :
    (¬ ∀ (cfg : PgConnector.PgConfig) (acts : List (PgConnector.PgAction Nat Nat)) s,
      runSteps (PgConnector.step cfg) (cfg.connected Nat Nat) acts = some s →
      ∀ c, s.holder c = none → (s.server c).inTx = false) ∧
    (¬ ∀ (cfg : MysqlConnector.MysqlConfig) (acts : List (MysqlConnector.MysqlAction Nat Nat)) s,
      runSteps (MysqlConnector.step cfg) (cfg.connected Nat Nat) acts = some s →
      ∀ c, s.holder c = none → (s.server c).inTx = false) := by
  constructor
  · intro all
    have idle := all ⟨none, false⟩
      [.openSession 0 0, .query (.session 0) none .begins none, .closeSession 0] _ rfl 0 rfl
    exact absurd idle (by decide)
  · intro all
    have idle := all ⟨none, false⟩ [.query (.pooled 0) none true .begins none] _ rfl 0 rfl
    exact absurd idle (by decide)

def sharedClients : List (PgConnector.PgAction Nat Nat) :=
  [.openSession 0 0, .sessionCommand 0 .begin true, .query (.session 0) (some (units "app")) .commits none,
    .query (.pooled 1) none (.other id) (some 5), .fetchMore 5 false, .closeCursor 5, .closeSession 0,
    .applyChangeset 0 [.matched, .mismatched], .explain 1 true .begins]

def sharedConnections : List (MysqlConnector.MysqlAction Nat Nat) :=
  [.openSession 0 0, .query (.session 0) none true .begins none, .sessionCommand 0 .begin true,
    .query (.pooled 1) (some (units "app")) true (.other id) (some 5), .fetchMore 5 true,
    .closeSession 0, .applyChangeset 0 (some (units "app")) false [.matched]]

theorem releasedClientsAreIdleWhenShared :
    (∃ s, runSteps (PgConnector.step ⟨none, false⟩) (PgConnector.PgConfig.connected ⟨none, false⟩ Nat Nat)
      sharedClients = some s ∧ ∀ c, s.holder c = none → (s.server c).inTx = false) ∧
    (∃ s, runSteps (MysqlConnector.step ⟨none, false⟩)
      (MysqlConnector.MysqlConfig.connected ⟨none, false⟩ Nat Nat) sharedConnections = some s ∧
      ∀ c, s.holder c = none → (s.server c).inTx = false) :=
  ⟨⟨_, rfl, releasedClientsAreIdle.1 ⟨none, false⟩ sharedClients _ rfl (by decide)⟩,
    ⟨_, rfl, releasedClientsAreIdle.2 ⟨none, false⟩ sharedConnections _ rfl (by decide)⟩⟩

end DatabaseAdmin
