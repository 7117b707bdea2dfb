import DatabaseAdmin.StepSystem
import Mathlib.Data.Fintype.Basic

/-! The run map of the PostgreSQL and the MySQL connector and the cancels that go out over a second
connection. -/
namespace DatabaseAdmin.RunCancels
open StepSystem Function

inductive Server where
  | postgres
  | mysql
  deriving DecidableEq

inductive Phase where
  | query
  | cursor
  | closing
  deriving DecidableEq

structure Work (κ ρ : Type) where
  client : κ
  runId : Option ρ
  pinned : Bool
  phase : Phase
  deriving DecidableEq

inductive Place where
  | pool
  | lease
  | session
  deriving DecidableEq

structure Kill (κ ι ρ : Type) where
  runId : ρ
  client : κ
  found : Option (ι × Option ρ)

structure RunState (κ ι ρ : Type) where
  clients : κ → Place
  works : ι → Option (Work κ ρ)
  runs : ρ → Option κ
  executing : κ → Option (ι × Option ρ)
  cancels : ι → Option (ρ × κ)
  kills : List (Kill κ ι ρ)

def idle (κ ι ρ : Type) : RunState κ ι ρ :=
  ⟨fun _ => .pool, fun _ => none, fun _ => none, fun _ => none, fun _ => none, []⟩

inductive RunAction (κ ι ρ : Type) where
  | openSession (client : κ)
  | closeSession (client : κ)
  | query (id : ι) (client : κ) (runId : Option ρ) (pinned : Bool)
  | execute (id : ι)
  | complete (client : κ)
  | keepCursor (id : ι)
  | finishQuery (id : ι)
  | fetchMore (id : ι)
  | closeCursor (id : ι)
  | closed (id : ι)
  | cancel (id : ι) (runId : ρ)
  | deliver (id : ι)
  | drop (id : ι)

section Operations
variable {κ ι ρ : Type} [DecidableEq κ] [DecidableEq ι] [DecidableEq ρ]

def register (s : RunState κ ι ρ) (c : κ) : Option ρ → RunState κ ι ρ
  | none => s
  | some r => { s with runs := update s.runs r (some c) }

-- By key alone: whoever registered last under the id loses its entry.
def unregister (s : RunState κ ι ρ) : Option ρ → RunState κ ι ρ
  | none => s
  | some r => { s with runs := update s.runs r none }

def release (s : RunState κ ι ρ) (w : Work κ ρ) : RunState κ ι ρ :=
  if w.pinned then s else { s with clients := update s.clients w.client .pool }

def acquire (s : RunState κ ι ρ) (c : κ) (pinned : Bool) : Option (κ → Place) :=
  if pinned then if s.clients c = .session then some s.clients else none
  else if s.clients c = .pool then some (update s.clients c .lease) else none

def query (s : RunState κ ι ρ) (id : ι) (c : κ) (r : Option ρ) (pinned : Bool) : Option (RunState κ ι ρ) :=
  match acquire s c pinned with
  | none => none
  | some clients => if s.works id = none then some (register { s with
      clients := clients
      works := update s.works id (some ⟨c, r, pinned, .query⟩) } c r) else none

def start (s : RunState κ ι ρ) (id : ι) (w : Work κ ρ) : Option (RunState κ ι ρ) :=
  if s.executing w.client = none then
    some { s with executing := update s.executing w.client (some (id, w.runId)) }
  else none

def execute (s : RunState κ ι ρ) (id : ι) : Option (RunState κ ι ρ) :=
  match s.works id with
  | some w => if w.phase = .query then start s id w else none
  | none => none

def complete (s : RunState κ ι ρ) (c : κ) : Option (RunState κ ι ρ) :=
  if s.executing c = none then none else some { s with executing := update s.executing c none }

def Executes (s : RunState κ ι ρ) (id : ι) (w : Work κ ρ) : Prop := s.executing w.client = some (id, w.runId)

instance (s : RunState κ ι ρ) (id : ι) (w : Work κ ρ) : Decidable (Executes s id w) :=
  inferInstanceAs (Decidable (s.executing w.client = some (id, w.runId)))

def moveOn (s : RunState κ ι ρ) (id : ι) (w : Work κ ρ) (p : Phase) : RunState κ ι ρ :=
  { s with works := update s.works id (some { w with phase := p }) }

def remove (s : RunState κ ι ρ) (id : ι) : RunState κ ι ρ := { s with works := update s.works id none }

def keepCursor (server : Server) (s : RunState κ ι ρ) (id : ι) : Option (RunState κ ι ρ) :=
  match s.works id with
  | some w =>
      if w.phase = .query then
        match server with
        | .postgres => if Executes s id w then none else some (unregister (moveOn s id w .cursor) w.runId)
        | .mysql => some (moveOn s id w .cursor)
      else none
  | none => none

def finishQuery (server : Server) (s : RunState κ ι ρ) (id : ι) : Option (RunState κ ι ρ) :=
  match s.works id with
  | some w =>
      if w.phase = .query then
        match server with
        | .postgres => if Executes s id w then none else some (unregister (moveOn s id w .closing) w.runId)
        | .mysql => some (release (unregister (remove s id) w.runId) w)
      else none
  | none => none

def fetchMore (server : Server) (s : RunState κ ι ρ) (id : ι) : Option (RunState κ ι ρ) :=
  match s.works id with
  | some w =>
      if w.phase = .cursor then
        match server with
        | .postgres => start s id w
        | .mysql => some s
      else none
  | none => none

def closeCursor (s : RunState κ ι ρ) (id : ι) : Option (RunState κ ι ρ) :=
  match s.works id with
  | some w => if w.phase = .cursor then some (moveOn s id w .closing) else some s
  | none => some s

def closed (server : Server) (s : RunState κ ι ρ) (id : ι) : Option (RunState κ ι ρ) :=
  match s.works id with
  | some w =>
      if w.phase = .closing then
        match server with
        | .postgres => if Executes s id w then none else some (release (remove s id) w)
        | .mysql => some (release (unregister (remove s id) w.runId) w)
      else none
  | none => none

def cancel (s : RunState κ ι ρ) (id : ι) (r : ρ) : Option (RunState κ ι ρ) :=
  match s.runs r with
  | none => some s
  | some c => if s.cancels id = none then some { s with cancels := update s.cancels id (some (r, c)) } else none

def deliver (s : RunState κ ι ρ) (id : ι) : Option (RunState κ ι ρ) :=
  match s.cancels id with
  | none => none
  | some (r, c) => some { s with
      cancels := update s.cancels id none
      kills := ⟨r, c, s.executing c⟩ :: s.kills }

def step (server : Server) (s : RunState κ ι ρ) : RunAction κ ι ρ → Option (RunState κ ι ρ)
  | .openSession c =>
      if s.clients c = .pool then some { s with clients := update s.clients c .session } else none
  | .closeSession c =>
      if s.clients c = .session then some { s with clients := update s.clients c .pool } else none
  | .query id c r pinned => query s id c r pinned
  | .execute id => execute s id
  | .complete c => complete s c
  | .keepCursor id => keepCursor server s id
  | .finishQuery id => finishQuery server s id
  | .fetchMore id => fetchMore server s id
  | .closeCursor id => closeCursor s id
  | .closed id => closed server s id
  | .cancel id r => cancel s id r
  | .deliver id => deliver s id
  | .drop id => some { s with cancels := update s.cancels id none }

end Operations

section Named
variable {κ ι ρ : Type}

def Registered (server : Server) (w : Work κ ρ) : Prop := w.phase = .query ∨ server = .mysql

instance (server : Server) (w : Work κ ρ) : Decidable (Registered server w) :=
  inferInstanceAs (Decidable (w.phase = .query ∨ server = .mysql))

-- A run id has one live statement, a cancel looks its run up while that statement executes and
-- is delivered before it ends, and no statement outlives its registration.
def RunsApart (server : Server) (s : RunState κ ι ρ) : RunAction κ ι ρ → Prop
  | .query _ _ r _ => ∀ id, ∀ w ∈ s.works id, Registered server w → w.runId = none ∨ w.runId ≠ r
  | .fetchMore id => server = .mysql ∨ ∀ w ∈ s.works id, w.runId = none
  | .finishQuery id | .closed id => ∀ w ∈ s.works id, s.executing w.client ≠ some (id, w.runId)
  | .complete c => ∀ k, ∀ aim ∈ s.cancels k, aim.2 ≠ c
  | .cancel _ r => ∀ c ∈ s.runs r, ∃ e ∈ s.executing c, e.2 = some r
  | _ => True

structure Named (server : Server) (s : RunState κ ι ρ) : Prop where
  runs : ∀ id w r, s.works id = some w → Registered server w → w.runId = some r → s.runs r = some w.client
  apart : ∀ id id' w w' r, s.works id = some w → s.works id' = some w' → Registered server w →
    Registered server w' → w.runId = some r → w'.runId = some r → id = id'
  live : ∀ c id r, s.executing c = some (id, some r) →
    ∃ w, s.works id = some w ∧ Registered server w ∧ w.runId = some r ∧ w.client = c
  aimed : ∀ k r c, s.cancels k = some (r, c) → ∃ id, s.executing c = some (id, some r)
  kills : ∀ kill ∈ s.kills, ∃ id, kill.found = some (id, some kill.runId)

structure CancelsName (s : RunState κ ι ρ) : Prop where
  kills : ∀ kill ∈ s.kills, ∃ id, kill.found = some (id, some kill.runId)
  runs : ∀ c id r, s.executing c = some (id, some r) → s.runs r = some c

theorem namedIdle (server : Server) : Named server (idle κ ι ρ) := ⟨nofun, nofun, nofun, nofun, nofun⟩

variable {server : Server} {s s' : RunState κ ι ρ}

theorem namedCancels (named : Named server s) : CancelsName s := by
  refine ⟨named.kills, fun c id r runs => ?_⟩
  obtain ⟨w, here, registered, mine, rfl⟩ := named.live c id r runs
  exact named.runs id w r here registered mine

theorem namedClients (named : Named server s) (clients : κ → Place) :
    Named server { s with clients := clients } := ⟨named.runs, named.apart, named.live, named.aimed, named.kills⟩

section Backends
variable [DecidableEq κ]

theorem namedRelease (named : Named server s) (w : Work κ ρ) : Named server (release s w) := by
  unfold release
  split
  · exact named
  · exact namedClients named _

theorem namedStart (named : Named server s) {id : ι} {w : Work κ ρ} (here : s.works id = some w)
    (known : Registered server w ∨ w.runId = none) (moved : start s id w = some s') : Named server s' := by
  obtain ⟨runs, only, live, aimed, kills⟩ := named
  simp only [start] at moved
  split at moved
  · cases moved
    refine ⟨runs, only, ?_, ?_, kills⟩
    · grind [update_apply]
    · grind [update_apply]
  · contradiction

theorem namedComplete (named : Named server s) {c : κ} (apart : RunsApart server s (.complete c))
    (moved : complete s c = some s') : Named server s' := by
  obtain ⟨runs, only, live, aimed, kills⟩ := named
  simp only [complete] at moved
  simp only [RunsApart] at apart
  split at moved
  · contradiction
  · cases moved
    refine ⟨runs, only, ?_, ?_, kills⟩
    · grind [update_apply]
    · intro k r d sent
      have elsewhere : d ≠ c := apart k (r, d) sent
      simpa [update_apply, elsewhere] using aimed k r d sent

theorem namedFetchMore (named : Named server s) {id : ι} (apart : RunsApart server s (.fetchMore id))
    (moved : fetchMore server s id = some s') : Named server s' := by
  simp only [fetchMore] at moved
  split at moved
  · rename_i w here
    split at moved
    · cases server with
      | postgres =>
        have unnamed : w.runId = none := apart.resolve_left nofun w here
        exact namedStart named here (Or.inr unnamed) moved
      | mysql =>
        cases moved
        exact named
    · contradiction
  · contradiction

end Backends

variable [DecidableEq ι]

theorem namedMoveOn (named : Named server s) {id : ι} {w : Work κ ρ} {p : Phase} (here : s.works id = some w)
    (same : Registered server { w with phase := p } ↔ Registered server w) :
    Named server (moveOn s id w p) := by
  obtain ⟨runs, only, live, aimed, kills⟩ := named
  refine ⟨?_, ?_, ?_, aimed, kills⟩ <;> simp only [moveOn] <;> grind [update_apply]

theorem namedRemove (named : Named server s) {id : ι} {w : Work κ ρ} (here : s.works id = some w)
    (unknown : ¬ Registered server w) : Named server (remove s id) := by
  obtain ⟨runs, only, live, aimed, kills⟩ := named
  refine ⟨?_, ?_, ?_, aimed, kills⟩ <;> simp only [remove] <;> grind [update_apply]

theorem namedCloseCursor (named : Named server s) {id : ι} (moved : closeCursor s id = some s') :
    Named server s' := by
  simp only [closeCursor] at moved
  split at moved
  · rename_i w here
    split at moved
    · rename_i kept
      cases moved
      exact namedMoveOn named here (by simp [Registered, kept])
    · cases moved
      exact named
  · cases moved
    exact named

theorem namedCancel (named : Named server s) {id : ι} {r : ρ} (apart : RunsApart server s (.cancel id r))
    (moved : cancel s id r = some s') : Named server s' := by
  obtain ⟨runs, only, live, aimed, kills⟩ := named
  simp only [cancel] at moved
  split at moved
  · cases moved
    exact ⟨runs, only, live, aimed, kills⟩
  · rename_i c known
    split at moved
    · cases moved
      obtain ⟨⟨found, run⟩, executing, rfl⟩ := apart c known
      have truly : s.executing c = some (found, some r) := executing
      refine ⟨runs, only, live, ?_, kills⟩
      grind [update_apply]
    · contradiction

theorem namedDeliver (named : Named server s) {id : ι} (moved : deliver s id = some s') : Named server s' := by
  obtain ⟨runs, only, live, aimed, kills⟩ := named
  simp only [deliver] at moved
  split at moved
  · contradiction
  · rename_i r c sent
    cases moved
    obtain ⟨found, executing⟩ := aimed id r c sent
    refine ⟨runs, only, live, ?_, ?_⟩
    · grind [update_apply]
    · intro kill logged
      cases logged with
      | head => exact ⟨found, executing⟩
      | tail _ earlier => exact kills kill earlier

variable [DecidableEq ρ]

theorem namedUnregister (named : Named server s) {id : ι} {w : Work κ ρ} {o : Option (Work κ ρ)}
    (here : s.works id = some w) (registered : Registered server w) (ended : ¬ Executes s id w)
    (gone : ∀ w' ∈ o, ¬ Registered server w') :
    Named server (unregister { s with works := update s.works id o } w.runId) := by
  obtain ⟨runs, only, live, aimed, kills⟩ := named
  simp only [Executes] at ended
  cases run : w.runId with
  | none =>
    refine ⟨?_, ?_, ?_, aimed, kills⟩ <;> simp only [unregister] <;> grind [update_apply]
  | some r =>
    refine ⟨?_, ?_, ?_, aimed, kills⟩ <;> simp only [unregister] <;> grind [update_apply]

theorem namedKeepCursor (named : Named server s) {id : ι} (moved : keepCursor server s id = some s') :
    Named server s' := by
  simp only [keepCursor] at moved
  split at moved
  · rename_i w here
    split at moved
    · rename_i running
      cases server with
      | postgres =>
        dsimp only at moved
        split at moved
        · contradiction
        · rename_i ended
          cases moved
          exact namedUnregister named here (Or.inl running) ended (by simp [Registered])
      | mysql =>
        cases moved
        exact namedMoveOn named here (by simp [Registered])
    · contradiction
  · contradiction

variable [DecidableEq κ]

theorem namedQuery (named : Named server s) {id : ι} {c : κ} {r : Option ρ} {pinned : Bool}
    (apart : RunsApart server s (.query id c r pinned)) (moved : query s id c r pinned = some s') :
    Named server s' := by
  obtain ⟨runs, only, live, aimed, kills⟩ := named
  simp only [query] at moved
  split at moved
  · contradiction
  · split at moved
    · rename_i fresh
      cases moved
      cases r with
      | none =>
        refine ⟨?_, ?_, ?_, aimed, kills⟩ <;> simp only [register] <;> grind [update_apply]
      | some r =>
        simp only [RunsApart] at apart
        refine ⟨?_, ?_, ?_, aimed, kills⟩ <;> simp only [register] <;> grind [update_apply]
    · contradiction

theorem namedFinishQuery (named : Named server s) {id : ι} (apart : RunsApart server s (.finishQuery id))
    (moved : finishQuery server s id = some s') : Named server s' := by
  simp only [finishQuery] at moved
  split at moved
  · rename_i w here
    split at moved
    · rename_i running
      have ended : ¬ Executes s id w := apart w here
      cases server with
      | postgres =>
        dsimp only at moved
        split at moved
        · contradiction
        · cases moved
          exact namedUnregister named here (Or.inl running) ended (by simp [Registered])
      | mysql =>
        cases moved
        exact namedRelease (namedUnregister named here (Or.inl running) ended (by simp)) w
    · contradiction
  · contradiction

theorem namedClosed (named : Named server s) {id : ι} (apart : RunsApart server s (.closed id))
    (moved : closed server s id = some s') : Named server s' := by
  simp only [closed] at moved
  split at moved
  · rename_i w here
    split at moved
    · rename_i closing
      have ended : ¬ Executes s id w := apart w here
      cases server with
      | postgres =>
        dsimp only at moved
        split at moved
        · contradiction
        · cases moved
          exact namedRelease (namedRemove named here (by simp [Registered, closing])) w
      | mysql =>
        cases moved
        exact namedRelease (namedUnregister named here (Or.inr rfl) ended (by simp)) w
    · contradiction
  · contradiction

theorem stepNamed (named : Named server s) {a : RunAction κ ι ρ} (apart : RunsApart server s a)
    (moved : step server s a = some s') : Named server s' := by
  cases a with
  | openSession c =>
    simp only [step] at moved
    split at moved
    · cases moved
      exact namedClients named _
    · contradiction
  | closeSession c =>
    simp only [step] at moved
    split at moved
    · cases moved
      exact namedClients named _
    · contradiction
  | query => exact namedQuery named apart moved
  | execute id =>
    simp only [step, execute] at moved
    split at moved
    · rename_i w here
      split at moved
      · rename_i running
        exact namedStart named here (Or.inl (Or.inl running)) moved
      · contradiction
    · contradiction
  | complete => exact namedComplete named apart moved
  | keepCursor => exact namedKeepCursor named moved
  | finishQuery => exact namedFinishQuery named apart moved
  | fetchMore => exact namedFetchMore named apart moved
  | closeCursor => exact namedCloseCursor named moved
  | closed => exact namedClosed named apart moved
  | cancel => exact namedCancel named apart moved
  | deliver => exact namedDeliver named moved
  | drop id =>
    cases moved
    obtain ⟨runs, only, live, aimed, kills⟩ := named
    refine ⟨runs, only, live, ?_, kills⟩
    grind [update_apply]

theorem cancelsKillTheirRun {acts : List (RunAction κ ι ρ)}
    (apart : Along (RunsApart server) (step server) (idle κ ι ρ) acts)
    (ran : runSteps (step server) (idle κ ι ρ) acts = some s) : CancelsName s :=
  namedCancels (runKeeps (fun named apart moved => stepNamed named apart moved) (namedIdle server) apart ran)

instance runsApartDecidable [Fintype ι] (server : Server) (s : RunState κ ι ρ) :
    ∀ a, Decidable (RunsApart server s a)
  | .query _ _ r _ => inferInstanceAs (Decidable (∀ id, ∀ w ∈ s.works id, Registered server w →
      w.runId = none ∨ w.runId ≠ r))
  | .fetchMore id => inferInstanceAs (Decidable (server = .mysql ∨ ∀ w ∈ s.works id, w.runId = none))
  | .finishQuery id | .closed id =>
      inferInstanceAs (Decidable (∀ w ∈ s.works id, s.executing w.client ≠ some (id, w.runId)))
  | .complete c => inferInstanceAs (Decidable (∀ k, ∀ aim ∈ s.cancels k, aim.2 ≠ c))
  | .cancel _ r => inferInstanceAs (Decidable (∀ c ∈ s.runs r, ∃ e ∈ s.executing c, e.2 = some r))
  | .openSession _ | .closeSession _ | .execute _ | .keepCursor _ | .closeCursor _ | .deliver _
  | .drop _ => isTrue trivial

def cancelled : List (RunAction Bool Bool Bool) :=
  [.query false true (some true) false, .execute false, .cancel false true, .deliver false, .complete true,
    .finishQuery false]

theorem cancelDuringItsStatement : ∃ s, runSteps (step .mysql) (idle Bool Bool Bool) cancelled = some s ∧
    s.kills.map Kill.found = [some (false, some true)] ∧ CancelsName s := by
  have apart : Along (RunsApart .mysql) (step .mysql) (idle Bool Bool Bool) cancelled := by decide
  exact ⟨_, rfl, rfl, cancelsKillTheirRun apart rfl⟩

def cancelledLate : List (RunAction Bool Bool Bool) :=
  [.query false true (some true) false, .execute false, .cancel false true, .complete true, .finishQuery false,
    .closed false, .query true true none false, .execute true, .deliver false]

def runIdShared : List (RunAction Bool Bool Bool) :=
  [.query false true (some true) false, .execute false, .keepCursor false,
    .query true false (some true) false, .execute true, .complete true, .closeCursor false, .closed false]

theorem killMeetsTheNextStatement :
    (∃ s, runSteps (step .postgres) (idle Bool Bool Bool) cancelledLate = some s ∧
      s.kills.map Kill.found = [some (true, none)] ∧ ¬ CancelsName s) ∧
    ∃ s, runSteps (step .mysql) (idle Bool Bool Bool) runIdShared = some s ∧
      s.executing false = some (true, some true) ∧ s.runs true = none ∧ ¬ CancelsName s := by
  constructor
  · refine ⟨_, rfl, rfl, fun names => ?_⟩
    obtain ⟨id, found⟩ := names.kills _ (List.mem_singleton_self _)
    have other : some (true, (none : Option Bool)) = some (id, some true) := found
    simp at other
  · refine ⟨_, rfl, rfl, rfl, fun names => ?_⟩
    have known := names.runs false true true rfl
    contradiction

end Named

end DatabaseAdmin.RunCancels
