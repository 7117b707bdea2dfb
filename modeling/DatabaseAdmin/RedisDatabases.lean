import DatabaseAdmin.StepSystem

/-! Requests on one Redis connection. -/
namespace DatabaseAdmin.RedisDatabases
open StepSystem Function

inductive RequestKind where
  | scan
  | read
  | write
  | delete
  | rename
  | expire
  | console (select : Option Nat)
  deriving DecidableEq

-- A connector call behind the request's own SELECT: commands on one client, or a typed SELECT.
inductive ConnectorCall where
  | commands
  | select (db : Nat)
  deriving DecidableEq

def callsOf : RequestKind → List ConnectorCall
  | .scan => []
  | .read | .write => [.commands, .commands]
  | .delete | .rename | .expire => [.commands]
  | .console none => [.commands]
  | .console (some db) => [.select db]

inductive Stage where
  | selecting (db : Nat)
  | ready
  | opening (db : Nat)
  | holding (client : Nat)
  | over
  deriving DecidableEq

structure Task where
  named : Option Nat
  calls : List ConnectorCall
  stage : Stage
  deriving DecidableEq

structure Sent where
  named : Option Nat
  db : Nat
  deriving DecidableEq

structure RedisState (ι : Type) where
  activeDb : Nat
  dbClients : Nat → Option Nat
  tasks : ι → Option Task
  sent : List Sent

structure Topology where
  isCluster : Bool
  baseDb : Nat
  deriving DecidableEq

inductive RedisAction (ι : Type) where
  | request (id : ι) (kind : RequestKind) (named : Option Nat)
  | opened (id : ι)
  | refused (id : ι)
  | call (id : ι)
  | send (id : ι)
  | finish (id : ι)

section Operations
variable {ι : Type} [DecidableEq ι]

def connected (ι : Type) (t : Topology) : RedisState ι := ⟨t.baseDb, fun _ => none, fun _ => none, []⟩

def clientForDb (t : Topology) (s : RedisState ι) (db : Nat) : Option Nat :=
  if t.isCluster then if db = 0 then some 0 else none
  else if db = t.baseDb then some t.baseDb
  else some ((s.dbClients db).getD db)

def keepClient (t : Topology) (s : RedisState ι) (db client : Nat) : RedisState ι :=
  if t.isCluster ∨ db = t.baseDb then s else { s with dbClients := update s.dbClients db (some client) }

def move (s : RedisState ι) (id : ι) (task : Task) (stage : Stage) : RedisState ι :=
  { s with tasks := update s.tasks id (some { task with stage := stage }) }

-- `selectDb`: a cluster accepts database 0 without a command and no other.
def selectDb (t : Topology) (named : Option Nat) : Stage :=
  match named with
  | none => .ready
  | some db => if t.isCluster then if db = 0 then .ready else .over else .selecting db

def request (t : Topology) (s : RedisState ι) (id : ι) (kind : RequestKind) (named : Option Nat) : RedisState ι :=
  match kind with
  | .scan =>
      let db := if t.isCluster then 0 else named.getD s.activeDb
      { s with
        activeDb := if t.isCluster then s.activeDb else db
        tasks := update s.tasks id (some ⟨named, callsOf kind, .opening db⟩) }
  | _ => { s with tasks := update s.tasks id (some ⟨named, callsOf kind, selectDb t named⟩) }

def opened (t : Topology) (s : RedisState ι) (id : ι) (task : Task) : Option (RedisState ι) :=
  match task.stage with
  | .selecting db => (clientForDb t s db).map fun client =>
      move { keepClient t s db client with activeDb := db } id task .ready
  | .opening db => (clientForDb t s db).map fun client => move (keepClient t s db client) id task (.holding client)
  | _ => none

def refused (s : RedisState ι) (id : ι) (task : Task) : Option (RedisState ι) :=
  match task.stage with
  | .selecting _ | .opening _ => some (move s id task .over)
  | _ => none

def call (t : Topology) (s : RedisState ι) (id : ι) (task : Task) : Option (RedisState ι) :=
  match task.stage, task.calls with
  | .ready, [] => some (move s id task .over)
  | .ready, .commands :: rest => some (move s id { task with calls := rest } (.opening s.activeDb))
  | .ready, .select db :: rest =>
      some (move s id { task with calls := rest } (if t.isCluster then .over else .selecting db))
  | _, _ => none

def send (s : RedisState ι) (task : Task) : Option (RedisState ι) :=
  match task.stage with
  | .holding client => some { s with sent := ⟨task.named, client⟩ :: s.sent }
  | _ => none

def finish (s : RedisState ι) (id : ι) (task : Task) : Option (RedisState ι) :=
  match task.stage with
  | .holding _ => some (move s id task .ready)
  | _ => none

def step (t : Topology) (s : RedisState ι) : RedisAction ι → Option (RedisState ι)
  | .request id kind named => if s.tasks id = none then some (request t s id kind named) else none
  | .opened id => (s.tasks id).bind (opened t s id)
  | .refused id => (s.tasks id).bind (refused s id)
  | .call id => (s.tasks id).bind (call t s id)
  | .send id => (s.tasks id).bind (send s)
  | .finish id => (s.tasks id).bind (finish s id)

end Operations

section Databases
variable {ι : Type}

def OnTheirDatabase (s : RedisState ι) : Prop := ∀ c ∈ s.sent, ∀ db ∈ c.named, c.db = db

-- A key operation starts while its request's database is still the active one, and a cluster is
-- scanned under its only index.
def Undisturbed (t : Topology) (s : RedisState ι) : RedisAction ι → Prop
  | .call id => t.isCluster = true ∨ ∀ task ∈ s.tasks id, task.calls.head? = some .commands →
      ∀ db ∈ task.named, s.activeDb = db
  | .request _ .scan named => t.isCluster = true → ∀ db ∈ named, db = 0
  | _ => True

def Held (t : Topology) (task : Task) : Prop := ∀ db ∈ task.named,
  (t.isCluster = true → task.stage ≠ .over → db = 0) ∧
  (∀ d, task.stage = .opening d → t.isCluster = false → d = db) ∧ ∀ d, task.stage = .holding d → d = db

structure Pinned (t : Topology) (s : RedisState ι) : Prop where
  tasks : ∀ id, ∀ task ∈ s.tasks id, Held t task
  clients : ∀ db client, s.dbClients db = some client → client = db
  sent : OnTheirDatabase s

variable {t : Topology} {s s' : RedisState ι} {id : ι} {task : Task}

theorem pinnedConnected (ι : Type) (t : Topology) : Pinned t (connected ι t) := ⟨nofun, nofun, nofun⟩

theorem clientPinned (pinned : Pinned t s) {db client : Nat} (opened : clientForDb t s db = some client) :
    client = db := by
  simp only [clientForDb] at opened
  split at opened
  · split at opened
    · cases opened
      exact Eq.symm ‹db = 0›
    · contradiction
  · split at opened
    · cases opened
      exact Eq.symm ‹db = t.baseDb›
    · cases known : s.dbClients db with
      | none => simpa [known] using opened.symm
      | some cached =>
        have same : cached = client := by simpa [known] using opened
        exact same ▸ pinned.clients db cached known

theorem pinnedActive (pinned : Pinned t s) (db : Nat) : Pinned t { s with activeDb := db } :=
  ⟨pinned.tasks, pinned.clients, pinned.sent⟩

theorem pinnedKeep (pinned : Pinned t s) (db : Nat) : Pinned t (keepClient t s db db) := by
  simp only [keepClient]
  split
  · exact pinned
  · refine ⟨pinned.tasks, ?_, pinned.sent⟩
    intro d client kept
    by_cases same : d = db
    · subst same
      simpa using kept.symm
    · simp only [update_of_ne same] at kept
      exact pinned.clients d client kept

theorem pinnedSend (pinned : Pinned t s) (here : s.tasks id = some task)
    (moved : send s task = some s') : Pinned t s' := by
  simp only [send] at moved
  split at moved
  · rename_i client holding
    cases moved
    refine ⟨pinned.tasks, pinned.clients, ?_⟩
    intro c logged
    cases logged with
    | head => exact fun db mine => (pinned.tasks id task here db mine).2.2 client holding
    | tail _ earlier => exact pinned.sent c earlier
  · contradiction

variable [DecidableEq ι]

theorem pinnedTask (pinned : Pinned t s) (held : Held t task) :
    Pinned t { s with tasks := update s.tasks id (some task) } := by
  refine ⟨?_, pinned.clients, pinned.sent⟩
  intro other found here
  by_cases same : other = id
  · subst same
    have mine : task = found := by simpa using here
    exact mine ▸ held
  · simp only [update_of_ne same] at here
    exact pinned.tasks other found here

theorem heldSelected (t : Topology) (named : Option Nat) (calls : List ConnectorCall) :
    Held t ⟨named, calls, selectDb t named⟩ := by
  rintro db rfl
  simp only [selectDb]
  split
  · rename_i cluster
    split
    · exact ⟨fun _ _ => ‹db = 0›, nofun, nofun⟩
    · exact ⟨fun _ live => absurd rfl live, nofun, nofun⟩
  · rename_i single
    exact ⟨fun cluster => absurd cluster single, nofun, nofun⟩

theorem pinnedRequest (pinned : Pinned t s) {kind : RequestKind} {named : Option Nat}
    (scanned : Undisturbed t s (.request id kind named)) : Pinned t (request t s id kind named) := by
  cases kind with
  | scan =>
    refine pinnedTask (pinnedActive pinned _) ?_
    rintro db rfl
    refine ⟨fun cluster _ => scanned cluster db rfl, ?_, nofun⟩
    intro d opening single
    simpa [single] using opening.symm
  | _ => exact pinnedTask pinned (heldSelected t named _)

theorem pinnedOpened (pinned : Pinned t s) (here : s.tasks id = some task)
    (moved : opened t s id task = some s') : Pinned t s' := by
  have held : Held t task := pinned.tasks id task here
  simp only [opened] at moved
  split at moved
  · rename_i db selecting
    obtain ⟨client, connected, rfl⟩ := Option.map_eq_some_iff.mp moved
    cases clientPinned pinned connected
    refine pinnedTask (pinnedActive (pinnedKeep pinned _) _) ?_
    intro named mine
    refine ⟨fun cluster _ => (held named mine).1 cluster ?_, nofun, nofun⟩
    simp [selecting]
  · rename_i db opening
    obtain ⟨client, connected, rfl⟩ := Option.map_eq_some_iff.mp moved
    cases clientPinned pinned connected
    refine pinnedTask (pinnedKeep pinned _) ?_
    intro named mine
    obtain ⟨only, begun, -⟩ := held named mine
    have live : task.stage ≠ .over := by simp [opening]
    refine ⟨fun cluster _ => only cluster live, nofun, ?_⟩
    rintro d ⟨⟩
    cases cluster : t.isCluster with
    | false => exact begun db opening cluster
    | true =>
      have zero : named = 0 := only cluster live
      simp only [clientForDb, cluster] at connected
      grind
  · contradiction

theorem heldOver (t : Topology) (task : Task) : Held t { task with stage := .over } :=
  fun _ _ => ⟨fun _ live => absurd rfl live, nofun, nofun⟩

theorem pinnedRefused (pinned : Pinned t s) (moved : refused s id task = some s') : Pinned t s' := by
  simp only [refused] at moved
  split at moved
  all_goals first | contradiction | (cases moved; exact pinnedTask pinned (heldOver t task))

theorem pinnedCall (pinned : Pinned t s) (here : s.tasks id = some task)
    (calm : Undisturbed t s (.call id)) (moved : call t s id task = some s') : Pinned t s' := by
  have held : Held t task := pinned.tasks id task here
  simp only [call] at moved
  split at moved
  · cases moved
    exact pinnedTask pinned (heldOver t task)
  · rename_i rest ready commands
    cases moved
    refine pinnedTask pinned ?_
    intro db mine
    refine ⟨fun cluster _ => (held db mine).1 cluster (by simp [ready]), ?_, nofun⟩
    rintro d ⟨⟩ single
    exact calm.resolve_left (by simp [single]) task here (by simp [commands]) db mine
  · rename_i db rest ready select
    cases moved
    refine pinnedTask pinned ?_
    intro named mine
    split
    · exact ⟨fun _ live => absurd rfl live, nofun, nofun⟩
    · rename_i single
      exact ⟨fun cluster => absurd cluster single, nofun, nofun⟩
  · contradiction

theorem pinnedFinish (pinned : Pinned t s) (here : s.tasks id = some task)
    (moved : finish s id task = some s') : Pinned t s' := by
  simp only [finish] at moved
  split at moved
  · rename_i client holding
    cases moved
    refine pinnedTask pinned ?_
    intro db mine
    exact ⟨fun cluster _ => (pinned.tasks id task here db mine).1 cluster (by simp [holding]), nofun, nofun⟩
  · contradiction

theorem stepPinned {a : RedisAction ι} (pinned : Pinned t s) (calm : Undisturbed t s a)
    (moved : step t s a = some s') : Pinned t s' := by
  cases a <;> simp only [step] at moved
  case request id kind named =>
    split at moved
    · cases moved
      exact pinnedRequest pinned calm
    · contradiction
  all_goals obtain ⟨task, here, moved⟩ := Option.bind_eq_some_iff.mp moved
  case opened => exact pinnedOpened pinned here moved
  case refused => exact pinnedRefused pinned moved
  case call => exact pinnedCall pinned here calm moved
  case send => exact pinnedSend pinned here moved
  case finish => exact pinnedFinish pinned here moved

theorem undisturbedRunsAct {acts : List (RedisAction ι)}
    (along : Along (Undisturbed t) (step t) (connected ι t) acts)
    (ran : runSteps (step t) (connected ι t) acts = some s) : OnTheirDatabase s :=
  (StepSystem.runKeeps stepPinned (pinnedConnected ι t) along ran).sent

end Databases

section Runs

instance (t : Topology) (s : RedisState Nat) : ∀ a, Decidable (Undisturbed t s a)
  | .call id => inferInstanceAs (Decidable (t.isCluster = true ∨ ∀ task ∈ s.tasks id,
      task.calls.head? = some .commands → ∀ db ∈ task.named, s.activeDb = db))
  | .request _ .scan named => inferInstanceAs (Decidable (t.isCluster = true → ∀ db ∈ named, db = 0))
  | .request _ .read _ | .request _ .write _ | .request _ .delete _ | .request _ .rename _
  | .request _ .expire _ | .request _ (.console _) _ => isTrue trivial
  | .opened _ | .refused _ | .send _ | .finish _ => isTrue trivial

instance (s : RedisState Nat) : Decidable (OnTheirDatabase s) :=
  inferInstanceAs (Decidable (∀ c ∈ s.sent, ∀ db ∈ c.named, c.db = db))

def singleServer : Topology := ⟨false, 0⟩

def overlapping : List (RedisAction Nat) :=
  [.request 1 .write (some 1), .opened 1, .request 2 .scan (some 2), .opened 2, .send 2, .finish 2,
   .call 1, .opened 1, .send 1]

theorem anotherRequestMovesTheDatabase :
    ∃ s, runSteps (step singleServer) (connected Nat singleServer) overlapping = some s ∧
      ¬ OnTheirDatabase s := by
  refine ⟨_, rfl, ?_⟩
  decide

def oneAfterAnother : List (RedisAction Nat) :=
  [.request 1 .delete (some 1), .opened 1, .call 1, .opened 1, .send 1, .finish 1,
   .request 2 .scan (some 2), .opened 2, .send 2]

theorem oneAfterAnotherActs : ∃ s, runSteps (step singleServer) (connected Nat singleServer)
    oneAfterAnother = some s ∧ OnTheirDatabase s := by
  have along : Along (Undisturbed singleServer) (step singleServer) (connected Nat singleServer)
      oneAfterAnother := by decide
  exact ⟨_, rfl, undisturbedRunsAct along rfl⟩

end Runs

end DatabaseAdmin.RedisDatabases
