import DatabaseAdmin.StepSystem

/-! The connection manager's pool and its owners. Each request runs to its next await; a task is
what is left of it, and any other request may run before it resumes. -/
namespace DatabaseAdmin.ConnectionManager
open StepSystem Function

inductive Phase where
  | opening | live | closing
  deriving DecidableEq

structure Entry (κ υ : Type) where
  id : κ
  opener : υ
  phase : Phase
  released : Bool
  deriving DecidableEq

inductive DisposeStage where
  | connector | address
  deriving DecidableEq

inductive OpenStage where
  | resolving
  | releasing
  | dialing (entry : Nat)
  | disposing (entry : Nat) (stage : DisposeStage)
  | probing (entry : Nat)
  | fulfilled (entry : Nat)
  | rejected
  deriving DecidableEq

inductive CloseStage where
  | inflight (promise : Nat)
  | sessions
  | disposing (entry : Nat) (stage : DisposeStage)
  deriving DecidableEq

inductive Task (κ υ : Type) where
  | opens (id : κ) (user : υ) (stage : OpenStage)
  | awaits (id : κ) (user : υ) (promise : Nat) (first reconnect : Bool)
  | closes (id : κ) (stage : CloseStage)
  | recovers (entry : Nat) (stage : DisposeStage)
  | done
  deriving DecidableEq

structure Reconnect where
  attempt : Nat
  timer : Bool
  deriving DecidableEq

structure Handed (κ υ : Type) where
  id : κ
  user : υ
  entry : Nat
  deriving DecidableEq

structure ManagerState (κ υ : Type) where
  stored : κ → Option υ
  heap : List (Entry κ υ)
  entries : κ → Option Nat
  opening : κ → Option Nat
  owners : κ → Option υ
  reconnects : κ → Option Reconnect
  tasks : List (Task κ υ)
  handed : List (Handed κ υ)

def empty (κ υ : Type) : ManagerState κ υ :=
  ⟨fun _ => none, [], fun _ => none, fun _ => none, fun _ => none, fun _ => none, [], []⟩

def reconnectMaxAttempts : Nat := 8

inductive Outcome where
  | ok | failed | unbuilt
  deriving DecidableEq

inductive Action (κ υ : Type) where
  | acquire (id : κ) (user : υ) (unlocked : Bool)
  | close (id : κ)
  | linkLost (entry : Nat)
  | timer (id : κ) (unlocked : Bool)
  | store (id : κ) (owner : Option υ)
  | resume (task : Nat) (outcome : Outcome)
  deriving DecidableEq

section Operations
variable {κ υ : Type}

def setPhase (s : ManagerState κ υ) (entry : Nat) (phase : Phase) : ManagerState κ υ :=
  { s with heap := s.heap.modify entry (fun e => { e with phase := phase }) }

def spawn (s : ManagerState κ υ) (task : Task κ υ) : ManagerState κ υ :=
  { s with tasks := s.tasks ++ [task] }

def become (s : ManagerState κ υ) (t : Nat) (task : Task κ υ) : ManagerState κ υ :=
  { s with tasks := s.tasks.set t task }

variable [DecidableEq κ] [DecidableEq υ]

def clearReconnect (s : ManagerState κ υ) (id : κ) : ManagerState κ υ :=
  { s with reconnects := update s.reconnects id none }

def scheduleReconnect (s : ManagerState κ υ) (id : κ) : ManagerState κ υ :=
  let rec' := (s.reconnects id).getD ⟨0, false⟩
  if rec'.timer then s
  else if reconnectMaxAttempts ≤ rec'.attempt then clearReconnect s id
  else { s with reconnects := update s.reconnects id (some ⟨rec'.attempt + 1, true⟩) }

def assertOwned (s : ManagerState κ υ) (id : κ) (user : υ) : Bool :=
  match s.owners id with
  | none => true
  | some owner => decide (owner = user)

def liveEntry (s : ManagerState κ υ) (id : κ) : Option Nat :=
  match s.entries id with
  | none => none
  | some entry => match s.heap[entry]? with
    | some e => if e.phase = .live then some entry else none
    | none => none

-- The part of `openEntry` before its first await, and where it leaves the promise.
def openEntry (s : ManagerState κ υ) (id : κ) (user : υ) (unlocked : Bool) :
    ManagerState κ υ × OpenStage :=
  if s.stored id = some user then
    ({ s with owners := update s.owners id (some user) }, if unlocked then .resolving else .rejected)
  else (s, .rejected)

def entryFor (s : ManagerState κ υ) (id : κ) (user : υ) (unlocked reconnect : Bool) :
    ManagerState κ υ :=
  if assertOwned s id user then
    match liveEntry s id with
    | some entry => { s with handed := ⟨id, user, entry⟩ :: s.handed }
    | none => match s.opening id with
      | some promise => spawn s (.awaits id user promise false reconnect)
      | none =>
          let opened := openEntry s id user unlocked
          let promise := s.tasks.length
          let s := { opened.1 with opening := update opened.1.opening id (some promise) }
          spawn (spawn s (.opens id user opened.2)) (.awaits id user promise true reconnect)
  else if reconnect then scheduleReconnect s id else s

-- `disposeEntry` up to `connector.close()`, then after each of its awaits.
def disposeEntry (s : ManagerState κ υ) (entry : Nat) : ManagerState κ υ :=
  match s.heap[entry]? with
  | none => s
  | some e =>
      if s.entries e.id = some entry then { s with entries := update s.entries e.id none } else s

def disposeNext (s : ManagerState κ υ) (entry : Nat) :
    DisposeStage → ManagerState κ υ × Option DisposeStage
  | .connector => match s.heap[entry]? with
    | some e =>
        if e.released then (s, none)
        else ({ s with heap := s.heap.modify entry (fun e => { e with released := true }) },
          some .address)
    | none => (s, none)
  | .address => (s, none)

def onLinkLost (s : ManagerState κ υ) (entry : Nat) : Option (ManagerState κ υ) :=
  match s.heap[entry]? with
  | some e =>
      if e.phase = .live then
        some (spawn (disposeEntry (setPhase s entry .closing) entry) (.recovers entry .connector))
      else none
  | none => none

def attemptReconnect (s : ManagerState κ υ) (id : κ) (unlocked : Bool) : ManagerState κ υ :=
  match s.owners id with
  | none => clearReconnect s id
  | some owner =>
      if s.stored id = some owner then entryFor s id owner unlocked true else clearReconnect s id

def close (s : ManagerState κ υ) (id : κ) : ManagerState κ υ :=
  let s := clearReconnect s id
  match s.opening id with
  | some promise => spawn s (.closes id (.inflight promise))
  | none => spawn s (.closes id .sessions)

def resumeOpen (s : ManagerState κ υ) (t : Nat) (id : κ) (user : υ) (outcome : Outcome) :
    OpenStage → Option (ManagerState κ υ)
  | .resolving => match outcome with
    | .failed => some (become s t (.opens id user .rejected))
    | .unbuilt => some (become s t (.opens id user .releasing))
    | .ok =>
        let entry := s.heap.length
        let s := { s with
          heap := s.heap ++ [⟨id, user, .opening, false⟩],
          entries := update s.entries id (some entry) }
        some (become s t (.opens id user (.dialing entry)))
  | .releasing => some (become s t (.opens id user .rejected))
  | .dialing entry => match outcome with
    | .ok => some (become (clearReconnect (setPhase s entry .live) id) t
        (.opens id user (.probing entry)))
    | _ => some (become (disposeEntry (setPhase s entry .closing) entry) t
        (.opens id user (.disposing entry .connector)))
  | .disposing entry stage => match disposeNext s entry stage with
    | (s, some stage) => some (become s t (.opens id user (.disposing entry stage)))
    | (s, none) => some (become s t (.opens id user .rejected))
  | .probing entry => some (become s t (.opens id user (.fulfilled entry)))
  | .fulfilled _ | .rejected => none

def settleOpening (s : ManagerState κ υ) (id : κ) (promise : Nat) (first : Bool) :
    ManagerState κ υ :=
  if first && decide (s.opening id = some promise) then
    { s with opening := update s.opening id none }
  else s

def resumeCaller (s : ManagerState κ υ) (t : Nat) (id : κ) (user : υ) (promise : Nat)
    (first reconnect : Bool) : Option (ManagerState κ υ) :=
  match s.tasks[promise]? with
  | some (.opens _ _ (.fulfilled entry)) =>
      let s := settleOpening s id promise first
      some (become { s with handed := ⟨id, user, entry⟩ :: s.handed } t .done)
  | some (.opens _ _ .rejected) =>
      let s := settleOpening s id promise first
      some (become (if reconnect then scheduleReconnect s id else s) t .done)
  | _ => none

def forgetOwner (s : ManagerState κ υ) (id : κ) : ManagerState κ υ :=
  { s with owners := update s.owners id none }

def resumeClose (s : ManagerState κ υ) (t : Nat) (id : κ) :
    CloseStage → Option (ManagerState κ υ)
  | .inflight promise => match s.tasks[promise]? with
    | some (.opens _ _ (.fulfilled _)) | some (.opens _ _ .rejected) =>
        some (become s t (.closes id .sessions))
    | _ => none
  | .sessions => match s.entries id with
    | some entry => some (become (disposeEntry (setPhase s entry .closing) entry) t
        (.closes id (.disposing entry .connector)))
    | none => some (become (forgetOwner s id) t .done)
  | .disposing entry stage => match disposeNext s entry stage with
    | (s, some stage) => some (become s t (.closes id (.disposing entry stage)))
    | (s, none) => some (become (forgetOwner s id) t .done)

def resumeRecover (s : ManagerState κ υ) (t entry : Nat) (outcome : Outcome) (stage : DisposeStage) :
    Option (ManagerState κ υ) :=
  match s.heap[entry]?, disposeNext s entry stage with
  | some _, (s, some stage) => some (become s t (.recovers entry stage))
  | some e, (s, none) =>
      some (become (if outcome = .ok then scheduleReconnect s e.id else s) t .done)
  | none, _ => none

def step (s : ManagerState κ υ) : Action κ υ → Option (ManagerState κ υ)
  | .acquire id user unlocked => some (entryFor s id user unlocked false)
  | .close id => some (close s id)
  | .linkLost entry => onLinkLost s entry
  | .timer id unlocked => match s.reconnects id with
    | some ⟨attempt, true⟩ => some (attemptReconnect
        { s with reconnects := update s.reconnects id (some ⟨attempt, false⟩) } id unlocked)
    | _ => none
  | .store id owner => some { s with stored := update s.stored id owner }
  | .resume t outcome => match s.tasks[t]? with
    | some (.opens id user stage) => resumeOpen s t id user outcome stage
    | some (.awaits id user promise first reconnect) =>
        resumeCaller s t id user promise first reconnect
    | some (.closes id stage) => resumeClose s t id stage
    | some (.recovers entry stage) => resumeRecover s t entry outcome stage
    | _ => none

end Operations

end DatabaseAdmin.ConnectionManager
