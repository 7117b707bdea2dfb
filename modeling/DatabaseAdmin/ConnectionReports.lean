import DatabaseAdmin.ConnectionManager

/-! The state the manager reports for each connection, and the events of connectors and tunnels it
routes by connection id. -/
namespace DatabaseAdmin.ConnectionManager
open StepSystem Function

inductive ConnectionState where
  | idle | connecting | connected | reconnecting | closed | error
  deriving DecidableEq

structure Reported (κ υ : Type) where
  manager : ManagerState κ υ
  states : κ → ConnectionState
  closed : κ → Bool

def unreported (κ υ : Type) : Reported κ υ := ⟨empty κ υ, fun _ => .idle, fun _ => false⟩

inductive Emitter where
  | connector | tunnel
  deriving DecidableEq

inductive Happening (κ υ : Type) where
  | manager (a : Action κ υ)
  | closedEvent (emitter : Emitter) (entry : Nat)
  | stateEvent (emitter : Emitter) (entry : Nat) (state : ConnectionState)
  deriving DecidableEq

section Reports
variable {κ υ : Type} [DecidableEq κ] [DecidableEq υ]

abbrev States (κ : Type) := κ → ConnectionState

def setState (states : States κ) (id : κ) (state : ConnectionState) : States κ :=
  update states id state

def scheduleReconnectReports (s : ManagerState κ υ) (id : κ) (states : States κ) : States κ :=
  let rec' := (s.reconnects id).getD ⟨0, false⟩
  if rec'.timer then states
  else if reconnectMaxAttempts ≤ rec'.attempt then setState states id .error
  else setState states id .reconnecting

def openEntryReports (s : ManagerState κ υ) (id : κ) (user : υ) (unlocked : Bool)
    (states : States κ) : States κ :=
  if s.stored id = some user then
    if unlocked then setState states id .connecting
    else setState (setState states id .connecting) id .error
  else states

def entryForReports (s : ManagerState κ υ) (id : κ) (user : υ) (unlocked reconnect : Bool)
    (states : States κ) : States κ :=
  if assertOwned s id user then
    match liveEntry s id with
    | some _ => states
    | none => match s.opening id with
      | some _ => states
      | none => openEntryReports s id user unlocked states
  else if reconnect then scheduleReconnectReports s id states else states

def attemptReconnectReports (s : ManagerState κ υ) (id : κ) (unlocked : Bool)
    (states : States κ) : States κ :=
  match s.owners id with
  | none => states
  | some owner =>
      if s.stored id = some owner then entryForReports s id owner unlocked true states
      else setState states id .closed

def resumeOpenReports (s : ManagerState κ υ) (id : κ) (outcome : Outcome) (states : States κ) :
    OpenStage → States κ
  | .resolving => if outcome = .failed then setState states id .error else states
  | .releasing => setState states id .error
  | .dialing _ => if outcome = .ok then setState states id .connected else states
  | .disposing entry stage => match disposeNext s entry stage with
    | (_, some _) => states
    | (_, none) => setState states id .error
  | .probing _ => if outcome = .ok then setState states id .connected else states
  | .fulfilled _ | .rejected => states

def resumeCallerReports (s : ManagerState κ υ) (id : κ) (promise : Nat) (first reconnect : Bool)
    (states : States κ) : States κ :=
  match s.tasks[promise]? with
  | some (.opens _ _ .rejected) =>
      if reconnect then scheduleReconnectReports (settleOpening s id promise first) id states
      else states
  | _ => states

def closeReturns (s : ManagerState κ υ) (id : κ) : CloseStage → Bool
  | .inflight _ => false
  | .sessions => (s.entries id).isNone
  | .disposing entry stage => (disposeNext s entry stage).2.isNone

def resumeRecoverReports (s : ManagerState κ υ) (entry : Nat) (outcome : Outcome)
    (stage : DisposeStage) (states : States κ) : States κ :=
  match s.heap[entry]?, disposeNext s entry stage with
  | some e, (s, none) =>
      if outcome = .ok then scheduleReconnectReports s e.id states else setState states e.id .closed
  | _, _ => states

def onLinkLostReports (s : ManagerState κ υ) (entry : Nat) (states : States κ) : States κ :=
  match s.heap[entry]? with
  | some e => setState states e.id .reconnecting
  | none => states

def reports (s : ManagerState κ υ) (states : States κ) : Action κ υ → States κ
  | .acquire id user unlocked => entryForReports s id user unlocked false states
  | .close _ => states
  | .linkLost entry => onLinkLostReports s entry states
  | .timer id unlocked => match s.reconnects id with
    | some ⟨attempt, true⟩ => attemptReconnectReports
        { s with reconnects := update s.reconnects id (some ⟨attempt, false⟩) } id unlocked states
    | _ => states
  | .store _ _ => states
  | .resume t outcome => match s.tasks[t]? with
    | some (.opens id _ stage) => resumeOpenReports s id outcome states stage
    | some (.awaits id _ promise first reconnect) =>
        resumeCallerReports s id promise first reconnect states
    | some (.closes id stage) => if closeReturns s id stage then setState states id .closed else states
    | some (.recovers entry stage) => resumeRecoverReports s entry outcome stage states
    | _ => states

def closes (s : ManagerState κ υ) (closed : κ → Bool) : Action κ υ → κ → Bool
  | .acquire id _ _ => update closed id false
  | .resume t _ => match s.tasks[t]? with
    | some (.closes id stage) => if closeReturns s id stage then update closed id true else closed
    | _ => closed
  | _ => closed

def heard (e : Entry κ υ) : Emitter → Bool
  | .connector => true
  | .tunnel => !e.released

def onClosedEvent (r : Reported κ υ) (id : κ) : Option (Reported κ υ) :=
  match liveEntry r.manager id with
  | some entry => (onLinkLost r.manager entry).map fun s =>
      { r with manager := s, states := onLinkLostReports r.manager entry r.states }
  | none => some r

def happen (r : Reported κ υ) : Happening κ υ → Option (Reported κ υ)
  | .manager a => (step r.manager a).map fun s =>
      ⟨s, reports r.manager r.states a, closes r.manager r.closed a⟩
  | .closedEvent emitter entry => match r.manager.heap[entry]? with
    | some e => if heard e emitter then onClosedEvent r e.id else none
    | none => none
  | .stateEvent emitter entry state => match r.manager.heap[entry]? with
    | some e =>
        if heard e emitter ∧ state ∈ [.connecting, .connected, .reconnecting] then
          some (if emitter = .tunnel ∧ state = .connected then r
            else { r with states := setState r.states e.id state })
        else none
    | none => none

end Reports

end DatabaseAdmin.ConnectionManager
