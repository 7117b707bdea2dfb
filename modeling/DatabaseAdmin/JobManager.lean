import DatabaseAdmin.StepSystem

/-! The job manager of one process. An id is the place of its job in `jobs`; callbacks still to fire
carry the user they were scheduled under, as async contexts do. -/
namespace DatabaseAdmin.JobManager
open StepSystem Function

inductive JobStatus where
  | queued | running | cancelling | done | failed | cancelled
  deriving DecidableEq

def terminalStatuses : List JobStatus := [.done, .failed, .cancelled]

def JobStatus.terminal (status : JobStatus) : Bool := decide (status ∈ terminalStatuses)

inductive Count where
  | finite (n : Int) | infinite | negativeInfinite | nan
  deriving DecidableEq

inductive Concurrency where
  | upTo (n : Nat) | unbounded | nan
  deriving DecidableEq

def Count.slots : Count → Concurrency
  | .finite n => .upTo (max 1 n).toNat
  | .infinite => .unbounded
  | .negativeInfinite => .upTo 1
  | .nan => .nan

def Concurrency.room (concurrency : Concurrency) (running : Nat) : Bool :=
  match concurrency with
  | .upTo n => decide (running < n)
  | .unbounded => true
  | .nan => false

abbrev Context (υ : Type) := Option υ

structure LiveJob (κ υ : Type) where
  connectionId : Option κ
  creator : Context υ
  status : JobStatus
  error : Option String
  pendingLog : List String
  progressDirty : Bool
  persistDirty : Bool
  children : Nat
  aborted : Bool
  runner : Option (Context υ)
  settled : Bool
  flushTimer : Option (Context υ)
  killTimer : Option (Context υ)
  forceTimer : Option (Context υ)
  cancelRequested : Bool
  finished : Bool
  removed : Bool
  deriving DecidableEq

inductive JobEvent where
  | jobUpdate (status : JobStatus) (error : Option String)
  | jobLog (lines : List String)
  deriving DecidableEq

structure Emission (υ : Type) where
  job : Nat
  ambient : Context υ
  event : JobEvent
  deriving DecidableEq

structure Start where
  job : Nat
  running : Nat
  concurrency : Concurrency
  deriving DecidableEq

structure JobsState (κ υ : Type) where
  jobs : List (LiveJob κ υ)
  rows : Nat → Option JobStatus
  live : List Nat
  queue : List Nat
  running : List Nat
  concurrency : Concurrency
  immediates : List (Context υ)
  removals : List Nat
  emitted : List (Emission υ)
  starts : List Start

def initial (κ υ : Type) (concurrency : Concurrency) : JobsState κ υ :=
  ⟨[], fun _ => none, [], [], [], concurrency, [], [], [], []⟩

section Operations
variable {κ υ : Type}

def modifyJob (s : JobsState κ υ) (id : Nat) (change : LiveJob κ υ → LiveJob κ υ) : JobsState κ υ :=
  { s with jobs := s.jobs.modify id change }

def emit (ambient : Context υ) (s : JobsState κ υ) (id : Nat) (event : JobEvent) : JobsState κ υ :=
  { s with emitted := ⟨id, ambient, event⟩ :: s.emitted }

def emitUpdate (ambient : Context υ) (s : JobsState κ υ) (id : Nat) : JobsState κ υ :=
  match s.jobs[id]? with
  | some live => emit ambient s id (.jobUpdate live.status live.error)
  | none => s

def persist (s : JobsState κ υ) (id : Nat) : JobsState κ υ :=
  match s.jobs[id]? with
  | some live =>
      if live.removed then s
      else
        let s := modifyJob s id (fun live => { live with persistDirty := false })
        { s with rows := update s.rows id ((s.rows id).map fun _ => live.status) }
  | none => s

def scheduleFlush (ambient : Context υ) (s : JobsState κ υ) (id : Nat) : JobsState κ υ :=
  modifyJob s id (fun live =>
    if live.flushTimer.isSome || live.finished then live
    else { live with flushTimer := some ambient })

def appendLog (ambient : Context υ) (s : JobsState κ υ) (id : Nat) (lines : List String) :
    JobsState κ υ :=
  scheduleFlush ambient (modifyJob s id (fun live =>
    { live with pendingLog := live.pendingLog ++ lines, persistDirty := true })) id

def emitLog (ambient : Context υ) (s : JobsState κ υ) (id : Nat) : JobsState κ υ :=
  match s.jobs[id]? with
  | some live =>
      if live.pendingLog = [] then s
      else emit ambient (modifyJob s id (fun live => { live with pendingLog := [] })) id
        (.jobLog live.pendingLog)
  | none => s

def flush (ambient : Context υ) (s : JobsState κ υ) (id : Nat) (due : Bool) : JobsState κ υ :=
  match s.jobs[id]? with
  | some live =>
      if live.removed then s
      else
        let s := emitLog ambient s id
        let s := if live.progressDirty then
            emitUpdate ambient (modifyJob s id (fun live => { live with progressDirty := false })) id
          else s
        let s := if live.persistDirty && due then persist s id else s
        if live.persistDirty && !due then scheduleFlush ambient s id else s
  | none => s

def create (ambient : Context υ) (s : JobsState κ υ) (connectionId : Option κ) : JobsState κ υ :=
  let id := s.jobs.length
  let live : LiveJob κ υ := {
    connectionId := connectionId, creator := ambient, status := .queued, error := none,
    pendingLog := [], progressDirty := false, persistDirty := false, children := 0,
    aborted := false, runner := none, settled := false,
    flushTimer := none, killTimer := none, forceTimer := none,
    cancelRequested := false, finished := false, removed := false }
  let s := { s with
    jobs := s.jobs ++ [live], rows := update s.rows id (some .queued),
    live := id :: s.live, queue := s.queue ++ [id] }
  let s := emitUpdate ambient s id
  { s with immediates := s.immediates ++ [ambient] }

def start (ambient : Context υ) (s : JobsState κ υ) (id : Nat) : JobsState κ υ :=
  let s := modifyJob s id (fun live => { live with status := .running, runner := some ambient })
  let s := { s with
    running := s.running.insert id, starts := ⟨id, s.running.length, s.concurrency⟩ :: s.starts }
  emitUpdate ambient (persist s id) id

def startable (s : JobsState κ υ) (id : Nat) : Bool :=
  match s.jobs[id]? with
  | some live => decide (id ∈ s.live) && !live.finished && decide (live.status = .queued)
  | none => false

def pumpFrom (ambient : Context υ) : List Nat → JobsState κ υ → JobsState κ υ
  | [], s => { s with queue := [] }
  | id :: rest, s =>
      if s.concurrency.room s.running.length then
        pumpFrom ambient rest
          (if startable s id then start ambient { s with queue := rest } id
           else { s with queue := rest })
      else { s with queue := id :: rest }

def pump (ambient : Context υ) (s : JobsState κ υ) : JobsState κ υ := pumpFrom ambient s.queue s

def setConcurrency (ambient : Context υ) (s : JobsState κ υ) (n : Count) : JobsState κ υ :=
  pump ambient { s with concurrency := n.slots }

def finalStatus (live : LiveJob κ υ) (status : JobStatus) : JobStatus :=
  if live.cancelRequested && decide (status = .done) then .cancelled else status

def finished (live : LiveJob κ υ) (status : JobStatus) (error : Option String) : LiveJob κ υ :=
  { live with
    finished := true, flushTimer := none, killTimer := none, forceTimer := none,
    status := finalStatus live status,
    error := if finalStatus live status = .done then none else error <|> live.error,
    persistDirty := true }

def freeSlot (ambient : Context υ) (s : JobsState κ υ) (id : Nat) (live : LiveJob κ υ)
    (status : JobStatus) (error : Option String) : JobsState κ υ :=
  let s := modifyJob s id (fun live => finished live status error)
  let s := if live.removed then s else emitLog ambient s id
  let s := persist s id
  let s := if live.removed then s else emitUpdate ambient s id
  let s := modifyJob s id (fun live => { live with children := 0 })
  { s with running := s.running.erase id, live := s.live.erase id }

def finish (ambient : Context υ) (s : JobsState κ υ) (id : Nat) (status : JobStatus)
    (error : Option String) : JobsState κ υ :=
  match s.jobs[id]? with
  | some live => if live.finished then s else pump ambient (freeSlot ambient s id live status error)
  | none => s

def cancelRow (ambient : Context υ) (s : JobsState κ υ) (id : Nat) : JobsState κ υ × Bool :=
  match s.rows id with
  | some status =>
      if status.terminal then (s, false)
      else (emit ambient { s with rows := update s.rows id (some .cancelled) } id
        (.jobUpdate .cancelled none), true)
  | none => (s, false)

def cancelStarted (ambient : Context υ) (s : JobsState κ υ) (id : Nat) : JobsState κ υ :=
  let s := modifyJob s id (fun live => { live with status := .cancelling })
  let s := appendLog ambient s id ["Cancel requested"]
  let s := emitUpdate ambient (persist s id) id
  modifyJob s id (fun live =>
    { live with aborted := true, killTimer := some ambient, forceTimer := some ambient })

def cancelLive (ambient : Context υ) (s : JobsState κ υ) (id : Nat) (live : LiveJob κ υ) :
    JobsState κ υ × Bool :=
  if live.finished || live.cancelRequested then (s, false)
  else
    let s := modifyJob s id (fun live => { live with cancelRequested := true })
    if live.status = .queued then
      (finish ambient { s with queue := s.queue.erase id } id .cancelled
        (some "Cancelled before it started"), true)
    else (cancelStarted ambient s id, true)

def cancel (ambient : Context υ) (s : JobsState κ υ) (id : Nat) : JobsState κ υ × Bool :=
  if id ∈ s.live then
    match s.jobs[id]? with
    | some live => cancelLive ambient s id live
    | none => (s, false)
  else cancelRow ambient s id

def dropRow (s : JobsState κ υ) (id : Nat) : JobsState κ υ × Bool :=
  ({ s with queue := s.queue.erase id, rows := update s.rows id none }, (s.rows id).isSome)

def unfinished (s : JobsState κ υ) (id : Nat) : Bool :=
  match s.jobs[id]? with
  | some live => decide (id ∈ s.live) && !live.finished
  | none => false

def remove (ambient : Context υ) (s : JobsState κ υ) (id : Nat) : JobsState κ υ :=
  if unfinished s id then
    let s := (cancel ambient s id).1
    { s with removals := s.removals ++ [id] }
  else (dropRow s id).1

def removeCancelled (s : JobsState κ υ) (id : Nat) : JobsState κ υ :=
  let s := if id ∈ s.live then modifyJob s id (fun live => { live with removed := true }) else s
  (dropRow s id).1

inductive Outcome where
  | resolved
  | rejected (message : String) (abortError : Bool)
  deriving DecidableEq

def settle (s : JobsState κ υ) (id : Nat) (live : LiveJob κ υ) (outcome : Outcome) :
    Option (JobsState κ υ) :=
  match live.runner with
  | some ambient =>
      if live.settled then none
      else
        let s := modifyJob s id (fun live => { live with settled := true })
        match outcome with
        | .resolved => some (finish ambient s id .done none)
        | .rejected message abortError =>
            if live.cancelRequested || live.aborted || abortError then
              some (finish ambient s id .cancelled (some message))
            else some (finish ambient s id .failed (some message))
  | none => none

inductive RunnerCall where
  | progress
  | log (lines : List String)
  | registerChild
  deriving DecidableEq

def runnerCall (s : JobsState κ υ) (id : Nat) (live : LiveJob κ υ) (call : RunnerCall) :
    Option (JobsState κ υ) :=
  match live.runner with
  | some ambient => match call with
    | .progress =>
        if live.finished then some s
        else some (scheduleFlush ambient (modifyJob s id (fun live =>
          { live with progressDirty := true, persistDirty := true })) id)
    | .log lines => if live.finished then some s else some (appendLog ambient s id lines)
    | .registerChild => some (modifyJob s id (fun live => { live with children := live.children + 1 }))
  | none => none

inductive Timer where
  | flush (due : Bool) | kill | force
  deriving DecidableEq

def fire (s : JobsState κ υ) (id : Nat) (live : LiveJob κ υ) : Timer → Option (JobsState κ υ)
  | .flush due => match live.flushTimer with
    | some ambient =>
        some (flush ambient (modifyJob s id (fun live => { live with flushTimer := none })) id due)
    | none => none
  | .kill => match live.killTimer with
    | some ambient =>
        let s := modifyJob s id (fun live => { live with killTimer := none })
        if live.finished || live.children = 0 then some s
        else some (appendLog ambient s id ["Child process did not exit on SIGTERM; sent SIGKILL"])
    | none => none
  | .force => match live.forceTimer with
    | some ambient =>
        let s := modifyJob s id (fun live => { live with forceTimer := none })
        if live.finished then some s
        else some (finish ambient
          (appendLog ambient s id ["Runner did not stop after SIGKILL; releasing the job slot"]) id
          .cancelled (some "Cancelled (runner did not stop)"))
    | none => none

inductive Action (κ υ : Type) where
  | create (ambient : Context υ) (connectionId : Option κ)
  | cancel (ambient : Context υ) (id : Nat)
  | remove (ambient : Context υ) (id : Nat)
  | setConcurrency (ambient : Context υ) (n : Count)
  | immediate (i : Nat)
  | removal (i : Nat)
  | settle (id : Nat) (outcome : Outcome)
  | call (id : Nat) (call : RunnerCall)
  | timer (id : Nat) (timer : Timer)
  deriving DecidableEq

def step (s : JobsState κ υ) : Action κ υ → Option (JobsState κ υ)
  | .create ambient connectionId => some (create ambient s connectionId)
  | .cancel ambient id => some (cancel ambient s id).1
  | .remove ambient id => some (remove ambient s id)
  | .setConcurrency ambient n => some (setConcurrency ambient s n)
  | .immediate i => match s.immediates[i]? with
    | some ambient => some (pump ambient { s with immediates := s.immediates.eraseIdx i })
    | none => none
  | .removal i => match s.removals[i]? with
    | some id => some (removeCancelled { s with removals := s.removals.eraseIdx i } id)
    | none => none
  | .settle id outcome => match s.jobs[id]? with
    | some live => settle s id live outcome
    | none => none
  | .call id call => match s.jobs[id]? with
    | some live => runnerCall s id live call
    | none => none
  | .timer id timer => match s.jobs[id]? with
    | some live => fire s id live timer
    | none => none

end Operations

end DatabaseAdmin.JobManager
