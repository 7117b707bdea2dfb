import DatabaseAdmin.JobManager

/-! What the manager's steps do to the life of its jobs, without progress, logs and
events: each job's stage, its row, the queue, the slots and the starts so far. -/
namespace DatabaseAdmin.JobManager
open Function

structure Stage where
  status : JobStatus
  cancelRequested : Bool
  finished : Bool
  removed : Bool
  forced : Bool
  deriving DecidableEq

structure Board where
  count : Nat
  stages : Nat → Option Stage
  rows : Nat → Option JobStatus
  live : List Nat
  queue : List Nat
  running : List Nat
  concurrency : Concurrency
  pumps : Nat
  removals : List Nat
  starts : List Start

namespace Board

def started (b : Board) : List Nat := b.starts.map Start.job

def change (b : Board) (id : Nat) (f : Stage → Stage) : Board :=
  { b with stages := update b.stages id ((b.stages id).map f) }

def save (b : Board) (id : Nat) : Board :=
  match b.stages id with
  | some g =>
      if g.removed then b
      else { b with rows := update b.rows id ((b.rows id).map fun _ => g.status) }
  | none => b

def open' (b : Board) : Board :=
  { b with
    count := b.count + 1,
    stages := update b.stages b.count (some ⟨.queued, false, false, false, false⟩),
    rows := update b.rows b.count (some .queued),
    live := b.count :: b.live, queue := b.queue ++ [b.count], pumps := b.pumps + 1 }

def startable (b : Board) (id : Nat) : Bool :=
  match b.stages id with
  | some g => decide (id ∈ b.live) && !g.finished && decide (g.status = .queued)
  | none => false

def start (b : Board) (id : Nat) : Board :=
  let b := b.change id (fun g => { g with status := .running })
  let b := { b with
    running := b.running.insert id, starts := ⟨id, b.running.length, b.concurrency⟩ :: b.starts }
  b.save id

def pumpFrom : List Nat → Board → Board
  | [], b => { b with queue := [] }
  | id :: rest, b =>
      if b.concurrency.room b.running.length then
        pumpFrom rest
          (if b.startable id then start { b with queue := rest } id else { b with queue := rest })
      else { b with queue := id :: rest }

def pump (b : Board) : Board := pumpFrom b.queue b

def end' (g : Stage) (status : JobStatus) : Stage :=
  { g with
    finished := true, forced := false,
    status := if g.cancelRequested && decide (status = .done) then .cancelled else status }

def free (b : Board) (id : Nat) (status : JobStatus) : Board :=
  let b := (b.change id (end' · status)).save id
  { b with running := b.running.erase id, live := b.live.erase id }

def finish (b : Board) (id : Nat) (status : JobStatus) : Board :=
  match b.stages id with
  | some g => if g.finished then b else (b.free id status).pump
  | none => b

def cancelStarted (b : Board) (id : Nat) : Board :=
  ((b.change id (fun g => { g with status := .cancelling })).save id).change id
    (fun g => { g with forced := true })

def cancelLive (b : Board) (id : Nat) (g : Stage) : Board :=
  if g.finished || g.cancelRequested then b
  else
    let b := b.change id (fun g => { g with cancelRequested := true })
    if g.status = .queued then finish { b with queue := b.queue.erase id } id .cancelled
    else b.cancelStarted id

def cancelRow (b : Board) (id : Nat) : Board :=
  match b.rows id with
  | some status => if status.terminal then b else { b with rows := update b.rows id (some .cancelled) }
  | none => b

def cancel (b : Board) (id : Nat) : Board :=
  if id ∈ b.live then
    match b.stages id with
    | some g => b.cancelLive id g
    | none => b
  else b.cancelRow id

def dropRow (b : Board) (id : Nat) : Board :=
  { b with queue := b.queue.erase id, rows := update b.rows id none }

def unfinished (b : Board) (id : Nat) : Bool :=
  match b.stages id with
  | some g => decide (id ∈ b.live) && !g.finished
  | none => false

def remove (b : Board) (id : Nat) : Board :=
  if b.unfinished id then
    let b := b.cancel id
    { b with removals := b.removals ++ [id] }
  else b.dropRow id

def removeCancelled (b : Board) (id : Nat) : Board :=
  (if id ∈ b.live then b.change id (fun g => { g with removed := true }) else b).dropRow id

structure StageSound (b : Board) (id : Nat) (g : Stage) : Prop where
  ended : g.finished = g.status.terminal
  live : id ∈ b.live ↔ g.finished = false
  slot : id ∈ b.running ↔ id ∈ b.started ∧ g.finished = false
  fresh : g.status = .queued → id ∉ b.started
  active : g.status = .running ∨ g.status = .cancelling → id ∈ b.started
  row : g.finished = true → b.rows id = none ∨ b.rows id = some g.status
  gone : g.removed = true → b.rows id = none
  removing : id ∈ b.removals → g.status ≠ .queued

structure Sound (b : Board) : Prop where
  bounded : ∀ id, (b.stages id).isSome ↔ id < b.count
  blank : ∀ id, b.count ≤ id → b.rows id = none
  known : ∀ id, id ∈ b.running ∨ id ∈ b.started ∨ id ∈ b.live ∨ id ∈ b.removals → id < b.count
  slots : b.running.Nodup
  lives : b.live.Nodup
  once : b.started.Nodup
  roomy : ∀ st ∈ b.starts, st.concurrency.room st.running = true
  stages : ∀ id g, b.stages id = some g → b.StageSound id g

structure Placed (b : Board) (id : Nat) (g : Stage) : Prop where
  waiting : g.status = .queued → id ∈ b.queue
  forced : g.cancelRequested = true → g.finished = false → g.status = .cancelling ∧ g.forced = true

def PlacedBut (b : Board) (spared : Nat → Prop) : Prop :=
  ∀ id g, b.stages id = some g → ¬ spared id → b.Placed id g

def Settled (b : Board) : Prop :=
  b.concurrency.room b.running.length = false ∨ ∀ id ∈ b.queue, b.startable id = false

structure Orderly (b : Board) : Prop where
  sound : b.Sound
  placed : b.PlacedBut (fun _ => False)
  busy : b.Settled ∨ 0 < b.pumps

def Keeps (b b' : Board) : Prop :=
  ∀ id g, b.stages id = some g → ∃ g', b'.stages id = some g' ∧
    (g.finished = true → g'.finished = true ∧ g'.status = g.status)

end Board

end DatabaseAdmin.JobManager
