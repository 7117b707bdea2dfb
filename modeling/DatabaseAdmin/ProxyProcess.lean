import DatabaseAdmin.StepSystem

/-! A supervised proxy process. A child's exit is the event its listeners hear; a child that was
sent SIGKILL no longer runs although that event is still to come. -/
namespace DatabaseAdmin.ProxyProcess
open StepSystem Function

inductive ReadyPattern where
  | absent | valid | invalid
  deriving DecidableEq

structure Options where
  argv : List String
  readyPattern : ReadyPattern
  probe : Bool

inductive Status where
  | absent | running | killed
  | exited (bySignal : Bool)
  deriving DecidableEq

inductive Attempt where
  | underway | succeeded | failed
  deriving DecidableEq

structure Child where
  status : Status
  attempt : Attempt
  deriving DecidableEq

inductive Stage where
  | waiting (child : Nat)
  | probing (child : Nat)
  | killing (child target : Nat)
  deriving DecidableEq

inductive Phase where
  | attempts (first : Bool) (stage : Stage)
  | started | rejected | sleeping | ended
  deriving DecidableEq

structure Proxy where
  children : Nat → Child
  spawned : Nat
  child : Option Nat
  ready : Bool
  stopped : Bool
  restarts : Nat
  phase : Phase
  closing : Option Nat
  closed : Bool

inductive Action where
  | exit (child : Nat) (bySignal : Bool)
  | spawnError
  | output (ready : Bool)
  | deadline
  | probed (found : Bool)
  | grace
  | wake (spawned : Bool)
  | close
  | closeGrace
  deriving DecidableEq

def maxRestarts : Nat := 6

def fresh : Proxy :=
  ⟨fun _ => ⟨.absent, .underway⟩, 0, none, false, false, 0, .rejected, none, false⟩

def becomes (p : Proxy) (c : Nat) (status : Status) : Proxy :=
  { p with children := update p.children c { p.children c with status := status } }

def concludes (p : Proxy) (c : Nat) (attempt : Attempt) : Proxy :=
  { p with children := update p.children c { p.children c with attempt := attempt } }

def loop (p : Proxy) : Proxy :=
  if !p.stopped && p.restarts < maxRestarts then
    { p with restarts := p.restarts + 1, phase := .sleeping }
  else { p with phase := .ended }

def reject (p : Proxy) (first : Bool) : Proxy :=
  if first then { p with phase := .rejected } else loop p

def fails (p : Proxy) (first : Bool) (c : Nat) : Proxy := reject (concludes p c .failed) first

def succeeds (p : Proxy) (first : Bool) (c : Nat) : Proxy :=
  { concludes p c .succeeded with
    ready := true,
    phase := .started,
    restarts := if first then p.restarts else 0 }

def spawn (p : Proxy) : Proxy :=
  { p with
    children := update p.children p.spawned ⟨.running, .underway⟩,
    spawned := p.spawned + 1,
    child := some p.spawned }

def spawnAndWait (options : Options) (p : Proxy) (first spawned : Bool) : Proxy :=
  let p := { p with ready := false }
  if spawned then
    match options.readyPattern with
    | .invalid => fails (spawn p) first p.spawned
    | _ => { spawn p with phase := .attempts first (.waiting p.spawned) }
  else reject p first

def finish (options : Options) (p : Proxy) (first : Bool) (c : Nat) : Proxy :=
  if options.probe then { p with phase := .attempts first (.probing c) } else succeeds p first c

def begins (options : Options) (spawned : Bool) : Bool :=
  options.argv.head?.any (· ≠ "") && spawned

def start (options : Options) (spawned : Bool) : Proxy :=
  if options.argv.head?.any (· ≠ "") then spawnAndWait options fresh true spawned else fresh

def killChild (p : Proxy) : Proxy × Option Nat :=
  ({ p with child := none }, p.child.filter fun c => (p.children c).status ≠ .exited false)

def onExit (p : Proxy) : Proxy :=
  if p.stopped then p
  else
    let p := { p with ready := false }
    match p.phase with
    | .started => loop p
    | .ended => loop p
    | _ => p

def exits (p : Proxy) (c : Nat) : Proxy :=
  match p.phase with
  | .attempts first (.waiting d) => if d = c then fails p first d else p
  | .attempts first (.killing d target) => if target = c then fails p first d else p
  | _ => p

def exit (p : Proxy) (c : Nat) (bySignal : Bool) : Proxy :=
  let heard := exits (becomes p c (.exited bySignal)) c
  let p := if (p.children c).attempt = .succeeded then onExit heard else heard
  if p.closing = some c then { p with closing := none, closed := true } else p

def kill (p : Proxy) (c : Nat) : Proxy :=
  if (p.children c).status = .running then becomes p c .killed else p

def close (p : Proxy) : Proxy :=
  if p.stopped then { p with closed := true }
  else
    let killed := killChild { p with stopped := true, ready := false }
    match killed.2 with
    | none => { killed.1 with closed := true }
    | some c => { killed.1 with closing := some c }

def step (options : Options) (p : Proxy) : Action → Option Proxy
  | .exit c bySignal => match (p.children c).status with
    | .running => some (exit p c bySignal)
    | .killed => some (exit p c true)
    | _ => none
  | .spawnError => match p.phase with
    | .attempts first (.waiting c) =>
        if (p.children c).status = .running then some (fails (becomes p c (.exited false)) first c)
        else none
    | _ => none
  | .output ready => match p.phase with
    | .attempts first (.waiting c) =>
        if ready && options.readyPattern = .valid then some (finish options p first c) else some p
    | _ => some p
  | .deadline => match p.phase with
    | .attempts first (.waiting c) => match options.readyPattern with
      | .absent => some (finish options p first c)
      | _ => some (fails p first c)
    | _ => none
  | .probed found => match p.phase with
    | .attempts first (.probing c) =>
        if found then some (succeeds p first c)
        else
          let killed := killChild p
          match killed.2 with
          | none => some (fails killed.1 first c)
          | some target => some { killed.1 with phase := .attempts first (.killing c target) }
    | _ => none
  | .grace => match p.phase with
    | .attempts first (.killing c target) => some (fails (kill p target) first c)
    | _ => none
  | .wake spawned => match p.phase with
    | .sleeping =>
        if p.stopped then some { p with phase := .ended }
        else some (spawnAndWait options p false spawned)
    | _ => none
  | .close => match p.phase with
    | .attempts true _ => none
    | .rejected => none
    | _ => some (close p)
  | .closeGrace => match p.closing with
    | some c => some { kill p c with closing := none, closed := true }
    | none => none

end DatabaseAdmin.ProxyProcess
