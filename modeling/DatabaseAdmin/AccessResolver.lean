import DatabaseAdmin.StepSystem

/-! The access resolver's shared tunnels and proxies. -/
namespace DatabaseAdmin.AccessResolver
open StepSystem Function

structure Entry (κ : Type) where
  key : κ
  refs : Nat
  disposeTimer : Bool
  disposed : Bool
  deriving DecidableEq

inductive Creation where
  | pending | failed
  | made (entry : Nat)
  deriving DecidableEq

inductive AcquireStage where
  | creating (promise : Nat)
  | waiting (promise : Nat)
  | checking (promise entry : Nat)
  | disposing
  deriving DecidableEq

inductive Task (κ : Type) where
  | acquires (key : κ) (attempt : Nat) (stage : AcquireStage)
  | disposesIdle (entry promise : Nat)
  | done
  deriving DecidableEq

structure Handle where
  entry : Nat
  released : Bool
  wasDisposed : Bool
  deriving DecidableEq

structure ResolverState (κ : Type) where
  heap : List (Entry κ)
  promises : List Creation
  entries : κ → Option Nat
  tasks : List (Task κ)
  handles : List Handle

def empty (κ : Type) : ResolverState κ := ⟨[], [], fun _ => none, [], []⟩

inductive Action (κ : Type) where
  | acquire (key : κ)
  | release (handle : Nat)
  | timer (entry : Nat)
  | resume (task : Nat) (ok : Bool)
  deriving DecidableEq

section Operations
variable {κ : Type}

def modifyEntry (s : ResolverState κ) (entry : Nat) (change : Entry κ → Entry κ) : ResolverState κ :=
  { s with heap := s.heap.modify entry change }

def become (s : ResolverState κ) (t : Nat) (task : Task κ) : ResolverState κ :=
  { s with tasks := s.tasks.set t task }

def spawn (s : ResolverState κ) (task : Task κ) : ResolverState κ :=
  { s with tasks := s.tasks ++ [task] }

def handOut (s : ResolverState κ) (entry : Nat) (disposed : Bool) : ResolverState κ :=
  { modifyEntry s entry (fun e => { e with refs := e.refs + 1 }) with
    handles := s.handles ++ [⟨entry, false, disposed⟩] }

def dispose (s : ResolverState κ) (entry : Nat) : ResolverState κ :=
  modifyEntry s entry (fun e =>
    if e.disposed then e else { e with disposed := true, disposeTimer := false })

variable [DecidableEq κ]

def forget (s : ResolverState κ) (key : κ) (promise : Nat) : ResolverState κ :=
  if s.entries key = some promise then { s with entries := update s.entries key none } else s

def attempt (s : ResolverState κ) (key : κ) (n : Nat) : ResolverState κ × Task κ :=
  if n < 3 then
    match s.entries key with
    | none =>
        let promise := s.promises.length
        ({ s with
          promises := s.promises ++ [.pending],
          entries := update s.entries key (some promise) }, .acquires key n (.creating promise))
    | some promise => (s, .acquires key n (.waiting promise))
  else (s, .done)

def acquire (s : ResolverState κ) (key : κ) : ResolverState κ :=
  let tried := attempt s key 0
  spawn tried.1 tried.2

def retry (s : ResolverState κ) (t : Nat) (key : κ) (n : Nat) : ResolverState κ :=
  let tried := attempt s key (n + 1)
  become tried.1 t tried.2

def discard (s : ResolverState κ) (t : Nat) (key : κ) (n promise entry : Nat) (e : Entry κ) :
    ResolverState κ :=
  let s := forget s key promise
  if e.refs = 0 then become (dispose s entry) t (.acquires key n .disposing)
  else retry s t key n

def created (s : ResolverState κ) (t : Nat) (key : κ) (promise : Nat) : ResolverState κ :=
  let entry := s.heap.length
  let s := { s with
    heap := s.heap ++ [⟨key, 0, false, false⟩],
    promises := s.promises.set promise (.made entry) }
  become (handOut s entry false) t .done

def resumeAcquire (s : ResolverState κ) (t : Nat) (key : κ) (n : Nat) (ok : Bool) :
    AcquireStage → Option (ResolverState κ)
  | .creating promise =>
      if ok then some (created s t key promise)
      else
        let s := { s with promises := s.promises.set promise .failed }
        some (become (forget s key promise) t .done)
  | .waiting promise => match s.promises[promise]? with
    | some .failed => some (retry (forget s key promise) t key n)
    | some (.made entry) => match s.heap[entry]? with
      | some e =>
          let s := modifyEntry s entry (fun e => { e with disposeTimer := false })
          if e.disposed then some (discard s t key n promise entry e)
          else some (become s t (.acquires key n (.checking promise entry)))
      | none => none
    | _ => none
  | .checking promise entry => match s.heap[entry]? with
    | some e =>
        if ok && !e.disposed then some (become (handOut s entry e.disposed) t .done)
        else some (discard s t key n promise entry e)
    | none => none
  | .disposing => some (retry s t key n)

def releaseEntry (s : ResolverState κ) (entry : Nat) : ResolverState κ :=
  modifyEntry s entry (fun e =>
    let e := { e with refs := e.refs - 1 }
    if e.refs > 0 || e.disposed then e else { e with disposeTimer := true })

def release (s : ResolverState κ) (handle : Nat) : Option (ResolverState κ) :=
  match s.handles[handle]? with
  | some h =>
      if h.released then some s
      else
        let s := { s with handles := s.handles.set handle { h with released := true } }
        some (releaseEntry s h.entry)
  | none => none

-- `disposeIfIdle` up to its await, and from there on.
def disposeIfIdle (s : ResolverState κ) (entry : Nat) (e : Entry κ) : ResolverState κ :=
  if e.refs > 0 || e.disposed then s
  else match s.entries e.key with
    | some promise => spawn s (.disposesIdle entry promise)
    | none => dispose s entry

def resumeIdle (s : ResolverState κ) (t entry promise : Nat) (e : Entry κ) :
    Option (ResolverState κ) :=
  let deleted := { s with entries := update s.entries e.key none }
  match s.promises[promise]? with
  | some (.made found) =>
      let s := if found = entry then deleted else s
      some (become (if e.refs > 0 then s else dispose s entry) t .done)
  | some .failed => some (become (if e.refs > 0 then deleted else dispose deleted entry) t .done)
  | _ => none

def step (s : ResolverState κ) : Action κ → Option (ResolverState κ)
  | .acquire key => some (acquire s key)
  | .release handle => release s handle
  | .timer entry => match s.heap[entry]? with
    | some e =>
        if e.disposeTimer then
          some (disposeIfIdle (modifyEntry s entry (fun e => { e with disposeTimer := false })) entry e)
        else none
    | none => none
  | .resume t ok => match s.tasks[t]? with
    | some (.acquires key n stage) => resumeAcquire s t key n ok stage
    | some (.disposesIdle entry promise) => match s.heap[entry]? with
      | some e => resumeIdle s t entry promise e
      | none => none
    | _ => none

end Operations

end DatabaseAdmin.AccessResolver
