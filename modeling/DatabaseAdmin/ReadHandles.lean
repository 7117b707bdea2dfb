import DatabaseAdmin.StepSystem

/-! The SQLite worker's read handles next to its primary handle: opened with the attachments of
their moment, lent to cursors, given back and lent again. -/
namespace DatabaseAdmin.ReadHandles
open StepSystem Function

section Model
variable (α π β σ ι : Type)

structure Attachment where
  aliasName : α
  path : Option π
  deriving DecidableEq

structure Handle where
  attached : List (Attachment α π)
  temp : α → Option β
  memory : α → α → Option β
  session : σ

abbrev Files := π → α → Option β

structure OpenPayload where
  file : π
  memory : Bool
  attach : List (Attachment α π)

structure Primary where
  handle : Handle α π β σ
  inTransaction : Bool
  working : Files α π β

structure Worker where
  opened : OpenPayload α π
  primary : Primary α π β σ
  committed : Files α π β
  readPool : List (Handle α π β σ)
  cursors : ι → Option (Handle α π β σ)

end Model

inductive Schema (α : Type) where
  | main
  | temp
  | named (aliasName : α)

structure TableRef (α : Type) where
  schema : Option (Schema α)
  name : α

structure ReadStatement (α β σ ω : Type) where
  refs : List (TableRef α)
  ofConnection : Bool
  rows : List β → Option σ → ω

def readPoolMax : Nat := 4

section Engine
variable {α π β σ ω : Type} [DecidableEq α]

def tablesOf (files : Files α π β) (h : Handle α π β σ) (a : Attachment α π) : α → Option β :=
  match a.path with
  | some path => files path
  | none => h.memory a.aliasName

def resolve (fold : α → α) (main : π) (files : Files α π β) (h : Handle α π β σ) (ref : TableRef α) : Option β :=
  match ref.schema with
  | some .main => files main (fold ref.name)
  | some .temp => h.temp (fold ref.name)
  | some (.named aliasName) =>
      (h.attached.find? fun a => fold a.aliasName = fold aliasName).bind fun a => tablesOf files h a (fold ref.name)
  | none =>
      (h.temp (fold ref.name)).or
        ((files main (fold ref.name)).or (h.attached.findSome? fun a => tablesOf files h a (fold ref.name)))

def prepare (fold : α → α) (main : π) (files : Files α π β) (h : Handle α π β σ)
    (q : ReadStatement α β σ ω) : Option (List β) := q.refs.mapM (resolve fold main files h)

def iterate (h : Handle α π β σ) (q : ReadStatement α β σ ω) (tables : List β) : ω :=
  q.rows tables (if q.ofConnection then some h.session else none)

end Engine

inductive WorkerAction (α π β σ ω ι : Type) where
  | query (id : ι) (statement : ReadStatement α β σ ω) (opens more : Bool)
  | closeCursor (id : ι)
  | execute (after : Primary α π β σ) (committed : Files α π β)
  | commitElsewhere (committed : Files α π β)
  | attach (attachment : Attachment α π)
  | detach (aliasName : α)
  | begin

section Operations
variable {α π β σ ω ι : Type} [DecidableEq α] [DecidableEq ι]

def freshHandle (fresh : σ) (attach : List (Attachment α π)) : Handle α π β σ :=
  ⟨attach, fun _ => none, fun _ _ => none, fresh⟩

def attachTo (fold : α → α) (h : Handle α π β σ) (a : Attachment α π) : Option (Handle α π β σ) :=
  if h.attached.any fun b => fold b.aliasName = fold a.aliasName then none else some { h with attached := h.attached ++ [a] }

def openHandle (fold : α → α) (fresh : σ) (attach : List (Attachment α π)) : Option (Handle α π β σ) :=
  attach.foldlM (attachTo fold) (freshHandle fresh [])

def openWorker (fold : α → α) (fresh : σ) (p : OpenPayload α π) (files : Files α π β) :
    Option (Worker α π β σ ι) :=
  (openHandle fold fresh p.attach).map fun h => ⟨p, ⟨h, false, files⟩, files, [], fun _ => none⟩

def primaryFiles (s : Worker α π β σ ι) : Files α π β :=
  if s.primary.inTransaction then s.primary.working else s.committed

def canUseReadHandle (s : Worker α π β σ ι) : Bool := !s.opened.memory && !s.primary.inTransaction

def acquireRead (fold : α → α) (fresh : σ) (s : Worker α π β σ ι) (opens : Bool) :
    Option (Handle α π β σ × List (Handle α π β σ)) :=
  if canUseReadHandle s then
    match s.readPool with
    | h :: pool => some (h, pool)
    | [] => if opens then (openHandle fold fresh s.opened.attach).map fun h => (h, []) else none
  else none

def releaseRead (pool : List (Handle α π β σ)) (h : Handle α π β σ) : List (Handle α π β σ) :=
  if pool.length < readPoolMax then h :: pool else pool

def onPrimary (fold : α → α) (s : Worker α π β σ ι) (q : ReadStatement α β σ ω) : Option ω :=
  (prepare fold s.opened.file (primaryFiles s) s.primary.handle q).map (iterate s.primary.handle q)

def runQuery (fold : α → α) (fresh : σ) (s : Worker α π β σ ι) (q : ReadStatement α β σ ω) (opens : Bool) :
    Option ω :=
  match onPrimary fold s q with
  | none => none
  | some rows => match acquireRead fold fresh s opens with
    | none => some rows
    | some (h, _) => match prepare fold s.opened.file s.committed h q with
      | none => some rows
      | some tables => some (iterate h q tables)

def query (fold : α → α) (fresh : σ) (s : Worker α π β σ ι) (id : ι) (q : ReadStatement α β σ ω)
    (opens more : Bool) : Option (Worker α π β σ ι) :=
  match onPrimary fold s q with
  | none => some s
  | some _ => match acquireRead fold fresh s opens with
    | none => some s
    | some (h, pool) =>
        if more ∧ (prepare fold s.opened.file s.committed h q).isSome then
          if (s.cursors id).isSome then none
          else some { s with readPool := pool, cursors := update s.cursors id (some h) }
        else some { s with readPool := releaseRead pool h }

def closeCursor (s : Worker α π β σ ι) (id : ι) : Worker α π β σ ι :=
  match s.cursors id with
  | none => s
  | some h => { s with readPool := releaseRead s.readPool h, cursors := update s.cursors id none }

def attach (fold : α → α) (s : Worker α π β σ ι) (a : Attachment α π) : Option (Worker α π β σ ι) :=
  match attachTo fold s.primary.handle a with
  | none => none
  | some h => some { s with
      primary := { s.primary with handle := h }
      opened := { s.opened with attach := s.opened.attach.filter (fun b => b.aliasName ≠ a.aliasName) ++ [a] }
      readPool := [] }

def detach (fold : α → α) (s : Worker α π β σ ι) (aliasName : α) : Option (Worker α π β σ ι) :=
  if s.primary.handle.attached.any fun b => fold b.aliasName = fold aliasName then
    some { s with
      primary := { s.primary with handle := { s.primary.handle with
        attached := s.primary.handle.attached.filter fun b => fold b.aliasName ≠ fold aliasName } }
      opened := { s.opened with attach := s.opened.attach.filter fun b => b.aliasName ≠ aliasName }
      readPool := [] }
  else none

def step (fold : α → α) (fresh : σ) (s : Worker α π β σ ι) :
    WorkerAction α π β σ ω ι → Option (Worker α π β σ ι)
  | .query id q opens more => query fold fresh s id q opens more
  | .closeCursor id => some (closeCursor s id)
  | .execute after committed => some { s with primary := after, committed := committed }
  | .commitElsewhere committed => some { s with committed := committed }
  | .attach a => attach fold s a
  | .detach aliasName => detach fold s aliasName
  | .begin =>
      if s.primary.inTransaction then none
      else some { s with primary := { s.primary with inTransaction := true }, readPool := [] }

end Operations

section Agreement
variable {α π β σ ω ι : Type} [DecidableEq α] {fold : α → α} {fresh : σ} {s s' : Worker α π β σ ι}

-- No attachment comes or goes while a cursor has a handle out, nor through a statement's text;
-- a detach spells the alias as it was attached, and nothing is attached from memory.
def InOrder (fold : α → α) (s : Worker α π β σ ι) : WorkerAction α π β σ ω ι → Prop
  | .attach a => a.path.isSome ∧ ∀ id, s.cursors id = none
  | .detach aliasName => (∀ id, s.cursors id = none) ∧
      ∀ b ∈ s.primary.handle.attached, fold b.aliasName = fold aliasName → b.aliasName = aliasName
  | .execute after _ => after.handle.attached = s.primary.handle.attached
  | _ => True

-- The statement asks nothing of the connection itself, and no temp object stands before a table
-- it names.
def Unshadowed (fold : α → α) (s : Worker α π β σ ι) (q : ReadStatement α β σ ω) : Prop :=
  q.ofConnection = false ∧ ∀ ref ∈ q.refs, ref.schema = none → s.primary.handle.temp (fold ref.name) ≠ none →
    s.committed s.opened.file (fold ref.name) = none ∧
    ∀ a ∈ s.primary.handle.attached, tablesOf s.committed s.primary.handle a (fold ref.name) = none

structure Fresh (fresh : σ) (s : Worker α π β σ ι) : Prop where
  same : s.opened.attach = s.primary.handle.attached
  onFile : ∀ a ∈ s.primary.handle.attached, a.path.isSome
  pool : ∀ h ∈ s.readPool, h = freshHandle fresh s.primary.handle.attached
  lent : ∀ id h, s.cursors id = some h → h = freshHandle fresh s.primary.handle.attached

structure Agrees (ω : Type) (fold : α → α) (fresh : σ) (s : Worker α π β σ ι) : Prop where
  pool : ∀ h ∈ s.readPool, h.attached = s.primary.handle.attached
  rows : ∀ (q : ReadStatement α β σ ω) (opens : Bool), (canUseReadHandle s → Unshadowed fold s q) →
    runQuery fold fresh s q opens = onPrimary fold s q

theorem attachAll {h h' : Handle α π β σ} {attach : List (Attachment α π)}
    (opened : attach.foldlM (attachTo fold) h = some h') : h' = { h with attached := h.attached ++ attach } := by
  induction attach generalizing h with
  | nil =>
    cases opened
    simp
  | cons a rest ih =>
    simp only [List.foldlM_cons, Option.bind_eq_bind, Option.bind_eq_some_iff] at opened
    obtain ⟨next, first, others⟩ := opened
    simp only [attachTo] at first
    split at first
    · contradiction
    · cases first
      simp [ih others]

theorem openHandleFresh {attach : List (Attachment α π)} {h : Handle α π β σ}
    (opened : openHandle fold fresh attach = some h) : h = freshHandle fresh attach := attachAll opened

theorem mapMSome {γ δ : Type} {f g : γ → Option δ} {xs : List γ} {ys : List δ}
    (agree : ∀ x ∈ xs, ∀ y, f x = some y → g x = some y) (found : xs.mapM f = some ys) : xs.mapM g = some ys := by
  induction xs generalizing ys with
  | nil => exact found
  | cons x xs ih =>
    simp only [List.mapM_cons, Option.bind_eq_bind, Option.bind_eq_some_iff] at found ⊢
    obtain ⟨y, here, zs, rest, whole⟩ := found
    exact ⟨y, agree x List.mem_cons_self y here, zs,
      ih (fun x inside => agree x (List.mem_cons_of_mem _ inside)) rest, whole⟩

theorem findSomeSame {γ δ : Type} {f g : γ → Option δ} {xs : List γ} (same : ∀ x ∈ xs, f x = g x) :
    xs.findSome? f = xs.findSome? g := by
  induction xs with
  | nil => rfl
  | cons x xs ih =>
    simp only [List.findSome?_cons, same x List.mem_cons_self]
    rw [ih fun x inside => same x (List.mem_cons_of_mem _ inside)]

omit [DecidableEq α] in
theorem tablesOfFile {files : Files α π β} {h h' : Handle α π β σ} {a : Attachment α π} (onFile : a.path.isSome) :
    tablesOf files h a = tablesOf files h' a := by
  obtain ⟨path, onFile⟩ := Option.isSome_iff_exists.mp onFile
  simp [tablesOf, onFile]

theorem freshResolves (kept : Fresh fresh s) {ref : TableRef α} {table : β}
    (clear : ref.schema = none → s.primary.handle.temp (fold ref.name) ≠ none →
      s.committed s.opened.file (fold ref.name) = none ∧
      ∀ a ∈ s.primary.handle.attached, tablesOf s.committed s.primary.handle a (fold ref.name) = none)
    (found : resolve fold s.opened.file s.committed (freshHandle fresh s.primary.handle.attached) ref = some table) :
    resolve fold s.opened.file s.committed s.primary.handle ref = some table := by
  have alike : ∀ a ∈ s.primary.handle.attached,
      tablesOf s.committed (freshHandle fresh s.primary.handle.attached) a =
        tablesOf s.committed s.primary.handle a :=
    fun a inside => tablesOfFile (kept.onFile a inside)
  obtain ⟨schema, name⟩ := ref
  cases schema with
  | none =>
    have search : (s.primary.handle.attached.findSome? fun a =>
        tablesOf s.committed (freshHandle fresh s.primary.handle.attached) a (fold name)) =
        s.primary.handle.attached.findSome? fun a => tablesOf s.committed s.primary.handle a (fold name) :=
      findSomeSame fun a inside => by rw [alike a inside]
    cases before : s.primary.handle.temp (fold name) with
    | none =>
      simp only [resolve, before, ← search]
      exact found
    | some hidden =>
      obtain ⟨main, others⟩ := clear rfl (by simp [before])
      have nothing := List.findSome?_eq_none_iff.mpr others
      rw [← search] at nothing
      simp only [resolve, freshHandle, main, Option.none_or] at found nothing
      rw [nothing] at found
      contradiction
  | some schema =>
    cases schema with
    | main => exact found
    | temp => simp [resolve, freshHandle] at found
    | named aliasName =>
      simp only [resolve, freshHandle, Option.bind_eq_some_iff] at found ⊢
      obtain ⟨a, first, here⟩ := found
      exact ⟨a, first, by rw [← alike a (List.mem_of_find?_eq_some first)]; exact here⟩

theorem acquiredFresh (kept : Fresh fresh s) {opens : Bool} {h : Handle α π β σ} {pool : List (Handle α π β σ)}
    (lent : acquireRead fold fresh s opens = some (h, pool)) :
    canUseReadHandle s ∧ h = freshHandle fresh s.primary.handle.attached ∧ ∀ h' ∈ pool, h' ∈ s.readPool := by
  simp only [acquireRead] at lent
  split at lent
  · rename_i usable
    refine ⟨usable, ?_⟩
    split at lent
    · rename_i first rest pooled
      cases lent
      exact ⟨kept.pool h (by simp [pooled]), fun h' inside => by simp [pooled, inside]⟩
    · split at lent
      · obtain ⟨first, opened, same⟩ := Option.map_eq_some_iff.mp lent
        cases same
        exact ⟨by rw [openHandleFresh opened, kept.same], nofun⟩
      · contradiction
  · contradiction

theorem runsAsOnPrimary (kept : Fresh fresh s) (q : ReadStatement α β σ ω) (opens : Bool)
    (clear : canUseReadHandle s → Unshadowed fold s q) : runQuery fold fresh s q opens = onPrimary fold s q := by
  unfold runQuery
  cases whole : onPrimary fold s q with
  | none => rfl
  | some rows =>
    cases lent : acquireRead fold fresh s opens with
    | none => rfl
    | some lease =>
      obtain ⟨h, pool⟩ := lease
      obtain ⟨usable, opened, -⟩ := acquiredFresh kept lent
      obtain ⟨plain, names⟩ := clear usable
      have committed : primaryFiles s = s.committed := by
        simp only [canUseReadHandle, Bool.and_eq_true, Bool.not_eq_true'] at usable
        simp [primaryFiles, usable.2]
      subst opened
      dsimp only
      cases prepared : prepare fold s.opened.file s.committed (freshHandle fresh s.primary.handle.attached) q with
      | none => rfl
      | some tables =>
        have found : prepare fold s.opened.file (primaryFiles s) s.primary.handle q = some tables := by
          rw [committed]
          exact mapMSome (fun ref inside _ found => freshResolves kept (names ref inside) found) prepared
        simp only [onPrimary, found, Option.map_some] at whole
        cases whole
        simp [iterate, plain]

omit [DecidableEq α] in
theorem releasedFresh {fresh : Handle α π β σ} {pool : List (Handle α π β σ)} {h : Handle α π β σ}
    (pooled : ∀ h ∈ pool, h = fresh) (given : h = fresh) : ∀ h' ∈ releaseRead pool h, h' = fresh := by
  unfold releaseRead
  split
  · intro h' inside
    cases inside with
    | head => exact given
    | tail _ before => exact pooled h' before
  · exact pooled

theorem filterSpelled {xs : List (Attachment α π)} {aliasName : α}
    (spelled : ∀ b ∈ xs, fold b.aliasName = fold aliasName → b.aliasName = aliasName) :
    (xs.filter fun b => b.aliasName ≠ aliasName) = xs.filter fun b => fold b.aliasName ≠ fold aliasName := by
  refine List.filter_congr fun b inside => ?_
  have same : b.aliasName = aliasName ↔ fold b.aliasName = fold aliasName :=
    ⟨congrArg fold, spelled b inside⟩
  simp [same]

theorem attachFresh (kept : Fresh fresh s) {a : Attachment α π} (onFile : a.path.isSome)
    (unlent : ∀ id, s.cursors id = none) (moved : attach fold s a = some s') : Fresh fresh s' := by
  simp only [attach, attachTo] at moved
  split at moved
  · contradiction
  · rename_i h first
    split at first
    · contradiction
    · rename_i new
      cases first
      cases moved
      have kept' : s.primary.handle.attached.filter (fun b => b.aliasName ≠ a.aliasName) =
          s.primary.handle.attached := by
        refine List.filter_eq_self.mpr fun b inside => ?_
        simp only [List.any_eq_true, decide_eq_true_eq, not_exists, not_and] at new
        exact decide_eq_true fun same => new b inside (congrArg fold same)
      refine ⟨by rw [kept.same, kept'], ?_, nofun, fun id h here => by simp [unlent id] at here⟩
      intro b inside
      rcases List.mem_append.mp inside with before | last
      · exact kept.onFile b before
      · rwa [List.mem_singleton.mp last]

theorem detachFresh (kept : Fresh fresh s) {aliasName : α} (unlent : ∀ id, s.cursors id = none)
    (spelled : ∀ b ∈ s.primary.handle.attached, fold b.aliasName = fold aliasName → b.aliasName = aliasName)
    (moved : detach fold s aliasName = some s') : Fresh fresh s' := by
  simp only [detach] at moved
  split at moved
  · cases moved
    refine ⟨by rw [kept.same, filterSpelled spelled], ?_, nofun, fun id h here => by simp [unlent id] at here⟩
    exact fun b inside => kept.onFile b ((List.mem_filter.mp inside).1)
  · contradiction

variable [DecidableEq ι]

theorem queryFresh (kept : Fresh fresh s) {id : ι} {q : ReadStatement α β σ ω} {opens more : Bool}
    (moved : query fold fresh s id q opens more = some s') : Fresh fresh s' := by
  simp only [query] at moved
  split at moved
  · cases moved
    exact kept
  · split at moved
    · cases moved
      exact kept
    · rename_i h pool lent
      obtain ⟨-, opened, before⟩ := acquiredFresh kept lent
      have pooled : ∀ h' ∈ pool, h' = freshHandle fresh s.primary.handle.attached :=
        fun h' inside => kept.pool h' (before h' inside)
      split at moved
      · split at moved
        · contradiction
        · cases moved
          refine ⟨kept.same, kept.onFile, pooled, fun id' h' here => ?_⟩
          simp only [update_apply] at here
          split at here
          · cases here
            exact opened
          · exact kept.lent id' h' here
      · cases moved
        exact ⟨kept.same, kept.onFile, releasedFresh pooled opened, kept.lent⟩

omit [DecidableEq α] in
theorem closeCursorFresh (kept : Fresh fresh s) (id : ι) : Fresh fresh (closeCursor s id) := by
  unfold closeCursor
  split
  · exact kept
  · rename_i h here
    refine ⟨kept.same, kept.onFile, releasedFresh kept.pool (kept.lent id h here), fun id' h' here => ?_⟩
    simp only [update_apply] at here
    split at here
    · contradiction
    · exact kept.lent id' h' here

theorem stepFresh (kept : Fresh fresh s) {a : WorkerAction α π β σ ω ι} (ordered : InOrder fold s a)
    (moved : step fold fresh s a = some s') : Fresh fresh s' := by
  cases a with
  | query => exact queryFresh kept moved
  | closeCursor id =>
    cases moved
    exact closeCursorFresh kept id
  | execute after committed =>
    cases moved
    have same : after.handle.attached = s.primary.handle.attached := ordered
    refine ⟨?_, ?_, ?_, ?_⟩ <;> simp only [same]
    · exact kept.same
    · exact kept.onFile
    · exact kept.pool
    · exact kept.lent
  | commitElsewhere =>
    cases moved
    exact ⟨kept.same, kept.onFile, kept.pool, kept.lent⟩
  | attach a => exact attachFresh kept ordered.1 ordered.2 moved
  | detach aliasName => exact detachFresh kept ordered.1 ordered.2 moved
  | «begin» =>
    simp only [step] at moved
    split at moved
    · contradiction
    · cases moved
      exact ⟨kept.same, kept.onFile, nofun, kept.lent⟩

theorem readHandlesAgree {p : OpenPayload α π} {files : Files α π β} {start : Worker α π β σ ι}
    {acts : List (WorkerAction α π β σ ω ι)} (onFile : ∀ a ∈ p.attach, a.path.isSome)
    (opened : openWorker fold fresh p files = some start)
    (ordered : Along (InOrder fold) (step fold fresh) start acts)
    (ran : runSteps (step fold fresh) start acts = some s) : Agrees ω fold fresh s := by
  have first : Fresh fresh start := by
    obtain ⟨h, here, rfl⟩ := Option.map_eq_some_iff.mp opened
    rw [openHandleFresh here]
    exact ⟨rfl, onFile, nofun, nofun⟩
  have kept := runKeeps (fun kept ordered moved => stepFresh kept ordered moved) first ordered ran
  refine ⟨fun h inside => ?_, fun q opens clear => runsAsOnPrimary kept q opens clear⟩
  rw [kept.pool h inside]
  rfl

def numbered : Files Bool Nat Nat := fun path _ => some path

def tableOf (schema : Option (Schema Bool)) : ReadStatement Bool Nat Unit (List Nat) :=
  ⟨[⟨schema, true⟩], false, fun tables _ => tables⟩

def startWith (attach : List (Attachment Bool Nat)) : Worker Bool Nat Nat Unit Unit :=
  ⟨⟨0, false, attach⟩, ⟨freshHandle () attach, false, numbered⟩, numbered, [], fun _ => none⟩

def attachAfterCursor : List (WorkerAction Bool Nat Nat Unit (List Nat) Unit) :=
  [.query () (tableOf none) true true, .closeCursor (), .attach ⟨true, some 1⟩,
    .query () (tableOf (some (.named true))) true false]

theorem attachedTableIsRead : ∃ s, runSteps (step id ()) (startWith []) attachAfterCursor = some s ∧
    s.readPool.length = 1 ∧ Agrees (List Nat) id () s := by
  have ordered : Along (InOrder id) (step id ()) (startWith []) attachAfterCursor :=
    ⟨trivial, trivial, ⟨rfl, fun _ => rfl⟩, trivial, trivial⟩
  have opened : openWorker id () (⟨0, false, []⟩ : OpenPayload Bool Nat) numbered = some (startWith []) := rfl
  exact ⟨_, rfl, rfl, readHandlesAgree (by simp) opened ordered rfl⟩

def attachUnderCursor : List (WorkerAction Bool Nat Nat Unit (List Nat) Unit) :=
  [.query () (tableOf none) true true, .detach true, .attach ⟨true, some 2⟩, .closeCursor ()]

def shadowed : List (WorkerAction Bool Nat Nat Unit (List Nat) Unit) :=
  [.execute ⟨{ freshHandle () [] with temp := fun _ => some 9 }, false, numbered⟩ numbered]

theorem staleHandleReadsAnotherFile :
    (∃ s, runSteps (step id ()) (startWith [⟨true, some 1⟩]) attachUnderCursor = some s ∧
      s.readPool.map Handle.attached = [[⟨true, some 1⟩]] ∧ s.primary.handle.attached = [⟨true, some 2⟩] ∧
      runQuery id () s (tableOf (some (.named true))) true = some [1] ∧
      onPrimary id s (tableOf (some (.named true))) = some [2]) ∧
    ∃ s, runSteps (step id ()) (startWith []) shadowed = some s ∧
      runQuery id () s (tableOf none) true = some [0] ∧ onPrimary id s (tableOf none) = some [9] :=
  ⟨⟨_, rfl, rfl, rfl, rfl, rfl⟩, ⟨_, rfl, rfl, rfl⟩⟩

end Agreement
end DatabaseAdmin.ReadHandles
