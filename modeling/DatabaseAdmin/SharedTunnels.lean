import DatabaseAdmin.AccessResolver

/-! A tunnel's count is its unreleased handles, and it is disposed of only at none. -/
namespace DatabaseAdmin.AccessResolver
open StepSystem Function

section Counting
variable {κ : Type} {s s' : ResolverState κ} {entry t : Nat} {e : Entry κ} {spared : Nat → Prop}

def count (s : ResolverState κ) (entry : Nat) : Nat :=
  s.handles.countP fun h => decide (h.entry = entry) && !h.released

def Task.watches : Task κ → Option Nat
  | .acquires _ _ (.checking _ entry) => some entry
  | .disposesIdle entry _ => some entry
  | _ => none

def Attended (s : ResolverState κ) (entry : Nat) : Prop :=
  ∃ t : Nat, s.tasks[t]?.bind Task.watches = some entry

structure SafeBut (s : ResolverState κ) (spared : Nat → Prop) : Prop where
  counted : ∀ (entry : Nat) (e : Entry κ), s.heap[entry]? = some e → e.refs = count s entry
  kept : ∀ (entry : Nat) (e : Entry κ), s.heap[entry]? = some e → e.disposed = true → e.refs = 0
  idle : ∀ (entry : Nat) (e : Entry κ), s.heap[entry]? = some e → ¬ spared entry → e.refs = 0 →
    e.disposed = false → e.disposeTimer = true ∨ Attended s entry
  fresh : ∀ h ∈ s.handles, h.wasDisposed = false
  bounded : ∀ h ∈ s.handles, h.entry < s.heap.length

abbrev Safe (s : ResolverState κ) : Prop := SafeBut s (fun _ => False)

theorem safeSame (safe : SafeBut s spared) (heap : s'.heap = s.heap) (handles : s'.handles = s.handles)
    (attended : ∀ entry, ¬ spared entry → Attended s entry → Attended s' entry) : SafeBut s' spared := by
  have counts : ∀ entry, count s' entry = count s entry := fun entry => by rw [count, handles, count]
  constructor
  · intro entry e found
    rw [counts]
    exact safe.counted entry e (heap ▸ found)
  · intro entry e found
    exact safe.kept entry e (heap ▸ found)
  · intro entry e found apart unheld going
    exact (safe.idle entry e (heap ▸ found) apart unheld going).imp_right (attended entry apart)
  · exact handles ▸ safe.fresh
  · rw [handles, heap]
    exact safe.bounded

theorem safeSpared (safe : Safe s) (spared : Nat → Prop) : SafeBut s spared :=
  ⟨safe.counted, safe.kept, fun entry e found _ => safe.idle entry e found (fun no => no), safe.fresh,
    safe.bounded⟩

theorem safeClosed (safe : SafeBut s (· = entry)) (found : s.heap[entry]? = some e)
    (closed : e.refs = 0 → e.disposed = false → e.disposeTimer = true ∨ Attended s entry) : Safe s := by
  refine ⟨safe.counted, safe.kept, fun other e' found' _ unheld going => ?_, safe.fresh, safe.bounded⟩
  by_cases same : other = entry
  · subst same
    cases found.symm.trans found'
    exact closed unheld going
  · exact safe.idle other e' found' same unheld going

theorem attendedSpawn {task : Task κ} {entry : Nat} (attended : Attended s entry) :
    Attended (spawn s task) entry := by
  obtain ⟨t, watched⟩ := attended
  obtain ⟨was, here, watches⟩ := Option.bind_eq_some_iff.mp watched
  exact ⟨t, Option.bind_eq_some_iff.mpr ⟨was, appendKeeps task here, watches⟩⟩

theorem spawnAttended {task : Task κ} {entry : Nat} (watches : task.watches = some entry) :
    Attended (spawn s task) entry :=
  ⟨s.tasks.length, by simp [spawn, watches]⟩

theorem becomeAttended {was task : Task κ} (here : s.tasks[t]? = some was)
    (watches : task.watches = some entry) : Attended (become s t task) entry :=
  ⟨t, by simp [become, setFinds here, watches]⟩

theorem safeSpawn (safe : SafeBut s spared) (task : Task κ) : SafeBut (spawn s task) spared :=
  safeSame safe rfl rfl fun _ _ attended => attendedSpawn attended

theorem safeBecome (safe : SafeBut s spared) {was : Task κ} (here : s.tasks[t]? = some was)
    (leaves : ∀ entry, was.watches = some entry → spared entry) (task : Task κ) :
    SafeBut (become s t task) spared := by
  refine safeSame safe rfl rfl fun entry apart ⟨u, watched⟩ => ⟨u, ?_⟩
  by_cases same : t = u
  · subst same
    rw [here] at watched
    exact absurd (leaves entry watched) apart
  · simpa [become, setFinds here, same] using watched

theorem modifiedAt (found : s.heap[entry]? = some e) (f : Entry κ → Entry κ) :
    (modifyEntry s entry f).heap[entry]? = some (f e) := by
  simp [modifyEntry, found]

theorem modifiedFinds {f : Entry κ → Entry κ} {other : Nat} {e' : Entry κ}
    (found : s.heap[entry]? = some e) (found' : (modifyEntry s entry f).heap[other]? = some e') :
    other = entry ∧ e' = f e ∨ other ≠ entry ∧ s.heap[other]? = some e' := by
  by_cases same : other = entry
  · subst same
    rw [modifiedAt found] at found'
    exact Or.inl ⟨rfl, (Option.some.inj found').symm⟩
  · refine Or.inr ⟨same, ?_⟩
    simpa [modifyEntry, List.getElem?_modify, Ne.symm same] using found'

theorem safeModify (safe : SafeBut s (· = entry)) (found : s.heap[entry]? = some e)
    (f : Entry κ → Entry κ) (refs : (f e).refs = e.refs) (kept : (f e).disposed = true → e.refs = 0) :
    SafeBut (modifyEntry s entry f) (· = entry) := by
  constructor
  · intro other e' found'
    rcases modifiedFinds found found' with ⟨rfl, rfl⟩ | ⟨-, before⟩
    · exact refs.trans (safe.counted other e found)
    · exact safe.counted other e' before
  · intro other e' found' disposed
    rcases modifiedFinds found found' with ⟨rfl, rfl⟩ | ⟨-, before⟩
    · exact refs.trans (kept disposed)
    · exact safe.kept other e' before disposed
  · intro other e' found' apart
    rcases modifiedFinds found found' with ⟨rfl, rfl⟩ | ⟨-, before⟩
    · exact absurd rfl apart
    · exact safe.idle other e' before apart
  · exact safe.fresh
  · simpa [modifyEntry] using safe.bounded

end Counting

section Handles
variable {κ : Type} {s : ResolverState κ} {entry t : Nat} {e : Entry κ} {was : Task κ}

theorem countHandOut (disposed : Bool) (other : Nat) :
    count (handOut s entry disposed) other = count s other + if entry = other then 1 else 0 := by
  simp [count, handOut, List.countP_append, List.countP_singleton]

theorem handedFinds {disposed : Bool} {other : Nat} {e' : Entry κ} (found : s.heap[entry]? = some e)
    (found' : (handOut s entry disposed).heap[other]? = some e') :
    other = entry ∧ e' = { e with refs := e.refs + 1 } ∨ other ≠ entry ∧ s.heap[other]? = some e' :=
  modifiedFinds (f := fun e => { e with refs := e.refs + 1 }) found found'

theorem safeHandOut (safe : SafeBut s (· = entry)) (found : s.heap[entry]? = some e)
    (going : e.disposed = false) : Safe (handOut s entry false) := by
  constructor
  · intro other e' found'
    rw [countHandOut]
    rcases handedFinds found found' with ⟨rfl, rfl⟩ | ⟨apart, before⟩
    · simp [safe.counted other e found]
    · simpa [Ne.symm apart] using safe.counted other e' before
  · intro other e' found' disposed
    rcases handedFinds found found' with ⟨rfl, rfl⟩ | ⟨-, before⟩
    · simp [going] at disposed
    · exact safe.kept other e' before disposed
  · intro other e' found' _ unheld live
    rcases handedFinds found found' with ⟨rfl, rfl⟩ | ⟨apart, before⟩
    · simp at unheld
    · exact safe.idle other e' before apart unheld live
  · intro h held
    rcases List.mem_append.mp held with before | new
    · exact safe.fresh h before
    · rw [List.mem_singleton.mp new]
  · intro h held
    simp only [handOut, modifyEntry, List.length_modify]
    rcases List.mem_append.mp held with before | new
    · exact safe.bounded h before
    · rw [List.mem_singleton.mp new]
      exact (List.getElem?_eq_some_iff.mp found).1

theorem safeDispose (safe : SafeBut s (· = entry)) (found : s.heap[entry]? = some e)
    (unheld : e.refs = 0) : Safe (dispose s entry) := by
  have refs : (if e.disposed then e else { e with disposed := true, disposeTimer := false }).refs
      = e.refs := by split <;> rfl
  refine safeClosed (safeModify safe found _ refs fun _ => unheld) (modifiedAt found _)
    fun _ going => ?_
  split at going
  · simp_all
  · simp at going

theorem countRelease {h : Handle} {handle : Nat} (here : s.handles[handle]? = some h)
    (unreleased : h.released = false) (other : Nat) :
    count { s with handles := s.handles.set handle { h with released := true } } other
      = count s other - if h.entry = other then 1 else 0 := by
  obtain ⟨inside, at'⟩ := List.getElem?_eq_some_iff.mp here
  simp [count, List.countP_set, inside, at', unreleased]

theorem countHeld {h : Handle} (held : h ∈ s.handles) (unreleased : h.released = false) :
    0 < count s h.entry :=
  List.countP_pos_iff.mpr ⟨h, held, by simp [unreleased]⟩

theorem heldRefs {spared : Nat → Prop} (safe : SafeBut s spared) {h : Handle} (held : h ∈ s.handles)
    (unreleased : h.released = false) (found : s.heap[h.entry]? = some e) :
    0 < e.refs ∧ e.disposed = false := by
  have positive : 0 < e.refs := by
    rw [safe.counted h.entry e found]
    exact countHeld held unreleased
  refine ⟨positive, Bool.eq_false_iff.mpr fun disposed => ?_⟩
  have := safe.kept h.entry e found disposed
  omega

theorem safeRelease (safe : Safe s) {handle : Nat} {s' : ResolverState κ}
    (released : release s handle = some s') : Safe s' := by
  unfold release at released
  split at released
  · rename_i h here
    split at released
    · cases released
      exact safe
    · rename_i unreleased
      cases released
      simp only [Bool.not_eq_true] at unreleased
      have held := List.mem_of_getElem? here
      have found := List.getElem?_eq_getElem (safe.bounded h held)
      obtain ⟨positive, going⟩ := heldRefs safe held unreleased found
      constructor
      · intro other e' found'
        refine Eq.trans ?_ (countRelease here unreleased other).symm
        rcases modifiedFinds found found' with ⟨rfl, rfl⟩ | ⟨apart, before⟩
        · simp only [if_true, ← safe.counted h.entry _ found]
          split <;> rfl
        · rw [if_neg (Ne.symm apart)]
          exact safe.counted other e' before
      · intro other e' found' disposed
        rcases modifiedFinds found found' with ⟨rfl, rfl⟩ | ⟨-, before⟩
        · dsimp only at disposed
          split at disposed <;> simp [going] at disposed
        · exact safe.kept other e' before disposed
      · intro other e' found' _ unheld live
        rcases modifiedFinds found found' with ⟨rfl, rfl⟩ | ⟨-, before⟩
        · refine Or.inl ?_
          dsimp only at unheld ⊢
          split at unheld
          · simp_all
          · rename_i idle
            simp only [if_neg idle]
        · exact safe.idle other e' before (fun no => no) unheld live
      · intro g kept
        rcases List.mem_or_eq_of_mem_set kept with before | rfl
        · exact safe.fresh g before
        · exact safe.fresh h held
      · intro g kept
        simp only [releaseEntry, modifyEntry, List.length_modify]
        rcases List.mem_or_eq_of_mem_set kept with before | rfl
        · exact safe.bounded g before
        · exact safe.bounded h held
  · cases released

end Handles

section Steps
variable {κ : Type} [DecidableEq κ] {s s' : ResolverState κ} {entry t : Nat} {e : Entry κ}
  {was : Task κ} {spared : Nat → Prop}

theorem forgetSame (s : ResolverState κ) (key : κ) (promise : Nat) :
    (forget s key promise).heap = s.heap ∧ (forget s key promise).tasks = s.tasks
      ∧ (forget s key promise).handles = s.handles := by
  unfold forget
  split <;> exact ⟨rfl, rfl, rfl⟩

theorem safeForget (safe : SafeBut s spared) (key : κ) (promise : Nat) :
    SafeBut (forget s key promise) spared := by
  obtain ⟨heap, tasks, handles⟩ := forgetSame s key promise
  refine safeSame safe heap handles fun entry _ attended => ?_
  rwa [Attended, tasks]

theorem attemptSame (s : ResolverState κ) (key : κ) (n : Nat) :
    (attempt s key n).1.heap = s.heap ∧ (attempt s key n).1.tasks = s.tasks
      ∧ (attempt s key n).1.handles = s.handles := by
  unfold attempt
  split
  · split <;> exact ⟨rfl, rfl, rfl⟩
  · exact ⟨rfl, rfl, rfl⟩

theorem safeAttempt (safe : SafeBut s spared) (key : κ) (n : Nat) :
    SafeBut (attempt s key n).1 spared := by
  obtain ⟨heap, tasks, handles⟩ := attemptSame s key n
  refine safeSame safe heap handles fun entry _ attended => ?_
  rwa [Attended, tasks]

theorem safeRetry (safe : SafeBut s spared) (here : s.tasks[t]? = some was)
    (leaves : ∀ entry, was.watches = some entry → spared entry) (key : κ) (n : Nat) :
    SafeBut (retry s t key n) spared := by
  have kept : (attempt s key (n + 1)).1.tasks[t]? = some was := by
    rw [(attemptSame s key (n + 1)).2.1, here]
  exact safeBecome (safeAttempt safe key (n + 1)) kept leaves _

theorem retryHeap (s : ResolverState κ) (t : Nat) (key : κ) (n : Nat) :
    (retry s t key n).heap = s.heap :=
  (attemptSame s key (n + 1)).1

theorem safeDiscard (safe : SafeBut s (· = entry)) (found : s.heap[entry]? = some e)
    (here : s.tasks[t]? = some was) (leaves : ∀ other, was.watches = some other → other = entry)
    {d : Entry κ} (refs : d.refs = e.refs) (key : κ) (n promise : Nat) :
    Safe (discard s t key n promise entry d) := by
  obtain ⟨heap, tasks, -⟩ := forgetSame s key promise
  have forgot := safeForget safe key promise
  rw [← heap] at found
  rw [← tasks] at here
  simp only [discard]
  split
  · rename_i unheld
    have disposed := safeDispose forgot found (refs ▸ unheld)
    have refs' : (if e.disposed then e else { e with disposed := true, disposeTimer := false }).disposed
        = true := by split <;> simp_all
    refine safeClosed (safeBecome (safeSpared disposed _) here leaves _) (modifiedAt found _)
      fun _ going => ?_
    exact absurd (refs'.symm.trans going) (by decide)
  · rename_i held
    refine safeClosed (safeRetry forgot here leaves key n)
      ((congrArg (fun heap => heap[entry]?) (retryHeap _ t key n)).trans found) fun unheld _ => ?_
    exact absurd (refs.trans unheld) held

omit [DecidableEq κ] in
theorem safeCreated (safe : Safe s) (here : s.tasks[t]? = some was)
    (leaves : was.watches = none) (key : κ) (promise : Nat) : Safe (created s t key promise) := by
  let grown : ResolverState κ := { s with
    heap := s.heap ++ [⟨key, 0, false, false⟩],
    promises := s.promises.set promise (.made s.heap.length) }
  have unseen : count s s.heap.length = 0 := by
    refine List.countP_eq_zero.mpr fun h held => ?_
    have := safe.bounded h held
    simp only [Bool.and_eq_true, decide_eq_true_eq, not_and]
    intro same
    omega
  have safeGrown : SafeBut grown (· = s.heap.length) := by
    constructor
    · intro other e' found'
      rcases appendFinds found' with before | ⟨rfl, rfl⟩
      · exact safe.counted other e' before
      · exact unseen.symm
    · intro other e' found' disposed
      rcases appendFinds found' with before | ⟨rfl, rfl⟩
      · exact safe.kept other e' before disposed
      · rfl
    · intro other e' found' apart unheld going
      rcases appendFinds found' with before | ⟨rfl, rfl⟩
      · exact safe.idle other e' before (fun no => no) unheld going
      · exact absurd rfl apart
    · exact safe.fresh
    · intro h held
      simpa [grown] using Nat.lt_succ_of_lt (safe.bounded h held)
  have made : grown.heap[s.heap.length]? = some ⟨key, 0, false, false⟩ := by simp [grown]
  exact safeBecome (safeHandOut safeGrown made rfl) here (fun entry watched => by simp [leaves] at watched) _

omit [DecidableEq κ] in
theorem safePromises (safe : SafeBut s spared) (promises : List Creation) :
    SafeBut { s with promises := promises } spared :=
  safeSame safe rfl rfl fun _ _ attended => attended

omit [DecidableEq κ] in
theorem safeEntries (safe : SafeBut s spared) (entries : κ → Option Nat) :
    SafeBut { s with entries := entries } spared :=
  safeSame safe rfl rfl fun _ _ attended => attended

omit [DecidableEq κ] in
theorem safeCancelled (safe : Safe s) (found : s.heap[entry]? = some e) :
    SafeBut (modifyEntry s entry fun e => { e with disposeTimer := false }) (· = entry) :=
  safeModify (safeSpared safe _) found _ rfl (safe.kept entry e found)

theorem safeResumeAcquire {key : κ} {n : Nat} {ok : Bool} {stage : AcquireStage} (safe : Safe s)
    (here : s.tasks[t]? = some (.acquires key n stage))
    (moved : resumeAcquire s t key n ok stage = some s') : Safe s' := by
  cases stage with
  | creating promise =>
    simp only [resumeAcquire] at moved
    split at moved <;> cases moved
    · exact safeCreated safe here rfl key promise
    · have forgot := safeForget (safePromises safe (s.promises.set promise .failed)) key promise
      have kept := (forgetSame { s with promises := s.promises.set promise .failed } key promise).2.1
      exact safeBecome forgot (kept ▸ here) (fun entry watched => by cases watched) _
  | waiting promise =>
    simp only [resumeAcquire] at moved
    split at moved
    · cases moved
      have kept := (forgetSame s key promise).2.1
      exact safeRetry (safeForget safe key promise) (kept ▸ here) (fun entry watched => by cases watched) key n
    · rename_i entry created
      split at moved
      · rename_i e found
        have cancelled := safeCancelled safe found
        have found' := modifiedAt found fun e => { e with disposeTimer := false }
        split at moved <;> cases moved
        · exact safeDiscard (e := { e with disposeTimer := false }) cancelled found' here
            (fun other watched => by cases watched) rfl key n promise
        · refine safeClosed (safeBecome cancelled here (fun other watched => by cases watched) _) found'
            fun _ _ => Or.inr ?_
          exact becomeAttended here rfl
      · cases moved
    · cases moved
  | checking promise entry =>
    have leaves : ∀ other, (Task.acquires key n (.checking promise entry)).watches = some other →
        other = entry := fun other watched => (Option.some.inj watched).symm
    simp only [resumeAcquire] at moved
    split at moved
    · rename_i e found
      split at moved <;> cases moved
      · rename_i healthy
        simp only [Bool.and_eq_true, Bool.not_eq_true'] at healthy
        rw [healthy.2]
        have handed := safeHandOut (safeSpared safe _) found healthy.2
        refine safeClosed (safeBecome (safeSpared handed _) here leaves _)
          (modifiedAt found fun e => { e with refs := e.refs + 1 }) fun unheld => ?_
        exact absurd unheld (Nat.succ_ne_zero e.refs)
      · exact safeDiscard (safeSpared safe _) found here leaves rfl key n promise
    · cases moved
  | disposing =>
    cases moved
    exact safeRetry safe here (fun entry watched => by cases watched) key n

omit [DecidableEq κ] in
theorem safeTimer (safe : Safe s) (found : s.heap[entry]? = some e) :
    Safe (disposeIfIdle (modifyEntry s entry fun e => { e with disposeTimer := false }) entry e) := by
  have cancelled := safeCancelled safe found
  have found' := modifiedAt found fun e => { e with disposeTimer := false }
  unfold disposeIfIdle
  split
  · rename_i busy
    refine safeClosed cancelled found' fun unheld going => ?_
    simp_all
  · rename_i idle
    simp only [gt_iff_lt, Bool.or_eq_true, decide_eq_true_eq, not_or] at idle
    split
    · refine safeClosed (safeSpawn cancelled _) found' fun _ _ => Or.inr ?_
      exact spawnAttended rfl
    · exact safeDispose cancelled found' (Nat.eq_zero_of_not_pos idle.1)

omit [DecidableEq κ] in
theorem safeEnds {promise : Nat} (safe : Safe s) (found : s.heap[entry]? = some e)
    (here : s.tasks[t]? = some (.disposesIdle entry promise)) :
    Safe (become (if e.refs > 0 then s else dispose s entry) t .done) := by
  have leaves : ∀ other, (Task.disposesIdle entry promise : Task κ).watches = some other → other = entry :=
    fun other watched => (Option.some.inj watched).symm
  split
  · rename_i held
    refine safeClosed (safeBecome (safeSpared safe _) here leaves _) found fun unheld => ?_
    omega
  · rename_i idle
    have unheld := Nat.eq_zero_of_not_pos idle
    have disposed := safeDispose (safeSpared safe _) found unheld
    refine safeClosed (safeBecome (safeSpared disposed _) here leaves _) (modifiedAt found _)
      fun _ going => ?_
    split at going <;> simp_all

theorem safeResumeIdle {promise : Nat} (safe : Safe s) (found : s.heap[entry]? = some e)
    (here : s.tasks[t]? = some (.disposesIdle entry promise))
    (moved : resumeIdle s t entry promise e = some s') : Safe s' := by
  have deleted := safeEntries safe (update s.entries e.key none)
  simp only [resumeIdle] at moved
  split at moved
  · rename_i awaited _
    cases moved
    by_cases same : awaited = entry
    · simp only [if_pos same]
      exact safeEnds deleted found here
    · simp only [if_neg same]
      exact safeEnds safe found here
  · cases moved
    exact safeEnds deleted found here
  · cases moved

theorem safeStep {a : Action κ} (safe : Safe s) (moved : step s a = some s') : Safe s' := by
  cases a with
  | acquire key =>
    cases moved
    exact safeSpawn (safeAttempt safe key 0) _
  | release handle => exact safeRelease safe moved
  | timer entry =>
    simp only [step] at moved
    split at moved
    · rename_i e found
      split at moved <;> cases moved
      exact safeTimer safe found
    · cases moved
  | resume t ok =>
    simp only [step] at moved
    split at moved
    · rename_i here
      exact safeResumeAcquire safe here moved
    · rename_i here
      split at moved
      · rename_i e found
        exact safeResumeIdle safe found here moved
      · cases moved
    · cases moved

omit [DecidableEq κ] in
theorem safeEmpty : Safe (empty κ) := by
  constructor <;> simp [empty]

end Steps

def AcquiresOn {κ : Type} (s : ResolverState κ) (entry : Nat) : Prop :=
  ∃ key n promise, Task.acquires key n (.checking promise entry) ∈ s.tasks

def DisposesIdle {κ : Type} (s : ResolverState κ) (entry : Nat) : Prop :=
  ∃ promise, Task.disposesIdle entry promise ∈ s.tasks

theorem attendedIs {κ : Type} {s : ResolverState κ} {entry : Nat} (attended : Attended s entry) :
    AcquiresOn s entry ∨ DisposesIdle s entry := by
  obtain ⟨t, watched⟩ := attended
  obtain ⟨task, here, watches⟩ := Option.bind_eq_some_iff.mp watched
  have present := List.mem_of_getElem? here
  cases task with
  | acquires key n stage =>
    cases stage with
    | checking promise found =>
      cases Option.some.inj watches
      exact Or.inl ⟨key, n, promise, present⟩
    | _ => cases watches
  | disposesIdle found promise =>
    cases Option.some.inj watches
    exact Or.inr ⟨promise, present⟩
  | done => cases watches

theorem tunnelsCountHandles {κ : Type} [DecidableEq κ] {acts : List (Action κ)} {s : ResolverState κ}
    (ran : runSteps step (empty κ) acts = some s) :
    (∀ h ∈ s.handles, h.wasDisposed = false ∧ (h.released = false →
      ∃ e, s.heap[h.entry]? = some e ∧ e.disposed = false))
    ∧ ∀ (entry : Nat) (e : Entry κ), s.heap[entry]? = some e → e.refs = count s entry
      ∧ (e.refs = 0 → e.disposed = true ∨ e.disposeTimer = true ∨ AcquiresOn s entry
        ∨ DisposesIdle s entry) := by
  have safe : Safe s := everyRunKeeps safeStep safeEmpty ran
  refine ⟨fun h held => ⟨safe.fresh h held, fun unreleased => ?_⟩, fun entry e found =>
    ⟨safe.counted entry e found, fun unheld => ?_⟩⟩
  · have found := List.getElem?_eq_getElem (safe.bounded h held)
    exact ⟨_, found, (heldRefs safe held unreleased found).2⟩
  · cases disposed : e.disposed with
    | true => exact Or.inl rfl
    | false =>
      refine Or.inr ((safe.idle entry e found (fun no => no) unheld disposed).imp_right attendedIs)

def sharedRun : List (Action String) :=
  [.acquire "ssh", .resume 0 true, .release 0, .acquire "ssh", .release 0, .resume 1 true, .resume 1 true]

theorem tunnelsCountHandlesAfterCheck : ∃ s, runSteps step (empty String) sharedRun = some s
    ∧ s.heap = [⟨"ssh", 1, false, false⟩] ∧ s.handles = [⟨0, true, false⟩, ⟨0, false, false⟩]
    ∧ (∀ (entry : Nat) (e : Entry String), s.heap[entry]? = some e → e.refs = count s entry
      ∧ (e.refs = 0 → e.disposed = true ∨ e.disposeTimer = true ∨ AcquiresOn s entry
        ∨ DisposesIdle s entry)) := by
  have run : (runSteps step (empty String) sharedRun).map (fun s => (s.heap, s.handles))
      = some ([⟨"ssh", 1, false, false⟩], [⟨0, true, false⟩, ⟨0, false, false⟩]) := by decide +kernel
  obtain ⟨s, ran, seen⟩ := Option.map_eq_some_iff.mp run
  exact ⟨s, ran, congrArg Prod.fst seen, congrArg Prod.snd seen, (tunnelsCountHandles ran).2⟩

def idleRun : List (Action String) :=
  [.acquire "ssh", .resume 0 true, .acquire "ssh", .resume 1 true, .resume 1 false, .release 0, .timer 0]

theorem idleDisposalAwaits : ¬ ∀ (acts : List (Action String)) (s : ResolverState String),
    runSteps step (empty String) acts = some s →
    ∀ (entry : Nat) (e : Entry String), s.heap[entry]? = some e → (∃ h ∈ s.handles, h.entry = entry) →
      (∀ h ∈ s.handles, h.entry = entry → h.released = true) →
      e.disposed = true ∨ e.disposeTimer = true ∨ AcquiresOn s entry := by
  intro claim
  have run : (runSteps step (empty String) idleRun).map (fun s => (s.heap, s.tasks, s.handles))
      = some ([⟨"ssh", 0, false, false⟩], [.done, .acquires "ssh" 1 (.creating 1), .disposesIdle 0 1],
        [⟨0, true, false⟩]) := by decide +kernel
  obtain ⟨s, ran, seen⟩ := Option.map_eq_some_iff.mp run
  simp only [Prod.mk.injEq] at seen
  obtain ⟨heap, tasks, handles⟩ := seen
  have here := claim idleRun s ran 0 ⟨"ssh", 0, false, false⟩ (by rw [heap]; rfl)
    ⟨⟨0, true, false⟩, by simp [handles], rfl⟩ (by simp [handles])
  simp [AcquiresOn, tasks] at here

end DatabaseAdmin.AccessResolver
