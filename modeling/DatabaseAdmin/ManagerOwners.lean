import DatabaseAdmin.ConnectionManager

/-! Pooled entries stay with the user who opened them. The invariant ties the owner table
to every pooled entry and to every open in flight; only a close that forgets the owner of
a connection somebody has reopened can break it. -/
namespace DatabaseAdmin.ConnectionManager
open StepSystem Function

section Owners
variable {κ υ : Type}

def openerOf (s : ManagerState κ υ) (entry : Nat) : Option υ :=
  s.heap[entry]?.map Entry.opener

def OpenStage.entry : OpenStage → Option Nat
  | .dialing entry | .disposing entry _ | .probing entry | .fulfilled entry => some entry
  | .resolving | .releasing | .rejected => none

def OpenStage.settled : OpenStage → Bool
  | .fulfilled _ | .rejected => true
  | _ => false

def Task.isOpen : Task κ υ → Bool
  | .opens .. => true
  | _ => false

def Task.isPlain : Task κ υ → Bool
  | .opens .. | .awaits .. => false
  | _ => true

def OpenedBy (s : ManagerState κ υ) (user : υ) (stage : OpenStage) : Prop :=
  ∀ entry, stage.entry = some entry → openerOf s entry = some user

structure OwnersHold (s : ManagerState κ υ) : Prop where
  live : ∀ id entry, liveEntry s id = some entry →
    ∃ user, s.owners id = some user ∧ openerOf s entry = some user
  handed : ∀ h ∈ s.handed, openerOf s h.entry = some h.user

structure Owned (s : ManagerState κ υ) : Prop where
  pooled : ∀ id entry, s.entries id = some entry →
    ∃ user, s.owners id = some user ∧ openerOf s entry = some user
  flying : ∀ id promise, s.opening id = some promise → ∃ user stage,
    s.tasks[promise]? = some (Task.opens id user stage) ∧
      (stage = OpenStage.rejected ∨ s.owners id = some user)
  opened : ∀ (t : Nat) id user stage, s.tasks[t]? = some (Task.opens id user stage) → OpenedBy s user stage
  pending : ∀ (t : Nat) id user stage, s.tasks[t]? = some (Task.opens id user stage) → stage.settled = false →
    s.opening id = some t
  awaited : ∀ (t : Nat) id user (promise : Nat) first reconnect,
    s.tasks[t]? = some (Task.awaits id user promise first reconnect) → ∃ opener stage,
      s.tasks[promise]? = some (Task.opens id opener stage) ∧ (stage = OpenStage.rejected ∨ opener = user)
  handed : ∀ h ∈ s.handed, openerOf s h.entry = some h.user

theorem liveIsPooled {s : ManagerState κ υ} {id : κ} {entry : Nat}
    (live : liveEntry s id = some entry) : s.entries id = some entry := by
  unfold liveEntry at live
  split at live
  · contradiction
  · rename_i pooled
    split at live
    · split at live
      · cases live
        exact pooled
      · contradiction
    · contradiction

theorem ownedHold {s : ManagerState κ υ} (owned : Owned s) : OwnersHold s :=
  ⟨fun id entry live => owned.pooled id entry (liveIsPooled live), owned.handed⟩

theorem ownedEmpty : Owned (empty κ υ) := by
  constructor <;> simp [empty]

structure SamePool (s s' : ManagerState κ υ) : Prop where
  opener : ∀ entry, openerOf s' entry = openerOf s entry
  entries : ∀ id entry, s'.entries id = some entry → s.entries id = some entry
  opening : s'.opening = s.opening
  owners : s'.owners = s.owners
  tasks : s'.tasks = s.tasks
  handed : s'.handed = s.handed

theorem SamePool.trans {a b c : ManagerState κ υ} (first : SamePool a b) (second : SamePool b c) :
    SamePool a c :=
  ⟨fun entry => (second.opener entry).trans (first.opener entry),
    fun id entry pooled => first.entries id entry (second.entries id entry pooled),
    second.opening.trans first.opening, second.owners.trans first.owners,
    second.tasks.trans first.tasks, second.handed.trans first.handed⟩

theorem ownedSame {s s' : ManagerState κ υ} (owned : Owned s) (same : SamePool s s') :
    Owned s' := by
  obtain ⟨opener, entries, opening, owners, tasks, handed⟩ := same
  constructor
  · intro id entry pooled
    rw [owners, opener]
    exact owned.pooled id entry (entries id entry pooled)
  · rw [opening, owners, tasks]
    exact owned.flying
  · intro t id user stage task entry here
    rw [opener]
    rw [tasks] at task
    exact owned.opened t id user stage task entry here
  · rw [opening, tasks]
    exact owned.pending
  · rw [tasks]
    exact owned.awaited
  · intro h member
    rw [opener]
    rw [handed] at member
    exact owned.handed h member

theorem modifyOpener (s : ManagerState κ υ) (f : Entry κ υ → Entry κ υ)
    (keeps : ∀ e, (f e).opener = e.opener) (entry : Nat) :
    SamePool s { s with heap := s.heap.modify entry f } := by
  refine ⟨fun other => ?_, fun _ _ pooled => pooled, rfl, rfl, rfl, rfl⟩
  simp only [openerOf, List.getElem?_modify]
  cases s.heap[other]? with
  | none => rfl
  | some e =>
    simp only [Option.map_eq_map, Option.map_some]
    split
    · rw [keeps]
    · rfl

theorem setPhaseSame (s : ManagerState κ υ) (entry : Nat) (phase : Phase) :
    SamePool s (setPhase s entry phase) :=
  modifyOpener s (fun e => { e with phase := phase }) (fun _ => rfl) entry

theorem disposeNextSame (s : ManagerState κ υ) (entry : Nat) (stage : DisposeStage) :
    SamePool s (disposeNext s entry stage).1 := by
  have still : SamePool s s := ⟨fun _ => rfl, fun _ _ pooled => pooled, rfl, rfl, rfl, rfl⟩
  cases stage with
  | connector =>
    unfold disposeNext
    dsimp only
    split
    · split
      · exact still
      · exact modifyOpener s (fun e => { e with released := true }) (fun _ => rfl) entry
    · exact still
  | address => exact still

theorem ownedHand {s : ManagerState κ υ} (owned : Owned s) (id : κ) {user : υ} {entry : Nat}
    (found : openerOf s entry = some user) :
    Owned { s with handed := ⟨id, user, entry⟩ :: s.handed } := by
  refine ⟨owned.pooled, owned.flying, owned.opened, owned.pending, owned.awaited, ?_⟩
  intro h member
  rcases List.mem_cons.mp member with rfl | member
  · exact found
  · exact owned.handed h member

theorem ownedSpawn {s : ManagerState κ υ} (owned : Owned s) {task : Task κ υ}
    (noOpen : task.isOpen = false)
    (awaits : ∀ id user promise first reconnect,
      task = .awaits id user promise first reconnect → ∃ opener stage,
        s.tasks[promise]? = some (Task.opens id opener stage) ∧
          (stage = OpenStage.rejected ∨ opener = user)) : Owned (spawn s task) := by
  refine ⟨owned.pooled, fun id promise flying => ?_, fun t id user stage here => ?_,
    fun t id user stage here open_ => ?_, fun t id user promise first reconnect here => ?_, owned.handed⟩
  · obtain ⟨user, stage, here, same⟩ := owned.flying id promise flying
    exact ⟨user, stage, appendKeeps task here, same⟩
  · rcases appendFinds here with here | ⟨_, here⟩
    · exact owned.opened t id user stage here
    · subst here
      contradiction
  · rcases appendFinds here with here | ⟨_, here⟩
    · exact owned.pending t id user stage here open_
    · subst here
      contradiction
  · rcases appendFinds here with here | ⟨_, here⟩
    · obtain ⟨opener, stage, there, same⟩ := owned.awaited t id user promise first reconnect here
      exact ⟨opener, stage, appendKeeps task there, same⟩
    · obtain ⟨opener, stage, there, same⟩ := awaits id user promise first reconnect here
      exact ⟨opener, stage, appendKeeps task there, same⟩

theorem ownedBecome {s : ManagerState κ υ} (owned : Owned s) {t : Nat} {was task : Task κ υ}
    (here : s.tasks[t]? = some was) (noOpen : was.isOpen = false) (plain : task.isPlain = true) :
    Owned (become s t task) := by
  have old {u : Nat} {id : κ} {user : υ} {stage : OpenStage}
      (there : s.tasks[u]? = some (.opens id user stage)) :
      (s.tasks.set t task)[u]? = some (.opens id user stage) := by
    rw [setFinds here]
    split
    · rename_i same
      rw [← same, here] at there
      cases there
      contradiction
    · exact there
  have new {u : Nat} {other : Task κ υ} (there : (s.tasks.set t task)[u]? = some other) :
      s.tasks[u]? = some other ∨ task = other := by
    rw [setFinds here] at there
    split at there
    · exact Or.inr (Option.some.inj there)
    · exact Or.inl there
  refine ⟨owned.pooled, fun id promise flying => ?_, fun u id user stage there => ?_,
    fun u id user stage there open_ => ?_, fun u id user promise first reconnect there => ?_,
    owned.handed⟩
  · obtain ⟨user, stage, there, same⟩ := owned.flying id promise flying
    exact ⟨user, stage, old there, same⟩
  · rcases new there with there | there
    · exact owned.opened u id user stage there
    · subst there
      contradiction
  · rcases new there with there | there
    · exact owned.pending u id user stage there open_
    · subst there
      contradiction
  · rcases new there with there | there
    · obtain ⟨opener, stage, found, same⟩ := owned.awaited u id user promise first reconnect there
      exact ⟨opener, stage, old found, same⟩
    · subst there
      contradiction

theorem ownedAdvance {s : ManagerState κ υ} (owned : Owned s) {t : Nat} {id : κ} {user : υ}
    {stage next : OpenStage} (here : s.tasks[t]? = some (Task.opens id user stage))
    (open_ : stage.settled = false) (opened : OpenedBy s user next) :
    Owned (become s t (.opens id user next)) := by
  have notRejected : stage ≠ .rejected := by
    rintro rfl
    contradiction
  have flying := owned.pending t id user stage here open_
  have set (u : Nat) : (s.tasks.set t (.opens id user next))[u]? =
      if t = u then some (.opens id user next) else s.tasks[u]? := setFinds here u
  refine ⟨owned.pooled, fun other promise there => ?_, fun u other opener stage' there => ?_,
    fun u other opener stage' there pending => ?_,
    fun u other caller promise first reconnect there => ?_, owned.handed⟩
  · obtain ⟨opener, stage', found, same⟩ := owned.flying other promise there
    by_cases at_ : t = promise
    · subst at_
      rw [here] at found
      cases found
      exact ⟨user, next, by simp only [become, set, if_true],
        Or.inr (same.resolve_left notRejected)⟩
    · exact ⟨opener, stage', by simp only [become, set, if_neg at_, found], same⟩
  · simp only [become, set] at there
    split at there
    · cases there
      exact opened
    · exact owned.opened u other opener stage' there
  · simp only [become, set] at there
    split at there
    · rename_i same
      cases there
      rw [← same]
      exact flying
    · exact owned.pending u other opener stage' there pending
  · simp only [become, set] at there
    split at there
    · cases there
    · obtain ⟨opener, stage', found, same⟩ :=
        owned.awaited u other caller promise first reconnect there
      by_cases at_ : t = promise
      · subst at_
        rw [here] at found
        cases found
        exact ⟨user, next, by simp only [become, set, if_true],
          Or.inr (same.resolve_left notRejected)⟩
      · exact ⟨opener, stage', by simp only [become, set, if_neg at_, found], same⟩

theorem assertOwnedSome [DecidableEq υ] {s : ManagerState κ υ} {id : κ} {user owner : υ}
    (checked : assertOwned s id user = true) (recorded : s.owners id = some owner) : owner = user := by
  simpa [assertOwned, recorded] using checked

variable [DecidableEq κ]

theorem clearReconnectSame (s : ManagerState κ υ) (id : κ) : SamePool s (clearReconnect s id) :=
  ⟨fun _ => rfl, fun _ _ pooled => pooled, rfl, rfl, rfl, rfl⟩

theorem scheduleReconnectSame (s : ManagerState κ υ) (id : κ) :
    SamePool s (scheduleReconnect s id) := by
  unfold scheduleReconnect
  dsimp only
  split
  · exact ⟨fun _ => rfl, fun _ _ pooled => pooled, rfl, rfl, rfl, rfl⟩
  · split <;> exact ⟨fun _ => rfl, fun _ _ pooled => pooled, rfl, rfl, rfl, rfl⟩

theorem disposeEntrySame (s : ManagerState κ υ) (entry : Nat) :
    SamePool s (disposeEntry s entry) := by
  unfold disposeEntry
  split
  · exact ⟨fun _ => rfl, fun _ _ pooled => pooled, rfl, rfl, rfl, rfl⟩
  · split
    · refine ⟨fun _ => rfl, fun id other pooled => ?_, rfl, rfl, rfl, rfl⟩
      simp only [update_apply] at pooled
      split at pooled
      · contradiction
      · exact pooled
    · exact ⟨fun _ => rfl, fun _ _ pooled => pooled, rfl, rfl, rfl, rfl⟩

theorem ownedSettle {s : ManagerState κ υ} (owned : Owned s) (id : κ) {promise : Nat} (first : Bool)
    {other : κ} {user : υ} {stage : OpenStage}
    (here : s.tasks[promise]? = some (Task.opens other user stage)) (settled : stage.settled = true) :
    Owned (settleOpening s id promise first) := by
  unfold settleOpening
  split
  · rename_i last
    simp only [Bool.and_eq_true, decide_eq_true_eq] at last
    refine ⟨owned.pooled, fun id' p flying => ?_, owned.opened, fun t id' user' stage' there open_ => ?_,
      owned.awaited, owned.handed⟩
    · simp only [update_apply] at flying
      split at flying
      · contradiction
      · exact owned.flying id' p flying
    · have flying := owned.pending t id' user' stage' there open_
      simp only [update_apply]
      split
      · rename_i same
        rw [same, last.2] at flying
        cases flying
        rw [here] at there
        cases there
        rw [settled] at open_
        contradiction
      · exact flying
  · exact owned

theorem settleSame (s : ManagerState κ υ) (id : κ) (promise : Nat) (first : Bool) :
    (settleOpening s id promise first).tasks = s.tasks ∧
      (settleOpening s id promise first).heap = s.heap := by
  unfold settleOpening
  split <;> exact ⟨rfl, rfl⟩

theorem ownedForget {s : ManagerState κ υ} (owned : Owned s) {id : κ} (idle : s.entries id = none)
    (quiet : s.opening id = none) : Owned (forgetOwner s id) := by
  refine ⟨fun id' entry pooled => ?_, fun id' promise flying => ?_, owned.opened, owned.pending,
    owned.awaited, owned.handed⟩
  · have different : id' ≠ id := by
      rintro rfl
      rw [forgetOwner, idle] at pooled
      contradiction
    obtain ⟨user, owner, found⟩ := owned.pooled id' entry pooled
    refine ⟨user, ?_, found⟩
    rw [← owner]
    exact update_of_ne different _ _
  · have different : id' ≠ id := by
      rintro rfl
      rw [forgetOwner, quiet] at flying
      contradiction
    simpa only [forgetOwner, update_of_ne different] using owned.flying id' promise flying

theorem ownedBuild {s : ManagerState κ υ} (owned : Owned s) {t : Nat} {id : κ} {user : υ}
    (here : s.tasks[t]? = some (Task.opens id user .resolving)) :
    Owned { s with
      heap := s.heap ++ [⟨id, user, .opening, false⟩],
      entries := update s.entries id (some s.heap.length) } := by
  have old {entry : Nat} {opener : υ} (found : openerOf s entry = some opener) :
      (s.heap ++ [⟨id, user, .opening, false⟩])[entry]?.map Entry.opener = some opener := by
    obtain ⟨e, there, rfl⟩ := Option.map_eq_some_iff.mp found
    rw [appendKeeps _ there, Option.map_some]
  have flying := owned.pending t id user .resolving here rfl
  obtain ⟨user', stage, there, owner⟩ := owned.flying id t flying
  rw [here] at there
  cases there
  have owner := owner.resolve_left (fun same => nomatch same)
  refine ⟨fun id' entry pooled => ?_, owned.flying, fun t id user stage there entry within => ?_,
    owned.pending, owned.awaited, fun h member => old (owned.handed h member)⟩
  · simp only [update_apply] at pooled
    split at pooled
    · rename_i same
      cases pooled
      exact ⟨user, same ▸ owner, by simp [openerOf]⟩
    · obtain ⟨opener, owner, found⟩ := owned.pooled id' entry pooled
      exact ⟨opener, owner, old found⟩
  · exact old (owned.opened t id user stage there entry within)

theorem ownedResumeOpen {s s' : ManagerState κ υ} (owned : Owned s) {t : Nat} {id : κ} {user : υ}
    {stage : OpenStage} {outcome : Outcome} (here : s.tasks[t]? = some (Task.opens id user stage))
    (moved : resumeOpen s t id user outcome stage = some s') : Owned s' := by
  have nothing {next : OpenStage} (none : next.entry = none) : OpenedBy s user next := by
    intro entry within
    rw [none] at within
    contradiction
  have opened := owned.opened t id user stage here
  cases stage with
  | resolving =>
    cases outcome with
    | failed =>
      cases moved
      exact ownedAdvance owned here rfl (nothing rfl)
    | unbuilt =>
      cases moved
      exact ownedAdvance owned here rfl (nothing rfl)
    | ok =>
      cases moved
      refine ownedAdvance (ownedBuild owned here) here rfl ?_
      intro entry within
      cases within
      simp [openerOf]
  | releasing =>
    cases moved
    exact ownedAdvance owned here rfl (nothing rfl)
  | dialing entry =>
    have lost := (setPhaseSame s entry .closing).trans (disposeEntrySame _ entry)
    have live := (setPhaseSame s entry .live).trans (clearReconnectSame _ id)
    cases outcome with
    | ok =>
      cases moved
      exact ownedAdvance (ownedSame owned live) here rfl
        (fun other within => (live.opener other).trans (opened other within))
    | failed =>
      cases moved
      exact ownedAdvance (ownedSame owned lost) (lost.tasks ▸ here) rfl
        (fun other within => (lost.opener other).trans (opened other within))
    | unbuilt =>
      cases moved
      exact ownedAdvance (ownedSame owned lost) (lost.tasks ▸ here) rfl
        (fun other within => (lost.opener other).trans (opened other within))
  | disposing entry stage =>
    have same := disposeNextSame s entry stage
    simp only [resumeOpen] at moved
    split at moved
    · rename_i s1 next disposed
      rw [disposed] at same
      cases moved
      exact ownedAdvance (ownedSame owned same) (same.tasks ▸ here) rfl
        (fun other within => (same.opener other).trans (opened other within))
    · rename_i s1 disposed
      rw [disposed] at same
      cases moved
      exact ownedAdvance (ownedSame owned same) (same.tasks ▸ here) rfl
        (fun other within => nomatch within)
  | probing entry =>
    cases moved
    exact ownedAdvance owned here rfl opened
  | fulfilled entry => contradiction
  | rejected => contradiction

theorem ownedResumeCaller {s s' : ManagerState κ υ} (owned : Owned s) {t promise : Nat} {id : κ}
    {user : υ} {first reconnect : Bool}
    (here : s.tasks[t]? = some (Task.awaits id user promise first reconnect))
    (moved : resumeCaller s t id user promise first reconnect = some s') : Owned s' := by
  obtain ⟨opener, stage, there, same⟩ := owned.awaited t id user promise first reconnect here
  obtain ⟨tasks, heap⟩ := settleSame s id promise first
  have here' : (settleOpening s id promise first).tasks[t]? =
      some (Task.awaits id user promise first reconnect) := tasks ▸ here
  unfold resumeCaller at moved
  rw [there] at moved
  split at moved
  · rename_i entry settled
    cases settled
    cases moved
    have owned' := ownedSettle owned id first there rfl
    obtain rfl := same.resolve_left (fun rejected => nomatch rejected)
    have found := owned.opened promise id opener _ there entry rfl
    have found' : openerOf (settleOpening s id promise first) entry = some opener := by
      rw [openerOf, heap]
      exact found
    exact ownedBecome (ownedHand owned' id found') here' rfl rfl
  · rename_i settled
    cases settled
    cases moved
    have owned' := ownedSettle owned id first there rfl
    split
    · have again := scheduleReconnectSame (settleOpening s id promise first) id
      exact ownedBecome (ownedSame owned' again) (again.tasks ▸ here') rfl rfl
    · exact ownedBecome owned' here' rfl rfl
  · contradiction

def forgets (s : ManagerState κ υ) : Action κ υ → Option κ
  | .resume t _ => match s.tasks[t]? with
    | some (.closes id .sessions) => if s.entries id = none then some id else none
    | some (.closes id (.disposing entry stage)) =>
        if (disposeNext s entry stage).2 = none then some id else none
    | _ => none
  | _ => none

def ForgetsIdle (s : ManagerState κ υ) (a : Action κ υ) : Prop :=
  ∀ id ∈ forgets s a, s.entries id = none ∧ s.opening id = none

instance forgetsIdleDecidable (s : ManagerState κ υ) (a : Action κ υ) : Decidable (ForgetsIdle s a) :=
  inferInstanceAs (Decidable (∀ id ∈ forgets s a, s.entries id = none ∧ s.opening id = none))

theorem ownedResumeClose {s s' : ManagerState κ υ} (owned : Owned s) {t : Nat} {id : κ}
    {stage : CloseStage} {outcome : Outcome} (here : s.tasks[t]? = some (Task.closes id stage))
    (idle : ForgetsIdle s (.resume t outcome)) (moved : resumeClose s t id stage = some s') :
    Owned s' := by
  cases stage with
  | inflight promise =>
    simp only [resumeClose] at moved
    split at moved <;> cases moved
    all_goals exact ownedBecome owned here rfl rfl
  | sessions =>
    simp only [resumeClose] at moved
    split at moved
    · rename_i entry pooled
      cases moved
      have same := (setPhaseSame s entry .closing).trans (disposeEntrySame _ entry)
      exact ownedBecome (ownedSame owned same) (same.tasks ▸ here) rfl rfl
    · rename_i none
      cases moved
      have quiet := idle id (by simp [forgets, here, none])
      exact ownedBecome (ownedForget owned quiet.1 quiet.2) here rfl rfl
  | disposing entry stage =>
    have same := disposeNextSame s entry stage
    simp only [resumeClose] at moved
    split at moved
    · rename_i s1 next disposed
      rw [disposed] at same
      cases moved
      exact ownedBecome (ownedSame owned same) (same.tasks ▸ here) rfl rfl
    · rename_i s1 disposed
      have quiet := idle id (by simp [forgets, here, disposed])
      rw [disposed] at same
      cases moved
      have gone : s1.entries id = none := by
        cases pooled : s1.entries id with
        | none => rfl
        | some other =>
          have before := same.entries id other pooled
          rw [quiet.1] at before
          contradiction
      exact ownedBecome (ownedForget (ownedSame owned same) gone (same.opening ▸ quiet.2))
        (same.tasks ▸ here) rfl rfl

theorem ownedResumeRecover {s s' : ManagerState κ υ} (owned : Owned s) {t entry : Nat}
    {stage : DisposeStage} {outcome : Outcome} (here : s.tasks[t]? = some (Task.recovers entry stage))
    (moved : resumeRecover s t entry outcome stage = some s') : Owned s' := by
  have same := disposeNextSame s entry stage
  unfold resumeRecover at moved
  split at moved
  · rename_i disposed
    rw [disposed] at same
    cases moved
    exact ownedBecome (ownedSame owned same) (same.tasks ▸ here) rfl rfl
  · rename_i e s1 _ disposed
    rw [disposed] at same
    cases moved
    split
    · have again := same.trans (scheduleReconnectSame s1 e.id)
      exact ownedBecome (ownedSame owned again) (again.tasks ▸ here) rfl rfl
    · exact ownedBecome (ownedSame owned same) (same.tasks ▸ here) rfl rfl
  · contradiction

variable [DecidableEq υ]

theorem ownedStart {s : ManagerState κ υ} (owned : Owned s) {id : κ} {user : υ} (unlocked : Bool)
    (checked : assertOwned s id user = true) (none : s.opening id = none) :
    Owned (spawn { (openEntry s id user unlocked).1 with
        opening := update (openEntry s id user unlocked).1.opening id (some s.tasks.length) }
      (.opens id user (openEntry s id user unlocked).2)) := by
  generalize opens : openEntry s id user unlocked = opened
  obtain ⟨s', stage⟩ := opened
  have same : s'.entries = s.entries ∧ s'.opening = s.opening ∧ s'.tasks = s.tasks ∧
      s'.handed = s.handed ∧ s'.heap = s.heap ∧ stage.entry = .none ∧
      (stage = .rejected ∨ s'.owners id = some user) ∧
      (∀ id' owner, s.owners id' = some owner → s'.owners id' = some owner) := by
    unfold openEntry at opens
    split at opens
    · cases opens
      refine ⟨rfl, rfl, rfl, rfl, rfl, by split <;> rfl, Or.inr (update_self _ _ _), ?_⟩
      intro id' owner recorded
      simp only [update_apply]
      split
      · rename_i here
        rw [here] at recorded
        rw [assertOwnedSome checked recorded]
      · exact recorded
    · cases opens
      exact ⟨rfl, rfl, rfl, rfl, rfl, rfl, Or.inl rfl, fun _ _ recorded => recorded⟩
  obtain ⟨entries, opening, tasks, handed, heap, fresh, claimed, owners⟩ := same
  have openers (entry : Nat) : openerOf s' entry = openerOf s entry := by rw [openerOf, heap, openerOf]
  simp only [spawn, tasks, opening]
  refine ⟨fun id' entry pooled => ?_, fun id' promise flying => ?_,
    fun t id' user' stage' here entry within => ?_, fun t id' user' stage' here open_ => ?_,
    fun t id' user' promise first reconnect here => ?_, fun h member => ?_⟩
  · simp only [entries] at pooled
    obtain ⟨owner, recorded, found⟩ := owned.pooled id' entry pooled
    exact ⟨owner, owners id' owner recorded, (openers entry).trans found⟩
  · simp only [update_apply] at flying
    split at flying
    · rename_i same
      cases flying
      exact ⟨user, stage, by simp [same], same ▸ claimed⟩
    · obtain ⟨owner, stage', here, same⟩ := owned.flying id' promise flying
      exact ⟨owner, stage', appendKeeps _ here, same.imp_right (owners id' owner)⟩
  · rcases appendFinds here with here | ⟨_, here⟩
    · exact (openers entry).trans (owned.opened t id' user' stage' here entry within)
    · cases here
      rw [fresh] at within
      contradiction
  · simp only [update_apply]
    rcases appendFinds here with here | ⟨last, here⟩
    · have flying := owned.pending t id' user' stage' here open_
      split
      · rename_i same
        rw [same, none] at flying
        contradiction
      · exact flying
    · cases here
      rw [if_pos rfl, last]
  · rcases appendFinds here with here | ⟨_, here⟩
    · obtain ⟨opener, stage', there, same⟩ := owned.awaited t id' user' promise first reconnect here
      exact ⟨opener, stage', appendKeeps _ there, same⟩
    · cases here
  · simp only [handed] at member
    exact (openers h.entry).trans (owned.handed h member)

theorem ownedEntryFor {s : ManagerState κ υ} (owned : Owned s) (id : κ) (user : υ)
    (unlocked reconnect : Bool) : Owned (entryFor s id user unlocked reconnect) := by
  unfold entryFor
  split
  · rename_i checked
    split
    · rename_i entry live
      obtain ⟨owner, recorded, found⟩ := owned.pooled id entry (liveIsPooled live)
      obtain rfl := assertOwnedSome checked recorded
      exact ownedHand owned id found
    · split
      · rename_i promise flying
        refine ownedSpawn owned rfl ?_
        intro id' user' promise' first reconnect' same
        cases same
        obtain ⟨opener, stage, here, claimed⟩ := owned.flying id promise flying
        exact ⟨opener, stage, here, claimed.imp_right (assertOwnedSome checked)⟩
      · rename_i quiet
        refine ownedSpawn (ownedStart owned unlocked checked quiet) rfl ?_
        intro id' user' promise' first reconnect' same
        cases same
        refine ⟨user, (openEntry s id user unlocked).2, ?_, Or.inr rfl⟩
        have tasks : (openEntry s id user unlocked).1.tasks = s.tasks := by
          unfold openEntry
          split <;> rfl
        simp [spawn, tasks]
  · split
    · exact ownedSame owned (scheduleReconnectSame s id)
    · exact owned

theorem ownedStep {s s' : ManagerState κ υ} {a : Action κ υ} (owned : Owned s)
    (idle : ForgetsIdle s a) (moved : step s a = some s') : Owned s' := by
  cases a with
  | acquire id user unlocked =>
    cases moved
    exact ownedEntryFor owned id user unlocked false
  | close id =>
    cases moved
    unfold close
    dsimp only
    split <;> exact ownedSpawn (ownedSame owned (clearReconnectSame s id))
      rfl (fun _ _ _ _ _ same => by cases same)
  | linkLost entry =>
    simp only [step, onLinkLost] at moved
    split at moved
    · split at moved
      · cases moved
        have same := (setPhaseSame s entry .closing).trans (disposeEntrySame _ entry)
        exact ownedSpawn (ownedSame owned same) rfl (fun _ _ _ _ _ same => by cases same)
      · contradiction
    · contradiction
  | timer id unlocked =>
    simp only [step] at moved
    split at moved
    · rename_i attempt armed
      cases moved
      have fired : SamePool s { s with reconnects := update s.reconnects id (some ⟨attempt, false⟩) } :=
        ⟨fun _ => rfl, fun _ _ pooled => pooled, rfl, rfl, rfl, rfl⟩
      unfold attemptReconnect
      split
      · exact ownedSame owned (fired.trans (clearReconnectSame _ id))
      · rename_i owner recorded
        split
        · exact ownedEntryFor (ownedSame owned fired) id owner unlocked true
        · exact ownedSame owned (fired.trans (clearReconnectSame _ id))
    · contradiction
  | store id owner =>
    cases moved
    exact ⟨owned.pooled, owned.flying, owned.opened, owned.pending, owned.awaited, owned.handed⟩
  | resume t outcome =>
    simp only [step] at moved
    split at moved
    · rename_i here
      exact ownedResumeOpen owned here moved
    · rename_i here
      exact ownedResumeCaller owned here moved
    · rename_i here
      exact ownedResumeClose owned here idle moved
    · rename_i here
      exact ownedResumeRecover owned here moved
    · contradiction

theorem pooledEntriesKeepTheirOwner (acts : List (Action κ υ)) {s : ManagerState κ υ}
    (ran : runSteps step (empty κ υ) acts = some s)
    (idle : Along ForgetsIdle step (empty κ υ) acts) : OwnersHold s :=
  ownedHold (runKeeps ownedStep ownedEmpty idle ran)

end Owners

def reopenedDuringClose : List (Action Nat Nat) :=
  [.store 7 (some 1), .acquire 7 1 true, .resume 0 .ok, .resume 0 .ok, .resume 0 .ok, .resume 1 .ok,
    .close 7, .resume 2 .ok, .acquire 7 1 true, .resume 3 .ok, .resume 3 .ok, .resume 3 .ok,
    .resume 4 .ok, .resume 2 .ok, .resume 2 .ok, .acquire 7 2 true]

theorem reopenedEntryCrossesUsers : ¬ ∀ acts s,
    runSteps step (empty Nat Nat) acts = some s → OwnersHold s := by
  intro all
  obtain ⟨s, ran, crossed, opener⟩ : ∃ s, runSteps step (empty Nat Nat) reopenedDuringClose = some s ∧
      ⟨7, 2, 1⟩ ∈ s.handed ∧ openerOf s 1 = some 1 := ⟨_, rfl, by decide, by decide⟩
  have kept := (all _ _ ran).handed _ crossed
  rw [opener] at kept
  contradiction

def reconnectedThenClosed : List (Action Nat Nat) :=
  [.store 7 (some 1), .acquire 7 1 true, .resume 0 .ok, .acquire 7 1 true, .resume 0 .ok,
    .resume 0 .ok, .resume 1 .ok, .resume 2 .ok, .linkLost 0, .resume 3 .ok, .resume 3 .ok,
    .timer 7 true, .acquire 7 2 true, .resume 4 .ok, .resume 4 .ok, .resume 4 .ok, .resume 5 .ok,
    .close 7, .resume 6 .ok, .resume 6 .ok, .resume 6 .ok]

theorem pooledEntriesKeepTheirOwnerAcrossReconnect : ∃ s,
    runSteps step (empty Nat Nat) reconnectedThenClosed = some s ∧ s.handed.length = 3 ∧ OwnersHold s :=
  ⟨_, rfl, by decide, pooledEntriesKeepTheirOwner reconnectedThenClosed rfl (by decide)⟩

end DatabaseAdmin.ConnectionManager
