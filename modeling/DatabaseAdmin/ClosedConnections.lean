import DatabaseAdmin.ConnectionLife

/-! A connection whose close has returned stays closed until the next acquire, as long as
nothing reconnects it from behind the close and no open starts while a close waits. -/
namespace DatabaseAdmin.ConnectionManager
open StepSystem Function

section Views
variable {κ υ : Type}

def Task.flight : Task κ υ → Option (κ × OpenStage)
  | .opens id _ stage => some (id, stage)
  | _ => none

def Task.close' : Task κ υ → Option (κ × CloseStage)
  | .closes id stage => some (id, stage)
  | _ => none

def life (s : ManagerState κ υ) (states : States κ) (closed : κ → Bool) : Life κ where
  opens t := s.tasks[t]?.bind Task.flight
  closes t := s.tasks[t]?.bind Task.close'
  heap e := s.heap[e]?.map fun e => (e.id, e.phase)
  entries := s.entries
  opening := s.opening
  reconnects := s.reconnects
  states := states
  closed := closed

variable {s s' : ManagerState κ υ} {states : States κ} {closed : κ → Bool} {t : Nat}

theorem opensAt {id : κ} {user : υ} {stage : OpenStage} (here : s.tasks[t]? = some (.opens id user stage)) :
    (life s states closed).opens t = some (id, stage) := by simp [life, here, Task.flight]

theorem closesAt {id : κ} {stage : CloseStage} (here : s.tasks[t]? = some (.closes id stage)) :
    (life s states closed).closes t = some (id, stage) := by simp [life, here, Task.close']

theorem spawnedAt {β : Type} (s : ManagerState κ υ) (task : Task κ υ) (f : Task κ υ → Option β) :
    (fun t => (s.tasks ++ [task])[t]?.bind f) =
      update (fun t => s.tasks[t]?.bind f) s.tasks.length (f task) := by
  funext t
  rw [update_apply, List.getElem?_append]
  split
  · rename_i inside
    rw [if_neg (Nat.ne_of_lt inside)]
  · rename_i outside
    cases past : t - s.tasks.length with
    | zero => rw [if_pos (by omega)]; rfl
    | succ n =>
      rw [if_neg (by omega), List.getElem?_eq_none (Nat.le_of_not_lt outside)]
      simp

theorem becameAt {β : Type} {was : Task κ υ} (here : s.tasks[t]? = some was) (task : Task κ υ)
    (f : Task κ υ → Option β) : (fun u => (s.tasks.set t task)[u]?.bind f) =
      update (fun u => s.tasks[u]?.bind f) t (f task) := by
  funext u
  rw [update_apply, StepSystem.setFinds here]
  by_cases same : u = t
  · subst same
    simp
  · simp [same, Ne.symm same]

theorem keepsAt {β : Type} {was : Task κ υ} (here : s.tasks[t]? = some was) (f : Task κ υ → Option β) :
    update (fun u => s.tasks[u]?.bind f) t (f was) = fun u => s.tasks[u]?.bind f := by
  funext u
  rw [update_apply]
  split
  · rename_i same
    simp [same, here]
  · rfl

theorem appendedAt {α β : Type} (l : List α) (x : α) (f : α → β) :
    (fun e => (l ++ [x])[e]?.map f) = update (fun e => l[e]?.map f) l.length (some (f x)) := by
  funext e
  rw [update_apply, List.getElem?_append]
  split
  · rename_i inside
    rw [if_neg (Nat.ne_of_lt inside)]
  · rename_i outside
    cases past : e - l.length with
    | zero => rw [if_pos (by omega)]; rfl
    | succ n =>
      rw [if_neg (by omega), List.getElem?_eq_none (Nat.le_of_not_lt outside)]
      simp

theorem lifeSpawn (task : Task κ υ) : life (spawn s task) states closed =
    { life s states closed with
      opens := update (life s states closed).opens s.tasks.length task.flight,
      closes := update (life s states closed).closes s.tasks.length task.close' } := by
  simp only [life, spawn, spawnedAt]

theorem freshAt {β : Type} (s : ManagerState κ υ) (f : Task κ υ → Option β) :
    update (fun t => s.tasks[t]?.bind f) s.tasks.length none = fun t => s.tasks[t]?.bind f := by
  funext t
  rw [update_apply]
  split
  · rename_i same
    simp [same]
  · rfl

theorem lifeBeside {task : Task κ υ} (flight : task.flight = none) (close : task.close' = none) :
    life (spawn s task) states closed = life s states closed := by
  rw [lifeSpawn, flight, close]
  simp only [life, freshAt]

theorem lifeSpawnClose (id : κ) (stage : CloseStage) : life (spawn s (.closes id stage)) states closed =
    { life s states closed with
      closes := update (life s states closed).closes s.tasks.length (some (id, stage)) } := by
  have opens := freshAt s Task.flight
  rw [lifeSpawn]
  simp only [life, Life.mk.injEq, and_true]
  exact ⟨opens, rfl⟩

theorem lifeBecome {was : Task κ υ} (here : s.tasks[t]? = some was) (task : Task κ υ) :
    life (become s t task) states closed =
      { life s states closed with
        opens := update (life s states closed).opens t task.flight,
        closes := update (life s states closed).closes t task.close' } := by
  simp only [life, become, becameAt here]

theorem lifeAside {was : Task κ υ} (here : s.tasks[t]? = some was) (task : Task κ υ)
    (opens : was.flight = task.flight) (closes : was.close' = task.close') :
    life (become s t task) states closed = life s states closed := by
  rw [lifeBecome here, ← opens, ← closes]
  simp only [life, keepsAt here]

theorem lifeOpen {id : κ} {user : υ} {stage next : OpenStage}
    (here : s.tasks[t]? = some (.opens id user stage)) :
    life (become s t (.opens id user next)) states closed =
      { life s states closed with opens := update (life s states closed).opens t (some (id, next)) } := by
  have closes := keepsAt here Task.close'
  rw [lifeBecome here]
  simp only [life, Life.mk.injEq, and_true]
  exact ⟨rfl, closes⟩

theorem lifeClose {id : κ} {stage : CloseStage} {task : Task κ υ}
    (here : s.tasks[t]? = some (.closes id stage)) (flight : task.flight = none) :
    life (become s t task) states closed =
      { life s states closed with closes := update (life s states closed).closes t task.close' } := by
  have opens := keepsAt here Task.flight
  rw [lifeBecome here, flight]
  simp only [life, Life.mk.injEq, and_true]
  exact opens

theorem lifePhase {entry : Nat} {e : Entry κ υ} (found : s.heap[entry]? = some e) (phase : Phase) :
    life (setPhase s entry phase) states closed =
      { life s states closed with heap := update (life s states closed).heap entry (some (e.id, phase)) } := by
  simp only [life, setPhase, Life.mk.injEq, and_true, true_and]
  funext other
  simp only [List.getElem?_modify, update_apply]
  by_cases same : other = entry
  · subst same
    simp [found]
  · simp [same, Ne.symm same]

theorem lifeRelease (s : ManagerState κ υ) (entry : Nat) (stage : DisposeStage) :
    life (disposeNext s entry stage).1 states closed = life s states closed := by
  cases stage with
  | address => rfl
  | connector =>
    unfold disposeNext
    dsimp only
    split
    · split
      · rfl
      · simp only [life, Life.mk.injEq, and_true, true_and]
        funext other
        simp only [List.getElem?_modify]
        cases s.heap[other]? with
        | none => rfl
        | some e =>
          simp only [Option.map_eq_map, Option.map_some]
          split <;> rfl
    · rfl

end Views

section Conditions
variable {κ υ : Type} [DecidableEq κ] [DecidableEq υ]

def closing (s : ManagerState κ υ) (id : κ) : Bool :=
  s.tasks.any fun task => match task.close' with
    | some (other, _) => decide (other = id)
    | none => false

def shut (r : Reported κ υ) (id : κ) : Bool := closing r.manager id || r.closed id

def startsOpen (s : ManagerState κ υ) (id : κ) (user : υ) : Bool :=
  assertOwned s id user && (liveEntry s id).isNone && (s.opening id).isNone

def reconnects (r : Reported κ υ) : Happening κ υ → Option κ
  | .manager (.resume t outcome) => match r.manager.tasks[t]? with
    | some (.awaits id _ promise _ true) => match r.manager.tasks[promise]? with
      | some (.opens _ _ .rejected) => some id
      | _ => none
    | some (.recovers entry stage) => match r.manager.heap[entry]? with
      | some e =>
          if (disposeNext r.manager entry stage).2 = none ∧ outcome = .ok then some e.id else none
      | none => none
    | _ => none
  | _ => none

def reopens (r : Reported κ υ) : Happening κ υ → Option κ
  | .manager (.acquire id user _) => if startsOpen r.manager id user then some id else none
  | _ => none

def restates (r : Reported κ υ) : Happening κ υ → Option κ
  | .stateEvent _ entry _ => r.manager.heap[entry]?.map Entry.id
  | _ => none

-- No reconnect once a close has begun, no open while one is under way, no state event after it.
def LeavesClosed (r : Reported κ υ) (h : Happening κ υ) : Prop :=
  (∀ id ∈ reconnects r h, shut r id = false) ∧ (∀ id ∈ reopens r h, closing r.manager id = false) ∧
    ∀ id ∈ restates r h, r.closed id = false

instance (r : Reported κ υ) (h : Happening κ υ) : Decidable (LeavesClosed r h) :=
  inferInstanceAs (Decidable (_ ∧ _ ∧ _))

omit [DecidableEq υ] in
theorem closingIff {s : ManagerState κ υ} {id : κ} : closing s id = true ↔
    ∃ (t : Nat) (stage : CloseStage), s.tasks[t]?.bind Task.close' = some (id, stage) := by
  simp only [closing, List.any_eq_true]
  constructor
  · intro ⟨task, member, matches'⟩
    obtain ⟨t, found⟩ := List.getElem?_of_mem member
    cases closes : task.close' with
    | none => simp [closes] at matches'
    | some pair =>
      obtain ⟨other, stage⟩ := pair
      simp only [closes, decide_eq_true_eq] at matches'
      exact ⟨t, stage, by simp [found, closes, matches']⟩
  · intro ⟨t, stage, found⟩
    obtain ⟨task, here, closes⟩ := Option.bind_eq_some_iff.mp found
    exact ⟨task, List.mem_of_getElem? here, by simp [closes]⟩

omit [DecidableEq υ] in
theorem shutIff (r : Reported κ υ) (id : κ) :
    (life r.manager r.states r.closed).Shut id ↔ shut r id = true := by
  rw [shut, Bool.or_eq_true, closingIff]
  rfl

end Conditions

section Steps
variable {κ υ : Type} [DecidableEq κ] {s s' : ManagerState κ υ} {states : States κ} {closed : κ → Bool}
  {t : Nat} {id : κ}

theorem lifeDispose {entry : Nat} {e : Entry κ υ} (found : s.heap[entry]? = some e)
    (pooled : s.entries e.id = some entry) (phase : Phase) :
    life (disposeEntry (setPhase s entry phase) entry) states closed =
      { life s states closed with
        heap := update (life s states closed).heap entry (some (e.id, phase)),
        entries := update s.entries e.id none } := by
  have phased : (setPhase s entry phase).heap[entry]? = some { e with phase := phase } := by
    simp [setPhase, found]
  have step : disposeEntry (setPhase s entry phase) entry =
      { setPhase s entry phase with entries := update s.entries e.id none } := by
    unfold disposeEntry
    rw [phased]
    exact if_pos pooled
  rw [step]
  have phased' := @lifePhase κ υ s states closed entry e found phase
  exact congrArg (fun l : Life κ => { l with entries := update s.entries e.id none }) phased'

theorem keptReconnect (kept : (life s states closed).Kept) (open' : ¬ (life s states closed).Shut id) :
    (life (scheduleReconnect s id) (scheduleReconnectReports s id states) closed).Kept := by
  unfold scheduleReconnect scheduleReconnectReports
  dsimp only
  split
  · exact kept
  · split
    · exact Life.keptSchedule kept open' none .error
    · exact Life.keptSchedule kept open' _ .reconnecting

theorem keptSame {states : States κ} (kept : (life s (update states id (states id)) closed).Kept) :
    (life s states closed).Kept := by
  rwa [update_eq_self] at kept

end Steps

section Opening
variable {κ υ : Type} [DecidableEq κ] [DecidableEq υ] {s s' : ManagerState κ υ} {states : States κ}
  {closed : κ → Bool} {t : Nat} {id : κ} {user : υ}

theorem openEntryState (s : ManagerState κ υ) (id : κ) (user : υ) (unlocked : Bool) (states : States κ) :
    openEntryReports s id user unlocked states =
      update states id (openEntryReports s id user unlocked states id) := by
  unfold openEntryReports setState
  split
  · split
    · simp
    · simp
  · simp

theorem openEntryOwners (s : ManagerState κ υ) (id : κ) (user : υ) (unlocked : Bool) :
    ∃ owners, (openEntry s id user unlocked).1 = { s with owners := owners } := by
  unfold openEntry
  split
  · exact ⟨_, rfl⟩
  · exact ⟨s.owners, rfl⟩

theorem keptEntryFor (kept : (life s states closed).Kept) (unlocked reconnect : Bool)
    (free : startsOpen s id user = true → closing s id = false ∧ closed id = false)
    (open' : reconnect = true → ¬ (life s states closed).Shut id) :
    (life (entryFor s id user unlocked reconnect)
      (entryForReports s id user unlocked reconnect states) closed).Kept := by
  unfold entryFor entryForReports
  split
  · rename_i owned
    cases live : liveEntry s id with
    | some entry => exact kept
    | none =>
      dsimp only
      cases opening : s.opening id with
      | some promise =>
        dsimp only
        rw [lifeBeside rfl rfl]
        exact kept
      | none =>
        dsimp only
        obtain ⟨unclosing, unclosed⟩ := free (by simp [startsOpen, owned, live, opening])
        have fresh : (life s states closed).opens s.tasks.length = none := by simp [life]
        have dead : ∀ e, (life s states closed).entries id = some e →
            (life s states closed).heap e ≠ some (id, .live) := by
          intro e pooled found
          obtain ⟨en, here, pair⟩ := Option.map_eq_some_iff.mp found
          have phase : en.phase = .live := (Prod.mk.inj pair).2
          have pooled' : s.entries id = some e := pooled
          simp [liveEntry, pooled', here, phase] at live
        have closes : ∀ u stage, (life s states closed).closes u ≠ some (id, stage) := by
          intro u stage found
          rw [closingIff.mpr ⟨u, stage, found⟩] at unclosing
          contradiction
        have first : ∀ e, (openEntry s id user unlocked).2 ≠ .dialing e := by
          intro e
          unfold openEntry
          split
          · dsimp only
            split <;> simp
          · simp
        have started := Life.keptStart kept fresh opening dead unclosed closes first
          (openEntryReports s id user unlocked states id)
        obtain ⟨owners, opened⟩ := openEntryOwners s id user unlocked
        rw [lifeBeside rfl rfl, opened, openEntryState, lifeSpawn]
        have same := freshAt s Task.close'
        simp only [Life.startOpen, life] at started ⊢
        rw [show (Task.opens id user (openEntry s id user unlocked).2).close' = none from rfl, same]
        exact started
  · split
    · rename_i again
      exact keptReconnect kept (open' again)
    · exact kept

end Opening

section Resuming
variable {κ υ : Type} [DecidableEq κ] {s s' : ManagerState κ υ} {states : States κ}
  {closed : κ → Bool} {t : Nat} {id : κ} {user : υ}

theorem keptAdvanced (kept : (life s states closed).Kept) {stage next : OpenStage}
    (here : s.tasks[t]? = some (.opens id user stage)) (flying : stage.settled = false)
    (undialed : ∀ e, stage ≠ .dialing e) (past : ∀ e, next ≠ .dialing e) (resolved : next ≠ .resolving)
    (state : ConnectionState) :
    (life (become s t (.opens id user next)) (update states id state) closed).Kept := by
  have advanced := Life.keptAdvance kept (opensAt here) flying undialed past resolved state
  rw [lifeOpen here]
  exact advanced

theorem keptAdvancedSame (kept : (life s states closed).Kept) {stage next : OpenStage}
    (here : s.tasks[t]? = some (.opens id user stage)) (flying : stage.settled = false)
    (undialed : ∀ e, stage ≠ .dialing e) (past : ∀ e, next ≠ .dialing e) (resolved : next ≠ .resolving) :
    (life (become s t (.opens id user next)) states closed).Kept :=
  keptSame (keptAdvanced kept here flying undialed past resolved (states id))

theorem disposedTasks (s : ManagerState κ υ) (entry : Nat) (phase : Phase) :
    (disposeEntry (setPhase s entry phase) entry).tasks = s.tasks :=
  ((setPhaseSame s entry phase).trans (disposeEntrySame _ entry)).tasks

omit [DecidableEq κ] in
theorem heldEntry {e : Nat} {phase : Phase} (found : (life s states closed).heap e = some (id, phase)) :
    ∃ en : Entry κ υ, s.heap[e]? = some en ∧ en.id = id ∧ en.phase = phase := by
  obtain ⟨en, here, pair⟩ := Option.map_eq_some_iff.mp found
  exact ⟨en, here, (Prod.mk.inj pair).1, (Prod.mk.inj pair).2⟩

theorem keptResumeOpen (kept : (life s states closed).Kept) {stage : OpenStage} {outcome : Outcome}
    (here : s.tasks[t]? = some (.opens id user stage))
    (moved : resumeOpen s t id user outcome stage = some s') :
    (life s' (resumeOpenReports s id outcome states stage) closed).Kept := by
  cases stage with
  | resolving =>
    cases outcome with
    | failed =>
      cases moved
      exact keptAdvanced kept here rfl (by simp) (by simp) (by simp) .error
    | unbuilt =>
      cases moved
      exact keptAdvancedSame kept here rfl (by simp) (by simp) (by simp)
    | ok =>
      cases moved
      have fresh : (life s states closed).heap s.heap.length = none := by simp [life]
      have built := Life.keptBuild kept (opensAt here) fresh
      have same := appendedAt s.heap ⟨id, user, .opening, false⟩ (fun e : Entry κ υ => (e.id, e.phase))
      have here' : (ManagerState.tasks { s with
          heap := s.heap ++ [⟨id, user, .opening, false⟩],
          entries := update s.entries id (some s.heap.length) })[t]? =
          some (.opens id user .resolving) := here
      show (life (become _ t _) states closed).Kept
      rw [lifeOpen here']
      simp only [Life.build, life] at built ⊢
      rw [same]
      exact built
  | releasing =>
    cases moved
    exact keptAdvanced kept here rfl (by simp) (by simp) (by simp) .error
  | dialing entry =>
    obtain ⟨pooled, opening⟩ := kept.dialing t id entry (opensAt here)
    obtain ⟨e, found, rfl, phase⟩ := heldEntry opening
    cases outcome with
    | ok =>
      cases moved
      have dialed := Life.keptDialed kept (opensAt here)
      have phased := @lifePhase κ υ s (update states e.id .connected) closed entry e found .live
      have cleared : life (clearReconnect (setPhase s entry .live) e.id) (update states e.id .connected) closed =
          { life (setPhase s entry .live) (update states e.id .connected) closed with
            reconnects := update s.reconnects e.id none } := rfl
      have here' : (clearReconnect (setPhase s entry .live) e.id).tasks[t]? =
          some (.opens e.id user (.dialing entry)) := here
      show (life _ (update states e.id .connected) closed).Kept
      rw [lifeOpen here', cleared, phased]
      exact dialed
    | failed | unbuilt =>
      cases moved
      have undialed := Life.keptUndialed kept (opensAt here)
      have here' : (disposeEntry (setPhase s entry .closing) entry).tasks[t]? =
          some (.opens e.id user (.dialing entry)) := (disposedTasks s entry .closing) ▸ here
      simp only [resumeOpenReports]
      rw [lifeOpen here', lifeDispose found pooled]
      exact undialed
  | disposing entry stage =>
    have same := disposeNextSame s entry stage
    have view := @lifeRelease κ υ states closed s entry stage
    simp only [resumeOpen] at moved
    split at moved
    · rename_i s1 next disposed
      have reports : resumeOpenReports s id outcome states (.disposing entry stage) = states := by
        simp only [resumeOpenReports, disposed]
      rw [disposed] at same view
      rw [reports]
      cases moved
      exact keptAdvancedSame (view ▸ kept) (same.tasks ▸ here) rfl (by simp) (by simp) (by simp)
    · rename_i s1 disposed
      have reports : resumeOpenReports s id outcome states (.disposing entry stage) =
          setState states id .error := by
        simp only [resumeOpenReports, disposed]
      rw [disposed] at same view
      rw [reports]
      cases moved
      exact keptAdvanced (view ▸ kept) (same.tasks ▸ here) rfl (by simp) (by simp) (by simp) .error
  | probing entry =>
    cases moved
    simp only [resumeOpenReports]
    split
    · exact keptAdvanced kept here rfl (by simp) (by simp) (by simp) .connected
    · exact keptAdvancedSame kept here rfl (by simp) (by simp) (by simp)
  | fulfilled entry => contradiction
  | rejected => contradiction

theorem keptSettled (kept : (life s states closed).Kept) {promise : Nat} (first : Bool) {other : κ}
    {opener : υ} {stage : OpenStage} (there : s.tasks[promise]? = some (.opens other opener stage))
    (settled : stage.settled = true) : (life (settleOpening s id promise first) states closed).Kept := by
  unfold settleOpening
  split
  · rename_i last
    simp only [Bool.and_eq_true, decide_eq_true_eq] at last
    exact Life.keptSettle kept last.2 (opensAt there) settled
  · exact kept

theorem keptResumeCaller (kept : (life s states closed).Kept) {promise : Nat} {first reconnect : Bool}
    (here : s.tasks[t]? = some (.awaits id user promise first reconnect))
    (open' : reconnect = true → (∃ other opener, s.tasks[promise]? = some (.opens other opener .rejected)) →
      ¬ (life s states closed).Shut id)
    (moved : resumeCaller s t id user promise first reconnect = some s') :
    (life s' (resumeCallerReports s id promise first reconnect states) closed).Kept := by
  obtain ⟨tasks, heap⟩ := settleSame s id promise first
  have here' : (settleOpening s id promise first).tasks[t]? =
      some (Task.awaits id user promise first reconnect) := tasks ▸ here
  unfold resumeCaller at moved
  unfold resumeCallerReports
  split at moved
  · rename_i other opener entry there
    cases moved
    rw [there]
    have kept' := @keptSettled _ _ _ _ _ _ id kept promise first _ _ _ there rfl
    have aside := @lifeAside κ υ (settleOpening s id promise first) states closed t _ here' .done rfl rfl
    exact aside ▸ kept'
  · rename_i other opener there
    cases moved
    rw [there]
    have kept' := @keptSettled _ _ _ _ _ _ id kept promise first _ _ _ there rfl
    have shut' : (life (settleOpening s id promise first) states closed).Shut id →
        (life s states closed).Shut id := by
      intro shut
      unfold Life.Shut life at shut ⊢
      rw [tasks] at shut
      exact shut
    cases reconnect with
    | true =>
      have again := keptReconnect kept' (fun shut => open' rfl ⟨other, opener, there⟩ (shut' shut))
      have here'' : (scheduleReconnect (settleOpening s id promise first) id).tasks[t]? =
          some (Task.awaits id user promise first true) :=
        (scheduleReconnectSame (settleOpening s id promise first) id).tasks ▸ here'
      dsimp only
      rw [if_pos rfl, if_pos rfl, lifeAside here'' .done rfl rfl]
      exact again
    | false =>
      dsimp only
      rw [if_neg (by simp), if_neg (by simp), lifeAside here' .done rfl rfl]
      exact kept'
  · contradiction

theorem keptResumeRecover (kept : (life s states closed).Kept) {entry : Nat} {stage : DisposeStage}
    {outcome : Outcome} (here : s.tasks[t]? = some (.recovers entry stage))
    (open' : ∀ e, s.heap[entry]? = some e → (disposeNext s entry stage).2 = none → outcome = .ok →
      ¬ (life s states closed).Shut e.id)
    (moved : resumeRecover s t entry outcome stage = some s') :
    (life s' (resumeRecoverReports s entry outcome stage states) closed).Kept := by
  have same := disposeNextSame s entry stage
  have view : ∀ states, life (disposeNext s entry stage).1 states closed = life s states closed :=
    fun states => lifeRelease s entry stage
  unfold resumeRecover at moved
  unfold resumeRecoverReports
  split at moved
  · rename_i e s1 next found disposed
    rw [found, disposed]
    rw [disposed] at same view
    have here' : s1.tasks[t]? = some (Task.recovers entry stage) := same.tasks ▸ here
    cases moved
    dsimp only
    rw [@lifeAside κ υ s1 states closed t _ here' (.recovers entry next) rfl rfl, view]
    exact kept
  · rename_i e s1 found disposed
    rw [found, disposed]
    rw [disposed] at same view
    have here' : s1.tasks[t]? = some (Task.recovers entry stage) := same.tasks ▸ here
    cases moved
    dsimp only
    split
    · rename_i ok
      have stays : ¬ (life s1 states closed).Shut e.id := by
        rw [view]
        exact open' e found (by rw [disposed]) ok
      have again := keptReconnect ((view states).symm ▸ kept) stays
      have here'' : (scheduleReconnect s1 e.id).tasks[t]? = some (Task.recovers entry stage) :=
        (scheduleReconnectSame s1 e.id).tasks ▸ here'
      rw [@lifeAside κ υ _ _ closed t _ here'' .done rfl rfl]
      exact again
    · rw [@lifeAside κ υ s1 _ closed t _ here' .done rfl rfl, view]
      exact Life.keptRestate kept (fun _ => rfl)
  · contradiction

theorem keptResumeClose (kept : (life s states closed).Kept) {stage : CloseStage}
    (here : s.tasks[t]? = some (.closes id stage)) (moved : resumeClose s t id stage = some s') :
    (life s' (if closeReturns s id stage then setState states id .closed else states)
      (if closeReturns s id stage then update closed id true else closed)).Kept := by
  have closes := @closesAt κ υ s states closed t id stage here
  cases stage with
  | inflight promise =>
    have landed : ∀ other user stage, s.tasks[promise]? = some (.opens other user stage) →
        stage.settled = true → (life s states closed).Landed id := by
      intro other user stage there settled u stage' found
      by_contra flying
      have same := kept.waiting t id promise closes u stage' found (by simpa using flying)
      subst same
      cases (opensAt there).symm.trans found
      exact flying settled
    have next : ∀ other user stage, s.tasks[promise]? = some (.opens other user stage) →
        stage.settled = true → (life (become s t (.closes id .sessions)) states closed).Kept := by
      intro other user stage there settled
      rw [lifeClose here rfl]
      exact Life.keptClose kept closes (landed other user stage there settled) rfl (by simp)
    simp only [resumeClose] at moved
    split at moved
    · rename_i other user entry there
      cases moved
      exact next other user _ there rfl
    · rename_i other user there
      cases moved
      exact next other user _ there rfl
    · contradiction
  | sessions =>
    have landed := kept.past t id _ closes rfl
    simp only [resumeClose] at moved
    cases pooled : s.entries id with
    | none =>
      simp only [pooled] at moved
      cases moved
      have ended := Life.keptEnd kept closes rfl pooled
      have returns : closeReturns s id .sessions = true := by simp [closeReturns, pooled]
      have gone : (forgetOwner s id).tasks[t]? = some (.closes id .sessions) := here
      rw [if_pos returns, if_pos returns, lifeClose gone rfl]
      exact ended
    | some entry =>
      simp only [pooled] at moved
      cases moved
      have returns : ¬ closeReturns s id .sessions = true := by simp [closeReturns, pooled]
      have live : (life s states closed).heap entry = some (id, .live) := by
        rcases kept.pooled id entry pooled with live | ⟨-, u, dialing⟩
        · exact live
        · exact absurd (landed u _ dialing) (by simp [OpenStage.settled])
      obtain ⟨e, found, rfl, phase⟩ := heldEntry live
      have lost := Life.keptLost kept live
      have here' : (disposeEntry (setPhase s entry .closing) entry).tasks[t]? =
          some (.closes e.id .sessions) := (disposedTasks s entry .closing) ▸ here
      rw [if_neg returns, if_neg returns, lifeClose here' rfl, lifeDispose found pooled]
      exact Life.keptClose lost closes landed rfl (fun _ _ _ => by simp [Life.lost])
  | disposing entry stage =>
    have landed := kept.past t id _ closes rfl
    have idle := kept.disposed t id entry stage closes
    have same := disposeNextSame s entry stage
    have view : ∀ states closed, life (disposeNext s entry stage).1 states closed = life s states closed :=
      fun states closed => lifeRelease s entry stage
    simp only [resumeClose] at moved
    split at moved
    · rename_i s1 next disposed
      have returns : ¬ closeReturns s id (.disposing entry stage) = true := by simp [closeReturns, disposed]
      rw [disposed] at same view
      cases moved
      have here' : s1.tasks[t]? = some (.closes id (.disposing entry stage)) := same.tasks ▸ here
      rw [if_neg returns, if_neg returns, lifeClose here' rfl, view]
      exact Life.keptClose kept closes landed rfl (fun _ _ _ => idle)
    · rename_i s1 disposed
      have returns : closeReturns s id (.disposing entry stage) = true := by simp [closeReturns, disposed]
      rw [disposed] at same view
      cases moved
      have here' : (forgetOwner s1 id).tasks[t]? = some (.closes id (.disposing entry stage)) :=
        same.tasks ▸ here
      have ended := Life.keptEnd kept closes rfl idle
      have forgot : ∀ states closed, life (forgetOwner s1 id) states closed = life s states closed :=
        fun states closed => view states closed
      rw [if_pos returns, if_pos returns, lifeClose here' rfl, forgot]
      exact ended

theorem keptLinkLost (kept : (life s states closed).Kept) {entry : Nat}
    (lost : onLinkLost s entry = some s') :
    (life s' (onLinkLostReports s entry states) closed).Kept := by
  unfold onLinkLost at lost
  split at lost
  · rename_i e found
    have reports : onLinkLostReports s entry states = setState states e.id .reconnecting := by
      simp only [onLinkLostReports, found]
    split at lost
    · rename_i phase
      cases lost
      have live : (life s states closed).heap entry = some (e.id, .live) := by simp [life, found, phase]
      have pooled := kept.live entry e.id live
      have idle : closed e.id = true → ConnectionState.reconnecting = .closed := by
        intro closed'
        have none' := (kept.rest e.id closed').2.1
        rw [pooled] at none'
        contradiction
      rw [reports, lifeBeside rfl rfl, lifeDispose found pooled]
      exact Life.keptRestate (Life.keptLost kept live) idle
    · contradiction
  · contradiction

theorem keptAttempt [DecidableEq υ] (kept : (life s states closed).Kept) (unlocked : Bool)
    (open' : ¬ (life s states closed).Shut id) :
    (life (attemptReconnect s id unlocked) (attemptReconnectReports s id unlocked states) closed).Kept := by
  unfold attemptReconnect attemptReconnectReports
  cases recorded : s.owners id with
  | none => exact keptSame (Life.keptSchedule kept open' none (states id))
  | some owner =>
    dsimp only
    split
    · refine keptEntryFor kept unlocked true (fun _ => ⟨?_, ?_⟩) (fun _ => open')
      · by_contra closing'
        exact open' (Or.inl (closingIff.mp (by simpa using closing')))
      · by_contra closed'
        exact open' (Or.inr (Bool.not_eq_false _ ▸ closed'))
    · exact Life.keptSchedule kept open' none .closed

end Resuming

section Runs
variable {κ υ : Type} [DecidableEq κ] [DecidableEq υ] {r r' : Reported κ υ}

def Reported.life (r : Reported κ υ) : Life κ := ConnectionManager.life r.manager r.states r.closed

omit [DecidableEq υ] in
theorem openIff {id : κ} : ¬ r.life.Shut id ↔ shut r id = false := by
  rw [Reported.life, shutIff, Bool.not_eq_true]

theorem keptAcquire (kept : r.life.Kept) {id : κ} {user : υ} (unlocked : Bool)
    (meets : LeavesClosed r (.manager (.acquire id user unlocked))) :
    (Reported.life (r := ⟨entryFor r.manager id user unlocked false,
      entryForReports r.manager id user unlocked false r.states, update r.closed id false⟩)).Kept := by
  have acquired := Life.keptAcquired kept id
  refine @keptEntryFor κ υ _ _ r.manager r.states (update r.closed id false) id user acquired
    unlocked false ?_ (by simp)
  intro starts
  refine ⟨meets.2.1 id ?_, update_self _ _ _⟩
  simp [reopens, starts]

theorem keptTimer (kept : r.life.Kept) {id : κ} {attempt : Nat} (unlocked : Bool)
    (armed : r.manager.reconnects id = some ⟨attempt, true⟩) :
    (Reported.life (r := ⟨attemptReconnect { r.manager with
        reconnects := update r.manager.reconnects id (some ⟨attempt, false⟩) } id unlocked,
      attemptReconnectReports { r.manager with
        reconnects := update r.manager.reconnects id (some ⟨attempt, false⟩) } id unlocked r.states,
      r.closed⟩)).Kept := by
  have open' : ¬ r.life.Shut id := by
    intro shut
    have none' := kept.quiet id shut
    rw [show r.life.reconnects id = some ⟨attempt, true⟩ from armed] at none'
    contradiction
  have fired : (ConnectionManager.life { r.manager with
      reconnects := update r.manager.reconnects id (some ⟨attempt, false⟩) } r.states r.closed).Kept :=
    keptSame (Life.keptSchedule kept open' _ (r.states id))
  exact keptAttempt fired unlocked open'

omit [DecidableEq υ] in
theorem keptBegin (kept : r.life.Kept) (id : κ) :
    (Reported.life (r := ⟨close r.manager id, r.states, r.closed⟩)).Kept := by
  have begun := Life.keptBegin kept r.manager.tasks.length id
  unfold close Reported.life
  dsimp only
  split
  · rename_i promise opening
    have opening' : r.life.opening id = some promise := opening
    rw [lifeSpawnClose]
    simp only [Life.beginClose, opening'] at begun
    exact begun
  · rename_i opening
    have opening' : r.life.opening id = none := opening
    rw [lifeSpawnClose]
    simp only [Life.beginClose, opening'] at begun
    exact begun

theorem keptStep {h : Happening κ υ} (kept : r.life.Kept) (meets : LeavesClosed r h)
    (moved : happen r h = some r') : r'.life.Kept := by
  cases h with
  | closedEvent emitter entry =>
    simp only [happen] at moved
    split at moved
    · split at moved
      · unfold onClosedEvent at moved
        split at moved
        · obtain ⟨s', lost, rfl⟩ := Option.map_eq_some_iff.mp moved
          exact keptLinkLost kept lost
        · cases moved
          exact kept
      · contradiction
    · contradiction
  | stateEvent emitter entry state =>
    simp only [happen] at moved
    split at moved
    · rename_i e found
      split at moved
      · cases moved
        split
        · exact kept
        · have unclosed := meets.2.2 e.id (by simp [restates, found])
          exact Life.keptRestate kept (fun closed => absurd (unclosed.symm.trans closed) (by simp))
      · contradiction
    · contradiction
  | manager a =>
    obtain ⟨s', stepped, rfl⟩ := Option.map_eq_some_iff.mp moved
    cases a with
    | acquire id user unlocked =>
      cases stepped
      exact keptAcquire kept unlocked meets
    | close id =>
      cases stepped
      exact keptBegin kept id
    | linkLost entry => exact keptLinkLost kept stepped
    | timer id unlocked =>
      simp only [step] at stepped
      split at stepped
      · rename_i attempt armed
        cases stepped
        simp only [reports, armed, closes]
        exact keptTimer kept unlocked armed
      · contradiction
    | store id owner =>
      cases stepped
      exact kept
    | resume t outcome =>
      simp only [step] at stepped
      simp only [reports, closes]
      split at stepped
      · rename_i id user stage here
        rw [here]
        exact keptResumeOpen kept here stepped
      · rename_i id user promise first reconnect here
        rw [here]
        refine keptResumeCaller kept here ?_ stepped
        rintro rfl ⟨other, opener, there⟩
        exact openIff.mpr (meets.1 id (by simp [reconnects, here, there]))
      · rename_i id stage here
        rw [here]
        exact keptResumeClose kept here stepped
      · rename_i entry stage here
        rw [here]
        refine keptResumeRecover kept here ?_ stepped
        intro e found last ok
        exact openIff.mpr (meets.1 e.id (by simp [reconnects, here, found, last, ok]))
      · contradiction

omit [DecidableEq κ] [DecidableEq υ] in
theorem keptUnreported : (unreported κ υ).life.Kept := by
  constructor <;> simp [unreported, empty, Reported.life, life, Life.Shut]

structure StaysClosed (r : Reported κ υ) (id : κ) : Prop where
  state : r.states id = .closed
  timer : ∀ record, r.manager.reconnects id = some record → record.timer = false
  landed : ∀ (t : Nat) (user : υ) (stage : OpenStage),
    r.manager.tasks[t]? = some (.opens id user stage) → stage.settled = true
  unpooled : r.manager.entries id = none
  dead : ∀ (entry : Nat) (e : Entry κ υ), r.manager.heap[entry]? = some e → e.id = id → e.phase ≠ .live

omit [DecidableEq κ] [DecidableEq υ] in
theorem keptStaysClosed (kept : r.life.Kept) {id : κ} (closed : r.closed id = true) : StaysClosed r id := by
  obtain ⟨state, idle, landed⟩ := kept.rest id closed
  refine ⟨state, ?_, ?_, idle, ?_⟩
  · intro record found
    have none' := kept.quiet id (Or.inr closed)
    rw [show r.life.reconnects id = some record from found] at none'
    contradiction
  · intro t user stage here
    exact landed t stage (opensAt here)
  · intro entry e found same phase
    have pooled := kept.live entry id (by simp [Reported.life, life, found, same, phase])
    rw [idle] at pooled
    contradiction

theorem closedStaysClosed (happenings : List (Happening κ υ)) {r : Reported κ υ}
    (ran : runSteps happen (unreported κ υ) happenings = some r)
    (leaves : Along LeavesClosed happen (unreported κ υ) happenings) :
    ∀ id, r.closed id = true → StaysClosed r id :=
  fun _ closed => keptStaysClosed (runKeeps keptStep keptUnreported leaves ran) closed

end Runs

def reconnectedThenReported : List (Happening Nat Nat) := reconnectedThenClosed.map .manager

theorem closedStaysClosedAfterReconnect : ∃ r,
    runSteps happen (unreported Nat Nat) reconnectedThenReported = some r ∧ r.closed 7 = true ∧
      StaysClosed r 7 := by
  have runs : ((runSteps happen (unreported Nat Nat) reconnectedThenReported).map
      (fun r => r.closed 7)) = some true := by decide +kernel
  obtain ⟨r, ran, closed⟩ := Option.map_eq_some_iff.mp runs
  exact ⟨r, ran, closed, closedStaysClosed reconnectedThenReported ran (by decide +kernel) 7 closed⟩

def closedDuringRecovery : List (Happening Nat Nat) :=
  [.store 7 (some 1), .acquire 7 1 true, .resume 0 .ok, .resume 0 .ok, .resume 0 .ok, .resume 1 .ok,
    .linkLost 0, .close 7, .resume 3 .ok, .resume 2 .ok, .resume 2 .ok].map .manager

theorem recoveryReconnectsClosed : ¬ ∀ happenings (r : Reported Nat Nat),
    runSteps happen (unreported Nat Nat) happenings = some r →
    ∀ id, r.closed id = true → StaysClosed r id := by
  intro all
  have runs : ((runSteps happen (unreported Nat Nat) closedDuringRecovery).map
      (fun r => (r.closed 7, r.states 7))) = some (true, .reconnecting) := by decide +kernel
  obtain ⟨r, ran, pair⟩ := Option.map_eq_some_iff.mp runs
  have state := (all _ r ran 7 (Prod.mk.inj pair).1).state
  rw [(Prod.mk.inj pair).2] at state
  contradiction

end DatabaseAdmin.ConnectionManager
