import DatabaseAdmin.JobLifecycle

/-! Cancelled jobs and their child processes. -/
namespace DatabaseAdmin.JobCancels
open StepSystem Function JobManager

section Moves
variable {κ υ : Type}

structure View where
  status : JobStatus
  begun : Bool
  asked : Bool
  finished : Bool

def view (live : LiveJob κ υ) : View := ⟨live.status, live.runner.isSome, live.cancelRequested, live.finished⟩

def ended (v : View) (status : JobStatus) : View :=
  { v with finished := true, status := if v.asked && decide (status = .done) then .cancelled else status }

structure Closed (asks : Nat → Prop) (count : Nat) (P : Nat → View → Prop) : Prop where
  fresh : ∀ id, count ≤ id → P id ⟨.queued, false, false, false⟩
  start : ∀ id v, P id v → v.finished = false → v.status = .queued → P id { v with status := .running, begun := true }
  finish : ∀ id v status, P id v → v.finished = false → (status = .failed → v.asked = false) → status.terminal = true →
    P id (ended v status)
  stop : ∀ id v, asks id → P id v → v.finished = false → v.status ≠ .queued → P id { v with asked := true, status := .cancelling }
  drop : ∀ id v, asks id → P id v → v.finished = false → v.status = .queued → P id (ended { v with asked := true } .cancelled)

structure Each (count : Nat) (P : Nat → View → Prop) (s : JobsState κ υ) : Prop where
  known : count ≤ s.jobs.length
  jobs : ∀ id live, s.jobs[id]? = some live → P id (view live)

variable {asks : Nat → Prop} {count : Nat} {P : Nat → View → Prop} {s s' : JobsState κ υ} {id : Nat}

theorem eachSame (each : Each count P s) (same : s'.jobs = s.jobs) : Each count P s' :=
  ⟨same ▸ each.known, same ▸ each.jobs⟩

theorem eachModify (each : Each count P s) {f : LiveJob κ υ → LiveJob κ υ}
    (kept : ∀ live, s.jobs[id]? = some live → P id (view live) → P id (view (f live))) : Each count P (modifyJob s id f) := by
  refine ⟨by simpa [modifyJob] using each.known, fun j live found => ?_⟩
  simp only [modifyJob, List.getElem?_modify] at found
  split at found
  · rename_i here
    subst here
    obtain ⟨before, present, rfl⟩ := Option.map_eq_some_iff.mp found
    exact kept before present (each.jobs _ _ present)
  · exact each.jobs j live (by simpa using found)

theorem eachQuiet (each : Each count P s) {f : LiveJob κ υ → LiveJob κ υ} (same : ∀ live, view (f live) = view live) :
    Each count P (modifyJob s id f) := eachModify each fun live _ held => (same live).symm ▸ held

theorem eachEmit {ambient : Context υ} (each : Each count P s) : Each count P (emitUpdate ambient s id) := by
  unfold emitUpdate
  split
  · exact eachSame each rfl
  · exact each

theorem eachPersist (each : Each count P s) : Each count P (persist s id) := by
  unfold persist
  split
  · split
    · exact each
    · exact eachSame (eachQuiet each (f := fun live => { live with persistDirty := false }) fun _ => rfl) rfl
  · exact each

theorem eachSchedule {ambient : Context υ} (each : Each count P s) : Each count P (scheduleFlush ambient s id) := by
  refine eachQuiet each fun live => ?_
  split <;> rfl

theorem eachAppend {ambient : Context υ} {lines : List String} (each : Each count P s) :
    Each count P (appendLog ambient s id lines) := eachSchedule (eachQuiet each fun _ => rfl)

theorem eachLog {ambient : Context υ} (each : Each count P s) : Each count P (emitLog ambient s id) := by
  unfold emitLog
  split
  · split
    · exact each
    · exact eachSame (eachQuiet each (f := fun live => { live with pendingLog := [] }) fun _ => rfl) rfl
  · exact each

theorem eachStart (closed : Closed asks count P) {ambient : Context υ} (each : Each count P s) (ready : startable s id = true) :
    Each count P (start ambient s id) := by
  unfold start
  refine eachEmit (eachPersist (eachSame (eachModify each (f := fun live =>
    { live with status := .running, runner := some ambient }) fun live found held => ?_) rfl))
  simp only [startable, found, Bool.and_eq_true, Bool.not_eq_true', decide_eq_true_eq] at ready
  exact closed.start id (view live) held ready.1.2 ready.2

theorem eachPump (closed : Closed asks count P) {ambient : Context υ} (queue : List Nat) (each : Each count P s) :
    Each count P (pumpFrom ambient queue s) := by
  induction queue generalizing s with
  | nil => exact eachSame each rfl
  | cons id rest ih =>
    rw [pumpFrom]
    split
    · refine ih ?_
      split
      · rename_i ready
        exact eachStart closed (eachSame each rfl) ready
      · exact eachSame each rfl
    · exact eachSame each rfl

theorem eachFree (closed : Closed asks count P) {ambient : Context υ} {status : JobStatus} {error : Option String} {live : LiveJob κ υ}
    (each : Each count P s) {s' : JobsState κ υ} {asked : LiveJob κ υ → LiveJob κ υ} (same : s'.jobs = (modifyJob s id asked).jobs)
    (own : ∀ live, s.jobs[id]? = some live → P id (view live) → P id (view (finished (asked live) status error))) :
    Each count P (pump ambient (freeSlot ambient s' id live status error)) := by
  have joined : (modifyJob s' id fun live => finished live status error).jobs =
      (modifyJob s id fun live => finished (asked live) status error).jobs := by
    simp only [modifyJob, same, List.modify_modify_eq]
    rfl
  have marked : Each count P (modifyJob s' id fun live => finished live status error) := eachSame (eachModify each own) joined
  refine eachPump closed _ (eachSame (eachQuiet ?_ (f := fun live => { live with children := 0 }) fun _ => rfl) rfl)
  split
  · exact eachPersist marked
  · exact eachEmit (eachPersist (eachLog marked))

theorem eachFinish (closed : Closed asks count P) {ambient : Context υ} {status : JobStatus} {error : Option String}
    (each : Each count P s) (honest : ∀ live, s.jobs[id]? = some live → status = .failed → live.cancelRequested = false)
    (terminal : status.terminal = true) : Each count P (finish ambient s id status error) := by
  unfold finish
  split
  · rename_i live found
    split
    · exact each
    · rename_i going
      have idle : s.jobs = (modifyJob s id fun live => live).jobs := (List.modify_id id s.jobs).symm
      refine eachFree closed each idle fun live' found' held => ?_
      cases found.symm.trans found'
      exact closed.finish id (view live) status held (Bool.not_eq_true _ ▸ going) (honest live found) terminal
  · exact each

def asking (s : JobsState κ υ) (id : Nat) : Bool :=
  match s.jobs[id]? with
  | some live => decide (id ∈ s.live) && !(live.finished || live.cancelRequested)
  | none => false

theorem eachCancel (closed : Closed asks count P) {ambient : Context υ} (asked : asking s id = true → asks id)
    (each : Each count P s) : Each count P (cancel ambient s id).1 := by
  unfold cancel
  split
  · rename_i listed
    split
    · rename_i live found
      unfold cancelLive
      split
      · exact each
      · rename_i going
        have fresh : live.finished = false := by
          rw [Bool.or_eq_true, not_or] at going
          simpa using going.1
        have asked : asks id := asked (by simp only [asking, found, listed, going]; rfl)
        dsimp only
        split
        · rename_i queued
          have present : (modifyJob s id fun live => { live with cancelRequested := true }).jobs[id]? =
              some { live with cancelRequested := true } := by simp [modifyJob, found]
          unfold finish
          rw [present]
          dsimp only
          rw [if_neg (by rw [fresh]; decide)]
          refine eachFree closed each rfl fun live' found' held => ?_
          cases found.symm.trans found'
          exact closed.drop id (view live) asked held fresh queued
        · rename_i begun
          unfold cancelStarted
          refine eachQuiet (eachEmit (eachPersist (eachAppend ?_))) fun _ => rfl
          have stopped : Each count P (modifyJob s id fun live => { live with cancelRequested := true, status := .cancelling }) := by
            refine eachModify each fun live' found' held => ?_
            cases found.symm.trans found'
            exact closed.stop id (view live) asked held fresh begun
          refine eachSame stopped ?_
          simp only [modifyJob, List.modify_modify_eq]
          rfl
    · exact each
  · unfold cancelRow
    split
    · split <;> exact eachSame each rfl
    · exact each

theorem eachFlush {ambient : Context υ} {due : Bool} (each : Each count P s) : Each count P (JobManager.flush ambient s id due) := by
  unfold JobManager.flush
  split
  · split
    · exact each
    · dsimp only
      have drained (live : LiveJob κ υ) : Each count P (if live.progressDirty = true then emitUpdate ambient
          (modifyJob (emitLog ambient s id) id (fun live => { live with progressDirty := false })) id else emitLog ambient s id) := by
        split
        · exact eachEmit (eachQuiet (eachLog each) fun _ => rfl)
        · exact eachLog each
      split
      · exact eachSchedule (by split <;> first | exact eachPersist (drained _) | exact drained _)
      · split
        · exact eachPersist (drained _)
        · exact drained _
  · exact each

theorem eachSettle (closed : Closed asks count P) {live : LiveJob κ υ} {outcome : Outcome} (each : Each count P s)
    (found : s.jobs[id]? = some live) (moved : settle s id live outcome = some s') : Each count P s' := by
  have settled : Each count P (modifyJob s id fun live => { live with settled := true }) := eachQuiet each fun _ => rfl
  unfold settle at moved
  split at moved
  · split at moved
    · contradiction
    · cases outcome with
      | resolved =>
        cases moved
        exact eachFinish closed settled (fun _ _ bad => by cases bad) rfl
      | rejected message abortError =>
        dsimp only at moved
        split at moved
        · cases moved
          exact eachFinish closed settled (fun _ _ bad => by cases bad) rfl
        · rename_i plain
          cases moved
          refine eachFinish closed settled (fun live' found' _ => ?_) rfl
          have present : (modifyJob s id fun live => { live with settled := true }).jobs[id]? = some { live with settled := true } := by
            simp [modifyJob, found]
          cases present.symm.trans found'
          simp only [Bool.or_eq_true, not_or, Bool.not_eq_true] at plain
          exact plain.1.1
  · contradiction

theorem eachCall {live : LiveJob κ υ} {call : RunnerCall} (each : Each count P s) (moved : runnerCall s id live call = some s') :
    Each count P s' := by
  unfold runnerCall at moved
  split at moved
  · cases call with
    | progress =>
      dsimp only at moved
      split at moved <;> cases moved
      · exact each
      · exact eachSchedule (eachQuiet each fun _ => rfl)
    | log lines =>
      dsimp only at moved
      split at moved <;> cases moved
      · exact each
      · exact eachAppend each
    | registerChild =>
      cases moved
      exact eachQuiet each fun _ => rfl
  · contradiction

theorem eachFire (closed : Closed asks count P) {live : LiveJob κ υ} {timer : Timer} (each : Each count P s)
    (moved : fire s id live timer = some s') : Each count P s' := by
  cases timer with
  | flush due =>
    simp only [fire] at moved
    split at moved
    · cases moved
      exact eachFlush (eachQuiet each fun _ => rfl)
    · contradiction
  | kill =>
    simp only [fire] at moved
    split at moved
    · split at moved <;> cases moved
      · exact eachQuiet each fun _ => rfl
      · exact eachAppend (eachQuiet each fun _ => rfl)
    · contradiction
  | force =>
    simp only [fire] at moved
    split at moved
    · split at moved <;> cases moved
      · exact eachQuiet each fun _ => rfl
      · exact eachFinish closed (eachAppend (eachQuiet each fun _ => rfl)) (fun _ _ bad => by cases bad) rfl
    · contradiction

theorem eachCreate (closed : Closed asks count P) {ambient : Context υ} {connectionId : Option κ} (each : Each count P s) :
    Each count P (create ambient s connectionId) := by
  unfold create
  refine eachSame (eachEmit ⟨?_, fun id live found => ?_⟩) rfl
  · exact Nat.le_trans each.known (by simp)
  · rw [List.getElem?_append] at found
    split at found
    · exact each.jobs id live found
    · rename_i outside
      have last : id - s.jobs.length = 0 := by
        by_contra past
        rw [List.getElem?_eq_none (by simp only [List.length_singleton]; omega)] at found
        contradiction
      rw [last] at found
      cases found
      exact closed.fresh id (by have := each.known; omega)

def asksOf (s : JobsState κ υ) : Action κ υ → Nat → Prop
  | .cancel _ id | .remove _ id => fun j => j = id ∧ asking s id = true
  | _ => fun _ => False

theorem stepEach (closed : Closed asks count P) {a : Action κ υ} (each : Each count P s) (moved : step s a = some s')
    (asked : ∀ id, asksOf s a id → asks id) : Each count P s' := by
  cases a with
  | create ambient connectionId =>
    cases moved
    exact eachCreate closed each
  | cancel ambient id =>
    cases moved
    exact eachCancel closed (fun asks => asked id ⟨rfl, asks⟩) each
  | remove ambient id =>
    cases moved
    unfold remove
    split
    · exact eachSame (eachCancel closed (fun asks => asked id ⟨rfl, asks⟩) each) rfl
    · exact eachSame each rfl
  | setConcurrency ambient n =>
    cases moved
    exact eachPump closed _ (eachSame each rfl)
  | immediate i =>
    simp only [step] at moved
    split at moved
    · cases moved
      exact eachPump closed _ (eachSame each rfl)
    · contradiction
  | removal i =>
    simp only [step] at moved
    split at moved
    · cases moved
      unfold removeCancelled
      dsimp only
      split
      · exact eachSame (eachQuiet (eachSame each rfl) (f := fun live => { live with removed := true }) fun _ => rfl) rfl
      · exact eachSame each rfl
    · contradiction
  | settle id outcome =>
    simp only [step] at moved
    split at moved
    · rename_i live found
      exact eachSettle closed each found moved
    · contradiction
  | call id call =>
    simp only [step] at moved
    split at moved
    · exact eachCall each moved
    · contradiction
  | timer id timer =>
    simp only [step] at moved
    split at moved
    · exact eachFire closed each moved
    · contradiction

end Moves

section Children
variable {κ υ : Type}

inductive Signal where
  | sigterm | sigkill
  deriving DecidableEq

structure Attempt where
  child : Nat
  signal : Signal
  running : Bool
  deriving DecidableEq

structure Tracked (κ υ : Type) where
  jobs : JobsState κ υ
  children : Nat → List Nat
  registered : Nat → List Nat
  exited : Nat → Bool
  attempts : List Attempt

def trackedInitial (concurrency : Concurrency) : Tracked κ υ :=
  ⟨initial κ υ concurrency, fun _ => [], fun _ => [], fun _ => false, []⟩

def killChild (signal : Signal) (t : Tracked κ υ) (child : Nat) : Tracked κ υ :=
  { t with attempts := ⟨child, signal, !t.exited child⟩ :: t.attempts }

def killAll (signal : Signal) (t : Tracked κ υ) (id : Nat) : Tracked κ υ := (t.children id).foldl (killChild signal) t

def stops (s : JobsState κ υ) (id : Nat) : Bool :=
  asking s id && decide (s.jobs[id]?.map LiveJob.status ≠ some .queued)

def grace (s : JobsState κ υ) (id : Nat) : Bool :=
  match s.jobs[id]? with
  | some live => live.killTimer.isSome && !live.finished
  | none => false

def signals (t : Tracked κ υ) : Action κ υ → Tracked κ υ
  | .cancel _ id | .remove _ id => if stops t.jobs id then killAll .sigterm t id else t
  | .timer id .kill => if grace t.jobs id then killAll .sigkill t id else t
  | _ => t

def isOver (s : JobsState κ υ) (id : Nat) : Bool := (s.jobs[id]?.map LiveJob.finished).getD true

inductive TrackedAction (κ υ : Type) where
  | act (a : Action κ υ)
  | register (id child : Nat)
  | exit (child : Nat)

def addChild (children : List Nat) (child : Nat) : List Nat := if child ∈ children then children else children ++ [child]

def registers : Action κ υ → Bool
  | .call _ .registerChild => true
  | _ => false

def afterAct (t : Tracked κ υ) (a : Action κ υ) (jobs : JobsState κ υ) : Tracked κ υ :=
  let t := signals t a
  { t with jobs := jobs, children := fun id => if isOver jobs id && !isOver t.jobs id then [] else t.children id }

def afterRegister (t : Tracked κ υ) (id child : Nat) (jobs : JobsState κ υ) : Tracked κ υ :=
  let t := if (t.jobs.jobs[id]?.map LiveJob.cancelRequested).getD false then killChild .sigterm t child else t
  { t with
    jobs := jobs
    children := update t.children id (addChild (t.children id) child)
    registered := if isOver t.jobs id then t.registered else update t.registered id (t.registered id ++ [child]) }

def trackedStep (t : Tracked κ υ) : TrackedAction κ υ → Option (Tracked κ υ)
  | .act a => if registers a then none else (step t.jobs a).map (afterAct t a)
  | .register id child => (step t.jobs (.call id .registerChild)).map (afterRegister t id child)
  | .exit child => some { t with exited := update t.exited child true }

end Children

section Tracking
variable {κ υ : Type} {t t' : Tracked κ υ}

theorem killedAttempts (signal : Signal) (children : List Nat) (t : Tracked κ υ) :
    ∃ more, children.foldl (killChild signal) t = { t with attempts := more ++ t.attempts } ∧
      (∀ child ∈ children, ⟨child, signal, !t.exited child⟩ ∈ more) ∧ ∀ attempt ∈ more, attempt.running = !t.exited attempt.child := by
  induction children generalizing t with
  | nil => exact ⟨[], rfl, nofun, nofun⟩
  | cons child children ih =>
    obtain ⟨more, same, each, honest⟩ := ih (killChild signal t child)
    refine ⟨more ++ [⟨child, signal, !t.exited child⟩], ?_, ?_, ?_⟩
    · rw [List.foldl_cons, same, List.append_assoc]
      rfl
    · intro other member
      rcases List.mem_cons.mp member with rfl | member
      · simp
      · exact List.mem_append_left _ (each other member)
    · intro attempt member
      rcases List.mem_append.mp member with member | member
      · exact honest attempt member
      · rw [List.mem_singleton] at member
        rw [member]

structure Tracks (t : Tracked κ υ) : Prop where
  sound : Each 0 (fun _ v => (v.begun = true → v.status ≠ .queued) ∧ (v.asked = true → v.finished = true → v.status = .cancelled)) t.jobs
  begun : ∀ id, t.registered id ≠ [] → Each (id + 1) (fun j v => j = id → v.begun = true) t.jobs
  held : ∀ id live, t.jobs.jobs[id]? = some live → live.finished = false → ∀ child ∈ t.registered id, child ∈ t.children id
  sent : ∀ id live, t.jobs.jobs[id]? = some live → live.cancelRequested = true →
    ∀ child ∈ t.registered id, ∃ running, ⟨child, .sigterm, running⟩ ∈ t.attempts
  honest : ∀ attempt ∈ t.attempts, attempt.running = false → t.exited attempt.child = true

theorem soundClosed (asks : Nat → Prop) :
    Closed asks 0 (fun _ v => (v.begun = true → v.status ≠ .queued) ∧ (v.asked = true → v.finished = true → v.status = .cancelled)) := by
  refine ⟨fun _ _ => ⟨nofun, nofun⟩, fun _ v held going _ => ⟨fun _ => nofun, fun _ past => ?_⟩,
    fun _ v status held going honest terminal => ⟨fun _ => ?_, fun asked _ => ?_⟩,
    fun _ v _ held going _ => ⟨fun _ => nofun, fun _ past => ?_⟩, fun _ v _ held _ _ => ⟨fun _ => ?_, fun _ _ => ?_⟩⟩
  · rw [going] at past
    contradiction
  · cases status <;> simp_all [ended, JobStatus.terminal, terminalStatuses]
    split <;> simp
  · cases status <;> simp_all [ended, JobStatus.terminal, terminalStatuses]
  · rw [going] at past
    contradiction
  · simp [ended]
  · simp [ended]

theorem begunClosed (asks : Nat → Prop) (id : Nat) : Closed asks (id + 1) (fun j v => j = id → v.begun = true) :=
  ⟨fun _ later same => absurd later (by omega), fun _ _ _ _ _ _ => rfl, fun _ _ _ held _ _ _ => held, fun _ _ _ held _ _ => held,
    fun _ _ _ held _ _ => held⟩

theorem finishedClosed (asks : Nat → Prop) (id : Nat) : Closed asks (id + 1) (fun j v => j = id → v.finished = true) :=
  ⟨fun _ later same => absurd later (by omega), fun _ _ held _ _ => held, fun _ _ _ _ _ _ _ _ => rfl, fun _ _ _ held _ _ => held,
    fun _ _ _ _ _ _ _ => rfl⟩

theorem askedClosed (asks : Nat → Prop) (id : Nat) : Closed asks (id + 1) (fun j v => j = id → v.asked = true) :=
  ⟨fun _ later same => absurd later (by omega), fun _ _ held _ _ => held, fun _ _ _ held _ _ _ => held, fun _ _ _ _ _ _ _ => rfl,
    fun _ _ _ _ _ _ _ => rfl⟩

theorem unaskedClosed {asks : Nat → Prop} {id : Nat} (free : ¬ asks id) : Closed asks 0 (fun j v => j = id → v.asked = false) :=
  ⟨fun _ _ _ => rfl, fun _ _ held _ _ => held, fun _ _ _ held _ _ _ => held, fun _ _ asks _ _ _ same => absurd (same ▸ asks) free,
    fun _ _ asks _ _ _ same => absurd (same ▸ asks) free⟩

theorem killedAll (t : Tracked κ υ) (signal : Signal) (id : Nat) :
    ∃ more, killAll signal t id = { t with attempts := more ++ t.attempts } ∧
      (∀ child ∈ t.children id, ⟨child, signal, !t.exited child⟩ ∈ more) ∧ ∀ attempt ∈ more, attempt.running = !t.exited attempt.child :=
  killedAttempts signal (t.children id) t

theorem signalsSent (t : Tracked κ υ) (a : Action κ υ) : ∃ more, signals t a = { t with attempts := more ++ t.attempts } ∧
    (∀ attempt ∈ more, attempt.running = !t.exited attempt.child) ∧
    ∀ id, asksOf t.jobs a id → stops t.jobs id = true → ∀ child ∈ t.children id, ⟨child, .sigterm, !t.exited child⟩ ∈ more := by
  have nothing (same : signals t a = t) (quiet : ∀ id, asksOf t.jobs a id → stops t.jobs id = true → False) :
      ∃ more, signals t a = { t with attempts := more ++ t.attempts } ∧ (∀ attempt ∈ more, attempt.running = !t.exited attempt.child) ∧
      ∀ id, asksOf t.jobs a id → stops t.jobs id = true → ∀ child ∈ t.children id, ⟨child, .sigterm, !t.exited child⟩ ∈ more :=
    ⟨[], same, nofun, fun id asks stop => (quiet id asks stop).elim⟩
  have asked (id : Nat) (same : signals t a = if stops t.jobs id then killAll .sigterm t id else t)
      (only : ∀ j, asksOf t.jobs a j → j = id) : ∃ more, signals t a = { t with attempts := more ++ t.attempts } ∧
      (∀ attempt ∈ more, attempt.running = !t.exited attempt.child) ∧
      ∀ id, asksOf t.jobs a id → stops t.jobs id = true → ∀ child ∈ t.children id, ⟨child, .sigterm, !t.exited child⟩ ∈ more := by
    by_cases stop : stops t.jobs id = true
    · obtain ⟨more, killed, each, honest⟩ := killedAll t .sigterm id
      rw [if_pos stop, killed] at same
      refine ⟨more, same, honest, fun j asks _ => ?_⟩
      rw [only j asks]
      exact each
    · refine nothing (same.trans (if_neg stop)) fun j asks here => stop ?_
      rwa [only j asks] at here
  cases a with
  | cancel ambient id => exact asked id rfl fun j asks => asks.1
  | remove ambient id => exact asked id rfl fun j asks => asks.1
  | timer id timer =>
    cases timer with
    | kill =>
      by_cases due : grace t.jobs id = true
      · obtain ⟨more, killed, -, honest⟩ := killedAll t .sigkill id
        exact ⟨more, (if_pos due).trans killed, honest, fun _ => False.elim⟩
      · exact nothing (if_neg due) fun _ asks _ => asks
    | _ => exact nothing rfl fun _ asks _ => asks
  | _ => exact nothing rfl fun _ asks _ => asks

theorem finishedLater {a : Action κ υ} {s s' : JobsState κ υ} {id : Nat} {live live' : LiveJob κ υ} (found : s.jobs[id]? = some live)
    (done : live.finished = true) (moved : step s a = some s') (found' : s'.jobs[id]? = some live') : live'.finished = true := by
  have each : Each (id + 1) (fun j v => j = id → v.finished = true) s := by
    refine ⟨(List.getElem?_eq_some_iff.mp found).1, fun j other present same => ?_⟩
    subst same
    cases found.symm.trans present
    exact done
  exact (stepEach (finishedClosed (fun _ => True) id) each moved fun _ _ => trivial).jobs id live' found' rfl

theorem askedBefore {a : Action κ υ} {s s' : JobsState κ υ} {id : Nat} {live' : LiveJob κ υ} (moved : step s a = some s')
    (found' : s'.jobs[id]? = some live') (asked : live'.cancelRequested = true) :
    (∃ live, s.jobs[id]? = some live ∧ live.cancelRequested = true) ∨ asksOf s a id := by
  by_cases asks : asksOf s a id
  · exact .inr asks
  · left
    by_contra never
    have each : Each 0 (fun j v => j = id → v.asked = false) s := by
      refine ⟨Nat.zero_le _, fun j live present same => ?_⟩
      subst same
      exact Bool.eq_false_iff.mpr fun requested => never ⟨live, present, requested⟩
    have unasked := (stepEach (unaskedClosed asks) each moved fun _ asked => asked).jobs id live' found' rfl
    rw [show live'.cancelRequested = false from unasked] at asked
    contradiction

theorem registeredBegun {id child : Nat} (tracks : Tracks t) (member : child ∈ t.registered id) :
    ∃ live, t.jobs.jobs[id]? = some live ∧ live.runner.isSome = true := by
  have each := tracks.begun id (List.ne_nil_of_mem member)
  exact ⟨_, List.getElem?_eq_getElem each.known, each.jobs id _ (List.getElem?_eq_getElem each.known) rfl⟩

theorem asksAsking {a : Action κ υ} {s : JobsState κ υ} {id : Nat} (asks : asksOf s a id) : asking s id = true := by
  cases a with
  | cancel | remove =>
    obtain ⟨rfl, asking⟩ := asks
    exact asking
  | _ => exact asks.elim

theorem actTracks {a : Action κ υ} {jobs : JobsState κ υ} (tracks : Tracks t) (moved : step t.jobs a = some jobs) :
    Tracks (afterAct t a jobs) := by
  obtain ⟨more, same, honest, reached⟩ := signalsSent t a
  rw [afterAct, same]
  have sound := stepEach (soundClosed fun _ => True) tracks.sound moved fun _ _ => trivial
  refine ⟨sound, fun id some' => stepEach (begunClosed (fun _ => True) id) (tracks.begun id some') moved fun _ _ => trivial,
    fun id live' found' going child member => ?_, fun id live' found' asked child member => ?_, fun attempt listed stopped => ?_⟩
  · obtain ⟨live, found, -⟩ := registeredBegun tracks member
    have before : live.finished = false := by
      by_contra done
      have later := finishedLater found (by simpa using done) moved found'
      rw [going] at later
      contradiction
    have open' : isOver jobs id = false := by
      rw [isOver, show jobs.jobs[id]? = some live' from found']
      exact going
    dsimp only
    rw [open', Bool.false_and, if_neg Bool.false_ne_true]
    exact tracks.held id live found before child member
  · rcases askedBefore moved found' asked with ⟨live, found, already⟩ | asks
    · obtain ⟨running, listed⟩ := tracks.sent id live found already child member
      exact ⟨running, List.mem_append_right _ listed⟩
    · obtain ⟨live, found, begun⟩ := registeredBegun tracks member
      have fresh := asksAsking asks
      have started : live.status ≠ .queued := (tracks.sound.jobs id live found).1 begun
      have stop : stops t.jobs id = true := by simp [stops, fresh, found, started]
      have going : live.finished = false := by
        simp only [asking, found, Bool.and_eq_true, Bool.not_eq_true', Bool.or_eq_false_iff] at fresh
        exact fresh.2.1
      exact ⟨_, List.mem_append_left _ (reached id asks stop child (tracks.held id live found going child member))⟩
  · rcases List.mem_append.mp listed with fresh | before
    · have running := honest attempt fresh
      rw [stopped] at running
      simpa using running
    · exact tracks.honest attempt before stopped

theorem addedMember {children : List Nat} {child other : Nat} (member : other ∈ children ++ [child]) :
    other ∈ addChild children child := by
  unfold addChild
  split
  · rename_i known
    rcases List.mem_append.mp member with old | new
    · exact old
    · rw [List.mem_singleton] at new
      exact new ▸ known
  · exact member

theorem registerRunner {s s' : JobsState κ υ} {id : Nat} (moved : step s (.call id .registerChild : Action κ υ) = some s') :
    ∃ live, s.jobs[id]? = some live ∧ live.runner.isSome = true ∧
      s' = modifyJob s id fun live => { live with children := live.children + 1 } := by
  simp only [step] at moved
  split at moved
  · rename_i live found
    simp only [runnerCall] at moved
    split at moved
    · rename_i ambient begun
      cases moved
      exact ⟨live, found, by rw [begun]; rfl, rfl⟩
    · contradiction
  · contradiction

theorem viewBack {s : JobsState κ υ} {id j : Nat} {f : LiveJob κ υ → LiveJob κ υ} {live' : LiveJob κ υ}
    (same : ∀ live, view (f live) = view live) (found : (modifyJob s id f).jobs[j]? = some live') :
    ∃ live, s.jobs[j]? = some live ∧ view live' = view live := by
  simp only [modifyJob, List.getElem?_modify] at found
  split at found
  · obtain ⟨live, present, rfl⟩ := Option.map_eq_some_iff.mp found
    exact ⟨live, present, same live⟩
  · exact ⟨live', by simpa using found, rfl⟩

theorem registerSent {id : Nat} {live : LiveJob κ υ} (found : t.jobs.jobs[id]? = some live) (child : Nat) : ∃ more,
    (if (t.jobs.jobs[id]?.map LiveJob.cancelRequested).getD false then killChild .sigterm t child else t) =
      { t with attempts := more ++ t.attempts } ∧ (∀ attempt ∈ more, attempt.running = !t.exited attempt.child) ∧
    (live.cancelRequested = true → ⟨child, .sigterm, !t.exited child⟩ ∈ more) := by
  rw [found]
  cases asked : live.cancelRequested with
  | true => exact ⟨[⟨child, .sigterm, !t.exited child⟩], by simp [asked, killChild], by simp, by simp⟩
  | false => exact ⟨[], by simp [asked], nofun, nofun⟩

theorem updatedMember {table : Nat → List Nat} {id j child other : Nat} {past : Bool}
    (member : other ∈ (if past then table else update table id (table id ++ [child])) j) :
    other ∈ table j ∨ (j = id ∧ other = child) := by
  split at member
  · exact .inl member
  · by_cases here : j = id
    · subst here
      rw [update_self] at member
      exact (List.mem_append.mp member).imp (fun old => old) fun last => ⟨rfl, List.mem_singleton.mp last⟩
    · rw [update_of_ne here] at member
      exact .inl member

theorem addedTo {children : Nat → List Nat} {id j child other : Nat} (member : other ∈ children j ∨ (j = id ∧ other = child)) :
    other ∈ update children id (addChild (children id) child) j := by
  by_cases here : j = id
  · subst here
    rw [update_self]
    refine addedMember (List.mem_append.mpr (member.imp (fun old => old) fun new => ?_))
    exact List.mem_singleton.mpr new.2
  · rw [update_of_ne here]
    exact member.resolve_right fun new => here new.1

theorem registerTracks {id child : Nat} {jobs : JobsState κ υ} (tracks : Tracks t)
    (stepped : step t.jobs (.call id .registerChild) = some jobs) : Tracks (afterRegister t id child jobs) := by
  obtain ⟨live, found, begun, rfl⟩ := registerRunner stepped
  obtain ⟨more, same, honest, reached⟩ := registerSent found child
  rw [afterRegister, same]
  have quiet {count : Nat} {P : Nat → View → Prop} (each : Each count P t.jobs) :
      Each count P (modifyJob t.jobs id fun live => { live with children := live.children + 1 }) := eachQuiet each fun _ => rfl
  have back {j : Nat} {live' : LiveJob κ υ}
      (found' : (modifyJob t.jobs id fun live => { live with children := live.children + 1 }).jobs[j]? = some live') :=
    viewBack (f := fun live => { live with children := live.children + 1 }) (fun _ => rfl) found'
  refine ⟨quiet tracks.sound, fun j some' => quiet ?_, fun j live' found' going other member => ?_,
    fun j live' found' asked other member => ?_, fun attempt shown stopped => ?_⟩
  · obtain ⟨other, member⟩ := List.exists_mem_of_ne_nil _ some'
    rcases updatedMember member with old | ⟨rfl, rfl⟩
    · exact tracks.begun j (List.ne_nil_of_mem old)
    · refine ⟨(List.getElem?_eq_some_iff.mp found).1, fun k other present here => ?_⟩
      subst here
      cases found.symm.trans present
      exact begun
  · obtain ⟨before, present, alike⟩ := back found'
    have unfinished : before.finished = false := (congrArg View.finished alike).symm.trans going
    exact addedTo ((updatedMember member).imp (tracks.held j before present unfinished other) fun new => new)
  · obtain ⟨before, present, alike⟩ := back found'
    have requested : before.cancelRequested = true := (congrArg View.asked alike).symm.trans asked
    rcases updatedMember member with old | ⟨rfl, rfl⟩
    · obtain ⟨running, shown⟩ := tracks.sent j before present requested other old
      exact ⟨running, List.mem_append_right _ shown⟩
    · cases found.symm.trans present
      exact ⟨_, List.mem_append_left _ (reached requested)⟩
  · rcases List.mem_append.mp shown with fresh | before
    · have running := honest attempt fresh
      rw [stopped] at running
      simpa using running
    · exact tracks.honest attempt before stopped

theorem actMoved {a : Action κ υ} (moved : trackedStep t (.act a) = some t') :
    ∃ jobs, step t.jobs a = some jobs ∧ t' = afterAct t a jobs := by
  simp only [trackedStep] at moved
  split at moved
  · contradiction
  · obtain ⟨jobs, stepped, rfl⟩ := Option.map_eq_some_iff.mp moved
    exact ⟨jobs, stepped, rfl⟩

theorem registerMoved {id child : Nat} (moved : trackedStep t (.register id child) = some t') :
    ∃ jobs, step t.jobs (.call id .registerChild) = some jobs ∧ t' = afterRegister t id child jobs := by
  obtain ⟨jobs, stepped, rfl⟩ := Option.map_eq_some_iff.mp moved
  exact ⟨jobs, stepped, rfl⟩

theorem trackedTracks {a : TrackedAction κ υ} (tracks : Tracks t) (moved : trackedStep t a = some t') : Tracks t' := by
  cases a with
  | act a =>
    obtain ⟨jobs, stepped, rfl⟩ := actMoved moved
    exact actTracks tracks stepped
  | register id child =>
    obtain ⟨jobs, stepped, rfl⟩ := registerMoved moved
    exact registerTracks tracks stepped
  | exit child =>
    cases moved
    refine ⟨tracks.sound, tracks.begun, tracks.held, tracks.sent, fun attempt listed stopped => ?_⟩
    by_cases same : attempt.child = child
    · exact same ▸ update_self ..
    · exact (update_of_ne same _ _).trans (tracks.honest attempt listed stopped)

theorem initialTracks (concurrency : Concurrency) : Tracks (trackedInitial concurrency : Tracked κ υ) where
  sound := ⟨Nat.zero_le _, fun _ _ found => by simp [trackedInitial, initial] at found⟩
  begun _ some' := absurd rfl some'
  held _ _ found := by simp [trackedInitial, initial] at found
  sent _ _ found := by simp [trackedInitial, initial] at found
  honest _ member := by simp [trackedInitial] at member

end Tracking

section Cancelled
variable {κ υ : Type} {t t' : Tracked κ υ}

theorem jobsMoved {a : TrackedAction κ υ} (moved : trackedStep t a = some t') :
    (∃ b, step t.jobs b = some t'.jobs) ∨ t'.jobs = t.jobs := by
  cases a with
  | act a =>
    obtain ⟨jobs, stepped, rfl⟩ := actMoved moved
    exact .inl ⟨a, stepped⟩
  | register id child =>
    obtain ⟨jobs, stepped, rfl⟩ := registerMoved moved
    exact .inl ⟨_, stepped⟩
  | exit child =>
    cases moved
    exact .inr rfl

structure Cancelled (t : Tracked κ υ) (id : Nat) : Prop where
  status : ∀ live, t.jobs.jobs[id]? = some live → live.status.terminal = true → live.status = .cancelled ∧
    (t.jobs.rows id = none ∨ t.jobs.rows id = some .cancelled)
  signalled : ∀ child ∈ t.registered id, ⟨child, .sigterm, true⟩ ∈ t.attempts ∨
    (⟨child, .sigterm, false⟩ ∈ t.attempts ∧ t.exited child = true)

structure Requested (t : Tracked κ υ) (id : Nat) : Prop where
  tracks : Tracks t
  orderly : (board t.jobs).Orderly
  asked : Each (id + 1) (fun j v => j = id → v.asked = true) t.jobs

theorem requestedStep {id : Nat} {a : TrackedAction κ υ} (requested : Requested t id) (moved : trackedStep t a = some t') :
    Requested t' id := by
  have tracks := trackedTracks requested.tracks moved
  rcases jobsMoved moved with ⟨b, stepped⟩ | same
  · exact ⟨tracks, (stepAdvances requested.orderly stepped).1,
      stepEach (askedClosed (fun _ => True) id) requested.asked stepped fun _ _ => trivial⟩
  · exact ⟨tracks, same ▸ requested.orderly, same ▸ requested.asked⟩

theorem requestedCancelled {id : Nat} (requested : Requested t id) : Cancelled t id := by
  have each := requested.asked
  refine ⟨fun live found terminal => ?_, fun child member => ?_⟩
  · have orderly := orderlyJobs requested.orderly
    have done : live.finished = true := (orderly.ended id live found).trans terminal
    have status : live.status = .cancelled := (requested.tracks.sound.jobs id live found).2 (each.jobs id live found rfl) done
    exact ⟨status, status ▸ orderly.row id live found done⟩
  · obtain ⟨live, found, -⟩ := registeredBegun requested.tracks member
    obtain ⟨running, listed⟩ := requested.tracks.sent id live found (each.jobs id live found rfl) child member
    cases running with
    | true => exact .inl listed
    | false => exact .inr ⟨listed, requested.tracks.honest _ listed rfl⟩

theorem cancelAsks {s : JobsState κ υ} {ambient : Context υ} {id : Nat} (listed : id ∈ s.live)
    (asked : (cancel ambient s id).2 = true) : Each (id + 1) (fun j v => j = id → v.asked = true) (cancel ambient s id).1 := by
  unfold cancel at asked ⊢
  rw [if_pos listed] at asked ⊢
  cases found : s.jobs[id]? with
  | none => simp [found] at asked
  | some live =>
    simp only [found] at asked ⊢
    unfold cancelLive at asked ⊢
    split at asked
    · contradiction
    · rename_i going
      rw [if_neg going]
      have present : Each (id + 1) (fun _ _ => True) s := ⟨(List.getElem?_eq_some_iff.mp found).1, fun _ _ _ => trivial⟩
      have marked : Each (id + 1) (fun j v => j = id → v.asked = true)
          (modifyJob s id fun live => { live with cancelRequested := true }) := by
        refine ⟨by simpa [modifyJob] using present.known, fun j other here same => ?_⟩
        subst same
        simp only [modifyJob, List.getElem?_modify_eq, found] at here
        cases here
        rfl
      dsimp only
      split
      · exact eachFinish (askedClosed (fun _ => True) id) (eachSame marked rfl) (fun _ _ bad => by cases bad) rfl
      · unfold cancelStarted
        refine eachQuiet (eachEmit (eachPersist (eachAppend ?_))) fun _ => rfl
        exact eachModify marked (f := fun live => { live with status := .cancelling }) fun _ _ held => held

def Followed (t : Tracked κ υ) : Prop := Tracks t ∧ (board t.jobs).Orderly

theorem followedStep {a : TrackedAction κ υ} (followed : Followed t) (moved : trackedStep t a = some t') : Followed t' := by
  refine ⟨trackedTracks followed.1 moved, ?_⟩
  rcases jobsMoved moved with ⟨b, stepped⟩ | same
  · exact (stepAdvances followed.2 stepped).1
  · exact same ▸ followed.2

theorem reachedTracks {concurrency : Concurrency} {acts : List (TrackedAction κ υ)}
    (ran : runSteps trackedStep (trackedInitial concurrency) acts = some t) : Followed t :=
  everyRunKeeps (fun (followed : Followed _) moved => followedStep followed moved)
    ⟨initialTracks concurrency, initialOrderly concurrency⟩ ran

theorem cancelledStays (concurrency : Concurrency) (before after : List (TrackedAction κ υ)) (t t₁ t' : Tracked κ υ)
    (ambient : Context υ) (id : Nat) (ran : runSteps trackedStep (trackedInitial concurrency) before = some t)
    (live : id ∈ t.jobs.live) (asked : (cancel ambient t.jobs id).2 = true)
    (moved : trackedStep t (.act (.cancel ambient id)) = some t₁) (later : runSteps trackedStep t₁ after = some t') :
    Cancelled t' id := by
  obtain ⟨tracks, orderly⟩ := reachedTracks ran
  have requested : Requested t₁ id := by
    obtain ⟨jobs, stepped, rfl⟩ := actMoved moved
    exact ⟨trackedTracks tracks moved, (stepAdvances orderly stepped).1, (Option.some.inj stepped) ▸ cancelAsks live asked⟩
  exact requestedCancelled (everyRunKeeps (fun (held : Requested _ id) moved => requestedStep held moved) requested later)

def lateChild : List (TrackedAction Unit Unit) :=
  [.act (.create none none), .act (.immediate 0), .register 0 7, .register 0 8, .exit 8]

theorem lateChildStopped : ∃ t t₁ t', runSteps trackedStep (trackedInitial (.upTo 1)) lateChild = some t ∧
    trackedStep t (.act (.cancel none 0)) = some t₁ ∧
    runSteps trackedStep t₁ [.register 0 9, .act (.settle 0 .resolved)] = some t' ∧ Cancelled t' 0 :=
  ⟨_, _, _, rfl, rfl, rfl, cancelledStays (.upTo 1) lateChild [.register 0 9, .act (.settle 0 .resolved)] _ _ _ none 0 rfl
    (by decide) rfl rfl rfl⟩

theorem exitedUnsignalled : ¬ ∀ (concurrency : Concurrency) (before after : List (TrackedAction Unit Unit)) (t t₁ t' : Tracked Unit Unit)
    (id : Nat), runSteps trackedStep (trackedInitial concurrency) before = some t → id ∈ t.jobs.live →
      (cancel none t.jobs id).2 = true → trackedStep t (.act (.cancel none id)) = some t₁ → runSteps trackedStep t₁ after = some t' →
      ∀ child ∈ t'.registered id, ⟨child, .sigterm, true⟩ ∈ t'.attempts := by
  intro signalled
  have sent := signalled (.upTo 1) lateChild [] _ _ _ 0 rfl (by decide) rfl rfl rfl 8 (by decide)
  revert sent
  decide

end Cancelled

end DatabaseAdmin.JobCancels
