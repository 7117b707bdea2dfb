import DatabaseAdmin.JobOrder

/-! The manager's steps are steps of the board, so what the board keeps the manager does. -/
namespace DatabaseAdmin.JobManager
open StepSystem Function

section Views
variable {κ υ : Type} {s s' : JobsState κ υ}

def stage (live : LiveJob κ υ) : Stage :=
  ⟨live.status, live.cancelRequested, live.finished, live.removed, live.forceTimer.isSome⟩

def board (s : JobsState κ υ) : Board :=
  ⟨s.jobs.length, fun id => s.jobs[id]?.map stage, s.rows, s.live, s.queue, s.running,
    s.concurrency, s.immediates.length, s.removals, s.starts⟩

theorem boardModify (s : JobsState κ υ) (id : Nat) {f : LiveJob κ υ → LiveJob κ υ} {g : Stage → Stage}
    (same : ∀ live, stage (f live) = g (stage live)) :
    board (modifyJob s id f) = (board s).change id g := by
  simp only [board, modifyJob, Board.change, List.length_modify, Board.mk.injEq, and_true, true_and]
  funext j
  simp only [List.getElem?_modify, update_apply]
  split
  · rename_i here
    subst here
    cases s.jobs[id]? with
    | none => simp
    | some live => simp [same]
  · rename_i other
    simp [Ne.symm other]

theorem boardQuiet (s : JobsState κ υ) (id : Nat) {f : LiveJob κ υ → LiveJob κ υ}
    (same : ∀ live, stage (f live) = stage live) : board (modifyJob s id f) = board s := by
  rw [boardModify s id (g := fun g => g) same]
  simp [Board.change]

@[simp] theorem boardStages (s : JobsState κ υ) (id : Nat) :
    (board s).stages id = s.jobs[id]?.map stage := rfl

@[simp] theorem boardUpdate (ambient : Context υ) (s : JobsState κ υ) (id : Nat) :
    board (emitUpdate ambient s id) = board s := by
  unfold emitUpdate
  split
  · rfl
  · rfl

@[simp] theorem boardSchedule (ambient : Context υ) (s : JobsState κ υ) (id : Nat) :
    board (scheduleFlush ambient s id) = board s := by
  apply boardQuiet
  intro live
  split
  · rfl
  · rfl

@[simp] theorem boardAppend (ambient : Context υ) (s : JobsState κ υ) (id : Nat) (lines : List String) :
    board (appendLog ambient s id lines) = board s := by
  unfold appendLog
  rw [boardSchedule]
  exact boardQuiet s id (fun _ => rfl)

@[simp] theorem boardLog (ambient : Context υ) (s : JobsState κ υ) (id : Nat) :
    board (emitLog ambient s id) = board s := by
  unfold emitLog
  split
  · split
    · rfl
    · exact boardQuiet s id (fun _ => rfl)
  · rfl

@[simp] theorem boardPersist (s : JobsState κ υ) (id : Nat) :
    board (persist s id) = (board s).save id := by
  unfold persist Board.save
  cases found : s.jobs[id]? with
  | none => simp [found]
  | some live =>
    simp only [boardStages, found, Option.map_some]
    rw [show (stage live).removed = live.removed from rfl]
    split
    · rfl
    · have quiet := boardQuiet s id (f := fun live => { live with persistDirty := false }) (fun _ => rfl)
      exact congrArg (fun b : Board =>
        { b with rows := update s.rows id ((s.rows id).map fun _ => live.status) }) quiet

theorem boardStartable (s : JobsState κ υ) (id : Nat) : (board s).startable id = startable s id := by
  unfold startable Board.startable
  cases found : s.jobs[id]? with
  | none => simp [found]
  | some live =>
    simp only [boardStages, found, Option.map_some]
    rfl

theorem boardStart (ambient : Context υ) (s : JobsState κ υ) (id : Nat) :
    board (start ambient s id) = (board s).start id := by
  unfold start Board.start
  simp only [boardUpdate, boardPersist]
  have changed := boardModify s id (f := fun live => { live with status := .running, runner := some ambient })
    (g := fun g => { g with status := .running }) (fun _ => rfl)
  exact congrArg (fun b : Board => Board.save { b with
    running := s.running.insert id, starts := ⟨id, s.running.length, s.concurrency⟩ :: s.starts } id) changed

theorem boardPumpFrom (ambient : Context υ) (queue : List Nat) (s : JobsState κ υ) :
    board (pumpFrom ambient queue s) = Board.pumpFrom queue (board s) := by
  induction queue generalizing s with
  | nil => rfl
  | cons id rest ih =>
    unfold pumpFrom Board.pumpFrom
    rw [show (board s).concurrency.room (board s).running.length =
      s.concurrency.room s.running.length from rfl]
    split
    · rw [ih, boardStartable]
      split
      · rw [boardStart]
        rfl
      · rfl
    · rfl

theorem boardPump (ambient : Context υ) (s : JobsState κ υ) :
    board (pump ambient s) = (board s).pump := boardPumpFrom ambient s.queue s

theorem boardFree (ambient : Context υ) (s : JobsState κ υ) (id : Nat) (live : LiveJob κ υ)
    (status : JobStatus) (error : Option String) :
    board (freeSlot ambient s id live status error) = (board s).free id status := by
  have ended := boardModify s id (f := fun live => finished live status error)
    (g := (Board.end' · status)) (fun _ => rfl)
  have kept : ∀ s : JobsState κ υ, board (if live.removed = true then s else emitLog ambient s id) = board s := by
    intro s
    split <;> simp
  have shown : ∀ s : JobsState κ υ, board (if live.removed = true then s else emitUpdate ambient s id) = board s := by
    intro s
    split <;> simp
  have chain : board (modifyJob
      (if live.removed = true then persist (if live.removed = true then modifyJob s id
          (fun live => finished live status error) else emitLog ambient (modifyJob s id
          (fun live => finished live status error)) id) id
        else emitUpdate ambient (persist (if live.removed = true then modifyJob s id
          (fun live => finished live status error) else emitLog ambient (modifyJob s id
          (fun live => finished live status error)) id) id) id) id
      (fun live => { live with children := 0 })) =
      ((board s).change id (Board.end' · status)).save id := by
    refine (boardQuiet _ id (f := fun live => { live with children := 0 }) (fun _ => rfl)).trans ?_
    rw [shown, boardPersist, kept, ended]
  exact congrArg (fun b : Board =>
    { b with running := b.running.erase id, live := b.live.erase id }) chain

theorem boardFinish (ambient : Context υ) (s : JobsState κ υ) (id : Nat) (status : JobStatus)
    (error : Option String) :
    board (finish ambient s id status error) = (board s).finish id status := by
  unfold finish Board.finish
  cases found : s.jobs[id]? with
  | none => simp [found]
  | some live =>
    simp only [boardStages, found, Option.map_some]
    rw [show (stage live).finished = live.finished from rfl]
    split
    · rfl
    · rw [boardPump, boardFree]

theorem boardCreate (ambient : Context υ) (s : JobsState κ υ) (connectionId : Option κ) :
    board (create ambient s connectionId) = (board s).open' := by
  have stages : ∀ live : LiveJob κ υ, (fun id => (s.jobs ++ [live])[id]?.map stage) =
      update (fun id => s.jobs[id]?.map stage) s.jobs.length (some (stage live)) := by
    intro live
    funext j
    rw [update_apply, List.getElem?_append]
    split
    · rename_i inside
      rw [if_neg (Nat.ne_of_lt inside)]
    · rename_i outside
      cases past : j - s.jobs.length with
      | zero => rw [if_pos (by omega)]; rfl
      | succ n =>
        rw [if_neg (by omega), List.getElem?_eq_none (Nat.le_of_not_lt outside)]
        simp
  have scheduled : ∀ s : JobsState κ υ, board { s with immediates := s.immediates ++ [ambient] } =
      { board s with pumps := (board s).pumps + 1 } := fun s => by simp [board]
  unfold create
  rw [scheduled, boardUpdate]
  simp only [board, Board.open', stages, List.length_append, List.length_singleton]
  rfl

theorem boardCancelStarted (ambient : Context υ) (s : JobsState κ υ) (id : Nat) :
    board (cancelStarted ambient s id) = (board s).cancelStarted id := by
  unfold cancelStarted Board.cancelStarted
  rw [boardModify _ id (g := fun g => { g with forced := true }) (fun _ => rfl), boardUpdate,
    boardPersist, boardAppend, boardModify s id (g := fun g => { g with status := .cancelling }) (fun _ => rfl)]

theorem boardCancel (ambient : Context υ) (s : JobsState κ υ) (id : Nat) :
    board (cancel ambient s id).1 = (board s).cancel id := by
  have asked := boardModify s id (f := fun live => { live with cancelRequested := true })
    (g := fun g => { g with cancelRequested := true }) (fun _ => rfl)
  unfold cancel Board.cancel
  rw [show (board s).live = s.live from rfl]
  split
  · cases found : s.jobs[id]? with
    | none => simp [found]
    | some live =>
      simp only [boardStages, found, Option.map_some]
      unfold cancelLive Board.cancelLive
      rw [show (stage live).finished = live.finished from rfl,
        show (stage live).cancelRequested = live.cancelRequested from rfl,
        show (stage live).status = live.status from rfl]
      split
      · rfl
      · split
        · rw [← asked]
          exact boardFinish ambient _ id _ _
        · rw [← asked]
          exact boardCancelStarted ambient _ id
  · unfold cancelRow Board.cancelRow
    rw [show (board s).rows = s.rows from rfl]
    cases s.rows id with
    | none => rfl
    | some status =>
      simp only
      split
      · rfl
      · rfl

theorem boardRemove (ambient : Context υ) (s : JobsState κ υ) (id : Nat) :
    board (remove ambient s id) = (board s).remove id := by
  have same : (board s).unfinished id = unfinished s id := by
    unfold unfinished Board.unfinished
    cases found : s.jobs[id]? with
    | none => simp [found]
    | some live =>
      simp only [boardStages, found, Option.map_some]
      rfl
  unfold remove Board.remove
  rw [same]
  split
  · exact congrArg (fun b : Board => { b with removals := b.removals ++ [id] })
      (boardCancel ambient s id)
  · rfl

theorem boardRemoveCancelled (s : JobsState κ υ) (id : Nat) :
    board (removeCancelled s id) = (board s).removeCancelled id := by
  unfold removeCancelled Board.removeCancelled
  rw [show (board s).live = s.live from rfl]
  split
  · have removed := boardModify s id (f := fun live => { live with removed := true })
      (g := fun g => { g with removed := true }) (fun _ => rfl)
    rw [← removed]
    rfl
  · rfl

theorem boardFlush (ambient : Context υ) (s : JobsState κ υ) (id : Nat) (due : Bool) :
    board (flush ambient s id due) = board s ∨ board (flush ambient s id due) = (board s).save id := by
  unfold flush
  split
  · rename_i live found
    split
    · exact Or.inl rfl
    · have drained : board (if live.progressDirty = true then emitUpdate ambient
          (modifyJob (emitLog ambient s id) id (fun live => { live with progressDirty := false })) id
          else emitLog ambient s id) = board s := by
        split
        · rw [boardUpdate, boardQuiet _ id (f := fun live => { live with progressDirty := false })
            (fun _ => rfl), boardLog]
        · exact boardLog ambient s id
      cases live.persistDirty && due with
      | true =>
        right
        dsimp only
        split <;> simp [drained]
      | false =>
        left
        dsimp only
        split <;> simp [drained]
  · exact Or.inl rfl

end Views

section Steps
variable {κ υ : Type} {s s' : JobsState κ υ} {id : Nat} {live : LiveJob κ υ}

def Advances (s s' : JobsState κ υ) : Prop := (board s').Orderly ∧ (board s).Keeps (board s')

theorem advancesSame (orderly : (board s).Orderly) (same : board s' = board s) : Advances s s' := by
  unfold Advances
  rw [same]
  exact ⟨orderly, Board.Keeps.refl _⟩

theorem settleAdvances (orderly : (board s).Orderly) {outcome : Outcome}
    (moved : settle s id live outcome = some s') : Advances s s' := by
  have quiet := boardQuiet s id (f := fun live => { live with settled := true }) (fun _ => rfl)
  have ended : ∀ (ambient : Context υ) (status : JobStatus) (error : Option String),
      status.terminal = true → Advances s (finish ambient
        (modifyJob s id (fun live => { live with settled := true })) id status error) := by
    intro ambient status error terminal
    unfold Advances
    rw [boardFinish, quiet]
    exact Board.finishOrderly orderly id terminal
  unfold settle at moved
  split at moved
  · split at moved
    · contradiction
    · cases outcome with
      | resolved =>
        cases moved
        exact ended _ _ _ rfl
      | rejected message abortError =>
        dsimp only at moved
        split at moved
        · cases moved
          exact ended _ _ _ rfl
        · cases moved
          exact ended _ _ _ rfl
  · contradiction

theorem callSame {call : RunnerCall} (moved : runnerCall s id live call = some s') :
    board s' = board s := by
  unfold runnerCall at moved
  split at moved
  · cases call with
    | progress =>
      dsimp only at moved
      split at moved
      · cases moved
        rfl
      · cases moved
        rw [boardSchedule]
        exact boardQuiet s id (fun _ => rfl)
    | log lines =>
      dsimp only at moved
      split at moved
      · cases moved
        rfl
      · cases moved
        exact boardAppend _ s id lines
    | registerChild =>
      cases moved
      exact boardQuiet s id (fun _ => rfl)
  · contradiction

theorem fireAdvances (orderly : (board s).Orderly) (found : s.jobs[id]? = some live) {timer : Timer}
    (moved : fire s id live timer = some s') : Advances s s' := by
  have staged : (board s).stages id = some (stage live) := by simp [found]
  cases timer with
  | flush due =>
    simp only [fire] at moved
    split at moved
    · rename_i ambient _
      cases moved
      have quiet := boardQuiet s id (f := fun live => { live with flushTimer := none }) (fun _ => rfl)
      rcases boardFlush ambient (modifyJob s id (fun live => { live with flushTimer := none })) id due
        with same | saved
      · exact advancesSame orderly (same.trans quiet)
      · unfold Advances
        rw [saved, quiet]
        obtain ⟨lives, runs, slots, pumps, -⟩ := Board.saveLists (board s) id
        refine ⟨⟨Board.soundSave orderly.sound id, Board.savePlaced orderly.placed id, ?_⟩,
          Board.keepsSame (Board.saveStages _ id)⟩
        refine Board.busyWhen orderly.busy runs slots (fun j waits => Board.saveQueue (board s) id ▸ waits)
          (fun j => ?_) pumps
        refine Board.startableWhen lives fun j h found => ?_
        rw [Board.saveStages] at found
        exact ⟨h, found, rfl, fun queued => queued⟩
    · contradiction
  | kill =>
    simp only [fire] at moved
    split at moved
    · have quiet := boardQuiet s id (f := fun live => { live with killTimer := none }) (fun _ => rfl)
      split at moved
      · cases moved
        exact advancesSame orderly quiet
      · cases moved
        exact advancesSame orderly (by rw [boardAppend, quiet])
    · contradiction
  | force =>
    simp only [fire] at moved
    split at moved
    · have unforced := boardModify s id (f := fun live => { live with forceTimer := none })
        (g := fun g => { g with forced := false }) (fun _ => rfl)
      split at moved
      · rename_i ended
        cases moved
        unfold Advances
        rw [unforced]
        exact ⟨Board.unforceOrderly orderly staged ended, Board.unforceKeeps _ id⟩
      · rename_i going
        cases moved
        unfold Advances
        rw [boardFinish, boardAppend, unforced]
        exact Board.forceOrderly orderly staged (by simpa [stage] using going)
    · contradiction

theorem stepAdvances (orderly : (board s).Orderly) {a : Action κ υ} (moved : step s a = some s') :
    Advances s s' := by
  unfold Advances
  cases a with
  | create ambient connectionId =>
    cases moved
    rw [boardCreate]
    exact Board.openOrderly orderly
  | cancel ambient id =>
    cases moved
    rw [boardCancel]
    exact Board.cancelOrderly orderly id
  | remove ambient id =>
    cases moved
    rw [boardRemove]
    exact Board.removeOrderly orderly id
  | setConcurrency ambient n =>
    cases moved
    unfold setConcurrency
    rw [boardPump]
    exact (Board.pumpSame orderly).2
  | immediate i =>
    simp only [step] at moved
    split at moved
    · cases moved
      rw [boardPump]
      exact (Board.pumpSame orderly).2
    · contradiction
  | removal i =>
    simp only [step] at moved
    split at moved
    · rename_i id found
      cases moved
      rw [boardRemoveCancelled]
      have member : id ∈ s.removals := List.mem_of_getElem? found
      have fewer := @Board.removedOrderly (board s) orderly (s.removals.eraseIdx i)
        (fun j within => List.mem_of_mem_eraseIdx within)
      exact Board.removeCancelledOrderly fewer
        (fun g here => (orderly.sound.stages id g here).removing member)
    · contradiction
  | settle id outcome =>
    simp only [step] at moved
    split at moved
    · exact settleAdvances orderly moved
    · contradiction
  | call id call =>
    simp only [step] at moved
    split at moved
    · exact advancesSame orderly (callSame moved)
    · contradiction
  | timer id timer =>
    simp only [step] at moved
    split at moved
    · rename_i live found
      exact fireAdvances orderly found moved
    · contradiction

theorem initialOrderly (concurrency : Concurrency) : (board (initial κ υ concurrency)).Orderly := by
  refine ⟨⟨?_, ?_, ?_, List.nodup_nil, List.nodup_nil, List.nodup_nil, ?_, ?_⟩, ?_, Or.inl (Or.inr ?_)⟩
  all_goals simp [board, initial, Board.started, Board.PlacedBut]

theorem runAdvances (orderly : (board s).Orderly) {acts : List (Action κ υ)}
    (ran : runSteps step s acts = some s') : Advances s s' := by
  induction acts generalizing s with
  | nil =>
    cases ran
    exact advancesSame orderly rfl
  | cons a rest ih =>
    simp only [runSteps] at ran
    split at ran
    · contradiction
    · rename_i next moved
      obtain ⟨here, keeps⟩ := stepAdvances orderly moved
      obtain ⟨later, keeps'⟩ := ih here ran
      exact ⟨later, keeps.trans keeps'⟩

end Steps

section Claims
variable {κ υ : Type}

def SlotsFilled (s : JobsState κ υ) : Prop :=
  s.concurrency.room s.running.length = false ∨ ∀ id ∈ s.queue, startable s id = false

instance (s : JobsState κ υ) : Decidable (SlotsFilled s) := by
  unfold SlotsFilled
  infer_instance

structure JobsOrderly (s : JobsState κ υ) : Prop where
  once : (s.starts.map Start.job).Nodup
  roomy : ∀ st ∈ s.starts, st.concurrency.room st.running = true
  ended : ∀ (id : Nat) (live : LiveJob κ υ), s.jobs[id]? = some live → live.finished = live.status.terminal
  stopping : ∀ (id : Nat) (live : LiveJob κ υ), s.jobs[id]? = some live → live.cancelRequested = true →
    live.finished = false → live.status = .cancelling ∧ live.forceTimer.isSome
  slot : s.running.Nodup ∧ ∀ (id : Nat) (live : LiveJob κ υ), s.jobs[id]? = some live →
    (id ∈ s.running ↔ id ∈ s.starts.map Start.job ∧ live.finished = false)
  row : ∀ (id : Nat) (live : LiveJob κ υ), s.jobs[id]? = some live → live.finished = true →
    s.rows id = none ∨ s.rows id = some live.status
  waiting : ∀ id, startable s id = true → id ∈ s.queue
  filled : SlotsFilled s ∨ s.immediates ≠ []

def KeepsTerminal (s s' : JobsState κ υ) : Prop :=
  ∀ (id : Nat) (live : LiveJob κ υ), s.jobs[id]? = some live → live.status.terminal = true →
    ∃ live' : LiveJob κ υ, s'.jobs[id]? = some live' ∧ live'.status = live.status

theorem boardFilled (s : JobsState κ υ) : (board s).Settled ↔ SlotsFilled s := by
  unfold Board.Settled SlotsFilled
  simp only [boardStartable]
  rfl

theorem orderlyJobs {s : JobsState κ υ} (orderly : (board s).Orderly) : JobsOrderly s := by
  obtain ⟨sound, placed, busy⟩ := orderly
  have staged : ∀ {id live}, s.jobs[id]? = some live → (board s).stages id = some (stage live) :=
    fun found => by simp [found]
  constructor
  case once => exact sound.once
  case roomy => exact sound.roomy
  case ended => exact fun id live found => (sound.stages id _ (staged found)).ended
  case stopping => exact fun id live found => (placed id _ (staged found) (fun no => no)).forced
  case slot => exact ⟨sound.slots, fun id live found => (sound.stages id _ (staged found)).slot⟩
  case row => exact fun id live found => (sound.stages id _ (staged found)).row
  case waiting =>
    intro id ready
    rw [← boardStartable] at ready
    obtain ⟨g, found, -, -, queued⟩ := Board.startableIs.mp ready
    exact (placed id g found (fun no => no)).waiting queued
  case filled =>
    refine busy.imp (boardFilled s).mp fun pending none' => ?_
    simp [board, none'] at pending

theorem immediateFills {s s' : JobsState κ υ} (orderly : (board s).Orderly) {i : Nat}
    (moved : step s (.immediate i : Action κ υ) = some s') : SlotsFilled s' := by
  simp only [step] at moved
  split at moved
  · cases moved
    rw [← boardFilled, boardPump]
    exact (Board.pumpSame orderly).1
  · contradiction

theorem jobsStayOrderly (concurrency : Concurrency) (before after : List (Action κ υ))
    (s s' : JobsState κ υ) (ran : runSteps step (initial κ υ concurrency) before = some s)
    (later : runSteps step s after = some s') :
    JobsOrderly s ∧ KeepsTerminal s s' ∧
      ∀ i s'', step s (.immediate i) = some s'' → SlotsFilled s'' := by
  obtain ⟨orderly, -⟩ := runAdvances (initialOrderly concurrency) ran
  obtain ⟨-, keeps⟩ := runAdvances orderly later
  refine ⟨orderlyJobs orderly, ?_, fun i s'' moved => immediateFills orderly moved⟩
  intro id live found terminal
  have whole := orderly.sound.stages id (stage live) (by simp [found])
  obtain ⟨g', found', same⟩ := keeps id (stage live) (by simp [found])
  obtain ⟨live', here, rfl⟩ := Option.map_eq_some_iff.mp found'
  exact ⟨live', here, (same (whole.ended.trans terminal)).2⟩

theorem jobsStayOrderlyCancelled :
    ∃ s s', runSteps step (initial Unit Unit (.upTo 1))
        [.create (some ()) none, .create none none, .immediate 0, .cancel none 0] = some s ∧
      runSteps step s [.timer 0 .force, .settle 0 .resolved] = some s' ∧
      JobsOrderly s ∧ KeepsTerminal s s' := by
  have runs : ((runSteps step (initial Unit Unit (.upTo 1))
      [.create (some ()) none, .create none none, .immediate 0, .cancel none 0]).bind
      (runSteps step · [.timer 0 .force, .settle 0 .resolved])).isSome = true := by decide
  obtain ⟨s', found⟩ := Option.isSome_iff_exists.mp runs
  obtain ⟨s, ran, later⟩ := Option.bind_eq_some_iff.mp found
  obtain ⟨orderly, keeps, -⟩ := jobsStayOrderly _ _ _ s s' ran later
  exact ⟨s, s', ran, later, orderly, keeps⟩

-- A created job is startable before its scheduled pump has run.
theorem createLeavesSlotFree :
    ¬ ∀ (concurrency : Concurrency) (acts : List (Action Unit Unit)) (s : JobsState Unit Unit),
      runSteps step (initial Unit Unit concurrency) acts = some s → SlotsFilled s := by
  intro filled
  have here := filled (.upTo 2) [.create none none] _ rfl
  revert here
  decide

end Claims

end DatabaseAdmin.JobManager
