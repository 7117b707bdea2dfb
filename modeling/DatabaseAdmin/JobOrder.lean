import DatabaseAdmin.JobBoard

/-! Slots are never lost and terminal statuses never change on the board. -/
namespace DatabaseAdmin.JobManager.Board
open Function

variable {b b' : Board} {id : Nat} {g : Stage}

theorem changeAt (b : Board) (id : Nat) (f : Stage → Stage) (j : Nat) :
    (b.change id f).stages j = if j = id then (b.stages id).map f else b.stages j := by
  simp [change, update_apply]

theorem changeBounded (bounded : ∀ j, (b.stages j).isSome ↔ j < b.count) (id : Nat)
    (f : Stage → Stage) (j : Nat) : ((b.change id f).stages j).isSome ↔ j < b.count := by
  rw [changeAt, ← bounded j]
  split
  · rename_i same
    simp [same]
  · rfl

theorem saveAs (b : Board) (id : Nat) : ∃ rows, b.save id = { b with rows := rows } ∧
    (∀ j, j ≠ id → rows j = b.rows j) ∧ (b.rows id = none → rows id = none) ∧
    (∀ g, b.stages id = some g → (g.removed = true → rows id = b.rows id) ∧
      (g.removed = false → rows id = none ∨ rows id = some g.status)) := by
  unfold save
  split
  · rename_i g found
    split
    · rename_i removed
      exact ⟨b.rows, rfl, by simp, by simp, by simp [found, removed]⟩
    · rename_i kept
      refine ⟨_, rfl, ?_, ?_, ?_⟩
      · intro j other
        simp [other]
      · intro blank
        simp [blank]
      · intro g' found'
        cases found.symm.trans found'
        cases rowed : b.rows id with
        | none => simp [kept]
        | some status => simp [kept]
  · rename_i missing
    exact ⟨b.rows, rfl, by simp, by simp, by simp [missing]⟩

theorem Keeps.refl (b : Board) : b.Keeps b := fun _ g found => ⟨g, found, fun ended => ⟨ended, rfl⟩⟩

theorem Keeps.trans {b'' : Board} (first : b.Keeps b') (second : b'.Keeps b'') : b.Keeps b'' := by
  intro id g found
  obtain ⟨g', found', same⟩ := first id g found
  obtain ⟨g'', found'', same'⟩ := second id g' found'
  exact ⟨g'', found'', fun ended =>
    ⟨(same' (same ended).1).1, (same' (same ended).1).2.trans (same ended).2⟩⟩

theorem keepsChange (f : Stage → Stage)
    (apart : ∀ g, b.stages id = some g → g.finished = true →
      (f g).finished = true ∧ (f g).status = g.status) : b.Keeps (b.change id f) := by
  intro j g found
  rw [changeAt]
  split
  · rename_i same
    subst same
    exact ⟨f g, by simp [found], apart g found⟩
  · exact ⟨g, found, fun ended => ⟨ended, rfl⟩⟩

theorem keepsSame (same : b'.stages = b.stages) : b.Keeps b' := by
  intro id g found
  exact ⟨g, by rw [same]; exact found, fun ended => ⟨ended, rfl⟩⟩

theorem startableIs : b.startable id = true ↔
    ∃ g, b.stages id = some g ∧ id ∈ b.live ∧ g.finished = false ∧ g.status = .queued := by
  unfold startable
  cases found : b.stages id with
  | none => simp
  | some g => simp [and_assoc]

theorem queuedStarts (sound : b.Sound) (found : b.stages id = some g) (queued : g.status = .queued) :
    b.startable id = true := by
  have whole := sound.stages id g found
  have going : g.finished = false := by rw [whole.ended, queued]; rfl
  exact startableIs.mpr ⟨g, found, whole.live.mpr going, going, queued⟩

section Save

theorem soundSave (sound : b.Sound) (id : Nat) : (b.save id).Sound := by
  obtain ⟨rows, saved, others, blank, own⟩ := saveAs b id
  rw [saved]
  refine { sound with blank := ?blank, stages := ?stages }
  case blank =>
    intro j beyond
    by_cases same : j = id
    · subst same
      exact blank (sound.blank j beyond)
    · exact (others j same).trans (sound.blank j beyond)
  case stages =>
    intro j g found
    have whole := sound.stages j g found
    refine ⟨whole.ended, whole.live, whole.slot, whole.fresh, whole.active, ?_, ?_, whole.removing⟩
    · intro ended
      by_cases same : j = id
      · subst same
        cases removed : g.removed with
        | true =>
          show rows j = none ∨ rows j = some g.status
          rw [(own g found).1 removed]
          exact whole.row ended
        | false => exact (own g found).2 removed
      · show rows j = none ∨ rows j = some g.status
        rw [others j same]
        exact whole.row ended
    · intro removed
      by_cases same : j = id
      · subst same
        exact ((own g found).1 removed).trans (whole.gone removed)
      · exact (others j same).trans (whole.gone removed)

theorem savePlaced {spared : Nat → Prop} (placed : b.PlacedBut spared) (id : Nat) :
    (b.save id).PlacedBut spared := by
  obtain ⟨rows, saved, -⟩ := saveAs b id
  rw [saved]
  intro j g found unspared
  obtain ⟨waiting, forced⟩ := placed j g found unspared
  exact ⟨waiting, forced⟩

end Save

theorem soundSame (sound : b.Sound) {queue : List Nat} {concurrency : Concurrency} {pumps : Nat} :
    Sound { b with queue := queue, concurrency := concurrency, pumps := pumps } :=
  ⟨sound.bounded, sound.blank, sound.known, sound.slots, sound.lives, sound.once, sound.roomy,
    fun id g found =>
      have whole := sound.stages id g found
      ⟨whole.ended, whole.live, whole.slot, whole.fresh, whole.active, whole.row, whole.gone,
        whole.removing⟩⟩

section Start

theorem startSound (sound : b.Sound) (room : b.concurrency.room b.running.length = true)
    (ready : b.startable id = true) : (b.start id).Sound := by
  obtain ⟨g, found, live, going, queued⟩ := startableIs.mp ready
  have whole := sound.stages id g found
  have fresh : id ∉ b.started := whole.fresh queued
  have idle : id ∉ b.running := fun running => fresh (whole.slot.mp running).1
  apply soundSave
  constructor
  case bounded =>
    exact changeBounded sound.bounded id _
  case blank => exact sound.blank
  case known =>
    intro j held
    apply sound.known j
    have inside : id < b.count := (sound.bounded id).mp (by simp [found])
    simp only [List.mem_insert_iff, started, List.map_cons, List.mem_cons] at held
    rcases held with (rfl | running) | (rfl | before) | rest
    · exact Or.inr (Or.inr (Or.inl live))
    · exact Or.inl running
    · exact Or.inr (Or.inr (Or.inl live))
    · exact Or.inr (Or.inl before)
    · exact Or.inr (Or.inr rest)
  case slots =>
    show (b.running.insert id).Nodup
    rw [List.insert_of_not_mem idle]
    exact List.nodup_cons.mpr ⟨idle, sound.slots⟩
  case lives => exact sound.lives
  case once =>
    simp only [started, List.map_cons, List.nodup_cons]
    exact ⟨fresh, sound.once⟩
  case roomy =>
    intro st member
    rcases List.mem_cons.mp member with rfl | before
    · exact room
    · exact sound.roomy st before
  case stages =>
    intro j h found'
    replace found' : (b.change id (fun g => { g with status := .running })).stages j = some h := found'
    rw [changeAt] at found'
    by_cases same : j = id
    · subst same
      simp only [if_pos, found, Option.map_some, Option.some.injEq] at found'
      subst found'
      constructor
      · exact going
      · exact whole.live
      · simp [started, going]
      · simp
      · simp [started]
      · simp [going]
      · exact whole.gone
      · simp
    · rw [if_neg same] at found'
      have rest := sound.stages j h found'
      refine ⟨rest.ended, rest.live, ?_, ?_, ?_, rest.row, rest.gone, rest.removing⟩
      · simpa [started, change, same] using rest.slot
      · simpa [started, change, same] using rest.fresh
      · simpa [started, change, same] using rest.active

theorem startPlaced {spared : Nat → Prop} {rest : List Nat} (placed : b.PlacedBut spared)
    (ready : b.startable id = true) (shifted : ∀ j ∈ b.queue, j = id ∨ j ∈ rest) :
    (start { b with queue := rest } id).PlacedBut spared := by
  obtain ⟨g, found, live, going, queued⟩ := startableIs.mp ready
  apply savePlaced
  intro j h found' unspared
  replace found' : (b.change id (fun g => { g with status := .running })).stages j = some h := found'
  rw [changeAt] at found'
  split at found'
  · rename_i same
    subst same
    simp only [found, Option.map_some, Option.some.injEq] at found'
    subst found'
    have asked := (placed j g found unspared).forced
    refine ⟨by simp, ?_⟩
    intro requested _
    exact absurd ((asked requested going).1) (by simp [queued])
  · rename_i other
    obtain ⟨waiting, forced⟩ := placed j h found' unspared
    exact ⟨fun still => (shifted j (waiting still)).resolve_left other, forced⟩

theorem saveStages (b : Board) (id : Nat) : (b.save id).stages = b.stages := by
  obtain ⟨rows, saved, -⟩ := saveAs b id
  rw [saved]

theorem saveQueue (b : Board) (id : Nat) : (b.save id).queue = b.queue := by
  obtain ⟨rows, saved, -⟩ := saveAs b id
  rw [saved]

theorem startQueue (b : Board) (id : Nat) : (b.start id).queue = b.queue := saveQueue _ id

theorem queueSame {queue : List Nat} (same : b.queue = queue) : { b with queue := queue } = b := by
  subst same
  rfl

theorem startKeeps (ready : b.startable id = true) : b.Keeps (b.start id) := by
  obtain ⟨g, found, live, going, queued⟩ := startableIs.mp ready
  have changed : b.Keeps (b.change id (fun g => { g with status := .running })) := by
    apply keepsChange
    intro h found' ended
    cases found.symm.trans found'
    exact absurd ended (by simp [going])
  exact changed.trans (keepsSame (saveStages _ id))

end Start

section Pump

theorem pumpRuns (queue : List Nat) {b : Board} (sound : b.Sound)
    (placed : Board.PlacedBut { b with queue := queue } (fun _ => False)) :
    (pumpFrom queue b).Sound ∧ (pumpFrom queue b).PlacedBut (fun _ => False) ∧
      (pumpFrom queue b).Settled ∧ b.Keeps (pumpFrom queue b) := by
  induction queue generalizing b with
  | nil =>
    exact ⟨soundSame sound, placed, Or.inr (by simp [pumpFrom]), keepsSame rfl⟩
  | cons id rest ih =>
    unfold pumpFrom
    split
    · rename_i room
      have sound' : Sound { b with queue := rest } := soundSame sound
      split
      · rename_i ready
        have started := startSound (b := { b with queue := rest }) sound' room ready
        have placed' : Board.PlacedBut { start { b with queue := rest } id with queue := rest }
            (fun _ => False) := by
          rw [queueSame (startQueue { b with queue := rest } id)]
          exact startPlaced (b := { b with queue := id :: rest }) placed ready
            (fun j waits => List.mem_cons.mp waits)
        obtain ⟨s, p, d, k⟩ := ih started placed'
        exact ⟨s, p, d, (startKeeps (b := { b with queue := rest }) ready).trans k⟩
      · rename_i idle
        have placed' : Board.PlacedBut { b with queue := rest } (fun _ => False) := by
          intro j g found _
          obtain ⟨waiting, forced⟩ := placed j g found (fun no => no)
          refine ⟨fun queued => ?_, forced⟩
          rcases List.mem_cons.mp (waiting queued) with rfl | behind
          · exact absurd (queuedStarts sound found queued) idle
          · exact behind
        exact ih (b := { b with queue := rest }) sound' placed'
    · rename_i full
      refine ⟨soundSame sound, placed, Or.inl ?_, keepsSame rfl⟩
      simpa using full

end Pump

section Finish

theorem endTerminal (g : Stage) {status : JobStatus} (terminal : status.terminal = true) :
    (end' g status).status.terminal = true := by
  unfold end'
  dsimp only
  split
  · rfl
  · exact terminal

theorem terminalUnqueued {status : JobStatus} (terminal : status.terminal = true) :
    status ≠ .queued ∧ status ≠ .running ∧ status ≠ .cancelling := by
  cases status <;> simp_all [JobStatus.terminal, terminalStatuses]

theorem freeSound (sound : b.Sound) (found : b.stages id = some g) {status : JobStatus}
    (terminal : status.terminal = true) : (b.free id status).Sound := by
  obtain ⟨rows, saved, others, blank, own⟩ := saveAs (b.change id (end' · status)) id
  have whole := sound.stages id g found
  have ending := terminalUnqueued (endTerminal g terminal)
  have rowed := own (end' g status) (by simp [changeAt, found])
  unfold free
  rw [saved]
  constructor
  case bounded => exact changeBounded sound.bounded id _
  case blank =>
    intro j beyond
    by_cases same : j = id
    · subst same
      exact blank (sound.blank j beyond)
    · exact (others j same).trans (sound.blank j beyond)
  case known =>
    intro j held
    apply sound.known j
    rcases held with running | started | live | removing
    · exact Or.inl (List.mem_of_mem_erase running)
    · exact Or.inr (Or.inl started)
    · exact Or.inr (Or.inr (Or.inl (List.mem_of_mem_erase live)))
    · exact Or.inr (Or.inr (Or.inr removing))
  case slots => exact sound.slots.erase id
  case lives => exact sound.lives.erase id
  case once => exact sound.once
  case roomy => exact sound.roomy
  case stages =>
    intro j h found'
    replace found' : (b.change id (end' · status)).stages j = some h := found'
    rw [changeAt] at found'
    by_cases same : j = id
    · subst same
      simp only [if_pos, found, Option.map_some, Option.some.injEq] at found'
      subst found'
      constructor
      case ended => exact (endTerminal g terminal).symm
      case live => simp [change, sound.lives.not_mem_erase, end']
      case slot => simp [change, sound.slots.not_mem_erase, end']
      case fresh => exact fun queued => absurd queued ending.1
      case active => exact fun active => (active.elim ending.2.1 ending.2.2).elim
      case row =>
        intro _
        show rows j = none ∨ rows j = _
        cases removed : (end' g status).removed with
        | true => exact Or.inl ((rowed.1 removed).trans (whole.gone removed))
        | false => exact rowed.2 removed
      case gone => exact fun removed => (rowed.1 removed).trans (whole.gone removed)
      case removing => exact fun _ => ending.1
    · rw [if_neg same] at found'
      have rest := sound.stages j h found'
      constructor
      case ended => exact rest.ended
      case live => simpa [change, List.mem_erase_of_ne same] using rest.live
      case slot => simpa [change, started, List.mem_erase_of_ne same] using rest.slot
      case fresh => exact rest.fresh
      case active => exact rest.active
      case row =>
        intro ended
        show rows j = none ∨ rows j = _
        rw [others j same]
        exact rest.row ended
      case gone => exact fun removed => (others j same).trans (rest.gone removed)
      case removing => exact rest.removing

theorem freePlaced (placed : b.PlacedBut (· = id)) {status : JobStatus}
    (terminal : status.terminal = true) : (b.free id status).PlacedBut (fun _ => False) := by
  have saved := @savePlaced (b.change id (end' · status)) (fun _ => False) (by
    intro j h found _
    rw [changeAt] at found
    split at found
    · obtain ⟨g, -, rfl⟩ := Option.map_eq_some_iff.mp found
      exact ⟨fun queued => absurd queued (terminalUnqueued (endTerminal g terminal)).1,
        fun _ going => absurd going (by simp [end'])⟩
    · rename_i other
      obtain ⟨waiting, forced⟩ := placed j h found other
      exact ⟨waiting, forced⟩) id
  intro j h found unspared
  obtain ⟨waiting, forced⟩ := saved j h found unspared
  exact ⟨waiting, forced⟩

theorem freeKeeps (found : b.stages id = some g) (going : g.finished = false) (status : JobStatus) :
    b.Keeps (b.free id status) := by
  have changed : b.Keeps (b.change id (end' · status)) := by
    apply keepsChange
    intro h found' ended
    cases found.symm.trans found'
    exact absurd ended (by simp [going])
  exact changed.trans (keepsSame (saveStages _ id))

theorem finishRuns (sound : b.Sound) (placed : b.PlacedBut (· = id))
    (found : b.stages id = some g) (going : g.finished = false) {status : JobStatus}
    (terminal : status.terminal = true) :
    (b.finish id status).Sound ∧ (b.finish id status).PlacedBut (fun _ => False) ∧
      (b.finish id status).Settled ∧ b.Keeps (b.finish id status) := by
  simp only [finish, found, going]
  have freed := freeSound sound found terminal
  obtain ⟨s, p, d, k⟩ := pumpRuns (b.free id status).queue freed (freePlaced placed terminal)
  exact ⟨s, p, d, (freeKeeps found going status).trans k⟩

theorem finishEnds (sound : b.Sound) (placed : b.PlacedBut (· = id))
    (found : b.stages id = some g) (going : g.finished = false) {status : JobStatus}
    (terminal : status.terminal = true) {h : Stage}
    (after : (b.finish id status).stages id = some h) : h.finished = true := by
  simp only [finish, found, going] at after
  have freed := freeSound sound found terminal
  obtain ⟨-, -, -, k⟩ := pumpRuns (b.free id status).queue freed (freePlaced placed terminal)
  have here : (b.free id status).stages id = some (end' g status) := by
    show ((b.change id (end' · status)).save id).stages id = _
    rw [saveStages, changeAt, if_pos rfl, found]
    rfl
  obtain ⟨h', found', same⟩ := k id _ here
  cases found'.symm.trans after
  exact (same rfl).1

end Finish

section Steps

theorem placedSame (placed : b.PlacedBut (fun _ => False)) {concurrency : Concurrency} {pumps : Nat} :
    Board.PlacedBut { b with concurrency := concurrency, pumps := pumps } (fun _ => False) := by
  intro id g found unspared
  obtain ⟨waiting, forced⟩ := placed id g found unspared
  exact ⟨waiting, forced⟩

theorem pumpSame (orderly : b.Orderly) {concurrency : Concurrency} {pumps : Nat} :
    (pump { b with concurrency := concurrency, pumps := pumps }).Settled ∧
      (pump { b with concurrency := concurrency, pumps := pumps }).Orderly ∧
      b.Keeps (pump { b with concurrency := concurrency, pumps := pumps }) := by
  obtain ⟨s, p, d, k⟩ := pumpRuns b.queue
    (b := { b with concurrency := concurrency, pumps := pumps }) (soundSame orderly.sound)
    (placedSame orderly.placed)
  exact ⟨d, ⟨s, p, Or.inl d⟩, (keepsSame rfl).trans k⟩

theorem openOrderly (orderly : b.Orderly) : b.open'.Orderly ∧ b.Keeps b.open' := by
  obtain ⟨sound, placed, -⟩ := orderly
  have new : b.stages b.count = none := by
    rw [← Option.not_isSome_iff_eq_none, sound.bounded]
    exact Nat.lt_irrefl _
  have unused : ∀ l : List Nat, (∀ j ∈ l, j < b.count) → b.count ∉ l :=
    fun l within member => Nat.lt_irrefl _ (within _ member)
  have unstarted := unused b.started fun j member => sound.known j (Or.inr (Or.inl member))
  have idle := unused b.running fun j member => sound.known j (Or.inl member)
  have dead := unused b.live fun j member => sound.known j (Or.inr (Or.inr (Or.inl member)))
  have kept := unused b.removals fun j member => sound.known j (Or.inr (Or.inr (Or.inr member)))
  have at' : ∀ j, b.open'.stages j = if j = b.count then some ⟨.queued, false, false, false, false⟩
      else b.stages j := by simp [open', update_apply]
  refine ⟨⟨?_, ?_, Or.inr (Nat.succ_pos _)⟩, ?_⟩
  · constructor
    case bounded =>
      intro j
      rw [at']
      split
      · rename_i same
        simp [open', same]
      · rename_i other
        rw [sound.bounded j]
        show j < b.count ↔ j < b.count + 1
        omega
    case blank =>
      intro j beyond
      replace beyond : b.count + 1 ≤ j := beyond
      have other : j ≠ b.count := by omega
      simpa [open', other] using sound.blank j (by omega)
    case known =>
      intro j held
      show j < b.count + 1
      rcases held with running | started | live | removing
      · exact Nat.lt_succ_of_lt (sound.known j (Or.inl running))
      · exact Nat.lt_succ_of_lt (sound.known j (Or.inr (Or.inl started)))
      · rcases List.mem_cons.mp live with rfl | live
        · exact Nat.lt_succ_self _
        · exact Nat.lt_succ_of_lt (sound.known j (Or.inr (Or.inr (Or.inl live))))
      · exact Nat.lt_succ_of_lt (sound.known j (Or.inr (Or.inr (Or.inr removing))))
    case slots => exact sound.slots
    case lives => exact List.nodup_cons.mpr ⟨dead, sound.lives⟩
    case once => exact sound.once
    case roomy => exact sound.roomy
    case stages =>
      intro j g found
      rw [at'] at found
      split at found
      · rename_i same
        subst same
        cases found
        constructor
        case ended => rfl
        case live => simp [open']
        case slot => exact ⟨fun running => absurd running idle, fun started => absurd started.1 unstarted⟩
        case fresh => exact fun _ => unstarted
        case active => simp
        case row => simp
        case gone => simp
        case removing => exact fun removing => absurd removing kept
      · rename_i other
        have rest := sound.stages j g found
        constructor
        case ended => exact rest.ended
        case live => simpa [open', other] using rest.live
        case slot => exact rest.slot
        case fresh => exact rest.fresh
        case active => exact rest.active
        case row => simpa [open', other] using rest.row
        case gone => simpa [open', other] using rest.gone
        case removing => exact rest.removing
  · intro j g found _
    rw [at'] at found
    split at found
    · rename_i same
      subst same
      cases found
      exact ⟨fun _ => by simp [open'], by simp⟩
    · obtain ⟨waiting, forced⟩ := placed j g found (fun no => no)
      exact ⟨fun queued => List.mem_append_left _ (waiting queued), forced⟩
  · intro j g found
    have other : j ≠ b.count := fun same => by simp [same, new] at found
    exact ⟨g, by rw [at', if_neg other]; exact found, fun ended => ⟨ended, rfl⟩⟩

theorem changeSound (sound : b.Sound) (f : Stage → Stage)
    (ends : ∀ g, (f g).finished = g.finished)
    (stays : ∀ g, b.stages id = some g → (f g).status = g.status ∨
      g.finished = false ∧ g.status ≠ .queued ∧ (f g).status = .cancelling)
    (gone : ∀ g, b.stages id = some g → (f g).removed = true → b.rows id = none) :
    (b.change id f).Sound := by
  refine { sound with bounded := changeBounded sound.bounded id f, stages := ?stages }
  case stages =>
    intro j h found
    rw [changeAt] at found
    split at found
    · rename_i same
      subst same
      obtain ⟨g, here, rfl⟩ := Option.map_eq_some_iff.mp found
      have whole := sound.stages j g here
      have gone' := gone g here
      rcases stays g here with same | ⟨going, moved, asked⟩
      · constructor
        case ended => rw [ends, same]; exact whole.ended
        case live => rw [ends]; exact whole.live
        case slot => rw [ends]; exact whole.slot
        case fresh => rw [same]; exact whole.fresh
        case active => rw [same]; exact whole.active
        case row => rw [ends, same]; exact whole.row
        case gone => exact gone'
        case removing => rw [same]; exact whole.removing
      · have active : g.status = .running ∨ g.status = .cancelling := by
          have open' := whole.ended.symm.trans going
          cases status : g.status <;> simp_all [JobStatus.terminal, terminalStatuses]
        constructor
        case ended => rw [ends, asked, going]; rfl
        case live => rw [ends]; exact whole.live
        case slot => rw [ends]; exact whole.slot
        case fresh => rw [asked]; simp
        case active => exact fun _ => whole.active active
        case row => rw [ends, going]; simp
        case gone => exact gone'
        case removing => rw [asked]; simp
    · have rest := sound.stages j h found
      exact ⟨rest.ended, rest.live, rest.slot, rest.fresh, rest.active, rest.row, rest.gone,
        rest.removing⟩

theorem startableWhen (lives : b'.live = b.live) (queued : ∀ j h, b'.stages j = some h →
      ∃ g, b.stages j = some g ∧ h.finished = g.finished ∧ (h.status = .queued → g.status = .queued))
    {j : Nat} (ready : b'.startable j = true) : b.startable j = true := by
  obtain ⟨h, found, live, going, waits⟩ := startableIs.mp ready
  obtain ⟨g, here, same, still⟩ := queued j h found
  exact startableIs.mpr ⟨g, here, lives ▸ live, same ▸ going, still waits⟩

theorem changedStage {f : Stage → Stage} {j : Nat} {h : Stage}
    (found : (b.change id f).stages j = some h) : ∃ g, b.stages j = some g ∧ (h = g ∨ j = id ∧ h = f g) := by
  rw [changeAt] at found
  split at found
  · rename_i same
    subst same
    obtain ⟨g, here, rfl⟩ := Option.map_eq_some_iff.mp found
    exact ⟨g, here, Or.inr ⟨rfl, rfl⟩⟩
  · exact ⟨h, found, Or.inl rfl⟩

theorem busyWhen (busy : b.Settled ∨ 0 < b.pumps) (runs : b'.running = b.running)
    (slots : b'.concurrency = b.concurrency) (fewer : ∀ j ∈ b'.queue, j ∈ b.queue)
    (ready : ∀ j, b'.startable j = true → b.startable j = true) (pumps : b'.pumps = b.pumps) :
    b'.Settled ∨ 0 < b'.pumps := by
  rw [pumps]
  refine busy.imp_left fun settled => ?_
  unfold Settled
  rw [runs, slots]
  refine settled.imp_right fun idle j waits => ?_
  have stuck := idle j (fewer j waits)
  rw [Bool.eq_false_iff] at stuck ⊢
  exact fun starts => stuck (ready j starts)

def asking (b : Board) (id : Nat) : Board :=
  b.change id (fun g => { g with cancelRequested := true })

theorem askedStages (b : Board) (id j : Nat) : ((b.asking id).cancelStarted id).stages j =
    if j = id then (b.stages id).map (fun g =>
      { g with cancelRequested := true, status := .cancelling, forced := true })
    else b.stages j := by
  simp only [cancelStarted, asking, changeAt, saveStages]
  split
  · simp only [if_pos, Option.map_map]
    rfl
  · rfl

theorem saveLists (b : Board) (id : Nat) : (b.save id).live = b.live ∧
    (b.save id).running = b.running ∧ (b.save id).concurrency = b.concurrency ∧
    (b.save id).pumps = b.pumps ∧ (b.save id).removals = b.removals := by
  obtain ⟨rows, saved, -⟩ := saveAs b id
  rw [saved]
  exact ⟨rfl, rfl, rfl, rfl, rfl⟩

theorem askingSound (sound : b.Sound) (id : Nat) : (b.asking id).Sound :=
  changeSound sound _ (fun _ => rfl) (fun _ _ => Or.inl rfl)
    (fun g found removed => (sound.stages id g found).gone removed)

theorem cancelStartedOrderly (orderly : b.Orderly) (found : b.stages id = some g)
    (going : g.finished = false) (moved : g.status ≠ .queued) :
    ((b.asking id).cancelStarted id).Orderly ∧ b.Keeps ((b.asking id).cancelStarted id) := by
  obtain ⟨sound, placed, busy⟩ := orderly
  have asked := askingSound sound id
  have here : (b.asking id).stages id = some { g with cancelRequested := true } := by
    simp [asking, changeAt, found]
  have moving := changeSound asked (fun g => { g with status := .cancelling }) (fun _ => rfl)
    (fun h found' => by
      cases here.symm.trans found'
      exact Or.inr ⟨going, moved, rfl⟩)
    (fun h found' removed => (asked.stages id h found').gone removed)
  have saved := soundSave moving id
  have sound' : ((b.asking id).cancelStarted id).Sound :=
    changeSound saved _ (fun _ => rfl) (fun _ _ => Or.inl rfl)
      (fun h found' removed => (saved.stages id h found').gone removed)
  obtain ⟨lives, runs, slots, pumps, -⟩ :=
    saveLists ((b.asking id).change id (fun g => { g with status := .cancelling })) id
  have queue := saveQueue ((b.asking id).change id (fun g => { g with status := .cancelling })) id
  refine ⟨⟨sound', ?_, ?_⟩, ?_⟩
  · intro j h found' unspared
    rw [askedStages] at found'
    split at found'
    · rename_i same
      subst same
      simp only [found, Option.map_some, Option.some.injEq] at found'
      subst found'
      exact ⟨by simp, fun _ _ => ⟨rfl, rfl⟩⟩
    · obtain ⟨waiting, forced⟩ := placed j h found' unspared
      exact ⟨fun queued => queue ▸ waiting queued, forced⟩
  · refine busyWhen busy runs slots (fun j waits => queue ▸ waits) (fun j => ?_) pumps
    have lives' : ((b.asking id).cancelStarted id).live = b.live := lives
    refine startableWhen lives' fun j h found' => ?_
    rw [askedStages] at found'
    split at found'
    · rename_i same
      subst same
      simp only [found, Option.map_some, Option.some.injEq] at found'
      subst found'
      exact ⟨g, found, rfl, by simp⟩
    · exact ⟨h, found', rfl, fun queued => queued⟩
  · intro j h found'
    rw [askedStages]
    split
    · rename_i same
      subst same
      cases found.symm.trans found'
      exact ⟨_, by rw [found]; rfl, fun ended => absurd ended (by simp [going])⟩
    · exact ⟨h, found', fun ended => ⟨ended, rfl⟩⟩

theorem cancelLiveOrderly (orderly : b.Orderly) (found : b.stages id = some g)
    (going : g.finished = false) :
    (b.cancelLive id g).Orderly ∧ b.Keeps (b.cancelLive id g) ∧
      ∀ h, (b.cancelLive id g).stages id = some h → h.status ≠ .queued := by
  have here : (b.asking id).stages id = some { g with cancelRequested := true } := by
    simp [asking, changeAt, found]
  simp only [cancelLive, going, Bool.false_or]
  split
  · rename_i requested
    refine ⟨orderly, Keeps.refl b, fun h found' => ?_⟩
    cases found.symm.trans found'
    rw [((orderly.placed id g found (fun no => no)).forced requested going).1]
    simp
  · split
    · have sound : Board.Sound { b.asking id with queue := b.queue.erase id } :=
        soundSame (askingSound orderly.sound id)
      have placed : Board.PlacedBut { b.asking id with queue := b.queue.erase id } (· = id) := by
        intro j h found' other
        replace found' : (b.asking id).stages j = some h := found'
        rw [asking, changeAt, if_neg other] at found'
        obtain ⟨waiting, forced⟩ := orderly.placed j h found' (fun no => no)
        exact ⟨fun queued => (List.mem_erase_of_ne other).mpr (waiting queued), forced⟩
      obtain ⟨s, p, d, k⟩ := @finishRuns _ _ _ sound placed here going .cancelled rfl
      have ends := fun h => @finishEnds _ _ _ sound placed here going .cancelled rfl h
      have first : b.Keeps { b.asking id with queue := b.queue.erase id } :=
        keepsChange _ (fun _ _ ended => ⟨ended, rfl⟩)
      refine ⟨⟨s, p, Or.inl d⟩, first.trans k, fun h found' => ?_⟩
      have terminal := (s.stages id h found').ended.symm.trans (ends h found')
      exact (terminalUnqueued terminal).1
    · rename_i moved
      obtain ⟨orderly', keeps⟩ := cancelStartedOrderly orderly found going moved
      refine ⟨orderly', keeps, fun h found' => ?_⟩
      have shown := askedStages b id id
      rw [show ((b.asking id).cancelStarted id).stages id = some h from found', if_pos rfl, found] at shown
      cases shown
      simp

theorem placedApart (placed : b.PlacedBut (fun _ => False)) (spared : Nat → Prop) :
    b.PlacedBut spared := fun j g found _ => placed j g found (fun no => no)

theorem finishOrderly (orderly : b.Orderly) (id : Nat) {status : JobStatus}
    (terminal : status.terminal = true) :
    (b.finish id status).Orderly ∧ b.Keeps (b.finish id status) := by
  cases found : b.stages id with
  | none =>
    simp only [finish, found]
    exact ⟨orderly, Keeps.refl b⟩
  | some g =>
    cases going : g.finished with
    | true =>
      simp only [finish, found, going]
      exact ⟨orderly, Keeps.refl b⟩
    | false =>
      obtain ⟨s, p, d, k⟩ := finishRuns orderly.sound (placedApart orderly.placed _) found going terminal
      exact ⟨⟨s, p, Or.inl d⟩, k⟩

def unforce (b : Board) (id : Nat) : Board := b.change id (fun g => { g with forced := false })

theorem unforceSound (sound : b.Sound) (id : Nat) : (b.unforce id).Sound :=
  changeSound sound _ (fun _ => rfl) (fun _ _ => Or.inl rfl)
    (fun g found removed => (sound.stages id g found).gone removed)

theorem unforceKeeps (b : Board) (id : Nat) : b.Keeps (b.unforce id) :=
  keepsChange _ (fun _ _ ended => ⟨ended, rfl⟩)

theorem unforceBusy (busy : b.Settled ∨ 0 < b.pumps) (id : Nat) :
    (b.unforce id).Settled ∨ 0 < (b.unforce id).pumps := by
  refine busyWhen busy rfl rfl (fun j waits => waits) (fun j => ?_) rfl
  refine @startableWhen b (b.unforce id) rfl (fun j h found => ?_) j
  obtain ⟨g, here, rfl | ⟨-, rfl⟩⟩ := changedStage found
  · exact ⟨h, here, rfl, fun queued => queued⟩
  · exact ⟨g, here, rfl, fun queued => queued⟩

theorem unforceOrderly (orderly : b.Orderly) (found : b.stages id = some g)
    (ended : g.finished = true) : (b.unforce id).Orderly := by
  refine ⟨unforceSound orderly.sound id, ?_, unforceBusy orderly.busy id⟩
  intro j h found' unspared
  obtain ⟨g', here, rfl | ⟨rfl, rfl⟩⟩ := changedStage found'
  · obtain ⟨waiting, forced⟩ := orderly.placed j h here unspared
    exact ⟨waiting, forced⟩
  · cases found.symm.trans here
    exact ⟨(orderly.placed j g found unspared).waiting, fun _ going => by simp [ended] at going⟩

theorem forceOrderly (orderly : b.Orderly) (found : b.stages id = some g)
    (going : g.finished = false) :
    ((b.unforce id).finish id .cancelled).Orderly ∧ b.Keeps ((b.unforce id).finish id .cancelled) := by
  have placed : (b.unforce id).PlacedBut (· = id) := by
    intro j h found' other
    rw [unforce, changeAt, if_neg other] at found'
    obtain ⟨waiting, forced⟩ := orderly.placed j h found' (fun no => no)
    exact ⟨waiting, forced⟩
  have here : (b.unforce id).stages id = some { g with forced := false } := by
    simp [unforce, changeAt, found]
  obtain ⟨s, p, d, k⟩ :=
    @finishRuns _ _ _ (unforceSound orderly.sound id) placed here going .cancelled rfl
  exact ⟨⟨s, p, Or.inl d⟩, (unforceKeeps b id).trans k⟩

theorem cancelRowSame (sound : b.Sound) (dead : id ∉ b.live) : b.cancelRow id = b := by
  unfold cancelRow
  split
  · rename_i status rowed
    have ended : status.terminal = true := by
      cases found : b.stages id with
      | none =>
        have beyond : b.count ≤ id := by
          rw [← Nat.not_lt, ← sound.bounded, found]
          simp
        rw [sound.blank id beyond] at rowed
        contradiction
      | some g =>
        have whole := sound.stages id g found
        have passed : g.finished = true := by
          rw [whole.live] at dead
          simpa using dead
        rcases whole.row passed with none' | same
        · rw [none'] at rowed
          contradiction
        · cases same.symm.trans rowed
          rw [← whole.ended]
          exact passed
    rw [if_pos ended]
  · rfl

theorem cancelOrderly (orderly : b.Orderly) (id : Nat) :
    (b.cancel id).Orderly ∧ b.Keeps (b.cancel id) := by
  unfold cancel
  split
  · rename_i live
    split
    · rename_i g found
      have going := (orderly.sound.stages id g found).live.mp live
      exact ⟨(cancelLiveOrderly orderly found going).1, (cancelLiveOrderly orderly found going).2.1⟩
    · exact ⟨orderly, Keeps.refl b⟩
  · rename_i dead
    rw [cancelRowSame orderly.sound dead]
    exact ⟨orderly, Keeps.refl b⟩

theorem dropRowOrderly (orderly : b.Orderly)
    (moved : ∀ g, b.stages id = some g → g.status ≠ .queued) :
    (b.dropRow id).Orderly ∧ b.Keeps (b.dropRow id) := by
  obtain ⟨sound, placed, busy⟩ := orderly
  refine ⟨⟨?_, ?_, ?_⟩, keepsSame rfl⟩
  · refine { sound with blank := ?blank, stages := ?stages }
    case blank =>
      intro j beyond
      by_cases same : j = id
      · simp [dropRow, same]
      · simpa [dropRow, same] using sound.blank j beyond
    case stages =>
      intro j g found
      have whole := sound.stages j g found
      refine ⟨whole.ended, whole.live, whole.slot, whole.fresh, whole.active, ?_, ?_, whole.removing⟩
      · intro ended
        by_cases same : j = id
        · simp [dropRow, same]
        · simpa [dropRow, same] using whole.row ended
      · intro removed
        by_cases same : j = id
        · simp [dropRow, same]
        · simpa [dropRow, same] using whole.gone removed
  · intro j g found unspared
    obtain ⟨waiting, forced⟩ := placed j g found unspared
    refine ⟨fun queued => ?_, forced⟩
    have other : j ≠ id := fun same => moved g (same ▸ found) queued
    exact (List.mem_erase_of_ne other).mpr (waiting queued)
  · exact busyWhen busy rfl rfl (fun j waits => List.mem_of_mem_erase waits) (fun j ready => ready) rfl

theorem removingOrderly (orderly : b.Orderly) (found : b.stages id = some g)
    (moved : g.status ≠ .queued) : Board.Orderly { b with removals := b.removals ++ [id] } := by
  obtain ⟨sound, placed, busy⟩ := orderly
  refine ⟨?_, ?_, busy⟩
  · refine { sound with known := ?known, stages := ?stages }
    case known =>
      intro j held
      rcases held with running | started | live | removing
      · exact sound.known j (Or.inl running)
      · exact sound.known j (Or.inr (Or.inl started))
      · exact sound.known j (Or.inr (Or.inr (Or.inl live)))
      · rcases List.mem_append.mp removing with before | new
        · exact sound.known j (Or.inr (Or.inr (Or.inr before)))
        · cases List.mem_singleton.mp new
          exact (sound.bounded id).mp (by simp [found])
    case stages =>
      intro j h found'
      have whole := sound.stages j h found'
      refine ⟨whole.ended, whole.live, whole.slot, whole.fresh, whole.active, whole.row, whole.gone, ?_⟩
      intro removing
      rcases List.mem_append.mp removing with before | new
      · exact whole.removing before
      · cases List.mem_singleton.mp new
        cases found.symm.trans found'
        exact moved
  · intro j h found' unspared
    obtain ⟨waiting, forced⟩ := placed j h found' unspared
    exact ⟨waiting, forced⟩

theorem removedOrderly (orderly : b.Orderly) {removals : List Nat}
    (fewer : ∀ j ∈ removals, j ∈ b.removals) : Board.Orderly { b with removals := removals } := by
  obtain ⟨sound, placed, busy⟩ := orderly
  refine ⟨?_, ?_, busy⟩
  · refine ⟨sound.bounded, sound.blank, ?_, sound.slots, sound.lives, sound.once, sound.roomy, ?_⟩
    · intro j held
      exact sound.known j (held.imp_right (Or.imp_right (Or.imp_right (fewer j))))
    · intro j g found
      have whole := sound.stages j g found
      exact ⟨whole.ended, whole.live, whole.slot, whole.fresh, whole.active, whole.row, whole.gone,
        fun removing => whole.removing (fewer j removing)⟩
  · intro j g found unspared
    obtain ⟨waiting, forced⟩ := placed j g found unspared
    exact ⟨waiting, forced⟩

theorem removeOrderly (orderly : b.Orderly) (id : Nat) :
    (b.remove id).Orderly ∧ b.Keeps (b.remove id) := by
  unfold remove
  cases found : b.stages id with
  | none =>
    simp only [unfinished, found]
    exact dropRowOrderly orderly (by simp [found])
  | some g =>
    have whole := orderly.sound.stages id g found
    split
    · rename_i going
      simp only [unfinished, found, Bool.and_eq_true, decide_eq_true_eq, Bool.not_eq_true'] at going
      obtain ⟨live, going⟩ := going
      obtain ⟨orderly', keeps, moved⟩ := cancelLiveOrderly orderly found going
      have same : b.cancel id = b.cancelLive id g := by simp [cancel, live, found]
      rw [same]
      obtain ⟨h, found', -⟩ := keeps id g found
      exact ⟨removingOrderly orderly' found' (moved h found'), keeps.trans (keepsSame rfl)⟩
    · rename_i passed
      have ended : g.finished = true := by
        simp only [unfinished, found, Bool.and_eq_true, decide_eq_true_eq, Bool.not_eq_true',
          whole.live, and_self, Bool.not_eq_false] at passed
        exact passed
      refine dropRowOrderly orderly fun h found' => ?_
      cases found.symm.trans found'
      exact (terminalUnqueued (whole.ended ▸ ended)).1

theorem removeCancelledOrderly (orderly : b.Orderly)
    (moved : ∀ g, b.stages id = some g → g.status ≠ .queued) :
    (b.removeCancelled id).Orderly ∧ b.Keeps (b.removeCancelled id) := by
  have dropped := dropRowOrderly orderly moved
  unfold removeCancelled
  split
  · obtain ⟨⟨sound, placed, busy⟩, keeps⟩ := dropped
    have keeps' : (b.dropRow id).Keeps ((b.dropRow id).change id (fun g => { g with removed := true })) :=
      keepsChange _ (fun _ _ ended => ⟨ended, rfl⟩)
    refine ⟨⟨?_, ?_, ?_⟩, keeps.trans keeps'⟩
    · exact changeSound sound (fun g => { g with removed := true }) (fun _ => rfl)
        (fun _ _ => Or.inl rfl) (fun _ _ _ => by simp [dropRow])
    · intro j h found unspared
      obtain ⟨g, here, same⟩ := changedStage (b := b.dropRow id) found
      obtain ⟨waiting, forced⟩ := placed j g here unspared
      rcases same with rfl | ⟨-, rfl⟩
      · exact ⟨waiting, forced⟩
      · exact ⟨waiting, forced⟩
    · refine busyWhen (b := b.dropRow id) busy rfl rfl (fun j waits => waits) (fun j => ?_) rfl
      refine @startableWhen (b.dropRow id)
        ((b.dropRow id).change id (fun g => { g with removed := true })) rfl (fun j h found => ?_) j
      obtain ⟨g, here, same⟩ := changedStage (b := b.dropRow id) found
      refine ⟨g, here, ?_⟩
      rcases same with rfl | ⟨-, rfl⟩
      · exact ⟨rfl, fun queued => queued⟩
      · exact ⟨rfl, fun queued => queued⟩
  · exact dropped

end Steps

end DatabaseAdmin.JobManager.Board
