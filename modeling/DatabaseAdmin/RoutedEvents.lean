import DatabaseAdmin.ConnectionReports

/-! A 'closed' event finds its entry by connection id, so one that comes late takes the
entry that has replaced its own. -/
namespace DatabaseAdmin.ConnectionManager
open StepSystem Function

section Routing
variable {κ υ : Type} [DecidableEq κ] [DecidableEq υ] {r r' : Reported κ υ}

def Spared (r r' : Reported κ υ) (id : κ) (current : Nat) : Prop :=
  r'.manager.heap[current]? = r.manager.heap[current]? ∧
    liveEntry r'.manager id = some current ∧ r'.states id = r.states id

def Spares (r : Reported κ υ) : Happening κ υ → Prop
  | .closedEvent emitter entry => ∀ e r', r.manager.heap[entry]? = some e →
      happen r (.closedEvent emitter entry) = some r' →
      ∀ current, liveEntry r.manager e.id = some current → current ≠ entry → Spared r r' e.id current
  | _ => True

def OwnClosed (r : Reported κ υ) : Happening κ υ → Prop
  | .closedEvent emitter entry => ∀ e ∈ r.manager.heap[entry]?, heard e emitter = true →
      ∀ current ∈ liveEntry r.manager e.id, current = entry
  | _ => True

instance (r : Reported κ υ) : ∀ h, Decidable (OwnClosed r h)
  | .closedEvent emitter entry => inferInstanceAs (Decidable (∀ e ∈ r.manager.heap[entry]?,
      heard e emitter = true → ∀ current ∈ liveEntry r.manager e.id, current = entry))
  | .manager _ => isTrue trivial
  | .stateEvent .. => isTrue trivial

omit [DecidableEq κ] [DecidableEq υ] in
theorem liveEntryPhase {s : ManagerState κ υ} {id : κ} {entry : Nat}
    (live : liveEntry s id = some entry) : ∃ e, s.heap[entry]? = some e ∧ e.phase = .live := by
  unfold liveEntry at live
  split at live
  · contradiction
  · split at live
    · rename_i e found
      split at live
      · rename_i phase
        cases live
        exact ⟨e, found, phase⟩
      · contradiction
    · contradiction

omit [DecidableEq υ] in
theorem lostIsClosing {s s' : ManagerState κ υ} {entry : Nat} {e : Entry κ υ}
    (found : s.heap[entry]? = some e) (lost : onLinkLost s entry = some s') :
    s'.heap[entry]? = some { e with phase := .closing } := by
  unfold onLinkLost at lost
  rw [found] at lost
  dsimp only at lost
  split at lost
  · cases lost
    unfold spawn disposeEntry setPhase
    dsimp only
    split
    · simp [found]
    · split <;> simp [found]
  · contradiction

omit [DecidableEq υ] in
theorem liveIsLost {s : ManagerState κ υ} {id : κ} {entry : Nat}
    (live : liveEntry s id = some entry) : ∃ s', onLinkLost s entry = some s' := by
  obtain ⟨e, found, phase⟩ := liveEntryPhase live
  simp [onLinkLost, found, phase]

theorem sparesIff (r : Reported κ υ) (h : Happening κ υ) : Spares r h ↔ OwnClosed r h := by
  cases h with
  | manager a => exact Iff.rfl
  | stateEvent emitter entry state => exact Iff.rfl
  | closedEvent emitter entry =>
    constructor
    · intro spares e found hears current live
      by_contra replaced
      obtain ⟨e', found', phase⟩ := liveEntryPhase live
      obtain ⟨s', lost⟩ := liveIsLost live
      have moved : happen r (.closedEvent emitter entry) =
          some { r with manager := s', states := onLinkLostReports r.manager current r.states } := by
        simp only [happen, Option.mem_def.mp found, hears, onClosedEvent, Option.mem_def.mp live, lost]
        rfl
      obtain ⟨same, -, -⟩ := spares e _ found moved current live replaced
      rw [lostIsClosing found' lost, found'] at same
      have closing := congrArg Entry.phase (Option.some.inj same)
      rw [phase] at closing
      contradiction
    · intro own e r' found moved current live replaced
      have hears : heard e emitter = true := by
        simp only [happen, found] at moved
        split at moved
        · assumption
        · contradiction
      exact absurd (own e found hears current live) replaced

theorem closedEventsSpare (acts : List (Happening κ υ)) :
    Along Spares happen (unreported κ υ) acts ↔ Along OwnClosed happen (unreported κ υ) acts :=
  alongSame sparesIff _ acts

end Routing

def lateClosedEvent : List (Happening Nat Nat) :=
  [.store 7 (some 1), .acquire 7 1 true, .resume 0 .ok, .resume 0 .ok, .resume 0 .ok, .resume 1 .ok,
    .linkLost 0, .acquire 7 1 true, .resume 3 .ok, .resume 3 .ok].map .manager ++
    [.closedEvent .connector 0]

theorem lateClosedEventTakesNextEntry :
    ¬ ∀ acts, Along Spares happen (unreported Nat Nat) acts := by
  intro spares
  have own := (alongSame sparesIff _ _).mp (spares lateClosedEvent)
  revert own
  decide +kernel

end DatabaseAdmin.ConnectionManager
