import DatabaseAdmin.ManagerOwners
import DatabaseAdmin.ConnectionReports

/-! What a close relies on: one open in flight a connection, the pooled entry live or
being dialed by it, and nothing that reopens or reconnects once a close has begun. -/
namespace DatabaseAdmin.ConnectionManager
open Function

structure Life (κ : Type) where
  opens : Nat → Option (κ × OpenStage)
  closes : Nat → Option (κ × CloseStage)
  heap : Nat → Option (κ × Phase)
  entries : κ → Option Nat
  opening : κ → Option Nat
  reconnects : κ → Option Reconnect
  states : κ → ConnectionState
  closed : κ → Bool

def CloseStage.waits : CloseStage → Bool
  | .inflight _ => true
  | _ => false

namespace Life
variable {κ : Type}

def Shut (l : Life κ) (id : κ) : Prop := (∃ t stage, l.closes t = some (id, stage)) ∨ l.closed id = true

def Landed (l : Life κ) (id : κ) : Prop := ∀ t stage, l.opens t = some (id, stage) → stage.settled = true

structure Kept (l : Life κ) : Prop where
  pending : ∀ t id stage, l.opens t = some (id, stage) → stage.settled = false → l.opening id = some t
  live : ∀ e id, l.heap e = some (id, .live) → l.entries id = some e
  pooled : ∀ id e, l.entries id = some e → l.heap e = some (id, .live) ∨
    l.heap e = some (id, .opening) ∧ ∃ t, l.opens t = some (id, .dialing e)
  dialing : ∀ t id e, l.opens t = some (id, .dialing e) →
    l.entries id = some e ∧ l.heap e = some (id, .opening)
  resolving : ∀ t id, l.opens t = some (id, .resolving) → l.entries id = none
  waiting : ∀ t id p, l.closes t = some (id, .inflight p) →
    ∀ u stage, l.opens u = some (id, stage) → stage.settled = false → u = p
  past : ∀ t id stage, l.closes t = some (id, stage) → stage.waits = false → l.Landed id
  disposed : ∀ t id e stage, l.closes t = some (id, .disposing e stage) → l.entries id = none
  quiet : ∀ id, l.Shut id → l.reconnects id = none
  rest : ∀ id, l.closed id = true → l.states id = .closed ∧ l.entries id = none ∧ l.Landed id

variable [DecidableEq κ]

def build (l : Life κ) (t : Nat) (id : κ) (e : Nat) : Life κ :=
  { l with
    opens := update l.opens t (some (id, .dialing e)),
    heap := update l.heap e (some (id, .opening)),
    entries := update l.entries id (some e) }

def dialed (l : Life κ) (t : Nat) (id : κ) (e : Nat) : Life κ :=
  { l with
    opens := update l.opens t (some (id, .probing e)),
    heap := update l.heap e (some (id, .live)),
    reconnects := update l.reconnects id none,
    states := update l.states id .connected }

def undialed (l : Life κ) (t : Nat) (id : κ) (e : Nat) : Life κ :=
  { l with
    opens := update l.opens t (some (id, .disposing e .connector)),
    heap := update l.heap e (some (id, .closing)),
    entries := update l.entries id none }

def advance (l : Life κ) (t : Nat) (id : κ) (next : OpenStage) (state : ConnectionState) : Life κ :=
  { l with
    opens := update l.opens t (some (id, next)),
    states := update l.states id state }

def startOpen (l : Life κ) (t : Nat) (id : κ) (stage : OpenStage) (state : ConnectionState) : Life κ :=
  { l with
    opens := update l.opens t (some (id, stage)),
    opening := update l.opening id (some t),
    states := update l.states id state }

def acquired (l : Life κ) (id : κ) : Life κ := { l with closed := update l.closed id false }

def settle (l : Life κ) (id : κ) : Life κ := { l with opening := update l.opening id none }

def schedule (l : Life κ) (id : κ) (record : Option Reconnect) (state : ConnectionState) : Life κ :=
  { l with
    reconnects := update l.reconnects id record,
    states := update l.states id state }

def beginClose (l : Life κ) (t : Nat) (id : κ) : Life κ :=
  { l with
    closes := update l.closes t (some (id, match l.opening id with
      | some promise => .inflight promise
      | none => .sessions)),
    reconnects := update l.reconnects id none }

def closeOn (l : Life κ) (t : Nat) (id : κ) (stage : CloseStage) : Life κ :=
  { l with closes := update l.closes t (some (id, stage)) }

def closeEnd (l : Life κ) (t : Nat) (id : κ) : Life κ :=
  { l with
    closes := update l.closes t none,
    states := update l.states id .closed,
    closed := update l.closed id true }

def lost (l : Life κ) (id : κ) (e : Nat) : Life κ :=
  { l with
    heap := update l.heap e (some (id, .closing)),
    entries := update l.entries id none }

def restate (l : Life κ) (id : κ) (state : ConnectionState) : Life κ :=
  { l with states := update l.states id state }

variable {l : Life κ} {t e : Nat} {id : κ}

section Opens
variable {stage : OpenStage}

omit [DecidableEq κ] in
theorem Kept.alone (kept : l.Kept) (here : l.opens t = some (id, stage)) (flying : stage.settled = false)
    {u : Nat} {stage' : OpenStage} (there : l.opens u = some (id, stage'))
    (flying' : stage'.settled = false) : u = t := by
  have one := kept.pending t id stage here flying
  rw [kept.pending u id stage' there flying'] at one
  exact Option.some.inj one

omit [DecidableEq κ] in
theorem unlanded (here : l.opens t = some (id, stage)) (flying : stage.settled = false) : ¬ l.Landed id :=
  fun landed => by simp [landed t stage here] at flying

omit [DecidableEq κ] in
theorem Kept.unclosed (kept : l.Kept) (here : l.opens t = some (id, stage))
    (flying : stage.settled = false) : l.closed id = false := by
  cases closed : l.closed id with
  | false => rfl
  | true => exact absurd (kept.rest id closed).2.2 (unlanded here flying)

omit [DecidableEq κ] in
theorem landedBeside {opens : Nat → Option (κ × OpenStage)} {next : OpenStage} {other : κ}
    (landed : ∀ u stage, opens u = some (other, stage) → stage.settled = true) (apart : other ≠ id)
    (u : Nat) (stage : OpenStage) (found : update opens t (some (id, next)) u = some (other, stage)) :
    stage.settled = true := by
  rw [update_apply] at found
  split at found
  · cases found
    exact absurd rfl apart
  · exact landed u stage found

structure Advanced (l : Life κ) (opens : Nat → Option (κ × OpenStage)) : Prop where
  pending : ∀ t id stage, opens t = some (id, stage) → stage.settled = false → l.opening id = some t
  waiting : ∀ t id p, l.closes t = some (id, .inflight p) →
    ∀ u stage, opens u = some (id, stage) → stage.settled = false → u = p
  past : ∀ t id stage, l.closes t = some (id, stage) → stage.waits = false →
    ∀ u stage, opens u = some (id, stage) → stage.settled = true
  rest : ∀ id, l.closed id = true → l.states id = .closed ∧ l.entries id = none ∧
    ∀ u stage, opens u = some (id, stage) → stage.settled = true
  apart : ∀ t stage, l.closes t = some (id, stage) → stage.waits = true
  unclosed : ∀ other, l.closed other = true → other ≠ id

omit [DecidableEq κ] in
theorem Kept.advanced (kept : l.Kept) (here : l.opens t = some (id, stage))
    (flying : stage.settled = false) (next : OpenStage) :
    @Advanced κ id l (update l.opens t (some (id, next))) := by
  have passed : ∀ i, l.Landed i → i ≠ id := fun i landed same => unlanded here flying (same ▸ landed)
  constructor
  case pending =>
    intro u i stage' found flying'
    rw [update_apply] at found
    split at found
    · rename_i same
      cases found
      exact same ▸ kept.pending t id stage here flying
    · exact kept.pending u i stage' found flying'
  case waiting =>
    intro u i p closes v stage' found flying'
    rw [update_apply] at found
    split at found
    · rename_i same
      cases found
      exact same ▸ kept.waiting u id p closes t stage here flying
    · exact kept.waiting u i p closes v stage' found flying'
  case past =>
    intro u i stage' closes past
    have landed := kept.past u i stage' closes past
    exact landedBeside landed (passed i landed)
  case rest =>
    intro i closed
    obtain ⟨state, idle, landed⟩ := kept.rest i closed
    exact ⟨state, idle, landedBeside landed (passed i landed)⟩
  case apart =>
    intro u stage' closes
    by_contra past
    exact passed id (kept.past u id stage' closes (by simpa using past)) rfl
  case unclosed =>
    rintro other closed rfl
    rw [kept.unclosed here flying] at closed
    contradiction

theorem keptBuild (kept : l.Kept) (here : l.opens t = some (id, .resolving)) (fresh : l.heap e = none) :
    (l.build t id e).Kept := by
  have idle := kept.resolving t id here
  have resolves : ∀ u, l.opens u = some (id, .resolving) → u = t := fun u there => kept.alone here rfl there rfl
  have dials : ∀ u e, l.opens u = some (id, .dialing e) → u = t := fun u e there => kept.alone here rfl there rfl
  obtain ⟨pending, waiting, past, rest, apart, unclosed⟩ := kept.advanced here rfl (.dialing e)
  refine ⟨pending, ?_, ?_, ?_, ?_, waiting, past, ?_, kept.quiet, ?_⟩
  · intro e' i
    simp only [build, update_apply]
    grind [kept.live]
  · intro i e'
    simp only [build, update_apply]
    grind [kept.pooled]
  · intro u i e'
    simp only [build, update_apply]
    grind [kept.dialing]
  · intro u i
    simp only [build, update_apply]
    grind [kept.resolving]
  · intro u i e' stage closes
    have other : i ≠ id := by
      rintro rfl
      exact absurd (apart u _ closes) (by simp [CloseStage.waits])
    simpa [build, other] using kept.disposed u i e' stage closes
  · intro i closed
    obtain ⟨state, idle', landed⟩ := rest i closed
    have other := unclosed i closed
    exact ⟨state, by simpa [build, other] using idle', landed⟩

theorem keptDialed (kept : l.Kept) (here : l.opens t = some (id, .dialing e)) :
    (l.dialed t id e).Kept := by
  obtain ⟨pooled, opening⟩ := kept.dialing t id e here
  have resolves : ∀ u, l.opens u = some (id, .resolving) → u = t := fun u there => kept.alone here rfl there rfl
  have dials : ∀ u e, l.opens u = some (id, .dialing e) → u = t := fun u e there => kept.alone here rfl there rfl
  obtain ⟨pending, waiting, past, rest, apart, unclosed⟩ := kept.advanced here rfl (.probing e)
  refine ⟨pending, ?_, ?_, ?_, ?_, waiting, past, kept.disposed, ?_, ?_⟩
  · intro e' i
    simp only [dialed, update_apply]
    grind [kept.live]
  · intro i e'
    simp only [dialed, update_apply]
    grind [kept.pooled, kept.dialing]
  · intro u i e'
    simp only [dialed, update_apply]
    grind [kept.dialing]
  · intro u i
    simp only [dialed, update_apply]
    grind [kept.resolving]
  · intro i shut
    simp only [dialed, update_apply]
    split
    · rfl
    · exact kept.quiet i shut
  · intro i closed
    obtain ⟨state, idle', landed⟩ := rest i closed
    have other := unclosed i closed
    exact ⟨by simpa [dialed, other] using state, idle', landed⟩

theorem keptUndialed (kept : l.Kept) (here : l.opens t = some (id, .dialing e)) :
    (l.undialed t id e).Kept := by
  obtain ⟨pooled, opening⟩ := kept.dialing t id e here
  have resolves : ∀ u, l.opens u = some (id, .resolving) → u = t := fun u there => kept.alone here rfl there rfl
  have dials : ∀ u e, l.opens u = some (id, .dialing e) → u = t := fun u e there => kept.alone here rfl there rfl
  obtain ⟨pending, waiting, past, rest, apart, unclosed⟩ := kept.advanced here rfl (.disposing e .connector)
  refine ⟨pending, ?_, ?_, ?_, ?_, waiting, past, ?_, kept.quiet, ?_⟩
  · intro e' i
    simp only [undialed, update_apply]
    grind [kept.live]
  · intro i e'
    simp only [undialed, update_apply]
    grind [kept.pooled, kept.dialing]
  · intro u i e'
    simp only [undialed, update_apply]
    grind [kept.dialing]
  · intro u i
    simp only [undialed, update_apply]
    grind [kept.resolving]
  · intro u i e' stage closes
    simp only [undialed, update_apply]
    split
    · rfl
    · exact kept.disposed u i e' stage closes
  · intro i closed
    obtain ⟨state, idle', landed⟩ := rest i closed
    refine ⟨state, ?_, landed⟩
    simp only [undialed, update_apply]
    split
    · rfl
    · exact idle'

theorem keptAdvance (kept : l.Kept) (here : l.opens t = some (id, stage)) (flying : stage.settled = false)
    (undialed : ∀ e, stage ≠ .dialing e) {next : OpenStage} (past' : ∀ e, next ≠ .dialing e)
    (resolved : next ≠ .resolving) (state : ConnectionState) : (l.advance t id next state).Kept := by
  obtain ⟨pending, waiting, past, rest, apart, unclosed⟩ := kept.advanced here flying next
  refine ⟨pending, kept.live, ?_, ?_, ?_, waiting, past, kept.disposed, kept.quiet, ?_⟩
  · intro i e'
    simp only [advance, update_apply]
    grind [kept.pooled]
  · intro u i e'
    simp only [advance, update_apply]
    grind [kept.dialing]
  · intro u i
    simp only [advance, update_apply]
    grind [kept.resolving]
  · intro i closed
    obtain ⟨state', idle', landed⟩ := rest i closed
    have other := unclosed i closed
    exact ⟨by simpa [advance, other] using state', idle', landed⟩

theorem keptStart (kept : l.Kept) (fresh : l.opens t = none) (quiet : l.opening id = none)
    (dead : ∀ e, l.entries id = some e → l.heap e ≠ some (id, .live))
    (unclosed : l.closed id = false) (free : ∀ u stage, l.closes u ≠ some (id, stage))
    {stage : OpenStage} (first : ∀ e, stage ≠ .dialing e) (state : ConnectionState) :
    (l.startOpen t id stage state).Kept := by
  have grounded : ∀ u stage, l.opens u = some (id, stage) → stage.settled = true := by
    intro u stage found
    by_contra flying
    have opening := kept.pending u id stage found (by simpa using flying)
    rw [quiet] at opening
    contradiction
  have idle : l.entries id = none := by
    cases pooled : l.entries id with
    | none => rfl
    | some e =>
      rcases kept.pooled id e pooled with live | ⟨-, u, dialing⟩
      · exact absurd live (dead e pooled)
      · exact absurd (grounded u _ dialing) (by simp [OpenStage.settled])
  have other : ∀ i, l.closed i = true → i ≠ id := by
    rintro i closed rfl
    rw [unclosed] at closed
    contradiction
  have beside : ∀ i, i ≠ id → l.Landed i → ∀ u stage',
      update l.opens t (some (id, stage)) u = some (i, stage') → stage'.settled = true :=
    fun i apart landed => landedBeside landed apart
  constructor
  case pending =>
    intro u i stage'
    simp only [startOpen, update_apply]
    grind [kept.pending]
  case live => exact kept.live
  case pooled =>
    intro i e
    simp only [startOpen, update_apply]
    grind [kept.pooled]
  case dialing =>
    intro u i e
    simp only [startOpen, update_apply]
    grind [kept.dialing]
  case resolving =>
    intro u i
    simp only [startOpen, update_apply]
    grind [kept.resolving]
  case waiting =>
    intro u i p closes v stage' found flying
    simp only [startOpen, update_apply] at found
    split at found
    · cases found
      exact absurd closes (free u _)
    · exact kept.waiting u i p closes v stage' found flying
  case past =>
    intro u i stage' closes past
    have apart : i ≠ id := by
      rintro rfl
      exact free u stage' closes
    exact beside i apart (kept.past u i stage' closes past)
  case disposed => exact kept.disposed
  case quiet => exact kept.quiet
  case rest =>
    intro i closed
    obtain ⟨state', idle', landed⟩ := kept.rest i closed
    exact ⟨by simpa [startOpen, other i closed] using state', idle', beside i (other i closed) landed⟩

end Opens

section Closes

theorem keptAcquired (kept : l.Kept) (id : κ) : (l.acquired id).Kept := by
  have still : ∀ i, (l.acquired id).closed i = true → l.closed i = true := by
    intro i closed
    simp only [acquired, update_apply] at closed
    split at closed
    · contradiction
    · exact closed
  exact ⟨kept.pending, kept.live, kept.pooled, kept.dialing, kept.resolving, kept.waiting, kept.past,
    kept.disposed, fun i shut => kept.quiet i (shut.imp_right (still i)), fun i closed => kept.rest i (still i closed)⟩

theorem keptSettle (kept : l.Kept) {promise : Nat} {stage : OpenStage} {other : κ}
    (opening : l.opening id = some promise) (here : l.opens promise = some (other, stage))
    (settled : stage.settled = true) : (l.settle id).Kept := by
  refine ⟨?_, kept.live, kept.pooled, kept.dialing, kept.resolving, kept.waiting, kept.past,
    kept.disposed, kept.quiet, kept.rest⟩
  intro u i stage' found flying
  have pending := kept.pending u i stage' found flying
  simp only [settle, update_apply]
  split
  · rename_i same
    subst same
    rw [opening] at pending
    cases pending
    cases here.symm.trans found
    rw [settled] at flying
    contradiction
  · exact pending

theorem keptSchedule (kept : l.Kept) (open' : ¬ l.Shut id) (record : Option Reconnect)
    (state : ConnectionState) : (l.schedule id record state).Kept := by
  refine ⟨kept.pending, kept.live, kept.pooled, kept.dialing, kept.resolving, kept.waiting, kept.past,
    kept.disposed, ?_, ?_⟩
  · intro i shut
    have apart : i ≠ id := by
      rintro rfl
      exact open' shut
    simpa [schedule, apart] using kept.quiet i shut
  · intro i closed
    have apart : i ≠ id := by
      rintro rfl
      exact open' (Or.inr closed)
    simpa [schedule, apart, Landed] using kept.rest i closed

theorem keptRestate (kept : l.Kept) {state : ConnectionState}
    (allowed : l.closed id = true → state = .closed) : (l.restate id state).Kept := by
  refine ⟨kept.pending, kept.live, kept.pooled, kept.dialing, kept.resolving, kept.waiting, kept.past,
    kept.disposed, kept.quiet, ?_⟩
  intro i closed
  obtain ⟨state', rest⟩ := kept.rest i closed
  refine ⟨?_, rest⟩
  simp only [restate, update_apply]
  split
  · rename_i same
    subst same
    exact allowed closed
  · exact state'

theorem keptLost (kept : l.Kept) (live : l.heap e = some (id, .live)) : (l.lost id e).Kept := by
  have pooled := kept.live e id live
  refine ⟨kept.pending, ?_, ?_, ?_, ?_, kept.waiting, kept.past, ?_, kept.quiet, ?_⟩
  · intro e' i
    simp only [lost, update_apply]
    grind [kept.live]
  · intro i e'
    simp only [lost, update_apply]
    grind [kept.pooled]
  · intro u i e'
    simp only [lost, update_apply]
    grind [kept.dialing]
  · intro u i
    simp only [lost, update_apply]
    grind [kept.resolving]
  · intro u i e' stage closes
    simp only [lost, update_apply]
    split
    · rfl
    · exact kept.disposed u i e' stage closes
  · intro i closed
    obtain ⟨state, idle, landed⟩ := kept.rest i closed
    refine ⟨state, ?_, landed⟩
    simp only [lost, update_apply]
    split
    · rfl
    · exact idle

omit [DecidableEq κ] in
theorem closesFound {closes : Nat → Option (κ × CloseStage)} {next found : CloseStage} {u : Nat} {i : κ}
    (here : update closes t (some (id, next)) u = some (i, found)) :
    u = t ∧ i = id ∧ found = next ∨ closes u = some (i, found) := by
  rw [update_apply] at here
  split at here
  · rename_i same
    cases here
    exact Or.inl ⟨same, rfl, rfl⟩
  · exact Or.inr here

theorem keptBegin (kept : l.Kept) (t : Nat) (id : κ) : (l.beginClose t id).Kept := by
  refine ⟨kept.pending, kept.live, kept.pooled, kept.dialing, kept.resolving, ?_, ?_, ?_, ?_, kept.rest⟩
  · intro u i p closes v stage found flying
    rcases closesFound closes with ⟨-, rfl, waits⟩ | before
    · have opening := kept.pending v i stage found flying
      rw [opening] at waits
      cases waits
      rfl
    · exact kept.waiting u i p before v stage found flying
  · intro u i stage closes passed
    rcases closesFound closes with ⟨-, rfl, rfl⟩ | before
    · intro v stage' found
      by_contra flying
      have opening := kept.pending v i stage' found (by simpa using flying)
      rw [opening] at passed
      contradiction
    · exact kept.past u i stage before passed
  · intro u i e stage closes
    rcases closesFound closes with ⟨-, rfl, waits⟩ | before
    · split at waits
      · contradiction
      · contradiction
    · exact kept.disposed u i e stage before
  · intro i shut
    simp only [beginClose, update_apply]
    split
    · rfl
    · rename_i apart
      refine kept.quiet i (shut.imp_left ?_)
      rintro ⟨u, stage, closes⟩
      rcases closesFound closes with ⟨-, same, -⟩ | before
      · exact absurd same apart
      · exact ⟨u, stage, before⟩

omit [DecidableEq κ] in
theorem keptClose (kept : l.Kept) {stage next : CloseStage} (here : l.closes t = some (id, stage))
    (landed : l.Landed id) (passed : next.waits = false)
    (idle : ∀ e stage, next = .disposing e stage → l.entries id = none) :
    (l.closeOn t id next).Kept := by
  refine ⟨kept.pending, kept.live, kept.pooled, kept.dialing, kept.resolving, ?_, ?_, ?_, ?_, kept.rest⟩
  · intro u i p closes v stage' found flying
    rcases closesFound closes with ⟨-, rfl, rfl⟩ | before
    · contradiction
    · exact kept.waiting u i p before v stage' found flying
  · intro u i stage' closes past
    rcases closesFound closes with ⟨-, rfl, rfl⟩ | before
    · exact landed
    · exact kept.past u i stage' before past
  · intro u i e stage' closes
    rcases closesFound closes with ⟨-, rfl, same⟩ | before
    · exact idle e stage' same.symm
    · exact kept.disposed u i e stage' before
  · intro i shut
    refine kept.quiet i (shut.imp_left fun ⟨u, stage', closes⟩ => ?_)
    rcases closesFound closes with ⟨-, rfl, -⟩ | before
    · exact ⟨t, stage, here⟩
    · exact ⟨u, stage', before⟩

theorem keptEnd (kept : l.Kept) {stage : CloseStage} (here : l.closes t = some (id, stage))
    (passed : stage.waits = false) (idle : l.entries id = none) : (l.closeEnd t id).Kept := by
  have landed := kept.past t id stage here passed
  have before : ∀ {u i stage'}, (l.closeEnd t id).closes u = some (i, stage') →
      l.closes u = some (i, stage') := by
    intro u i stage' closes
    simp only [closeEnd, update_apply] at closes
    split at closes
    · contradiction
    · exact closes
  refine ⟨kept.pending, kept.live, kept.pooled, kept.dialing, kept.resolving,
    fun u i p closes => kept.waiting u i p (before closes),
    fun u i stage' closes => kept.past u i stage' (before closes),
    fun u i e stage' closes => kept.disposed u i e stage' (before closes), ?_, ?_⟩
  · intro i shut
    apply kept.quiet i
    rcases shut with ⟨u, stage', closes⟩ | closed
    · exact Or.inl ⟨u, stage', before closes⟩
    · simp only [closeEnd, update_apply] at closed
      split at closed
      · rename_i same
        subst same
        exact Or.inl ⟨t, stage, here⟩
      · exact Or.inr closed
  · intro i closed
    by_cases same : i = id
    · subst same
      exact ⟨by simp [closeEnd], idle, landed⟩
    · have closed' : l.closed i = true := by simpa [closeEnd, same] using closed
      obtain ⟨state, rest⟩ := kept.rest i closed'
      exact ⟨by simpa [closeEnd, same] using state, rest⟩

end Closes

end Life

end DatabaseAdmin.ConnectionManager
