import DatabaseAdmin.StepSystem
import Mathlib.Data.List.Infix

/-! The row pump over the driver's stream: one call of `take` at a time, the stream's events in any
order and the rows that go back. -/
namespace DatabaseAdmin.StreamPump
open StepSystem

variable {ρ ε δ : Type}

section Pump

structure Source (ρ : Type) where
  upcoming : List ρ
  buffer : List ρ
  destroyed : Bool
  announced : Bool

structure Pump (ρ ε : Type) where
  pushed : List ρ
  ended : Bool
  failure : Option ε
  waiters : ℕ

structure Take (ρ : Type) where
  want : ℕ
  rows : List ρ
  woken : Bool

inductive Outcome (ρ δ : Type) where
  | returned (want : ℕ) (rows : List ρ) (done : Bool)
  | threw (e : δ)
  deriving DecidableEq

structure State (ρ ε δ : Type) where
  source : Source ρ
  pump : Pump ρ ε
  pending : Option (Take ρ)
  kept : List ρ
  last : Option (Outcome ρ δ)

inductive Event (ε : Type) where
  | arrive
  | readable
  | finish
  | close
  | error (e : ε)
  | destroy
  | take (n : ℕ)
  | resume
  | pushBack (n : ℕ)

def start (rows : List ρ) : State ρ ε δ :=
  ⟨⟨rows, [], false, true⟩, ⟨[], false, none, 0⟩, none, [], none⟩

def wake (s : State ρ ε δ) : State ρ ε δ :=
  if s.pump.waiters = 0 then s
  else { s with pump := { s.pump with waiters := 0 }, pending := s.pending.map fun t => { t with woken := true } }

def exhausted (s : State ρ ε δ) : Bool := s.pump.pushed.isEmpty && s.pump.ended && s.source.buffer.length == 0

inductive Ending where
  | threw | waits | leaves

structure Turn (ρ : Type) where
  pushed : List ρ
  buffer : List ρ
  rows : List ρ
  ending : Ending

def takeLoop (failed ended : Bool) : ℕ → List ρ → List ρ → List ρ → Turn ρ
  | 0, pushed, buffer, rows => ⟨pushed, buffer, rows, .leaves⟩
  | missing + 1, pushed, buffer, rows =>
      if failed then ⟨pushed, buffer, rows, .threw⟩
      else match pushed, buffer with
        | row :: pushed, buffer => takeLoop failed ended missing pushed buffer (rows ++ [row])
        | [], row :: buffer => takeLoop failed ended missing [] buffer (rows ++ [row])
        | [], [] => ⟨[], [], rows, if ended then .leaves else .waits⟩

variable (toDbError : ε → δ)

def threwOf (s : State ρ ε δ) : State ρ ε δ := { s with pending := none, last := s.pump.failure.map fun e => .threw (toDbError e) }

def runTake (s : State ρ ε δ) (want : ℕ) (rows : List ρ) : State ρ ε δ :=
  let turn := takeLoop s.pump.failure.isSome s.pump.ended (want - rows.length) s.pump.pushed s.source.buffer rows
  let read := { s with source := { s.source with buffer := turn.buffer }, pump := { s.pump with pushed := turn.pushed } }
  match turn.ending with
  | .threw => threwOf toDbError read
  | .waits => { read with
      pump := { read.pump with waiters := read.pump.waiters + 1 }
      pending := some ⟨want, turn.rows, false⟩ }
  | .leaves =>
      if s.pump.failure.isSome then threwOf toDbError read
      else { read with
        pending := none
        kept := s.kept ++ turn.rows
        last := some (.returned want turn.rows (exhausted read)) }

def quiet (s : State ρ ε δ) : State ρ ε δ := { s with last := none }

def step (before : State ρ ε δ) (event : Event ε) : Option (State ρ ε δ) :=
  let s := quiet before
  match event with
  | .arrive => match s.source.upcoming with
    | [] => none
    | row :: rest =>
        if s.source.destroyed then none
        else some { s with source := ⟨rest, s.source.buffer ++ [row], false, false⟩ }
  | .readable => some (wake { s with source := { s.source with announced := true } })
  | .finish =>
      if s.source.upcoming = [] ∧ s.source.buffer = [] then some (wake { s with pump := { s.pump with ended := true } }) else none
  | .close => some (wake { s with source := { s.source with destroyed := true }, pump := { s.pump with ended := true } })
  | .error e => some (wake { s with pump := { s.pump with failure := some e, ended := true } })
  | .destroy => some { s with source := { s.source with destroyed := true } }
  | .take n => if s.pending.isSome then none else some (runTake toDbError s n [])
  | .resume => match s.pending with
    | some ⟨want, rows, true⟩ => some (runTake toDbError s want rows)
    | _ => none
  | .pushBack n =>
      if s.pending.isSome ∨ s.kept.length < n then none
      else some { s with
        pump := { s.pump with pushed := s.kept.drop (s.kept.length - n) ++ s.pump.pushed }
        kept := s.kept.take (s.kept.length - n) }

end Pump

section Turns

structure TurnMeets (failed ended : Bool) (missing : ℕ) (pushed buffer rows : List ρ) (turn : Turn ρ) : Prop where
  whole : turn.rows ++ (turn.pushed ++ turn.buffer) = rows ++ (pushed ++ buffer)
  count : turn.rows.length ≤ rows.length + missing
  threw : turn.ending = .threw → failed = true
  waits : turn.ending = .waits → failed = false ∧ ended = false ∧ turn.pushed = [] ∧ turn.buffer = []
  leaves : turn.ending = .leaves →
    turn.rows.length = rows.length + missing ∨ (ended = true ∧ turn.pushed = [] ∧ turn.buffer = [])

theorem turnOne {failed ended : Bool} {missing : ℕ} {row : ρ} {pushed buffer pushed' buffer' rows : List ρ} {turn : Turn ρ}
    (front : pushed ++ buffer = row :: (pushed' ++ buffer'))
    (meets : TurnMeets failed ended missing pushed' buffer' (rows ++ [row]) turn) :
    TurnMeets failed ended (missing + 1) pushed buffer rows turn := by
  have count := meets.count
  have whole := meets.whole
  rw [List.append_assoc, List.singleton_append, ← front] at whole
  rw [List.length_append, List.length_singleton] at count
  refine ⟨whole, by omega, meets.threw, meets.waits, fun left => ?_⟩
  have leaves := meets.leaves left
  rw [List.length_append, List.length_singleton] at leaves
  exact leaves.imp (fun all => by omega) id

theorem turnMeets (failed ended : Bool) (missing : ℕ) (pushed buffer rows : List ρ) :
    TurnMeets failed ended missing pushed buffer rows (takeLoop failed ended missing pushed buffer rows) := by
  induction missing generalizing pushed buffer rows with
  | zero => exact ⟨rfl, le_rfl, nofun, nofun, fun _ => .inl rfl⟩
  | succ missing ih =>
    rw [takeLoop.eq_def]
    dsimp only
    cases failed with
    | true => exact ⟨rfl, Nat.le_add_right _ _, fun _ => rfl, nofun, nofun⟩
    | false =>
      rw [if_neg Bool.false_ne_true]
      cases pushed with
      | cons row pushed => exact turnOne rfl (ih pushed buffer (rows ++ [row]))
      | nil =>
        cases buffer with
        | cons row buffer => exact turnOne rfl (ih [] buffer (rows ++ [row]))
        | nil =>
          refine ⟨rfl, Nat.le_add_right _ _, ?_, ?_, ?_⟩ <;> cases ended <;> simp

end Turns

section Invariant

variable {rows : List ρ} {toDbError : ε → δ} {s s' : State ρ ε δ}

def inFlight (s : State ρ ε δ) : List ρ := (s.pending.map Take.rows).getD []

structure Dry (s : State ρ ε δ) : Prop where
  pushed : s.pump.pushed = []
  buffer : s.source.buffer = []
  upcoming : s.source.destroyed = true ∨ s.source.upcoming = []

structure Ground (rows : List ρ) (s : State ρ ε δ) : Prop where
  kept : s.kept <+: rows
  whole : s.pump.failure = none →
    s.kept ++ (inFlight s ++ (s.pump.pushed ++ s.source.buffer)) ++ s.source.upcoming = rows
  closed : s.pump.ended = true → s.pump.failure = none → s.source.destroyed = true ∨ s.source.upcoming = []
  short : ∀ t ∈ s.pending, t.rows.length ≤ t.want

structure Unsignalled (s : State ρ ε δ) : Prop where
  failure : s.pump.failure = none
  ended : s.pump.ended = false
  pushed : s.pump.pushed = []
  row : s.source.announced = true → s.source.buffer = []

structure Returned (s : State ρ ε δ) (want : ℕ) (taken : List ρ) (done : Bool) : Prop where
  failure : s.pump.failure = none
  most : taken.length ≤ want
  fewer : taken.length < want → Dry s
  done : done = true → Dry s
  given : taken <:+ s.kept

structure Inv (rows : List ρ) (s : State ρ ε δ) : Prop where
  ground : Ground rows s
  listed : ∀ t ∈ s.pending, t.woken = false → s.pump.waiters ≠ 0
  waiting : ∀ t ∈ s.pending, t.woken = false → Unsignalled s
  last : ∀ want taken done, s.last = some (.returned want taken done) → Returned s want taken done

theorem wakeGround (ground : Ground rows s) : Ground rows (wake s) := by
  unfold wake
  split
  · exact ground
  · refine ⟨ground.kept, fun well => ?_, ground.closed, ?_⟩
    · have same : inFlight { s with pump := { s.pump with waiters := 0 }, pending := s.pending.map fun t => { t with woken := true } } =
          inFlight s := by
        cases waits : s.pending <;> simp [inFlight, waits]
      rw [same]
      exact ground.whole well
    · intro t member
      obtain ⟨u, pending, rfl⟩ := Option.map_eq_some_iff.mp member
      exact ground.short u pending

theorem wakeWoken (listed : ∀ t ∈ s.pending, t.woken = false → s.pump.waiters ≠ 0) : ∀ t ∈ (wake s).pending, t.woken = true := by
  unfold wake
  split
  · rename_i none
    intro t member
    cases woken : t.woken with
    | true => rfl
    | false => exact absurd none (listed t member woken)
  · intro t member
    obtain ⟨u, _, rfl⟩ := Option.map_eq_some_iff.mp member
    rfl

theorem wakeInv (ground : Ground rows s) (listed : ∀ t ∈ s.pending, t.woken = false → s.pump.waiters ≠ 0) (quiet : s.last = none) :
    Inv rows (wake s) := by
  have woken := wakeWoken listed
  have still : (wake s).last = none := by
    unfold wake
    split <;> exact quiet
  refine ⟨wakeGround ground, fun t member asleep => ?_, fun t member asleep => ?_, fun want taken done shown => ?_⟩
  · rw [woken t member] at asleep
    contradiction
  · rw [woken t member] at asleep
    contradiction
  · rw [still] at shown
    contradiction

theorem startInv (rows : List ρ) : Inv rows (start rows : State ρ ε δ) where
  ground := ⟨List.nil_prefix, fun _ => rfl, nofun, nofun⟩
  listed := nofun
  waiting := nofun
  last := nofun

theorem threwInv {pushed buffer : List ρ} (ground : Ground rows s) (failed : s.pump.failure.isSome = true) :
    Inv rows (threwOf toDbError { s with source := { s.source with buffer := buffer }, pump := { s.pump with pushed := pushed } }) := by
  obtain ⟨e, failure⟩ := Option.isSome_iff_exists.mp failed
  have lost (ok : s.pump.failure = none) : False := by rw [failure] at ok; contradiction
  refine ⟨⟨ground.kept, fun ok => (lost ok).elim, fun _ ok => (lost ok).elim, nofun⟩, nofun, nofun, fun want taken done shown => ?_⟩
  simp [threwOf, failure] at shown

theorem takeInv {want : ℕ} {taken : List ρ} (ground : Ground rows s) (quiet : s.last = none) (flying : inFlight s = taken)
    (short : taken.length ≤ want) : Inv rows (runTake toDbError s want taken) := by
  have meets := turnMeets s.pump.failure.isSome s.pump.ended (want - taken.length) s.pump.pushed s.source.buffer taken
  rw [runTake]
  generalize takeLoop s.pump.failure.isSome s.pump.ended (want - taken.length) s.pump.pushed s.source.buffer taken = turn at meets ⊢
  have whole (well : s.pump.failure = none) :
      s.kept ++ (turn.rows ++ (turn.pushed ++ turn.buffer)) ++ s.source.upcoming = rows := by
    rw [meets.whole, ← flying]
    exact ground.whole well
  have most : turn.rows.length ≤ want := by
    have count := meets.count
    omega
  cases ending : turn.ending with
  | threw => exact threwInv ground (meets.threw ending)
  | waits =>
    obtain ⟨well, open', pushed, buffer⟩ := meets.waits ending
    have failure : s.pump.failure = none := by simpa using well
    refine ⟨⟨ground.kept, fun well => whole well, ground.closed, ?_⟩, ?_, ?_, ?_⟩
    · intro t member
      cases member
      exact most
    · intro t member _
      exact Nat.succ_ne_zero _
    · intro t member _
      exact ⟨failure, open', pushed, fun _ => buffer⟩
    · intro want' taken' done shown
      rw [show s.last = _ from shown] at quiet
      contradiction
  | leaves =>
    dsimp only
    split
    · rename_i failed
      exact threwInv ground failed
    · rename_i well
      have failure : s.pump.failure = none := by simpa using well
      have closed (ended : s.pump.ended = true) := ground.closed ended failure
      refine ⟨⟨?_, fun _ => ?_, ground.closed, nofun⟩, nofun, nofun, ?_⟩
      · rw [← whole failure, List.append_assoc, List.append_assoc, ← List.append_assoc s.kept]
        exact List.prefix_append _ _
      · simpa [inFlight] using whole failure
      · intro want' taken' done shown
        cases shown
        refine ⟨failure, most, fun fewer => ?_, fun done => ?_, List.suffix_append _ _⟩
        · obtain ⟨ended, pushed, buffer⟩ := (meets.leaves ending).resolve_left (by omega)
          exact ⟨pushed, buffer, closed ended⟩
        · obtain ⟨⟨pushed, ended⟩, buffer⟩ : (turn.pushed = [] ∧ s.pump.ended = true) ∧ turn.buffer = [] := by
            simpa [exhausted] using done
          exact ⟨pushed, buffer, closed ended⟩

theorem resumeFlying {want : ℕ} {taken : List ρ} {woken : Bool} (pending : s.pending = some ⟨want, taken, woken⟩) :
    inFlight s = taken := by
  rw [inFlight, pending]
  rfl

theorem idleFlying (idle : s.pending = none) : inFlight s = [] := by
  rw [inFlight, idle]
  rfl

theorem quietInv (inv : Inv rows s) : Inv rows (quiet s) := by
  refine ⟨⟨inv.ground.kept, inv.ground.whole, inv.ground.closed, inv.ground.short⟩, inv.listed, fun t member asleep => ?_, nofun⟩
  have idle := inv.waiting t member asleep
  exact ⟨idle.failure, idle.ended, idle.pushed, idle.row⟩

theorem arriveInv {row : ρ} {rest : List ρ} (inv : Inv rows s) (next : s.source.upcoming = row :: rest)
    (live : s.source.destroyed = false) (silent : s.last = none) :
    Inv rows { s with source := ⟨rest, s.source.buffer ++ [row], false, false⟩ } := by
  refine ⟨⟨inv.ground.kept, fun well => ?_, fun ended well => ?_, inv.ground.short⟩, inv.listed, fun t member asleep => ?_, ?_⟩
  · have whole := inv.ground.whole well
    rw [next] at whole
    simpa [inFlight, List.append_assoc] using whole
  · rcases inv.ground.closed ended well with destroyed | none
    · rw [live] at destroyed
      contradiction
    · rw [next] at none
      contradiction
  · have idle := inv.waiting t member asleep
    exact ⟨idle.failure, idle.ended, idle.pushed, nofun⟩
  · intro want taken done shown
    rw [show s.last = _ from shown] at silent
    contradiction

theorem pushBackInv {n : ℕ} (inv : Inv rows s) (idle : s.pending = none) (silent : s.last = none) :
    Inv rows { s with
      pump := { s.pump with pushed := s.kept.drop (s.kept.length - n) ++ s.pump.pushed }
      kept := s.kept.take (s.kept.length - n) } := by
  have none' (t : Take ρ) (member : t ∈ s.pending) : False := by
    rw [idle] at member
    contradiction
  refine ⟨⟨(List.take_prefix _ _).trans inv.ground.kept, fun well => ?_, inv.ground.closed, inv.ground.short⟩,
    fun t member => (none' t member).elim, fun t member => (none' t member).elim, ?_⟩
  · have whole := inv.ground.whole well
    rw [idleFlying idle] at whole
    have flying : inFlight { s with
        pump := { s.pump with pushed := s.kept.drop (s.kept.length - n) ++ s.pump.pushed }
        kept := s.kept.take (s.kept.length - n) } = [] := idleFlying idle
    rw [flying, ← whole]
    simp only [List.nil_append, List.append_assoc]
    rw [← List.append_assoc (s.kept.take _), List.take_append_drop]
  · intro want taken done shown
    rw [show s.last = _ from shown] at silent
    contradiction

theorem stepInv {event : Event ε} (inv : Inv rows s) (moved : step toDbError s event = some s') : Inv rows s' := by
  have calm := quietInv inv
  have signalled {next : State ρ ε δ} (ground : Ground rows next) (same : next.pending = s.pending)
      (waiters : next.pump.waiters = s.pump.waiters) (silent : next.last = none) : Inv rows (wake next) :=
    wakeInv ground (by rw [same, waiters]; exact inv.listed) silent
  cases event with
  | arrive =>
    simp only [step] at moved
    split at moved
    · contradiction
    · rename_i row rest next
      split at moved
      · contradiction
      · rename_i live
        cases moved
        exact arriveInv calm next (by simpa using live) rfl
  | readable =>
    cases moved
    exact signalled ⟨calm.ground.kept, calm.ground.whole, calm.ground.closed, calm.ground.short⟩ rfl rfl rfl
  | finish =>
    simp only [step] at moved
    split at moved
    · rename_i dry
      cases moved
      exact signalled ⟨calm.ground.kept, calm.ground.whole, fun _ _ => .inr dry.1, calm.ground.short⟩ rfl rfl rfl
    · contradiction
  | close =>
    cases moved
    exact signalled ⟨calm.ground.kept, calm.ground.whole, fun _ _ => .inl rfl, calm.ground.short⟩ rfl rfl rfl
  | error e =>
    cases moved
    exact signalled ⟨calm.ground.kept, nofun, nofun, calm.ground.short⟩ rfl rfl rfl
  | destroy =>
    cases moved
    refine ⟨⟨calm.ground.kept, calm.ground.whole, fun _ _ => .inl rfl, calm.ground.short⟩, calm.listed,
      fun t member asleep => ?_, nofun⟩
    have idle := calm.waiting t member asleep
    exact ⟨idle.failure, idle.ended, idle.pushed, idle.row⟩
  | take n =>
    simp only [step] at moved
    split at moved
    · contradiction
    · rename_i idle
      cases moved
      exact takeInv calm.ground rfl (idleFlying (by simpa using idle)) (Nat.zero_le n)
  | resume =>
    simp only [step] at moved
    split at moved
    · rename_i want taken pending
      cases moved
      exact takeInv calm.ground rfl (resumeFlying pending) (calm.ground.short _ pending)
    · contradiction
  | pushBack n =>
    simp only [step] at moved
    split at moved
    · contradiction
    · rename_i free
      cases moved
      exact pushBackInv calm (by simpa using (not_or.mp free).1) rfl

end Invariant

section Delivery

variable {rows : List ρ} {toDbError : ε → δ} {s s' : State ρ ε δ}

theorem failedThrows {e : ε} (failed : s.pump.failure = some e) (want : ℕ) (taken : List ρ) :
    (runTake toDbError s want taken).last = some (.threw (toDbError e)) ∧ (runTake toDbError s want taken).pending = none := by
  have meets := turnMeets s.pump.failure.isSome s.pump.ended (want - taken.length) s.pump.pushed s.source.buffer taken
  have flag : s.pump.failure.isSome = true := by rw [failed]; rfl
  rw [runTake]
  generalize takeLoop s.pump.failure.isSome s.pump.ended (want - taken.length) s.pump.pushed s.source.buffer taken = turn at meets ⊢
  cases ending : turn.ending with
  | threw => exact ⟨by simp [threwOf, failed], rfl⟩
  | waits =>
    have well := (meets.waits ending).1
    rw [flag] at well
    contradiction
  | leaves =>
    dsimp only
    rw [if_pos flag]
    exact ⟨by simp [threwOf, failed], rfl⟩

def Call : Event ε → Prop
  | .take _ | .resume => True
  | _ => False

theorem callThrows {e : ε} {event : Event ε} (call : Call event) (failed : s.pump.failure = some e)
    (moved : step toDbError s event = some s') : s'.last = some (.threw (toDbError e)) ∧ s'.pending = none := by
  have same : (quiet s).pump.failure = some e := failed
  cases event with
  | take n =>
    simp only [step] at moved
    split at moved
    · contradiction
    · cases moved
      exact failedThrows same n []
  | resume =>
    simp only [step] at moved
    split at moved
    · cases moved
      exact failedThrows same _ _
    · contradiction
  | _ => contradiction

structure Delivers (toDbError : ε → δ) (rows : List ρ) (s : State ρ ε δ) : Prop where
  kept : s.kept <+: rows
  whole : s.pump.failure = none →
    s.kept ++ (inFlight s ++ (s.pump.pushed ++ s.source.buffer)) ++ s.source.upcoming = rows
  returned : ∀ want taken done, s.last = some (.returned want taken done) → Returned s want taken done
  throws : ∀ e, s.pump.failure = some e → ∀ event s', Call event → step toDbError s event = some s' →
    s'.last = some (.threw (toDbError e)) ∧ s'.pending = none
  waiting : ∀ t ∈ s.pending, t.woken = false → Unsignalled s
  resumes : ∀ t ∈ s.pending, t.woken = true → (step toDbError s .resume).isSome = true

theorem pumpDelivers (events : List (Event ε)) (ran : runSteps (step toDbError) (start rows) events = some s) :
    Delivers toDbError rows s := by
  have inv : Inv rows s := everyRunKeeps (fun held moved => stepInv held moved) (startInv rows) ran
  refine ⟨inv.ground.kept, inv.ground.whole, inv.last, fun e failed event s' call moved => callThrows call failed moved,
    inv.waiting, ?_⟩
  rintro ⟨want, taken, woken⟩ member asleep
  have pending : (quiet s).pending = some ⟨want, taken, woken⟩ := member
  cases asleep
  simp only [step, pending]
  rfl

def shortEvents : List (Event ℕ) :=
  [.take 2, .arrive, .readable, .arrive, .resume, .pushBack 1, .take 4, .arrive, .readable, .resume, .readable, .resume,
    .finish, .resume]

theorem shortStreamDelivered : ∃ s, runSteps (step (id : ℕ → ℕ)) (start ["a", "b", "c"]) shortEvents = some s ∧
    s.last = some (.returned 4 ["b", "c"] true) ∧ Delivers id ["a", "b", "c"] s :=
  ⟨_, rfl, rfl, pumpDelivers shortEvents rfl⟩

end Delivery

end DatabaseAdmin.StreamPump
