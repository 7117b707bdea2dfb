import DatabaseAdmin.ProxyProcess

/-! No child outlives the attempt that spawned it, when no attempt is given up while its child
runs and nobody else waits for that child's end. -/
namespace DatabaseAdmin.ProxyProcess
open StepSystem Function

variable {options : Options} {p p' : Proxy} {c : Nat} {first : Bool}

def Runs (p : Proxy) (c : Nat) : Prop := (p.children c).status = .running

instance (p : Proxy) (c : Nat) : Decidable (Runs p c) := by unfold Runs; infer_instance

def Stage.child : Stage → Nat
  | .waiting c => c
  | .probing c => c
  | .killing c _ => c

def Phase.child : Phase → Option Nat
  | .attempts _ stage => some stage.child
  | _ => none

def Phase.target : Phase → Option Nat
  | .attempts _ (.killing _ target) => some target
  | _ => none

def Over (p : Proxy) : Prop := p.phase = .rejected ∨ p.closed = true ∨ p.phase = .ended

def Tends (options : Options) (p : Proxy) : Action → Prop
  | .deadline => options.readyPattern = .valid → ∀ c ∈ p.phase.child, ¬ Runs p c
  | .probed found => found = false → p.child = none → ∀ c ∈ p.phase.child, ¬ Runs p c
  | .close => (∀ c ∈ p.closing, ¬ Runs p c) ∧ ∀ c ∈ p.phase.target, ¬ Runs p c
  | _ => True

instance (options : Options) (p : Proxy) (a : Action) : Decidable (Tends options p a) := by
  cases a <;> dsimp only [Tends] <;> infer_instance

structure Tended (options : Options) (p : Proxy) : Prop where
  latest : ∀ c, Runs p c → c + 1 = p.spawned
  unexited : ∀ c, (p.children c).status = .killed → (p.children c).attempt ≠ .failed → p.stopped = true
  failed : ∀ c, (p.children c).attempt = .failed → ¬ Runs p c
  owned : ∀ c, Runs p c → p.phase = .started ∨ p.phase.child = some c
  staged : ∀ c, p.phase.child = some c → c + 1 = p.spawned ∧ (p.children c).attempt = .underway
  aimed : ∀ c, p.phase.target = some c → p.phase.child = some c ∧ p.child = none
  current : ∀ c, p.child = some c → c + 1 = p.spawned ∧ p.stopped = false
  reached : ∀ c, Runs p c → p.stopped = false → p.child = some c ∨ p.phase.target = some c
  closes : ∀ c, Runs p c → p.stopped = true → p.closing = some c
  closing : ∀ c, p.closing = some c → p.stopped = true ∧ c + 1 = p.spawned
  closed : p.closed = true → p.stopped = true ∧ ∀ c, ¬ Runs p c
  compiles : p.phase ≠ .rejected → options.readyPattern ≠ .invalid

structure Quiet (p : Proxy) : Prop where
  still : ∀ c, ¬ Runs p c
  unexited : ∀ c, (p.children c).status = .killed → (p.children c).attempt ≠ .failed → p.stopped = true
  current : ∀ c, p.child = some c → c + 1 = p.spawned ∧ p.stopped = false
  closing : ∀ c, p.closing = some c → p.stopped = true ∧ c + 1 = p.spawned
  closed : p.closed = true → p.stopped = true

theorem quietSame (quiet : Quiet p) (children : p'.children = p.children) (spawned : p'.spawned = p.spawned)
    (child : p'.child = p.child) (stopped : p'.stopped = p.stopped) (closing : p'.closing = p.closing)
    (closed : p'.closed = p.closed) : Quiet p' := by
  constructor
  · simpa only [Runs, children] using quiet.still
  · simpa only [children, stopped] using quiet.unexited
  · simpa only [child, spawned, stopped] using quiet.current
  · simpa only [closing, spawned, stopped] using quiet.closing
  · simpa only [closed, stopped] using quiet.closed

theorem tendedQuiet (quiet : Quiet p) (staged : p.phase.child = none) (aimed : p.phase.target = none)
    (compiles : p.phase ≠ .rejected → options.readyPattern ≠ .invalid) : Tended options p := by
  constructor
  · exact fun c runs => absurd runs (quiet.still c)
  · exact quiet.unexited
  · exact fun c _ => quiet.still c
  · exact fun c runs => absurd runs (quiet.still c)
  · simp [staged]
  · simp [aimed]
  · exact quiet.current
  · exact fun c runs => absurd runs (quiet.still c)
  · exact fun c runs => absurd runs (quiet.still c)
  · exact quiet.closing
  · exact fun passed => ⟨quiet.closed passed, quiet.still⟩
  · exact compiles

theorem quietTended (tended : Tended options p) (still : ∀ c, ¬ Runs p c) : Quiet p :=
  ⟨still, tended.unexited, tended.current, tended.closing, fun passed => (tended.closed passed).1⟩

theorem onlyLatest (tended : Tended options p) (staged : p.phase.child = some c) {i : Nat}
    (runs : Runs p i) : i = c := by
  have := tended.latest i runs
  have := (tended.staged c staged).1
  omega

theorem stillWhere (tended : Tended options p) (staged : p.phase.child = some c) (gone : ¬ Runs p c)
    (i : Nat) : ¬ Runs p i := by
  intro runs
  cases onlyLatest tended staged runs
  exact gone runs

theorem tendedLoop (quiet : Quiet p) (compiles : options.readyPattern ≠ .invalid) :
    Tended options (loop p) := by
  unfold loop
  split
  · exact tendedQuiet (quietSame quiet rfl rfl rfl rfl rfl rfl) rfl rfl fun _ => compiles
  · exact tendedQuiet (quietSame quiet rfl rfl rfl rfl rfl rfl) rfl rfl fun _ => compiles

theorem tendedReject (quiet : Quiet p) (compiles : options.readyPattern ≠ .invalid) (first : Bool) :
    Tended options (reject p first) := by
  unfold reject
  split
  · exact tendedQuiet (quietSame quiet rfl rfl rfl rfl rfl rfl) rfl rfl fun _ => compiles
  · exact tendedLoop quiet compiles

theorem quietConcludes (quiet : Quiet p) (c : Nat) : Quiet (concludes p c .failed) := by
  have still := quiet.still
  have unexited := quiet.unexited
  constructor
  · intro i
    have := still i
    simp only [Runs, concludes, update_apply] at this ⊢
    grind
  · intro i
    have := unexited i
    simp only [concludes, update_apply] at this ⊢
    grind
  · exact quiet.current
  · exact quiet.closing
  · exact quiet.closed

theorem tendedFails (quiet : Quiet p) (compiles : options.readyPattern ≠ .invalid) (first : Bool)
    (c : Nat) : Tended options (fails p first c) :=
  tendedReject (quietConcludes quiet c) compiles first

theorem tendedSucceeds (tended : Tended options p) (staged : p.phase = .attempts first (.probing c) ∨
    p.phase = .attempts first (.waiting c)) : Tended options (succeeds p first c) := by
  have here : p.phase.child = some c := by
    rcases staged with staged | staged <;> simp [staged, Phase.child, Stage.child]
  have aimless : p.phase.target = none := by
    rcases staged with staged | staged <;> simp [staged, Phase.target]
  have compiles := tended.compiles (by rcases staged with staged | staged <;> simp [staged])
  have runs : ∀ i, Runs (succeeds p first c) i ↔ Runs p i := by
    intro i
    simp only [Runs, succeeds, concludes, update_apply]
    split <;> simp_all
  constructor
  · exact fun i ran => tended.latest i ((runs i).mp ran)
  · intro i killed
    have := tended.unexited i
    have := (tended.staged c here).2
    simp only [succeeds, concludes, update_apply] at killed ⊢
    grind
  · intro i
    have := tended.failed i
    rw [runs]
    simp only [succeeds, concludes, update_apply]
    grind
  · exact fun i _ => Or.inl rfl
  · simp [succeeds, Phase.child]
  · simp [succeeds, Phase.target]
  · exact tended.current
  · intro i ran going
    have reached := tended.reached i ((runs i).mp ran) going
    rw [aimless] at reached
    exact Or.inl (reached.resolve_right (by simp))
  · exact fun i ran stopped => tended.closes i ((runs i).mp ran) stopped
  · exact tended.closing
  · exact fun passed => ⟨(tended.closed passed).1, fun i ran => (tended.closed passed).2 i ((runs i).mp ran)⟩
  · exact fun _ => compiles

theorem tendedFinish (tended : Tended options p) (staged : p.phase = .attempts first (.waiting c)) :
    Tended options (finish options p first c) := by
  unfold finish
  split
  · have here : p.phase.child = some c := by simp [staged, Phase.child, Stage.child]
    have aimless : p.phase.target = none := by simp [staged, Phase.target]
    refine ⟨tended.latest, tended.unexited, tended.failed, fun i runs => ?_, fun i probed => ?_,
      by simp [Phase.target], tended.current, fun i runs going => ?_, tended.closes, tended.closing,
      tended.closed, fun _ => tended.compiles (by simp [staged])⟩
    · cases onlyLatest tended here runs
      exact Or.inr rfl
    · cases Option.some.inj probed
      exact tended.staged c here
    · have reached := tended.reached i runs going
      rw [aimless] at reached
      exact Or.inl (reached.resolve_right (by simp))
  · exact tendedSucceeds tended (Or.inr staged)

theorem runsLoop (p : Proxy) (i : Nat) : Runs (loop p) i ↔ Runs p i := by
  unfold loop
  split <;> rfl

theorem runsFails (p : Proxy) (first : Bool) (c i : Nat) : Runs (fails p first c) i ↔ Runs p i := by
  have kept : Runs (concludes p c .failed) i ↔ Runs p i := by
    simp only [Runs, concludes, update_apply]
    split <;> simp_all
  unfold fails reject
  split
  · exact kept
  · exact (runsLoop _ i).trans kept

theorem tendedBecomes (tended : Tended options p) (c : Nat) (status : Status) (dead : status ≠ .running)
    (stopped : status = .killed → p.stopped = true) : Tended options (becomes p c status) := by
  have runs : ∀ i, Runs (becomes p c status) i → Runs p i := by
    intro i
    simp only [Runs, becomes, update_apply]
    split <;> simp_all
  have attempts : ∀ i, ((becomes p c status).children i).attempt = (p.children i).attempt := by
    intro i
    simp only [becomes, update_apply]
    split <;> simp_all
  constructor
  · exact fun i ran => tended.latest i (runs i ran)
  · intro i killed unfailed
    rw [attempts] at unfailed
    simp only [becomes, update_apply] at killed
    split at killed
    · exact stopped killed
    · exact tended.unexited i killed unfailed
  · exact fun i failed ran => tended.failed i (attempts i ▸ failed) (runs i ran)
  · exact fun i ran => tended.owned i (runs i ran)
  · exact fun i staged => ⟨(tended.staged i staged).1, (attempts i).trans (tended.staged i staged).2⟩
  · exact tended.aimed
  · exact tended.current
  · exact fun i ran => tended.reached i (runs i ran)
  · exact fun i ran => tended.closes i (runs i ran)
  · exact tended.closing
  · exact fun passed => ⟨(tended.closed passed).1, fun i ran => (tended.closed passed).2 i (runs i ran)⟩
  · exact tended.compiles

theorem tendedClosed (tended : Tended options p) (closing : p.closing = some c) (gone : ¬ Runs p c) :
    Tended options { p with closing := none, closed := true } := by
  have stopped := (tended.closing c closing).1
  have still : ∀ i, ¬ Runs p i := by
    intro i runs
    cases closing.symm.trans (tended.closes i runs stopped)
    exact gone runs
  refine ⟨tended.latest, tended.unexited, tended.failed, tended.owned, tended.staged, tended.aimed,
    tended.current, tended.reached, fun i runs => absurd runs (still i), by simp, fun _ => ⟨stopped, still⟩,
    tended.compiles⟩

theorem tendedExits (tended : Tended options p) (gone : ¬ Runs p c) : Tended options (exits p c) := by
  unfold exits
  split
  · rename_i staged
    split
    · rename_i same
      subst same
      exact tendedFails (quietTended tended (stillWhere tended (by simp [staged, Phase.child, Stage.child]) gone))
        (tended.compiles (by simp [staged])) _ _
    · exact tended
  · rename_i d target staged
    split
    · rename_i same
      subst same
      have child : p.phase.child = some target := (tended.aimed target (by simp [staged, Phase.target])).1
      exact tendedFails (quietTended tended (stillWhere tended child gone))
        (tended.compiles (by simp [staged])) _ _
    · exact tended
  · exact tended

theorem exitsElsewhere (tended : Tended options p) (attempt : (p.children c).attempt ≠ .underway) :
    exits p c = p := by
  unfold exits
  split
  · rename_i staged
    refine if_neg fun same => attempt ?_
    subst same
    exact (tended.staged _ (by simp [staged, Phase.child, Stage.child])).2
  · rename_i staged
    refine if_neg fun same => attempt ?_
    subst same
    exact (tended.staged _ (tended.aimed _ (by simp [staged, Phase.target])).1).2
  · rfl

theorem tendedOnExit (tended : Tended options p) (still : p.stopped = false → ∀ i, ¬ Runs p i) :
    Tended options (onExit p) := by
  unfold onExit
  split
  · exact tended
  · rename_i going
    have quiet := quietTended tended (still (Bool.not_eq_true _ ▸ going))
    have quiet' : Quiet { p with ready := false } := quietSame quiet rfl rfl rfl rfl rfl rfl
    have same : Tended options { p with ready := false } :=
      ⟨tended.latest, tended.unexited, tended.failed, tended.owned, tended.staged, tended.aimed,
        tended.current, tended.reached, tended.closes, tended.closing, tended.closed, tended.compiles⟩
    dsimp only
    split
    · rename_i started
      exact tendedLoop quiet' (tended.compiles (by simp [started]))
    · rename_i ended
      exact tendedLoop quiet' (tended.compiles (by simp [ended]))
    · exact same

theorem runsExits (p : Proxy) (c i : Nat) : Runs (exits p c) i ↔ Runs p i := by
  unfold exits
  split
  · split
    · exact runsFails ..
    · rfl
  · split
    · exact runsFails ..
    · rfl
  · rfl

theorem runsOnExit (p : Proxy) (i : Nat) : Runs (onExit p) i ↔ Runs p i := by
  unfold onExit
  split
  · rfl
  · dsimp only
    split
    · exact runsLoop ..
    · exact runsLoop ..
    · rfl

theorem tendedExit (tended : Tended options p)
    (unexited : Runs p c ∨ (p.children c).status = .killed) (bySignal : Bool) :
    Tended options (exit p c bySignal) := by
  let q := becomes p c (.exited bySignal)
  let r := if (p.children c).attempt = .succeeded then onExit (exits q c) else exits q c
  have tended' : Tended options q := tendedBecomes tended c _ (by simp) (by simp)
  have gone : ¬ Runs q c := by simp [Runs, q, becomes]
  have heard : Tended options r ∧ ¬ Runs r c := by
    simp only [r]
    split
    · rename_i succeeded
      have same : exits q c = q := by
        refine exitsElsewhere tended' ?_
        simp [q, becomes, succeeded]
      rw [same]
      refine ⟨tendedOnExit tended' fun going i runs => ?_, (runsOnExit q c).not.mpr gone⟩
      have alive : Runs p c := by
        refine unexited.resolve_right fun killed => ?_
        have stopped := tended.unexited c killed (by simp [succeeded])
        exact absurd (stopped.symm.trans going) (by decide)
      have latest := tended.latest c alive
      have latest' : i + 1 = p.spawned := tended'.latest i runs
      have same : i = c := by omega
      exact gone (same ▸ runs)
    · exact ⟨tendedExits tended' gone, (runsExits q c c).not.mpr gone⟩
  have done : exit p c bySignal
      = if r.closing = some c then { r with closing := none, closed := true } else r := rfl
  rw [done]
  split
  · rename_i closing
    exact tendedClosed heard.1 closing heard.2
  · exact heard.1

theorem tendedGrace {target : Nat} (tended : Tended options p)
    (staged : p.phase = .attempts first (.killing c target)) :
    Tended options (fails (kill p target) first c) := by
  have child : p.phase.child = some c := by simp [staged, Phase.child, Stage.child]
  have aimed := (tended.aimed target (by simp [staged, Phase.target])).1
  cases child.symm.trans aimed
  have compiles := tended.compiles (by simp [staged])
  unfold kill
  split
  · refine tendedReject ?_ compiles first
    have gone : ∀ i, ¬ Runs (concludes (becomes p c .killed) c .failed) i := by
      intro i runs
      simp only [Runs, concludes, becomes, update_apply] at runs
      split at runs
      · simp at runs
      · rename_i apart
        exact apart (onlyLatest tended child (by simpa [Runs, apart] using runs))
    refine ⟨gone, fun i killed unfailed => ?_, tended.current, tended.closing,
      fun passed => (tended.closed passed).1⟩
    have := tended.unexited i
    simp only [concludes, becomes, update_apply] at killed unfailed ⊢
    grind
  · rename_i gone
    exact tendedFails (quietTended tended (stillWhere tended child gone)) compiles first c

theorem tendedKill (tended : Tended options p) (closing : p.closing = some c) :
    Tended options { kill p c with closing := none, closed := true } := by
  unfold kill
  split
  · have killed := tendedBecomes tended c .killed (by decide) fun _ =>
      (tended.closing c closing).1
    exact tendedClosed killed closing (by simp [Runs, becomes])
  · rename_i gone
    exact tendedClosed tended closing gone

theorem tendedSpawn (quiet : Quiet p) (going : p.stopped = false)
    (compiles : options.readyPattern ≠ .invalid) (first : Bool) :
    Tended options { spawn p with phase := .attempts first (.waiting p.spawned) } := by
  have running : ∀ i, Runs (spawn p) i → i = p.spawned := by
    intro i runs
    simp only [Runs, spawn, update_apply] at runs
    split at runs
    · assumption
    · exact absurd runs (quiet.still i)
  constructor
  · exact fun i runs => congrArg (· + 1) (running i runs)
  · intro i
    have := quiet.unexited i
    simp only [spawn, update_apply]
    grind
  · intro i failed runs
    have same := running i runs
    simp [spawn, same] at failed
  · intro i runs
    exact Or.inr (congrArg some (running i runs).symm)
  · intro i child
    cases Option.some.inj child
    exact ⟨rfl, by simp [spawn, Stage.child]⟩
  · simp [Phase.target]
  · intro i child
    cases Option.some.inj child
    exact ⟨rfl, going⟩
  · intro i runs _
    exact Or.inl (congrArg some (running i runs).symm)
  · intro i _ stopped
    exact absurd (stopped.symm.trans going) (by decide)
  · intro i closing
    exact absurd ((quiet.closing i closing).1.symm.trans going) (by decide)
  · intro passed
    exact absurd ((quiet.closed passed).symm.trans going) (by decide)
  · exact fun _ => compiles

theorem tendedSpawnAndWait (quiet : Quiet p) (going : p.stopped = false) {spawned : Bool}
    (compiles : first = false ∨ spawned = true → options.readyPattern ≠ .invalid) :
    Tended options (spawnAndWait options p first spawned) := by
  have quiet' : Quiet { p with ready := false } := quietSame quiet rfl rfl rfl rfl rfl rfl
  unfold spawnAndWait
  dsimp only
  split
  · rename_i started
    split
    · rename_i invalid
      exact absurd invalid (compiles (Or.inr started))
    · exact tendedSpawn quiet' going (compiles (Or.inr started)) first
  · cases first with
    | true => exact tendedQuiet (quietSame quiet rfl rfl rfl rfl rfl rfl) rfl rfl (by simp [reject])
    | false => exact tendedReject quiet' (compiles (Or.inl rfl)) false

theorem tendedProbed {found : Bool} (tended : Tended options p) (tends : Tends options p (.probed found))
    (moved : step options p (.probed found) = some p') : Tended options p' := by
  simp only [step] at moved
  split at moved
  · rename_i first c staged
    have child : p.phase.child = some c := by simp [staged, Phase.child, Stage.child]
    have compiles := tended.compiles (by simp [staged])
    have dropped : (∀ i, ¬ Runs p i) → Quiet { p with child := none } := fun still =>
      ⟨still, tended.unexited, by simp, tended.closing, fun passed => (tended.closed passed).1⟩
    split at moved
    · cases moved
      exact tendedSucceeds tended (Or.inl staged)
    · rename_i lost
      split at moved <;> cases moved
      · rename_i unkilled
        simp only [killChild, Option.filter_eq_none_iff] at unkilled
        refine tendedFails (dropped (stillWhere tended child fun runs => ?_)) compiles first c
        cases held : p.child with
        | none => exact tends (by simpa using lost) held c child runs
        | some d =>
          have same : d = c := by
            have := (tended.current d held).1
            have := (tended.staged c child).1
            omega
          have dead := unkilled d held
          rw [same] at dead
          simp only [Runs] at runs
          simp [runs] at dead
      · rename_i target aimed
        simp only [killChild, Option.filter_eq_some_iff] at aimed
        have same : target = c := by
          have := (tended.current target aimed.1).1
          have := (tended.staged c child).1
          omega
        subst same
        refine ⟨tended.latest, tended.unexited, tended.failed, fun i runs => ?_, fun i child' => ?_,
          fun i aimed' => ⟨aimed', rfl⟩, by simp [killChild], fun i runs _ => ?_, tended.closes,
          tended.closing, tended.closed, fun _ => compiles⟩
        · exact Or.inr (congrArg some (onlyLatest tended child runs).symm)
        · cases Option.some.inj child'
          exact tended.staged target child
        · exact Or.inr (congrArg some (onlyLatest tended child runs).symm)
  · cases moved

theorem tendedClose (tended : Tended options p) (tends : Tends options p .close) :
    Tended options (close p) := by
  unfold close
  split
  · rename_i stopped
    have still : ∀ i, ¬ Runs p i := fun i runs => tends.1 i (tended.closes i runs stopped) runs
    exact ⟨tended.latest, tended.unexited, tended.failed, tended.owned, tended.staged, tended.aimed,
      tended.current, tended.reached, tended.closes, tended.closing, fun _ => ⟨stopped, still⟩,
      tended.compiles⟩
  · rename_i going
    simp only [Bool.not_eq_true] at going
    have held : ∀ i, Runs p i → p.child = some i := fun i runs =>
      (tended.reached i runs going).resolve_right fun aimed => tends.2 i aimed runs
    dsimp only
    split
    · rename_i unkilled
      simp only [killChild, Option.filter_eq_none_iff] at unkilled
      have still : ∀ i, ¬ Runs p i := by
        intro i runs
        have dead := unkilled i (held i runs)
        simp only [Runs] at runs
        simp [runs] at dead
      exact ⟨tended.latest, fun _ _ _ => rfl, tended.failed, tended.owned, tended.staged,
        fun i aimed => ⟨(tended.aimed i aimed).1, rfl⟩, by simp [killChild], by simp [killChild],
        fun i runs => absurd runs (still i), fun i closing => ⟨rfl, (tended.closing i closing).2⟩,
        fun _ => ⟨rfl, still⟩, tended.compiles⟩
    · rename_i c aimed
      simp only [killChild, Option.filter_eq_some_iff] at aimed
      refine ⟨tended.latest, fun _ _ _ => rfl, tended.failed, tended.owned, tended.staged,
        fun i aimed => ⟨(tended.aimed i aimed).1, rfl⟩, by simp [killChild], by simp [killChild],
        fun i runs _ => (aimed.1.symm.trans (held i runs)), fun i closing => ?_, fun passed => ?_,
        tended.compiles⟩
      · cases Option.some.inj closing
        exact ⟨rfl, (tended.current _ aimed.1).1⟩
      · exact absurd ((tended.closed passed).1.symm.trans going) (by decide)

theorem tendedStep {a : Action} (tended : Tended options p) (tends : Tends options p a)
    (moved : step options p a = some p') : Tended options p' := by
  cases a with
  | exit c bySignal =>
    simp only [step] at moved
    split at moved
    · rename_i running
      cases moved
      exact tendedExit tended (Or.inl running) bySignal
    · rename_i killed
      cases moved
      exact tendedExit tended (Or.inr killed) true
    · cases moved
  | spawnError =>
    simp only [step] at moved
    split at moved
    · rename_i first c staged
      have child : p.phase.child = some c := by simp [staged, Phase.child, Stage.child]
      split at moved <;> cases moved
      have tended' := tendedBecomes tended c (.exited false) (by simp) (by simp)
      exact tendedFails (quietTended tended' (stillWhere tended' child (by simp [Runs, becomes])))
        (tended.compiles (by simp [staged])) first c
    · cases moved
  | output ready =>
    simp only [step] at moved
    split at moved
    · rename_i first c staged
      split at moved <;> cases moved
      · exact tendedFinish tended staged
      · exact tended
    · cases moved
      exact tended
  | deadline =>
    simp only [step] at moved
    split at moved
    · rename_i first c staged
      have child : p.phase.child = some c := by simp [staged, Phase.child, Stage.child]
      have compiles := tended.compiles (by simp [staged])
      split at moved <;> cases moved
      · exact tendedFinish tended staged
      · rename_i given
        have valid : options.readyPattern = .valid := by
          cases pattern : options.readyPattern with
          | absent => exact absurd pattern given
          | valid => rfl
          | invalid => exact absurd pattern compiles
        exact tendedFails (quietTended tended (stillWhere tended child (tends valid c child))) compiles first c
    · cases moved
  | probed found => exact tendedProbed tended tends moved
  | grace =>
    simp only [step] at moved
    split at moved <;> cases moved
    rename_i staged
    exact tendedGrace tended staged
  | wake spawned =>
    simp only [step] at moved
    split at moved
    · rename_i staged
      have still : ∀ i, ¬ Runs p i := fun i runs => by
        have := tended.owned i runs
        simp [staged, Phase.child] at this
      split at moved <;> cases moved
      · exact tendedQuiet (quietSame (quietTended tended still) rfl rfl rfl rfl rfl rfl) rfl rfl
          fun _ => tended.compiles (by simp [staged])
      · rename_i going
        exact tendedSpawnAndWait (quietTended tended still) (by simpa using going)
          fun _ => tended.compiles (by simp [staged])
    · cases moved
  | close =>
    simp only [step] at moved
    split at moved <;> cases moved
    exact tendedClose tended tends
  | closeGrace =>
    simp only [step] at moved
    split at moved <;> cases moved
    rename_i closing
    exact tendedKill tended closing

theorem tendedStart {spawned : Bool}
    (compiles : begins options spawned = true → options.readyPattern ≠ .invalid) :
    Tended options (start options spawned) := by
  have quiet : Quiet fresh := by constructor <;> simp [fresh, Runs]
  unfold start
  split
  · rename_i named
    refine tendedSpawnAndWait quiet rfl fun started => compiles ?_
    rw [begins, named, started.resolve_left (by decide)]
    rfl
  · exact tendedQuiet quiet rfl rfl (by simp [fresh])

theorem overStill (tended : Tended options p) (passed : Over p) (i : Nat) : ¬ Runs p i := by
  intro runs
  rcases passed with rejected | closed | ended
  · have := tended.owned i runs
    simp [rejected, Phase.child] at this
  · exact (tended.closed closed).2 i runs
  · have := tended.owned i runs
    simp [ended, Phase.child] at this

@[simp] theorem loopCounts (p : Proxy) : (loop p).spawned = p.spawned ∧ (loop p).closed = p.closed := by
  unfold loop
  split <;> exact ⟨rfl, rfl⟩

@[simp] theorem failsCounts (p : Proxy) (first : Bool) (c : Nat) :
    (fails p first c).spawned = p.spawned ∧ (fails p first c).closed = p.closed := by
  unfold fails reject
  split
  · exact ⟨rfl, rfl⟩
  · exact loopCounts _

@[simp] theorem finishCounts (p : Proxy) (first : Bool) (c : Nat) :
    (finish options p first c).spawned = p.spawned ∧ (finish options p first c).closed = p.closed := by
  unfold finish
  split <;> exact ⟨rfl, rfl⟩

@[simp] theorem killCounts (p : Proxy) (c : Nat) :
    (kill p c).spawned = p.spawned ∧ (kill p c).closed = p.closed := by
  unfold kill
  split <;> exact ⟨rfl, rfl⟩

@[simp] theorem exitsCounts (p : Proxy) (c : Nat) :
    (exits p c).spawned = p.spawned ∧ (exits p c).closed = p.closed := by
  unfold exits
  split
  · split <;> simp
  · split <;> simp
  · simp

@[simp] theorem onExitCounts (p : Proxy) :
    (onExit p).spawned = p.spawned ∧ (onExit p).closed = p.closed := by
  unfold onExit
  split
  · simp
  · dsimp only
    split <;> simp

theorem exitCounts (p : Proxy) (c : Nat) (bySignal : Bool) : (exit p c bySignal).spawned = p.spawned
    ∧ (p.closed = true → (exit p c bySignal).closed = true) := by
  unfold exit
  dsimp only
  split <;> split <;> simp [becomes]

theorem closeCounts (p : Proxy) : (close p).spawned = p.spawned
    ∧ (p.closed = true → (close p).closed = true) := by
  unfold close
  split
  · simp
  · dsimp only
    split <;> simp [killChild]

theorem stepCounts {a : Action} (moved : step options p a = some p') :
    (p.phase ≠ .sleeping ∨ p.stopped = true → p'.spawned = p.spawned)
      ∧ (p.closed = true → p.stopped = true → p'.closed = true) := by
  cases a with
  | exit c bySignal =>
    simp only [step] at moved
    split at moved <;> cases moved
    · exact ⟨fun _ => (exitCounts ..).1, fun closed _ => (exitCounts ..).2 closed⟩
    · exact ⟨fun _ => (exitCounts ..).1, fun closed _ => (exitCounts ..).2 closed⟩
  | spawnError =>
    simp only [step] at moved
    split at moved
    · split at moved <;> cases moved
      exact ⟨fun _ => (failsCounts ..).1, fun closed _ => (failsCounts ..).2.trans closed⟩
    · cases moved
  | output ready =>
    simp only [step] at moved
    split at moved
    · split at moved <;> cases moved
      · exact ⟨fun _ => (finishCounts ..).1, fun closed _ => (finishCounts ..).2.trans closed⟩
      · exact ⟨fun _ => rfl, fun closed _ => closed⟩
    · cases moved
      exact ⟨fun _ => rfl, fun closed _ => closed⟩
  | deadline =>
    simp only [step] at moved
    split at moved
    · split at moved <;> cases moved <;> simp +contextual
    · cases moved
  | probed found =>
    simp only [step] at moved
    split at moved
    · split at moved
      · cases moved
        simp +contextual [succeeds, concludes]
      · split at moved <;> cases moved <;> simp +contextual [killChild]
    · cases moved
  | grace =>
    simp only [step] at moved
    split at moved <;> cases moved
    simp +contextual
  | wake spawned =>
    simp only [step] at moved
    split at moved
    · rename_i staged
      split at moved <;> cases moved
      · simp +contextual
      · rename_i going
        simp [staged, going]
    · cases moved
  | close =>
    simp only [step] at moved
    split at moved <;> cases moved
    exact ⟨fun _ => (closeCounts p).1, fun closed _ => (closeCounts p).2 closed⟩
  | closeGrace =>
    simp only [step] at moved
    split at moved <;> cases moved
    simp

theorem overExits (tended : Tended options p) (passed : p.phase = .rejected ∨ p.phase = .ended)
    (unexited : (p.children c).status = .running ∨ (p.children c).status = .killed) (bySignal : Bool) :
    (exit p c bySignal).phase = p.phase := by
  have outside : exits (becomes p c (.exited bySignal)) c = becomes p c (.exited bySignal) := by
    rcases passed with phase | phase <;> simp [exits, becomes, phase]
  have gone : ¬ Runs p c := overStill tended (by rcases passed with phase | phase <;> simp [Over, phase]) c
  have killed := unexited.resolve_left gone
  have heard : (p.children c).attempt = .succeeded → p.stopped = true := fun succeeded =>
    tended.unexited c killed (by simp [succeeded])
  have same : (p.children c).attempt = .succeeded →
      onExit (becomes p c (.exited bySignal)) = becomes p c (.exited bySignal) := fun succeeded =>
    if_pos (heard succeeded)
  unfold exit
  rw [outside]
  dsimp only
  split <;> split <;> simp_all [becomes]

theorem overStep {a : Action} (tended : Tended options p) (passed : Over p)
    (moved : step options p a = some p') : Over p' ∧ p'.spawned = p.spawned := by
  have counts := stepCounts moved
  have over' : p.closed = true ∨ p.phase = .rejected ∨ p.phase = .ended := or_left_comm.mp passed
  rcases over' with closed | passed
  · have stopped := (tended.closed closed).1
    exact ⟨Or.inr (Or.inl (counts.2 closed stopped)), counts.1 (Or.inr stopped)⟩
  · have awake : p.phase ≠ .sleeping := by rcases passed with phase | phase <;> simp [phase]
    refine ⟨?_, counts.1 (Or.inl awake)⟩
    have kept : p'.phase = p.phase := by
      cases a with
      | exit c bySignal =>
        simp only [step] at moved
        split at moved
        · rename_i running
          cases moved
          exact overExits tended passed (Or.inl running) bySignal
        · rename_i killed
          cases moved
          exact overExits tended passed (Or.inr killed) true
        · cases moved
      | close =>
        have stays : (close p).phase = p.phase := by
          unfold close
          split
          · rfl
          · dsimp only
            split <;> rfl
        simp only [step] at moved
        split at moved <;> cases moved
        exact stays
      | closeGrace =>
        simp only [step] at moved
        split at moved <;> cases moved
        unfold kill
        split <;> rfl
      | _ => rcases passed with phase | phase <;> simp_all [step]
    rcases passed with phase | phase
    · exact Or.inl (kept.trans phase)
    · exact Or.inr (Or.inr (kept.trans phase))

theorem tendsKeeps {acts : List Action} (tended : Tended options p)
    (tends : Along (Tends options) (step options) p acts)
    (ran : runSteps (step options) p acts = some p') : Tended options p' :=
  runKeeps tendedStep tended tends ran

theorem overStays {acts : List Action} (tended : Tended options p) (passed : Over p)
    (tends : Along (Tends options) (step options) p acts)
    (ran : runSteps (step options) p acts = some p') : Over p' ∧ p'.spawned = p.spawned := by
  have keeps : ∀ {q a q'}, (Tended options q ∧ Over q ∧ q.spawned = p.spawned) → Tends options q a →
      step options q a = some q' → Tended options q' ∧ Over q' ∧ q'.spawned = p.spawned := by
    intro q a q' ⟨tended, passed, same⟩ tends moved
    have still := overStep tended passed moved
    exact ⟨tendedStep tended tends moved, still.1, still.2.trans same⟩
  exact (runKeeps keeps ⟨tended, passed, rfl⟩ tends ran).2

theorem proxiesNeverOrphaned {spawned : Bool} {acts later : List Action}
    (compiles : begins options spawned = true → options.readyPattern ≠ .invalid)
    (ran : runSteps (step options) (start options spawned) acts = some p)
    (ran' : runSteps (step options) p later = some p')
    (tends : Along (Tends options) (step options) (start options spawned) acts)
    (tends' : Along (Tends options) (step options) p later) :
    (∀ c d, Runs p c → Runs p d → c = d) ∧ (∀ c, (p.children c).attempt = .failed → ¬ Runs p c)
      ∧ (Over p → p'.spawned = p.spawned ∧ ∀ c, ¬ Runs p c ∧ ¬ Runs p' c) := by
  have tended : Tended options p := tendsKeeps (tendedStart compiles) tends ran
  have tended' : Tended options p' := tendsKeeps tended tends' ran'
  refine ⟨fun c d runs runs' => ?_, tended.failed, fun passed => ?_⟩
  · have := tended.latest c runs
    have := tended.latest d runs'
    omega
  · have still := overStays tended passed tends' ran'
    exact ⟨still.2, fun c => ⟨overStill tended passed c, overStill tended' still.1 c⟩⟩

def forwarder : Options := ⟨["kubectl", "port-forward"], .valid, true⟩

def restartedRun : List Action := [.output true, .probed true, .exit 0 false, .wake true, .output true,
  .probed false, .grace, .wake true, .close, .closeGrace]

theorem proxiesNeverOrphanedOnClose : ∃ p p',
    runSteps (step forwarder) (start forwarder true) restartedRun = some p
    ∧ runSteps (step forwarder) p [.exit 1 true, .exit 2 true] = some p' ∧ p.closed = true
    ∧ p'.spawned = p.spawned ∧ ∀ c, ¬ Runs p c ∧ ¬ Runs p' c := by
  let p := (runSteps (step forwarder) (start forwarder true) restartedRun).get (by decide +kernel)
  let p' := (runSteps (step forwarder) p [.exit 1 true, .exit 2 true]).get (by decide +kernel)
  have ran : runSteps (step forwarder) (start forwarder true) restartedRun = some p := by simp [p]
  have ran' : runSteps (step forwarder) p [.exit 1 true, .exit 2 true] = some p' := by simp [p']
  have closed : p.closed = true := by decide +kernel
  have whole := proxiesNeverOrphaned (fun _ => by decide) ran ran' (by decide +kernel) (by decide +kernel)
  exact ⟨p, p', ran, ran', closed, whole.2.2 (Or.inr (Or.inl closed))⟩

theorem deadlineLeavesChild : ¬ ∀ (options : Options) (spawned : Bool) (acts : List Action) (p : Proxy),
    runSteps (step options) (start options spawned) acts = some p →
    (∀ c d, Runs p c → Runs p d → c = d) ∧ (∀ c, (p.children c).attempt = .failed → ¬ Runs p c)
      ∧ (Over p → ∀ c, ¬ Runs p c) := by
  intro claim
  have run : (runSteps (step forwarder) (start forwarder true) [.deadline]).map
      (fun p => (p.phase, p.children 0)) = some (.rejected, ⟨.running, .failed⟩) := by decide +kernel
  obtain ⟨p, ran, seen⟩ := Option.map_eq_some_iff.mp run
  simp only [Prod.mk.injEq] at seen
  exact (claim forwarder true [.deadline] p ran).2.2 (Or.inl seen.1) 0 (by rw [Runs, seen.2])

end DatabaseAdmin.ProxyProcess
