import Mathlib.Data.List.Basic

/-! One forward pass over a list. A step looks at what was passed (nearest first) and at what is
left, and says how much it takes and what it hands out. -/
namespace DatabaseAdmin.ScanLoop

variable {α σ ω : Type}

structure Turn (σ ω : Type) where
  state : σ
  width : Nat
  out : List ω

abbrev Step (α σ ω : Type) := σ → List α → List α → Turn σ ω

def run (step : Step α σ ω) (finish : σ → List α → List ω) :
    Nat → σ → List α → List α → List ω
  | _, s, before, [] => finish s before
  | skip+1, s, before, x :: rest => run step finish skip s (x :: before) rest
  | 0, s, before, x :: rest =>
      let t := step s before (x :: rest)
      t.out ++ run step finish (t.width - 1) t.state (x :: before) rest

theorem runSkip (step : Step α σ ω) (finish : σ → List α → List ω) (k : Nat) (s : σ)
    (before rest : List α) :
    run step finish k s before rest =
      run step finish 0 s ((rest.take k).reverse ++ before) (rest.drop k) := by
  induction k generalizing before rest with
  | zero => simp
  | succ k ih =>
    cases rest with
    | nil => simp [run]
    | cons x rest => simp [run, ih (x :: before) rest]

structure Config (α σ : Type) where
  state : σ
  before : List α
  rest : List α

namespace Config

def text (c : Config α σ) : List α := c.before.reverse ++ c.rest

def next (step : Step α σ ω) (c : Config α σ) : Config α σ :=
  let t := step c.state c.before c.rest
  ⟨t.state, (c.rest.take t.width).reverse ++ c.before, c.rest.drop t.width⟩

def out (step : Step α σ ω) (c : Config α σ) : List ω := (step c.state c.before c.rest).out

def width (step : Step α σ ω) (c : Config α σ) : Nat := (step c.state c.before c.rest).width

theorem nextText (step : Step α σ ω) (c : Config α σ) : (c.next step).text = c.text := by
  simp [next, text]

end Config

def Progress (step : Step α σ ω) : Prop :=
  ∀ s before rest, rest ≠ [] → 0 < (step s before rest).width

def runAt (step : Step α σ ω) (finish : σ → List α → List ω) (c : Config α σ) : List ω :=
  run step finish 0 c.state c.before c.rest

theorem runAtEnd (step : Step α σ ω) (finish : σ → List α → List ω) (s : σ) (before : List α) :
    runAt step finish ⟨s, before, []⟩ = finish s before := by
  simp [runAt, run]

theorem runAtNext {step : Step α σ ω} (progress : Progress step) (finish : σ → List α → List ω)
    {c : Config α σ} (some : c.rest ≠ []) :
    runAt step finish c = c.out step ++ runAt step finish (c.next step) := by
  obtain ⟨s, before, rest⟩ := c
  cases rest with
  | nil => exact absurd rfl some
  | cons x rest =>
    have positive := progress s before (x :: rest) (by simp)
    simp only [runAt, run, Config.out, Config.next]
    rw [runSkip]
    generalize (step s before (x :: rest)).width = w at positive ⊢
    cases w with
    | zero => omega
    | succ w => simp

theorem passInduction {step : Step α σ ω} (progress : Progress step) {motive : Config α σ → Prop}
    (stop : ∀ s before, motive ⟨s, before, []⟩)
    (turn : ∀ c, c.rest ≠ [] → motive (c.next step) → motive c) (c : Config α σ) : motive c := by
  obtain ⟨n, size⟩ : ∃ n, c.rest.length = n := ⟨_, rfl⟩
  induction n using Nat.strongRecOn generalizing c with
  | _ n ih =>
    by_cases empty : c.rest = []
    · obtain ⟨s, before, rest⟩ := c
      cases empty
      exact stop s before
    · have positive := progress c.state c.before c.rest empty
      have shorter : (c.next step).rest.length < n := by
        have : 0 < c.rest.length := List.length_pos_iff.mpr empty
        simp only [Config.next, List.length_drop]
        omega
      exact turn c empty (ih _ shorter _ rfl)

def relabel {ω' : Type} (out : σ → List α → List α → List ω') (step : Step α σ ω) :
    Step α σ ω' :=
  fun s before rest => ⟨(step s before rest).state, (step s before rest).width, out s before rest⟩

theorem relabelNext {ω' : Type} (out : σ → List α → List α → List ω') (step : Step α σ ω)
    (c : Config α σ) : c.next (relabel out step) = c.next step := rfl

theorem relabelProgress {ω' : Type} (out : σ → List α → List α → List ω') {step : Step α σ ω}
    (progress : Progress step) : Progress (relabel out step) := progress

inductive Path (step : Step α σ ω) : Config α σ → List ω → Config α σ → Prop where
  | refl (c) : Path step c [] c
  | turn {c outs c'} (some : c.rest ≠ []) (tail : Path step (c.next step) outs c') :
      Path step c (c.out step ++ outs) c'

theorem Path.trans {step : Step α σ ω} {a b c : Config α σ} {xs ys : List ω}
    (first : Path step a xs b) (last : Path step b ys c) : Path step a (xs ++ ys) c := by
  induction first with
  | refl => exact last
  | turn some _ ih =>
    rw [List.append_assoc]
    exact .turn some (ih last)

theorem Path.text {step : Step α σ ω} {c c' : Config α σ} {outs : List ω}
    (path : Path step c outs c') : c'.text = c.text := by
  induction path with
  | refl => rfl
  | turn _ _ ih => rw [ih, Config.nextText]

theorem Path.restSuffix {step : Step α σ ω} {c c' : Config α σ} {outs : List ω}
    (path : Path step c outs c') : c'.rest <:+ c.rest := by
  induction path with
  | refl => exact List.suffix_rfl
  | turn _ _ ih => exact ih.trans (List.drop_suffix _ _)

theorem Path.longer {step : Step α σ ω} (progress : Progress step) {c c' : Config α σ}
    {outs : List ω} (path : Path step c outs c') :
    c.before.length ≤ c'.before.length ∧ (outs ≠ [] → c.before.length < c'.before.length) := by
  induction path with
  | refl c => exact ⟨Nat.le_refl _, fun some => absurd rfl some⟩
  | @turn c outs c' some _ ih =>
    have positive := progress c.state c.before c.rest some
    have long := List.length_pos_iff.mpr some
    have next : c.before.length < (c.next step).before.length := by
      simp only [Config.next, List.length_append, List.length_reverse, List.length_take]
      omega
    exact ⟨by omega, fun _ => by omega⟩

theorem runMember {step : Step α σ ω} (progress : Progress step) {finish : σ → List α → List ω}
    {c : Config α σ} {x : ω} (member : x ∈ runAt step finish c) :
    ∃ outs c', Path step c outs c' ∧ ((c'.rest ≠ [] ∧ x ∈ c'.out step) ∨
      (c'.rest = [] ∧ x ∈ finish c'.state c'.before)) := by
  induction c using passInduction progress with
  | stop s before =>
    rw [runAtEnd] at member
    exact ⟨[], _, .refl _, Or.inr ⟨rfl, member⟩⟩
  | turn c some ih =>
    rw [runAtNext progress finish some, List.mem_append] at member
    rcases member with here | later
    · exact ⟨[], c, .refl c, Or.inl ⟨some, here⟩⟩
    · obtain ⟨outs, c', path, found⟩ := ih later
      exact ⟨_, c', .turn some path, found⟩

theorem runPath {step : Step α σ ω} (progress : Progress step) (finish : σ → List α → List ω)
    {c c' : Config α σ} {outs : List ω} (path : Path step c outs c') :
    runAt step finish c = outs ++ runAt step finish c' := by
  induction path with
  | refl => rfl
  | turn some _ ih => rw [runAtNext progress finish some, ih, List.append_assoc]

end DatabaseAdmin.ScanLoop
