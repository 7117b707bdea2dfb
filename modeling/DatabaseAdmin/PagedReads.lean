import Mathlib.Data.List.Basic

/-! Readers that hand out a sequence in pages of wanted sizes. What a page holds and what the
reader still has make up what it had; `none` is a reader that reported its end. -/
namespace DatabaseAdmin.PagedReads

universe u v
variable {σ : Type u} {ρ : Type v}

def readOut (fetch : σ → Nat → List ρ × Option σ) : Option σ → List Nat → List ρ × Option σ
  | none, _ => ([], none)
  | some s, [] => ([], some s)
  | some s, n :: sizes =>
      let later := readOut fetch (fetch s n).2 sizes
      ((fetch s n).1 ++ later.1, later.2)

def left (remaining : σ → List ρ) : Option σ → List ρ
  | none => []
  | some s => remaining s

structure Lossless (fetch : σ → Nat → List ρ × Option σ) (remaining : σ → List ρ) : Prop where
  whole : ∀ s n, 0 < n → (fetch s n).1 ++ left remaining (fetch s n).2 = remaining s
  moves : ∀ s n s', 0 < n → (fetch s n).2 = some s' → (fetch s n).1 ≠ []

variable {fetch : σ → Nat → List ρ × Option σ} {remaining : σ → List ρ}

theorem readOutWhole (lossless : Lossless fetch remaining) (o : Option σ) {sizes : List Nat}
    (positive : ∀ n ∈ sizes, 0 < n) :
    (readOut fetch o sizes).1 ++ left remaining (readOut fetch o sizes).2 = left remaining o := by
  induction sizes generalizing o with
  | nil => cases o <;> rfl
  | cons n sizes ih =>
    cases o with
    | none => rfl
    | some s =>
      have rest := ih (fetch s n).2 (fun m member => positive m (List.mem_cons_of_mem _ member))
      simp only [readOut, List.append_assoc, rest]
      exact lossless.whole s n (positive n List.mem_cons_self)

theorem readOutEnds (lossless : Lossless fetch remaining) (o : Option σ) {sizes : List Nat}
    (positive : ∀ n ∈ sizes, 0 < n) (enough : (left remaining o).length < sizes.length) :
    (readOut fetch o sizes).2 = none := by
  induction sizes generalizing o with
  | nil => contradiction
  | cons n sizes ih =>
    cases o with
    | none => rfl
    | some s =>
      have here : 0 < n := positive n List.mem_cons_self
      have later : ∀ m ∈ sizes, 0 < m := fun m member => positive m (List.mem_cons_of_mem _ member)
      have split := congrArg List.length (lossless.whole s n here)
      simp only [List.length_append] at split
      simp only [left, List.length_cons] at enough
      simp only [readOut]
      cases next : (fetch s n).2 with
      | none => cases sizes <;> rfl
      | some s' =>
        have moved := List.length_pos_of_ne_nil (lossless.moves s n s' here next)
        rw [next] at split
        exact ih (some s') later (by omega)

theorem readOutAll (lossless : Lossless fetch remaining) (o : Option σ) {sizes : List Nat}
    (positive : ∀ n ∈ sizes, 0 < n) (done : (readOut fetch o sizes).2 = none) :
    (readOut fetch o sizes).1 = left remaining o := by
  have whole := readOutWhole lossless o positive
  rw [done] at whole
  simpa [left] using whole

end DatabaseAdmin.PagedReads
