import Mathlib.Logic.Function.Basic

/-! Runs of a partial step function. A condition on steps is checked along a run; what
every such step preserves holds in every state the run reaches. -/
namespace DatabaseAdmin.StepSystem

universe u v
variable {σ : Type u} {α : Type v}

def runSteps (step : σ → α → Option σ) (s : σ) : List α → Option σ
  | [] => some s
  | a :: rest => match step s a with
    | none => none
    | some s' => runSteps step s' rest

def Along (meets : σ → α → Prop) (step : σ → α → Option σ) (s : σ) : List α → Prop
  | [] => True
  | a :: rest => meets s a ∧ match step s a with
    | none => True
    | some s' => Along meets step s' rest

instance alongDecidable (meets : σ → α → Prop) [∀ s a, Decidable (meets s a)]
    (step : σ → α → Option σ) : ∀ s acts, Decidable (Along meets step s acts)
  | _, [] => isTrue trivial
  | s, a :: rest =>
    match decided : step s a with
    | none => decidable_of_iff (meets s a) (by simp [Along, decided])
    | some s' =>
      have := alongDecidable meets step s' rest
      decidable_of_iff (meets s a ∧ Along meets step s' rest) (by simp [Along, decided])

variable {meets : σ → α → Prop} {step : σ → α → Option σ} {invariant : σ → Prop}

theorem runKeeps (keeps : ∀ {s a s'}, invariant s → meets s a → step s a = some s' → invariant s')
    {s s' : σ} {acts : List α} (holds : invariant s) (along : Along meets step s acts)
    (ran : runSteps step s acts = some s') : invariant s' := by
  induction acts generalizing s with
  | nil =>
    cases ran
    exact holds
  | cons a rest ih =>
    obtain ⟨here, later⟩ := along
    cases moved : step s a with
    | none => simp [runSteps, moved] at ran
    | some next =>
      simp only [runSteps, moved] at ran later
      exact ih (keeps holds here moved) later ran

theorem alongAlways (s : σ) (acts : List α) : Along (fun _ _ => True) step s acts := by
  induction acts generalizing s with
  | nil => trivial
  | cons a rest ih =>
    refine ⟨trivial, ?_⟩
    cases step s a with
    | none => trivial
    | some next => exact ih next

theorem everyRunKeeps (keeps : ∀ {s a s'}, invariant s → step s a = some s' → invariant s')
    {s s' : σ} {acts : List α} (holds : invariant s) (ran : runSteps step s acts = some s') : invariant s' :=
  runKeeps (fun holds _ moved => keeps holds moved) holds (alongAlways s acts) ran

theorem alongGives {gives : σ → α → Prop}
    (keeps : ∀ {s a s'}, invariant s → meets s a → step s a = some s' → invariant s')
    (here : ∀ {s a}, invariant s → meets s a → gives s a)
    {s : σ} {acts : List α} (holds : invariant s) (along : Along meets step s acts) :
    Along gives step s acts := by
  induction acts generalizing s with
  | nil => trivial
  | cons a rest ih =>
    obtain ⟨met, later⟩ := along
    refine ⟨here holds met, ?_⟩
    cases moved : step s a with
    | none => trivial
    | some next =>
      simp only [moved] at later
      exact ih (keeps holds met moved) later

theorem alongSame {other : σ → α → Prop} (same : ∀ s a, meets s a ↔ other s a) (s : σ) (acts : List α) :
    Along meets step s acts ↔ Along other step s acts := by
  rw [show meets = other from funext fun s => funext fun a => propext (same s a)]

section Tables
variable {β : Type u} {table : List β} {x y : β} {i j : Nat}

theorem appendKeeps (x : β) (here : table[i]? = some y) : (table ++ [x])[i]? = some y := by
  rw [List.getElem?_append_left (List.getElem?_eq_some_iff.mp here).1]
  exact here

theorem appendFinds (here : (table ++ [x])[i]? = some y) :
    table[i]? = some y ∨ i = table.length ∧ x = y := by
  rw [List.getElem?_append] at here
  split at here
  · exact Or.inl here
  · rename_i long
    cases past : i - table.length with
    | zero =>
      rw [past] at here
      exact Or.inr ⟨by omega, Option.some.inj here⟩
    | succ n =>
      rw [past] at here
      simp at here

theorem setFinds (here : table[i]? = some x) (j : Nat) :
    (table.set i y)[j]? = if i = j then some y else table[j]? := by
  rw [List.getElem?_set, if_pos (List.getElem?_eq_some_iff.mp here).1]

end Tables

end DatabaseAdmin.StepSystem
