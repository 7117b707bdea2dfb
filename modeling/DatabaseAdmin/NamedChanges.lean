import Mathlib.Data.List.Nodup

/-! Named items, of which the last of a name counts, and statements followed one after another. -/
namespace DatabaseAdmin.NamedChanges

variable {α ν : Type} [DecidableEq ν] (nameOf : α → ν)

def named (items : List α) (n : ν) : Option α := items.reverse.find? fun x => nameOf x = n

def latest (items : List α) : List α :=
  items.foldl (fun kept x => if nameOf x ∈ kept.map nameOf then kept.map fun y => if nameOf y = nameOf x then x else y
    else kept ++ [x]) []

def follow {σ δ : Type} (act : σ → δ → Option σ) : σ → List δ → Option σ
  | s, [] => some s
  | s, d :: rest => (act s d).bind (follow act · rest)

section Names
variable {nameOf} {items : List α} {n : ν} {x : α}

theorem namedMem (found : named nameOf items n = some x) : x ∈ items ∧ nameOf x = n := by
  have member := List.mem_of_find?_eq_some found
  have same := List.find?_some found
  exact ⟨List.mem_reverse.mp member, by simpa using same⟩

theorem namedNone : named nameOf items n = none ↔ n ∉ items.map nameOf := by
  simp [named, List.find?_eq_none]

theorem namedOf (once : (items.map nameOf).Nodup) (member : x ∈ items) : named nameOf items (nameOf x) = some x := by
  cases found : named nameOf items (nameOf x) with
  | none => exact absurd (List.mem_map_of_mem member) (namedNone.mp found)
  | some y =>
    obtain ⟨inside, same⟩ := namedMem found
    rw [List.inj_on_of_nodup_map once inside member same]

theorem namedSome : n ∈ items.map nameOf ↔ ∃ x, named nameOf items n = some x := by
  rw [← Option.isSome_iff_exists, Option.isSome_iff_ne_none, Ne, namedNone, not_not]

theorem latestOnce (once : (items.map nameOf).Nodup) : latest nameOf items = items := by
  have step (kept rest : List α) (distinct : ((kept ++ rest).map nameOf).Nodup) :
      rest.foldl (fun kept x => if nameOf x ∈ kept.map nameOf then kept.map fun y => if nameOf y = nameOf x then x else y
        else kept ++ [x]) kept = kept ++ rest := by
    induction rest generalizing kept with
    | nil => exact (List.append_nil kept).symm
    | cons x rest ih =>
      have fresh : nameOf x ∉ kept.map nameOf := by
        rw [List.map_append, List.map_cons] at distinct
        exact fun again => List.disjoint_of_nodup_append distinct again List.mem_cons_self
      rw [List.foldl_cons, if_neg fresh, ih (kept ++ [x]) (by rwa [List.append_assoc]), List.append_assoc]
      rfl
  exact step [] items once

end Names

section Steps
variable {σ δ : Type} {act : σ → δ → Option σ}

theorem followAppend (s : σ) (first last : List δ) :
    follow act s (first ++ last) = (follow act s first).bind (follow act · last) := by
  induction first generalizing s with
  | nil => rfl
  | cons d first ih =>
    simp only [List.cons_append, follow]
    cases act s d with
    | none => rfl
    | some s => exact ih s

end Steps

end DatabaseAdmin.NamedChanges
