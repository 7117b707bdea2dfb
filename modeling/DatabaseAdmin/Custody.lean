import Mathlib.Logic.Function.Basic

/-! Things that are handed from place to place. -/
namespace DatabaseAdmin.Custody
open Function

universe u v
variable {κ : Type u} {π : Type v}

structure Kept (brief : π → Prop) (owner : κ → Option π) (place : π → Option (κ × Option π)) : Prop where
  lies : ∀ p c, place p = some (c, none) → owner c = some p
  pinned : ∀ p c q, place p = some (c, some q) → ¬ brief p → owner c = some q
  held : ∀ c p, owner c = some p → place p = some (c, none)

def Unpinned (brief : π → Prop) (place : π → Option (κ × Option π)) (q : π) : Prop :=
  ∀ p c, place p = some (c, some q) → brief p

variable {brief : π → Prop} {owner : κ → Option π} {place : π → Option (κ × Option π)}
  {c : κ} {p q : π}

theorem keptEmpty : Kept brief (fun _ : κ => none) (fun _ => none) := ⟨nofun, nofun, nofun⟩

variable [DecidableEq π]

theorem keptPin (kept : Kept brief owner place) (home : owner c = some q) (empty : place p = none) :
    Kept brief owner (update place p (some (c, some q))) := by
  obtain ⟨lies, pinned, held⟩ := kept
  constructor
  · grind [update_apply]
  · grind [update_apply]
  · grind [update_apply]

theorem keptUnpin (kept : Kept brief owner place) (here : place p = some (c, some q)) :
    Kept brief owner (update place p none) := by
  obtain ⟨lies, pinned, held⟩ := kept
  constructor
  · grind [update_apply]
  · grind [update_apply]
  · grind [update_apply]

variable [DecidableEq κ]

theorem keptEnter (kept : Kept brief owner place) (free : owner c = none) (empty : place p = none) :
    Kept brief (update owner c (some p)) (update place p (some (c, none))) := by
  obtain ⟨lies, pinned, held⟩ := kept
  constructor
  · grind [update_apply]
  · grind [update_apply]
  · grind [update_apply]

theorem keptLeave (kept : Kept brief owner place) (here : place p = some (c, none))
    (unpinned : Unpinned brief place p) : Kept brief (update owner c none) (update place p none) := by
  obtain ⟨lies, pinned, held⟩ := kept
  constructor
  · grind [update_apply]
  · grind [update_apply, Unpinned]
  · grind [update_apply]

theorem keptMove (kept : Kept brief owner place) (here : place p = some (c, none)) (empty : place q = none)
    (unpinned : Unpinned brief place p) :
    Kept brief (update owner c (some q)) (update (update place p none) q (some (c, none))) := by
  have left := keptLeave kept here unpinned
  have entered := keptEnter left (update_self c none owner) (p := q)
    (by grind [update_apply])
  rwa [update_idem] at entered

section Balance

def Balanced (owner : κ → Option π) (outs backs : κ → Nat) : Prop :=
  ∀ c, outs c = backs c + if owner c = none then 0 else 1

variable {outs backs : κ → Nat}

omit [DecidableEq π]

theorem balancedOut (balanced : Balanced owner outs backs) (free : owner c = none) (p : π) :
    Balanced (update owner c (some p)) (update outs c (outs c + 1)) backs := by
  intro d
  have before := balanced d
  grind [update_apply]

theorem balancedBack (balanced : Balanced owner outs backs) (held : owner c = some p) :
    Balanced (update owner c none) outs (update backs c (backs c + 1)) := by
  intro d
  have before := balanced d
  grind [update_apply]

theorem balancedPass (balanced : Balanced owner outs backs) (held : owner c = some p) (q : π) :
    Balanced (update owner c (some q)) outs backs := by
  intro d
  have before := balanced d
  grind [update_apply]

end Balance

end DatabaseAdmin.Custody
