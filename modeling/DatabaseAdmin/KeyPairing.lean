import Mathlib.Data.List.Nodup
import Mathlib.Data.Multiset.MapFold

/-! Pairing two lists on a key. The first item of a key stands for it, and each key of either list has one pair. -/
namespace DatabaseAdmin.KeyPairing

inductive Pair (α : Type) where
  | both (source target : α)
  | source (item : α)
  | target (item : α)
  deriving DecidableEq

namespace Pair
variable {α : Type}

def sides : Pair α → Option α × Option α
  | both s t => (some s, some t)
  | source s => (some s, none)
  | target t => (none, some t)

def swap : Pair α → Pair α
  | both s t => both t s
  | source s => target s
  | target t => source t

@[simp] theorem swapSwap (p : Pair α) : p.swap.swap = p := by cases p <;> rfl

def item : Pair α → α
  | both s _ => s
  | source s => s
  | target t => t

end Pair

section Firsts
variable {α κ : Type} [DecidableEq κ] (key : α → κ)

def first (items : List α) (k : κ) : Option α := items.find? fun x => key x = k

def firsts : List κ → List α → List α
  | _, [] => []
  | used, x :: rest => if key x ∈ used then firsts used rest else x :: firsts (key x :: used) rest

variable {key} {items : List α} {used : List κ}

theorem firstMem {k : κ} {x : α} (found : first key items k = some x) : x ∈ items ∧ key x = k := by
  have same := List.find?_some found
  exact ⟨List.mem_of_find?_eq_some found, of_decide_eq_true same⟩

theorem firstNone {k : κ} : first key items k = none ↔ k ∉ items.map key := by
  simp [first, List.find?_eq_none]

theorem firstsMem {x : α} : x ∈ firsts key used items ↔ first key items (key x) = some x ∧ key x ∉ used := by
  induction items generalizing used with
  | nil => simp [firsts, first]
  | cons y rest ih =>
    simp only [firsts, first, List.find?_cons]
    by_cases same : key y = key x
    · rw [decide_eq_true same]
      by_cases held : key y ∈ used
      · rw [if_pos held, ih]
        exact ⟨fun both => absurd (same ▸ held) both.2, fun both => absurd (same ▸ held) both.2⟩
      · rw [if_neg held, List.mem_cons, ih]
        constructor
        · rintro (rfl | ⟨-, late⟩)
          · exact ⟨rfl, held⟩
          · exact absurd (same ▸ List.mem_cons_self) late
        · exact fun both => .inl (Option.some.inj both.1).symm
    · rw [decide_eq_false same]
      by_cases held : key y ∈ used
      · rw [if_pos held, ih, first]
      · rw [if_neg held, List.mem_cons, ih, List.mem_cons, not_or, first]
        constructor
        · rintro (rfl | ⟨found, -, new⟩)
          · contradiction
          · exact ⟨found, new⟩
        · exact fun both => .inr ⟨both.1, Ne.symm same, both.2⟩

theorem firstsNodup : ((firsts key used items).map key).Nodup := by
  induction items generalizing used with
  | nil => exact List.nodup_nil
  | cons y rest ih =>
    unfold firsts
    split
    · exact ih
    · rw [List.map_cons, List.nodup_cons]
      refine ⟨fun again => ?_, ih⟩
      obtain ⟨x, listed, same⟩ := List.mem_map.mp again
      exact (firstsMem.mp listed).2 (same ▸ List.mem_cons_self)

end Firsts

section Pairs
variable {α κ : Type} [DecidableEq κ]

def pairs (key : α → κ) (source target : List α) : List (Pair α) :=
  (firsts key [] source).map (fun s => match first key target (key s) with
    | some t => .both s t
    | none => .source s) ++
  (firsts key (source.map key) target).map .target

variable {key : α → κ} {source target : List α}

theorem pairsMem {p : Pair α} : p ∈ pairs key source target ↔
    (first key source (key p.item), first key target (key p.item)) = p.sides := by
  unfold pairs
  rw [List.mem_append, List.mem_map, List.mem_map]
  constructor
  · rintro (⟨s, listed, rfl⟩ | ⟨t, listed, rfl⟩)
    · have found := (firstsMem.mp listed).1
      cases other : first key target (key s) with
      | none => exact Prod.ext found other
      | some t => exact Prod.ext found other
    · obtain ⟨found, new⟩ := firstsMem.mp listed
      exact Prod.ext (firstNone.mpr new) found
  · intro sides
    obtain ⟨left, right⟩ := Prod.mk.inj sides
    cases p with
    | both s t => exact .inl ⟨s, firstsMem.mpr ⟨left, List.not_mem_nil⟩, by rw [show first key target (key s) = some t from right]⟩
    | source s => exact .inl ⟨s, firstsMem.mpr ⟨left, List.not_mem_nil⟩, by rw [show first key target (key s) = none from right]⟩
    | target t => exact .inr ⟨t, firstsMem.mpr ⟨right, firstNone.mp left⟩, rfl⟩

theorem pairsNodup : ((pairs key source target).map fun p => key p.item).Nodup := by
  have left : ((firsts key [] source).map fun s => key (Pair.item (match first key target (key s) with
      | some t => .both s t
      | none => .source s))) = (firsts key [] source).map key := by
    refine List.map_congr_left fun s _ => ?_
    cases first key target (key s) <;> rfl
  rw [pairs, List.map_append, List.map_map, List.map_map, List.nodup_append]
  refine ⟨left.symm ▸ firstsNodup, firstsNodup, fun k early k' late same => ?_⟩
  obtain ⟨t, listed, rfl⟩ := List.mem_map.mp late
  have early : k ∈ (firsts key [] source).map key := left ▸ early
  obtain ⟨s, listed', rfl⟩ := List.mem_map.mp early
  have inside := (firstMem (firstsMem.mp listed').1).1
  refine (firstsMem.mp listed).2 ?_
  exact (show key s = key t from same) ▸ List.mem_map_of_mem inside

theorem pairsBoth {s t : α} (listed : .both s t ∈ pairs key source target) :
    s ∈ source ∧ t ∈ target ∧ key t = key s := by
  obtain ⟨left, right⟩ := Prod.mk.inj (pairsMem.mp listed)
  exact ⟨(firstMem left).1, firstMem right⟩

theorem pairsSwapped {p : Pair α} (listed : p ∈ pairs key source target) : p.swap ∈ pairs key target source := by
  have sides := pairsMem.mp listed
  obtain ⟨left, right⟩ := Prod.mk.inj sides
  refine pairsMem.mpr ?_
  cases p with
  | both s t =>
    have same := (pairsBoth listed).2.2
    exact Prod.ext (same.symm ▸ right) (same.symm ▸ left)
  | source s => exact Prod.ext right left
  | target t => exact Prod.ext right left

theorem pairsSwap : ((pairs key source target).map Pair.swap).Perm (pairs key target source) := by
  refine (List.perm_ext_iff_of_nodup ?_ (List.Nodup.of_map _ pairsNodup)).mpr fun p => ?_
  · refine (List.Nodup.of_map _ pairsNodup).map fun p q same => ?_
    rw [← Pair.swapSwap p, same, Pair.swapSwap]
  · rw [List.mem_map]
    refine ⟨?_, fun listed => ⟨p.swap, pairsSwapped listed, Pair.swapSwap p⟩⟩
    rintro ⟨q, listed, rfl⟩
    exact pairsSwapped listed

theorem pairsSelf {p : Pair α} (listed : p ∈ pairs key source source) : ∃ s ∈ source, p = .both s s := by
  have sides := pairsMem.mp listed
  cases p with
  | both s t =>
    obtain ⟨left, right⟩ := Prod.mk.inj sides
    refine ⟨s, (firstMem left).1, ?_⟩
    rw [Option.some.inj (right.symm.trans left)]
  | source s =>
    obtain ⟨left, right⟩ := Prod.mk.inj sides
    exact absurd (left.symm.trans right) nofun
  | target t =>
    obtain ⟨left, right⟩ := Prod.mk.inj sides
    exact absurd (right.symm.trans left) nofun

end Pairs

section Exchanges
variable {α κ β γ : Type} [DecidableEq κ] {key : α → κ} {source target : List α}

theorem pairsExchanged {f : Pair α → β} {g : Pair α → γ} {R : β → γ → Prop}
    (each : ∀ p ∈ pairs key source target, R (f p) (g p.swap)) :
    Multiset.Rel R ((pairs key source target).map f : List β) ((pairs key target source).map g : List γ) := by
  have same : ((pairs key target source).map g : Multiset γ) =
      ((pairs key source target).map fun p => g p.swap : List γ) := by
    refine Multiset.coe_eq_coe.mpr ?_
    rw [← Function.comp_def g Pair.swap, ← List.map_map]
    exact (pairsSwap.map g).symm
  rw [same, ← Multiset.map_coe, ← Multiset.map_coe]
  exact Multiset.rel_map.mpr (Multiset.rel_refl_of_refl_on each)

end Exchanges

end DatabaseAdmin.KeyPairing
