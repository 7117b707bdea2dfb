import DatabaseAdmin.SqlDialect
import Mathlib.Data.List.Forall2

/-! Texts with holes for values: what the text reads with question marks or numbers in the holes,
what is bound to them, and the text with the values written out. -/
namespace DatabaseAdmin.Templates
open CodeUnits

inductive Piece (α : Type) where
  | unit (c : CodeUnit)
  | hole (value : α)

abbrev Template (α : Type) := List (Piece α)

variable {α β : Type}

def raw (text : Text) : Template α := text.map .unit

def hole (value : α) : Template α := [.hole value]

def values (t : Template α) : List α := t.filterMap fun
  | .unit _ => none
  | .hole v => some v

def holes (t : Template α) : Text := t.flatMap fun
  | .unit c => [c]
  | .hole _ => [('?' : Char).toNat]

def shown (literal : α → Text) (t : Template α) : Text := t.flatMap fun
  | .unit c => [c]
  | .hole v => literal v

def dollar (n : Nat) : Text := units "$" ++ units (toString n)

def numbered : Nat → Template α → Text
  | _, [] => []
  | n, .unit c :: rest => c :: numbered n rest
  | n, .hole _ :: rest => dollar n ++ numbered (n + 1) rest

def written (literal : α → Except String Text) : Template α → Except String Text
  | [] => .ok []
  | .unit c :: rest => (written literal rest).map (c :: ·)
  | .hole v :: rest => do
      let text ← literal v
      let tail ← written literal rest
      return text ++ tail

def joined (sep : Text) (parts : List (Template α)) : Template α := List.intercalate (raw sep) parts

@[simp] theorem valuesAppend (s t : Template α) : values (s ++ t) = values s ++ values t := by simp [values]

@[simp] theorem valuesRaw (text : Text) : values (raw text : Template α) = [] := by
  simp [values, raw]

@[simp] theorem valuesHole (v : α) : values (hole v) = [v] := rfl

@[simp] theorem holesAppend (s t : Template α) : holes (s ++ t) = holes s ++ holes t := by simp [holes]

@[simp] theorem holesRaw (text : Text) : holes (raw text : Template α) = text := by
  induction text with
  | nil => rfl
  | cons c text ih => simpa [holes, raw] using ih

@[simp] theorem holesHole (v : α) : holes (hole v) = units "?" := rfl

theorem numberedAppend (n : Nat) (s t : Template α) :
    numbered n (s ++ t) = numbered n s ++ numbered (n + (values s).length) t := by
  induction s generalizing n with
  | nil => rfl
  | cons p s ih =>
    cases p with
    | unit c => simp [numbered, ih, values]
    | hole v => simp [numbered, ih, values, Nat.add_assoc, Nat.add_comm 1]

@[simp] theorem numberedRaw (n : Nat) (text : Text) : numbered n (raw text : Template α) = text := by
  induction text with
  | nil => rfl
  | cons c text ih => simpa [raw, numbered] using ih

@[simp] theorem numberedHole (n : Nat) (v : α) : numbered n (hole v) = dollar n := by simp [hole, numbered]

@[simp] theorem shownAppend (literal : α → Text) (s t : Template α) :
    shown literal (s ++ t) = shown literal s ++ shown literal t := by simp [shown]

@[simp] theorem shownRaw (literal : α → Text) (text : Text) : shown literal (raw text) = text := by
  induction text with
  | nil => rfl
  | cons c text ih => simpa [shown, raw] using ih

@[simp] theorem shownHole (literal : α → Text) (v : α) : shown literal (hole v) = literal v := by
  simp [shown, hole]

theorem joinedCons (sep : Text) (p q : Template α) (parts : List (Template α)) :
    joined sep (p :: q :: parts) = p ++ (raw sep ++ joined sep (q :: parts)) := by
  simp [joined, List.intercalate]

theorem rawAppend (s t : Text) : (raw (s ++ t) : Template α) = raw s ++ raw t := List.map_append

theorem rawJoined (sep : Text) (parts : List Text) :
    (raw (List.intercalate sep parts) : Template α) = joined sep (parts.map raw) := by
  match parts with
  | [] => rfl
  | [p] => simp [joined, List.intercalate]
  | p :: q :: rest =>
    rw [List.map_cons, List.map_cons, joinedCons, ← List.map_cons, ← rawJoined sep (q :: rest)]
    simp [List.intercalate, rawAppend]

theorem joinedRead {γ : Type} (read : Template α → List γ) (whole : ∀ s t, read (s ++ t) = read s ++ read t)
    (none : read [] = []) (sep : Text) (parts : List (Template α)) :
    read (joined sep parts) = List.intercalate (read (raw sep)) (parts.map read) := by
  match parts with
  | [] => simpa [joined, List.intercalate] using none
  | [p] => simp [joined, List.intercalate]
  | p :: q :: rest =>
    rw [joinedCons, whole, whole, joinedRead read whole none sep (q :: rest)]
    simp [List.intercalate]

theorem holesJoined (sep : Text) (parts : List (Template α)) :
    holes (joined sep parts) = List.intercalate sep (parts.map holes) := by
  simpa using joinedRead holes holesAppend rfl sep parts

theorem shownJoined (literal : α → Text) (sep : Text) (parts : List (Template α)) :
    shown literal (joined sep parts) = List.intercalate sep (parts.map (shown literal)) := by
  simpa using joinedRead (shown literal) (shownAppend literal) rfl sep parts

theorem valuesJoined (sep : Text) (parts : List (Template α)) :
    values (joined sep parts) = parts.flatMap values := by
  have read := joinedRead values valuesAppend rfl sep parts
  rw [valuesRaw] at read
  rw [read, List.flatMap]
  generalize parts.map values = lists
  induction lists with
  | nil => rfl
  | cons l lists ih => cases lists <;> simp_all [List.intercalate]

def numberedEach : Nat → List (Template α) → List Text
  | _, [] => []
  | n, t :: rest => numbered n t :: numberedEach (n + (values t).length) rest

theorem numberedJoined (n : Nat) (sep : Text) (parts : List (Template α)) :
    numbered n (joined sep parts) = List.intercalate sep (numberedEach n parts) := by
  match parts with
  | [] => rfl
  | [p] => simp [joined, List.intercalate, numberedEach]
  | p :: q :: rest =>
    rw [joinedCons, numberedAppend, numberedAppend, numberedJoined _ sep (q :: rest)]
    simp [List.intercalate, numberedEach]

theorem shownDigits (n : Nat) : units (toString n) ≠ [] ∧ ∀ d ∈ units (toString n), isDigit d = true := by
  constructor
  · intro empty
    have none : Nat.toDigits 10 n = [] := by
      rw [← Nat.toList_repr]
      exact List.map_eq_nil_iff.mp empty
    exact Nat.toDigits_ne_nil none
  · intro d member
    obtain ⟨c, listed, rfl⟩ := List.mem_map.mp member
    have shown : c ∈ Nat.toDigits 10 n := by rwa [← Nat.toList_repr]
    have digit := Nat.isDigit_of_mem_toDigits (by decide) (by decide) shown
    simp only [Char.isDigit, Bool.and_eq_true, decide_eq_true_eq] at digit
    simp only [isDigit, Bool.and_eq_true, decide_eq_true_eq]
    exact digit

section Sequences
variable {γ ε : Type} {f : β → Except ε γ} {xs : List β} {ys : List γ}

theorem mapMForall₂ : xs.mapM f = .ok ys ↔ List.Forall₂ (fun x y => f x = .ok y) xs ys := by
  induction xs generalizing ys with
  | nil =>
    rw [List.forall₂_nil_left_iff]
    exact ⟨fun ok => (Except.ok.inj ok).symm, fun same => same ▸ rfl⟩
  | cons x xs ih =>
    rw [List.mapM_cons]
    cases made : f x with
    | error e =>
      refine ⟨nofun, fun each => ?_⟩
      obtain ⟨y, rest, first, -, -⟩ := List.forall₂_cons_left_iff.mp each
      rw [made] at first
      contradiction
    | ok y =>
      cases rest : xs.mapM f with
      | error e =>
        refine ⟨nofun, fun each => ?_⟩
        obtain ⟨y', more, -, tail, -⟩ := List.forall₂_cons_left_iff.mp each
        rw [ih.mpr tail] at rest
        contradiction
      | ok more =>
        refine ⟨fun ok => ?_, fun each => ?_⟩
        · obtain rfl := Except.ok.inj ok
          exact .cons made (ih.mp rest)
        · obtain ⟨y', more', first, tail, rfl⟩ := List.forall₂_cons_left_iff.mp each
          obtain rfl := Except.ok.inj (made.symm.trans first)
          obtain rfl := Except.ok.inj (rest.symm.trans (ih.mpr tail))
          rfl

theorem mapMSame {δ : Type} {h : β → δ} {k : γ → δ} (each : ∀ x y, f x = .ok y → k y = h x) (ok : xs.mapM f = .ok ys) :
    ys.map k = xs.map h := by
  induction mapMForall₂.mp ok with
  | nil => rfl
  | cons made rest ih => rw [List.map_cons, List.map_cons, each _ _ made, ih (mapMForall₂.mpr rest)]

theorem mapMAppend {zs : List β} (ok : (xs ++ zs).mapM f = .ok ys) :
    ∃ us vs, xs.mapM f = .ok us ∧ zs.mapM f = .ok vs ∧ ys = us ++ vs := by
  have each := mapMForall₂.mp ok
  have first := List.forall₂_take xs.length each
  have last := List.forall₂_drop xs.length each
  rw [List.take_left] at first
  rw [List.drop_left] at last
  exact ⟨_, _, mapMForall₂.mpr first, mapMForall₂.mpr last, (List.take_append_drop xs.length ys).symm⟩

end Sequences

end DatabaseAdmin.Templates
