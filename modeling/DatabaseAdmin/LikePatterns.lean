import Mathlib.Data.List.Infix

/-! LIKE patterns over any units: `any` stands for every text, `one` for every unit, and the
escape takes the mark behind it as it is. -/
namespace DatabaseAdmin.LikePatterns

variable {α : Type}

structure Marks (α : Type) where
  escape : α
  any : α
  one : α
  anyApart : any ≠ escape
  oneApart : one ≠ escape
  onesApart : any ≠ one

def Marks.IsMark (m : Marks α) (c : α) : Prop := c = m.escape ∨ c = m.any ∨ c = m.one

inductive Like (m : Marks α) : List α → List α → Prop where
  | done : Like m [] []
  | anyNone {p t : List α} (rest : Like m p t) : Like m (m.any :: p) t
  | anyMore {p t : List α} (c : α) (rest : Like m (m.any :: p) t) : Like m (m.any :: p) (c :: t)
  | one {p t : List α} (c : α) (rest : Like m p t) : Like m (m.one :: p) (c :: t)
  | escaped {p t : List α} {c : α} (mark : m.IsMark c) (rest : Like m p t) :
      Like m (m.escape :: c :: p) (c :: t)
  | plain {p t : List α} {c : α} (plain : ¬ m.IsMark c) (rest : Like m p t) : Like m (c :: p) (c :: t)

variable {m : Marks α}

theorem likeNil {t : List α} : Like m [] t ↔ t = [] := by
  constructor
  · intro like
    cases like
    rfl
  · rintro rfl
    exact .done

theorem likeAny {p t : List α} : Like m (m.any :: p) t ↔ ∃ lead rest, t = lead ++ rest ∧ Like m p rest := by
  constructor
  · intro like
    obtain ⟨q, same⟩ : ∃ q, q = m.any :: p := ⟨_, rfl⟩
    rw [← same] at like
    induction like with
    | done => cases same
    | anyNone rest ih =>
      cases same
      exact ⟨[], _, rfl, rest⟩
    | anyMore c rest ih =>
      obtain ⟨lead, left, rfl, found⟩ := ih same
      exact ⟨c :: lead, left, rfl, found⟩
    | one c rest ih => exact absurd (List.cons.inj same).1.symm m.onesApart
    | escaped mark rest ih => exact absurd (List.cons.inj same).1.symm m.anyApart
    | plain plain rest ih => exact absurd (Or.inr (Or.inl (List.cons.inj same).1)) plain
  · rintro ⟨lead, rest, rfl, like⟩
    induction lead with
    | nil => exact .anyNone like
    | cons c lead ih => exact .anyMore c ih

theorem likeEscaped {c : α} (mark : m.IsMark c) {p t : List α} :
    Like m (m.escape :: c :: p) t ↔ ∃ rest, t = c :: rest ∧ Like m p rest := by
  constructor
  · intro like
    obtain ⟨q, same⟩ : ∃ q, q = m.escape :: c :: p := ⟨_, rfl⟩
    rw [← same] at like
    cases like with
    | done => cases same
    | anyNone rest => exact absurd (List.cons.inj same).1 m.anyApart
    | anyMore d rest => exact absurd (List.cons.inj same).1 m.anyApart
    | one d rest => exact absurd (List.cons.inj same).1 m.oneApart
    | escaped mark rest =>
      simp only [List.cons.injEq, true_and] at same
      obtain ⟨rfl, rfl⟩ := same
      exact ⟨_, rfl, rest⟩
    | plain plain rest => exact absurd (Or.inl (List.cons.inj same).1) plain
  · rintro ⟨rest, rfl, like⟩
    exact .escaped mark like

theorem likePlain {c : α} (plain : ¬ m.IsMark c) {p t : List α} :
    Like m (c :: p) t ↔ ∃ rest, t = c :: rest ∧ Like m p rest := by
  constructor
  · intro like
    obtain ⟨q, same⟩ : ∃ q, q = c :: p := ⟨_, rfl⟩
    rw [← same] at like
    cases like with
    | done => cases same
    | anyNone rest => exact absurd (Or.inr (Or.inl (List.cons.inj same).1.symm)) plain
    | anyMore d rest => exact absurd (Or.inr (Or.inl (List.cons.inj same).1.symm)) plain
    | one d rest => exact absurd (Or.inr (Or.inr (List.cons.inj same).1.symm)) plain
    | escaped mark rest => exact absurd (Or.inl (List.cons.inj same).1.symm) plain
    | plain _ rest =>
      obtain ⟨rfl, rfl⟩ := List.cons.inj same
      exact ⟨_, rfl, rest⟩
  · rintro ⟨rest, rfl, like⟩
    exact .plain plain like

variable [DecidableEq α]

instance (c : α) : Decidable (m.IsMark c) :=
  inferInstanceAs (Decidable (c = m.escape ∨ c = m.any ∨ c = m.one))

def literally (m : Marks α) (value : List α) : List α :=
  value.flatMap fun c => if m.IsMark c then [m.escape, c] else [c]

theorem likeLiterally (value : List α) {p t : List α} :
    Like m (literally m value ++ p) t ↔ ∃ rest, t = value ++ rest ∧ Like m p rest := by
  induction value generalizing t with
  | nil => simp [literally]
  | cons c value ih =>
    simp only [literally, List.flatMap_cons, List.append_assoc] at ih ⊢
    by_cases mark : m.IsMark c
    · simp only [if_pos mark, List.cons_append, List.nil_append, likeEscaped mark, ih]
      constructor
      · rintro ⟨t, rfl, rest, rfl, like⟩
        exact ⟨rest, rfl, like⟩
      · rintro ⟨rest, rfl, like⟩
        exact ⟨_, rfl, rest, rfl, like⟩
    · simp only [if_neg mark, List.cons_append, List.nil_append, likePlain mark, ih]
      constructor
      · rintro ⟨t, rfl, rest, rfl, like⟩
        exact ⟨rest, rfl, like⟩
      · rintro ⟨rest, rfl, like⟩
        exact ⟨_, rfl, rest, rfl, like⟩

theorem likeContains (value : List α) {t : List α} :
    Like m (m.any :: (literally m value ++ [m.any])) t ↔ value <:+: t := by
  simp only [likeAny, likeLiterally, likeNil]
  constructor
  · rintro ⟨lead, _, rfl, _, rfl, trail, _, rfl, rfl⟩
    exact ⟨lead, trail, by simp⟩
  · rintro ⟨lead, trail, rfl⟩
    exact ⟨lead, value ++ trail, by simp, trail, rfl, trail, [], by simp, rfl⟩

theorem likeStarts (value : List α) {t : List α} : Like m (literally m value ++ [m.any]) t ↔ value <+: t := by
  simp only [likeAny, likeLiterally, likeNil]
  constructor
  · rintro ⟨_, rfl, trail, _, rfl, rfl⟩
    exact ⟨trail, by simp⟩
  · rintro ⟨trail, rfl⟩
    exact ⟨trail, rfl, trail, [], by simp, rfl⟩

theorem likeEnds (value : List α) {t : List α} : Like m (m.any :: literally m value) t ↔ value <:+ t := by
  have whole : literally m value = literally m value ++ [] := (List.append_nil _).symm
  rw [whole]
  simp only [likeAny, likeLiterally, likeNil]
  constructor
  · rintro ⟨lead, _, rfl, _, rfl, rfl⟩
    exact ⟨lead, by simp⟩
  · rintro ⟨lead, rfl⟩
    exact ⟨lead, value, rfl, [], by simp, rfl⟩

end DatabaseAdmin.LikePatterns
