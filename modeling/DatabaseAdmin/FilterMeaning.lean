import DatabaseAdmin.RowFilters

/-! What a filter's condition says of a row: the text is read back and its truth taken with NULL
as the third value. How a cell compares with a bound text is left to the engine. -/
namespace DatabaseAdmin.FilterMeaning
open CodeUnits RowFilters

section ThreeValued

def both : Option Bool → Option Bool → Option Bool
  | some false, _ => some false
  | _, some false => some false
  | some true, some true => some true
  | _, _ => none

def either : Option Bool → Option Bool → Option Bool
  | some true, _ => some true
  | _, some true => some true
  | some false, some false => some false
  | _, _ => none

def allOf (truths : List (Option Bool)) : Option Bool := truths.foldr both (some true)

def anyOf (truths : List (Option Bool)) : Option Bool := truths.foldr either (some false)

@[simp] theorem bothTrue (a b : Option Bool) : both a b = some true ↔ a = some true ∧ b = some true := by
  obtain _ | _ | _ := a <;> obtain _ | _ | _ := b <;> simp [both]

@[simp] theorem eitherTrue (a b : Option Bool) : either a b = some true ↔ a = some true ∨ b = some true := by
  obtain _ | _ | _ := a <;> obtain _ | _ | _ := b <;> simp [either]

@[simp] theorem allOfTrue (truths : List (Option Bool)) : allOf truths = some true ↔ ∀ t ∈ truths, t = some true := by
  induction truths with
  | nil => simp [allOf]
  | cons t truths ih =>
    simp only [allOf, List.foldr_cons] at ih ⊢
    simp [ih]

@[simp] theorem anyOfTrue (truths : List (Option Bool)) : anyOf truths = some true ↔ some true ∈ truths := by
  induction truths with
  | nil => simp [anyOf]
  | cons t truths ih =>
    simp only [anyOf, List.foldr_cons] at ih ⊢
    rw [eitherTrue, ih, List.mem_cons, eq_comm (a := t)]

end ThreeValued

inductive Condition where
  | isNull (col : Text)
  | isNotNull (col : Text)
  | compared (op : ComparisonOp) (col : Text)
  | between (col : Text)
  | within (count : Nat) (col : Text)
  | like (escape : CodeUnit) (col : Text)
  | nullOr (col : Text) (other : Condition)
  | never
  deriving DecidableEq, Repr

section Reading

def quotedName (text : Text) : Option (Text × Text) :=
  if nextIs doubleQuote text then
    let width := scanQuoted doubleQuote true false text
    some (undouble doubleQuote ((text.take width).drop 1).dropLast, text.drop width)
  else none

def comparisonTail (tail : Text) : Option ComparisonOp :=
  [ComparisonOp.eq, .ne, .lt, .lte, .gt, .gte].find? fun op => tail == units (" " ++ comparison op ++ " ?")

def withinTail (count : Nat) : Text :=
  units " IN (" ++ (List.intercalate (units ", ") (List.replicate count (units "?")) ++ units ")")

def tailOf (col tail : Text) : Option Condition :=
  match comparisonTail tail with
  | some op => some (.compared op col)
  | none =>
    if tail = units " IS NULL" then some (.isNull col)
    else if tail = units " IS NOT NULL" then some (.isNotNull col)
    else if tail = units " BETWEEN ? AND ?" then some (.between col)
    else if tail = withinTail (tail.count ('?' : CodeUnit)) then some (.within (tail.count ('?' : CodeUnit)) col)
    else if startsWith (units " LIKE ? ESCAPE ") tail then
      match undoLiteral .sqlite (tail.drop (units " LIKE ? ESCAPE ").length) with
      | some [escape] => some (.like escape col)
      | _ => none
    else none

def readCondition (text : Text) : Option Condition :=
  if text = units "1 = 0" ∨ text = units "0 = 1" then some .never
  else match quotedName text with
  | some (col, tail) => tailOf col tail
  | none => do
      let (col, tail) ← if nextIs '(' text then quotedName (text.drop 1) else none
      let (other, tail) ← if startsWith (units " IS NULL OR ") tail then
        quotedName (tail.drop (units " IS NULL OR ").length) else none
      if tail.getLast? = some (')' : CodeUnit) then (tailOf other tail.dropLast).map (.nullOr col) else none

end Reading

section Truth
variable {κ : Type}

structure Meaning (κ : Type) where
  compares : ComparisonOp → κ → Text → Bool
  like : CodeUnit → κ → Text → Bool

abbrev Cells (κ : Type) := Text → Option κ

def against (test : κ → Text → Bool) (cell : Option κ) (bound : Option Text) : Option Bool := do
  let x ← cell
  let v ← bound
  return test x v

def Condition.count : Condition → Nat
  | .isNull _ | .isNotNull _ | .never => 0
  | .compared _ _ | .like _ _ => 1
  | .between _ => 2
  | .within count _ => count
  | .nullOr _ other => other.count

def Condition.truth (m : Meaning κ) (row : Cells κ) : Condition → List (Option Text) → Option Bool
  | .isNull col, _ => some (row col).isNone
  | .isNotNull col, _ => some (row col).isSome
  | .compared op col, [v] => against (m.compares op) (row col) v
  | .between col, [lo, hi] => both (against (m.compares .gte) (row col) lo) (against (m.compares .lte) (row col) hi)
  | .within _ col, vs => anyOf (vs.map (against (m.compares .eq) (row col)))
  | .like escape col, [pattern] => against (m.like escape) (row col) pattern
  | .nullOr col other, vs => either (some (row col).isNone) (other.truth m row vs)
  | .never, _ => some false
  | _, _ => none

def truths (m : Meaning κ) (row : Cells κ) : List Text → List (Option Text) → Option (List (Option Bool))
  | [], _ => some []
  | text :: rest, bound => do
      let c ← readCondition text
      let others ← truths m row rest (bound.drop c.count)
      return c.truth m row (bound.take c.count) :: others

def Satisfies (m : Meaning κ) (row : Cells κ) (conditions : List Text) (bound : List (Option Text)) : Prop :=
  ∃ found, truths m row conditions bound = some found ∧ allOf found = some true

def Tells (m : Meaning κ) (row : Cells κ) (text : Text) (bound : List (Option Text)) (means : Prop) : Prop :=
  ∃ c, readCondition text = some c ∧ c.count = bound.length ∧ (c.truth m row bound = some true ↔ means)

theorem tellsNever {m : Meaning κ} {row : Cells κ} (text : Text) (bound : List (Option Text)) (means : Prop)
    (never : text = units "1 = 0" ∨ text = units "0 = 1") (none : bound = []) (false : ¬ means) :
    Tells m row text bound means :=
  ⟨.never, by rw [readCondition, if_pos never], by simp [none, Condition.count], by simp [Condition.truth, false]⟩

theorem satisfiesEach {α : Type} {m : Meaning κ} {row : Cells κ} {items : List α} {text : α → Text}
    {bound : α → List (Option Text)} {means : α → Prop}
    (tells : ∀ a ∈ items, Tells m row (text a) (bound a) (means a)) :
    Satisfies m row (items.map text) (items.flatMap bound) ↔ ∀ a ∈ items, means a := by
  obtain ⟨found, read, each⟩ : ∃ found, truths m row (items.map text) (items.flatMap bound) = some found ∧
      ((∀ t ∈ found, t = some true) ↔ ∀ a ∈ items, means a) := by
    induction items with
    | nil => exact ⟨[], rfl, by simp⟩
    | cons a items ih =>
      obtain ⟨c, here, count, truth⟩ := tells a (by simp)
      obtain ⟨found, read, each⟩ := ih fun b member => tells b (by simp [member])
      refine ⟨c.truth m row (bound a) :: found, ?_, ?_⟩
      · simp [truths, here, count, read]
      · simp [truth, each]
  simp [Satisfies, read, each]

end Truth

section Names

theorem quotedNameRead {name tail : Text} (apart : ∀ c ∈ tail.head?, isQuote c = false) :
    quotedName (doubleQuote :: (encode doubleQuote false name ++ [doubleQuote]) ++ tail) = some (name, tail) := by
  have scan := quotedScan doubleQuote (by decide) false name apart rfl
  have head : nextIs doubleQuote (doubleQuote :: (encode doubleQuote false name ++ [doubleQuote]) ++ tail) = true := by
    simp [nextIs]
  simp only [quotedName, head, if_true]
  rw [scan, List.take_left, List.drop_left]
  simp [undoubleEncoded]

end Names

end DatabaseAdmin.FilterMeaning
