import DatabaseAdmin.EditBuffer
import DatabaseAdmin.NumberTexts
import DatabaseAdmin.SchemaModels

/-! The editor of one cell of the grid: the text that it opens with, and the cell that is made of
its text. -/
namespace DatabaseAdmin.CellEditing
open CodeUnits BinaryText WireCells SchemaModels NumberTexts EditBuffer Doubles

structure ColumnMeta where
  base : BaseType
  dynamicType : Bool

section Reading

def toCell (x : Double) : Cell := .number ⟨x.text, x.isFinite⟩

def cellToEditText : Cell → Text
  | .null => []
  | .boolean value => units (if value then "true" else "false")
  | .number n => n.text
  | .string text => text
  | .tagged _ v _ => v

def integerText (t : Text) : Bool :=
  let body := if t.head? = some 43 ∨ t.head? = some 45 then t.drop 1 else t
  body ≠ [] && body.all isDigit

def numberText (t : Text) : Bool := (numeral t).isSome

def toNumber (t : Text) : Double := ((numeral t).map number).getD .nan

def isBase64Unit (c : CodeUnit) : Bool :=
  (65 ≤ c && c ≤ 90) || (97 ≤ c && c ≤ 122) || (48 ≤ c && c ≤ 57) || c == 43 || c == 47

def base64Pattern (t : Text) : Bool :=
  let tail := t.dropWhile isBase64Unit
  tail.all (· == BinaryText.padding) && tail.length ≤ 2

def trueWords : List Text := ["true", "t", "yes", "y", "on", "1"].map units

def falseWords : List Text := ["false", "f", "no", "n", "off", "0"].map units

def tagForBase : BaseType → Option CellTag
  | .bigint => some .bigint
  | .decimal | .money => some .decimal
  | .date => some .date
  | .time => some .time
  | .timestamp => some .timestamp
  | .interval => some .interval
  | .json => some .json
  | .uuid => some .uuid
  | .array => some .array
  | .bit => some .bit
  | .binary => some .bytes
  | .geometry => some .geo
  | .objectid => some .objectid
  | _ => none

def assertBase64 (text : Text) : Except Text Text :=
  let trimmed := text.filter fun c => !isWhite c
  if base64Pattern trimmed = false ∨ trimmed.length % 4 ≠ 0 then
    .error (units "Binary cells are edited as base64; that text is not valid base64.")
  else .ok trimmed

def taggedInput (text : Text) (tag : CellTag) (of : Option Text) : Except Text Cell :=
  if tag = .unsupported then
    .error (units "This value was not decoded losslessly, so writing it back would corrupt it.")
  else if tag = .bytes then (assertBase64 text).map fun v => .tagged .bytes v none
  else .ok (.tagged tag text of)

def dynamicInput (text : Text) : Cell :=
  let t := trim text
  if t ≠ [] ∧ integerText t = true ∧ (toNumber t).isSafeInteger = true then toCell (toNumber t)
  else if t ≠ [] ∧ numberText t = true then toCell (toNumber t)
  else .string text

def booleanInput (text : Text) : Except Text Cell :=
  let t := (trim text).map lowerUnit
  if t ∈ trueWords then .ok (.boolean true)
  else if t ∈ falseWords then .ok (.boolean false)
  else .error (units "\"" ++ text ++ units "\" is not a boolean — use true or false.")

def numericInput (text : Text) (base : BaseType) : Except Text Cell :=
  let t := trim text
  if numberText t = false then .error (units "\"" ++ text ++ units "\" is not a number.")
  else if (toNumber t).isFinite = false then .error (units "\"" ++ text ++ units "\" is not a finite number.")
  else if base = .integer ∧ (toNumber t).isSafeInteger = false then .ok (.tagged .bigint t none)
  else .ok (toCell (toNumber t))

def typedInput (text : Text) (base : BaseType) : Except Text Cell :=
  match base with
  | .boolean => booleanInput text
  | .integer | .float => numericInput text base
  | _ => match tagForBase base with
    | some .bytes => (assertBase64 text).map fun v => .tagged .bytes v none
    | some t => .ok (.tagged t (if t = .bigint ∨ t = .decimal then trim text else text) none)
    | none => .ok (.string text)

def parseCellInput (text : Text) (column : ColumnMeta) (previous : Option Cell) : Except Text Cell :=
  match previous with
  | some (.tagged tag _ of) => taggedInput text tag of
  | _ => if column.dynamicType then .ok (dynamicInput text) else typedInput text column.base

end Reading

section Meaning

def Unchanged (column : ColumnMeta) (cell : Cell) : Prop :=
  ∃ made, parseCellInput (cellToEditText cell) column (some cell) = .ok made ∧ cellsEqual made cell = true ∧
    ∀ state row col, cellEdit (editReducer state (.setCell row col made cell)).updates row col = none

def Genuine (cell : Cell) : Prop := ∀ n, cell = .number n → ∃ x, Cell.number n = toCell x

def Kept (column : ColumnMeta) : Cell → Prop
  | .null => False
  | .tagged .bytes v of => base64Pattern v = true ∧ v.length % 4 = 0 ∧ of.getD [] = []
  | .tagged _ _ _ => True
  | .string text =>
      if column.dynamicType then numeral (trim text) = none
      else column.base ∉ [BaseType.boolean, .integer, .float] ∧ tagForBase column.base = none
  | .number n =>
      n.finite = true ∧ (column.dynamicType = true ∨ column.base = .float ∨
        column.base = .integer ∧ (toNumber n.text).isSafeInteger = true)
  | .boolean _ => column.dynamicType = false ∧ column.base = .boolean

def Faithful (column : ColumnMeta) (previous : Option Cell) (i : ℤ) : Prop :=
  (∃ tag v of, previous = some (.tagged tag v of)) ∨ toDouble |(i : ℚ)| = some |(i : ℚ)| ∨
    column.dynamicType = false ∧ (column.base = .float → toDouble |(i : ℚ)| = none)

end Meaning

section Numbers

theorem numeralGiven {t : Text} {q : ℚ} (read : numeral t = some q) : t ≠ [] ∧ numberText t = true ∧ toNumber t = number q := by
  refine ⟨(signedUnits read).1, ?_, ?_⟩
  · rw [numberText, read, Option.isSome_some]
  · rw [toNumber, read, Option.map_some, Option.getD_some]

theorem dynamicNumber {text : Text} {q : ℚ} (read : numeral (trim text) = some q) : dynamicInput text = toCell (number q) := by
  obtain ⟨given, spelled, made⟩ := numeralGiven read
  simp only [dynamicInput, if_pos (show trim text ≠ [] ∧ numberText (trim text) = true from ⟨given, spelled⟩), made, ite_self]

theorem dynamicText {text : Text} (none : numeral (trim text) = none) : dynamicInput text = .string text := by
  have unmade : (toNumber (trim text)).isSafeInteger = false := by simp [toNumber, none, Double.isSafeInteger]
  have unspelled : numberText (trim text) = false := by simp [numberText, none]
  simp only [dynamicInput, unmade, unspelled, Bool.false_eq_true, and_false, if_false]

theorem numericNumber {text : Text} {q : ℚ} (read : numeral (trim text) = some q) (base : BaseType) {x : FiniteDouble}
    (made : number q = .finite x) :
    numericInput text base = if base = .integer ∧ (Double.finite x).isSafeInteger = false then .ok (.tagged .bigint (trim text) none)
      else .ok (toCell (.finite x)) := by
  obtain ⟨-, spelled, value⟩ := numeralGiven read
  simp [numericInput, spelled, value, made, Double.isFinite]

theorem trimNumber (x : Double) : trim x.text = x.text := by
  cases x with
  | nan => rfl
  | infinity negative => cases negative <;> rfl
  | finite x =>
    obtain ⟨q, read, -⟩ := textBack x
    exact trimPlain (signedUnits read).2

theorem numberBack (x : FiniteDouble) :
    ∃ q, numeral (trim (Double.finite x).text) = some q ∧ number q = .finite x := by
  rw [trimNumber]
  exact textBack x

theorem numberOther {x : Double} (other : x.isFinite = false) : numeral (trim x.text) = none := by
  rw [trimNumber]
  exact otherTexts other

theorem cellItself (x : FiniteDouble) : cellsEqual (toCell (.finite x)) (toCell (.finite x)) = true := by
  obtain ⟨q, read, -⟩ := textBack x
  have apart : (Double.finite x).text ≠ units "NaN" := by
    intro same
    rw [same] at read
    exact absurd read (by rw [show numeral (units "NaN") = none from rfl]; nofun)
  simp [toCell, cellsEqual, apart]

end Numbers

section Branches

def Numeric (base : BaseType) : Prop := base = .integer ∨ base = .float

theorem typedNumeric {base : BaseType} (numeric : Numeric base) (text : Text) : typedInput text base = numericInput text base := by
  rcases numeric with rfl | rfl <;> rfl

theorem typedOther {base : BaseType} (numeric : ¬ Numeric base) (boolean : base ≠ .boolean) (text : Text) :
    typedInput text base = match tagForBase base with
      | some .bytes => (assertBase64 text).map fun v => .tagged .bytes v none
      | some t => .ok (.tagged t (if t = .bigint ∨ t = .decimal then trim text else text) none)
      | none => .ok (.string text) := by
  unfold typedInput
  split
  · contradiction
  · exact absurd (.inl rfl) numeric
  · exact absurd (.inr rfl) numeric
  · rfl

theorem typedMade {base : BaseType} (numeric : ¬ Numeric base) (boolean : base ≠ .boolean) {text : Text} {made : Cell}
    (parsed : typedInput text base = .ok made) :
    (∃ tag v of, made = .tagged tag v of) ∨ tagForBase base = none ∧ made = .string text := by
  rw [typedOther numeric boolean] at parsed
  split at parsed
  · cases checked : assertBase64 text with
    | error problem =>
      rw [checked] at parsed
      contradiction
    | ok v =>
      rw [checked] at parsed
      cases parsed
      exact .inl ⟨_, _, _, rfl⟩
  · cases parsed
    exact .inl ⟨_, _, _, rfl⟩
  · rename_i untagged
    cases parsed
    exact .inr ⟨untagged, rfl⟩

theorem booleanMade {text : Text} {made : Cell} (parsed : booleanInput text = .ok made) : ∃ value, made = .boolean value := by
  unfold booleanInput at parsed
  dsimp only at parsed
  split at parsed
  · cases parsed
    exact ⟨_, rfl⟩
  · split at parsed
    · cases parsed
      exact ⟨_, rfl⟩
    · contradiction

theorem numericMade {text : Text} {base : BaseType} {made : Cell} (parsed : numericInput text base = .ok made) :
    (∃ v, made = .tagged .bigint v none) ∨
      ∃ q x, numeral (trim text) = some q ∧ number q = .finite x ∧ made = toCell (.finite x) ∧
        (base = .integer → (Double.finite x).isSafeInteger = true) := by
  unfold numericInput at parsed
  dsimp only at parsed
  split at parsed
  · contradiction
  · rename_i spelled
    obtain ⟨q, read⟩ := Option.isSome_iff_exists.mp (Bool.not_eq_false _ ▸ spelled : (numeral (trim text)).isSome = true)
    have value := (numeralGiven read).2.2
    rw [value] at parsed
    split at parsed
    · contradiction
    · rename_i finite
      cases made' : number q with
      | nan => exact absurd made' (numberSome q)
      | infinity negative =>
        rw [made'] at finite
        exact absurd rfl finite
      | finite x =>
        rw [made'] at parsed
        split at parsed
        · cases parsed
          exact .inl ⟨_, rfl⟩
        · rename_i fits
          cases parsed
          exact .inr ⟨q, x, read, made', rfl, fun integer => by simpa [integer] using fits⟩

theorem typedNumber {text : Text} {base : BaseType} {n : JsNumber} (parsed : typedInput text base = .ok (.number n)) :
    Numeric base ∧ ∃ q x, numeral (trim text) = some q ∧ number q = .finite x ∧ Cell.number n = toCell (.finite x) ∧
      (base = .integer → (Double.finite x).isSafeInteger = true) := by
  by_cases boolean : base = .boolean
  · rw [boolean] at parsed
    obtain ⟨value, other⟩ := booleanMade parsed
    contradiction
  by_cases numeric : Numeric base
  · rw [typedNumeric numeric] at parsed
    obtain ⟨v, other⟩ | made := numericMade parsed
    · contradiction
    · exact ⟨numeric, made⟩
  · obtain ⟨tag, v, of, other⟩ | ⟨-, other⟩ := typedMade numeric boolean parsed
    · contradiction
    · contradiction

end Branches

section Base64

theorem patternPlain {t : Text} (pattern : base64Pattern t = true) : ∀ c ∈ t, plainUnit c := by
  simp only [base64Pattern, Bool.and_eq_true] at pattern
  rw [← List.takeWhile_append_dropWhile (p := isBase64Unit) (l := t)]
  refine List.forall_mem_append.mpr ⟨fun c member => ?_, fun c member => ?_⟩
  · have unit := List.mem_takeWhile_imp member
    unfold isBase64Unit at unit
    unfold plainUnit
    grind
  · have pad : c = BinaryText.padding := by simpa using List.all_eq_true.mp pattern.1 c member
    rw [pad]
    exact ⟨by decide, by decide⟩

theorem assertedItself (t : Text) : assertBase64 t = .ok t ↔ base64Pattern t = true ∧ t.length % 4 = 0 := by
  refine ⟨fun checked => ?_, fun fits => ?_⟩
  · simp only [assertBase64] at checked
    split at checked
    · contradiction
    · rename_i fits
      rw [Except.ok.inj checked] at fits
      simpa using fits
  · have kept : t.filter (fun c => !isWhite c) = t :=
      List.filter_eq_self.mpr fun c member => by simp [plainBare (patternPlain fits.1 c member)]
    simp only [assertBase64, kept, fits.1, fits.2]
    simp

end Base64

section Reopening

def Same (column : ColumnMeta) (cell : Cell) : Prop :=
  ∃ made, parseCellInput (cellToEditText cell) column (some cell) = .ok made ∧ cellsEqual made cell = true

theorem unchangedSame (column : ColumnMeta) (cell : Cell) : Unchanged column cell ↔ Same column cell := by
  refine ⟨fun ⟨made, parsed, same, _⟩ => ⟨made, parsed, same⟩, fun ⟨made, parsed, same⟩ => ⟨made, parsed, same, ?_⟩⟩
  intro state row col
  simp only [editReducer, same, if_true, keepRowEdit, cellErase]

theorem taggedSame (column : ColumnMeta) {tag : CellTag} (supported : tag ≠ .unsupported) (v : Text) (of : Option Text) :
    Same column (.tagged tag v of) ↔ Kept column (.tagged tag v of) := by
  by_cases bytes : tag = .bytes
  · subst bytes
    rw [Kept, ← and_assoc, ← assertedItself]
    refine ⟨fun ⟨made, parsed, same⟩ => ?_, fun ⟨checked, plain⟩ => ⟨.tagged .bytes v none, ?_, ?_⟩⟩
    · change (assertBase64 v).map (fun v => Cell.tagged .bytes v none) = .ok made at parsed
      cases checked : assertBase64 v with
      | error problem =>
        rw [checked] at parsed
        contradiction
      | ok trimmed =>
        rw [checked] at parsed
        cases parsed
        simp only [cellsEqual, Bool.and_eq_true, beq_iff_eq, Option.getD_none] at same
        exact ⟨by rw [same.1.2], same.2.symm⟩
    · change (assertBase64 v).map (fun v => Cell.tagged .bytes v none) = _
      rw [checked]
      rfl
    · simp [cellsEqual, plain]
  · have kept : Kept column (.tagged tag v of) := by
      cases tag <;> first | contradiction | trivial
    have written : parseCellInput v column (some (.tagged tag v of)) = .ok (.tagged tag v of) := by
      simp only [parseCellInput, taggedInput, if_neg supported, if_neg bytes]
    exact iff_of_true ⟨_, written, by simp [cellsEqual]⟩ kept

theorem stringSame (column : ColumnMeta) (text : Text) : Same column (.string text) ↔ Kept column (.string text) := by
  rw [Kept]
  by_cases dynamic : column.dynamicType = true
  · rw [if_pos dynamic]
    have parsed : parseCellInput text column (some (.string text)) = .ok (dynamicInput text) := by
      simp only [parseCellInput, if_pos dynamic]
    refine ⟨fun ⟨made, done, same⟩ => ?_, fun none => ⟨_, parsed, ?_⟩⟩
    · rw [cellToEditText, parsed] at done
      cases done
      by_contra given
      obtain ⟨q, read⟩ := Option.ne_none_iff_exists'.mp given
      rw [dynamicNumber read] at same
      contradiction
    · rw [dynamicText none]
      simp [cellsEqual]
  · rw [if_neg dynamic]
    have parsed : parseCellInput text column (some (.string text)) = typedInput text column.base := by
      simp only [parseCellInput, if_neg dynamic]
    refine ⟨fun ⟨made, done, same⟩ => ?_, fun ⟨other, untagged⟩ => ⟨.string text, ?_, by simp [cellsEqual]⟩⟩
    · rw [cellToEditText, parsed] at done
      by_cases boolean : column.base = .boolean
      · rw [boolean] at done
        obtain ⟨value, rfl⟩ := booleanMade done
        contradiction
      by_cases numeric : Numeric column.base
      · rw [typedNumeric numeric] at done
        obtain ⟨v, rfl⟩ | ⟨q, x, -, -, rfl, -⟩ := numericMade done
        · contradiction
        · contradiction
      obtain ⟨tag, v, of, rfl⟩ | ⟨untagged, -⟩ := typedMade numeric boolean done
      · contradiction
      · unfold Numeric at numeric
        exact ⟨by simp [boolean, not_or.mp numeric], untagged⟩
    · simp only [List.mem_cons, List.not_mem_nil, or_false, not_or] at other
      rw [cellToEditText, parsed, typedOther (not_or.mpr other.2) other.1, untagged]

theorem booleanBack (value : Bool) : booleanInput (cellToEditText (.boolean value)) = .ok (.boolean value) := by
  cases value <;> rfl

theorem booleanSame (column : ColumnMeta) (value : Bool) : Same column (.boolean value) ↔ Kept column (.boolean value) := by
  rw [Kept]
  refine ⟨fun ⟨made, done, same⟩ => ?_, fun ⟨typed, boolean⟩ => ⟨.boolean value, ?_, by simp [cellsEqual]⟩⟩
  · by_cases dynamic : column.dynamicType = true
    · simp only [parseCellInput, if_pos dynamic] at done
      cases done
      unfold dynamicInput toCell at same
      dsimp only at same
      split at same
      · contradiction
      · split at same <;> contradiction
    · simp only [parseCellInput, if_neg dynamic] at done
      refine ⟨Bool.not_eq_true _ ▸ dynamic, ?_⟩
      by_contra boolean
      by_cases numeric : Numeric column.base
      · rw [typedNumeric numeric] at done
        obtain ⟨v, rfl⟩ | ⟨q, x, -, -, rfl, -⟩ := numericMade done
        · contradiction
        · contradiction
      · obtain ⟨tag, v, of, rfl⟩ | ⟨-, rfl⟩ := typedMade numeric boolean done
        · contradiction
        · contradiction
  · have parsed : parseCellInput (cellToEditText (.boolean value)) column (some (.boolean value)) =
        typedInput (cellToEditText (.boolean value)) .boolean := by
      simp only [parseCellInput, typed, boolean, Bool.false_eq_true, if_false]
    rw [parsed]
    exact booleanBack value

theorem textNumber (x : FiniteDouble) : toNumber (Double.finite x).text = .finite x := by
  obtain ⟨q, read, made⟩ := textBack x
  rw [(numeralGiven read).2.2, made]

theorem equalNumber {made : Cell} {x : Double} (same : cellsEqual made (toCell x) = true) : ∃ n, made = .number n := by
  cases made with
  | number n => exact ⟨n, rfl⟩
  | _ => contradiction

theorem otherLost (column : ColumnMeta) {x : Double} (other : x.isFinite = false) : ¬ Same column (toCell x) := by
  rintro ⟨made, done, same⟩
  obtain ⟨n, rfl⟩ := equalNumber same
  have unread := numberOther other
  change (if column.dynamicType then .ok (dynamicInput x.text) else typedInput x.text column.base) = Except.ok (Cell.number n) at done
  split at done
  · rw [dynamicText unread] at done
    injection done with other
    contradiction
  · obtain ⟨-, q, y, read, -⟩ := typedNumber done
    rw [unread] at read
    contradiction

theorem finiteSame (column : ColumnMeta) (x : FiniteDouble) :
    Same column (toCell (.finite x)) ↔ Kept column (toCell (.finite x)) := by
  have kept : Kept column (toCell (.finite x)) ↔ column.dynamicType = true ∨ column.base = .float ∨
      column.base = .integer ∧ (Double.finite x).isSafeInteger = true := by
    simp only [toCell, Kept, Double.isFinite, true_and, textNumber]
  obtain ⟨q, read, made⟩ := numberBack x
  rw [kept]
  by_cases dynamic : column.dynamicType = true
  · have parsed : parseCellInput (cellToEditText (toCell (.finite x))) column (some (toCell (.finite x))) =
        .ok (toCell (.finite x)) := by
      simp only [toCell, cellToEditText, parseCellInput, if_pos dynamic, dynamicNumber read, made]
    exact iff_of_true ⟨_, parsed, cellItself x⟩ (.inl dynamic)
  · have parsed : parseCellInput (cellToEditText (toCell (.finite x))) column (some (toCell (.finite x))) =
        typedInput (Double.finite x).text column.base := by
      simp only [toCell, cellToEditText, parseCellInput, if_neg dynamic]
    refine ⟨fun ⟨cell, done, same⟩ => .inr ?_, fun fits => ⟨toCell (.finite x), ?_, cellItself x⟩⟩
    · obtain ⟨n, rfl⟩ := equalNumber same
      rw [parsed] at done
      obtain ⟨numeric, q', y, read', made', -, safe⟩ := typedNumber done
      rw [read] at read'
      cases read'
      rw [made] at made'
      cases made'
      rcases numeric with integer | float
      · exact .inr ⟨integer, safe integer⟩
      · exact .inl float
    · obtain float | ⟨integer, safe⟩ := fits.resolve_left dynamic
      · rw [parsed, typedNumeric (.inr float), numericNumber read _ made, if_neg (by simp [float])]
      · rw [parsed, typedNumeric (.inl integer), numericNumber read _ made, if_neg (by simp [safe])]

theorem numberSame (column : ColumnMeta) (x : Double) : Same column (toCell x) ↔ Kept column (toCell x) := by
  have lost (other : x.isFinite = false) : Same column (toCell x) ↔ Kept column (toCell x) := by
    refine iff_of_false (otherLost column other) fun kept => ?_
    rw [toCell, Kept, other] at kept
    exact Bool.false_ne_true kept.1
  cases x with
  | nan => exact lost rfl
  | infinity negative => exact lost rfl
  | finite x => exact finiteSame column x

theorem sameKept (column : ColumnMeta) {cell : Cell} (given : cell ≠ .null)
    (supported : ∀ v of, cell ≠ .tagged .unsupported v of) (genuine : Genuine cell) : Same column cell ↔ Kept column cell := by
  cases cell with
  | null => contradiction
  | string text => exact stringSame column text
  | number n =>
    obtain ⟨x, same⟩ := genuine n rfl
    rw [same]
    exact numberSame column x
  | boolean value => exact booleanSame column value
  | tagged tag v of => exact taggedSame column (fun same => supported v of (same ▸ rfl)) v of

end Reopening

section Integers

def Valued (n : JsNumber) (i : ℤ) : Prop := ∃ x : FiniteDouble, x.value = i ∧ Cell.number n = toCell (.finite x)

theorem valuedExact {n : JsNumber} {i : ℤ} (valued : Valued n i) : toDouble |(i : ℚ)| = some |(i : ℚ)| := by
  obtain ⟨x, value, -⟩ := valued
  rw [← value]
  exact x.exact

theorem exactValued {n : JsNumber} {i : ℤ} (exact' : toDouble |(i : ℚ)| = some |(i : ℚ)|) (made : Cell.number n = toCell (number i)) :
    Valued n i := by
  have whole : number (i : ℚ) = .finite ⟨i, exact'⟩ := numberMade exact' Iff.rfl
  exact ⟨⟨i, exact'⟩, rfl, whole ▸ made⟩

theorem dynamicValued {text : Text} {i : ℤ} (read : numeral (trim text) = some (i : ℚ)) :
    (∀ n, dynamicInput text = .number n → Valued n i) ↔ toDouble |(i : ℚ)| = some |(i : ℚ)| := by
  rw [dynamicNumber read]
  exact ⟨fun all => valuedExact (all _ rfl), fun exact' n made => exactValued exact' made.symm⟩

theorem typedValued {text : Text} {i : ℤ} (read : numeral (trim text) = some (i : ℚ)) (base : BaseType) :
    (∀ n, typedInput text base = .ok (.number n) → Valued n i) ↔
      toDouble |(i : ℚ)| = some |(i : ℚ)| ∨ (base = .float → toDouble |(i : ℚ)| = none) := by
  refine ⟨fun all => ?_, fun fits n done => ?_⟩
  · by_cases float : base = .float
    · rcases made : number (i : ℚ) with _ | negative | x
      · exact absurd made (numberSome _)
      · exact .inr fun _ => numberInfinite made
      · refine .inl (valuedExact (all ⟨(Double.finite x).text, true⟩ ?_))
        rw [typedNumeric (.inr float), numericNumber read _ made, if_neg (by simp [float])]
        rfl
    · exact .inr fun same => absurd same float
  · obtain ⟨numeric, q, x, read', made, same, safe⟩ := typedNumber done
    rw [read] at read'
    cases read'
    obtain ⟨m, near, -⟩ := numberFinite made
    rcases numeric with integer | float
    · exact ⟨x, safeSame made (safe integer), same⟩
    · rcases fits with exact' | beyond
      · exact exactValued exact' (same.trans (by rw [made]))
      · rw [beyond float] at near
        contradiction

theorem taggedUncounted {text : Text} {tag : CellTag} {of : Option Text} {n : JsNumber} :
    taggedInput text tag of ≠ .ok (.number n) := by
  unfold taggedInput
  split
  · nofun
  · split
    · cases assertBase64 text <;> nofun
    · nofun

theorem untaggedInput {previous : Option Cell} (untagged : ∀ tag v of, previous ≠ some (.tagged tag v of)) (text : Text)
    (column : ColumnMeta) : parseCellInput text column previous =
      if column.dynamicType then .ok (dynamicInput text) else typedInput text column.base := by
  unfold parseCellInput
  split
  · exact absurd rfl (untagged _ _ _)
  · rfl

theorem integerFaithful (text : Text) (column : ColumnMeta) (previous : Option Cell) {i : ℤ}
    (read : numeral (trim text) = some (i : ℚ)) :
    (∀ n, parseCellInput text column previous = .ok (.number n) → Valued n i) ↔ Faithful column previous i := by
  by_cases tagged : ∃ tag v of, previous = some (.tagged tag v of)
  · obtain ⟨tag, v, of, rfl⟩ := tagged
    exact iff_of_true (fun n done => absurd done taggedUncounted) (.inl ⟨tag, v, of, rfl⟩)
  · have untagged : ∀ tag v of, previous ≠ some (.tagged tag v of) := fun tag v of same => tagged ⟨tag, v, of, same⟩
    simp only [untaggedInput untagged, Faithful, tagged, false_or]
    cases dynamic : column.dynamicType with
    | true =>
      simp only [if_true, Except.ok.injEq, dynamicValued read]
      simp
    | false =>
      simp only [Bool.false_eq_true, if_false, typedValued read, true_and]

end Integers

section Connectors

inductive RuntimeValue where
  | null
  | string (text : Text)
  | boolean (value : Bool)
  | number (x : Double)
  | bigint (i : ℤ)
  | bytes (data : List UInt8)
  | other (text : Text)

def maxSafe : ℤ := 9007199254740991

def encodeCell : RuntimeValue → Cell
  | .null => .null
  | .string text => .string text
  | .boolean value => .boolean value
  | .number x => if x.isFinite then toCell x else .tagged .decimal x.text none
  | .bigint i => if i ≤ maxSafe ∧ -maxSafe ≤ i then toCell (NumberTexts.number i) else .tagged .bigint (units (toString i)) none
  | .bytes data => bytesCell data
  | .other text => .tagged .unsupported text none

theorem encodedGenuine (v : RuntimeValue) : Genuine (encodeCell v) := by
  intro n same
  cases v with
  | number x =>
    rw [encodeCell] at same
    split at same
    · exact ⟨x, same.symm⟩
    · contradiction
  | bigint i =>
    rw [encodeCell] at same
    split at same
    · exact ⟨_, same.symm⟩
    · contradiction
  | _ => contradiction

theorem safeBigint {i : ℤ} (safe : i ≤ maxSafe ∧ -maxSafe ≤ i) : (NumberTexts.number i).isFinite = true := by
  have small : i.natAbs ≤ 2 ^ 53 := by
    unfold maxSafe at safe
    omega
  obtain ⟨_, whole⟩ := numberWhole small
  rw [whole]
  rfl

end Connectors

theorem editorReopened (column : ColumnMeta) :
    (∀ cell, cell ≠ .null → (∀ v of, cell ≠ .tagged .unsupported v of) → Genuine cell →
      (Unchanged column cell ↔ Kept column cell)) ∧
      ∀ (text : Text) (previous : Option Cell) (i : ℤ), numeral (trim text) = some (i : ℚ) →
        ((∀ n, parseCellInput text column previous = .ok (.number n) → Valued n i) ↔ Faithful column previous i) :=
  ⟨fun cell given supported genuine => (unchangedSame column cell).trans (sameKept column given supported genuine),
    fun text previous _ read => integerFaithful text column previous read⟩

theorem numberReopened : Unchanged ⟨.integer, true⟩ (encodeCell (.bigint 42)) ∧
    ∀ n, parseCellInput (units " 42") ⟨.integer, true⟩ none = .ok (.number n) → Valued n 42 := by
  have safe : (42 : ℤ) ≤ maxSafe ∧ -maxSafe ≤ 42 := by decide
  have made : encodeCell (.bigint 42) = toCell (NumberTexts.number (42 : ℤ)) := by
    rw [encodeCell, if_pos safe]
  have read : numeral (trim (units " 42")) = some ((42 : ℤ) : ℚ) := by decide +kernel
  have exact' : toDouble |((42 : ℤ) : ℚ)| = some |((42 : ℤ) : ℚ)| := by decide +kernel
  refine ⟨((editorReopened _).1 _ ?_ ?_ (encodedGenuine _)).mpr ?_,
    ((editorReopened _).2 _ none 42 read).mpr (.inr (.inl exact'))⟩
  · rw [made]
    nofun
  · rw [made]
    nofun
  · rw [made]
    exact ⟨safeBigint safe, .inl rfl⟩

theorem textCellRetyped : ¬ Unchanged ⟨.text, true⟩ (encodeCell (.string (units "123"))) ∧
    parseCellInput (units "9007199254740993") ⟨.integer, true⟩ none = .ok (.number ⟨units "9007199254740992", true⟩) := by
  refine ⟨?_, by decide +kernel⟩
  rintro ⟨made, parsed, same, -⟩
  have read : numeral (trim (units "123")) = some 123 := by decide +kernel
  have retyped : parseCellInput (units "123") ⟨.text, true⟩ (some (.string (units "123"))) = .ok (dynamicInput (units "123")) := rfl
  rw [encodeCell, cellToEditText, retyped, dynamicNumber read] at parsed
  cases parsed
  contradiction

end DatabaseAdmin.CellEditing
