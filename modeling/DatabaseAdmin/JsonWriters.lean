import DatabaseAdmin.JsonSpelling
import DatabaseAdmin.TextWriters

/-! The JSON and NDJSON writers: brackets, separators and line ends written chunk by chunk, and the
values a reader finds in what they wrote. -/
namespace DatabaseAdmin.JsonWriters
open CodeUnits WireCells CellCoercion TextWriters JsonReader

inductive JsonFormat where
  | json | ndjson
  deriving DecidableEq

structure WriterOptions where
  format : JsonFormat
  columns : List Text
  policy : ValuePolicy
  pretty : Bool

structure JsonWriter where
  opened : Bool
  written : Nat

section Writer
variable (codec : JsonCodec) (options : WriterOptions)

def cellAt (row : Row) (index : Nat) : Cell := row[index]?.getD .null

def isArray : Bool := options.format = .json

def gap : Text := if options.pretty then units " " else []

def memberText (row : Row) (i : Nat) (name : Text) : Text :=
  codec.stringify name ++ (units ":" ++ (gap options ++ renderJsonValue codec (cellAt row i) options.policy))

def memberTexts (row : Row) (i : Nat) : List Text → Text
  | [] => []
  | name :: names =>
      (if 0 < i then units "," ++ gap options else []) ++ (memberText codec options row i name ++ memberTexts row (i + 1) names)

def object (row : Row) : Text := units "\x7b" ++ (memberTexts codec options row 0 options.columns ++ units "\x7d")

def preamble : Text := if isArray options then units "[" else []

def openText (w : JsonWriter) : Text × JsonWriter := if w.opened then ([], w) else (preamble options, { w with opened := true })

def rowLead (w : JsonWriter) : Text :=
  if isArray options then
    (if w.written = 0 then [] else units ",") ++ (if options.pretty then units "\n  " else [])
  else []

def renderRows : JsonWriter → List Row → Text × JsonWriter
  | w, [] => ([], w)
  | w, row :: rows =>
      let own := rowLead options w ++ (object codec options row ++ (if isArray options then [] else units "\n"))
      let rest := renderRows { w with written := w.written + 1 } rows
      (own ++ rest.1, rest.2)

def renderChunk (w : JsonWriter) (rows : List Row) : Text × JsonWriter :=
  let out := openText options w
  let rest := renderRows codec options out.2 rows
  (out.1 ++ rest.1, rest.2)

def postamble (w : JsonWriter) : Text :=
  if isArray options then (if options.pretty && w.written > 0 then units "\n" else []) ++ units "]\n" else []

def flush (w : JsonWriter) : Text :=
  let out := openText options w
  out.1 ++ postamble options out.2

def writeChunks : JsonWriter → List (List Row) → Text
  | w, [] => flush options w
  | w, rows :: chunks =>
      let out := renderChunk codec options w rows
      out.1 ++ writeChunks out.2 chunks

def written (chunks : List (List Row)) : Text := writeChunks codec options ⟨false, 0⟩ chunks

end Writer

section Values

def tagWord : CellTag → Text
  | .bigint => units "bigint"
  | .decimal => units "decimal"
  | .date => units "date"
  | .time => units "time"
  | .timestamp => units "timestamp"
  | .timestamptz => units "timestamptz"
  | .interval => units "interval"
  | .bytes => units "bytes"
  | .json => units "json"
  | .array => units "array"
  | .geo => units "geo"
  | .uuid => units "uuid"
  | .bit => units "bit"
  | .objectid => units "objectid"
  | .decimal128 => units "decimal128"
  | .regex => units "regex"
  | .document => units "document"
  | .unsupported => units "unsupported"

def envelopeMembers (tag : CellTag) (v : Text) (of : Option Text) : List (Text × Text) :=
  [(units "$t", tagWord tag), (units "v", v)] ++ (of.map fun of => (units "of", of)).toList

def envelopeText (tag : CellTag) (v : Text) (of : Option Text) : Text :=
  123 :: (joined ((envelopeMembers tag v of).map fun m => quoted m.1 ++ 58 :: quoted m.2) ++ [125])

abbrev parseJson : Text → Option JsonValue := parse numericToken

structure Language (codec : JsonCodec) : Prop where
  stringify : ∀ text, codec.stringify text = quoted text
  envelope : ∀ tag v of, codec.envelope (.tagged tag v of) = envelopeText tag v of
  valid : ∀ text, codec.valid text = (parseJson text).isSome

def cellValue (policy : ValuePolicy) : Cell → JsonValue
  | .null =>
      match policy.nullText with
      | none => .null
      | some text => .string text
  | .boolean value =>
      match policy.booleanText with
      | some words => .string (if value then words.1 else words.2)
      | none => .boolean value
  | .number n => if n.finite then .number n.text else .string n.text
  | .string text => .string text
  | .tagged tag v of =>
      if policy.taggedEnvelope then .object ((envelopeMembers tag v of).map fun m => (m.1, .string m.2))
      else
        match tag with
        | .json => if policy.jsonInline then (parseJson v).getD (.string v) else .string v
        | .bytes => .string ((cellToText policy.binary (.tagged .bytes v of)).getD [])
        | .bigint | .decimal | .decimal128 => if policy.rawNumbers && numericToken v then .number v else .string v
        | _ => .string v

def inlined (policy : ValuePolicy) : Cell → Option Text
  | .tagged .json v _ => if !policy.taggedEnvelope && policy.jsonInline && (parseJson v).isSome then some v else none
  | _ => none

def Unbroken (options : WriterOptions) (row : Row) : Prop :=
  ∀ i < options.columns.length, ∀ text, inlined options.policy (cellAt row i) = some text → newline ∉ text

def rowValues (options : WriterOptions) (row : Row) : List JsonValue :=
  (List.range options.columns.length).map fun i => cellValue options.policy (cellAt row i)

def Shows (options : WriterOptions) (row : Row) (value : JsonValue) : Prop :=
  ∃ keys : List Text, keys.Nodup ∧ keys.length = options.columns.length ∧ (options.columns.Nodup → keys = options.columns) ∧
    value = .object (keys.zip (rowValues options row))

def splitLines : Text → List Text × Text
  | [] => ([], [])
  | c :: text => match splitLines text with
    | (lines, rest) =>
        if c = newline then ([] :: lines, rest)
        else match lines with
          | [] => ([], c :: rest)
          | line :: lines => ((c :: line) :: lines, rest)

def Exported (options : WriterOptions) (rows : List Row) (text : Text) : Prop :=
  match options.format with
  | .json => ∃ values, parseJson text = some (.array values) ∧ List.Forall₂ (Shows options) rows values
  | .ndjson => ∃ lines, splitLines text = (lines, []) ∧
      List.Forall₂ (fun row line => ∃ value, parseJson line = some value ∧ Shows options row value) rows lines

def Numeric (cell : Cell) : Prop := ∀ n, cell = .number n → n.finite = true → numericToken n.text = true

end Values

section Numbers

theorem digitsScalar {t : Text} (all : ∀ c ∈ t, isDigit c = true) : ∀ c ∈ t, isScalarUnit c = true := by
  intro c member
  have own : 48 ≤ c ∧ c ≤ 57 := by simpa [isDigit] using all c member
  simp [isScalarUnit, own]

theorem exponentScalar {t : Text} (exponent : exponentToken t = true) : ∀ c ∈ t, isScalarUnit c = true := by
  cases t with
  | nil => simp
  | cons e rest =>
    simp only [exponentToken, digits, Bool.and_eq_true, Bool.or_eq_true, decide_eq_true_eq, List.all_eq_true] at exponent
    have letter : isScalarUnit e = true := by rcases exponent.1 with rfl | rfl <;> decide
    have tail : ∀ c ∈ rest, isScalarUnit c = true := by
      have own := digitsScalar exponent.2.2
      cases rest with
      | nil => simp
      | cons sign ds =>
        by_cases signed : sign = 43 ∨ sign = 45
        · have plain : unsigned (sign :: ds) = ds := by simp [unsigned, signed]
          rw [plain] at own
          refine List.forall_mem_cons.mpr ⟨?_, own⟩
          rcases signed with rfl | rfl <;> decide
        · have plain : unsigned (sign :: ds) = sign :: ds := by simp [unsigned, signed]
          rwa [plain] at own
    exact List.forall_mem_cons.mpr ⟨letter, tail⟩

theorem takenScalar (t : Text) (rest : ∀ c ∈ t.dropWhile isDigit, isScalarUnit c = true) : ∀ c ∈ t, isScalarUnit c = true := by
  intro c member
  rw [← List.takeWhile_append_dropWhile (p := isDigit) (l := t)] at member
  rcases List.mem_append.mp member with digit | later
  · exact digitsScalar (fun d taken => List.mem_takeWhile_imp taken) c digit
  · exact rest c later

theorem fractionScalar {t : Text} (fraction : fractionToken t = true) : ∀ c ∈ t, isScalarUnit c = true := by
  unfold fractionToken at fraction
  split at fraction
  · rw [Bool.and_eq_true] at fraction
    exact List.forall_mem_cons.mpr ⟨by decide, takenScalar _ (exponentScalar fraction.2)⟩
  · exact exponentScalar fraction

theorem numericScalar {v : Text} (numeric : numericToken v = true) : (∀ c ∈ v, isScalarUnit c = true) ∧ v ≠ [] := by
  refine ⟨?_, ?_⟩
  · simp only [numericToken, Bool.and_eq_true] at numeric
    have body := takenScalar _ (fractionScalar numeric.2)
    cases v with
    | nil => simp
    | cons sign rest =>
      by_cases signed : sign = 45
      · have plain : (if (sign :: rest).head? = some 45 then (sign :: rest).drop 1 else sign :: rest) = rest := by simp [signed]
        rw [plain] at body
        refine List.forall_mem_cons.mpr ⟨?_, body⟩
        subst signed
        decide
      · have plain : (if (sign :: rest).head? = some 45 then (sign :: rest).drop 1 else sign :: rest) = sign :: rest := by
          simp [signed]
        rwa [plain] at body
  · rintro rfl
    contradiction

theorem numberNamed {v : Text} (numeric : numericToken v = true) : scalar numericToken v = some (.number v) := by
  have other {word : Text} (wordy : numericToken word = false) : v ≠ word := by
    rintro rfl
    rw [numeric] at wordy
    contradiction
  rw [scalar, if_neg (other (by decide)), if_neg (other (by decide)), if_neg (other (by decide)), if_pos numeric]

end Numbers

section Cells
variable {codec : JsonCodec} (policy : ValuePolicy)

abbrev ReadsAs (value : JsonValue) (text : Text) : Prop := Spells (readValue numericToken) value text

theorem numberReads {v : Text} (numeric : numericToken v = true) : ReadsAs (.number v) v :=
  scalarReads numericToken (numberNamed numeric) (numericScalar numeric).2 (numericScalar numeric).1

theorem envelopeReads (tag : CellTag) (v : Text) (of : Option Text) :
    ReadsAs (.object ((envelopeMembers tag v of).map fun m => (m.1, .string m.2))) (envelopeText tag v of) := by
  have distinct : (((envelopeMembers tag v of).map fun m => (m.1, JsonValue.string m.2)).map Prod.fst).Nodup := by
    cases of <;> simp [envelopeMembers] <;> decide
  rw [← collapseDistinct distinct]
  refine objectReads numericToken (List.forall₂_map_left_iff.mpr (List.forall₂_map_right_iff.mpr ?_))
  refine List.forall₂_same.mpr fun m _ => ?_
  have nothing : Blank [] := by simp [Blank]
  exact memberReads numericToken nothing (stringReads numericToken m.2)

theorem cellReads (spoken : Language codec) {cell : Cell} (numbers : Numeric cell) :
    ReadsAs (cellValue policy cell) (renderJsonValue codec cell policy) := by
  have text (t : Text) : ReadsAs (.string t) (codec.stringify t) := by
    rw [spoken.stringify]
    exact stringReads numericToken t
  cases cell with
  | null =>
    cases own : policy.nullText with
    | none =>
      simp only [cellValue, renderJsonValue, own]
      exact scalarReads numericToken rfl (by decide) (by decide)
    | some word =>
      simp only [cellValue, renderJsonValue, own]
      exact text word
  | boolean value =>
    cases own : policy.booleanText with
    | some words =>
      simp only [cellValue, renderJsonValue, own]
      exact text _
    | none =>
      simp only [cellValue, renderJsonValue, own]
      cases value
      · exact scalarReads numericToken rfl (by decide) (by decide)
      · exact scalarReads numericToken rfl (by decide) (by decide)
  | number n =>
    simp only [cellValue, renderJsonValue]
    split
    · rename_i finite
      exact numberReads (numbers n rfl finite)
    · exact text _
  | string t => exact text t
  | tagged tag v of =>
    simp only [cellValue, renderJsonValue]
    split
    · rw [spoken.envelope]
      exact envelopeReads tag v of
    cases tag with
    | json =>
      simp only [Bool.not_eq_true', spoken.valid]
      by_cases inline : policy.jsonInline = true
      · cases read : parseJson v with
        | none => simpa [inline] using text v
        | some value => simpa [inline] using documentReads numericToken read
      · simpa [inline] using text v
    | bytes => exact text _
    | bigint | decimal | decimal128 =>
      simp only [Bool.and_eq_true]
      split
      · rename_i raw
        exact numberReads raw.2
      · exact text v
    | _ => exact text v

theorem quotedBare (text : Text) : newline ∉ quoted text := quotedLine text

theorem numberBare {v : Text} (numeric : numericToken v = true) : newline ∉ v := fun member => by
  have own := (numericScalar numeric).1 newline member
  contradiction

theorem envelopeBare (tag : CellTag) (v : Text) (of : Option Text) : newline ∉ envelopeText tag v of := by
  cases of <;> simp [envelopeText, envelopeMembers, joined, List.intercalate, quotedBare, newline]

theorem cellBare (spoken : Language codec) {cell : Cell} (numbers : Numeric cell) :
    newline ∈ renderJsonValue codec cell policy ↔ ∃ text, inlined policy cell = some text ∧ newline ∈ text := by
  have text (t : Text) : newline ∉ codec.stringify t := by
    rw [spoken.stringify]
    exact quotedBare t
  cases cell with
  | null =>
    cases own : policy.nullText <;> simp [renderJsonValue, inlined, own, text, units, newline]
  | boolean value =>
    cases own : policy.booleanText <;> cases value <;> simp [renderJsonValue, inlined, own, text, units, newline]
  | number n =>
    simp only [renderJsonValue, inlined]
    split
    · rename_i finite
      simp [numberBare (numbers n rfl finite)]
    · simp [text]
  | string t => simp [renderJsonValue, inlined, text]
  | tagged tag v of =>
    simp only [renderJsonValue]
    split
    · rename_i wrapped
      rw [spoken.envelope]
      cases tag <;> simp [inlined, wrapped, envelopeBare]
    · rename_i bare
      cases tag with
      | json =>
        simp only [Bool.not_eq_true', spoken.valid, inlined]
        by_cases inline : policy.jsonInline = true
        · cases read : parseJson v <;> simp [inline, bare, text]
        · simp [inline, text]
      | bigint | decimal | decimal128 =>
        simp only [Bool.and_eq_true, inlined]
        split
        · rename_i raw
          simp [numberBare raw.2]
        · simp [text]
      | _ => simp [inlined, text]

end Cells

section Objects
variable (codec : JsonCodec) (options : WriterOptions) (row : Row)

def fieldTexts (i : Nat) : List Text → List Text
  | [] => []
  | name :: names => ((if 0 < i then gap options else []) ++ memberText codec options row i name) :: fieldTexts (i + 1) names

def fields (i : Nat) (names : List Text) : List (Text × JsonValue) :=
  names.zip ((List.range' i names.length).map fun i => cellValue options.policy (cellAt row i))

def rowObject : JsonValue := .object (collapse (options.columns.zip (rowValues options row)))

theorem joinedCons (text : Units) (texts : List Units) : joined (text :: texts) = text ++ texts.flatMap (44 :: ·) := by
  induction texts generalizing text with
  | nil => simp [joined]
  | cons next texts ih =>
    rw [List.flatMap_cons, List.cons_append, ← ih next]
    simp [joined, List.intercalate]

theorem memberTail (i : Nat) (names : List Text) :
    memberTexts codec options row (i + 1) names = (fieldTexts codec options row (i + 1) names).flatMap (44 :: ·) := by
  induction names generalizing i with
  | nil => rfl
  | cons name names ih =>
    rw [memberTexts, fieldTexts, if_pos (Nat.succ_pos i), if_pos (Nat.succ_pos i), List.flatMap_cons, ih]
    simp [units]

theorem memberJoined (names : List Text) : memberTexts codec options row 0 names = joined (fieldTexts codec options row 0 names) := by
  cases names with
  | nil => rfl
  | cons name names =>
    rw [memberTexts, fieldTexts, joinedCons, memberTail]
    rfl

variable {codec} {row}

theorem gapBlank : Blank (gap options) := by
  unfold gap
  split <;> simp [Blank, units, JsonReader.isBlank]

theorem cellNumeric (numbers : ∀ cell ∈ row, Numeric cell) (i : Nat) : Numeric (cellAt row i) := by
  cases found : row[i]? with
  | none =>
    intro n same
    simp [cellAt, found] at same
  | some cell =>
    rw [cellAt, found, Option.getD_some]
    exact numbers cell (List.mem_of_getElem? found)

theorem fieldsRead (spoken : Language codec) (numbers : ∀ cell ∈ row, Numeric cell) (i : Nat) (names : List Text) :
    List.Forall₂ (Spells fun n => readMember (readValue numericToken n)) (fields options row i names)
      (fieldTexts codec options row i names) := by
  induction names generalizing i with
  | nil => exact List.Forall₂.nil
  | cons name names ih =>
    rw [fields, List.length_cons, List.range'_succ, List.map_cons, List.zip_cons_cons, fieldTexts]
    refine List.Forall₂.cons ?_ (ih (i + 1))
    have own : Spells (fun n => readMember (readValue numericToken n)) (name, cellValue options.policy (cellAt row i))
        (memberText codec options row i name) := by
      have colon : units ":" = [58] := rfl
      rw [memberText, spoken.stringify, colon, List.singleton_append]
      exact memberReads numericToken (gapBlank options) (cellReads options.policy spoken (cellNumeric numbers i))
    have lead : Blank (if 0 < i then gap options else []) := by
      split
      · exact gapBlank options
      · simp [Blank]
    exact readsLead (fun n t => memberLead lead (readValue numericToken n) t) own

theorem objectRead (spoken : Language codec) (numbers : ∀ cell ∈ row, Numeric cell) :
    ReadsAs (rowObject options row) (object codec options row) := by
  have whole : options.columns.zip (rowValues options row) = fields options row 0 options.columns := by
    rw [rowValues, fields, List.range_eq_range']
  rw [rowObject, whole, object, memberJoined]
  exact objectReads numericToken (fieldsRead options spoken numbers 0 options.columns)

theorem membersBare (spoken : Language codec) (i : Nat) (names : List Text) :
    newline ∈ memberTexts codec options row i names ↔
      ∃ j < names.length, newline ∈ renderJsonValue codec (cellAt row (i + j)) options.policy := by
  induction names generalizing i with
  | nil => simp [memberTexts]
  | cons name names ih =>
    have lead : newline ∉ (if 0 < i then units "," ++ gap options else []) := by
      unfold gap
      split
      · split <;> simp [units, newline]
      · simp
    have space : newline ∉ gap options := by
      unfold gap
      split <;> simp [units, newline]
    have key : newline ∉ codec.stringify name := by
      rw [spoken.stringify]
      exact quotedBare name
    have colon : newline ∉ units ":" := by decide
    simp only [memberTexts, memberText, List.mem_append, lead, key, colon, space, false_or, ih, List.length_cons]
    constructor
    · rintro (first | ⟨j, within, later⟩)
      · exact ⟨0, by omega, first⟩
      · exact ⟨j + 1, by omega, by rwa [show i + (j + 1) = i + 1 + j by omega]⟩
    · rintro ⟨j, within, broken⟩
      cases j with
      | zero => exact Or.inl broken
      | succ j => exact Or.inr ⟨j, by omega, by rwa [show i + 1 + j = i + (j + 1) by omega]⟩

theorem objectBare (spoken : Language codec) (numbers : ∀ cell ∈ row, Numeric cell) :
    newline ∉ object codec options row ↔ Unbroken options row := by
  have opening : newline ∉ units "\x7b" := by decide
  have closing : newline ∉ units "\x7d" := by decide
  simp only [object, List.mem_append, opening, closing, false_or, or_false, membersBare options spoken, Nat.zero_add]
  simp only [cellBare options.policy spoken (cellNumeric numbers _), Unbroken, not_exists, not_and]

theorem shownNames : Shows options row (rowObject options row) ↔ options.columns.Nodup := by
  have sized (keys : List Text) (long : keys.length = options.columns.length) :
      (keys.zip (rowValues options row)).map Prod.fst = keys := List.map_fst_zip (by simp [rowValues, long])
  constructor
  · rintro ⟨keys, distinct, long, -, same⟩
    have left := collapseKeys (options.columns.zip (rowValues options row))
    rw [JsonValue.object.inj same, sized keys long, sized options.columns rfl] at left
    have within : keys ⊆ options.columns := fun key member => (left.2 key).mp member
    exact ((List.subperm_of_subset distinct within).perm_of_length_le (by omega)).nodup_iff.mp distinct
  · intro distinct
    refine ⟨options.columns, distinct, rfl, fun _ => rfl, ?_⟩
    rw [rowObject, collapseDistinct (by rwa [sized options.columns rfl])]

end Objects

section Outputs
variable (codec : JsonCodec) (options : WriterOptions)

theorem renderedState (w : JsonWriter) (rows : List Row) :
    (renderRows codec options w rows).2 = ⟨w.opened, w.written + rows.length⟩ := by
  induction rows generalizing w with
  | nil => rfl
  | cons row rows ih =>
    rw [renderRows, ih, List.length_cons, Nat.add_comm rows.length, Nat.add_assoc]

theorem renderedMore (w : JsonWriter) (rows more : List Row) : renderRows codec options w (rows ++ more) =
    ((renderRows codec options w rows).1 ++ (renderRows codec options (renderRows codec options w rows).2 more).1,
      (renderRows codec options (renderRows codec options w rows).2 more).2) := by
  induction rows generalizing w with
  | nil => rfl
  | cons row rows ih => simp [renderRows, ih]

theorem writtenChunks (w : JsonWriter) (chunks : List (List Row)) : writeChunks codec options w chunks =
    (openText options w).1 ++ ((renderRows codec options (openText options w).2 chunks.flatten).1 ++
      postamble options (renderRows codec options (openText options w).2 chunks.flatten).2) := by
  induction chunks generalizing w with
  | nil => rfl
  | cons rows chunks ih =>
    have opened : (openText options w).2.opened = true := by
      unfold openText
      split
      · assumption
      · rfl
    have again : openText options (renderRows codec options (openText options w).2 rows).2 =
        ([], (renderRows codec options (openText options w).2 rows).2) := by
      rw [openText, if_pos (by rw [renderedState]; exact opened)]
    simp only [writeChunks, renderChunk, ih, again, List.flatten_cons, renderedMore, List.nil_append, List.append_assoc]

theorem writtenWhole (chunks : List (List Row)) : written codec options chunks =
    preamble options ++ ((renderRows codec options ⟨true, 0⟩ chunks.flatten).1 ++
      postamble options ⟨true, chunks.flatten.length⟩) := by
  have fresh : openText options ⟨false, 0⟩ = (preamble options, ⟨true, 0⟩) := rfl
  rw [written, writtenChunks, fresh, renderedState, Nat.zero_add]

def itemLead : Text := if options.pretty then units "\n  " else []

theorem arrayTail (array : options.format = .json) (w : JsonWriter) (later : w.written ≠ 0) (rows : List Row) :
    (renderRows codec options w rows).1 =
      (rows.map fun row => itemLead options ++ object codec options row).flatMap (44 :: ·) := by
  induction rows generalizing w with
  | nil => rfl
  | cons row rows ih =>
    rw [renderRows, ih { w with written := w.written + 1 } (Nat.succ_ne_zero _)]
    simp [rowLead, isArray, array, later, itemLead, units]

theorem arrayJoined (array : options.format = .json) (rows : List Row) : (renderRows codec options ⟨true, 0⟩ rows).1 =
    joined (rows.map fun row => itemLead options ++ object codec options row) := by
  cases rows with
  | nil => rfl
  | cons row rows =>
    rw [renderRows, arrayTail codec options array _ (Nat.succ_ne_zero _), List.map_cons, joinedCons]
    simp [rowLead, isArray, array, itemLead]

theorem linesWritten (lines : options.format = .ndjson) (w : JsonWriter) (rows : List Row) :
    (renderRows codec options w rows).1 = rows.flatMap fun row => object codec options row ++ [newline] := by
  have plain : isArray options = false := by simp [isArray, lines]
  induction rows generalizing w with
  | nil => rfl
  | cons row rows ih =>
    rw [renderRows, ih]
    simp [rowLead, plain, units]

end Outputs

section Results
variable (codec : JsonCodec) (options : WriterOptions)

theorem objectsShown (rows : List Row) :
    List.Forall₂ (Shows options) rows (rows.map (rowObject options)) ↔ rows = [] ∨ options.columns.Nodup := by
  rw [List.forall₂_map_right_iff, List.forall₂_same]
  simp only [shownNames]
  cases rows with
  | nil => simp
  | cons row rows => exact ⟨fun distinct => Or.inr (distinct row List.mem_cons_self), fun distinct _ _ => distinct.resolve_left (by simp)⟩

theorem arrayShown (spoken : Language codec) (chunks : List (List Row))
    (numbers : ∀ row ∈ chunks.flatten, ∀ cell ∈ row, Numeric cell) (array : options.format = .json) :
    Exported options chunks.flatten (written codec options chunks) ↔ chunks.flatten = [] ∨ options.columns.Nodup := by
  have items : List.Forall₂ ReadsAs (chunks.flatten.map (rowObject options))
      (chunks.flatten.map fun row => itemLead options ++ object codec options row) := by
    refine List.forall₂_map_left_iff.mpr (List.forall₂_map_right_iff.mpr (List.forall₂_same.mpr fun row member => ?_))
    have lead : Blank (itemLead options) := by
      unfold itemLead
      split <;> simp [Blank, units, JsonReader.isBlank]
    exact readsLead (fun n t => valueLead numericToken n lead t) (objectRead options spoken (numbers row member))
  let tail : Text := if options.pretty && decide (chunks.flatten.length > 0) then units "\n" else []
  have blank : Blank tail := by
    simp only [tail]
    split <;> simp [Blank, units, JsonReader.isBlank]
  have last : Blank [newline] := by simp [Blank, JsonReader.isBlank]
  have whole : written codec options chunks = 91 :: (joined (chunks.flatten.map fun row =>
      itemLead options ++ object codec options row) ++ (tail ++ [93])) ++ [newline] := by
    simp [writtenWhole, preamble, isArray, array, arrayJoined codec options array, postamble, tail, units]
  have read : parseJson (written codec options chunks) = some (.array (chunks.flatten.map (rowObject options))) := by
    rw [whole]
    exact readsDocument numericToken (arrayReads numericToken (by decide) items blank) last
  simp only [Exported, array, read, Option.some.injEq, JsonValue.array.injEq, exists_eq_left', objectsShown]

theorem linesCounted (text : Text) : (splitLines text).1.length = text.count newline := by
  induction text with
  | nil => rfl
  | cons c text ih =>
    simp only [splitLines, List.count_cons]
    split
    · rename_i ends
      simp [ends, ih]
    · rename_i other
      split
      · rename_i none
        rw [none] at ih
        simpa [other] using ih
      · rename_i line lines split'
        rw [split'] at ih
        simpa [other] using ih

theorem splitLine {line : Text} (bare : newline ∉ line) (rest : Text) :
    splitLines (line ++ newline :: rest) = (line :: (splitLines rest).1, (splitLines rest).2) := by
  induction line with
  | nil => simp [splitLines]
  | cons c line ih =>
    rw [List.mem_cons, not_or] at bare
    simp [splitLines, ih bare.2, Ne.symm bare.1]

theorem linesSplit {texts : List Text} (bare : ∀ text ∈ texts, newline ∉ text) :
    splitLines (texts.flatMap fun text => text ++ [newline]) = (texts, []) := by
  induction texts with
  | nil => rfl
  | cons text texts ih =>
    rw [List.flatMap_cons, List.append_assoc, List.singleton_append, splitLine (bare text List.mem_cons_self),
      ih fun t member => bare t (List.mem_cons_of_mem _ member)]

theorem countBare {texts : List Text}
    (counted : (texts.flatMap fun text => text ++ [newline]).count newline = texts.length) : ∀ text ∈ texts, newline ∉ text := by
  have more (texts : List Text) : texts.length ≤ (texts.flatMap fun text => text ++ [newline]).count newline := by
    induction texts with
    | nil => exact Nat.le_refl 0
    | cons text texts ih =>
      simp only [List.flatMap_cons, List.count_append, List.count_singleton_self, List.length_cons]
      omega
  induction texts with
  | nil => simp
  | cons text texts ih =>
    have rest := more texts
    simp only [List.flatMap_cons, List.count_append, List.count_singleton_self, List.length_cons] at counted
    have own : text.count newline = 0 := by omega
    exact List.forall_mem_cons.mpr ⟨List.count_eq_zero.mp own, ih (by omega)⟩

theorem linesShown (spoken : Language codec) (chunks : List (List Row))
    (numbers : ∀ row ∈ chunks.flatten, ∀ cell ∈ row, Numeric cell) (lines : options.format = .ndjson) :
    Exported options chunks.flatten (written codec options chunks) ↔
      chunks.flatten = [] ∨ options.columns.Nodup ∧ ∀ row ∈ chunks.flatten, Unbroken options row := by
  have plain : isArray options = false := by simp [isArray, lines]
  have whole : written codec options chunks =
      (chunks.flatten.map (object codec options)).flatMap fun text => text ++ [newline] := by
    rw [writtenWhole, linesWritten codec options lines, List.flatMap_map]
    simp [preamble, postamble, plain]
  have parsed {row : Row} (member : row ∈ chunks.flatten) : parseJson (object codec options row) = some (rowObject options row) := by
    have nothing : Blank [] := by simp [Blank]
    simpa using readsDocument numericToken (objectRead options spoken (numbers row member)) nothing
  have bare : (∀ text ∈ chunks.flatten.map (object codec options), newline ∉ text) ↔
      ∀ row ∈ chunks.flatten, Unbroken options row := by
    rw [List.forall_mem_map]
    exact forall₂_congr fun row member => objectBare options spoken (numbers row member)
  have shown : List.Forall₂ (fun row line => ∃ value, parseJson line = some value ∧ Shows options row value) chunks.flatten
      (chunks.flatten.map (object codec options)) ↔ chunks.flatten = [] ∨ options.columns.Nodup := by
    rw [← objectsShown, List.forall₂_map_right_iff, List.forall₂_map_right_iff, List.forall₂_same, List.forall₂_same]
    exact forall₂_congr fun row member => by simp [parsed member]
  simp only [Exported, lines]
  constructor
  · rintro ⟨found, split, items⟩
    have counted := linesCounted (written codec options chunks)
    rw [split, whole, ← items.length_eq, ← List.length_map (object codec options)] at counted
    have unbroken := countBare counted.symm
    rw [whole, linesSplit unbroken] at split
    cases split
    exact (shown.mp items).imp_right fun distinct => ⟨distinct, bare.mp unbroken⟩
  · intro condition
    have unbroken : ∀ row ∈ chunks.flatten, Unbroken options row := by
      rcases condition with none | ⟨-, unbroken⟩
      · simp [none]
      · exact unbroken
    refine ⟨_, (congrArg splitLines whole).trans (linesSplit (bare.mpr unbroken)), shown.mpr (condition.imp_right And.left)⟩

theorem exportedWhole (codec : JsonCodec) (spoken : Language codec) (options : WriterOptions) (chunks : List (List Row))
    (numbers : ∀ row ∈ chunks.flatten, ∀ cell ∈ row, Numeric cell) :
    (Exported options chunks.flatten (written codec options chunks) ∧
      ∀ other : List (List Row), other.flatten = chunks.flatten → written codec options other = written codec options chunks) ↔
    chunks.flatten = [] ∨
      options.columns.Nodup ∧ (options.format = .ndjson → ∀ row ∈ chunks.flatten, Unbroken options row) := by
  have uncut : ∀ other : List (List Row), other.flatten = chunks.flatten →
      written codec options other = written codec options chunks := fun other same => by
    rw [writtenWhole, writtenWhole, same]
  rw [and_iff_left uncut]
  cases format : options.format with
  | json => simpa using arrayShown codec options spoken chunks numbers format
  | ndjson => simpa using linesShown codec options spoken chunks numbers format

section Examples

def sampleCodec : JsonCodec where
  stringify := quoted
  envelope
    | .tagged tag v of => envelopeText tag v of
    | _ => []
  valid text := (parseJson text).isSome
  parse text :=
    match parseJson text with
    | some (.string text) => some (.string text)
    | some .null => some .null
    | _ => none
  parseString text := by
    have nothing : Blank [] := by simp [Blank]
    have read : parseJson (quoted text) = some (.string text) := by
      simpa using readsDocument numericToken (stringReads numericToken text) nothing
    rw [read]
  parseNull := rfl

theorem sampleLanguage : Language sampleCodec := ⟨fun _ => rfl, fun _ _ _ => rfl, fun _ => rfl⟩

def twoColumns (format : JsonFormat) (second : String) : WriterOptions :=
  ⟨format, [units "id", units second], basePolicy, false⟩

def sampleRow : Row := [.number ⟨units "1", true⟩, .tagged .json (units "[1,2]") none]

theorem twoExported :
    Exported (twoColumns .ndjson "tags") [sampleRow, sampleRow] (written sampleCodec (twoColumns .ndjson "tags") [[sampleRow], [sampleRow]]) :=
  have unbroken : Unbroken (twoColumns .ndjson "tags") sampleRow := by
    intro i within text found
    match i, within with
    | 0, _ => cases found
    | 1, _ => cases found; decide
  have numeric : ∀ cell ∈ sampleRow, Numeric cell := by
    refine List.forall_mem_cons.mpr ⟨?_, List.forall_mem_singleton.mpr ?_⟩
    · rintro n ⟨⟩ -
      decide
    · rintro n ⟨⟩
  ((exportedWhole sampleCodec sampleLanguage (twoColumns .ndjson "tags") [[sampleRow], [sampleRow]]
    (by simpa using numeric)).mpr (Or.inr ⟨by decide, fun _ => by simpa using unbroken⟩)).1

-- The second of two columns of one name takes the place of the first.
theorem sameNameLost : ¬∀ (options : WriterOptions) (chunks : List (List Row)),
    (∀ row ∈ chunks.flatten, ∀ cell ∈ row, Numeric cell) →
    Exported options chunks.flatten (written sampleCodec options chunks) := by
  intro shown
  have numeric : ∀ row ∈ [[[Cell.boolean true, Cell.boolean false]]].flatten, ∀ cell ∈ row, Numeric cell := by
    simp [Numeric]
  have two := shown (twoColumns .json "id") [[[.boolean true, .boolean false]]] numeric
  have condition := (arrayShown sampleCodec (twoColumns .json "id") sampleLanguage _ numeric rfl).mp two
  exact absurd condition (by decide)

end Examples

end Results

end DatabaseAdmin.JsonWriters
