import DatabaseAdmin.CellCoercion

/-! The text the export writers give a cell: a field of a delimited file, or a JSON fragment. How
JSON spells a string and reads it back is a parameter. -/
namespace DatabaseAdmin.TextWriters
open CodeUnits BinaryText WireCells CellCoercion

structure ValuePolicy where
  binary : BinaryEncoding
  nullText : Option Text
  quoteEmptyStrings : Bool
  booleanText : Option (Text × Text)
  jsonInline : Bool
  taggedEnvelope : Bool
  rawNumbers : Bool
  escapeFormulas : Bool

def basePolicy : ValuePolicy where
  binary := .base64
  nullText := none
  quoteEmptyStrings := true
  booleanText := none
  jsonInline := true
  taggedEnvelope := false
  rawNumbers := false
  escapeFormulas := false

inductive ExportFormat where
  | csv | tsv | json | ndjson | markdown | html | xlsx | sql
  deriving DecidableEq

def defaultPolicyFor : ExportFormat → ValuePolicy
  | .markdown | .html => { basePolicy with nullText := some (units "NULL") }
  | _ => basePolicy

def renderText (cell : Cell) (policy : ValuePolicy) : Option Text :=
  match cell with
  | .null => policy.nullText
  | .boolean value =>
      match policy.booleanText with
      | some words => some (if value then words.1 else words.2)
      | none => some ((cellToText policy.binary (.boolean value)).getD [])
  | cell => some ((cellToText policy.binary cell).getD [])

structure JsonCodec where
  stringify : Text → Text
  envelope : Cell → Text
  valid : Text → Bool
  parse : Text → Option JsonField
  parseString : ∀ text, parse (stringify text) = some (.string text)
  parseNull : parse (units "null") = some .null

def exponentToken : Text → Bool
  | [] => true
  | e :: rest => (e = 101 || e = 69) && digits (unsigned rest)

def fractionToken : Text → Bool
  | 46 :: rest => (rest.takeWhile isDigit ≠ []) && exponentToken (rest.dropWhile isDigit)
  | rest => exponentToken rest

def numericToken (v : Text) : Bool :=
  let body := if v.head? = some 45 then v.drop 1 else v
  let whole := body.takeWhile isDigit
  (whole = [48] || (whole ≠ [] && whole.head? ≠ some 48)) && fractionToken (body.dropWhile isDigit)

def renderJsonValue (codec : JsonCodec) (cell : Cell) (policy : ValuePolicy) : Text :=
  match cell with
  | .null =>
      match policy.nullText with
      | none => units "null"
      | some text => codec.stringify text
  | .boolean value =>
      match policy.booleanText with
      | some words => codec.stringify (if value then words.1 else words.2)
      | none => units (if value then "true" else "false")
  | .number n => if n.finite then n.text else codec.stringify n.text
  | .string text => codec.stringify text
  | .tagged tag v of =>
      if policy.taggedEnvelope then codec.envelope (.tagged tag v of)
      else
        match tag with
        | .json => if !policy.jsonInline then codec.stringify v else if codec.valid v then v else codec.stringify v
        | .bytes => codec.stringify ((cellToText policy.binary (.tagged .bytes v of)).getD [])
        | .bigint | .decimal | .decimal128 =>
            if policy.rawNumbers && numericToken v then v else codec.stringify v
        | _ => codec.stringify v

inductive TextFormat where
  | csv | tsv | json | ndjson
  deriving DecidableEq

def TextFormat.format : TextFormat → ExportFormat
  | csv => .csv
  | tsv => .tsv
  | json => .json
  | ndjson => .ndjson

section Bytes
variable (reading : Reading) (codec : JsonCodec)

def binaryPolicy (format : TextFormat) (encoding : BinaryEncoding) : ValuePolicy :=
  { defaultPolicyFor format.format with binary := encoding }

def importedCell (format : TextFormat) (policy : ValuePolicy) (cell : Cell) (m : ColumnMapping) (dialect : CsvDialect)
    (line : Nat) : Option (Except CsvRowError Cell) :=
  match format with
  | .csv | .tsv => (renderText cell policy).map fun text => coerceValue reading text m dialect line
  | .json | .ndjson => (codec.parse (renderJsonValue codec cell policy)).map fun field => jsonCell reading field m dialect line

def binaryText : BinaryEncoding → List UInt8 → Text
  | .base64, bytes => base64Text bytes
  | .hex, bytes => hexText bytes

def ReadsBack (encoding : BinaryEncoding) (bytes : List UInt8) (m : ColumnMapping) (dialect : CsvDialect) : Prop :=
  binaryText encoding bytes ≠ m.nullLiteral.getD dialect.nullLiteral ∧
    (encoding = .base64 → reHex (base64Text bytes) = false)

theorem writtenField (format : TextFormat) (encoding : BinaryEncoding) (bytes : List UInt8) (m : ColumnMapping)
    (dialect : CsvDialect) (line : Nat) :
    importedCell reading codec format (binaryPolicy format encoding) (bytesCell bytes) m dialect line =
      some (coerceValue reading (binaryText encoding bytes) m dialect line) := by
  have shown : cellToText encoding (bytesCell bytes) = some (binaryText encoding bytes) := by
    cases encoding with
    | base64 => rfl
    | hex =>
      show some (hexText (base64Bytes (base64Text bytes))) = _
      rw [base64BytesText]
      rfl
  have text (policy : ValuePolicy) (binary : policy.binary = encoding) :
      renderText (bytesCell bytes) policy = some (binaryText encoding bytes) := by
    show some ((cellToText policy.binary (bytesCell bytes)).getD []) = _
    rw [binary, shown]
    rfl
  have json (policy : ValuePolicy) (binary : policy.binary = encoding) (plain : policy.taggedEnvelope = false) :
      renderJsonValue codec (bytesCell bytes) policy = codec.stringify (binaryText encoding bytes) := by
    simp only [renderJsonValue, bytesCell, plain, Bool.false_eq_true, if_false]
    show codec.stringify ((cellToText policy.binary (bytesCell bytes)).getD []) = _
    rw [binary, shown]
    rfl
  cases format <;> simp only [importedCell, binaryPolicy, TextFormat.format, defaultPolicyFor]
  · rw [text _ rfl, Option.map_some]
  · rw [text _ rfl, Option.map_some]
  · rw [json _ rfl rfl, codec.parseString, Option.map_some, jsonCell]
  · rw [json _ rfl rfl, codec.parseString, Option.map_some, jsonCell]

theorem textPlain (encoding : BinaryEncoding) (bytes : List UInt8) : trim (binaryText encoding bytes) = binaryText encoding bytes := by
  cases encoding with
  | base64 => exact trimPlain (base64Units bytes)
  | hex => exact trimPlain (hexUnits bytes)

theorem hexPrefix (bytes : List UInt8) : startsWith (units "0x") (hexText bytes) = false := by
  cases bytes with
  | nil => rfl
  | cons b bytes =>
    have small := b.toNat_lt
    have second : hexUnit (b.toNat % 16) ≠ 120 := by
      unfold hexUnit
      grind
    have letter : units "0x" = [48, 120] := rfl
    simp [startsWith, letter, hexText, List.isPrefixOf, Ne.symm second]

theorem hexMisread (bytes : List UInt8) (looks : reHex (base64Text bytes) = true) :
    hexBytes (if startsWith (units "0x") (base64Text bytes) then (base64Text bytes).drop 2 else base64Text bytes) ≠ bytes := by
  have digit {c : CodeUnit} {text : Text} (pairs : hexPairs text = true) (member : c ∈ text) : (hexValue c).isSome := by
    fun_induction hexPairs text with
    | case1 a b rest ih =>
      simp only [Bool.and_eq_true, Bool.or_eq_true, decide_eq_true_eq] at pairs
      rcases List.mem_cons.mp member with rfl | later
      · exact pairs.1.1
      rcases List.mem_cons.mp later with rfl | last
      · exact pairs.1.2
      rcases pairs.2 with none | more
      · simp [none] at last
      · exact ih more last
    | case2 short => contradiction
  have bare : hexValue BinaryText.padding = none := rfl
  intro same
  have counted := congrArg List.length same
  by_cases lead : startsWith (units "0x") (base64Text bytes) = true
  · obtain ⟨rest, whole⟩ := startsWithIff.mp lead
    rw [if_pos lead] at counted
    have letter : units "0x" = [48, 120] := rfl
    rw [letter] at whole
    have pairs : hexPairs ((base64Text bytes).drop 2) = true := by
      simp only [reHex, Bool.or_eq_true, Bool.and_eq_true] at looks
      rcases looks with ⟨-, pairs⟩ | pairs
      · exact pairs
      · have wrong := digit pairs (show (120 : CodeUnit) ∈ base64Text bytes by rw [← whole]; simp)
        contradiction
    have unpadded : BinaryText.padding ∉ base64Text bytes := by
      rw [← whole] at pairs ⊢
      intro member
      simp only [List.cons_append, List.nil_append, List.mem_cons] at member
      rcases member with first | second | later
      · contradiction
      · contradiction
      · have wrong := digit pairs later
        rw [bare] at wrong
        contradiction
    have length := base64Length bytes unpadded
    obtain ⟨read, some'⟩ := hexBytesLength pairs
    have long := List.length_pos_iff.mpr some'
    rw [List.length_drop] at read long
    omega
  · rw [if_neg lead] at counted
    have pairs : hexPairs (base64Text bytes) = true := by
      simp only [reHex, lead, Bool.false_and, Bool.false_or] at looks
      simpa using looks
    have unpadded : BinaryText.padding ∉ base64Text bytes := fun member => by
      have wrong := digit pairs member
      rw [bare] at wrong
      contradiction
    have length := base64Length bytes unpadded
    obtain ⟨read, some'⟩ := hexBytesLength pairs
    have long := List.length_pos_iff.mpr some'
    omega

theorem binarySurvives (reading : Reading) (codec : JsonCodec) (format : TextFormat) (encoding : BinaryEncoding)
    (bytes : List UInt8) (m : ColumnMapping) (dialect : CsvDialect) (line : Nat) (target : m.targetType = some .binary) :
    importedCell reading codec format (binaryPolicy format encoding) (bytesCell bytes) m dialect line =
      some (.ok (bytesCell bytes)) ↔ ReadsBack encoding bytes m dialect := by
  rw [writtenField, Option.some.injEq]
  have wanted : m.targetType.getD .string = .binary := by rw [target, Option.getD_some]
  simp only [coerceValue, wanted, textPlain, ite_self, ReadsBack]
  by_cases literal : binaryText encoding bytes = m.nullLiteral.getD dialect.nullLiteral
  · simp only [literal, if_true, bytesCell, ne_eq, not_true_eq_false, false_and, iff_false]
    exact fun same => by simp at same
  by_cases empty : binaryText encoding bytes = [] ∧ m.nullLiteral.getD dialect.nullLiteral = []
  · exact absurd (empty.1.trans empty.2.symm) literal
  simp only [literal, if_false, if_neg empty, ne_eq, not_false_eq_true, true_and]
  cases encoding with
  | hex =>
    simp only [reduceCtorEq, false_implies, iff_true]
    by_cases none : bytes = []
    · subst none
      rfl
    · have looks : reHex (hexText bytes) = true := by
        simp only [reHex, hexPairsText bytes none, Bool.or_true]
      simp only [binaryText, looks, if_true, hexPrefix, Bool.false_eq_true, if_false, hexBytesText]
  | base64 =>
    simp only [binaryText, forall_const]
    by_cases looks : reHex (base64Text bytes) = true
    · simp only [looks, if_true, Bool.true_eq_false, iff_false]
      exact fun same => hexMisread bytes looks (bytesCellInj (Except.ok.inj same))
    · have sized : ¬(bytes.length = 0 ∧ (base64Text bytes).length > 0) := by
        rintro ⟨none, some'⟩
        rw [List.eq_nil_of_length_eq_zero none] at some'
        exact absurd some' (by decide)
      rw [Bool.not_eq_true] at looks
      simp only [looks, Bool.false_eq_true, if_false, base64BytesText, if_neg sized]

section Examples

def bareCodec : JsonCodec where
  stringify text := units "\"" ++ text ++ units "\""
  envelope _ := []
  valid _ := false
  parse text :=
    if text = units "null" then some .null
    else if text.head? = some 34 ∧ text.getLast? = some 34 then some (.string ((text.drop 1).dropLast))
    else none
  parseString text := by
    have closed : (34 :: (text ++ [34])).getLast? = some 34 := by
      rw [← List.cons_append, List.getLast?_concat]
    simp [units, closed]
  parseNull := rfl

def bareReading : Reading := ⟨id, bareCodec.stringify, fun _ => false, fun v => ⟨v, true⟩, fun _ _ _ => .error ""⟩

def binaryColumn : ColumnMapping := ⟨0, units "data", some (units "data"), some .binary, none, none, none⟩

theorem hexRead : importedCell bareReading bareCodec .json (binaryPolicy .json .hex) (bytesCell [109, 231, 159]) binaryColumn
    defaultDialect 1 = some (.ok (bytesCell [109, 231, 159])) :=
  (binarySurvives bareReading bareCodec .json .hex [109, 231, 159] binaryColumn defaultDialect 1 rfl).mpr
    ⟨by decide, by simp⟩

theorem beefMisread : ¬∀ (reading : Reading) (codec : JsonCodec) (format : TextFormat) (encoding : BinaryEncoding)
    (bytes : List UInt8) (m : ColumnMapping) (dialect : CsvDialect) (line : Nat), m.targetType = some .binary →
    importedCell reading codec format (binaryPolicy format encoding) (bytesCell bytes) m dialect line =
      some (.ok (bytesCell bytes)) := by
  intro survives
  have kept := survives bareReading bareCodec .csv .base64 [109, 231, 159] binaryColumn defaultDialect 1 rfl
  have read : importedCell bareReading bareCodec .csv (binaryPolicy .csv .base64) (bytesCell [109, 231, 159]) binaryColumn
      defaultDialect 1 = some (.ok (bytesCell [190, 239])) := rfl
  rw [read, Option.some.injEq, Except.ok.injEq] at kept
  exact absurd (bytesCellInj kept) (by decide)

end Examples

end Bytes

end DatabaseAdmin.TextWriters
