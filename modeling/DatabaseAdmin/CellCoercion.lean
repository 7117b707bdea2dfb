import DatabaseAdmin.SchemaModels
import DatabaseAdmin.WireCells

/-! What the importer makes of the text of one field: the null literal first, then the type of the
target column. -/
namespace DatabaseAdmin.CellCoercion
open CodeUnits BinaryText WireCells SchemaModels

inductive CsvEncoding where
  | utf8 | utf16le | utf16be | latin1
  deriving DecidableEq

structure CsvDialect where
  delimiter : Text
  quote : Text
  escape : Text
  encoding : CsvEncoding
  bom : Bool
  bomBytes : Nat
  hasHeader : Bool
  comment : Option Text
  nullLiteral : Text
  trim : Bool
  relaxQuotes : Bool
  deriving DecidableEq

def defaultDialect : CsvDialect where
  delimiter := units ","
  quote := units "\""
  escape := units "\""
  encoding := .utf8
  bom := false
  bomBytes := 0
  hasHeader := true
  comment := none
  nullLiteral := []
  trim := false
  relaxQuotes := false

structure ColumnMapping where
  sourceIndex : Nat
  sourceName : Text
  targetColumn : Option Text
  targetType : Option BaseType
  dateFormat : Option Text
  nullLiteral : Option Text
  trim : Option Bool

inductive TemporalKind where
  | date | time | timestamp
  deriving DecidableEq

structure CsvRowError where
  message : Text
  line : Nat
  column : Nat
  columnName : Text
  value : Text

structure Reading where
  toLowerCase : Text → Text
  stringify : Text → Text
  jsonValid : Text → Bool
  toNumber : Text → JsNumber
  formatTemporal : Text → Option Text → TemporalKind → Except String Text

section Patterns

def unsigned (v : Text) : Text := if v.head? = some 43 ∨ v.head? = some 45 then v.drop 1 else v

def digits (v : Text) : Bool := v ≠ [] ∧ v.all isDigit

def reInteger (v : Text) : Bool := digits (unsigned v)

def reMantissa (v : Text) : Bool :=
  let whole := v.takeWhile isDigit
  match v.dropWhile isDigit with
  | [] => whole ≠ []
  | c :: rest => c = 46 ∧ rest.all isDigit ∧ (whole ≠ [] ∨ rest ≠ [])

def reDecimal (v : Text) : Bool :=
  let body := unsigned v
  let mantissa := body.takeWhile fun c => c ≠ 101 ∧ c ≠ 69
  match body.dropWhile fun c => c ≠ 101 ∧ c ≠ 69 with
  | [] => reMantissa mantissa
  | _ :: exponent => reMantissa mantissa ∧ reInteger exponent

def reUuid (v : Text) : Bool :=
  v.length = 36 ∧ (v.zipIdx.all fun (c, i) => if i ∈ [8, 13, 18, 23] then c = 45 else (hexValue c).isSome) = true

def reHex (v : Text) : Bool := (startsWith (units "0x") v && hexPairs (v.drop 2)) || hexPairs v

def trueWords : List Text := ["true", "t", "yes", "y", "on", "1"].map units

def falseWords : List Text := ["false", "f", "no", "n", "off", "0"].map units

def integerOf (v : Text) : Int :=
  let n := ((unsigned v).foldl (fun n c => 10 * n + (c - 48)) 0 : Nat)
  if v.head? = some 45 then -n else n

def safeIntMax : Int := 9007199254740991

def integerText (n : Int) : Text := units (toString n)

def hasOffset (v : Text) : Bool :=
  match (v.drop (v.length - 6)) with
  | [sign, a, b, colon, c, d] => (sign = 43 || sign = 45) && colon = 58 && [a, b, c, d].all isDigit
  | _ => false

end Patterns

section Coercion
variable (reading : Reading)

def coerceValue (raw : Text) (m : ColumnMapping) (dialect : CsvDialect) (line : Nat) : Except CsvRowError Cell :=
  let text := if m.trim.getD dialect.trim then trim raw else raw
  let nullLiteral := m.nullLiteral.getD dialect.nullLiteral
  if text = nullLiteral then .ok .null
  else if text = [] ∧ nullLiteral = [] then .ok .null
  else
    let type := m.targetType.getD .string
    let name := m.targetColumn.getD m.sourceName
    let fail (why : String) : Except CsvRowError Cell := .error
      { message := units "Column \"" ++ name ++ units "\": " ++ units why ++ units " (value: " ++
          reading.stringify (text.take 120) ++ units ")"
        line := line, column := m.sourceIndex, columnName := name, value := text }
    let v := trim text
    let temporal (kind : TemporalKind) (tag : Text → CellTag) : Except CsvRowError Cell :=
      match reading.formatTemporal text m.dateFormat kind with
      | .ok shown => .ok (.tagged (tag shown) shown none)
      | .error why => fail why
    match type with
    | .boolean =>
        let lower := reading.toLowerCase v
        if lower ∈ trueWords then .ok (.boolean true)
        else if lower ∈ falseWords then .ok (.boolean false)
        else fail "is not a boolean"
    | .integer | .bigint =>
        if !reInteger v then fail "is not an integer"
        else
          let n := integerOf v
          if n > safeIntMax ∨ n < -safeIntMax then .ok (.tagged .bigint (integerText n) none)
          else .ok (.number ⟨integerText n, true⟩)
    | .decimal | .money => if !reDecimal v then fail "is not a number" else .ok (.tagged .decimal v none)
    | .float => if !reDecimal v then fail "is not a number" else .ok (.number (reading.toNumber v))
    | .date => temporal .date fun _ => .date
    | .time => temporal .time fun _ => .time
    | .timestamp =>
        temporal .timestamp fun shown => if shown.getLast? = some 90 ∨ hasOffset shown then .timestamptz else .timestamp
    | .json => if reading.jsonValid text then .ok (.tagged .json text none) else fail "is not valid JSON"
    | .uuid => if !reUuid v then fail "is not a UUID" else .ok (.tagged .uuid v none)
    | .binary =>
        if reHex v then .ok (bytesCell (hexBytes (if startsWith (units "0x") v then v.drop 2 else v)))
        else
          let decoded := base64Bytes v
          if decoded.length = 0 ∧ v.length > 0 then fail "is not hex or base64" else .ok (bytesCell decoded)
    | _ => .ok (.string text)

def coerceRecord (record : List Text) (mapping : List ColumnMapping) (dialect : CsvDialect) (line : Nat) :
    Except CsvRowError Row :=
  mapping.mapM fun m =>
    match record[m.sourceIndex]? with
    | none => .ok .null
    | some raw => coerceValue reading raw m dialect line

inductive JsonField where
  | absent
  | null
  | boolean (value : Bool)
  | number (n : JsNumber)
  | string (text : Text)
  | nested (json : Text)
  deriving DecidableEq

def jsonCell (value : JsonField) (m : ColumnMapping) (dialect : CsvDialect) (line : Nat) : Except CsvRowError Cell :=
  match value with
  | .absent | .null => .ok .null
  | .boolean value => .ok (.boolean value)
  | .number n => .ok (.number n)
  | .string text => coerceValue reading text m dialect line
  | .nested json => .ok (.tagged .json json none)

end Coercion

end DatabaseAdmin.CellCoercion
