import DatabaseAdmin.BsonValues
import DatabaseAdmin.WireCells

/-! The cells that values of a document are shown as, and the values that cells are taken back to. -/
namespace DatabaseAdmin.BsonCells
open CodeUnits BinaryText NumberTexts BsonValues
open WireCells (CellTag bytesToBase64 base64ToBytes)

inductive Cell where
  | null
  | string (text : Text)
  | number (x : Number)
  | boolean (value : Bool)
  | tagged (tag : CellTag) (v : Text) (of : Option Text)

inductive BsonFailure where
  | db (message : Text) (code : String)
  | thrown (message : Text)
  | foreign

-- What the codec calls: the constructors of the driver's types, its extended JSON and the dates of the language.
structure Library (D : Type) where
  objectIdOf : Text → Except Text ObjectId
  longOf : Text → Except Text Int64
  decimalText : D → Text
  decimalOf : Text → Except Text D
  regExpOf : Text → Text → Except Text RegExp
  timestampOf : Number → Number → Except Text (UInt32 × UInt32)
  isoText : Moment → Except Text Text
  dateParse : Text → Option Moment
  stringify : Bson D → Except Text Text
  parse : Text → Except Text (Bson D)
  shown : Option (Bson D) → Except Text Text

def ofAlias (name : String) : Option Text := some (units name)

def missingCell : Cell := .tagged .unsupported [] (ofAlias "missing")

def isMissingCell : Cell → Bool
  | .tagged .unsupported _ of => of = ofAlias "missing"
  | _ => false

section Encoding
variable {D : Type} (lib : Library D)

def ejsonText (value : Bson D) : Except BsonFailure Text := (lib.stringify value).mapError .thrown

def ejsonParse (text : Text) : Except BsonFailure (Bson D) :=
  (lib.parse text).mapError fun message => .db (units "Invalid Extended JSON: " ++ message) "BAD_EJSON"

def dash : CodeUnit := 45

def slash : CodeUnit := 47

def uuidText (bytes : List UInt8) : Text :=
  let hex := hexText bytes
  let slice (start stop : Nat) := (hex.take stop).drop start
  slice 0 8 ++ dash :: (slice 8 12 ++ dash :: (slice 12 16 ++ dash :: (slice 16 20 ++ dash :: slice 20 32)))

def dateText : Option Moment → Text
  | none => units "@NaN"
  | some moment =>
      match lib.isoText moment with
      | .ok text => text
      | .error _ => 64 :: doubleText (.ofInt moment.ms)

def longText (n : Int64) : Text := units (toString n.toInt)

def subtypeUuid : UInt8 := 4

def subtypeDefault : UInt8 := 0

def scalarCell : Scalar D → Cell
  | .null => .null
  | .undefined => .tagged .unsupported (units "undefined") (ofAlias "undefined")
  | .boolean value => .boolean value
  | .string text => .string text
  | .date moment => .tagged .timestamp (dateText lib moment) (ofAlias "date")
  | .objectId id => .tagged .objectid (hexText id.bytes) (ofAlias "objectId")
  | .int32 n => .number (.ofInt n.toInt)
  | .double x =>
      if x.isFinite && !reEncodesAsInt32 x then .number x else .tagged .decimal (doubleText x) (ofAlias "double")
  | .long n => .tagged .bigint (longText n) (ofAlias "long")
  | .decimal128 d => .tagged .decimal128 (lib.decimalText d) (ofAlias "decimal")
  | .timestamp t i =>
      .tagged .timestamp (doubleText (.ofInt t.toNat) ++ 44 :: doubleText (.ofInt i.toNat)) (ofAlias "timestamp")
  | .binary subtype bytes =>
      if subtype = subtypeUuid then .tagged .uuid (uuidText bytes) (ofAlias "uuid")
      else if subtype = subtypeDefault then .tagged .bytes (bytesToBase64 bytes) none
      else .tagged .bytes (bytesToBase64 bytes) (some (units "binData:" ++ doubleText (.ofInt subtype.toNat)))
  | .regExp re => .tagged .regex (slash :: (re.pattern ++ slash :: re.options)) (ofAlias "regex")
  | .code text => .tagged .json text (ofAlias "javascript")
  | .symbol value => .tagged .json value (ofAlias "symbol")
  | .minKey => .tagged .json (units "MinKey") (ofAlias "minKey")
  | .maxKey => .tagged .json (units "MaxKey") (ofAlias "maxKey")

def bsonTypeOf (fields : Fields D) : Option Text :=
  match fieldOf fields bsonTypeField with
  | some (.scalar (.string name)) => some name
  | _ => none

def truthy : Option (Bson D) → Bool
  | none | some (.scalar .null) | some (.scalar .undefined) => false
  | some (.scalar (.boolean value)) => value
  | some (.scalar (.string text)) => text ≠ []
  | some _ => true

def textMember (value : Option (Bson D)) : Except BsonFailure Text :=
  match value with
  | some (.scalar (.string text)) => .ok text
  | _ => .error .foreign

def plainMember (value : Option (Bson D)) : Except BsonFailure Cell :=
  match value with
  | some (.scalar .null) => .ok .null
  | some (.scalar (.boolean value)) => .ok (.boolean value)
  | some (.scalar (.string text)) => .ok (.string text)
  | _ => .error .foreign

def castCell (name : Text) (fields : Fields D) : Except BsonFailure Cell :=
  let member (key : String) := fieldOf fields (units key)
  let shown (value : Option (Bson D)) : Except BsonFailure Text := (lib.shown value).mapError .thrown
  let tagged (tag : CellTag) (of : String) (v : Except BsonFailure Text) := v.map (Cell.tagged tag · (ofAlias of))
  if name = units "ObjectId" then .error (.thrown (units "obj.toHexString is not a function"))
  else if name = units "Int32" then plainMember (member "value")
  else if name = units "Double" then tagged .decimal "double" (shown (member "value"))
  else if name = units "Long" then tagged .bigint "long" (shown (some (.object fields)))
  else if name = units "Decimal128" then tagged .decimal128 "decimal" (shown (some (.object fields)))
  else if name = units "Timestamp" then
    tagged .timestamp "timestamp" do return (← shown (member "t")) ++ 44 :: (← shown (member "i"))
  else if name = units "Binary" then .error (.thrown (units "bin.value is not a function"))
  else if name = units "BSONRegExp" then
    tagged .regex "regex" do return slash :: ((← shown (member "pattern")) ++ slash :: (← shown (member "options")))
  else if name = units "Code" then
    if truthy (member "scope") then tagged .json "javascriptWithScope" (ejsonText lib (.object fields))
    else tagged .json "javascript" (textMember (member "code"))
  else if name = units "BSONSymbol" then tagged .json "symbol" (textMember (member "value"))
  else if name = units "DBRef" then tagged .document "dbRef" (ejsonText lib (.object fields))
  else if name = units "MinKey" then .ok (.tagged .json (units "MinKey") (ofAlias "minKey"))
  else if name = units "MaxKey" then .ok (.tagged .json (units "MaxKey") (ofAlias "maxKey"))
  else tagged .document "object" (ejsonText lib (.object fields))

def cellFromBson : JsValue D → Except BsonFailure Cell
  | .number x => .ok (if x.isFinite then .number x else .tagged .decimal (doubleText x) (ofAlias "double"))
  | .bigint n => .ok (.tagged .bigint (longText n) (ofAlias "long"))
  | .bson (.scalar s) => .ok (scalarCell lib s)
  | .bson (.array items) => (ejsonText lib (.array items)).map (.tagged .array · (ofAlias "array"))
  | .bson (.scopedCode text scope) =>
      (ejsonText lib (.scopedCode text scope)).map (.tagged .json · (ofAlias "javascriptWithScope"))
  | .bson (.dbRef fields) => (ejsonText lib (.dbRef fields)).map (.tagged .document · (ofAlias "dbRef"))
  | .bson (.object fields) =>
      match bsonTypeOf fields with
      | some name => castCell lib name fields
      | none => (ejsonText lib (.object fields)).map (.tagged .document · (ofAlias "object"))

end Encoding

section Decoding
variable {D : Type} (lib : Library D)

def regexCell : Text → Option (Text × Text)
  | 47 :: rest =>
      let options := (rest.reverse.takeWhile (· ≠ slash)).reverse
      match rest.reverse.dropWhile (· ≠ slash) with
      | _ :: pattern => if options.all (fun c => 97 ≤ c ∧ c ≤ 122) = true then some (pattern.reverse, options) else none
      | [] => none
  | _ => none

def momentOf (x : Number) : Option Moment :=
  let clip (ms : ℤ) : Option Moment := if valid : |ms| ≤ 8640000000000000 then some ⟨ms, valid⟩ else none
  match x with
  | .of (.finite x) => clip (if x.value < 0 then ⌈x.value⌉ else ⌊x.value⌋)
  | .negativeZero => clip 0
  | _ => none

def decodeDate (v : Text) : Except BsonFailure (Option Moment) :=
  if startsWith (units "@") v = true then .ok (momentOf (toNumber (v.drop 1)))
  else match lib.dateParse v with
    | some moment => .ok (some moment)
    | none => .error (.db (units "Not a date: " ++ v) "BAD_VALUE")

def orZero : Number → Number
  | .of .nan | .negativeZero => .ofInt 0
  | x => x

def timestampFrom (v : Text) : Except BsonFailure (Scalar D) :=
  let part (text : Option Text) : Number := (text.map fun t => orZero (toNumber t)).getD (.ofInt 0)
  ((lib.timestampOf (part (v.splitOn 44)[0]?) (part (v.splitOn 44)[1]?)).mapError .thrown).map fun ti => .timestamp ti.1 ti.2

def uuidFrom (v : Text) : Scalar D := .binary subtypeUuid (hexBytes (v.filter (· ≠ dash)))

def byteOf (x : Number) : UInt8 := UInt8.ofInt x.toInt

-- By the tag alone, where `of` says nothing.
def bsonOfTag (tag : CellTag) (v : Text) : Except BsonFailure (Bson D) :=
  match tag with
  | .objectid => ((lib.objectIdOf v).mapError .thrown).map fun id => .scalar (.objectId id)
  | .decimal128 | .decimal => ((lib.decimalOf v).mapError .thrown).map fun d => .scalar (.decimal128 d)
  | .bigint => ((lib.longOf v).mapError .thrown).map fun n => .scalar (.long n)
  | .bytes => .ok (.scalar (.binary subtypeDefault (base64ToBytes v)))
  | .uuid => .ok (.scalar (uuidFrom v))
  | .timestamp | .timestamptz | .date => (decodeDate lib v).map fun moment => .scalar (.date moment)
  | .regex =>
      let (pattern, options) := (regexCell v).getD (v, [])
      ((lib.regExpOf pattern options).mapError .thrown).map fun re => .scalar (.regExp re)
  | .json | .document | .array => ejsonParse lib v
  | _ => .ok (.scalar (.string v))

def binDataPrefix : Text := units "binData:"

def bsonOfCell (tag : CellTag) (v : Text) (of : Option Text) : Except BsonFailure (Bson D) :=
  if of = ofAlias "missing" then .ok .undefined
  else if of = ofAlias "undefined" then .ok .undefined
  else if of = ofAlias "minKey" then .ok (.scalar .minKey)
  else if of = ofAlias "maxKey" then .ok (.scalar .maxKey)
  else if of = ofAlias "symbol" then .ok (.scalar (.symbol v))
  else if of = ofAlias "javascript" then .ok (.scalar (.code v))
  else if of = ofAlias "javascriptWithScope" then ejsonParse lib v
  else if of = ofAlias "double" then .ok (.scalar (.double (toNumber v)))
  else if of = ofAlias "long" then ((lib.longOf v).mapError .thrown).map fun n => .scalar (.long n)
  else if of = ofAlias "timestamp" then (timestampFrom lib v).map .scalar
  else if of = ofAlias "date" then (decodeDate lib v).map fun moment => .scalar (.date moment)
  else if of = ofAlias "uuid" then .ok (.scalar (uuidFrom v))
  else if of = ofAlias "dbRef" ∨ of = ofAlias "object" ∨ of = ofAlias "array" then ejsonParse lib v
  else match of.filter (startsWith binDataPrefix) with
    | some sub => .ok (.scalar (.binary (byteOf (orZero (toNumber (sub.drop binDataPrefix.length)))) (base64ToBytes v)))
    | none => bsonOfTag lib tag v

def bsonFromCell : Cell → Except BsonFailure (JsValue D)
  | .null => .ok (.bson (.scalar .null))
  | .string text => .ok (.bson (.scalar (.string text)))
  | .number x => .ok (.number x)
  | .boolean value => .ok (.bson (.scalar (.boolean value)))
  | .tagged tag v of => (bsonOfCell lib tag v of).map .bson

end Decoding

end DatabaseAdmin.BsonCells
