import DatabaseAdmin.BsonCells
import DatabaseAdmin.InferredTypes

/-! What the extended JSON of the driver restores, and the values that come back from the cells they are shown as. -/
namespace DatabaseAdmin.BsonRoundTrip
open CodeUnits BinaryText NumberTexts BsonValues BsonCells
open WireCells (CellTag bytesToBase64 base64ToBytes)

section Restored
variable {D : Type} (lib : Library D) (wraps : Fields D → Bool)

def back (v : Bson D) : Except Text (Bson D) := (lib.stringify v).bind lib.parse

def Backs (fields restored : Fields D) : Prop :=
  List.Forall₂ (fun f g => f.1 = g.1 ∧ back lib f.2 = .ok g.2) fields restored

def Lasting : Scalar D → Prop
  | .undefined | .date none => False
  | .binary subtype bytes => subtype = subtypeUuid → bytes.length = 16
  | _ => True

def isUndefined : Bson D → Bool
  | .scalar .undefined => true
  | _ => false

def writable (fields : Fields D) : Bool := (fieldOf fields bsonTypeField).all isUndefined

structure Documented (unwrap : Fields D → Except Text (Bson D)) : Prop where
  objectIds : ∀ id, lib.objectIdOf (hexText id.bytes) = .ok id
  longs : ∀ n, lib.longOf (longText n) = .ok n
  decimals : ∀ d, lib.decimalOf (lib.decimalText d) = .ok d
  regExps : ∀ re, lib.regExpOf re.pattern re.options = .ok re
  timestamps : ∀ t i, lib.timestampOf (.ofInt t.toNat) (.ofInt i.toNat) = .ok (t, i)
  moments : ∀ m text, lib.isoText m = .ok text → startsWith (units "@") text = false ∧ lib.dateParse text = some m
  scalars : ∀ s, Lasting s → back lib (.scalar s) = .ok (.scalar s)
  undefineds : back lib .undefined = .ok (.scalar .null)
  undated : ∀ w, back lib (.scalar (.date none)) ≠ .ok w
  unsized : ∀ bytes w, bytes.length ≠ 16 → back lib (.scalar (.binary subtypeUuid bytes)) ≠ .ok w
  scopedCodes : ∀ text scope w, back lib (.scopedCode text scope) = .ok w ↔
    ∃ restored, back lib scope = .ok restored ∧ w = .scopedCode text restored
  dbRefs : ∀ fields w, back lib (.dbRef fields) = .ok w ↔ ∃ restored, Backs lib fields restored ∧ w = .dbRef restored
  arrays : ∀ items w, back lib (.array items) = .ok w ↔
    ∃ restored, List.Forall₂ (fun v u => back lib v = .ok u) items restored ∧ w = .array restored
  objects : ∀ fields w, back lib (.object fields) = .ok w ↔
    writable fields = true ∧ ∃ restored, Backs lib fields restored ∧
      if wraps restored then unwrap restored = .ok w else w = .object restored
  unwrapped : ∀ fields fields', unwrap fields ≠ .ok (.object fields')

inductive Whole : Bson D → Prop
  | scalar {s} (lasting : Lasting s) : Whole (.scalar s)
  | scopedCode {text scope} (whole : Whole scope) : Whole (.scopedCode text scope)
  | dbRef {fields} (all : ∀ f ∈ fields, Whole f.2) : Whole (.dbRef fields)
  | array {items} (all : ∀ v ∈ items, Whole v) : Whole (.array items)
  | object {fields} (untyped : fieldOf fields bsonTypeField = none) (plain : wraps fields = false)
      (all : ∀ f ∈ fields, Whole f.2) : Whole (.object fields)

variable {lib wraps} {unwrap : Fields D → Except Text (Bson D)}

theorem lastingScalar (known : Documented lib wraps unwrap) (s : Scalar D) :
    back lib (.scalar s) = .ok (.scalar s) ↔ Lasting s := by
  refine ⟨fun same => ?_, known.scalars s⟩
  match s with
  | .undefined =>
    have null := known.undefineds
    rw [Bson.undefined, same] at null
    cases null
  | .date none => exact known.undated _ same
  | .binary subtype bytes =>
    rintro rfl
    by_contra other
    exact known.unsized bytes _ other same
  | .date (some _) | .null | .boolean _ | .string _ | .int32 _ | .double _ | .long _ | .decimal128 _ | .objectId _ | .timestamp _ _
  | .regExp _ | .code _ | .symbol _ | .minKey | .maxKey => trivial

theorem backsSame {fields : Fields D} : Backs lib fields fields ↔ ∀ f ∈ fields, back lib f.2 = .ok f.2 := by
  rw [Backs, List.forall₂_same]
  simp only [true_and]

theorem untypedWhole {fields : Fields D} (writes : writable fields = true) (all : ∀ f ∈ fields, Whole wraps f.2) :
    fieldOf fields bsonTypeField = none := by
  cases held : fieldOf fields bsonTypeField with
  | none => rfl
  | some v =>
    obtain ⟨f, first, rfl⟩ := Option.map_eq_some_iff.mp held
    have whole := all f (List.mem_of_find?_eq_some first)
    rw [writable, held, Option.all_some] at writes
    unfold isUndefined at writes
    split at writes
    · rename_i same
      rw [same] at whole
      cases whole
      contradiction
    · contradiction

theorem backWhole (known : Documented lib wraps unwrap) (v : Bson D) : back lib v = .ok v ↔ Whole wraps v := by
  refine nested (fun v => back lib v = .ok v ↔ Whole wraps v) (fun s => ?_) (fun text scope ih => ?_) (fun fields ih => ?_)
    (fun items ih => ?_) (fun fields ih => ?_) v
  · rw [lastingScalar known]
    exact ⟨.scalar, fun whole => by cases whole; assumption⟩
  · have same : back lib (.scopedCode text scope) = .ok (.scopedCode text scope) ↔ back lib scope = .ok scope := by
      simp only [known.scopedCodes, Bson.scopedCode.injEq, true_and, exists_eq_right']
    rw [same, ih]
    exact ⟨.scopedCode, fun whole => by cases whole; assumption⟩
  · have same : back lib (.dbRef fields) = .ok (.dbRef fields) ↔ ∀ f ∈ fields, back lib f.2 = .ok f.2 := by
      simp only [known.dbRefs, Bson.dbRef.injEq, exists_eq_right', backsSame]
    rw [same]
    exact ⟨fun all => .dbRef fun f member => (ih f member).mp (all f member),
      fun whole f member => (ih f member).mpr (by cases whole with | dbRef all => exact all f member)⟩
  · have same : back lib (.array items) = .ok (.array items) ↔ ∀ v ∈ items, back lib v = .ok v := by
      simp only [known.arrays, Bson.array.injEq, exists_eq_right', List.forall₂_same]
    rw [same]
    exact ⟨fun all => .array fun v member => (ih v member).mp (all v member),
      fun whole v member => (ih v member).mpr (by cases whole with | array all => exact all v member)⟩
  · rw [known.objects]
    constructor
    · rintro ⟨writes, restored, backs, read⟩
      split at read
      · exact absurd read (known.unwrapped _ _)
      · rename_i plain
        cases read
        have all : ∀ f ∈ fields, Whole wraps f.2 := fun f member => (ih f member).mp (backsSame.mp backs f member)
        exact .object (untypedWhole writes all) (by simpa using plain) all
    · rintro ⟨⟩
      rename_i untyped plain all
      refine ⟨by rw [writable, untyped]; rfl, fields, backsSame.mpr fun f member => (ih f member).mpr (all f member), ?_⟩
      rw [if_neg (by simp [plain])]

end Restored

section Texts

theorem slices (hex : Text) {start stop : Nat} (forward : start ≤ stop) :
    hex.take start ++ (hex.take stop).drop start = hex.take stop := by
  have whole := List.take_append_drop start (hex.take stop)
  rwa [List.take_take, Nat.min_eq_left forward] at whole

theorem hexTake (bytes : List UInt8) (k : Nat) : (hexText bytes).take (2 * k) = hexText (bytes.take k) := by
  induction bytes generalizing k with
  | nil => simp [hexText]
  | cons b bytes ih =>
    cases k with
    | zero => simp [hexText]
    | succ k =>
      have pair : hexText (b :: bytes) = hexUnit (b.toNat / 16) :: hexUnit (b.toNat % 16) :: hexText bytes := rfl
      have short : hexText ((b :: bytes).take (k + 1)) =
          hexUnit (b.toNat / 16) :: hexUnit (b.toNat % 16) :: hexText (bytes.take k) := rfl
      rw [pair, short, ← ih k]
      rfl

theorem hexDashless (bytes : List UInt8) : (hexText bytes).filter (· ≠ dash) = hexText bytes := by
  refine List.filter_eq_self.mpr fun c member => ?_
  have unit : c ≠ dash := hexEach (p := (· ≠ dash)) (fun n small => by unfold hexUnit dash; grind) bytes c member
  simpa using unit

theorem uuidBytes (bytes : List UInt8) : hexBytes ((uuidText bytes).filter (· ≠ dash)) = bytes.take 16 := by
  have plain : (uuidText bytes).filter (· ≠ dash) = ((hexText bytes).take 32).filter (· ≠ dash) := by
    have joined : (hexText bytes).take 32 = ((hexText bytes).take 8).drop 0 ++ (((hexText bytes).take 12).drop 8 ++
        (((hexText bytes).take 16).drop 12 ++ (((hexText bytes).take 20).drop 16 ++ ((hexText bytes).take 32).drop 20))) := by
      rw [List.drop_zero, ← List.append_assoc, slices _ (by decide), ← List.append_assoc, slices _ (by decide),
        ← List.append_assoc, slices _ (by decide), slices _ (by decide)]
    rw [joined]
    simp only [uuidText, List.filter_append, List.filter_cons, ne_eq, not_true_eq_false, decide_false, Bool.false_eq_true, if_false]
  have first : (hexText bytes).take 32 = hexText (bytes.take 16) := hexTake bytes 16
  rw [plain, first, hexDashless, hexBytesText]

theorem regexBack (re : RegExp) : regexCell (slash :: (re.pattern ++ slash :: re.options)) = some (re.pattern, re.options) := by
  have apart : ∀ c ∈ re.options.reverse, decide (c ≠ slash) = true := by
    intro c member
    have range := re.lower c (List.mem_reverse.mp member)
    unfold slash
    grind
  have turned : (re.pattern ++ slash :: re.options).reverse = re.options.reverse ++ slash :: re.pattern.reverse := by simp
  have taken : (re.pattern ++ slash :: re.options).reverse.takeWhile (· ≠ slash) = re.options.reverse := by
    rw [turned, List.takeWhile_append_of_pos apart]
    simp
  have dropped : (re.pattern ++ slash :: re.options).reverse.dropWhile (· ≠ slash) = slash :: re.pattern.reverse := by
    rw [turned, List.dropWhile_append_of_pos apart]
    simp
  have letters : re.options.all (fun c => 97 ≤ c ∧ c ≤ 122) = true := by
    simpa using re.lower
  show regexCell (47 :: (re.pattern ++ slash :: re.options)) = _
  rw [regexCell, taken, dropped, List.reverse_reverse]
  dsimp only
  rw [if_pos letters, List.reverse_reverse]

theorem smallInt {n : ℕ} (small : n ≤ 2 ^ 53) : ∃ exact, Number.ofInt n = .of (.finite ⟨(n : ℤ), exact⟩) := ofIntSmall (by omega)

theorem orZeroSmall {n : ℕ} (small : n ≤ 2 ^ 53) : orZero (toNumber (doubleText (.ofInt n))) = .ofInt n := by
  obtain ⟨_, made⟩ := smallInt small
  rw [numberText, made]
  rfl

theorem byteBack (b : UInt8) : byteOf (orZero (toNumber (doubleText (.ofInt b.toNat)))) = b := by
  have range := b.toNat_lt
  obtain ⟨_, made⟩ := smallInt (n := b.toNat) (by omega)
  have floor : (Number.ofInt b.toNat).toInt = b.toNat := by
    rw [made]
    simp [Number.toInt]
  have byte : ((b.toNat : ℤ) % 2 ^ 8).toNat = b.toNat := by omega
  rw [orZeroSmall (by omega), byteOf, floor, UInt8.ofInt, byte, UInt8.ofNat_toNat]

theorem int32Back (n : Int32) : Int32.ofInt (Number.ofInt n.toInt).toInt = n ∧ reEncodesAsInt32 (.ofInt n.toInt) = true := by
  have low := n.le_toInt
  have high := n.toInt_lt
  obtain ⟨_, made⟩ := ofIntSmall (i := n.toInt) (by omega)
  have safe : |(n.toInt : ℚ)| ≤ 9007199254740991 := by
    rw [abs_le]
    constructor
    · norm_cast
      omega
    · norm_cast
      omega
  have inside : (int32Min : ℚ) ≤ n.toInt ∧ (n.toInt : ℚ) ≤ int32Max := by
    unfold int32Min int32Max
    constructor
    · norm_cast
    · norm_cast
      omega
  rw [made]
  constructor
  · simp [Number.toInt]
  · rw [reEncodesAsInt32, decide_eq_true inside, Double.isSafeInteger, decide_eq_true safe]
    rfl

end Texts

section Scalars
variable {D : Type} {lib : Library D} {wraps : Fields D → Bool} {unwrap : Fields D → Except Text (Bson D)}

theorem aliasSame (a b : String) : ofAlias a = ofAlias b ↔ a = b := by
  simp only [ofAlias, Option.some.injEq, unitsInjective.eq_iff]

theorem timestampBack (known : Documented lib wraps unwrap) (t i : UInt32) :
    timestampFrom lib (doubleText (.ofInt t.toNat) ++ 44 :: doubleText (.ofInt i.toNat)) = .ok (.timestamp t i) := by
  have small (n : UInt32) : n.toNat ≤ 2 ^ 53 := by
    have := n.toNat_lt
    omega
  have commaless (n : UInt32) : (44 : CodeUnit) ∉ doubleText (.ofInt n.toNat) := by
    have small' : (n.toNat : ℤ).natAbs ≤ 2 ^ 53 := small n
    exact fun member => absurd (ofIntUnits small' 44 member) (by unfold numeralUnit; decide)
  have parts : (doubleText (.ofInt t.toNat) ++ 44 :: doubleText (.ofInt i.toNat)).splitOn 44 =
      [doubleText (.ofInt t.toNat), doubleText (.ofInt i.toNat)] := by
    rw [List.splitOn_append_cons_self, List.splitOn_eq_singleton (commaless t), List.splitOn_eq_singleton (commaless i)]
    rfl
  have read (n : UInt32) := orZeroSmall (small n)
  simp only [timestampFrom, parts, List.getElem?_cons_zero, List.getElem?_cons_succ, Option.map_some, Option.getD_some, read,
    known.timestamps]
  rfl

theorem dateBack (known : Documented lib wraps unwrap) (moment : Option Moment) :
    decodeDate lib (dateText lib moment) = .ok moment := by
  cases moment with
  | none =>
    have marked : startsWith (units "@") (units "@NaN") = true := by decide
    have rest : (units "@NaN").drop 1 = doubleText (.of .nan) := by decide
    rw [dateText, decodeDate, if_pos marked, rest, numberText]
    rfl
  | some moment =>
    rw [dateText]
    split
    · rename_i text written
      obtain ⟨unmarked, read⟩ := known.moments moment text written
      rw [decodeDate, if_neg (by simp [unmarked]), read]
    · have valid := moment.valid
      have range := abs_le.mp valid
      obtain ⟨_, made⟩ := ofIntSmall (i := moment.ms) (by omega)
      have marked : startsWith (units "@") (64 :: doubleText (.ofInt moment.ms)) = true := rfl
      rw [decodeDate, if_pos marked, List.drop_one, List.tail_cons, numberText, made, momentOf]
      simp [valid]

theorem binDataBack (subtype : UInt8) (bytes : List UInt8) :
    bsonOfCell lib .bytes (bytesToBase64 bytes) (some (binDataPrefix ++ doubleText (.ofInt subtype.toNat))) =
      .ok (.scalar (.binary subtype bytes)) := by
  have apart (name : String) (other : (units name).head? ≠ some 98) (rest : Text) : some (binDataPrefix ++ rest) ≠ ofAlias name := by
    intro same
    have head : (binDataPrefix ++ rest).head? = (units name).head? := by rw [Option.some.inj same]
    exact other (head ▸ rfl)
  have named (rest : Text) : startsWith binDataPrefix (binDataPrefix ++ rest) = true :=
    startsWithIff.mpr (List.prefix_append _ _)
  have reference (rest : Text) : ¬(some (binDataPrefix ++ rest) = ofAlias "dbRef" ∨ some (binDataPrefix ++ rest) = ofAlias "object" ∨
      some (binDataPrefix ++ rest) = ofAlias "array") := by
    rintro (same | same | same)
    · exact apart _ (by decide) rest same
    · exact apart _ (by decide) rest same
    · exact apart _ (by decide) rest same
  simp only [bsonOfCell, apart "missing" (by decide), apart "undefined" (by decide),
    apart "minKey" (by decide), apart "maxKey" (by decide), apart "symbol" (by decide),
    apart "javascript" (by decide), apart "javascriptWithScope" (by decide), apart "double" (by decide),
    apart "long" (by decide), apart "timestamp" (by decide), apart "date" (by decide),
    apart "uuid" (by decide), reference, if_false, Option.filter_some, named, if_true, List.drop_left, byteBack]
  rw [bytesToBase64, base64ToBytes, base64BytesText]

theorem doubleBack (x : Number) :
    ∃ w, bsonFromCell lib (scalarCell lib (.double x)) = .ok w ∧ w.encoded = .scalar (.double x) := by
  rw [scalarCell]
  split
  · rename_i plain
    refine ⟨.number x, rfl, ?_⟩
    simp only [Bool.and_eq_true, Bool.not_eq_true'] at plain
    rw [JsValue.encoded, plain.2]
    rfl
  · refine ⟨.bson (.scalar (.double x)), ?_, rfl⟩
    simp [bsonFromCell, bsonOfCell, aliasSame, numberText, Except.map]

theorem binaryBack (subtype : UInt8) (bytes : List UInt8) :
    bsonFromCell lib (scalarCell lib (.binary subtype bytes)) =
      .ok (.bson (.scalar (.binary subtype (if subtype = subtypeUuid then bytes.take 16 else bytes)))) := by
  rw [scalarCell]
  split
  · rename_i uuid
    subst uuid
    simp only [bsonFromCell, bsonOfCell, aliasSame, uuidFrom, uuidBytes, Except.map]
    rfl
  split
  · rename_i default'
    subst default'
    have back : base64ToBytes (bytesToBase64 bytes) = bytes := base64BytesText bytes
    simp [bsonFromCell, bsonOfCell, ofAlias, bsonOfTag, back, Except.map]
  · rw [bsonFromCell, ← binDataPrefix, binDataBack]
    rfl

theorem scalarBack (known : Documented lib wraps unwrap) (s : Scalar D) :
    (∃ w, bsonFromCell lib (scalarCell lib s) = .ok w ∧ w.encoded = .scalar s) ↔
      ∀ bytes, s = .binary subtypeUuid bytes → bytes.length ≤ 16 := by
  match s with
  | .binary subtype bytes =>
    rw [binaryBack]
    simp only [Except.ok.injEq, exists_eq_left', JsValue.encoded, Bson.scalar.injEq, Scalar.binary.injEq, true_and]
    by_cases uuid : subtype = subtypeUuid
    · subst uuid
      simp [List.take_eq_self_iff]
    · simp [uuid]
  | .double x => exact iff_of_true (doubleBack x) nofun
  | .int32 n =>
    obtain ⟨value, small⟩ := int32Back n
    refine iff_of_true ⟨.number (.ofInt n.toInt), rfl, ?_⟩ nofun
    rw [JsValue.encoded, small, if_pos rfl, value]
  | .date moment =>
    refine iff_of_true ⟨.bson (.scalar (.date moment)), ?_, rfl⟩ nofun
    simp [scalarCell, bsonFromCell, bsonOfCell, aliasSame, dateBack known, Except.map]
  | .timestamp t i =>
    refine iff_of_true ⟨.bson (.scalar (.timestamp t i)), ?_, rfl⟩ nofun
    simp [scalarCell, bsonFromCell, bsonOfCell, aliasSame, timestampBack known, Except.map]
  | .code text =>
    refine iff_of_true ⟨.bson (.scalar (.code text)), ?_, rfl⟩ nofun
    simp [scalarCell, bsonFromCell, bsonOfCell, aliasSame, Except.map]
  | .symbol value =>
    refine iff_of_true ⟨.bson (.scalar (.symbol value)), ?_, rfl⟩ nofun
    simp [scalarCell, bsonFromCell, bsonOfCell, aliasSame, Except.map]
  | .long n =>
    refine iff_of_true ⟨.bson (.scalar (.long n)), ?_, rfl⟩ nofun
    simp [scalarCell, bsonFromCell, bsonOfCell, aliasSame, known.longs, Except.map, Except.mapError]
  | .objectId id =>
    have unmarked : (ofAlias "objectId").filter (startsWith binDataPrefix) = none := by decide
    refine iff_of_true ⟨.bson (.scalar (.objectId id)), ?_, rfl⟩ nofun
    simp [scalarCell, bsonFromCell, bsonOfCell, aliasSame, unmarked, bsonOfTag, known.objectIds, Except.map, Except.mapError]
  | .decimal128 d =>
    have unmarked : (ofAlias "decimal").filter (startsWith binDataPrefix) = none := by decide
    refine iff_of_true ⟨.bson (.scalar (.decimal128 d)), ?_, rfl⟩ nofun
    simp [scalarCell, bsonFromCell, bsonOfCell, aliasSame, unmarked, bsonOfTag, known.decimals, Except.map, Except.mapError]
  | .regExp re =>
    have unmarked : (ofAlias "regex").filter (startsWith binDataPrefix) = none := by decide
    refine iff_of_true ⟨.bson (.scalar (.regExp re)), ?_, rfl⟩ nofun
    simp [scalarCell, bsonFromCell, bsonOfCell, aliasSame, unmarked, bsonOfTag, regexBack, known.regExps, Except.map, Except.mapError]
  | .null => exact iff_of_true ⟨_, rfl, rfl⟩ nofun
  | .boolean value => exact iff_of_true ⟨_, rfl, rfl⟩ nofun
  | .string text => exact iff_of_true ⟨_, rfl, rfl⟩ nofun
  | .undefined =>
    refine iff_of_true ⟨.bson .undefined, ?_, rfl⟩ nofun
    simp [scalarCell, bsonFromCell, bsonOfCell, aliasSame, Except.map]
  | .minKey =>
    refine iff_of_true ⟨.bson (.scalar .minKey), ?_, rfl⟩ nofun
    simp [scalarCell, bsonFromCell, bsonOfCell, aliasSame, Except.map]
  | .maxKey =>
    refine iff_of_true ⟨.bson (.scalar .maxKey), ?_, rfl⟩ nofun
    simp [scalarCell, bsonFromCell, bsonOfCell, aliasSame, Except.map]

end Scalars

section Values
variable {D : Type} (lib : Library D) (wraps : Fields D → Bool)

def rebuilt (v : JsValue D) : Except BsonFailure (JsValue D) := (cellFromBson lib v).bind (bsonFromCell lib)

def Kept (v : JsValue D) : Prop := ∃ w, rebuilt lib v = .ok w ∧ w.encoded = v.encoded

def Keeps : JsValue D → Prop
  | .bson (.scalar s) => ∀ bytes, s = .binary subtypeUuid bytes → bytes.length ≤ 16
  | .bson v => Whole wraps v
  | _ => True

variable {lib wraps} {unwrap : Fields D → Except Text (Bson D)}

theorem ejsonTrip {tag : CellTag} {of : Option Text} (decodes : ∀ text, bsonOfCell lib tag text of = ejsonParse lib text)
    (v : Bson D) (w : JsValue D) : (((ejsonText lib v).map (Cell.tagged tag · of)).bind (bsonFromCell lib) = .ok w) ↔
      ∃ u, back lib v = .ok u ∧ w = .bson u := by
  unfold ejsonText back
  cases lib.stringify v with
  | error message => simp [Except.map, Except.mapError, Except.bind]
  | ok text =>
    simp only [Except.map, Except.mapError, Except.bind, bsonFromCell, decodes, ejsonParse]
    cases lib.parse text with
    | error message => simp
    | ok u => simp [eq_comm]

theorem nestedKept {tag : CellTag} {of : Option Text} (decodes : ∀ text, bsonOfCell lib tag text of = ejsonParse lib text)
    (v : Bson D) :
    (∃ w, ((ejsonText lib v).map (Cell.tagged tag · of)).bind (bsonFromCell lib) = .ok w ∧ w.encoded = v) ↔ back lib v = .ok v := by
  simp only [ejsonTrip decodes]
  constructor
  · rintro ⟨w, ⟨u, read, rfl⟩, same⟩
    rw [JsValue.encoded] at same
    rwa [same] at read
  · exact fun same => ⟨.bson v, ⟨v, same, rfl⟩, rfl⟩

theorem namedLost (known : Documented lib wraps unwrap) {fields : Fields D} {name : Text} (named : bsonTypeOf fields = some name)
    (w : Bson D) : back lib (.object fields) ≠ .ok w := by
  intro read
  obtain ⟨writes, -⟩ := (known.objects fields w).mp read
  unfold bsonTypeOf at named
  split at named
  · rename_i held
    simp [writable, held, isUndefined] at writes
  · contradiction

def IsScalar (r : Except BsonFailure (JsValue D)) : Prop := ∀ w, r = .ok w → ∃ s, w = .bson (.scalar s)

theorem taggedScalar {tag : CellTag} {of : String} {v : Except BsonFailure Text}
    (made : ∀ text u, bsonOfCell lib tag text (ofAlias of) = .ok u → ∃ s, u = .scalar s) :
    IsScalar ((v.map (Cell.tagged tag · (ofAlias of))).bind (bsonFromCell lib)) := by
  intro w done
  cases v with
  | error failure => simp [Except.map, Except.bind] at done
  | ok text =>
    simp only [Except.map, Except.bind, bsonFromCell] at done
    cases read : bsonOfCell lib tag text (ofAlias of) with
    | error failure => simp [read] at done
    | ok u =>
      obtain ⟨s, rfl⟩ := made text u read
      simp only [read, Except.ok.injEq] at done
      exact ⟨s, done.symm⟩

theorem mapScalar {α : Type} {r : Except BsonFailure α} {f : α → Scalar D} {u : Bson D}
    (done : r.map (fun a => .scalar (f a)) = .ok u) :
    ∃ s, u = .scalar s := by
  cases r with
  | error failure => simp [Except.map] at done
  | ok a => exact ⟨f a, by simpa [Except.map, eq_comm] using done⟩

theorem namedRead (known : Documented lib wraps unwrap) {fields : Fields D} {name : Text} (named : bsonTypeOf fields = some name)
    {tag : CellTag} {of : String} (decodes : ∀ text, bsonOfCell lib tag text (ofAlias of) = ejsonParse lib text) :
    IsScalar (((ejsonText lib (.object fields)).map (Cell.tagged tag · (ofAlias of))).bind (bsonFromCell lib)) := by
  intro w done
  obtain ⟨u, read, -⟩ := (ejsonTrip decodes _ _).mp done
  exact absurd read (namedLost known named u)

theorem ifScalar {c : Prop} [Decidable c] {a b : Except BsonFailure Cell} (yes : IsScalar (a.bind (bsonFromCell lib)))
    (no : IsScalar (b.bind (bsonFromCell lib))) : IsScalar ((if c then a else b).bind (bsonFromCell lib)) := by
  split
  · exact yes
  · exact no

theorem plainScalar (value : Option (Bson D)) : IsScalar ((plainMember value).bind (bsonFromCell lib)) := by
  intro w done
  unfold plainMember at done
  split at done
  · exact ⟨_, (Except.ok.inj done).symm⟩
  · exact ⟨_, (Except.ok.inj done).symm⟩
  · exact ⟨_, (Except.ok.inj done).symm⟩
  · contradiction

theorem castScalar (known : Documented lib wraps unwrap) {fields : Fields D} {name : Text} (named : bsonTypeOf fields = some name) :
    IsScalar ((castCell lib name fields).bind (bsonFromCell lib)) := by
  have unmarked (of : String) (other : of = "decimal" ∨ of = "regex") : (ofAlias of).filter (startsWith binDataPrefix) = none := by
    rcases other with rfl | rfl
    · decide
    · decide
  unfold castCell
  extract_lets member shown tagged
  refine ifScalar nofun (ifScalar (plainScalar _) (ifScalar ?double (ifScalar ?long (ifScalar ?decimal (ifScalar ?timestamp
    (ifScalar nofun (ifScalar ?regExp (ifScalar (ifScalar ?scopedCode ?code) (ifScalar ?symbol (ifScalar ?dbRef
    (ifScalar ?minKey (ifScalar ?maxKey ?object))))))))))))
  case double | code | symbol =>
    refine taggedScalar fun text u done => ?_
    simp [bsonOfCell, aliasSame] at done
    exact ⟨_, done.symm⟩
  case long | timestamp =>
    refine taggedScalar fun text u done => ?_
    simp [bsonOfCell, aliasSame] at done
    exact mapScalar done
  case decimal =>
    refine taggedScalar fun text u done => ?_
    simp [bsonOfCell, aliasSame, unmarked "decimal", bsonOfTag] at done
    exact mapScalar done
  case regExp =>
    refine taggedScalar fun text u done => ?_
    simp [bsonOfCell, aliasSame, unmarked "regex", bsonOfTag] at done
    exact mapScalar done
  case scopedCode | dbRef | object => exact namedRead known named (by simp [bsonOfCell, aliasSame])
  case minKey | maxKey =>
    intro w done
    simp [bsonFromCell, bsonOfCell, aliasSame, Except.map, Except.bind] at done
    exact ⟨_, done.symm⟩

theorem objectKept (known : Documented lib wraps unwrap) (fields : Fields D) :
    Kept lib (.bson (.object fields)) ↔ Whole wraps (.object fields) := by
  cases named : bsonTypeOf fields with
  | some name =>
    have cast : cellFromBson lib (.bson (.object fields)) = castCell lib name fields := by rw [cellFromBson, named]
    refine iff_of_false ?_ fun whole => namedLost known named _ ((backWhole known _).mpr whole)
    rintro ⟨w, done, same⟩
    rw [rebuilt, cast] at done
    obtain ⟨s, rfl⟩ := castScalar known named w done
    cases same
  | none =>
    have plain : cellFromBson lib (.bson (.object fields)) =
        (ejsonText lib (.object fields)).map (.tagged .document · (ofAlias "object")) := by
      rw [cellFromBson, named]
    rw [Kept, rebuilt, plain]
    exact (nestedKept (by simp [bsonOfCell, aliasSame]) _).trans (backWhole known _)

theorem valueKept (known : Documented lib wraps unwrap) (v : JsValue D) : Kept lib v ↔ Keeps wraps v := by
  match v with
  | .number x =>
    refine iff_of_true ?_ trivial
    cases finite : x.isFinite with
    | true => exact ⟨.number x, by simp [rebuilt, cellFromBson, finite, Except.bind, bsonFromCell], rfl⟩
    | false =>
      have other : reEncodesAsInt32 x = false := by
        match x with
        | .negativeZero => rfl
        | .of .nan => rfl
        | .of (.infinity _) => rfl
        | .of (.finite _) => contradiction
      refine ⟨.bson (.scalar (.double x)), ?_, by simp [JsValue.encoded, other]⟩
      simp [rebuilt, cellFromBson, finite, Except.bind, bsonFromCell, bsonOfCell, aliasSame, numberText, Except.map]
  | .bigint n =>
    refine iff_of_true ⟨.bson (.scalar (.long n)), ?_, rfl⟩ trivial
    simp [rebuilt, cellFromBson, Except.bind, bsonFromCell, bsonOfCell, aliasSame, known.longs, Except.map, Except.mapError]
  | .bson (.scalar s) => exact scalarBack known s
  | .bson (.scopedCode text scope) => exact (nestedKept (by simp [bsonOfCell, aliasSame]) _).trans (backWhole known _)
  | .bson (.dbRef fields) => exact (nestedKept (by simp [bsonOfCell, aliasSame]) _).trans (backWhole known _)
  | .bson (.array items) => exact (nestedKept (by simp [bsonOfCell, aliasSame]) _).trans (backWhole known _)
  | .bson (.object fields) => exact objectKept known fields

end Values

section Sample
variable {D : Type}

mutual

def restored : Bson D → Option (Bson D)
  | .scalar .undefined => some (.scalar .null)
  | .scalar (.date none) => none
  | .scalar (.binary subtype bytes) =>
      if subtype = subtypeUuid ∧ bytes.length ≠ 16 then none else some (.scalar (.binary subtype bytes))
  | .scalar s => some (.scalar s)
  | .scopedCode text scope => (restored scope).map (.scopedCode text)
  | .dbRef fields => (restoredFields fields).map .dbRef
  | .array items => (restoredItems items).map .array
  | .object fields => if writable fields then (restoredFields fields).map .object else none

def restoredFields : Fields D → Option (Fields D)
  | [] => some []
  | (name, v) :: rest => do
      let first ← restored v
      let others ← restoredFields rest
      some ((name, first) :: others)

def restoredItems : List (Bson D) → Option (List (Bson D))
  | [] => some []
  | v :: rest => do
      let first ← restored v
      let others ← restoredItems rest
      some (first :: others)

end

noncomputable def sampleLibrary : Library Unit where
  objectIdOf v := if sized : (hexBytes v).length = 12 then .ok ⟨hexBytes v, sized⟩ else .error (units "not an ObjectId")
  longOf v := .ok (Int64.ofInt (CellCoercion.integerOf v))
  decimalText _ := units "0"
  decimalOf _ := .ok ()
  regExpOf pattern options :=
    if lower : ∀ c ∈ options, 97 ≤ c ∧ c ≤ 122 then .ok ⟨pattern, options, lower⟩ else .error (units "not an option")
  timestampOf t i := .ok (UInt32.ofNat t.toInt.toNat, UInt32.ofNat i.toInt.toNat)
  isoText _ := .error (units "Invalid time value")
  dateParse _ := none
  stringify v :=
    match restored v with
    | some w => .ok [(Encodable.ofCountable (Bson Unit)).encode w]
    | none => .error (units "not to be written")
  parse text :=
    match text.head?.bind (Encodable.ofCountable (Bson Unit)).decode with
    | some w => .ok w
    | none => .error (units "not to be read")
  shown _ := .ok (units "[object Object]")

theorem sampleBack (v w : Bson Unit) : back sampleLibrary v = .ok w ↔ restored v = some w := by
  cases read : restored v with
  | none => simp [back, sampleLibrary, read, Except.bind]
  | some u =>
    have known := (Encodable.ofCountable (Bson Unit)).encodek u
    simp [back, sampleLibrary, read, Except.bind, known]

theorem sampleFields (fields others : Fields Unit) : restoredFields fields = some others ↔ Backs sampleLibrary fields others := by
  induction fields generalizing others with
  | nil => simp [restoredFields, Backs, eq_comm]
  | cons f fields ih =>
    rw [Backs, List.forall₂_cons_left_iff]
    simp only [restoredFields, bind, Option.bind_eq_some_iff, Option.some.injEq]
    constructor
    · rintro ⟨first, read, rest, more, rfl⟩
      exact ⟨(f.1, first), rest, ⟨rfl, (sampleBack _ _).mpr read⟩, (ih rest).mp more, rfl⟩
    · rintro ⟨⟨name, first⟩, rest, ⟨rfl, read⟩, more, rfl⟩
      exact ⟨first, (sampleBack _ _).mp read, rest, (ih rest).mpr more, rfl⟩

theorem sampleItems (items others : List (Bson Unit)) :
    restoredItems items = some others ↔ List.Forall₂ (fun v u => back sampleLibrary v = .ok u) items others := by
  induction items generalizing others with
  | nil => simp [restoredItems, eq_comm]
  | cons v items ih =>
    rw [List.forall₂_cons_left_iff]
    simp only [restoredItems, bind, Option.bind_eq_some_iff, Option.some.injEq]
    constructor
    · rintro ⟨first, read, rest, more, rfl⟩
      exact ⟨first, rest, (sampleBack _ _).mpr read, (ih rest).mp more, rfl⟩
    · rintro ⟨first, rest, read, more, rfl⟩
      exact ⟨first, (sampleBack _ _).mp read, rest, (ih rest).mpr more, rfl⟩

theorem mappedTo {α β : Type} {f : α → β} {o : Option α} {w : β} : o.map f = some w ↔ ∃ r, o = some r ∧ w = f r := by
  rw [Option.map_eq_some_iff]
  exact exists_congr fun r => and_congr_right fun _ => eq_comm

theorem sampleKnown : Documented sampleLibrary (fun _ => false) (fun _ => .error []) where
  objectIds id := by
    have sized : (hexBytes (hexText id.bytes)).length = 12 := by rw [hexBytesText, id.sized]
    simp [sampleLibrary, hexBytesText, id.sized]
  longs n := by
    have read : CellCoercion.integerOf (longText n) = n.toInt := InferredTypes.integerBack n.toInt
    simp [sampleLibrary, read]
  decimals _ := rfl
  regExps re := by
    show (if lower : _ then _ else _) = _
    rw [dif_pos re.lower]
  timestamps t i := by
    have small (n : UInt32) : (Number.ofInt n.toNat).toInt.toNat = n.toNat := by
      have range := n.toNat_lt
      obtain ⟨_, made⟩ := smallInt (n := n.toNat) (by omega)
      rw [made]
      simp [Number.toInt]
    simp [sampleLibrary, small]
  moments _ _ := nofun
  scalars s lasting := by
    rw [sampleBack]
    match s with
    | .binary subtype bytes =>
      have sized : ¬(subtype = subtypeUuid ∧ bytes.length ≠ 16) := fun odd => odd.2 (lasting odd.1)
      rw [restored, if_neg sized]
    | .date (some _) | .null | .boolean _ | .string _ | .int32 _ | .double _ | .long _ | .decimal128 _ | .objectId _ | .timestamp _ _
    | .regExp _ | .code _ | .symbol _ | .minKey | .maxKey => rfl
  undefineds := (sampleBack _ _).mpr rfl
  undated w := by
    rw [ne_eq, sampleBack]
    nofun
  unsized bytes w odd := by
    rw [ne_eq, sampleBack, restored, if_pos ⟨rfl, odd⟩]
    nofun
  scopedCodes text scope w := by
    rw [sampleBack, restored, mappedTo]
    simp only [sampleBack]
  dbRefs fields w := by
    rw [sampleBack, restored, mappedTo]
    simp only [sampleFields]
  arrays items w := by
    rw [sampleBack, restored, mappedTo]
    simp only [sampleItems]
  objects fields w := by
    rw [sampleBack, restored]
    split
    · rename_i writes
      simp only [mappedTo, sampleFields, writes, true_and, Bool.false_eq_true, if_false]
    · rename_i refused
      simp [refused]
  unwrapped _ _ := nofun

end Sample

end DatabaseAdmin.BsonRoundTrip
