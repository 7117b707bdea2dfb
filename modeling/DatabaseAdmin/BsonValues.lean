import DatabaseAdmin.NumberTexts
import Mathlib.Data.Rat.Encodable
import Mathlib.Logic.Equiv.List
import Mathlib.Tactic.DeriveCountable

/-! The values of a stored document as the driver hands them over when it is told to promote none of them, and
the numbers of the language with the texts they are written as. -/
namespace DatabaseAdmin.BsonValues
open CodeUnits BinaryText Doubles NumberTexts

section Numbers

inductive Number where
  | negativeZero
  | of (x : Double)

def Number.ofInt (i : ℤ) : Number := .of (number i)

def Number.isFinite : Number → Bool
  | negativeZero => true
  | of x => x.isFinite

def int32Min : ℤ := -2147483648

def int32Max : ℤ := 2147483647

def reEncodesAsInt32 : Number → Bool
  | .of (.finite x) => (Double.finite x).isSafeInteger && decide (int32Min ≤ x.value ∧ x.value ≤ int32Max)
  | _ => false

def doubleText : Number → Text
  | .negativeZero => units "-0"
  | .of x => x.text

def radixNumeral : Text → Option ℕ
  | 48 :: mark :: digits =>
      let base :=
        if mark = 120 ∨ mark = 88 then 16 else if mark = 111 ∨ mark = 79 then 8 else if mark = 98 ∨ mark = 66 then 2 else 0
      if digits ≠ [] ∧ digits.all (fun c => (hexValue c).any (· < base)) = true then
        some (digits.foldl (fun n c => base * n + (hexValue c).getD 0) 0)
      else none
  | _ => none

def toNumber (v : Text) : Number :=
  let t := trim v
  match numeral t with
  | some q =>
      match number q with
      | .finite x => if x.value = 0 ∧ t.head? = some 45 then .negativeZero else .of (.finite x)
      | other => .of other
  | none =>
      if t = [] then .ofInt 0
      else if t = units "Infinity" ∨ t = units "+Infinity" then .of (.infinity false)
      else if t = units "-Infinity" then .of (.infinity true)
      else match radixNumeral t with
        | some n => .of (number n)
        | none => .of .nan

theorem otherHead {x : FiniteDouble} (zero : x.value = 0) : (Double.finite x).text.head? ≠ some 45 := by
  rw [Double.text, if_pos zero]
  decide +kernel

theorem trimText (x : FiniteDouble) : trim (Double.finite x).text = (Double.finite x).text := by
  obtain ⟨q, read, -⟩ := textBack x
  exact trimPlain (signedUnits read).2

theorem numberText (x : Number) : toNumber (doubleText x) = x := by
  match x with
  | .negativeZero =>
    have read : numeral (trim (units "-0")) = some ((0 : ℤ) : ℚ) := by decide +kernel
    have sign : (trim (units "-0")).head? = some 45 := by decide +kernel
    obtain ⟨exact', made⟩ := numberWhole (i := 0) (by decide)
    simp only [doubleText, toNumber, read, made, sign]
    rw [if_pos ⟨Int.cast_zero, trivial⟩]
  | .of .nan =>
    have read : numeral (trim (units "NaN")) = none := by decide +kernel
    have word : trim (units "NaN") ≠ [] ∧ trim (units "NaN") ≠ units "Infinity" ∧ trim (units "NaN") ≠ units "+Infinity" ∧
        trim (units "NaN") ≠ units "-Infinity" ∧ radixNumeral (trim (units "NaN")) = none := by decide +kernel
    simp only [doubleText, Double.text, toNumber, read, word.1, word.2.1, word.2.2.1, word.2.2.2.1, word.2.2.2.2, or_self, if_false]
  | .of (.infinity true) =>
    have read : numeral (trim (units "-Infinity")) = none := by decide +kernel
    have word : trim (units "-Infinity") ≠ [] ∧ trim (units "-Infinity") ≠ units "Infinity" ∧
        trim (units "-Infinity") ≠ units "+Infinity" ∧ trim (units "-Infinity") = units "-Infinity" := by decide +kernel
    simp only [doubleText, Double.text, if_true, toNumber, read, word.1, word.2.1, word.2.2.1, or_self, if_false]
    rw [if_pos word.2.2.2]
  | .of (.infinity false) =>
    have read : numeral (trim (units "Infinity")) = none := by decide +kernel
    have word : trim (units "Infinity") ≠ [] ∧ trim (units "Infinity") = units "Infinity" := by decide +kernel
    simp only [doubleText, Double.text, Bool.false_eq_true, if_false, toNumber, read, word.1]
    rw [if_pos (.inl word.2)]
  | .of (.finite x) =>
    obtain ⟨q, read, made⟩ := textBack x
    have plus : ¬(x.value = 0 ∧ (Double.finite x).text.head? = some 45) := fun minus => otherHead minus.1 minus.2
    simp only [doubleText, toNumber, trimText, read, made, if_neg plus]

theorem ofIntSmall {i : ℤ} (small : i.natAbs ≤ 2 ^ 53) : ∃ exact, Number.ofInt i = .of (.finite ⟨i, exact⟩) := by
  obtain ⟨exact', whole⟩ := numberWhole small
  exact ⟨exact', congrArg Number.of whole⟩

theorem ofIntUnits {i : ℤ} (small : i.natAbs ≤ 2 ^ 53) : ∀ c ∈ doubleText (.ofInt i), numeralUnit c := by
  obtain ⟨exact', whole⟩ := ofIntSmall small
  rw [whole]
  exact finiteUnits _

end Numbers

section Values

structure ObjectId where
  bytes : List UInt8
  sized : bytes.length = 12

structure Moment where
  ms : ℤ
  valid : |ms| ≤ 8640000000000000

structure RegExp where
  pattern : Text
  options : Text
  lower : ∀ c ∈ options, 97 ≤ c ∧ c ≤ 122

inductive Scalar (D : Type) where
  | null
  | undefined
  | boolean (value : Bool)
  | string (text : Text)
  | int32 (n : Int32)
  | double (x : Number)
  | long (n : Int64)
  | decimal128 (d : D)
  | objectId (id : ObjectId)
  | date (moment : Option Moment)
  | timestamp (t i : UInt32)
  | binary (subtype : UInt8) (bytes : List UInt8)
  | regExp (re : RegExp)
  | code (text : Text)
  | symbol (value : Text)
  | minKey
  | maxKey

inductive Bson (D : Type) where
  | scalar (s : Scalar D)
  | scopedCode (text : Text) (scope : Bson D)
  | dbRef (fields : List (Text × Bson D))
  | array (items : List (Bson D))
  | object (fields : List (Text × Bson D))

abbrev Fields (D : Type) := List (Text × Bson D)

def Bson.undefined {D : Type} : Bson D := .scalar .undefined

inductive JsValue (D : Type) where
  | number (x : Number)
  | bigint (n : Int64)
  | bson (v : Bson D)

def Number.toInt : Number → ℤ
  | .of (.finite x) => ⌊x.value⌋
  | _ => 0

def JsValue.encoded {D : Type} : JsValue D → Bson D
  | number x => .scalar (if reEncodesAsInt32 x then .int32 (Int32.ofInt x.toInt) else .double x)
  | bigint n => .scalar (.long n)
  | bson v => v

def fieldOf {D : Type} (fields : Fields D) (name : Text) : Option (Bson D) := (fields.find? (·.1 = name)).map Prod.snd

def bsonTypeField : Text := units "_bsontype"

end Values

section Nesting
variable {D : Type}

theorem nested (holds : Bson D → Prop) (scalar : ∀ s, holds (.scalar s))
    (scopedCode : ∀ text scope, holds scope → holds (.scopedCode text scope))
    (dbRef : ∀ fields, (∀ f ∈ fields, holds f.2) → holds (.dbRef fields))
    (array : ∀ items, (∀ v ∈ items, holds v) → holds (.array items))
    (object : ∀ fields, (∀ f ∈ fields, holds f.2) → holds (.object fields)) (v : Bson D) : holds v :=
  @Bson.rec D holds (fun fields => ∀ f ∈ fields, holds f.2) (fun items => ∀ v ∈ items, holds v) (fun f => holds f.2)
    scalar scopedCode dbRef array object
    nofun (fun _ _ first rest => List.forall_mem_cons.mpr ⟨first, rest⟩)
    nofun (fun _ _ first rest => List.forall_mem_cons.mpr ⟨first, rest⟩)
    (fun _ _ value => value) v

end Nesting

section Counting

instance : Countable FiniteDouble := Function.Injective.countable (f := FiniteDouble.value) fun a b same => by
  cases a
  cases b
  cases same
  rfl

instance byteCountable : Countable UInt8 := Function.Injective.countable (f := UInt8.toNat) fun _ _ same => UInt8.toNat_inj.mp same

instance wordCountable : Countable UInt32 := Function.Injective.countable (f := UInt32.toNat) fun _ _ same => UInt32.toNat_inj.mp same

instance intCountable : Countable Int32 := Function.Injective.countable (f := Int32.toInt) fun _ _ same => Int32.toInt_inj.mp same

instance longCountable : Countable Int64 := Function.Injective.countable (f := Int64.toInt) fun _ _ same => Int64.toInt_inj.mp same

instance : Countable ObjectId := Function.Injective.countable (f := ObjectId.bytes) fun a b same => by
  cases a
  cases b
  cases same
  rfl

instance : Countable Moment := Function.Injective.countable (f := Moment.ms) fun a b same => by
  cases a
  cases b
  cases same
  rfl

instance : Countable RegExp := Function.Injective.countable (f := fun re : RegExp => (re.pattern, re.options)) fun a b same => by
  cases a
  cases b
  cases same
  rfl

deriving instance Countable for Double, Number, Scalar

variable {D : Type} (count : Scalar D → ℕ)

mutual

def codeOf : Bson D → ℕ
  | .scalar s => Nat.pair 0 (count s)
  | .scopedCode text scope => Nat.pair 1 (Nat.pair (Encodable.encode text) (codeOf scope))
  | .dbRef fields => Nat.pair 2 (codeOfFields fields)
  | .array items => Nat.pair 3 (codeOfItems items)
  | .object fields => Nat.pair 4 (codeOfFields fields)

def codeOfFields : Fields D → ℕ
  | [] => 0
  | (name, v) :: rest => Nat.pair (Nat.pair (Encodable.encode name) (codeOf v)) (codeOfFields rest) + 1

def codeOfItems : List (Bson D) → ℕ
  | [] => 0
  | v :: rest => Nat.pair (codeOf v) (codeOfItems rest) + 1

end

theorem fieldsCounted {fields : Fields D} (each : ∀ f ∈ fields, ∀ w, codeOf count f.2 = codeOf count w → f.2 = w)
    {others : Fields D}
    (same : codeOfFields count fields = codeOfFields count others) : fields = others := by
  induction fields generalizing others with
  | nil =>
    cases others with
    | nil => rfl
    | cons g others => simp [codeOfFields] at same
  | cons f fields ih =>
    cases others with
    | nil => simp [codeOfFields] at same
    | cons g others =>
      obtain ⟨first, rest⟩ := List.forall_mem_cons.mp each
      simp only [codeOfFields, Nat.add_right_cancel_iff, Nat.pair_eq_pair, Encodable.encode_inj] at same
      rw [ih rest same.2, Prod.ext same.1.1 (first g.2 same.1.2)]

theorem itemsCounted {items : List (Bson D)} (each : ∀ v ∈ items, ∀ w, codeOf count v = codeOf count w → v = w)
    {others : List (Bson D)}
    (same : codeOfItems count items = codeOfItems count others) : items = others := by
  induction items generalizing others with
  | nil =>
    cases others with
    | nil => rfl
    | cons w others => simp [codeOfItems] at same
  | cons v items ih =>
    cases others with
    | nil => simp [codeOfItems] at same
    | cons w others =>
      obtain ⟨first, rest⟩ := List.forall_mem_cons.mp each
      simp only [codeOfItems, Nat.add_right_cancel_iff, Nat.pair_eq_pair] at same
      rw [ih rest same.2, first w same.1]

theorem valuesCounted (injective : Function.Injective count) : Function.Injective (codeOf count) := by
  refine nested (fun v => ∀ ⦃w⦄, codeOf count v = codeOf count w → v = w) ?_ ?_ ?_ ?_ ?_
  · intro s w same
    cases w <;> simp [codeOf] at same
    rw [injective same]
  · intro text scope ih w same
    cases w <;> simp [codeOf] at same
    rw [same.1, ih same.2]
  · intro fields ih w same
    cases w <;> simp [codeOf] at same
    rw [fieldsCounted count (fun f member w same => ih f member same) same]
  · intro items ih w same
    cases w <;> simp [codeOf] at same
    rw [itemsCounted count (fun v member w same => ih v member same) same]
  · intro fields ih w same
    cases w <;> simp [codeOf] at same
    rw [fieldsCounted count (fun f member w same => ih f member same) same]

instance [Countable D] : Countable (Bson D) := by
  obtain ⟨count, injective⟩ := exists_injective_nat (Scalar D)
  exact (valuesCounted count injective).countable

end Counting

end DatabaseAdmin.BsonValues
