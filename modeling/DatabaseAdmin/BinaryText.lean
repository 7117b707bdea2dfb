import DatabaseAdmin.CodeUnits

/-! Bytes written as text: two hexadecimal digits a byte, or four base64 characters three bytes. -/
namespace DatabaseAdmin.BinaryText
open CodeUnits

section Hex

def hexUnit (n : Nat) : CodeUnit := if n < 10 then 48 + n else 87 + n

def hexValue (c : CodeUnit) : Option Nat :=
  if 48 ≤ c ∧ c ≤ 57 then some (c - 48)
  else if 97 ≤ c ∧ c ≤ 102 then some (c - 87)
  else if 65 ≤ c ∧ c ≤ 70 then some (c - 55)
  else none

def hexText (bytes : List UInt8) : Text :=
  bytes.flatMap fun b => [hexUnit (b.toNat / 16), hexUnit (b.toNat % 16)]

def hexBytes : Text → List UInt8
  | a :: b :: rest =>
      match hexValue a, hexValue b with
      | some x, some y => UInt8.ofNat (16 * x + y) :: hexBytes rest
      | _, _ => []
  | _ => []

def hexPairs : Text → Bool
  | a :: b :: rest => (hexValue a).isSome && (hexValue b).isSome && (rest = [] || hexPairs rest)
  | _ => false

theorem hexUnitValue {n : Nat} (small : n < 16) : hexValue (hexUnit n) = some n := by
  unfold hexUnit hexValue
  grind

theorem hexBytesText (bytes : List UInt8) : hexBytes (hexText bytes) = bytes := by
  induction bytes with
  | nil => rfl
  | cons b bytes ih =>
    have small := b.toNat_lt
    have whole : 16 * (b.toNat / 16) + b.toNat % 16 = b.toNat := Nat.div_add_mod _ _
    simp only [hexText, List.flatMap_cons, List.cons_append, List.nil_append, hexBytes] at ih ⊢
    rw [hexUnitValue (by omega), hexUnitValue (by omega)]
    simp only [whole, UInt8.ofNat_toNat, ih]

theorem hexPairsText (bytes : List UInt8) (some' : bytes ≠ []) : hexPairs (hexText bytes) = true := by
  induction bytes with
  | nil => contradiction
  | cons b bytes ih =>
    have small := b.toNat_lt
    simp only [hexText, List.flatMap_cons, List.cons_append, List.nil_append, hexPairs] at ih ⊢
    rw [hexUnitValue (by omega), hexUnitValue (by omega)]
    cases bytes with
    | nil => rfl
    | cons c bytes => simp only [Option.isSome_some, Bool.true_and, ih (by simp), Bool.or_true]

theorem hexBytesLength {text : Text} (pairs : hexPairs text = true) :
    2 * (hexBytes text).length = text.length ∧ text ≠ [] := by
  fun_induction hexBytes text with
  | case1 a b rest x y first second ih =>
    simp only [hexPairs, first, second, Option.isSome_some, Bool.true_and, Bool.or_eq_true, decide_eq_true_eq] at pairs
    refine ⟨?_, by simp⟩
    rcases pairs with none | more
    · subst none
      rfl
    · have counted := (ih more).1
      simp only [List.length_cons]
      omega
  | case2 a b rest other =>
    unfold hexPairs at pairs
    cases first : hexValue a <;> cases second : hexValue b <;> simp_all
  | case3 short => simp [hexPairs] at pairs

end Hex

section Base64

def sextetUnit (n : Nat) : CodeUnit :=
  if n < 26 then 65 + n else if n < 52 then 71 + n else if n < 62 then n - 4 else if n = 62 then 43 else 47

def sextetValue (c : CodeUnit) : Option Nat :=
  if 65 ≤ c ∧ c ≤ 90 then some (c - 65)
  else if 97 ≤ c ∧ c ≤ 122 then some (c - 71)
  else if 48 ≤ c ∧ c ≤ 57 then some (c + 4)
  else if c = 43 ∨ c = 45 then some 62
  else if c = 47 ∨ c = 95 then some 63
  else none

def padding : CodeUnit := 61

def base64Text : List UInt8 → Text
  | a :: b :: c :: rest =>
      sextetUnit (a.toNat / 4) :: sextetUnit (a.toNat % 4 * 16 + b.toNat / 16) ::
        sextetUnit (b.toNat % 16 * 4 + c.toNat / 64) :: sextetUnit (c.toNat % 64) :: base64Text rest
  | [a, b] =>
      [sextetUnit (a.toNat / 4), sextetUnit (a.toNat % 4 * 16 + b.toNat / 16), sextetUnit (b.toNat % 16 * 4), padding]
  | [a] => [sextetUnit (a.toNat / 4), sextetUnit (a.toNat % 4 * 16), padding, padding]
  | [] => []

def packed : List Nat → List UInt8
  | w :: x :: y :: z :: rest =>
      UInt8.ofNat (w * 4 + x / 16) :: UInt8.ofNat (x % 16 * 16 + y / 4) :: UInt8.ofNat (y % 4 * 64 + z) :: packed rest
  | [w, x, y] => [UInt8.ofNat (w * 4 + x / 16), UInt8.ofNat (x % 16 * 16 + y / 4)]
  | [w, x] => [UInt8.ofNat (w * 4 + x / 16)]
  | _ => []

def sextets (text : Text) : List Nat := (text.takeWhile (· ≠ padding)).filterMap sextetValue

def base64Bytes (text : Text) : List UInt8 := packed (sextets text)

theorem sextetUnitValue {n : Nat} (small : n < 64) : sextetValue (sextetUnit n) = some n ∧ sextetUnit n ≠ padding := by
  unfold sextetUnit sextetValue padding
  grind

theorem sextetsCons {n : Nat} (small : n < 64) (rest : Text) : sextets (sextetUnit n :: rest) = n :: sextets rest := by
  obtain ⟨value, other⟩ := sextetUnitValue small
  simp only [sextets, List.takeWhile_cons, other, ne_eq, not_false_eq_true, decide_true, if_true, List.filterMap_cons, value]

theorem sextetsPadding (rest : Text) : sextets (padding :: rest) = [] := by
  simp [sextets]

theorem packedByte (b : UInt8) {n : Nat} (same : n = b.toNat) : UInt8.ofNat n = b := by
  rw [same, UInt8.ofNat_toNat]

theorem base64BytesText (bytes : List UInt8) : base64Bytes (base64Text bytes) = bytes := by
  unfold base64Bytes
  fun_induction base64Text bytes with
  | case1 a b c rest ih =>
    have ha := a.toNat_lt
    have hb := b.toNat_lt
    have hc := c.toNat_lt
    rw [sextetsCons (by omega), sextetsCons (by omega), sextetsCons (by omega), sextetsCons (by omega), packed, ih,
      packedByte a (by omega), packedByte b (by omega), packedByte c (by omega)]
  | case2 a b =>
    have ha := a.toNat_lt
    have hb := b.toNat_lt
    rw [sextetsCons (by omega), sextetsCons (by omega), sextetsCons (by omega), sextetsPadding, packed,
      packedByte a (by omega), packedByte b (by omega)]
  | case3 a =>
    have ha := a.toNat_lt
    rw [sextetsCons (by omega), sextetsCons (by omega), sextetsPadding, packed, packedByte a (by omega)]
  | case4 => rfl

theorem base64Length (bytes : List UInt8) (unpadded : padding ∉ base64Text bytes) :
    4 * bytes.length = 3 * (base64Text bytes).length := by
  fun_induction base64Text bytes with
  | case1 a b c rest ih =>
    simp only [List.mem_cons, not_or] at unpadded
    have counted := ih unpadded.2.2.2.2
    simp only [List.length_cons]
    omega
  | case2 a b => simp at unpadded
  | case3 a => simp at unpadded
  | case4 => rfl

end Base64

section Units

def plainUnit (c : CodeUnit) : Prop := 43 ≤ c ∧ c ≤ 122

theorem hexEach {p : CodeUnit → Prop} (digit : ∀ n < 16, p (hexUnit n)) (bytes : List UInt8) : ∀ c ∈ hexText bytes, p c := by
  intro c member
  obtain ⟨b, -, listed⟩ := List.mem_flatMap.mp member
  have small := b.toNat_lt
  simp only [List.mem_cons, List.not_mem_nil, or_false] at listed
  rcases listed with rfl | rfl
  · exact digit _ (by omega)
  · exact digit _ (by omega)

theorem hexUnits (bytes : List UInt8) : ∀ c ∈ hexText bytes, plainUnit c := by
  refine hexEach (fun n small => ?_) bytes
  unfold plainUnit hexUnit
  grind

theorem base64Units (bytes : List UInt8) : ∀ c ∈ base64Text bytes, plainUnit c := by
  have unit {n : Nat} (small : n < 64) : plainUnit (sextetUnit n) := by
    unfold plainUnit sextetUnit
    grind
  have pad : plainUnit padding := by
    unfold plainUnit padding
    decide
  fun_induction base64Text bytes with
  | case1 a b c rest ih =>
    have ha := a.toNat_lt
    have hb := b.toNat_lt
    have hc := c.toNat_lt
    simp only [List.forall_mem_cons]
    exact ⟨unit (by omega), unit (by omega), unit (by omega), unit (by omega), ih⟩
  | case2 a b =>
    have ha := a.toNat_lt
    have hb := b.toNat_lt
    simp only [List.forall_mem_cons]
    exact ⟨unit (by omega), unit (by omega), unit (by omega), pad, by simp⟩
  | case3 a =>
    have ha := a.toNat_lt
    simp only [List.forall_mem_cons]
    exact ⟨unit (by omega), unit (by omega), pad, pad, by simp⟩
  | case4 => simp

theorem plainBare {c : CodeUnit} (plain : plainUnit c) : isWhite c = false := by
  obtain ⟨low, high⟩ := plain
  unfold isWhite
  grind

theorem trimPlain {text : Text} (plain : ∀ c ∈ text, plainUnit c) : trim text = text := by
  have bare : ∀ c ∈ text, isWhite c = false := fun c member => plainBare (plain c member)
  cases text with
  | nil => exact trimByNil
  | cons c rest =>
    rw [trim, trimByOpen (bare c List.mem_cons_self), List.rdropWhile_eq_self_iff]
    intro some'
    rw [bare _ (List.getLast_mem some')]
    simp

end Units

end DatabaseAdmin.BinaryText
