import DatabaseAdmin.SqlDialect
import DatabaseAdmin.BinaryText
import DatabaseAdmin.Doubles
import Mathlib.Data.Nat.Digits.Lemmas

/-! Decimal numerals: the number that one spells, and the shortest one of a floating point number, as the
language writes it. -/
namespace DatabaseAdmin.NumberTexts
open CodeUnits BinaryText Doubles

section Reading

def digitsValue (t : Text) : ℕ := t.foldl (fun n c => 10 * n + (c - 48)) 0

def isExponentMark (c : CodeUnit) : Bool := c == 101 || c == 69

def mantissa (t : Text) : Option (ℕ × ℕ) :=
  let whole := t.takeWhile isDigit
  match t.dropWhile isDigit with
  | [] => if whole = [] then none else some (digitsValue whole, 0)
  | c :: fraction =>
      if c = '.' ∧ fraction.all isDigit = true ∧ (whole ≠ [] ∨ fraction ≠ []) then
        some (digitsValue (whole ++ fraction), fraction.length)
      else none

def natural (t : Text) : Option ℕ := if t ≠ [] ∧ t.all isDigit = true then some (digitsValue t) else none

def exponentValue : Text → Option ℤ
  | 43 :: t => (natural t).map Int.ofNat
  | 45 :: t => (natural t).map fun n : ℕ => -(n : ℤ)
  | t => (natural t).map Int.ofNat

def unsignedNumeral (t : Text) : Option ℚ :=
  match mantissa (t.takeWhile fun c => !isExponentMark c), t.dropWhile fun c => !isExponentMark c with
  | some (digits, places), [] => some (digits * 10 ^ (-(places : ℤ)))
  | some (digits, places), _ :: tail => (exponentValue tail).map fun x : ℤ => (digits : ℚ) * 10 ^ (x - places)
  | none, _ => none

def numeral : Text → Option ℚ
  | 43 :: t => unsignedNumeral t
  | 45 :: t => (unsignedNumeral t).map (- ·)
  | t => unsignedNumeral t

end Reading

section Writing

def digitsText (s : ℕ) : Text := (Nat.digits 10 s).reverse.map (48 + ·)

def candidate (v : ℚ) (k : ℕ) : Option (ℕ × ℤ) :=
  let p := Int.log 10 v + 1 - k
  let low := ⌊v / 10 ^ p⌋₊
  let fits (s : ℕ) : Bool := toDouble (s * 10 ^ p) = some v
  let digits :=
    if fits low && fits (low + 1) then some (nearest (v / 10 ^ p)).toNat
    else if fits low then some low else if fits (low + 1) then some (low + 1) else none
  (digits.filter fits).map fun s => if s = 10 ^ k then (10 ^ (k - 1), p + 1) else (s, p)

def shortest (v : ℚ) : ℕ × ℤ := ((List.range' 1 17).findSome? (candidate v)).getD (⌊v * 10 ^ (1074 : ℤ)⌋₊, -1074)

def leading (digits : Text) : Text := if digits.length = 1 then digits else digits.take 1 ++ 46 :: digits.drop 1

def layout (digits : Text) (n : ℤ) : Text :=
  if digits.length ≤ n ∧ n ≤ 21 then digits ++ List.replicate (n - digits.length).toNat 48
  else if 0 < n ∧ n ≤ 21 then digits.take n.toNat ++ 46 :: digits.drop n.toNat
  else if -6 < n ∧ n ≤ 0 then 48 :: 46 :: (List.replicate (-n).toNat 48 ++ digits)
  else leading digits ++ 101 :: (if 0 < n - 1 then 43 else 45) :: digitsText (n - 1).natAbs

def magnitudeText (v : ℚ) : Text :=
  let digits := digitsText (shortest v).1
  layout digits (digits.length + (shortest v).2)

end Writing

section Digits

theorem valueFrom (t : Text) (n : ℕ) : t.foldl (fun n c => 10 * n + (c - 48)) n = n * 10 ^ t.length + digitsValue t := by
  induction t using List.reverseRecOn with
  | nil => simp [digitsValue]
  | append_singleton t c ih =>
    simp only [digitsValue, List.foldl_append, List.foldl_cons, List.foldl_nil, List.length_append, List.length_singleton] at ih ⊢
    rw [ih, Nat.pow_succ]
    ring

theorem valueAppend (a b : Text) : digitsValue (a ++ b) = digitsValue a * 10 ^ b.length + digitsValue b := by
  have split : digitsValue (a ++ b) = b.foldl (fun n c => 10 * n + (c - 48)) (digitsValue a) := List.foldl_append
  rw [split, valueFrom]

theorem valueZeros (k : ℕ) : digitsValue (List.replicate k 48) = 0 := by
  induction k with
  | zero => rfl
  | succ k ih =>
    have split : List.replicate (k + 1) (48 : CodeUnit) = [48] ++ List.replicate k 48 := rfl
    rw [split, valueAppend, ih]
    simp [digitsValue]

theorem digitsBack (s : ℕ) : digitsValue (digitsText s) = s := by
  have read (l : List ℕ) : digitsValue (l.reverse.map (48 + ·)) = Nat.ofDigits 10 l := by
    rw [digitsValue, List.foldl_map, List.foldl_reverse, Nat.ofDigits_eq_foldr]
    congr 1
    funext d n
    simp [Nat.add_comm]
  rw [digitsText, read, Nat.ofDigits_digits]

theorem digitsAll (s : ℕ) : ∀ c ∈ digitsText s, isDigit c = true := by
  intro c member
  obtain ⟨d, listed, rfl⟩ := List.mem_map.mp member
  have small := Nat.digits_lt_base (by decide) (List.mem_reverse.mp listed)
  have range : (48 : ℕ) ≤ 48 + d ∧ (48 : ℕ) + d ≤ 57 := by omega
  simpa [isDigit] using range

theorem digitsSome {s : ℕ} (some : s ≠ 0) : digitsText s ≠ [] := by
  simpa [digitsText, Nat.digits_eq_nil_iff_eq_zero] using some

end Digits

section Layouts

theorem digitBody {c : CodeUnit} (digit : isDigit c = true) : isExponentMark c = false := by
  have range : 48 ≤ c ∧ c ≤ 57 := by simpa [isDigit] using digit
  have first : c ≠ 101 := fun same => absurd (same ▸ range.2) (by decide)
  have second : c ≠ 69 := fun same => absurd (same ▸ range.2) (by decide)
  simp [isExponentMark, first, second]

theorem takenDigits {digits : Text} (all : ∀ c ∈ digits, isDigit c = true) (rest : Text)
    (ends : ∀ c ∈ rest.head?, isDigit c = false) :
    (digits ++ rest).takeWhile isDigit = digits ∧ (digits ++ rest).dropWhile isDigit = rest := by
  induction digits with
  | nil =>
    cases rest with
    | nil => exact ⟨rfl, rfl⟩
    | cons c rest => simp [ends c rfl]
  | cons c digits ih =>
    obtain ⟨head, tail⟩ := List.forall_mem_cons.mp all
    obtain ⟨taken, dropped⟩ := ih tail
    simp [head, taken, dropped]

theorem mantissaWhole {digits : Text} (given : digits ≠ []) (all : ∀ c ∈ digits, isDigit c = true) :
    mantissa digits = some (digitsValue digits, 0) := by
  obtain ⟨taken, dropped⟩ := takenDigits all [] nofun
  rw [List.append_nil] at taken dropped
  simp only [mantissa, taken, dropped, if_neg given]

theorem mantissaPoint {whole fraction : Text} (given : whole ≠ []) (first : ∀ c ∈ whole, isDigit c = true)
    (last : ∀ c ∈ fraction, isDigit c = true) :
    mantissa (whole ++ 46 :: fraction) = some (digitsValue (whole ++ fraction), fraction.length) := by
  obtain ⟨taken, dropped⟩ := takenDigits first (46 :: fraction) (by rintro _ ⟨⟩; rfl)
  have fits : (46 : CodeUnit) = '.' ∧ fraction.all isDigit = true ∧ (whole ≠ [] ∨ fraction ≠ []) :=
    ⟨rfl, List.all_eq_true.mpr last, .inl given⟩
  simp only [mantissa, taken, dropped, if_pos fits]

def Body (t : Text) : Prop := ∀ c ∈ t, isExponentMark c = false

theorem digitsBody {digits : Text} (all : ∀ c ∈ digits, isDigit c = true) : Body digits := fun c member => digitBody (all c member)

theorem pointBody {whole fraction : Text} (first : Body whole) (last : Body fraction) : Body (whole ++ 46 :: fraction) :=
  List.forall_mem_append.mpr ⟨first, List.forall_mem_cons.mpr ⟨rfl, last⟩⟩

theorem bodySplit {t : Text} (body : Body t) (rest : Text) (ends : ∀ c ∈ rest.head?, isExponentMark c = true) :
    (t ++ rest).takeWhile (fun c => !isExponentMark c) = t ∧ (t ++ rest).dropWhile (fun c => !isExponentMark c) = rest := by
  induction t with
  | nil =>
    cases rest with
    | nil => exact ⟨rfl, rfl⟩
    | cons c rest => simp [ends c rfl]
  | cons c t ih =>
    obtain ⟨head, tail⟩ := List.forall_mem_cons.mp body
    obtain ⟨taken, dropped⟩ := ih tail
    simp [head, taken, dropped]

theorem plainNumeral {t : Text} (body : Body t) {digits places : ℕ} (read : mantissa t = some (digits, places)) :
    unsignedNumeral t = some ((digits : ℚ) * 10 ^ (-(places : ℤ))) := by
  obtain ⟨taken, dropped⟩ := bodySplit body [] nofun
  rw [List.append_nil] at taken dropped
  rw [unsignedNumeral, taken, dropped, read]

theorem scaledNumeral {t tail : Text} (body : Body t) {digits places : ℕ} (read : mantissa t = some (digits, places)) {x : ℤ}
    (scale : exponentValue tail = some x) : unsignedNumeral (t ++ 101 :: tail) = some ((digits : ℚ) * 10 ^ (x - places)) := by
  obtain ⟨taken, dropped⟩ := bodySplit body (101 :: tail) (by rintro _ ⟨⟩; rfl)
  rw [unsignedNumeral, taken, dropped, read]
  simp only [scale, Option.map_some]

theorem exponentRead {x : ℤ} (some : x ≠ 0) :
    exponentValue ((if 0 < x then 43 else 45) :: digitsText x.natAbs) = Option.some x := by
  have read : natural (digitsText x.natAbs) = Option.some x.natAbs := by
    rw [natural, if_pos ⟨digitsSome (Int.natAbs_ne_zero.mpr some), List.all_eq_true.mpr (digitsAll _)⟩, digitsBack]
  by_cases positive : 0 < x
  · rw [if_pos positive, exponentValue, read]
    simp [abs_of_pos positive]
  · rw [if_neg positive, exponentValue, read]
    simp [abs_of_nonpos (not_lt.mp positive)]

theorem leadingRead {digits : Text} (given : digits ≠ []) (all : ∀ c ∈ digits, isDigit c = true) :
    Body (leading digits) ∧ mantissa (leading digits) = some (digitsValue digits, digits.length - 1) := by
  unfold leading
  split
  · rename_i one
    rw [one]
    exact ⟨digitsBody all, mantissaWhole given all⟩
  · have first : ∀ c ∈ digits.take 1, isDigit c = true := fun c member => all c (List.mem_of_mem_take member)
    have last : ∀ c ∈ digits.drop 1, isDigit c = true := fun c member => all c (List.mem_of_mem_drop member)
    have lead : digits.take 1 ≠ [] := by simpa using given
    refine ⟨pointBody (digitsBody first) (digitsBody last), ?_⟩
    rw [mantissaPoint lead first last, List.take_append_drop, List.length_drop]

theorem layoutRead {digits : Text} (given : digits ≠ []) (all : ∀ c ∈ digits, isDigit c = true) (n : ℤ) :
    unsignedNumeral (layout digits n) = some ((digitsValue digits : ℚ) * 10 ^ (n - digits.length)) := by
  have long : 0 < digits.length := List.length_pos_iff.mpr given
  have zeros (k : ℕ) : ∀ c ∈ List.replicate k (48 : CodeUnit), isDigit c = true := fun c member => by
    rw [List.eq_of_mem_replicate member]
    rfl
  rw [layout]
  by_cases whole : digits.length ≤ n ∧ n ≤ 21
  · rw [if_pos whole]
    have padded : ∀ c ∈ digits ++ List.replicate (n - digits.length).toNat 48, isDigit c = true :=
      List.forall_mem_append.mpr ⟨all, zeros _⟩
    rw [plainNumeral (digitsBody padded) (mantissaWhole (by simp [given]) padded), valueAppend, valueZeros, List.length_replicate]
    obtain ⟨k, rise⟩ := Int.le.dest whole.1
    have rest : n - digits.length = k := by omega
    simp [rest]
  rw [if_neg whole]
  by_cases point : 0 < n ∧ n ≤ 21
  · rw [if_pos point]
    have first : ∀ c ∈ digits.take n.toNat, isDigit c = true := fun c member => all c (List.mem_of_mem_take member)
    have last : ∀ c ∈ digits.drop n.toNat, isDigit c = true := fun c member => all c (List.mem_of_mem_drop member)
    have lead : digits.take n.toNat ≠ [] := by
      have front : n.toNat ≠ 0 := by omega
      simp [given, front]
    rw [plainNumeral (pointBody (digitsBody first) (digitsBody last)) (mantissaPoint lead first last), List.take_append_drop,
      List.length_drop]
    congr 3
    omega
  rw [if_neg point]
  by_cases small : -6 < n ∧ n ≤ 0
  · rw [if_pos small]
    have first : ∀ c ∈ [(48 : CodeUnit)], isDigit c = true := by decide
    have last : ∀ c ∈ List.replicate (-n).toNat 48 ++ digits, isDigit c = true := List.forall_mem_append.mpr ⟨zeros _, all⟩
    have split : (48 : CodeUnit) :: 46 :: (List.replicate (-n).toNat 48 ++ digits) =
        [48] ++ 46 :: (List.replicate (-n).toNat 48 ++ digits) := rfl
    have value : digitsValue ([48] ++ (List.replicate (-n).toNat 48 ++ digits)) = digitsValue digits := by
      have front : [(48 : CodeUnit)] ++ List.replicate (-n).toNat 48 = List.replicate ((-n).toNat + 1) 48 := rfl
      rw [← List.append_assoc, valueAppend, front, valueZeros, Nat.zero_mul, Nat.zero_add]
    rw [split, plainNumeral (pointBody (digitsBody first) (digitsBody last)) (mantissaPoint (by simp) first last), value,
      List.length_append, List.length_replicate]
    congr 3
    push_cast
    omega
  rw [if_neg small]
  obtain ⟨body, read⟩ := leadingRead given all
  have apart : n - 1 ≠ 0 := by omega
  rw [scaledNumeral body read (exponentRead apart)]
  congr 3
  omega

end Layouts

section Shortest

theorem sameScale {k : ℕ} (counted : 0 < k) (p : ℤ) : ((10 ^ (k - 1) : ℕ) : ℚ) * 10 ^ (p + 1) = (10 ^ k : ℕ) * 10 ^ p := by
  have power : (10 : ℕ) ^ k = 10 ^ (k - 1) * 10 := (Nat.pow_pred_mul counted).symm
  rw [power, zpow_add_one₀ (by norm_num)]
  push_cast
  ring

theorem candidateFits {v : ℚ} {k : ℕ} (counted : 0 < k) {s : ℕ} {p : ℤ} (made : candidate v k = some (s, p)) :
    toDouble (s * 10 ^ p) = some v := by
  obtain ⟨s', found, shape⟩ := Option.map_eq_some_iff.mp made
  have fits : toDouble (s' * 10 ^ (Int.log 10 v + 1 - k)) = some v := by simpa using (Option.filter_eq_some_iff.mp found).2
  split at shape
  · rename_i power
    obtain ⟨rfl, rfl⟩ := Prod.mk.inj shape
    rw [sameScale counted, ← power]
    exact fits
  · obtain ⟨rfl, rfl⟩ := Prod.mk.inj shape
    exact fits

theorem shortestFits {v : ℚ} (positive : 0 < v) (exact : toDouble v = some v) :
    toDouble ((shortest v).1 * 10 ^ (shortest v).2) = some v := by
  rw [shortest]
  cases found : (List.range' 1 17).findSome? (candidate v) with
  | some pair =>
    obtain ⟨k, listed, made⟩ := List.exists_of_findSome?_eq_some found
    have counted : 0 < k := (List.mem_range'_1.mp listed).1
    exact candidateFits counted made
  | none =>
    obtain ⟨d, form⟩ := decimalForm positive exact
    have whole : v * 10 ^ (1074 : ℤ) = d := by
      rw [form, mul_assoc, ← zpow_add₀ (by norm_num), neg_add_cancel, zpow_zero, mul_one]
    have same : ((⌊v * 10 ^ (1074 : ℤ)⌋₊ : ℕ) : ℚ) * 10 ^ (-1074 : ℤ) = v := by rw [whole, Nat.floor_natCast, ← form]
    rw [Option.getD_none, same]
    exact exact

theorem magnitudeRead {v : ℚ} (positive : 0 < v) (exact : toDouble v = some v) :
    ∃ q, 0 < q ∧ unsignedNumeral (magnitudeText v) = some q ∧ toDouble q = some v := by
  have fits := shortestFits positive exact
  have given : (shortest v).1 ≠ 0 := by
    intro zero
    rw [zero, Nat.cast_zero, zero_mul, toDoubleZero] at fits
    exact positive.ne (Option.some.inj fits)
  have large : (0 : ℚ) < (shortest v).1 := Nat.cast_pos.mpr (Nat.pos_of_ne_zero given)
  refine ⟨(shortest v).1 * 10 ^ (shortest v).2, mul_pos large (zpow_pos (by norm_num) _), ?_, fits⟩
  rw [magnitudeText, layoutRead (digitsSome given) (digitsAll _), digitsBack, add_sub_cancel_left]

end Shortest

section Numerals

theorem digitPlain {c : CodeUnit} (digit : isDigit c = true) : plainUnit c := by
  have range : 48 ≤ c ∧ c ≤ 57 := by simpa [isDigit] using digit
  exact ⟨le_trans (by decide) range.1, le_trans range.2 (by decide)⟩

theorem digitsPlain {t : Text} (all : t.all isDigit = true) : ∀ c ∈ t, plainUnit c :=
  fun c member => digitPlain (List.all_eq_true.mp all c member)

theorem mantissaUnits {t : Text} {read : ℕ × ℕ} (made : mantissa t = some read) : t ≠ [] ∧ ∀ c ∈ t, plainUnit c := by
  have first : ∀ c ∈ t.takeWhile isDigit, plainUnit c := fun c member => digitPlain (List.mem_takeWhile_imp member)
  have split := List.takeWhile_append_dropWhile (p := isDigit) (l := t)
  simp only [mantissa] at made
  split at made
  · rename_i done
    rw [done, List.append_nil] at split
    rw [← split]
    refine ⟨fun none => ?_, first⟩
    rw [split] at none
    rw [none] at made
    contradiction
  · rename_i c fraction more
    split at made
    · rename_i fits
      rw [more] at split
      rw [← split]
      refine ⟨by simp, List.forall_mem_append.mpr ⟨first, List.forall_mem_cons.mpr ⟨?_, digitsPlain fits.2.1⟩⟩⟩
      rw [fits.1]
      exact ⟨by decide, by decide⟩
    · contradiction

theorem naturalUnits {t : Text} {n : ℕ} (made : natural t = some n) : ∀ c ∈ t, plainUnit c := by
  unfold natural at made
  split at made
  · rename_i fits
    exact digitsPlain fits.2
  · contradiction

theorem exponentUnits {t : Text} {x : ℤ} (made : exponentValue t = some x) : ∀ c ∈ t, plainUnit c := by
  unfold exponentValue at made
  split at made
  all_goals obtain ⟨n, read, -⟩ := Option.map_eq_some_iff.mp made
  · exact List.forall_mem_cons.mpr ⟨⟨by decide, by decide⟩, naturalUnits read⟩
  · exact List.forall_mem_cons.mpr ⟨⟨by decide, by decide⟩, naturalUnits read⟩
  · exact naturalUnits read

theorem unsignedUnits {t : Text} {q : ℚ} (made : unsignedNumeral t = some q) : t ≠ [] ∧ ∀ c ∈ t, plainUnit c := by
  have split := List.takeWhile_append_dropWhile (p := fun c => !isExponentMark c) (l := t)
  unfold unsignedNumeral at made
  split at made
  · rename_i read done
    rw [done, List.append_nil] at split
    rw [← split]
    exact mantissaUnits read
  · rename_i mark tail read more
    obtain ⟨given, front⟩ := mantissaUnits read
    obtain ⟨x, scale, -⟩ := Option.map_eq_some_iff.mp made
    rw [more] at split
    have marked : isExponentMark mark = true := by
      have head := List.head?_dropWhile_not (fun c => !isExponentMark c) t
      rw [more] at head
      simpa using head
    have plain : plainUnit mark := by
      simp only [isExponentMark, Bool.or_eq_true, beq_iff_eq] at marked
      rcases marked with rfl | rfl
      · exact ⟨by decide, by decide⟩
      · exact ⟨by decide, by decide⟩
    rw [← split]
    exact ⟨by simp, List.forall_mem_append.mpr ⟨front, List.forall_mem_cons.mpr ⟨plain, exponentUnits scale⟩⟩⟩
  · contradiction

theorem signedUnits {t : Text} {q : ℚ} (made : numeral t = some q) : t ≠ [] ∧ ∀ c ∈ t, plainUnit c := by
  unfold numeral at made
  split at made
  · exact ⟨by simp, List.forall_mem_cons.mpr ⟨⟨by decide, by decide⟩, (unsignedUnits made).2⟩⟩
  · obtain ⟨v, read, -⟩ := Option.map_eq_some_iff.mp made
    exact ⟨by simp, List.forall_mem_cons.mpr ⟨⟨by decide, by decide⟩, (unsignedUnits read).2⟩⟩
  · exact unsignedUnits made

theorem unsignedFirst {c : CodeUnit} (sign : c = 43 ∨ c = 45) (t : Text) : unsignedNumeral (c :: t) = none := by
  have other : isDigit c = false ∧ isExponentMark c = false ∧ c ≠ 46 := by
    rcases sign with rfl | rfl
    · decide
    · decide
  have front : mantissa ((c :: t).takeWhile fun c => !isExponentMark c) = none := by
    simp [mantissa, other.1, other.2.1, other.2.2]
  unfold unsignedNumeral
  rw [front]

theorem unsignedPlain {t : Text} {q : ℚ} (made : unsignedNumeral t = some q) : numeral t = some q := by
  unfold numeral
  split
  · rw [unsignedFirst (.inl rfl)] at made
    contradiction
  · rw [unsignedFirst (.inr rfl)] at made
    contradiction
  · exact made

end Numerals

section Numbers

structure FiniteDouble where
  value : ℚ
  exact : toDouble |value| = some |value|

inductive Double where
  | nan
  | infinity (negative : Bool)
  | finite (x : FiniteDouble)

def Double.text : Double → Text
  | nan => units "NaN"
  | infinity negative => units (if negative then "-Infinity" else "Infinity")
  | finite x =>
      if x.value = 0 then units "0"
      else if x.value < 0 then 45 :: magnitudeText (-x.value) else magnitudeText x.value

def Double.isFinite : Double → Bool
  | finite _ => true
  | _ => false

def Double.isSafeInteger : Double → Bool
  | finite x => x.value.isInt && |x.value| ≤ 9007199254740991
  | _ => false

theorem doubleExact {q m : ℚ} (made : toDouble |q| = some m) (negative : Bool) :
    toDouble |if negative then -m else m| = some |if negative then -m else m| := by
  have facts : 0 ≤ m ∧ toDouble m = some m := by
    rcases (abs_nonneg q).eq_or_lt with zero | positive
    · rw [← zero, toDoubleZero] at made
      cases made
      exact ⟨le_rfl, toDoubleZero⟩
    · refine ⟨?_, toDoubleAgain positive made⟩
      unfold toDouble at made
      split at made
      · cases made
        exact roundedNat positive
      · contradiction
  have size : |if negative then -m else m| = m := by
    cases negative
    · simp [abs_of_nonneg facts.1]
    · simp [abs_of_nonneg facts.1]
  rw [size]
  exact facts.2

def number (q : ℚ) : Double :=
  match made : toDouble |q| with
  | none => .infinity (q < 0)
  | some m => .finite ⟨if decide (q < 0) then -m else m, doubleExact made _⟩

theorem numberMade {q : ℚ} {x : FiniteDouble} (near : toDouble |q| = some |x.value|) (sign : q < 0 ↔ x.value < 0) :
    number q = .finite x := by
  unfold number
  split
  · rename_i none
    rw [near] at none
    contradiction
  · rename_i m made
    rw [near] at made
    cases made
    congr 1
    obtain ⟨value, exact⟩ := x
    congr 1
    by_cases negative : value < 0
    · simp [sign.mpr negative, abs_of_neg negative]
    · simp [mt sign.mp negative, abs_of_nonneg (not_lt.mp negative)]

theorem numberFinite {q : ℚ} {x : FiniteDouble} (made : number q = .finite x) :
    ∃ m, toDouble |q| = some m ∧ x.value = if q < 0 then -m else m := by
  unfold number at made
  split at made
  · contradiction
  · rename_i m near
    cases made
    exact ⟨m, near, by simp⟩

theorem numberInfinite {q : ℚ} {negative : Bool} (made : number q = .infinity negative) : toDouble |q| = none := by
  unfold number at made
  split at made
  · assumption
  · contradiction

theorem numberSome (q : ℚ) : number q ≠ .nan := by
  unfold number
  split
  · nofun
  · nofun

theorem textBack (x : FiniteDouble) : ∃ q, numeral (Double.finite x).text = some q ∧ number q = .finite x := by
  have exact := x.exact
  rw [Double.text]
  split
  · rename_i zero
    refine ⟨0, by decide +kernel, numberMade ?_ (by simp [zero])⟩
    rw [zero, abs_zero, toDoubleZero]
  · rename_i given
    split
    · rename_i negative
      rw [abs_of_neg negative] at exact
      obtain ⟨q, positive, read, near⟩ := magnitudeRead (neg_pos.mpr negative) exact
      refine ⟨-q, ?_, numberMade ?_ ⟨fun _ => negative, fun _ => neg_lt_zero.mpr positive⟩⟩
      · rw [numeral, read, Option.map_some]
      · rw [abs_neg, abs_of_pos positive, abs_of_neg negative, near]
    · rename_i rest
      have large : 0 < x.value := lt_of_le_of_ne (not_lt.mp rest) (Ne.symm given)
      rw [abs_of_pos large] at exact
      obtain ⟨q, positive, read, near⟩ := magnitudeRead large exact
      refine ⟨q, unsignedPlain read, numberMade ?_ ⟨fun below => absurd below positive.le.not_gt, fun below => absurd below rest⟩⟩
      rw [abs_of_pos positive, abs_of_pos large, near]

def numeralUnit (c : CodeUnit) : Prop := isDigit c = true ∨ c = 43 ∨ c = 45 ∨ c = 46 ∨ c = 101

theorem layoutUnits {digits : Text} (all : ∀ c ∈ digits, isDigit c = true) (n : ℤ) : ∀ c ∈ layout digits n, numeralUnit c := by
  have zeros (k : ℕ) : ∀ c ∈ List.replicate k 48, numeralUnit c := fun c member => .inl (List.eq_of_mem_replicate member ▸ rfl)
  have inside : ∀ c ∈ digits, numeralUnit c := fun c member => .inl (all c member)
  have first (k : ℕ) : ∀ c ∈ digits.take k, numeralUnit c := fun c member => inside c (List.mem_of_mem_take member)
  have last (k : ℕ) : ∀ c ∈ digits.drop k, numeralUnit c := fun c member => inside c (List.mem_of_mem_drop member)
  have point : numeralUnit 46 := by simp [numeralUnit]
  have led : ∀ c ∈ leading digits, numeralUnit c := by
    unfold leading
    split
    · exact inside
    · exact List.forall_mem_append.mpr ⟨first 1, List.forall_mem_cons.mpr ⟨point, last 1⟩⟩
  unfold layout
  split
  · exact List.forall_mem_append.mpr ⟨inside, zeros _⟩
  split
  · exact List.forall_mem_append.mpr ⟨first _, List.forall_mem_cons.mpr ⟨point, last _⟩⟩
  split
  · exact List.forall_mem_cons.mpr ⟨.inl rfl, List.forall_mem_cons.mpr ⟨point, List.forall_mem_append.mpr ⟨zeros _, inside⟩⟩⟩
  · have sign : numeralUnit (if 0 < n - 1 then 43 else 45) := by
      split <;> simp [numeralUnit]
    have mark : numeralUnit 101 := by simp [numeralUnit]
    have place : ∀ c ∈ digitsText (n - 1).natAbs, numeralUnit c := fun c member => .inl (digitsAll _ c member)
    exact List.forall_mem_append.mpr ⟨led, List.forall_mem_cons.mpr ⟨mark, List.forall_mem_cons.mpr ⟨sign, place⟩⟩⟩

theorem finiteUnits (x : FiniteDouble) : ∀ c ∈ (Double.finite x).text, numeralUnit c := by
  rw [Double.text]
  split
  · exact List.forall_mem_singleton.mpr (.inl rfl)
  split
  · exact List.forall_mem_cons.mpr ⟨by simp [numeralUnit], layoutUnits (digitsAll _) _⟩
  · exact layoutUnits (digitsAll _) _

theorem otherTexts {x : Double} (other : x.isFinite = false) : numeral x.text = none := by
  cases x with
  | nan => rfl
  | infinity negative => cases negative <;> rfl
  | finite x => contradiction

theorem numberWhole {i : ℤ} (small : i.natAbs ≤ 2 ^ 53) : ∃ exact, number i = .finite ⟨i, exact⟩ := by
  have size : |(i : ℚ)| = (i.natAbs : ℕ) := by rw [Nat.cast_natAbs, Int.cast_abs]
  have exact' : toDouble |(i : ℚ)| = some |(i : ℚ)| := by
    have below : (i.natAbs : ℚ) < 2 ^ 1024 := by
      have limit : (i.natAbs : ℚ) ≤ 2 ^ 53 := by exact_mod_cast small
      exact limit.trans_lt (pow_lt_pow_right₀ one_lt_two (by norm_num))
    rw [size, toDouble, smallExact small, if_pos below]
  exact ⟨exact', numberMade exact' Iff.rfl⟩

theorem safeSame {i : ℤ} {x : FiniteDouble} (made : number i = .finite x) (safe : (Double.finite x).isSafeInteger = true) :
    x.value = i := by
  obtain ⟨m, near, value⟩ := numberFinite made
  have size : |(i : ℚ)| = (i.natAbs : ℕ) := by rw [Nat.cast_natAbs, Int.cast_abs]
  simp only [Double.isSafeInteger, Bool.and_eq_true, decide_eq_true_eq] at safe
  have below : m < 2 ^ 53 := by
    have limit : m ≤ |x.value| := by
      rw [value]
      split
      · rw [abs_neg]
        exact le_abs_self m
      · exact le_abs_self m
    exact (limit.trans safe.2).trans_lt (by norm_num)
  rw [size] at near
  rw [value, safeExact near below, ← size]
  split
  · rename_i negative
    rw [abs_of_neg negative, neg_neg]
  · rename_i rest
    exact abs_of_nonneg (not_lt.mp rest)

end Numbers

end DatabaseAdmin.NumberTexts
