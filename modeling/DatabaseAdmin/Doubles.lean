import Mathlib.Data.Int.Log
import Mathlib.Data.Rat.Floor
import Mathlib.Tactic.Positivity
import Mathlib.Tactic.Linarith
import Mathlib.Tactic.FieldSimp

/-! Binary floating point numbers of 53 bits, as the rationals they are, and the rounding of a rational that
is not negative to the nearest of them. -/
namespace DatabaseAdmin.Doubles

section Rounding

def exponent (q : ℚ) : ℤ := max (Int.log 2 q - 52) (-1074)

def spacing (q : ℚ) : ℚ := 2 ^ exponent q

def nearest (x : ℚ) : ℤ :=
  if 2 * Int.fract x < 1 then ⌊x⌋
  else if 1 < 2 * Int.fract x then ⌊x⌋ + 1
  else if ⌊x⌋ % 2 = 0 then ⌊x⌋ else ⌊x⌋ + 1

def rounded (q : ℚ) : ℚ := nearest (q / spacing q) * spacing q

def toDouble (q : ℚ) : Option ℚ := if rounded q < 2 ^ 1024 then some (rounded q) else none

end Rounding

section Grid

theorem spacingPos (q : ℚ) : 0 < spacing q := zpow_pos (by norm_num) _

theorem nearestInt (m : ℤ) : nearest m = m := by
  simp [nearest]

theorem nearestBounds (x : ℚ) : ⌊x⌋ ≤ nearest x ∧ nearest x ≤ ⌊x⌋ + 1 := by
  unfold nearest
  split_ifs <;> omega

theorem roundedGrid {q : ℚ} {m e : ℤ} (grid : q = m * 2 ^ e) (fine : exponent q ≤ e) : rounded q = q := by
  obtain ⟨k, rise⟩ := Int.le.dest fine
  have whole : q / spacing q = ((m * 2 ^ k : ℤ) : ℚ) := by
    have split : (2 : ℚ) ^ e = 2 ^ k * 2 ^ exponent q := by
      rw [← rise, zpow_add₀ two_ne_zero, zpow_natCast, mul_comm]
    rw [div_eq_iff (spacingPos q).ne', spacing, Int.cast_mul, Int.cast_pow, Int.cast_ofNat, mul_assoc, ← split]
    exact grid
  rw [rounded, whole, nearestInt, ← whole, div_mul_cancel₀ q (spacingPos q).ne']

theorem logBounds {q : ℚ} (positive : 0 < q) : (2 : ℚ) ^ Int.log 2 q ≤ q ∧ q < 2 ^ (Int.log 2 q + 1) := by
  have low := Int.zpow_log_le_self one_lt_two positive
  have high := Int.lt_zpow_succ_log_self one_lt_two q
  exact ⟨by simpa using low, by simpa using high⟩

theorem mantissaLimit {q : ℚ} (positive : 0 < q) : nearest (q / spacing q) ≤ 2 ^ 53 := by
  have high := (logBounds positive).2
  have apart : Int.log 2 q + 1 - exponent q ≤ 53 := by
    have := le_max_left (Int.log 2 q - 52) (-1074)
    unfold exponent
    omega
  have below : q / spacing q < (2 ^ 53 : ℤ) := by
    have bound : (2 : ℚ) ^ (Int.log 2 q + 1) ≤ 2 ^ (53 : ℤ) * spacing q := by
      rw [spacing, ← zpow_add₀ two_ne_zero]
      exact zpow_le_zpow_right₀ one_le_two (by omega)
    have power : ((2 ^ 53 : ℤ) : ℚ) = 2 ^ (53 : ℤ) := by norm_num
    rw [div_lt_iff₀ (spacingPos q), power]
    exact high.trans_le bound
  have floor : ⌊q / spacing q⌋ < 2 ^ 53 := Int.floor_lt.mpr below
  have near := (nearestBounds (q / spacing q)).2
  omega

theorem mantissaNat {q : ℚ} (positive : 0 < q) : 0 ≤ nearest (q / spacing q) :=
  (Int.floor_nonneg.mpr (div_pos positive (spacingPos q)).le).trans (nearestBounds _).1

theorem roundedNat {q : ℚ} (positive : 0 < q) : 0 ≤ rounded q :=
  mul_nonneg (Int.cast_nonneg (mantissaNat positive)) (spacingPos q).le

theorem roundedLimit {q : ℚ} (positive : 0 < q) : rounded q ≤ 2 ^ (53 + exponent q) := by
  have limit : ((nearest (q / spacing q) : ℤ) : ℚ) ≤ 2 ^ (53 : ℤ) := by
    have cast : ((nearest (q / spacing q) : ℤ) : ℚ) ≤ ((2 ^ 53 : ℤ) : ℚ) := Int.cast_le.mpr (mantissaLimit positive)
    exact cast.trans_eq (by norm_num)
  rw [zpow_add₀ two_ne_zero]
  exact mul_le_mul_of_nonneg_right limit (spacingPos q).le

theorem roundedAgain {q : ℚ} (positive : 0 < q) : rounded (rounded q) = rounded q := by
  have form : rounded q = nearest (q / spacing q) * 2 ^ exponent q := rfl
  rcases le_or_gt (exponent (rounded q)) (exponent q) with fine | coarse
  · exact roundedGrid form fine
  · rcases (roundedNat positive).eq_or_lt with zero | some
    · rw [← zero]
      exact roundedGrid (m := 0) (e := exponent 0) (by simp) le_rfl
    · have floor : -1074 ≤ exponent q := le_max_right _ _
      have log : exponent (rounded q) = Int.log 2 (rounded q) - 52 := by
        unfold exponent at coarse floor ⊢
        omega
      have low := (logBounds some).1
      have high := roundedLimit positive
      have top : Int.log 2 (rounded q) = 53 + exponent q := by
        have above : Int.log 2 (rounded q) ≤ 53 + exponent q := (zpow_le_zpow_iff_right₀ one_lt_two).mp (low.trans high)
        omega
      have power : rounded q = 2 ^ Int.log 2 (rounded q) := le_antisymm (top ▸ high) low
      exact roundedGrid (m := 1) (e := Int.log 2 (rounded q)) (by rw [Int.cast_one, one_mul]; exact power) (by omega)

theorem toDoubleAgain {q v : ℚ} (positive : 0 < q) (made : toDouble q = some v) : toDouble v = some v := by
  unfold toDouble at made ⊢
  split at made
  · rename_i small
    cases made
    rw [roundedAgain positive, if_pos small]
  · contradiction

theorem roundedZero : rounded 0 = 0 := roundedGrid (m := 0) (e := exponent 0) (by simp) le_rfl

theorem toDoubleZero : toDouble 0 = some 0 := by
  rw [toDouble, roundedZero, if_pos (by positivity)]

end Grid

section Integers

theorem smallExact {n : ℕ} (small : n ≤ 2 ^ 53) : rounded n = n := by
  rcases Nat.eq_zero_or_pos n with rfl | some
  · exact_mod_cast roundedZero
  · have positive : (0 : ℚ) < n := Nat.cast_pos.mpr some
    have low := (logBounds positive).1
    rcases Nat.lt_or_eq_of_le small with less | same
    · have high : (n : ℚ) < 2 ^ (53 : ℤ) := by exact_mod_cast less
      have log : Int.log 2 (n : ℚ) < 53 := (zpow_lt_zpow_iff_right₀ one_lt_two).mp (low.trans_lt high)
      exact roundedGrid (m := n) (e := 0) (by simp) (max_le (by omega) (by norm_num))
    · have power : (n : ℚ) = 2 ^ (53 : ℤ) := by exact_mod_cast same
      have log : Int.log 2 (n : ℚ) ≤ 53 := (zpow_le_zpow_iff_right₀ one_lt_two).mp (low.trans_eq power)
      exact roundedGrid (m := 1) (e := 53) (by rw [power]; norm_num) (max_le (by omega) (by norm_num))

theorem largeStays {q : ℚ} (large : 2 ^ 53 ≤ q) : 2 ^ 53 ≤ rounded q := by
  have positive : 0 < q := lt_of_lt_of_le (by positivity) large
  have low := (logBounds positive).1
  have high := (logBounds positive).2
  have log : 53 ≤ Int.log 2 q := by
    have less : (2 : ℚ) ^ (53 : ℤ) < 2 ^ (Int.log 2 q + 1) := lt_of_le_of_lt (by exact_mod_cast large) high
    have := (zpow_lt_zpow_iff_right₀ one_lt_two).mp less
    omega
  have place : exponent q = Int.log 2 q - 52 := max_eq_left (by omega)
  have power : ((2 ^ 52 : ℤ) : ℚ) = 2 ^ (52 : ℤ) := by norm_num
  have whole : (2 : ℚ) ^ (52 : ℤ) * spacing q = 2 ^ Int.log 2 q := by
    rw [spacing, ← zpow_add₀ two_ne_zero, place]
    congr 1
    omega
  have mantissa : 2 ^ 52 ≤ nearest (q / spacing q) := by
    refine le_trans (Int.le_floor.mpr ?_) (nearestBounds _).1
    rw [power, le_div_iff₀ (spacingPos q), whole]
    exact low
  have cast : (2 : ℚ) ^ (52 : ℤ) ≤ nearest (q / spacing q) := power ▸ Int.cast_le.mpr mantissa
  calc (2 : ℚ) ^ 53 = 2 ^ (53 : ℤ) := by norm_num
    _ ≤ 2 ^ Int.log 2 q := zpow_le_zpow_right₀ one_le_two log
    _ = 2 ^ (52 : ℤ) * spacing q := whole.symm
    _ ≤ rounded q := mul_le_mul_of_nonneg_right cast (spacingPos q).le

theorem safeExact {n : ℕ} {v : ℚ} (made : toDouble n = some v) (safe : v < 2 ^ 53) : v = n := by
  unfold toDouble at made
  split at made
  · cases made
    have small : n ≤ 2 ^ 53 := by
      by_contra large
      have above : (2 : ℚ) ^ 53 ≤ n := by exact_mod_cast (Nat.lt_of_not_le large).le
      exact absurd (largeStays above) (not_le.mpr safe)
    exact smallExact small
  · contradiction

end Integers

section Decimals

theorem binaryDecimal (m k n : ℕ) : (m : ℚ) * 2 ^ (-(n : ℤ) + k) = ((m * 2 ^ k * 5 ^ n : ℕ) : ℚ) * 10 ^ (-(n : ℤ)) := by
  have ten : (10 : ℚ) = 2 * 5 := by norm_num
  rw [ten, mul_zpow, zpow_add₀ two_ne_zero, zpow_natCast, zpow_neg, zpow_neg, zpow_natCast, zpow_natCast]
  push_cast
  field_simp

theorem decimalForm {v : ℚ} (positive : 0 < v) (exact : toDouble v = some v) : ∃ d : ℕ, v = d * 10 ^ (-1074 : ℤ) := by
  have fixed : rounded v = v := by
    unfold toDouble at exact
    split at exact
    · exact Option.some.inj exact
    · contradiction
  obtain ⟨m, made⟩ := Int.eq_ofNat_of_zero_le (mantissaNat positive)
  obtain ⟨k, rise⟩ := Int.le.dest (le_max_right (Int.log 2 v - 52) (-1074))
  have place : exponent v = -((1074 : ℕ) : ℤ) + k := rise.symm
  have grid : v = m * 2 ^ (-((1074 : ℕ) : ℤ) + k) := by
    conv_lhs => rw [← fixed, rounded, made, spacing, place]
    rfl
  exact ⟨m * 2 ^ k * 5 ^ 1074, grid.trans (binaryDecimal m k 1074)⟩

end Decimals

end DatabaseAdmin.Doubles
