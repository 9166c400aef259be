import Mathlib.Algebra.Order.Field.Power
import Mathlib.Algebra.Order.Floor.Semifield
import Mathlib.Data.Int.Log
import Mathlib.Data.Rat.Floor
import Mathlib.Tactic.Linarith
import Mathlib.Tactic.NormNum
import Mathlib.Tactic.Positivity
import PolarCalc.Decimal.Basic
/-!
# The nearest decimal

The place of a leading digit is a logarithm.  The decimal nearest to a quotient lies
within half a unit of its last place, and has exactly the digits asked for.
-/

namespace PolarCalc

theorem abs_roundDiv_sub_le (num : ℕ) {den : ℕ} (hden : 0 < den) :
    |(roundDiv num den : ℚ) - num / den| ≤ 1 / 2 := by
  obtain ⟨hlow, hhigh⟩ := @roundDiv_near num den hden
  have hlow : (2 * num : ℚ) ≤ 2 * (roundDiv num den * den) + den := by exact_mod_cast hlow
  have hhigh : (2 * (roundDiv num den * den) : ℚ) ≤ 2 * num + den := by exact_mod_cast hhigh
  have hpos : (0 : ℚ) < den := by exact_mod_cast hden
  rw [abs_sub_le_iff]
  constructor
  · rw [sub_le_iff_le_add, ← sub_le_iff_le_add', le_div_iff₀ hpos]
    linarith
  · rw [sub_le_iff_le_add, div_le_iff₀ hpos]
    linarith

theorem eq_of_abs_sub_lt {m n : ℕ} {r : ℚ} (hm : |(m : ℚ) - r| ≤ 1 / 2) (hn : |r - n| < 1 / 2) :
    m = n := by
  have hgap : |((m : ℤ) - n : ℤ)| < 1 := by
    have hsum : |(m : ℚ) - n| < 1 := by
      calc
        |(m : ℚ) - n| ≤ |(m : ℚ) - r| + |r - n| := abs_sub_le _ _ _
        _ < 1 := by linarith
    exact_mod_cast hsum
  have hzero := Int.abs_lt_one_iff.1 hgap
  omega

namespace Decimal

/-! ## Leading places -/

theorem extraDigits_eq_log {fuel n : ℕ} (h : n < 2 ^ (fuel + 1)) :
    extraDigits fuel n = Nat.log 10 n := by
  induction fuel generalizing n with
  | zero =>
      rw [extraDigits, Nat.log_of_lt]
      omega
  | succ fuel ih =>
      rw [extraDigits]
      split
      · rw [Nat.log_of_lt]
        assumption
      · rw [ih, Nat.log_of_one_lt_of_le (n := n) (by omega) (by omega)]
        rw [Nat.pow_succ] at h
        omega

theorem leadingPlace_eq_log (n : ℕ) : leadingPlace n = Nat.log 10 n :=
  extraDigits_eq_log Nat.lt_log2_self

theorem leadingPlaceOfRatio_eq_log {num den : ℕ} (hnum : 0 < num) (hden : 0 < den) :
    leadingPlaceOfRatio num den = Int.log 10 (num / den : ℚ) := by
  have hdenQ : (0 : ℚ) < den := by exact_mod_cast hden
  have hnumQ : (0 : ℚ) < num := by exact_mod_cast hnum
  unfold leadingPlaceOfRatio
  split
  · rename_i hle
    have hone : (1 : ℚ) ≤ num / den := by
      rw [le_div_iff₀ hdenQ, one_mul]
      exact_mod_cast hle
    rw [Int.log_of_one_le_right 10 hone, Nat.floor_div_eq_div, leadingPlace_eq_log]
  · rename_i hlt
    have habove : (den + num - 1) / num = (den - 1) / num + 1 := by
      rw [← Nat.add_div_right _ hnum]
      congr 1
      omega
    have hpos : 0 < (den - 1) / num := Nat.div_pos (by omega) hnum
    simp only [habove, Nat.add_sub_cancel, leadingPlace_eq_log]
    rw [if_neg (by omega)]
    set place := Nat.log 10 ((den - 1) / num) with hplace
    have hlow : 10 ^ place * num < den := by
      have hself := Nat.pow_log_le_self 10 (x := (den - 1) / num) (by omega)
      rw [← hplace, Nat.le_div_iff_mul_le hnum] at hself
      omega
    have hhigh : den ≤ 10 ^ (place + 1) * num := by
      have hself := Nat.lt_pow_succ_log_self (b := 10) (by omega) ((den - 1) / num)
      rw [← hplace, Nat.div_lt_iff_lt_mul hnum] at hself
      exact Nat.le_of_pred_lt hself
    apply le_antisymm
    · rw [← Int.zpow_le_iff_le_log (by omega) (by positivity), zpow_neg, zpow_natCast,
        inv_le_iff_one_le_mul₀ (by positivity), div_mul_eq_mul_div, le_div_iff₀ hdenQ, one_mul,
        mul_comm]
      exact_mod_cast hhigh
    · rw [← Int.lt_add_one_iff, ← Int.lt_zpow_iff_log_lt (by omega) (by positivity)]
      have hplaces : -((place + 1 : ℕ) : ℤ) + 1 = -(place : ℤ) := by omega
      rw [hplaces, zpow_neg, zpow_natCast, lt_inv_comm₀ (by positivity) (by positivity), inv_div,
        lt_div_iff₀ hnumQ]
      exact_mod_cast hlow

/-! ## Rounding -/

/-- The number that a decimal denotes, without its sign. -/
def magnitude (d : Decimal) : ℚ := d.digits * 10 ^ d.exponent

theorem abs_scaledRound_sub_le (num : ℕ) {den : ℕ} (hden : 0 < den) (place : ℤ) :
    |(scaledRound num den place : ℚ) - num / den * 10 ^ place| ≤ 1 / 2 := by
  unfold scaledRound
  split
  · rename_i hplace
    obtain ⟨n, rfl⟩ := Int.eq_ofNat_of_zero_le hplace
    have hnear := abs_roundDiv_sub_le (num * 10 ^ n) hden
    push_cast at hnear
    rw [zpow_natCast, div_mul_eq_mul_div]
    exact hnear
  · rename_i hplace
    obtain ⟨n, hn⟩ := Int.eq_ofNat_of_zero_le (a := -place) (by omega)
    obtain rfl : place = -n := by omega
    have hpos : 0 < den * 10 ^ n := by positivity
    have hnear := abs_roundDiv_sub_le num hpos
    push_cast at hnear
    rw [zpow_neg, zpow_natCast, ← div_eq_mul_inv, div_div]
    simpa using hnear

section Nearest

variable {places num den : ℕ} {negative : Bool}

/-- The place of the last digit of the decimal nearest to a quotient, a carry apart. -/
def lastPlace (places num den : ℕ) : ℤ := Int.log 10 (num / den : ℚ) - ((places : ℤ) - 1)

/-- The digits of the nearest decimal, before a carry is taken back. -/
theorem scaledRound_bounds (hplaces : 0 < places) (hnum : 0 < num) (hden : 0 < den) :
    10 ^ (places - 1) ≤ scaledRound num den (-lastPlace places num den) ∧
      scaledRound num den (-lastPlace places num den) ≤ 10 ^ places := by
  have hpos : (0 : ℚ) < num / den := by positivity
  have hlow := Int.zpow_log_le_self (b := 10) (by omega) hpos
  have hhigh := Int.lt_zpow_succ_log_self (b := 10) (by omega) (num / den : ℚ)
  have hnear := abs_le.1 (abs_scaledRound_sub_le num hden (-lastPlace places num den))
  have hscale (k : ℤ) : (10 : ℚ) ^ (Int.log 10 (num / den : ℚ) + k) *
      10 ^ (-lastPlace places num den) = 10 ^ (places - 1 + k) := by
    rw [← zpow_add₀ (by norm_num)]
    congr 1
    unfold lastPlace
    omega
  have hten : (0 : ℚ) < 10 ^ (-lastPlace places num den) := by positivity
  have hlow : (10 : ℚ) ^ (places - 1) ≤ num / den * 10 ^ (-lastPlace places num den) := by
    calc
      (10 : ℚ) ^ (places - 1) = 10 ^ ((places : ℤ) - 1 + 0) := by
        rw [add_zero, ← zpow_natCast]
        congr 1
        omega
      _ = 10 ^ (Int.log 10 (num / den : ℚ) + 0) * 10 ^ (-lastPlace places num den) :=
        (hscale 0).symm
      _ ≤ num / den * 10 ^ (-lastPlace places num den) := by
        gcongr
        rw [add_zero]
        exact_mod_cast hlow
  have hhigh : num / den * (10 : ℚ) ^ (-lastPlace places num den) < 10 ^ places := by
    calc
      num / den * (10 : ℚ) ^ (-lastPlace places num den) <
          10 ^ (Int.log 10 (num / den : ℚ) + 1) * 10 ^ (-lastPlace places num den) := by
        gcongr
        exact_mod_cast hhigh
      _ = 10 ^ ((places : ℤ) - 1 + 1) := hscale 1
      _ = 10 ^ places := by
        rw [sub_add_cancel, zpow_natCast]
  generalize scaledRound num den (-lastPlace places num den) = digits at hnear ⊢
  constructor
  · rw [← Nat.lt_add_one_iff]
    have hlt : ((10 ^ (places - 1) : ℕ) : ℚ) < ((digits + 1 : ℕ) : ℚ) := by
      push_cast
      linarith [hnear.1]
    exact_mod_cast hlt
  · rw [← Nat.lt_add_one_iff]
    have hlt : ((digits : ℕ) : ℚ) < ((10 ^ places + 1 : ℕ) : ℚ) := by
      push_cast
      linarith [hnear.2]
    exact_mod_cast hlt

theorem nearest_of_pos (hnum : 0 < num) (hden : 0 < den) :
    nearest places negative num den =
      if scaledRound num den (-lastPlace places num den) = 10 ^ places then
        ⟨negative, 10 ^ (places - 1), lastPlace places num den + 1⟩
      else
        ⟨negative, scaledRound num den (-lastPlace places num den), lastPlace places num den⟩ := by
  rw [nearest, if_neg (by omega), leadingPlaceOfRatio_eq_log hnum hden]
  rfl

theorem nearest_digits (hplaces : 0 < places) (hnum : 0 < num) (hden : 0 < den) :
    10 ^ (places - 1) ≤ (nearest places negative num den).digits ∧
      (nearest places negative num den).digits < 10 ^ places := by
  obtain ⟨hlow, hhigh⟩ := scaledRound_bounds hplaces hnum hden
  rw [nearest_of_pos hnum hden]
  split
  · exact ⟨le_rfl, Nat.pow_lt_pow_right (by omega) (by omega)⟩
  · exact ⟨hlow, by simp only; omega⟩

theorem magnitude_nearest_pos (hplaces : 0 < places) (hnum : 0 < num) (hden : 0 < den) :
    0 < (nearest places negative num den).magnitude := by
  have hlow : 10 ^ (places - 1) ≤ (nearest places negative num den).digits :=
    (nearest_digits hplaces hnum hden).1
  have hten : 0 < 10 ^ (places - 1) := by positivity
  have hdigits : (0 : ℚ) < (nearest places negative num den).digits := by
    exact_mod_cast hten.trans_le hlow
  unfold magnitude
  positivity

/-- A carry does not change what is denoted. -/
theorem magnitude_nearest (hplaces : 0 < places) (hnum : 0 < num) (hden : 0 < den) :
    (nearest places negative num den).magnitude =
      scaledRound num den (-lastPlace places num den) * 10 ^ lastPlace places num den := by
  rw [nearest_of_pos hnum hden]
  split
  · rename_i hcarry
    rw [hcarry, magnitude, zpow_add₀ (by norm_num)]
    obtain ⟨more, rfl⟩ : ∃ more, places = more + 1 := ⟨places - 1, by omega⟩
    push_cast
    rw [pow_succ]
    ring
  · rfl

/-- The nearest decimal is within half a unit of the last of its places. -/
theorem abs_magnitude_nearest_sub_le (hplaces : 0 < places) (hnum : 0 < num) (hden : 0 < den) :
    |(nearest places negative num den).magnitude - num / den| ≤
      10 ^ lastPlace places num den / 2 := by
  have hten : (0 : ℚ) < 10 ^ lastPlace places num den := by positivity
  have hnear := abs_scaledRound_sub_le num hden (-lastPlace places num den)
  rw [magnitude_nearest hplaces hnum hden]
  generalize lastPlace places num den = last at hten hnear ⊢
  calc
    |(scaledRound num den (-last) * 10 ^ last - num / den : ℚ)| =
        |(scaledRound num den (-last) - num / den * 10 ^ (-last) : ℚ)| * 10 ^ last := by
      rw [← abs_of_pos hten, ← abs_mul, abs_of_pos hten, sub_mul, mul_assoc,
        ← zpow_add₀ (by norm_num), neg_add_cancel, zpow_zero, mul_one]
    _ ≤ 1 / 2 * 10 ^ last := by gcongr
    _ = 10 ^ last / 2 := by ring

theorem abs_magnitude_nearest_sub_le_tenth (hplaces : 1 < places) (hnum : 0 < num)
    (hden : 0 < den) :
    |(nearest places negative num den).magnitude - num / den| ≤ num / den / 10 := by
  have hpos : (0 : ℚ) < num / den := by positivity
  have hnear : |(nearest places negative num den).magnitude - num / den| ≤ _ :=
    abs_magnitude_nearest_sub_le (by omega) hnum hden
  have hlast : (10 : ℚ) ^ lastPlace places num den * 10 ≤ num / den := by
    calc
      (10 : ℚ) ^ lastPlace places num den * 10 = 10 ^ (lastPlace places num den + 1) :=
        (zpow_add_one₀ (by norm_num) _).symm
      _ ≤ 10 ^ Int.log 10 (num / den : ℚ) := by
        apply zpow_le_zpow_right₀ (by norm_num)
        unfold lastPlace
        omega
      _ ≤ num / den := by exact_mod_cast Int.zpow_log_le_self (b := 10) (by omega) hpos
  linarith

end Nearest

end Decimal

end PolarCalc
