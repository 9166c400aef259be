import PolarCalc.Proofs.Decimal.Nearest
import PolarCalc.Proofs.Double.Range
/-!
# Decimals read as doubles

A decimal is rounded once, from what it denotes: what is decided by the leading place alone
is decided as rounding would decide it.
-/

namespace PolarCalc.Decimal

theorem magnitude_bounds {d : Decimal} (h : d.digits ≠ 0) :
    (10 : ℚ) ^ (d.exponent + leadingPlace d.digits) ≤ d.magnitude ∧
      d.magnitude < 10 ^ (d.exponent + leadingPlace d.digits + 1) := by
  have hlow : (10 : ℚ) ^ leadingPlace d.digits ≤ d.digits := by
    rw [leadingPlace_eq_log]
    exact_mod_cast Nat.pow_log_le_self 10 h
  have hhigh : (d.digits : ℚ) < 10 ^ (leadingPlace d.digits + 1) := by
    rw [leadingPlace_eq_log]
    exact_mod_cast Nat.lt_pow_succ_log_self (b := 10) (by omega) d.digits
  have hten : (0 : ℚ) < 10 ^ d.exponent := by positivity
  unfold magnitude
  constructor
  · rw [add_comm, zpow_add₀ (by norm_num), zpow_natCast]
    gcongr
  · rw [add_assoc, add_comm, zpow_add₀ (by norm_num)]
    gcongr
    exact_mod_cast hhigh

/-- The range ends before the places that are looked at do.  A last place is less than a
quarter of a unit up to the first of these places, at least two units from the second one on
and twenty from the third one on. -/
theorem place_bounds : (Double.rangeLimit : ℚ) ≤ 10 ^ (401 : ℤ) ∧
    (10 : ℚ) ^ (-324 : ℤ) * Double.oneUnits ≤ 1 / 4 ∧
    2 ≤ (10 : ℚ) ^ (-323 : ℤ) * Double.oneUnits ∧
    20 ≤ (10 : ℚ) ^ (-322 : ℤ) * Double.oneUnits := by
  obtain ⟨hlimit, hquarter, htwo, htwenty⟩ :
      Double.rangeLimit ≤ 10 ^ 401 ∧ Double.oneUnits * 4 ≤ 10 ^ 324 ∧
      10 ^ 323 * 2 ≤ Double.oneUnits ∧ 10 ^ 322 * 20 ≤ Double.oneUnits := by decide +kernel
  rw [zpow_neg, zpow_neg, zpow_neg, inv_mul_le_iff₀ (by positivity), le_inv_mul_iff₀ (by positivity),
    le_inv_mul_iff₀ (by positivity), mul_one_div, le_div_iff₀ (by positivity)]
  exact ⟨by exact_mod_cast hlimit, by exact_mod_cast hquarter, by exact_mod_cast htwo,
    by exact_mod_cast htwenty⟩

theorem zpow_mul_oneUnits_le {k : ℤ} (hk : k ≤ -324) : (10 : ℚ) ^ k * Double.oneUnits ≤ 1 / 4 :=
  (mul_le_mul_of_nonneg_right (zpow_le_zpow_right₀ (by norm_num) hk)
    Double.cast_oneUnits_pos.le).trans place_bounds.2.1

theorem magnitude_eq_div (d : Decimal) : d.magnitude =
    (d.digits * 10 ^ d.exponent.toNat : ℕ) / (10 ^ (-d.exponent).toNat : ℕ) := by
  have hsplit : d.exponent = (d.exponent.toNat : ℤ) - (-d.exponent).toNat := by omega
  push_cast
  rw [magnitude, mul_div_assoc, ← zpow_natCast, ← zpow_natCast, ← zpow_sub₀ (by norm_num), ← hsplit]

/-- However far out of range, a decimal is read as the double nearest to it. -/
theorem toDouble_eq_ofRatio (d : Decimal) : d.toDouble =
    Double.ofRatio d.negative (d.digits * 10 ^ d.exponent.toNat) (10 ^ (-d.exponent).toNat) := by
  have hden : 0 < 10 ^ (-d.exponent).toNat := by positivity
  unfold toDouble
  simp only
  by_cases hdigits : d.digits = 0
  · rw [if_pos hdigits, Double.ofRatio, hdigits, Nat.zero_mul, Nat.zero_shiftLeft, Double.round,
      (Double.nearestUnits_eq_zero_iff hden).2 (Nat.zero_le _)]
  rw [if_neg hdigits]
  obtain ⟨hlow, hhigh⟩ := magnitude_bounds hdigits
  rw [magnitude_eq_div] at hlow hhigh
  have hone := Double.cast_oneUnits_pos
  generalize d.exponent + leadingPlace d.digits = place at hlow hhigh
  split
  · rename_i hplace
    rw [Double.ofRatio_eq_infinite hden]
    calc
      (Double.rangeLimit : ℚ) ≤ 10 ^ (401 : ℤ) := place_bounds.1
      _ ≤ 10 ^ place := zpow_le_zpow_right₀ (by norm_num) (by omega)
      _ ≤ _ := hlow
  · split
    · rename_i hplace
      rw [Double.ofRatio, Double.round, (Double.nearestUnits_scaled_eq_zero_iff hden).2]
      have hsmall := zpow_mul_oneUnits_le (k := place + 1) (by omega)
      have hbelow := mul_le_mul_of_nonneg_right hhigh.le hone.le
      rw [mul_left_comm]
      linarith only [hsmall, hbelow]
    · split
      · rename_i hexponent
        have hden : (-d.exponent).toNat = 0 := by omega
        rw [hden]
        rfl
      · rename_i hexponent
        have hnum : d.exponent.toNat = 0 := by omega
        rw [hnum, Nat.pow_zero, Nat.mul_one]
        rfl

theorem isFinite_toDouble (d : Decimal) :
    d.toDouble.isFinite = true ↔ d.magnitude < Double.rangeLimit := by
  rw [toDouble_eq_ofRatio, magnitude_eq_div]
  exact Double.isFinite_ofRatio (by positivity)

theorem toDouble_eq_infinite {d : Decimal} (h : (Double.rangeLimit : ℚ) ≤ d.magnitude) :
    d.toDouble = .infinite d.negative := by
  rw [magnitude_eq_div] at h
  rw [toDouble_eq_ofRatio]
  exact Double.ofRatio_eq_infinite (by positivity) h

theorem isZero_toDouble (d : Decimal) :
    d.toDouble.isZero = true ↔ d.magnitude * (2 * Double.oneUnits) ≤ 1 := by
  rw [toDouble_eq_ofRatio, magnitude_eq_div]
  exact Double.isZero_ofRatio (by positivity)

theorem exists_units {d : Decimal} (h : d.magnitude < Double.rangeLimit) :
    ∃ (num den : ℕ) (fits : Double.Fits (Double.nearestUnits num den)), 0 < den ∧
      (num / den : ℚ) = d.magnitude * Double.oneUnits ∧
      d.toDouble = .finite d.negative (Double.nearestUnits num den) fits := by
  have hden : 0 < 10 ^ (-d.exponent).toNat := by positivity
  rw [← isFinite_toDouble, toDouble_eq_ofRatio, Double.ofRatio, Double.round,
    Double.isFinite_ofUnits] at h
  refine ⟨_, _, h, hden, ?_, ?_⟩
  · rw [magnitude_eq_div, Double.scaled_div]
  · rw [toDouble_eq_ofRatio, Double.ofRatio, Double.round, Double.ofUnits_of_fits h]

end PolarCalc.Decimal
