import Mathlib.Tactic.Linarith
import PolarCalc.Double.Arithmetic
/-!
# What is rounded to zero

A quotient is rounded to zero if it is at most half a unit, and then only.
-/

namespace PolarCalc

/-! ## Signs and magnitudes -/

theorem natAbs_signed (s : Bool) (n : Nat) : (signed s n).natAbs = n := by
  cases s <;> simp [signed]

theorem signed_eq_zero_iff {s : Bool} {n : Nat} : signed s n = 0 ↔ n = 0 := by
  rw [← Int.natAbs_eq_zero, natAbs_signed]

theorem decide_signed_neg (s : Bool) {n : Nat} (hn : 0 < n) : decide (signed s n < 0) = s := by
  cases s <;> simp [signed, hn]

theorem signed_mul (s : Bool) (m n : Nat) : signed s (m * n) = signed s m * n := by
  cases s <;> simp [signed]

namespace Double

variable {negative : Bool} {units num den : Nat}

theorem oneUnits_pos : 0 < oneUnits := by decide +kernel

theorem isZero_ofUnits : (ofUnits negative units).isZero = true ↔ units = 0 := by
  unfold ofUnits
  split
  · simp [isZero]
  · rename_i hfits
    refine iff_of_false Bool.false_ne_true ?_
    rintro rfl
    exact hfits fits_zero

theorem isZero_finite_eq_false {fits : Fits units} :
    (finite negative units fits).isZero = false ↔ units ≠ 0 := beq_eq_false_iff_ne

theorem eq_of_isZero {x : Double} (h : x.isZero = true) : ∃ s, x = .finite s 0 fits_zero := by
  cases x with
  | nan => cases h
  | infinite s => cases h
  | finite s u fits =>
      obtain rfl : u = 0 := by simpa [isZero] using h
      exact ⟨s, rfl⟩

theorem roundDiv_eq_zero_iff (hden : 0 < den) : roundDiv num den = 0 ↔ 2 * num ≤ den := by
  obtain ⟨hlow, hhigh⟩ := @roundDiv_near num den hden
  constructor
  · intro hzero
    rw [hzero] at hlow
    omega
  · intro hle
    by_cases hnum : num = 0
    · rw [hnum]
      simp [roundDiv]
    · have hdiv : num / den = 0 := Nat.div_eq_of_lt (by omega)
      have hmod : num % den = num := Nat.mod_eq_of_lt (by omega)
      simp only [roundDiv, hdiv, hmod]
      rw [if_neg]
      omega

theorem shift_le_of_quotient (h : 0 < num / den) :
    den <<< ((num / den).log2 - 52) ≤ num := by
  rw [Nat.shiftLeft_eq]
  calc
    den * 2 ^ ((num / den).log2 - 52) ≤ den * 2 ^ (num / den).log2 := by
      apply Nat.mul_le_mul_left
      exact Nat.pow_le_pow_right (by omega) (by omega)
    _ ≤ den * (num / den) := Nat.mul_le_mul_left _ (Nat.log2_self_le (by omega))
    _ ≤ num := Nat.mul_div_le num den

theorem nearestUnits_eq_zero_iff (hden : 0 < den) : nearestUnits num den = 0 ↔ 2 * num ≤ den := by
  unfold nearestUnits
  rcases Nat.eq_zero_or_pos (num / den) with hsmall | hlarge
  · rw [hsmall]
    simp only [Nat.log2_zero, Nat.zero_sub, Nat.shiftLeft_zero]
    exact roundDiv_eq_zero_iff hden
  · have hcut := shift_le_of_quotient hlarge
    have hden' : 0 < den <<< ((num / den).log2 - 52) := by
      rw [Nat.shiftLeft_eq]
      exact Nat.mul_pos hden (Nat.two_pow_pos _)
    have hle : den ≤ num := (Nat.div_pos_iff.1 hlarge).2
    rw [Nat.shiftLeft_eq _ ((num / den).log2 - 52), Nat.mul_eq_zero,
      or_iff_left (Nat.two_pow_pos _).ne', roundDiv_eq_zero_iff hden']
    omega

theorem isZero_round (hden : 0 < den) :
    (round negative num den).isZero = true ↔ 2 * num ≤ den := by
  rw [round, isZero_ofUnits, nearestUnits_eq_zero_iff hden]

end Double

end PolarCalc
