import Mathlib.Data.List.TakeWhile
import PolarCalc.Decimal.Text
import PolarCalc.Proofs.Decimal.Conversion
/-!
# Significant digits

No double but zero is zero after it was rounded to some digits, and only the digits of zero
are all zeros.
-/

namespace PolarCalc.Decimal

/-- Rounded to two digits or more, no double but zero is zero. -/
theorem isZero_roundSignificant {places : ℕ} (hplaces : 1 < places) (x : Double) :
    (roundSignificant places x).isZero = x.isZero := by
  cases x with
  | nan => rfl
  | infinite s => rfl
  | finite s u fits =>
      rw [Bool.eq_iff_iff, roundSignificant, isZero_toDouble, Double.isZero, beq_iff_eq]
      constructor
      · intro hle
        by_contra hu
        have hnear : |(nearest places s u Double.oneUnits).magnitude - u / Double.oneUnits| ≤ _ :=
          abs_magnitude_nearest_sub_le_tenth hplaces (by omega) Double.oneUnits_pos
        have hnear : 9 / 10 * (u / Double.oneUnits : ℚ) ≤
            (nearest places s u Double.oneUnits).magnitude := by
          linarith only [(abs_le.1 hnear).1]
        have hunit : (1 : ℚ) ≤ u := by exact_mod_cast Nat.one_le_iff_ne_zero.2 hu
        have hone := Double.cast_oneUnits_pos
        generalize (Double.oneUnits : ℚ) = one at hle hnear hone
        rw [← mul_div_assoc, div_le_iff₀ hone] at hnear
        linarith
      · rintro rfl
        rw [nearest, if_pos rfl, magnitude, Nat.cast_zero, zero_mul, zero_mul]
        exact zero_le_one

/-! ## The text of zero -/

theorem ofDigitChars_of_zeros {digits : List Char} (h : ∀ c ∈ digits, c = '0') :
    Nat.ofDigitChars 10 digits 0 = 0 := by
  induction digits with
  | nil => rfl
  | cons c digits ih =>
      obtain rfl : c = '0' := h c List.mem_cons_self
      exact ih fun d hd => h d (List.mem_cons_of_mem _ hd)

theorem exists_digit_ne_zero {n : ℕ} (h : n ≠ 0) : ∃ c ∈ digitChars n, c ≠ '0' := by
  by_contra hall
  push Not at hall
  apply h
  calc
    n = Nat.ofDigitChars 10 (digitChars n) 0 := Nat.ofDigitChars_ten_toDigits.symm
    _ = 0 := ofDigitChars_of_zeros hall

variable {c : Char} {digits : List Char}

theorem mem_dropTrailingZeros (hc : c ∈ digits) (hne : c ≠ '0') :
    c ∈ dropTrailingZeros digits := by
  have hsplit := List.takeWhile_append_dropWhile (p := (· == '0')) (l := digits.reverse)
  rw [← List.mem_reverse, ← hsplit, List.mem_append] at hc
  rw [dropTrailingZeros, List.mem_reverse]
  rcases hc with hzero | hc
  · exact absurd (by simpa using List.mem_takeWhile_imp hzero) hne
  · exact hc

theorem mem_fractionText (hc : c ∈ digits) : c ∈ fractionText digits := by
  unfold fractionText
  split
  · rename_i hempty
    rw [List.isEmpty_iff.1 hempty] at hc
    cases hc
  · exact List.mem_cons_of_mem _ hc

theorem mem_layout {places : ℕ} {lead : ℤ} (hc : c ∈ digits) (hne : c ≠ '0') :
    c ∈ layout places digits lead := by
  have hfraction (n : ℕ) :
      c ∈ digits.take n ++ fractionText (dropTrailingZeros (digits.drop n)) := by
    rw [← List.take_append_drop n digits, List.mem_append] at hc
    rw [List.mem_append]
    exact hc.imp_right fun hc => mem_fractionText (mem_dropTrailingZeros hc hne)
  unfold layout
  split
  · exact List.mem_append_left _ (hfraction 1)
  · split
    · apply List.mem_cons_of_mem
      apply mem_fractionText
      exact List.mem_append_right _ (mem_dropTrailingZeros hc hne)
    · exact hfraction _

theorem isZero_of_generalText {places : ℕ} (hplaces : 0 < places) {x : Double}
    (h : generalText places x = ['0']) : x.isZero = true := by
  cases x with
  | nan => cases h
  | infinite s => cases s <;> cases h
  | finite s u fits =>
      rw [Double.isZero, beq_iff_eq]
      by_contra hu
      have hdigits : (nearest places s u Double.oneUnits).digits ≠ 0 := by
        have hpos : 0 < 10 ^ (places - 1) := by positivity
        have hlow : 10 ^ (places - 1) ≤ (nearest places s u Double.oneUnits).digits :=
          (nearest_digits hplaces (by omega) Double.oneUnits_pos).1
        omega
      obtain ⟨c, hc, hne⟩ := exists_digit_ne_zero hdigits
      have hmem : c ∈ generalText places (.finite s u fits) := by
        rw [generalText, general, if_neg hdigits]
        exact List.mem_append_right _ (mem_layout hc hne)
      rw [h, List.mem_singleton] at hmem
      exact hne hmem

end PolarCalc.Decimal
