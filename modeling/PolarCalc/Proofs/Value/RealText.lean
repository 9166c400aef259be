import PolarCalc.Proofs.Decimal.Precision
import PolarCalc.Proofs.Decimal.Reading
import PolarCalc.Proofs.Value.Truth
/-!
# The texts of real numbers

The text of a finite double is read back as a decimal that is no further from it than half
a unit in its fifteenth digit.  It is written as an infinity only if keeping fifteen digits
takes it out of the range of doubles.
-/

namespace PolarCalc

/-- The weight of the fifteenth significant digit of a number. -/
def fifteenthDigit (q : ℚ) : ℚ := 10 ^ (Int.log 10 |q| - 14)

variable {s : Bool} {u v : ℕ} {fits : Double.Fits u}

/-- The whole numbers that are written as integers are the ones of fifteen digits. -/
theorem lt_wholeLimit (fits : Double.Fits v) :
    Double.lt (.finite false v fits) wholeLimit = decide (v < 10 ^ 15 * Double.oneUnits) := by
  obtain ⟨limit, hfits, hwhole, hlimit⟩ : ∃ limit, Double.Fits limit ∧
      wholeLimit = Double.ofUnits false limit ∧ 10 ^ 15 * Double.oneUnits = limit :=
    ⟨10 ^ 15 * Double.oneUnits, by decide +kernel⟩
  rw [hwhole, hlimit, Double.ofUnits_of_fits hfits]
  exact decide_eq_decide.2 Int.ofNat_lt

theorem exists_of_whole {hfits : Double.Fits v} (hv : 0 < v)
    (h : ((Double.finite s v hfits).isInteger &&
      Double.lt (Double.finite s v hfits).abs wholeLimit) = true) :
    ∃ n, v = n * Double.oneUnits ∧ 0 < n ∧ n < 10 ^ 15 := by
  obtain ⟨hinteger, hlt⟩ := Bool.and_eq_true_iff.1 h
  rw [Double.abs, lt_wholeLimit, decide_eq_true_eq] at hlt
  obtain ⟨n, hn⟩ := Nat.dvd_of_mod_eq_zero (beq_iff_eq.1 hinteger)
  refine ⟨n, by rw [hn, Nat.mul_comm], ?_, ?_⟩
  · refine Nat.pos_of_ne_zero ?_
    rintro rfl
    omega
  · rw [hn, Nat.mul_comm] at hlt
    exact Nat.lt_of_mul_lt_mul_right hlt

namespace Decimal

theorem read_realText_of_nearest {d : Decimal} {x : Double} (hv : 0 < v) {hfits : Double.Fits v}
    (hx : roundSignificant 15 x + .zero = .finite s v hfits)
    (hd : nearest 15 s v Double.oneUnits = d) :
    ∃ e, read? (realText x).toList = some e ∧
      readDouble? (realText x).toList = some e.toDouble ∧
      e.negative = s ∧ e.magnitude = d.magnitude := by
  have hone := Double.oneUnits_pos
  have hsign := nearest_negative 15 s v Double.oneUnits
  unfold realText significantDigits
  simp only [hx]
  split
  · rename_i hwhole
    obtain ⟨n, hvalue, hn, hfew⟩ := exists_of_whole hv hwhole
    have htruncate : (Double.finite s v hfits).truncate?.getD 0 = signed s n := by
      rw [Double.truncate?, Option.getD_some, hvalue, Nat.mul_div_cancel _ hone]
    have hmagnitude : d.magnitude = n := by
      rw [← hd, hvalue, magnitude_nearest_of_whole (by omega) hn hfew hone]
    obtain ⟨e, hread, hdouble, hsign, he⟩ := read_write (signed s n)
    rw [decide_signed_neg s hn] at hsign
    rw [natAbs_signed] at he
    rw [htruncate]
    exact ⟨e, hread, hdouble, hsign, he.trans hmagnitude.symm⟩
  · obtain ⟨hlow, hhigh⟩ := fifteen_digits s hv
    rw [hd] at hlow hhigh hsign
    rw [String.toList_ofList, generalText, hd, ← hsign]
    exact read_general (by omega) hlow hhigh

/-- In range the text of a double other than zero denotes the nearest decimal. -/
theorem read_realText (hu : 0 < u) (fits : Double.Fits u)
    (hrange : (nearest 15 s u Double.oneUnits).magnitude < Double.rangeLimit) :
    ∃ e, read? (realText (.finite s u fits)).toList = some e ∧
      readDouble? (realText (.finite s u fits)).toList = some e.toDouble ∧
      e.negative = s ∧ e.magnitude = (nearest 15 s u Double.oneUnits).magnitude := by
  obtain ⟨v, hfits, hdouble, hv, hsurvives⟩ := nearest_toDouble hu hrange
  have hrounded : roundSignificant 15 (.finite s u fits) + .zero = .finite s v hfits := by
    rw [roundSignificant, hdouble,
      Double.add_of_isZero (Double.isZero_finite_eq_false.2 hv.ne') rfl]
  exact read_realText_of_nearest hv hrounded hsurvives

theorem read_realText_zero {x : Double} (hx : x.isZero = true) :
    ∃ e, read? (realText x).toList = some e ∧ readDouble? (realText x).toList = some e.toDouble ∧
      e.magnitude = 0 := by
  obtain ⟨e, hread, hdouble, -, he⟩ := read_write 0
  rw [(realText_eq_zero_iff x).2 hx]
  exact ⟨e, hread, hdouble, he.trans Nat.cast_zero⟩

theorem abs_toRat_sub {d : Decimal} (h : d.negative = s) :
    |d.toRat - (Double.finite s u fits).toRat| = |d.magnitude - u / Double.oneUnits| := by
  rw [toRat, h, Double.toRat, signed]
  cases s with
  | false => rw [if_neg Bool.false_ne_true, if_neg Bool.false_ne_true, Int.cast_natCast]
  | true =>
      rw [if_pos rfl, if_pos rfl, Int.cast_neg, Int.cast_natCast, neg_div, neg_sub_neg,
        abs_sub_comm]

theorem toRat_eq_zero_iff (d : Decimal) : d.toRat = 0 ↔ d.magnitude = 0 := by
  unfold toRat
  split
  · rw [neg_eq_zero]
  · exact Iff.rfl

end Decimal

/-- Beyond the limit fifteen digits are out of the range of doubles. -/
theorem realText_of_le (hu : 0 < u) (h : (Decimal.roundLimit : ℚ) ≤ u / Double.oneUnits) :
    realText (.finite s u fits) = if s then "-inf" else "inf" := by
  have hrange := (Decimal.magnitude_nearest_lt_iff (s := s) hu fits).not.2 h.not_gt
  have hrounded : Decimal.roundSignificant significantDigits (.finite s u fits) + .zero =
      .infinite s := by
    rw [Decimal.roundSignificant, significantDigits, Decimal.toDouble_eq_infinite (not_lt.1 hrange),
      Decimal.nearest_negative]
    rfl
  unfold realText
  rw [hrounded]
  cases s <;> rfl

/-- The text of the double `x` is read as the decimal `d`, which is read as a finite double
and lies within half a unit in the fifteenth digit of `x`. -/
structure ReadsNear (x : Double) (d : Decimal) : Prop where
  read : Decimal.read? (realText x).toList = some d
  readDouble : Decimal.readDouble? (realText x).toList = some d.toDouble
  isFinite : d.toDouble.isFinite = true
  near : |d.toRat - x.toRat| ≤ fifteenthDigit x.toRat / 2
  zero : d.toRat = 0 ↔ x.toRat = 0

theorem exists_readsNear_of_zero {x : Double} (hx : x.isZero = true) : ∃ d, ReadsNear x d := by
  obtain ⟨d, hread, hdouble, hmagnitude⟩ := Decimal.read_realText_zero hx
  have hd : d.toRat = 0 := (Decimal.toRat_eq_zero_iff d).2 hmagnitude
  have hvalue : x.toRat = 0 := by
    obtain ⟨s, rfl⟩ := Double.eq_of_isZero hx
    exact Double.toRat_finite_zero _
  refine ⟨d, hread, hdouble, ?_, ?_, iff_of_true hd hvalue⟩
  · rw [Decimal.isFinite_toDouble, hmagnitude]
    exact_mod_cast Double.lt_rangeLimit (Nat.zero_le _)
  · rw [hd, hvalue, sub_zero, abs_zero, fifteenthDigit]
    positivity

theorem exists_readsNear_of_pos (hu : 0 < u) (h : (u / Double.oneUnits : ℚ) < Decimal.roundLimit) :
    ∃ d, ReadsNear (.finite s u fits) d := by
  have hone := Double.oneUnits_pos
  have hrange := (Decimal.magnitude_nearest_lt_iff (s := s) hu fits).2 h
  have hnear : |(Decimal.nearest 15 s u Double.oneUnits).magnitude - u / Double.oneUnits| ≤ _ :=
    Decimal.abs_magnitude_nearest_sub_le (by omega) hu hone
  obtain ⟨d, hread, hdouble, hsign, hmagnitude⟩ := Decimal.read_realText hu fits hrange
  refine ⟨d, hread, hdouble, ?_, ?_, ?_⟩
  · rw [Decimal.isFinite_toDouble, hmagnitude]
    exact hrange
  · rw [Decimal.abs_toRat_sub hsign, hmagnitude, fifteenthDigit, Double.abs_toRat_finite]
    exact hnear
  · have hpos : (0 : ℚ) < u / Double.oneUnits :=
      div_pos (by exact_mod_cast hu) Double.cast_oneUnits_pos
    refine iff_of_false ?_ ?_
    · rw [Decimal.toRat_eq_zero_iff, hmagnitude]
      exact (Decimal.magnitude_nearest_pos (by omega) hu hone).ne'
    · rw [← abs_eq_zero, Double.abs_toRat_finite]
      exact hpos.ne'

/-- Below the limit the text of a finite double is read back as a decimal of a finite double,
no further from it than half a unit in its fifteenth digit, and as zero only for zero; beyond
the limit a finite double is written as an infinity. -/
theorem realText_of_isFinite {x : Double} (hx : x.isFinite = true) :
    (|x.toRat| < Decimal.roundLimit → ∃ d, ReadsNear x d) ∧
    (Decimal.roundLimit ≤ |x.toRat| → realText x = if x.isNegative then "-inf" else "inf") := by
  cases x with
  | nan => cases hx
  | infinite s => cases hx
  | finite s u fits =>
      rw [Double.abs_toRat_finite]
      rcases Nat.eq_zero_or_pos u with rfl | hu
      · refine ⟨fun _ => exists_readsNear_of_zero rfl, fun h => ?_⟩
        rw [Nat.cast_zero, zero_div] at h
        exact absurd Decimal.roundLimit_pos h.not_gt
      · exact ⟨exists_readsNear_of_pos hu, realText_of_le hu⟩

/-- Even the least double, which holds no more than one bit, is written with fifteen digits. -/
theorem realText_of_isFinite_least :
    let least := Double.ofUnits false 1
    least.isFinite = true ∧ realText least = "4.94065645841247e-324" ∧ ∃ d, ReadsNear least d := by
  intro least
  obtain ⟨fits, hlt, htext⟩ : Double.Fits 1 ∧ 1 < Decimal.roundLimit * Double.oneUnits ∧
      realText least = "4.94065645841247e-324" := by decide +kernel
  have hleast : least = .finite false 1 fits := Double.ofUnits_of_fits fits
  have hfinite : least.isFinite = true := by
    rw [hleast]
    rfl
  have hbelow : |least.toRat| < Decimal.roundLimit := by
    rw [hleast, Double.abs_toRat_finite, div_lt_iff₀ Double.cast_oneUnits_pos]
    exact_mod_cast hlt
  exact ⟨hfinite, htext, (realText_of_isFinite hfinite).1 hbelow⟩

/-- The greatest double is written as an infinity. -/
theorem realText_greatest :
    let greatest := Double.ofUnits false ((Nat.pow 2 53 - 1) * Nat.pow 2 2045)
    greatest.isFinite = true ∧ realText greatest = "inf" ∧
      Decimal.readDouble? (realText greatest).toList = some (.infinite false) := by
  decide +kernel

end PolarCalc
