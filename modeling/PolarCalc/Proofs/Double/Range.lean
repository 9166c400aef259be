import Mathlib.Data.Nat.Cast.Order.Field
import PolarCalc.Proofs.Decimal.Nearest
import PolarCalc.Proofs.Double.Rounding
/-!
# Range and precision of doubles

A quotient is rounded to a finite double if it lies below half a last place beyond the
greatest one, and then only.  What it is rounded to is within half a unit of it or within
a 2⁻⁵³ share, whichever is more, and a double is rounded to itself.
-/

namespace PolarCalc

/-! ## Rounded quotients -/

theorem roundDiv_le {num den n : ℕ} (hden : 0 < den) (h : num ≤ n * den) :
    roundDiv num den ≤ n := by
  have hnear := (@roundDiv_near num den hden).2
  by_contra hlt
  have hstep : (n + 1) * den ≤ roundDiv num den * den := Nat.mul_le_mul_right den (by omega)
  rw [Nat.add_mul] at hstep
  omega

theorem le_roundDiv {num den n : ℕ} (hden : 0 < den) (h : n * den ≤ num) :
    n ≤ roundDiv num den := by
  have hquotient : n ≤ num / den := (Nat.le_div_iff_mul_le hden).2 h
  unfold roundDiv
  simp only
  split <;> omega

theorem roundDiv_le_iff_of_odd {num den n : ℕ} (hden : 0 < den) (hn : n % 2 = 1) :
    roundDiv num den ≤ n ↔ 2 * num < (2 * n + 1) * den := by
  have hsplit := Nat.div_add_mod num den
  have hlt := Nat.mod_lt num hden
  have hodd : (2 * n + 1) * den = 2 * (den * n) + den := by ring
  rw [hodd]
  rcases lt_trichotomy (num / den) n with hbelow | heq | habove
  · have hstep : den * (num / den + 1) ≤ den * n := Nat.mul_le_mul_left den hbelow
    rw [Nat.mul_add] at hstep
    refine iff_of_true (roundDiv_le hden ?_) (by omega)
    rw [Nat.mul_comm n]
    omega
  · simp only [roundDiv, heq, hn, and_true]
    rw [heq] at hsplit
    split <;> omega
  · have hstep : den * (n + 1) ≤ den * (num / den) := Nat.mul_le_mul_left den habove
    have hup : n + 1 ≤ roundDiv num den := le_roundDiv hden (by rw [Nat.mul_comm]; omega)
    rw [Nat.mul_add] at hstep
    omega

namespace Double

variable {negative : Bool} {num den units : ℕ}

/-! ## The bits that are kept -/

theorem significant_shift {m shift : ℕ} (hm : m ≤ 2 ^ 53) :
    (m <<< shift) % Nat.pow 2 ((m <<< shift).log2 - 52) = 0 := by
  rw [Nat.shiftLeft_eq, Nat.pow_eq]
  apply Nat.mod_eq_zero_of_dvd
  rcases Nat.eq_zero_or_pos m with rfl | hpos
  · simp
  rcases hm.lt_or_eq with hlt | rfl
  · have hlog : (m * 2 ^ shift).log2 < 53 + shift := by
      rw [Nat.log2_lt (Nat.mul_pos hpos (Nat.two_pow_pos _)).ne', Nat.pow_add]
      exact Nat.mul_lt_mul_of_pos_right hlt (Nat.two_pow_pos _)
    have hdvd : 2 ^ ((m * 2 ^ shift).log2 - 52) ∣ 2 ^ shift := Nat.pow_dvd_pow 2 (by omega)
    exact hdvd.mul_left m
  · rw [← Nat.pow_add, Nat.log2_two_pow]
    exact Nat.pow_dvd_pow 2 (by omega)

theorem lt_shift_of_quotient (hden : 0 < den) :
    num < 2 ^ 53 * den <<< ((num / den).log2 - 52) := by
  rw [Nat.shiftLeft_eq]
  calc
    num < den * 2 ^ ((num / den).log2 + 1) :=
      by
      rw [Nat.mul_comm, ← Nat.div_lt_iff_lt_mul hden]
      exact Nat.lt_log2_self
    _ ≤ den * 2 ^ (53 + ((num / den).log2 - 52)) :=
      Nat.mul_le_mul_left _ (Nat.pow_le_pow_right (by omega) (by omega))
    _ = 2 ^ 53 * (den * 2 ^ ((num / den).log2 - 52)) := by
      rw [Nat.pow_add]
      ring

theorem shifted_pos (hden : 0 < den) (shift : ℕ) : 0 < den <<< shift := by
  rw [Nat.shiftLeft_eq]
  exact Nat.mul_pos hden (Nat.two_pow_pos _)

theorem significant_nearestUnits (hden : 0 < den) :
    nearestUnits num den % Nat.pow 2 ((nearestUnits num den).log2 - 52) = 0 :=
  significant_shift (roundDiv_le (shifted_pos hden _) (lt_shift_of_quotient hden).le)

theorem le_nearestUnits {k : ℕ} (hden : 0 < den) (h : 2 ^ k * den ≤ num) :
    2 ^ k ≤ nearestUnits num den := by
  have hquotient : 2 ^ k ≤ num / den := (Nat.le_div_iff_mul_le hden).2 h
  have hpos : num / den ≠ 0 := by
    have := Nat.two_pow_pos k
    omega
  have hlead : 2 ^ (num / den).log2 * den ≤ num := by
    rw [← Nat.le_div_iff_mul_le hden]
    exact Nat.log2_self_le hpos
  have hkeep : 2 ^ ((num / den).log2 - ((num / den).log2 - 52)) *
      (den * 2 ^ ((num / den).log2 - 52)) ≤ num := by
    rwa [Nat.mul_left_comm, ← Nat.pow_add, Nat.sub_add_cancel (Nat.sub_le _ _), Nat.mul_comm]
  rw [← Nat.shiftLeft_eq den] at hkeep
  calc
    2 ^ k ≤ 2 ^ (num / den).log2 :=
      Nat.pow_le_pow_right (by omega) ((Nat.le_log2 hpos).2 hquotient)
    _ = 2 ^ ((num / den).log2 - ((num / den).log2 - 52)) * 2 ^ ((num / den).log2 - 52) := by
      rw [← Nat.pow_add, Nat.sub_add_cancel (Nat.sub_le _ _)]
    _ ≤ nearestUnits num den := by
      unfold nearestUnits
      rw [Nat.shiftLeft_eq _ ((num / den).log2 - 52)]
      exact Nat.mul_le_mul_right _ (le_roundDiv (shifted_pos hden _) hkeep)

theorem nearestUnits_le {k : ℕ} (hden : 0 < den) (h : num < 2 ^ k * den) :
    nearestUnits num den ≤ 2 ^ k := by
  have hshift : (num / den).log2 - 52 ≤ k := by
    have hquotient : num / den < 2 ^ k := (Nat.div_lt_iff_lt_mul hden).2 h
    rcases Nat.eq_zero_or_pos (num / den) with hzero | hpos
    · rw [hzero]
      simp
    · have hlog := (Nat.log2_lt hpos.ne').2 hquotient
      omega
  have hcut : num ≤ 2 ^ (k - ((num / den).log2 - 52)) * (den * 2 ^ ((num / den).log2 - 52)) := by
    rw [Nat.mul_left_comm, ← Nat.pow_add, Nat.sub_add_cancel hshift, Nat.mul_comm]
    exact h.le
  rw [← Nat.shiftLeft_eq den] at hcut
  calc
    nearestUnits num den ≤
        2 ^ (k - ((num / den).log2 - 52)) * 2 ^ ((num / den).log2 - 52) := by
      unfold nearestUnits
      rw [Nat.shiftLeft_eq _ ((num / den).log2 - 52)]
      exact Nat.mul_le_mul_right _ (roundDiv_le (shifted_pos hden _) hcut)
    _ = 2 ^ k := by rw [← Nat.pow_add, Nat.sub_add_cancel hshift]

/-- A quotient is rounded below a power of two if it is below the middle between that and
the last number with 53 bits before it. -/
theorem nearestUnits_lt_iff (hden : 0 < den) (n : ℕ) :
    nearestUnits num den < 2 ^ (n + 54) ↔ num < (2 ^ 54 - 1) * 2 ^ n * den := by
  -- The last number with 53 bits is odd, so the middle itself is rounded up.
  obtain ⟨last, hlast, hodd, hmiddle⟩ :
      ∃ last, 2 ^ 53 = last + 1 ∧ last % 2 = 1 ∧ 2 ^ 54 - 1 = 2 * last + 1 :=
    ⟨2 ^ 53 - 1, by norm_num⟩
  have hscaled : 2 ^ (n + 53) * den = (last + 1) * (2 ^ n * den) := by
    rw [Nat.pow_add, hlast]
    ring
  have hbelow : (last + 1) * (2 ^ n * den) ≤ (2 * last + 1) * (2 ^ n * den) :=
    Nat.mul_le_mul_right _ (by omega)
  have habove : (2 * last + 1) * (2 ^ n * den) ≤ 2 ^ (n + 54) * den := by
    rw [Nat.pow_succ, Nat.mul_right_comm, hscaled, Nat.mul_right_comm]
    exact Nat.mul_le_mul_right _ (by omega)
  rw [hmiddle, Nat.mul_assoc]
  rcases lt_or_ge num (2 ^ (n + 53) * den) with hlt | hge
  · have hle := nearestUnits_le hden hlt
    refine iff_of_true (hle.trans_lt (Nat.pow_lt_pow_right (by omega) (by omega))) ?_
    rw [hscaled] at hlt
    exact hlt.trans_le hbelow
  rcases lt_or_ge num (2 ^ (n + 54) * den) with hlt | hge'
  · have hlog : (num / den).log2 = n + 53 := by
      have hlow : 2 ^ (n + 53) ≤ num / den := (Nat.le_div_iff_mul_le hden).2 hge
      have hpos := Nat.two_pow_pos (n + 53)
      rw [Nat.log2_eq_iff (by omega)]
      exact ⟨hlow, (Nat.div_lt_iff_lt_mul hden).2 hlt⟩
    have hshift : n + 53 - 52 = n + 1 := by omega
    have hhalf : (2 * last + 1) * den <<< (n + 1) = 2 * ((2 * last + 1) * (2 ^ n * den)) := by
      rw [Nat.shiftLeft_eq, Nat.pow_succ]
      ring
    have hlimit : 2 ^ (n + 54) = (last + 1) * 2 ^ (n + 1) := by
      rw [← hlast, ← Nat.pow_add]
      congr 1
      omega
    unfold nearestUnits
    simp only [hlog, hshift]
    rw [Nat.shiftLeft_eq _ (n + 1), hlimit, Nat.mul_lt_mul_right (Nat.two_pow_pos _),
      Nat.lt_succ_iff, roundDiv_le_iff_of_odd (shifted_pos hden _) hodd, hhalf]
    omega
  · refine iff_of_false ?_ ?_
    · exact not_lt.2 (le_nearestUnits hden hge')
    · exact not_lt.2 (habove.trans hge')

/-- What a quotient is rounded to is within half a unit or a 2⁻⁵³ share of it. -/
theorem abs_nearestUnits_sub_le (num : ℕ) (hden : 0 < den) :
    |(nearestUnits num den : ℚ) - num / den| ≤ 1 / 2 ∨
      |(nearestUnits num den : ℚ) - num / den| ≤ num / den / 2 ^ 53 := by
  have hnear := abs_roundDiv_sub_le num (shifted_pos hden ((num / den).log2 - 52))
  unfold nearestUnits
  simp only
  generalize roundDiv num (den <<< ((num / den).log2 - 52)) = kept at hnear ⊢
  rw [Nat.shiftLeft_eq] at hnear
  rw [Nat.shiftLeft_eq]
  have hscale : (0 : ℚ) < 2 ^ ((num / den).log2 - 52) := by positivity
  push_cast at hnear ⊢
  have hgap : |(kept * 2 ^ ((num / den).log2 - 52) - num / den : ℚ)| ≤
      2 ^ ((num / den).log2 - 52) / 2 := by
    calc
      |(kept * 2 ^ ((num / den).log2 - 52) - num / den : ℚ)| =
          |(kept : ℚ) - num / (den * 2 ^ ((num / den).log2 - 52))| *
            2 ^ ((num / den).log2 - 52) := by
        rw [← abs_of_pos hscale, ← abs_mul, abs_of_pos hscale, sub_mul, ← div_div,
          div_mul_cancel₀ _ hscale.ne']
      _ ≤ 1 / 2 * 2 ^ ((num / den).log2 - 52) := by gcongr
      _ = 2 ^ ((num / den).log2 - 52) / 2 := by ring
  rcases Nat.lt_or_ge (num / den).log2 52 with hfew | hmany
  · left
    rw [Nat.sub_eq_zero_of_le hfew.le, pow_zero] at hgap
    rwa [Nat.sub_eq_zero_of_le hfew.le, pow_zero]
  · right
    refine hgap.trans ?_
    have hlead : 2 ^ (num / den).log2 ≤ num / den := by
      refine Nat.log2_self_le ?_
      intro hzero
      rw [hzero] at hmany
      simp at hmany
    have hlead : ((2 ^ (num / den).log2 : ℕ) : ℚ) ≤ num / den :=
      (Nat.cast_le.2 hlead).trans Nat.cast_div_le
    have hsplit : (2 : ℚ) ^ (num / den).log2 = 2 ^ ((num / den).log2 - 52) * 2 ^ 52 := by
      rw [← pow_add, Nat.sub_add_cancel hmany]
    push_cast at hlead
    rw [hsplit] at hlead
    rw [div_le_div_iff₀ (by norm_num) (by norm_num)]
    linarith

theorem nearestUnits_eq_of_near (hden : 0 < den) (hunits : units < 2 ^ 53)
    (h : |(num / den : ℚ) - units| < 1 / 2) : nearestUnits num den = units := by
  have hfloor : num / den < 2 ^ 53 := by
    have hbound : (units + 1 : ℚ) ≤ 2 ^ 53 := by exact_mod_cast hunits
    have hlt : (num / den : ℚ) < 2 ^ 53 := by linarith [(abs_lt.1 h).2]
    rw [div_lt_iff₀ (by exact_mod_cast hden)] at hlt
    rw [Nat.div_lt_iff_lt_mul hden]
    exact_mod_cast hlt
  have hshift : (num / den).log2 - 52 = 0 := by
    rcases Nat.eq_zero_or_pos (num / den) with hzero | hpos
    · rw [hzero]
      simp
    · have hlog := (Nat.log2_lt hpos.ne').2 hfloor
      omega
  simp only [nearestUnits, hshift, Nat.shiftLeft_zero]
  exact eq_of_abs_sub_lt (abs_roundDiv_sub_le num hden) h

theorem nearestUnits_le_of_significant (hden : 0 < den)
    (hunits : units % Nat.pow 2 (units.log2 - 52) = 0) (h : num ≤ units * den) :
    nearestUnits num den ≤ units := by
  have hshift : (num / den).log2 - 52 ≤ units.log2 - 52 := by
    rcases Nat.eq_zero_or_pos (num / den) with hzero | hpos
    · rw [hzero]
      simp
    · have hquotient : num / den ≤ units := Nat.div_le_of_le_mul (by rwa [Nat.mul_comm])
      have hlog : (num / den).log2 ≤ units.log2 :=
        (Nat.le_log2 (by omega)).2 ((Nat.log2_self_le hpos.ne').trans hquotient)
      omega
  obtain ⟨kept, hkept⟩ := Nat.dvd_of_mod_eq_zero hunits
  rw [Nat.pow_eq] at hkept
  obtain ⟨kept, hkept⟩ : ∃ k, units = k * 2 ^ ((num / den).log2 - 52) := by
    refine ⟨kept * 2 ^ (units.log2 - 52 - ((num / den).log2 - 52)), ?_⟩
    rw [Nat.mul_assoc, ← Nat.pow_add, Nat.sub_add_cancel hshift, Nat.mul_comm]
    exact hkept
  have hcut : num ≤ kept * den <<< ((num / den).log2 - 52) := by
    rw [Nat.shiftLeft_eq, Nat.mul_comm den, ← Nat.mul_assoc, ← hkept]
    exact h
  calc
    nearestUnits num den ≤ kept * 2 ^ ((num / den).log2 - 52) := by
      unfold nearestUnits
      rw [Nat.shiftLeft_eq _ ((num / den).log2 - 52)]
      exact Nat.mul_le_mul_right _ (roundDiv_le (shifted_pos hden _) hcut)
    _ = units := hkept.symm

theorem nearestUnits_of_significant (hden : 0 < den)
    (hunits : units % Nat.pow 2 (units.log2 - 52) = 0) : nearestUnits (units * den) den = units := by
  obtain ⟨kept, hkept⟩ := Nat.dvd_of_mod_eq_zero hunits
  rw [Nat.pow_eq] at hkept
  have hscaled : units * den = den <<< (units.log2 - 52) * kept := by
    rw [Nat.shiftLeft_eq, Nat.mul_assoc, ← hkept, Nat.mul_comm]
  simp only [nearestUnits, Nat.mul_div_cancel units hden]
  rw [hscaled, roundDiv_mul_left (shifted_pos hden _), Nat.shiftLeft_eq, Nat.mul_comm]
  exact hkept.symm

theorem ofUnits_of_fits (fits : Fits units) : ofUnits negative units = .finite negative units fits :=
  dif_pos fits

theorem round_of_fits (hden : 0 < den) (fits : Fits units) :
    round negative (units * den) den = .finite negative units fits := by
  rw [round, nearestUnits_of_significant hden fits.1, ofUnits_of_fits fits]

/-! ## Adding zero -/

theorem add_of_isZero {x y : Double} (hx : x.isZero = false) (hy : y.isZero = true) :
    x + y = x := by
  obtain ⟨s, rfl⟩ := eq_of_isZero hy
  cases x with
  | nan => rfl
  | infinite t => rfl
  | finite t u fits =>
      have hu : u ≠ 0 := isZero_finite_eq_false.1 hx
      have htotal : signed t u + signed s 0 = signed t u := by cases s <;> exact Int.add_zero _
      have hround : round t (u * 1) 1 = .finite t u fits := round_of_fits Nat.one_pos fits
      show add (.finite t u fits) (.finite s 0 fits_zero) = _
      simp only [add, htotal]
      rw [if_neg (signed_eq_zero_iff.not.2 hu), natAbs_signed,
        decide_signed_neg _ (Nat.pos_of_ne_zero hu), ← hround, Nat.mul_one]

theorem isZero_add_zero (x : Double) : (x + zero).isZero = x.isZero := by
  cases hx : x.isZero with
  | true =>
      obtain ⟨s, rfl⟩ := eq_of_isZero hx
      cases s <;> rfl
  | false => rw [add_of_isZero hx rfl, hx]

/-! ## The range -/

/-- The least number that is rounded to an infinity: the middle between the greatest double
and the first power of two out of range. -/
def rangeLimit : ℕ := Nat.pow 2 1024 - Nat.pow 2 970

theorem range_eq : oneUnits = 2 ^ unitBits ∧ limitUnits = 2 ^ (2044 + 54) ∧
    (2 ^ 54 - 1) * 2 ^ 2044 = rangeLimit * oneUnits ∧ 2 ^ 53 < rangeLimit := by decide +kernel

theorem oneUnits_eq : oneUnits = 2 ^ unitBits := range_eq.1

theorem lt_rangeLimit {n : ℕ} (h : n ≤ 2 ^ 53) : n < rangeLimit := h.trans_lt range_eq.2.2.2

theorem cast_oneUnits_pos : (0 : ℚ) < oneUnits := by exact_mod_cast oneUnits_pos

theorem isFinite_ofUnits : (ofUnits negative units).isFinite = true ↔ Fits units := by
  unfold ofUnits
  split
  · exact iff_of_true rfl ‹_›
  · exact iff_of_false Bool.false_ne_true ‹_›

/-- A quotient is rounded to a finite double if it is below the limit of the range. -/
theorem isFinite_round (hden : 0 < den) :
    (round negative num den).isFinite = true ↔ (num / den : ℚ) < rangeLimit * oneUnits := by
  obtain ⟨-, hunits, hlimit, -⟩ := range_eq
  rw [round, isFinite_ofUnits, Fits, and_iff_right (significant_nearestUnits hden), hunits,
    nearestUnits_lt_iff hden, hlimit, div_lt_iff₀ (by exact_mod_cast hden)]
  exact_mod_cast Iff.rfl

theorem round_eq_infinite (hden : 0 < den) (h : (rangeLimit * oneUnits : ℚ) ≤ num / den) :
    round negative num den = .infinite negative := by
  have hout : ¬ (round negative num den).isFinite = true := by
    rw [isFinite_round hden, not_lt]
    exact h
  rw [round, isFinite_ofUnits] at hout
  rw [round, ofUnits, dif_neg hout]

theorem scaled_div (num den : ℕ) :
    ((num <<< unitBits : ℕ) / den : ℚ) = num / den * oneUnits := by
  rw [Nat.shiftLeft_eq, ← oneUnits_eq, Nat.cast_mul, mul_div_right_comm]

theorem nearestUnits_scaled_eq_zero_iff (hden : 0 < den) :
    nearestUnits (num <<< unitBits) den = 0 ↔ (num / den * (2 * oneUnits) : ℚ) ≤ 1 := by
  have hpos : (0 : ℚ) < den := by exact_mod_cast hden
  rw [nearestUnits_eq_zero_iff hden, Nat.shiftLeft_eq, ← oneUnits_eq, Nat.mul_left_comm,
    div_mul_eq_mul_div, div_le_iff₀ hpos, one_mul]
  exact_mod_cast Iff.rfl

theorem isZero_ofRatio (hden : 0 < den) :
    (ofRatio negative num den).isZero = true ↔ (num / den * (2 * oneUnits) : ℚ) ≤ 1 := by
  rw [ofRatio, round, isZero_ofUnits, nearestUnits_scaled_eq_zero_iff hden]

theorem isFinite_ofRatio (hden : 0 < den) :
    (ofRatio negative num den).isFinite = true ↔ (num / den : ℚ) < rangeLimit := by
  rw [ofRatio, isFinite_round hden, scaled_div, mul_lt_mul_iff_left₀ cast_oneUnits_pos]

theorem ofRatio_eq_infinite (hden : 0 < den) (h : (rangeLimit : ℚ) ≤ num / den) :
    ofRatio negative num den = .infinite negative := by
  refine round_eq_infinite hden ?_
  rw [scaled_div]
  exact mul_le_mul_of_nonneg_right h cast_oneUnits_pos.le

/-- The rational number that a finite double is; zero for the others. -/
def toRat : Double → ℚ
  | .finite negative units _ => signed negative units / oneUnits
  | _ => 0

theorem toRat_finite_zero (fits : Fits 0) : (finite negative 0 fits).toRat = 0 := by
  rw [toRat, signed_eq_zero_iff.2 rfl, Int.cast_zero, zero_div]

theorem abs_toRat_finite (fits : Fits units) :
    |(finite negative units fits).toRat| = units / oneUnits := by
  have habs : |(signed negative units : ℚ)| = units := by
    rw [← Int.cast_abs, Int.abs_eq_natAbs, natAbs_signed, Int.cast_natCast]
  rw [toRat, abs_div, habs, abs_of_pos cast_oneUnits_pos]

theorem isZero_mul {x y : Double} (hx : x.isZero = true) (hy : y.isFinite = true) :
    (x * y).isZero = true := by
  obtain ⟨s, rfl⟩ := eq_of_isZero hx
  cases y with
  | nan => cases hy
  | infinite t => cases hy
  | finite t v fits =>
      show (round (s ^^ t) (0 * v) oneUnits).isZero = true
      rw [isZero_round oneUnits_pos, Nat.zero_mul, Nat.mul_zero]
      exact Nat.zero_le _

theorem isFinite_mul {x y : Double} (hx : x.isFinite = true) (hy : y.isFinite = true) :
    (x * y).isFinite = true ↔ |x.toRat * y.toRat| < rangeLimit := by
  cases x with
  | nan => cases hx
  | infinite s => cases hx
  | finite s u hu =>
      cases y with
      | nan => cases hy
      | infinite t => cases hy
      | finite t v hv =>
          have hone : 0 < oneUnits := by exact_mod_cast cast_oneUnits_pos
          show (round (s ^^ t) (u * v) oneUnits).isFinite = true ↔ _
          rw [isFinite_round hone, abs_mul, abs_toRat_finite, abs_toRat_finite, div_mul_div_comm,
            ← div_div]
          push_cast
          exact (div_lt_iff₀ cast_oneUnits_pos).symm

end Double

end PolarCalc
