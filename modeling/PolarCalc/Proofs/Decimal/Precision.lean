import PolarCalc.Proofs.Decimal.Conversion
/-!
# Fifteen digits survive

A decimal that is near enough to a quotient is the nearest one.  So the decimal of fifteen
digits that is nearest to a double is not changed by being rounded to a double and back.
-/

namespace PolarCalc.Decimal

/-! ## The decimal near a quotient -/

theorem log_eq_of_bounds {r : ℚ} {k : ℤ} (hlow : (10 : ℚ) ^ k ≤ r) (hhigh : r < 10 ^ (k + 1)) :
    Int.log 10 r = k := by
  have hpos : 0 < r := lt_of_lt_of_le (by positivity) hlow
  apply le_antisymm
  · rw [← Int.lt_add_one_iff, ← Int.lt_zpow_iff_log_lt (by omega) hpos]
    exact_mod_cast hhigh
  · rw [← Int.zpow_le_iff_le_log (by omega) hpos]
    exact_mod_cast hlow

section Near

variable {places num den digits : ℕ} {negative : Bool} {last : ℤ} {r : ℚ}

theorem lastPlace_eq {k : ℤ} (hr : (num / den : ℚ) = r * 10 ^ last) (hlow : (10 : ℚ) ^ k ≤ r)
    (hhigh : r < 10 ^ (k + 1)) : lastPlace places num den = k + last - ((places : ℤ) - 1) := by
  have hten : (0 : ℚ) < 10 ^ last := by positivity
  have hlog : Int.log 10 (num / den : ℚ) = k + last := by
    rw [hr]
    apply log_eq_of_bounds
    · rw [zpow_add₀ (by norm_num)]
      exact mul_le_mul_of_nonneg_right hlow hten.le
    · rw [add_right_comm, zpow_add₀ (by norm_num)]
      exact mul_lt_mul_of_pos_right hhigh hten
  rw [lastPlace, hlog]

/-- A decimal closer than half a unit of its last place is the nearest one; below its least
digits, where the places are ten times closer, a tenth of that is needed. -/
theorem nearest_eq_of_near (hplaces : 0 < places) (hnum : 0 < num) (hden : 0 < den)
    (hlow : 10 ^ (places - 1) ≤ digits) (hhigh : digits < 10 ^ places)
    (hr : (num / den : ℚ) = r * 10 ^ last) (hnear : |r - digits| < 1 / 2)
    (hcarry : digits = 10 ^ (places - 1) → digits - 1 / 20 < r) :
    nearest places negative num den = ⟨negative, digits, last⟩ := by
  obtain ⟨more, rfl⟩ : ∃ more, places = more + 1 := ⟨places - 1, by omega⟩
  rw [Nat.add_sub_cancel] at hlow hcarry
  obtain ⟨hbelow, habove⟩ := abs_lt.1 hnear
  have hscale (k : ℤ) : (num / den * 10 ^ (k - last) : ℚ) = r * 10 ^ k := by
    rw [hr, mul_assoc, ← zpow_add₀ (by norm_num), add_sub_cancel]
  have hlowQ : ((10 ^ more : ℕ) : ℚ) ≤ digits := by exact_mod_cast hlow
  have hhighQ : (digits + 1 : ℚ) ≤ (10 ^ (more + 1) : ℕ) := by exact_mod_cast hhigh
  push_cast at hlowQ hhighQ
  rw [nearest_of_pos hnum hden]
  rcases le_or_gt ((10 : ℚ) ^ more) r with hge | hlt
  · have hlt : r < (10 : ℚ) ^ ((more : ℤ) + 1) := by
      rw [zpow_add_one₀ (by norm_num), zpow_natCast]
      rw [pow_succ] at hhighQ
      linarith
    have hlast : lastPlace (more + 1) num den = last := by
      rw [← zpow_natCast] at hge
      rw [lastPlace_eq hr hge hlt]
      push_cast
      omega
    have hdigits : scaledRound num den (-last) = digits := by
      apply eq_of_abs_sub_lt (abs_scaledRound_sub_le num hden (-last))
      rw [← zero_sub, hscale, zpow_zero, mul_one]
      exact hnear
    rw [hlast, hdigits, if_neg (by omega)]
  · -- Here the digits begin one place further down, and rounding carries.
    obtain rfl : digits = 10 ^ more := by
      have hle : (digits : ℚ) < (10 ^ more + 1 : ℕ) := by
        push_cast
        linarith
      have hle : digits < 10 ^ more + 1 := by exact_mod_cast hle
      omega
    have hone : (1 : ℚ) ≤ 10 ^ more := one_le_pow₀ (by norm_num)
    have hclose := hcarry rfl
    push_cast at hclose
    have hge : (10 : ℚ) ^ ((more : ℤ) - 1) ≤ r := by
      rw [zpow_sub_one₀ (by norm_num), zpow_natCast]
      linarith
    have hlast : lastPlace (more + 1) num den = last - 1 := by
      rw [← zpow_natCast] at hlt
      rw [lastPlace_eq hr hge (by rwa [sub_add_cancel])]
      push_cast
      omega
    have hdigits : scaledRound num den (-(last - 1)) = 10 ^ (more + 1) := by
      apply eq_of_abs_sub_lt (abs_scaledRound_sub_le num hden (-(last - 1)))
      rw [neg_sub, hscale, zpow_one, Nat.cast_pow, pow_succ, abs_lt]
      push_cast
      constructor <;> linarith
    rw [hlast, hdigits, if_pos rfl, Nat.add_sub_cancel, sub_add_cancel]

theorem nearest_negative (places : ℕ) (negative : Bool) (num den : ℕ) :
    (nearest places negative num den).negative = negative := by
  unfold nearest
  simp only
  split_ifs <;> rfl

theorem lastPlace_le_exponent (hnum : 0 < num) (hden : 0 < den) :
    lastPlace places num den ≤ (nearest places negative num den).exponent := by
  rw [nearest_of_pos hnum hden]
  split
  · exact le_of_lt (Int.lt_succ _)
  · exact le_rfl

end Near

/-! ## Doubles and back -/

/-- Ten to the power -309, where a last place is hardly more than two units, is rounded up. -/
theorem lt_nearestUnits_least {num den : ℕ} (hden : 0 < den)
    (h : (num / den : ℚ) = 10 ^ (-309 : ℤ) * Double.oneUnits) :
    (num / den : ℚ) < Double.nearestUnits num den := by
  obtain ⟨units, hunits, hbelow, habove⟩ : ∃ units < 2 ^ 53,
      10 ^ 309 * (2 * units) < 10 ^ 309 + 2 * Double.oneUnits ∧
        Double.oneUnits < 10 ^ 309 * units :=
    ⟨202402253307311, by decide +kernel⟩
  have hbelow : (10 ^ 309 * (2 * units) : ℚ) < 10 ^ 309 + 2 * Double.oneUnits := by
    exact_mod_cast hbelow
  have habove : (Double.oneUnits : ℚ) < 10 ^ 309 * units := by exact_mod_cast habove
  have hten : (0 : ℚ) < 10 ^ (309 : ℤ) := by positivity
  have hlt : (num / den : ℚ) < units := by
    rw [h, zpow_neg, inv_mul_lt_iff₀ hten]
    exact_mod_cast habove
  have hnear : Double.nearestUnits num den = units := by
    apply Double.nearestUnits_eq_of_near hden hunits
    have hhalf : (units : ℚ) - 1 / 2 < 10 ^ (-309 : ℤ) * Double.oneUnits := by
      rw [zpow_neg, lt_inv_mul_iff₀ hten, zpow_ofNat]
      generalize (10 : ℚ) ^ 309 = ten at hbelow ⊢
      generalize (Double.oneUnits : ℚ) = one at hbelow ⊢
      linarith
    rw [← h] at hhalf
    rw [abs_sub_comm, abs_of_pos (sub_pos.2 hlt)]
    linarith
  rw [hnear]
  exact hlt

section Survival

variable {d : Decimal} {s : Bool} {u : ℕ}

/-- The gap between a decimal and the double it is read as, in last places of the decimal. -/
theorem exists_gap (hrange : d.magnitude < Double.rangeLimit) :
    ∃ v fits c r, c = 10 ^ d.exponent * (Double.oneUnits : ℚ) ∧
      d.toDouble = .finite d.negative v fits ∧ (v / Double.oneUnits : ℚ) = r * 10 ^ d.exponent ∧
      (|r - d.digits| ≤ 1 / 2 / c ∨ |r - d.digits| ≤ d.digits / 2 ^ 53) ∧
      (d.digits * c = 10 ^ (-309 : ℤ) * Double.oneUnits → (d.digits : ℚ) < r) := by
  obtain ⟨num, den, fits, hden, hquotient, hdouble⟩ := exists_units hrange
  have hgap := Double.abs_nearestUnits_sub_le num hden
  have hleast : _ → (num / den : ℚ) < Double.nearestUnits num den := lt_nearestUnits_least hden
  have hone := Double.cast_oneUnits_pos
  have hten : (0 : ℚ) < 10 ^ d.exponent := by positivity
  rw [magnitude, mul_assoc] at hquotient
  rw [hquotient] at hgap hleast
  generalize (Double.oneUnits : ℚ) = one at hone hgap hleast ⊢
  obtain ⟨c, hc⟩ : ∃ c, c = 10 ^ d.exponent * one := ⟨_, rfl⟩
  rw [← hc] at hgap hleast
  have hpos : 0 < c := by
    rw [hc]
    exact mul_pos hten hone
  have hscaled : |Double.nearestUnits num den / c - d.digits| =
      |(Double.nearestUnits num den : ℚ) - d.digits * c| / c := by
    rw [← abs_of_pos hpos, ← abs_div, abs_of_pos hpos, sub_div, mul_div_cancel_right₀ _ hpos.ne']
  refine ⟨_, fits, c, Double.nearestUnits num den / c, hc, hdouble, ?_, ?_, ?_⟩
  · rw [hc]
    field_simp
  · rw [hscaled]
    refine hgap.imp (fun h => div_le_div_of_nonneg_right h hpos.le) fun h => ?_
    rw [div_le_iff₀ hpos, div_mul_eq_mul_div]
    exact h
  · intro h
    rw [lt_div_iff₀ hpos]
    exact hleast h

theorem toDouble_near (hhigh : d.digits < 10 ^ 15) (hplace : -323 ≤ d.exponent)
    (hrange : d.magnitude < Double.rangeLimit) :
    ∃ v fits r, d.toDouble = .finite d.negative v fits ∧
      (v / Double.oneUnits : ℚ) = r * 10 ^ d.exponent ∧ |r - d.digits| < 1 / 2 ∧
      (d.digits = 10 ^ 14 → d.digits - 1 / 20 < r) := by
  obtain ⟨-, -, htwo, htwenty⟩ := place_bounds
  obtain ⟨v, fits, c, r, hc, hdouble, hr, hgap, hleast⟩ := exists_gap hrange
  have hone := Double.cast_oneUnits_pos
  have hhigh : (d.digits : ℚ) < 10 ^ 15 := by exact_mod_cast hhigh
  have hscale {k : ℤ} (hk : k ≤ d.exponent) : (10 : ℚ) ^ k * Double.oneUnits ≤ c := by
    rw [hc]
    exact mul_le_mul_of_nonneg_right (zpow_le_zpow_right₀ (by norm_num) hk) hone.le
  refine ⟨v, fits, r, hdouble, hr, ?_, fun hdigits => ?_⟩
  · have hc : 2 ≤ c := htwo.trans (hscale hplace)
    rcases hgap with hunit | hshare
    · refine hunit.trans_lt ?_
      rw [div_lt_iff₀ (by linarith)]
      linarith
    · linarith
  · rcases hplace.eq_or_lt with hleft | hmore
    · have hdecimal : d.digits * c = 10 ^ (-309 : ℤ) * Double.oneUnits := by
        rw [hc, ← hleft, hdigits, ← mul_assoc, Nat.cast_pow, Nat.cast_ofNat, ← zpow_natCast,
          ← zpow_add₀ (by norm_num)]
        rfl
      linarith [hleast hdecimal]
    · have hc : 20 ≤ c := htwenty.trans (hscale hmore)
      rw [sub_lt_comm]
      refine (le_abs_self _).trans_lt ?_
      rw [abs_sub_comm]
      rcases hgap with hunit | hshare
      · refine hunit.trans_lt ?_
        rw [div_lt_iff₀ (by linarith)]
        linarith
      · rw [hdigits] at hshare ⊢
        push_cast at hshare ⊢
        linarith

theorem fifteen_digits (s : Bool) (hu : 0 < u) :
    10 ^ 14 ≤ (nearest 15 s u Double.oneUnits).digits ∧
      (nearest 15 s u Double.oneUnits).digits < 10 ^ 15 := by
  have hplaces : 0 < 15 := by omega
  exact nearest_digits hplaces hu Double.oneUnits_pos

/-- Where the last place is less than a unit the decimal is read as the very double that it is
nearest to. -/
theorem toDouble_nearest_of_small (hu : 0 < u)
    (hplace : (nearest 15 s u Double.oneUnits).exponent ≤ -324)
    (hrange : (nearest 15 s u Double.oneUnits).magnitude < Double.rangeLimit) :
    ∃ fits, (nearest 15 s u Double.oneUnits).toDouble = .finite s u fits := by
  obtain ⟨num, den, fits, hden, hquotient, hdouble⟩ := exists_units hrange
  have hhigh := (fifteen_digits s hu).2
  have hnear : |(nearest 15 s u Double.oneUnits).magnitude - u / Double.oneUnits| ≤ _ :=
    abs_magnitude_nearest_sub_le (by omega) hu Double.oneUnits_pos
  have hlast : _ ≤ (nearest 15 s u Double.oneUnits).exponent := lastPlace_le_exponent hu Double.oneUnits_pos
  rw [nearest_negative] at hdouble
  have hone := Double.cast_oneUnits_pos
  have hgap : |(num / den : ℚ) - u| ≤ 1 / 8 := by
    calc
      |(num / den : ℚ) - u| =
          |(nearest 15 s u Double.oneUnits).magnitude - u / Double.oneUnits| * Double.oneUnits := by
        rw [hquotient, ← abs_of_pos hone, ← abs_mul, abs_of_pos hone, sub_mul,
          div_mul_cancel₀ _ hone.ne']
      _ ≤ 10 ^ lastPlace 15 u Double.oneUnits / 2 * Double.oneUnits :=
        mul_le_mul_of_nonneg_right hnear hone.le
      _ ≤ 1 / 8 := by
        rw [div_mul_eq_mul_div]
        linarith only [zpow_mul_oneUnits_le (hlast.trans hplace)]
  have hunits : u < 2 ^ 53 := by
    have hvalue : (num / den : ℚ) ≤ 10 ^ 15 * (1 / 4) := by
      rw [hquotient, magnitude, mul_assoc]
      refine mul_le_mul (by exact_mod_cast hhigh.le) (zpow_mul_oneUnits_le hplace) ?_ (by positivity)
      exact mul_nonneg (by positivity) hone.le
    have hlt : (u : ℚ) < (2 ^ 53 : ℕ) := by
      push_cast
      linarith [(abs_le.1 hgap).1]
    exact_mod_cast hlt
  have heq : Double.nearestUnits num den = u :=
    Double.nearestUnits_eq_of_near hden hunits (hgap.trans_lt (by norm_num))
  generalize Double.nearestUnits num den = v at fits hdouble heq
  subst heq
  exact ⟨fits, hdouble⟩

/-- Fifteen digits that a double has been rounded to survive being read as a double. -/
theorem nearest_toDouble (hu : 0 < u)
    (hrange : (nearest 15 s u Double.oneUnits).magnitude < Double.rangeLimit) :
    ∃ v fits, (nearest 15 s u Double.oneUnits).toDouble = .finite s v fits ∧ 0 < v ∧
      nearest 15 s v Double.oneUnits = nearest 15 s u Double.oneUnits := by
  rcases le_or_gt (nearest 15 s u Double.oneUnits).exponent (-324) with hsmall | hlarge
  · obtain ⟨fits, hdouble⟩ := toDouble_nearest_of_small hu hsmall hrange
    exact ⟨u, fits, hdouble, hu, rfl⟩
  · obtain ⟨hlow, hhigh⟩ := fifteen_digits s hu
    have hsign := nearest_negative 15 s u Double.oneUnits
    generalize nearest 15 s u Double.oneUnits = d at hlow hhigh hrange hlarge hsign ⊢
    obtain ⟨v, fits, r, hdouble, hr, hnear, hcarry⟩ := toDouble_near hhigh hlarge hrange
    have hv : 0 < v := by
      refine Nat.pos_of_ne_zero fun hzero => ?_
      have hr : r = 0 := by
        rw [hzero, Nat.cast_zero, zero_div, zero_eq_mul] at hr
        exact hr.resolve_right (by positivity)
      rw [hr, zero_sub, abs_neg, Nat.abs_cast] at hnear
      have hlow : ((10 ^ 14 : ℕ) : ℚ) ≤ d.digits := by exact_mod_cast hlow
      push_cast at hlow
      linarith
    refine ⟨v, fits, hsign ▸ hdouble, hv, ?_⟩
    rw [nearest_eq_of_near (by omega) hv Double.oneUnits_pos hlow hhigh hr hnear hcarry, ← hsign]

end Survival

/-! ## Whole numbers -/

theorem magnitude_nearest_of_whole {places n den : ℕ} {s : Bool} (hplaces : 0 < places) (hn : 0 < n)
    (hlt : n < 10 ^ places) (hden : 0 < den) :
    (nearest places s (n * den) den).magnitude = n := by
  have hquotient : ((n * den : ℕ) / den : ℚ) = n := by
    rw [Nat.cast_mul, mul_div_cancel_right₀ _ (by positivity)]
  obtain ⟨k, hk⟩ : ∃ k : ℕ, lastPlace places (n * den) den = -(k : ℤ) := by
    have hlog : Nat.log 10 n < places := Nat.log_lt_of_lt_pow hn.ne' hlt
    refine ⟨places - 1 - Nat.log 10 n, ?_⟩
    rw [lastPlace, hquotient, Int.log_natCast]
    omega
  have hdigits : scaledRound (n * den) den (-lastPlace places (n * den) den) = n * 10 ^ k := by
    apply eq_of_abs_sub_lt (abs_scaledRound_sub_le _ hden _)
    rw [hquotient, hk, neg_neg, zpow_natCast, Nat.cast_mul, Nat.cast_pow, Nat.cast_ofNat, sub_self,
      abs_zero]
    norm_num
  rw [magnitude_nearest hplaces (Nat.mul_pos hn hden) hden, hdigits, hk, zpow_neg, zpow_natCast,
    Nat.cast_mul, Nat.cast_pow, Nat.cast_ofNat, mul_inv_cancel_right₀ (by positivity)]

/-! ## The range -/

/-- The least magnitude that is rounded out of the range of doubles by keeping fifteen
digits: it lies below the greatest doubles. -/
def roundLimit : ℕ := 1797693134862315 * 10 ^ 293

theorem range_bounds : 10 ^ 308 ≤ roundLimit ∧ 11 * 10 ^ 308 < 10 * Double.rangeLimit ∧
    Double.limitUnits ≤ 10 ^ 309 * Double.oneUnits := by decide +kernel

theorem roundLimit_pos : (0 : ℚ) < roundLimit := by
  have hpos : 0 < roundLimit := lt_of_lt_of_le (by positivity) range_bounds.1
  exact_mod_cast hpos

/-- The limit lies in the middle between the last decimal of fifteen digits that is in range
and the next one. -/
theorem exists_lastDigits : ∃ n k, 0 < k ∧ k = 294 ∧ n % 2 = 1 ∧
    (2 * n + 1) * 10 ^ k = 2 * roundLimit ∧ n * 10 ^ k < Double.rangeLimit ∧
    Double.rangeLimit ≤ (n + 1) * 10 ^ k :=
  ⟨179769313486231, 294, by decide +kernel⟩

theorem magnitude_nearest_of_lastPlace {places num den k : ℕ} {s : Bool} (hplaces : 0 < places)
    (hnum : 0 < num) (hden : 0 < den) (hk : 0 < k) (hlast : lastPlace places num den = k) :
    (nearest places s num den).magnitude = roundDiv num (den * 10 ^ k) * (10 ^ k : ℕ) := by
  have hdigits : scaledRound num den (-(k : ℤ)) = roundDiv num (den * 10 ^ k) := by
    rw [scaledRound, if_neg (by omega), neg_neg, Int.toNat_natCast]
    rfl
  rw [magnitude_nearest hplaces hnum hden, hlast, hdigits, zpow_natCast, Nat.cast_pow,
    Nat.cast_ofNat]

theorem log_double {u : ℕ} (fits : Double.Fits u)
    (hlarge : (10 : ℚ) ^ (308 : ℤ) ≤ u / Double.oneUnits) :
    Int.log 10 (u / Double.oneUnits : ℚ) = 308 := by
  refine log_eq_of_bounds hlarge ?_
  have hplace : (308 + 1 : ℤ) = (309 : ℕ) := rfl
  rw [hplace, zpow_natCast, div_lt_iff₀ Double.cast_oneUnits_pos]
  calc
    (u : ℚ) < (10 ^ 309 * Double.oneUnits : ℕ) := Nat.cast_lt.2 (fits.2.trans_le range_bounds.2.2)
    _ = 10 ^ 309 * Double.oneUnits := by rw [Nat.cast_mul, Nat.cast_pow, Nat.cast_ofNat]

/-- The decimal nearest to a double is in range if the double is below the limit. -/
theorem magnitude_nearest_lt_iff {s : Bool} {u : ℕ} (hu : 0 < u) (fits : Double.Fits u) :
    (nearest 15 s u Double.oneUnits).magnitude < Double.rangeLimit ↔
      (u / Double.oneUnits : ℚ) < roundLimit := by
  have hone := Double.oneUnits_pos
  rcases lt_or_ge (u / Double.oneUnits : ℚ) (10 ^ (308 : ℤ)) with hsmall | hlarge
  · obtain ⟨hround, hrange, -⟩ := range_bounds
    have hround : (10 ^ (308 : ℤ) : ℚ) ≤ roundLimit := by exact_mod_cast hround
    have hrange : (11 * 10 ^ (308 : ℤ) : ℚ) < 10 * Double.rangeLimit := by exact_mod_cast hrange
    have hnear : |(nearest 15 s u Double.oneUnits).magnitude - u / Double.oneUnits| ≤ _ :=
      abs_magnitude_nearest_sub_le_tenth (by omega) hu hone
    refine iff_of_true ?_ (hsmall.trans_le hround)
    generalize (10 : ℚ) ^ (308 : ℤ) = ten at hsmall hrange
    linarith only [(abs_le.1 hnear).2, hsmall, hrange]
  · obtain ⟨n, k, hk, hplace, hodd, hmiddle, hbelow, habove⟩ := exists_lastDigits
    have hlast : lastPlace 15 u Double.oneUnits = k := by
      rw [lastPlace, log_double fits hlarge, hplace]
      rfl
    have hten : 0 < 10 ^ k := Nat.pow_pos (Nat.succ_pos 9)
    have hdigits : roundDiv u (Double.oneUnits * 10 ^ k) ≤ n ↔ _ :=
      roundDiv_le_iff_of_odd (Nat.mul_pos hone hten) hodd
    rw [magnitude_nearest_of_lastPlace (by omega) hu hone hk hlast, div_lt_iff₀ Double.cast_oneUnits_pos]
    generalize 10 ^ k = ten at hten hmiddle hbelow habove hdigits ⊢
    have hmiddle : (2 * n + 1) * (Double.oneUnits * ten) = 2 * (roundLimit * Double.oneUnits) := by
      rw [Nat.mul_left_comm, hmiddle]
      ring
    have hin : roundDiv u (Double.oneUnits * ten) * ten < Double.rangeLimit ↔
        roundDiv u (Double.oneUnits * ten) ≤ n := by
      constructor
      · intro hlt
        by_contra hgt
        have hstep : (n + 1) * ten ≤ roundDiv u (Double.oneUnits * ten) * ten :=
          Nat.mul_le_mul_right ten (by omega)
        omega
      · intro hle
        exact (Nat.mul_le_mul_right ten hle).trans_lt hbelow
    have hlimit : roundDiv u (Double.oneUnits * ten) * ten < Double.rangeLimit ↔
        u < roundLimit * Double.oneUnits := by
      rw [hin, hdigits, hmiddle, Nat.mul_lt_mul_left two_pos]
    exact_mod_cast hlimit

end PolarCalc.Decimal
