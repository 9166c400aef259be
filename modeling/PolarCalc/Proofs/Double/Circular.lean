import Mathlib.Data.Nat.Log
import Mathlib.Tactic.Linarith
import Mathlib.Tactic.Positivity
import Mathlib.Tactic.Ring
import PolarCalc.Double.Elementary
import PolarCalc.Proofs.Double.Rounding
/-!
# Sine and cosine

The argument that is left of a number after the turns are taken off is below one, where
the series of the cosine stays above one half.  One of the sine and the cosine of the
number is this series, so they are not both rounded to zero.
-/

namespace PolarCalc

namespace Series

theorem one_eq (p : ℕ) : one p = 2 ^ p := by
  simp [one, Nat.shiftLeft_eq]

theorem mul_eq (p : ℕ) (x y : ℤ) : mul p x y = x * y / 2 ^ p := by
  rw [mul, Int.shiftRight_eq_div_pow]
  norm_cast

theorem abs_ediv_le {a b c : ℤ} (hb : 0 < b) (h : |a| ≤ c * b) : |a / b| ≤ c := by
  obtain ⟨hlow, hhigh⟩ := abs_le.1 h
  rw [abs_le]
  constructor
  · rw [Int.le_ediv_iff_mul_le hb]
    linarith
  · rw [mul_comm] at hhigh
    exact Int.ediv_le_of_le_mul hb (by linarith)

theorem abs_mul_le {p : ℕ} {x y bound : ℤ} (h : |x * y| ≤ bound * 2 ^ p) :
    |mul p x y| ≤ bound := by
  rw [mul_eq]
  exact abs_ediv_le (by positivity) h

theorem two_pow_eq {p : ℕ} (hp : 0 < p) : (2 : ℤ) ^ p = 2 * 2 ^ (p - 1) := by
  rw [← pow_succ', Nat.sub_add_cancel hp]

/-! ## The series of the sine and the cosine -/

theorem nested_step {p d : ℕ} {t inner : ℤ} (hp : 0 < p) (hd : 2 ≤ d) (ht : -2 ^ p ≤ t)
    (ht' : t ≤ 0) (hinner : 0 ≤ inner) (hinner' : inner ≤ 2 ^ p) :
    2 ^ p ≤ 2 * (one p + mul p t inner / d) ∧ one p + mul p t inner / d ≤ 2 ^ p := by
  have hpos : (0 : ℤ) < 2 ^ p := by positivity
  have hhalf := two_pow_eq hp
  have hlow : -2 ^ p ≤ mul p t inner := by
    rw [mul_eq, Int.le_ediv_iff_mul_le hpos]
    nlinarith
  have hhigh : mul p t inner < 1 := by
    rw [mul_eq, Int.ediv_lt_iff_lt_mul hpos]
    nlinarith
  have hd' : (2 : ℤ) ≤ d := by exact_mod_cast hd
  have hquotient : -2 ^ (p - 1) ≤ mul p t inner / d := by
    rw [Int.le_ediv_iff_mul_le (by omega)]
    nlinarith [pow_pos (two_pos : (0 : ℤ) < 2) (p - 1)]
  have hquotient' : mul p t inner / d < 1 := by
    rw [Int.ediv_lt_iff_lt_mul (by omega)]
    omega
  rw [one_eq]
  omega

theorem nested_bounds {p : ℕ} {t : ℤ} {d : ℕ → ℕ} (hp : 0 < p) (hd : ∀ k, 2 ≤ d (k + 1))
    (ht : -2 ^ p ≤ t) (ht' : t ≤ 0) (terms : ℕ) :
    2 ^ p ≤ 2 * nested p t d terms ∧ nested p t d terms ≤ 2 ^ p := by
  have hpos : (0 : ℤ) < 2 ^ p := by positivity
  unfold nested
  induction List.range terms with
  | nil =>
      rw [List.foldr_nil, one_eq]
      omega
  | cons k rest ih =>
      rw [List.foldr_cons]
      exact nested_step hp (hd k) ht ht' (by omega) ih.2

theorem neg_square_bounds {p : ℕ} {x : ℤ} (hx : |x| ≤ 2 ^ p) :
    -2 ^ p ≤ -mul p x x ∧ -mul p x x ≤ 0 := by
  have hpos : (0 : ℤ) < 2 ^ p := by positivity
  have hsquare : x * x ≤ 2 ^ p * 2 ^ p := by
    rw [← abs_mul_abs_self x]
    exact mul_le_mul hx hx (abs_nonneg x) hpos.le
  have hnonneg : 0 ≤ mul p x x := by
    rw [mul_eq]
    exact Int.ediv_nonneg (mul_self_nonneg x) hpos.le
  have hle : mul p x x ≤ 2 ^ p := by
    rw [mul_eq]
    exact Int.ediv_le_of_le_mul hpos hsquare
  omega

/-- Up to an argument of one the cosine is at least one half and at most one. -/
theorem cosine_bounds {p : ℕ} {x : ℤ} (hp : 0 < p) (hx : |x| ≤ 2 ^ p) :
    2 ^ p ≤ 2 * cosine p x ∧ cosine p x ≤ 2 ^ p := by
  obtain ⟨hlow, hhigh⟩ := neg_square_bounds hx
  have hdivisor (k : ℕ) : 2 ≤ (2 * (k + 1) - 1) * (2 * (k + 1)) := by
    have hfactor : 1 ≤ 2 * (k + 1) - 1 := by omega
    nlinarith
  exact nested_bounds hp hdivisor hlow hhigh _

theorem abs_sine_le {p : ℕ} {x : ℤ} (hp : 0 < p) (hx : |x| ≤ 2 ^ p) :
    |sine p (-1) x| ≤ 2 ^ p := by
  obtain ⟨hlow, hhigh⟩ := neg_square_bounds hx
  have hsquare : -1 * mul p x x = -mul p x x := neg_one_mul _
  rw [← hsquare] at hlow hhigh
  have hdivisor (k : ℕ) : 2 ≤ (2 * (k + 1)) * (2 * (k + 1) + 1) := by nlinarith
  obtain ⟨hnested, hnested'⟩ := nested_bounds (d := fun k => (2 * k) * (2 * k + 1)) hp hdivisor
    hlow hhigh (p / 8 + 8)
  have hpos : (0 : ℤ) < 2 ^ p := by positivity
  apply abs_mul_le
  rw [abs_mul]
  exact mul_le_mul hx (abs_le.2 ⟨by omega, hnested'⟩) (abs_nonneg _) hpos.le

/-! ## The reduced argument -/

theorem halfTurnConstant_bounds :
    3 * 2 ^ constantBits ≤ halfTurnConstant ∧ 5 * halfTurnConstant ≤ 16 * 2 ^ constantBits := by
  decide +kernel

theorem halfTurn_bounds (p : ℕ) : 0 < halfTurn p ∧ 5 * halfTurn p ≤ 16 * 2 ^ p := by
  obtain ⟨hlow, hhigh⟩ := halfTurnConstant_bounds
  unfold halfTurn
  rw [Int.shiftRight_eq_div_pow]
  push_cast
  generalize halfTurnConstant = turn at hlow hhigh ⊢
  have hcut : (0 : ℤ) < 2 ^ (constantBits - p) := by positivity
  have hbits : (2 : ℤ) ^ (constantBits - p) ≤ 2 ^ constantBits :=
    pow_le_pow_right₀ (by omega) (by omega)
  have hbits' : (2 : ℤ) ^ constantBits ≤ 2 ^ p * 2 ^ (constantBits - p) := by
    rw [← pow_add]
    exact pow_le_pow_right₀ (by omega) (by omega)
  constructor
  · rw [← Int.add_one_le_iff, zero_add, Int.le_ediv_iff_mul_le hcut]
    linarith
  · have hfloor := Int.ediv_mul_le turn hcut.ne'
    apply le_of_mul_le_mul_right _ hcut
    linarith

/-- What is left of an argument after the nearest multiple of a quarter turn. -/
theorem abs_reduced_le {p guard : ℕ} {arg turn : ℤ} (hp : 3 ≤ p) (hturn : 0 < turn)
    (hturn' : 5 * turn ≤ 16 * 2 ^ (p + guard)) :
    |((2 * arg - (4 * arg + turn) / (2 * turn) * turn) >>> guard) / 2| ≤ 2 ^ p := by
  have hlow := Int.ediv_mul_le (4 * arg + turn) (b := 2 * turn) (by omega)
  have hhigh := Int.lt_ediv_add_one_mul_self (4 * arg + turn) (b := 2 * turn) (by omega)
  generalize (4 * arg + turn) / (2 * turn) = quarters at hlow hhigh ⊢
  have hrest : -turn ≤ 2 * (2 * arg - quarters * turn) := by linarith
  have hrest' : 2 * (2 * arg - quarters * turn) < turn := by linarith
  generalize 2 * arg - quarters * turn = rest at hrest hrest' ⊢
  rw [Int.shiftRight_eq_div_pow]
  push_cast
  rw [pow_add] at hturn'
  have height : (8 : ℤ) ≤ 2 ^ p := by
    calc
      (8 : ℤ) = 2 ^ 3 := by norm_num
      _ ≤ 2 ^ p := pow_le_pow_right₀ (by omega) hp
  have hguard : (0 : ℤ) < 2 ^ guard := by positivity
  have hfloor := Int.ediv_mul_le rest hguard.ne'
  have hfloor' := Int.lt_ediv_add_one_mul_self rest hguard
  generalize rest / 2 ^ guard = cut at hfloor hfloor' ⊢
  have hupper : 10 * cut < 16 * 2 ^ p := by
    apply lt_of_mul_lt_mul_right _ hguard.le
    linarith
  have hlower : -(16 * 2 ^ p) < 10 * (cut + 1) := by
    apply lt_of_mul_lt_mul_right _ hguard.le
    linarith
  rw [abs_le]
  omega

end Series

/-! ## Wide numbers -/

namespace Wide

theorem isZero_ofScaled_sign (s t : Bool) (m : ℕ) (e : ℤ) :
    (Double.ofScaled s m e).isZero = (Double.ofScaled t m e).isZero := by
  have hunits (u : ℕ) : (Double.ofUnits s u).isZero = (Double.ofUnits t u).isZero := by
    rw [Bool.eq_iff_iff, Double.isZero_ofUnits, Double.isZero_ofUnits]
  unfold Double.ofScaled
  simp only
  split_ifs
  · exact hunits 0
  · rfl
  · exact hunits 0
  · exact hunits _
  · exact hunits _

theorem isZero_toDouble_neg (x : Wide) : (-x).toDouble.isZero = x.toDouble.isZero := by
  show (Double.ofScaled (decide (-x.mantissa < 0)) (-x.mantissa).natAbs x.exponent).isZero = _
  rw [Int.natAbs_neg]
  exact isZero_ofScaled_sign _ _ _ _

theorem isZero_ofScaled_eq_false {s : Bool} {m : ℕ} {e : ℤ} (hm : m ≠ 0)
    (he : 0 ≤ e + Double.unitBits + m.log2) : (Double.ofScaled s m e).isZero = false := by
  unfold Double.ofScaled
  simp only
  rw [if_neg hm]
  split
  · rfl
  · rw [if_neg (by omega), ← Bool.not_eq_true]
    split
    · have hpos : 0 < m <<< (e + Double.unitBits).toNat := by
        rw [Nat.shiftLeft_eq]
        positivity
      rw [Double.isZero_round Nat.one_pos]
      omega
    · have hbits : (-(e + Double.unitBits)).toNat ≤ m.log2 := by omega
      have hle : 1 <<< (-(e + Double.unitBits)).toNat ≤ m := by
        rw [Nat.shiftLeft_eq, one_mul]
        exact (Nat.le_log2 hm).1 hbits
      have hpos : 0 < 1 <<< (-(e + Double.unitBits)).toNat := by
        rw [Nat.shiftLeft_eq]
        positivity
      rw [Double.isZero_round hpos]
      omega

theorem trim_leading (x : Wide) :
    (trim x).magnitude = x.magnitude ∧ ((trim x).mantissa = 0 ↔ x.mantissa = 0) := by
  unfold trim magnitude
  simp only
  split
  · exact ⟨rfl, .rfl⟩
  · rename_i hexcess
    generalize hn : x.mantissa.natAbs = n at hexcess ⊢
    have hcut : (x.mantissa.tdiv (1 <<< (n.log2 - keptBits))).natAbs =
        n / 2 ^ (n.log2 - keptBits) := by
      rw [Int.natAbs_tdiv, hn, Nat.shiftLeft_eq, one_mul]
      rfl
    have hlog : (n / 2 ^ (n.log2 - keptBits)).log2 = n.log2 - (n.log2 - keptBits) := by
      rw [Nat.log2_eq_log_two, Nat.log_div_base_pow, ← Nat.log2_eq_log_two]
    have hne : n ≠ 0 := by
      rintro rfl
      simp at hexcess
    have hkept : 2 ^ (n.log2 - keptBits) ≤ n := by
      calc
        2 ^ (n.log2 - keptBits) ≤ 2 ^ n.log2 := Nat.pow_le_pow_right (by omega) (by omega)
        _ ≤ n := Nat.log2_self_le hne
    constructor
    · simp only [hcut, hlog]
      omega
    · rw [← Int.natAbs_eq_zero, hcut, ← Int.natAbs_eq_zero, hn]
      exact iff_of_false (Nat.div_pos hkept (Nat.two_pow_pos _)).ne' hne

theorem isZero_ofFixed_eq_false {p : ℕ} {n : ℤ} (hn : 2 ^ p ≤ 2 * n) :
    (ofFixed p n).toDouble.isZero = false := by
  have hpos : (0 : ℤ) < 2 ^ p := by positivity
  obtain ⟨k, rfl⟩ := Int.eq_ofNat_of_zero_le (a := n) (by omega)
  have hne : k ≠ 0 := by
    rintro rfl
    omega
  have hbits : p ≤ k.log2 + 1 := by
    have hself := Nat.lt_log2_self (n := k)
    have hle : 2 ^ p ≤ 2 * k := by exact_mod_cast hn
    have hlt : 2 ^ p < 2 ^ (k.log2 + 2) := by
      rw [pow_succ]
      omega
    have := (Nat.pow_lt_pow_iff_right (by omega)).1 hlt
    omega
  obtain ⟨hmagnitude, hmantissa⟩ := trim_leading ⟨k, -(p : ℤ)⟩
  unfold magnitude at hmagnitude
  apply isZero_ofScaled_eq_false
  · rw [Int.natAbs_ne_zero]
    intro hzero
    have hcast : (k : ℤ) = 0 := hmantissa.1 hzero
    exact hne (by exact_mod_cast hcast)
  · simp only [Int.natAbs_natCast] at hmagnitude
    simp only [ofFixed, Double.unitBits]
    omega

/-- Sine and cosine from those of what is left behind some quarters of a turn. -/
def turned (quarters : ℤ) (negative : Bool) (s c : Wide) : Wide × Wide :=
  let (s, c) :=
    if quarters % 4 = 0 then (s, c)
    else if quarters % 4 = 1 then (c, -s)
    else if quarters % 4 = 2 then (-s, -c)
    else (-c, s)
  (if negative then -s else s, c)

/-- The cosine of what is left is one of the two, up to its sign. -/
theorem turned_ne_zero {quarters : ℤ} {negative : Bool} {s c : Wide}
    (hc : c.toDouble.isZero = false) :
    ¬ ((turned quarters negative s c).1.toDouble.isZero = true ∧
      (turned quarters negative s c).2.toDouble.isZero = true) := by
  unfold turned
  split_ifs <;> simp [isZero_toDouble_neg, hc]

/-- Sine and cosine are those of a reduced argument below one, turned. -/
theorem exists_turned {x : Wide} (hx : x.isZero = false) :
    ∃ p quarters reduced, 0 < p ∧ |reduced| ≤ 2 ^ p ∧
      sinCos x = turned quarters x.isNegative (ofFixed p (Series.sine p (-1) reduced))
        (ofFixed p (Series.cosine p reduced)) := by
  let p := seriesBits + (-x.magnitude).toNat
  let guard := (x.magnitude + 1).toNat
  let arg := toFixed (p + guard) x.abs
  let turn := Series.halfTurn (p + guard)
  let quarters := (4 * arg + turn) / (2 * turn)
  let reduced := ((2 * arg - quarters * turn) >>> guard) / 2
  have hp : 3 ≤ p := by
    simp only [p, seriesBits]
    omega
  obtain ⟨hturn, hturn'⟩ := Series.halfTurn_bounds (p + guard)
  refine ⟨p, quarters, reduced, by omega, Series.abs_reduced_le hp hturn hturn', ?_⟩
  exact if_neg (by simp [hx])

theorem sinCos_ne_zero {x : Wide} (hx : x.isZero = false) :
    ¬ ((sinCos x).1.toDouble.isZero = true ∧ (sinCos x).2.toDouble.isZero = true) := by
  obtain ⟨p, quarters, reduced, hp, hreduced, hsinCos⟩ := exists_turned hx
  rw [hsinCos]
  apply turned_ne_zero
  apply isZero_ofFixed_eq_false
  exact (Series.cosine_bounds hp hreduced).1

theorem isZero_ofDouble {s : Bool} {u : ℕ} {fits : Double.Fits u} (hu : u ≠ 0) :
    (ofDouble (.finite s u fits)).isZero = false := by
  have hcut : 0 < u >>> (u.log2 - 52) := by
    rw [Nat.shiftRight_eq_div_pow, Nat.div_pos_iff]
    refine ⟨Nat.two_pow_pos _, ?_⟩
    calc
      2 ^ (u.log2 - 52) ≤ 2 ^ u.log2 := Nat.pow_le_pow_right (by omega) (by omega)
      _ ≤ u := Nat.log2_self_le hu
  have hsigned : signed s (u >>> (u.log2 - 52)) ≠ 0 := by
    cases s <;> simp only [signed, Bool.false_eq_true, if_true, if_false] <;> omega
  simpa [ofDouble, isZero] using hsigned

end Wide

namespace Double

variable {s : Bool} {u : ℕ} {fits : Fits u}

theorem cos_finite_zero {fits : Fits 0} : (finite s 0 fits).cos = one := by
  simp [cos, isFinite, isZero]

theorem sin_finite_zero {fits : Fits 0} : (finite s 0 fits).sin = .finite s 0 fits := by
  simp [sin, isFinite, isZero]

theorem cos_finite (hu : u ≠ 0) :
    (finite s u fits).cos = (Wide.sinCos (.ofDouble (.finite s u fits))).2.toDouble := by
  simp [cos, isFinite, isZero, hu]

theorem sin_finite (hu : u ≠ 0) :
    (finite s u fits).sin = (Wide.sinCos (.ofDouble (.finite s u fits))).1.toDouble := by
  simp [sin, isFinite, isZero, hu]

/-- No double has a sine and a cosine that are both zero. -/
theorem cos_ne_zero_or_sin_ne_zero (x : Double) : x.cos.isZero = false ∨ x.sin.isZero = false := by
  cases x with
  | nan => exact .inl rfl
  | infinite s => exact .inl rfl
  | finite s u fits =>
      by_cases hu : u = 0
      · subst hu
        rw [cos_finite_zero]
        exact .inl (by decide +kernel)
      · have hwide : (Wide.ofDouble (.finite s u fits)).isZero = false := Wide.isZero_ofDouble hu
        have hboth := Wide.sinCos_ne_zero hwide
        rw [not_and_or, Bool.not_eq_true, Bool.not_eq_true] at hboth
        rw [cos_finite hu, sin_finite hu]
        exact hboth.symm

end Double

end PolarCalc
