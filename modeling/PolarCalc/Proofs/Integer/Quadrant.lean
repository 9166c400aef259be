import Mathlib.NumberTheory.Zsqrtd.GaussianInt
import PolarCalc.Value.Basic
/-!
# Integers on the four axes

A scalar of the integer kind lies on an axis if its angle is a multiple of a
quarter turn, and there it stands for a Gaussian integer: its length times a
power of the imaginary unit.  A negative length and half a turn are two spellings
of one sign, and angles may be negative or run past a full turn.  Powers of the
unit take care of both, so what length and angle do to each other is what the
Gaussian integers do.
-/

namespace PolarCalc

/-! ## Quarter turns -/

/-- A quarter turn: the imaginary unit, with the turn back as its inverse. -/
def quarterTurn : GaussianIntˣ where
  val := Zsqrtd.sqrtd
  inv := -Zsqrtd.sqrtd
  val_inv := by decide
  inv_val := by decide

theorem quarterTurn_pow_four : quarterTurn ^ 4 = 1 := by
  apply Units.ext
  decide

/-- Only the remainder of the number of quarter turns counts. -/
theorem quarterTurn_zpow_cases (k : Int) :
    (k % 4 = 0 ∧ ((quarterTurn ^ k : GaussianIntˣ) : GaussianInt) = ⟨1, 0⟩) ∨
    (k % 4 = 1 ∧ ((quarterTurn ^ k : GaussianIntˣ) : GaussianInt) = ⟨0, 1⟩) ∨
    (k % 4 = 2 ∧ ((quarterTurn ^ k : GaussianIntˣ) : GaussianInt) = ⟨-1, 0⟩) ∨
    (k % 4 = 3 ∧ ((quarterTurn ^ k : GaussianIntˣ) : GaussianInt) = ⟨0, -1⟩) := by
  have hturns : quarterTurn ^ k = quarterTurn ^ (k % 4) :=
    zpow_eq_zpow_emod' k quarterTurn_pow_four
  have hcases : k % 4 = 0 ∨ k % 4 = 1 ∨ k % 4 = 2 ∨ k % 4 = 3 := by omega
  rw [hturns]
  rcases hcases with h | h | h | h <;> rw [h]
  · exact .inl ⟨rfl, rfl⟩
  · exact .inr (.inl ⟨rfl, by decide⟩)
  · exact .inr (.inr (.inl ⟨rfl, by decide⟩))
  · exact .inr (.inr (.inr ⟨rfl, by decide⟩))

/-! ## Cut off toward zero -/

/-- The integral part of a real number, cut off toward zero. -/
noncomputable def towardZero (x : ℝ) : Int := if 0 ≤ x then ⌊x⌋ else ⌈x⌉

/-- Both parts of a complex number, each cut off toward zero. -/
noncomputable def partsTowardZero (z : ℂ) : GaussianInt := ⟨towardZero z.re, towardZero z.im⟩

theorem towardZero_zero : towardZero 0 = 0 := by
  rw [towardZero, if_pos (le_refl 0), Int.floor_zero]

theorem towardZero_neg (x : ℝ) : towardZero (-x) = -towardZero x := by
  unfold towardZero
  rcases lt_trichotomy x 0 with hneg | rfl | hpos
  · rw [if_pos (by linarith), if_neg (by linarith), Int.floor_neg]
  · simp
  · rw [if_neg (by linarith), if_pos (by linarith), Int.ceil_neg]

/-- The quotient of integers that cuts off is the real quotient cut off. -/
theorem towardZero_div (x y : Int) : towardZero (x / y) = x.tdiv y := by
  have hnat (m n : Nat) : towardZero ((m : ℝ) / n) = (m : Int).tdiv n := by
    have hnonneg : (0 : ℝ) ≤ m / n := by positivity
    rw [towardZero, if_pos hnonneg, Int.floor_div_natCast, Int.floor_natCast]
    rfl
  obtain ⟨m, rfl | rfl⟩ := x.eq_nat_or_neg <;> obtain ⟨n, rfl | rfl⟩ := y.eq_nat_or_neg
  · exact hnat m n
  · rw [Int.tdiv_neg, ← hnat, ← towardZero_neg]
    push_cast
    rw [div_neg]
  · rw [Int.neg_tdiv, ← hnat, ← towardZero_neg]
    push_cast
    rw [neg_div]
  · rw [Int.neg_tdiv, Int.tdiv_neg, neg_neg, ← hnat]
    push_cast
    rw [neg_div_neg_eq]

/-- Quarter turns move the parts and change their signs, and neither disturbs the
cutting off. -/
theorem partsTowardZero_turned (x : ℝ) (k : Int) :
    partsTowardZero (x * (((quarterTurn ^ k : GaussianIntˣ) : GaussianInt) : ℂ)) =
      (towardZero x : GaussianInt) * (quarterTurn ^ k : GaussianIntˣ) := by
  rcases quarterTurn_zpow_cases k with ⟨-, h⟩ | ⟨-, h⟩ | ⟨-, h⟩ | ⟨-, h⟩ <;> rw [h] <;>
    ext <;> simp [partsTowardZero, towardZero_zero, towardZero_neg]

theorem quotient_turned (x y j k : Int) :
    (((x * (quarterTurn ^ j : GaussianIntˣ) : GaussianInt) : ℂ) /
        ((y * (quarterTurn ^ k : GaussianIntˣ) : GaussianInt) : ℂ)) =
      ((x / y : ℝ) : ℂ) * (((quarterTurn ^ (j - k) : GaussianIntˣ) : GaussianInt) : ℂ) := by
  have hunit : (((quarterTurn ^ k : GaussianIntˣ) : GaussianInt) : ℂ) ≠ 0 :=
    fun h => (quarterTurn ^ k).ne_zero (GaussianInt.toComplex_eq_zero.1 h)
  have hsplit : quarterTurn ^ j = quarterTurn ^ (j - k) * quarterTurn ^ k := by
    rw [← zpow_add, sub_add_cancel]
  rw [hsplit, Units.val_mul, ← mul_assoc, GaussianInt.toComplex_mul, GaussianInt.toComplex_mul,
    GaussianInt.toComplex_mul, mul_div_mul_right _ _ hunit, mul_div_right_comm]
  push_cast
  rw [map_intCast, map_intCast]

namespace IntScalar

/-- The scalar lies on an axis and stands for the Gaussian integer `n` there. -/
def IsAxial (z : IntScalar) (n : GaussianInt) : Prop :=
  z.degrees % 90 = 0 ∧ z.toCartesian = .ok ⟨n.re, n.im⟩

variable {z w : IntScalar} {a b : GaussianInt}

theorem isAxial_turned (length k : Int) :
    (⟨length, 90 * k⟩ : IntScalar).IsAxial (length * (quarterTurn ^ k : GaussianIntˣ)) := by
  refine ⟨by simp only; omega, ?_⟩
  unfold toCartesian
  -- The remainders of the turns are the four branches on the axes.
  rcases quarterTurn_zpow_cases k with ⟨hk, h⟩ | ⟨hk, h⟩ | ⟨hk, h⟩ | ⟨hk, h⟩
  · have hturn : 90 * k % 360 = 0 := by omega
    simp [hturn, h]
  · have hturn : 90 * k % 360 = 90 := by omega
    simp [hturn, h]
  · have hturn : 90 * k % 360 = 180 := by omega
    simp [hturn, h]
  · have hturn : 90 * k % 360 = 270 := by omega
    simp [hturn, h]

theorem IsAxial.unique (ha : z.IsAxial a) (hb : z.IsAxial b) : a = b := by
  have hparts := ha.2.symm.trans hb.2
  rw [Except.ok.injEq, Cartesian.mk.injEq] at hparts
  exact Zsqrtd.ext hparts.1 hparts.2

theorem isAxial_iff : z.IsAxial a ↔
    ∃ k, z.degrees = 90 * k ∧ a = z.length * (quarterTurn ^ k : GaussianIntˣ) := by
  constructor
  · intro h
    obtain ⟨k, hk⟩ := Int.dvd_of_emod_eq_zero h.1
    have hturned := isAxial_turned z.length k
    rw [← hk] at hturned
    exact ⟨k, hk, h.unique hturned⟩
  · rintro ⟨k, hk, rfl⟩
    have hturned := isAxial_turned z.length k
    rwa [← hk] at hturned

theorem exists_isAxial (h : z.degrees % 90 = 0) : ∃ n, z.IsAxial n := by
  obtain ⟨k, hk⟩ := Int.dvd_of_emod_eq_zero h
  exact ⟨_, isAxial_iff.2 ⟨k, hk, rfl⟩⟩

theorem IsAxial.length_eq_zero_iff (h : z.IsAxial a) : z.length = 0 ↔ a = 0 := by
  obtain ⟨k, -, rfl⟩ := isAxial_iff.1 h
  rw [Units.mul_left_eq_zero, Int.cast_eq_zero]

/-! ## Polar operations -/

theorem IsAxial.mul (hz : z.IsAxial a) (hw : w.IsAxial b) : (z.mul w).IsAxial (a * b) := by
  obtain ⟨j, hj, rfl⟩ := isAxial_iff.1 hz
  obtain ⟨k, hk, rfl⟩ := isAxial_iff.1 hw
  refine isAxial_iff.2 ⟨j + k, ?_, ?_⟩
  · rw [IntScalar.mul, hj, hk, mul_add]
  · rw [IntScalar.mul, zpow_add]
    push_cast
    ring

theorem IsAxial.toLateral (h : z.IsAxial a) : z.toLateral.IsAxial (Zsqrtd.sqrtd * a) := by
  obtain ⟨k, hk, rfl⟩ := isAxial_iff.1 h
  refine isAxial_iff.2 ⟨1 + k, ?_, ?_⟩
  · rw [IntScalar.toLateral, hk]
    ring
  · rw [IntScalar.toLateral, zpow_add, zpow_one, Units.val_mul]
    exact mul_left_comm _ _ _

theorem IsAxial.toNegative (h : z.IsAxial a) : z.toNegative.IsAxial (-a) := by
  obtain ⟨k, hk, rfl⟩ := isAxial_iff.1 h
  refine isAxial_iff.2 ⟨k, hk, ?_⟩
  rw [IntScalar.toNegative, Int.cast_neg, neg_mul]

theorem IsAxial.div_eq_refuse_iff (hw : w.IsAxial b) :
    z.div w = refuse .divisionByZero ↔ b = 0 := by
  rw [← hw.length_eq_zero_iff]
  constructor
  · intro h
    by_contra hlength
    rw [IntScalar.div, if_neg hlength, quotient_of_ne hlength] at h
    cases h
  · exact fun hlength => if_pos hlength

/-- Divided by length and angle, the number is divided: the turns of the divisor
are taken back, and the lengths leave a real quotient. -/
theorem IsAxial.div (hz : z.IsAxial a) (hw : w.IsAxial b) (hb : b ≠ 0) :
    ∃ q, z.div w = .ok q ∧ q.IsAxial (partsTowardZero ((a : ℂ) / b)) := by
  have hlength : w.length ≠ 0 := fun h => hb (hw.length_eq_zero_iff.1 h)
  obtain ⟨j, hj, rfl⟩ := isAxial_iff.1 hz
  obtain ⟨k, hk, rfl⟩ := isAxial_iff.1 hw
  refine ⟨⟨z.length.tdiv w.length, z.degrees - w.degrees⟩, ?_, ?_⟩
  · rw [IntScalar.div, if_neg hlength, quotient_of_ne hlength]
    rfl
  refine isAxial_iff.2 ⟨j - k, ?_, ?_⟩
  · rw [hj, hk, mul_sub]
  rw [quotient_turned, partsTowardZero_turned, towardZero_div]

/-- Whatever the signs of the lengths and however far the angles have turned,
product, quotient, turn and negation of scalars on the axes are those of the
Gaussian integers that they stand for, and lie on an axis again. -/
theorem axial_arithmetic (z w : IntScalar) (hz : z.degrees % 90 = 0) (hw : w.degrees % 90 = 0) :
    ∃ a b : GaussianInt, z.IsAxial a ∧ w.IsAxial b ∧
      (z.mul w).IsAxial (a * b) ∧
      (∃ l, (Value.integer z).toLateral = .integer l ∧ l.IsAxial (Zsqrtd.sqrtd * a)) ∧
      (∃ n, (Value.integer z).toNegative = .integer n ∧ n.IsAxial (-a)) ∧
      (z.div w = refuse .divisionByZero ↔ b = 0) ∧
      (b ≠ 0 → ∃ q, z.div w = .ok q ∧ q.IsAxial (partsTowardZero ((a : ℂ) / b))) := by
  obtain ⟨a, ha⟩ := exists_isAxial hz
  obtain ⟨b, hb⟩ := exists_isAxial hw
  exact ⟨a, b, ha, hb, ha.mul hb, ⟨_, rfl, ha.toLateral⟩, ⟨_, rfl, ha.toNegative⟩,
    hb.div_eq_refuse_iff, ha.div hb⟩

/-- Minus seven a quarter turn back, by two at a quarter turn past a full one: of
the three and a half that is the quotient, three are left. -/
theorem axial_arithmetic_quotient :
    let z : IntScalar := ⟨-7, -90⟩
    let w : IntScalar := ⟨2, 450⟩
    z.degrees % 90 = 0 ∧ w.degrees % 90 = 0 ∧ z.IsAxial ⟨0, 7⟩ ∧ w.IsAxial ⟨0, 2⟩ ∧
      (z.mul w).IsAxial ⟨-14, 0⟩ ∧ ∃ q, z.div w = .ok q ∧ q.IsAxial ⟨3, 0⟩ := by
  intro z w
  have hz : z.IsAxial ⟨0, 7⟩ := ⟨rfl, rfl⟩
  have hw : w.IsAxial ⟨0, 2⟩ := ⟨rfl, rfl⟩
  obtain ⟨a, b, ha, hb, hmul, -, -, -, hdiv⟩ := axial_arithmetic z w (by decide) (by decide)
  obtain rfl := ha.unique hz
  obtain rfl := hb.unique hw
  obtain ⟨q, hq, hquotient⟩ := hdiv (by decide)
  refine ⟨rfl, rfl, hz, hw, hmul, q, hq, ?_⟩
  have hexact : ((⟨0, 7⟩ : GaussianInt) : ℂ) / (⟨0, 2⟩ : GaussianInt) = ⟨7 / 2, 0⟩ := by
    apply Complex.ext <;> norm_num [Complex.div_re, Complex.div_im, Complex.normSq]
  have hcut : towardZero (7 / 2) = 3 := by simpa using towardZero_div 7 2
  rw [hexact, partsTowardZero, hcut, towardZero_zero] at hquotient
  exact hquotient

end IntScalar

end PolarCalc
