import PolarCalc.Builtin
import PolarCalc.Proofs.Double.Angle
import PolarCalc.Proofs.Integer.Conversion
/-!
# Integers on the real axis

A scalar of the integer kind lies on the real axis if its angle is a multiple of
half a turn.  Whatever its length and angle, it stands for one integer, and every
operation on such scalars is the operation on the integers they stand for: sums
through cartesian form, products and quotients through length and angle.
-/

namespace PolarCalc.IntScalar

/-- The scalar lies on the real axis and stands for the integer `n` there. -/
def IsReal (z : IntScalar) (n : Int) : Prop :=
  z.degrees % 180 = 0 ∧ z.toCartesian = .ok ⟨n, 0⟩

variable {z w : IntScalar} {a b : Int}

theorem toCartesian_of_full (h : z.degrees % 360 = 0) : z.toCartesian = .ok ⟨z.length, 0⟩ := by
  simp [toCartesian, h]

theorem toCartesian_of_half (h : z.degrees % 360 = 180) : z.toCartesian = .ok ⟨-z.length, 0⟩ := by
  simp [toCartesian, h]

/-- Either the length counts as it is, or it counts from the other side. -/
theorem isReal_iff : z.IsReal a ↔
    (z.degrees % 360 = 0 ∧ a = z.length) ∨ (z.degrees % 360 = 180 ∧ a = -z.length) := by
  constructor
  · rintro ⟨hturn, hparts⟩
    have hcases : z.degrees % 360 = 0 ∨ z.degrees % 360 = 180 := by omega
    rcases hcases with hzero | hhalf
    · rw [toCartesian_of_full hzero, Except.ok.injEq, Cartesian.mk.injEq] at hparts
      exact .inl ⟨hzero, hparts.1.symm⟩
    · rw [toCartesian_of_half hhalf, Except.ok.injEq, Cartesian.mk.injEq] at hparts
      exact .inr ⟨hhalf, hparts.1.symm⟩
  · rintro (⟨hzero, rfl⟩ | ⟨hhalf, rfl⟩)
    · exact ⟨by omega, toCartesian_of_full hzero⟩
    · exact ⟨by omega, toCartesian_of_half hhalf⟩

theorem exists_isReal (h : z.degrees % 180 = 0) : ∃ n, z.IsReal n := by
  have hcases : z.degrees % 360 = 0 ∨ z.degrees % 360 = 180 := by omega
  rcases hcases with hzero | hhalf
  · exact ⟨z.length, isReal_iff.2 (.inl ⟨hzero, rfl⟩)⟩
  · exact ⟨-z.length, isReal_iff.2 (.inr ⟨hhalf, rfl⟩)⟩

theorem isReal_ofInt (n : Int) : (⟨n, 0⟩ : IntScalar).IsReal n :=
  isReal_iff.2 (.inl ⟨rfl, rfl⟩)

theorem IsReal.natAbs_length (h : z.IsReal a) : z.length.natAbs = a.natAbs := by
  rcases isReal_iff.1 h with ⟨-, rfl⟩ | ⟨-, rfl⟩
  · rfl
  · rw [Int.natAbs_neg]

theorem IsReal.length_eq_zero_iff (h : z.IsReal a) : z.length = 0 ↔ a = 0 := by
  rw [← Int.natAbs_eq_zero, h.natAbs_length, Int.natAbs_eq_zero]

/-! ## Polar operations -/

theorem IsReal.toNegative (h : z.IsReal a) : z.toNegative.IsReal (-a) := by
  rw [isReal_iff] at h ⊢
  simp only [IntScalar.toNegative]
  omega

theorem IsReal.mul (hz : z.IsReal a) (hw : w.IsReal b) : (z.mul w).IsReal (a * b) := by
  rw [isReal_iff]
  simp only [IntScalar.mul]
  rcases isReal_iff.1 hz with ⟨hturn, rfl⟩ | ⟨hturn, rfl⟩ <;>
    rcases isReal_iff.1 hw with ⟨hturn', rfl⟩ | ⟨hturn', rfl⟩
  · exact .inl ⟨by omega, rfl⟩
  · exact .inr ⟨by omega, by rw [Int.mul_neg]⟩
  · exact .inr ⟨by omega, by rw [Int.neg_mul]⟩
  · exact .inl ⟨by omega, by rw [Int.neg_mul_neg]⟩

theorem IsReal.div (hz : z.IsReal a) (hw : w.IsReal b) (hb : b ≠ 0) :
    ∃ q, z.div w = .ok q ∧ q.IsReal (a.tdiv b) := by
  have hlength : w.length ≠ 0 := fun h => hb (hw.length_eq_zero_iff.1 h)
  refine ⟨⟨z.length.tdiv w.length, z.degrees - w.degrees⟩, ?_, ?_⟩
  · rw [IntScalar.div, if_neg hlength, quotient_of_ne hlength]
    rfl
  rw [isReal_iff]
  rcases isReal_iff.1 hz with ⟨hturn, rfl⟩ | ⟨hturn, rfl⟩ <;>
    rcases isReal_iff.1 hw with ⟨hturn', rfl⟩ | ⟨hturn', rfl⟩
  · exact .inl ⟨by simp only; omega, rfl⟩
  · exact .inr ⟨by simp only; omega, by rw [Int.tdiv_neg]⟩
  · exact .inr ⟨by simp only; omega, by rw [Int.neg_tdiv]⟩
  · exact .inl ⟨by simp only; omega, by rw [Int.neg_tdiv, Int.tdiv_neg, Int.neg_neg]⟩

theorem IsReal.div_zero (hw : w.IsReal 0) : z.div w = refuse .divisionByZero :=
  if_pos (hw.length_eq_zero_iff.2 rfl)

/-! ## Sums through cartesian form -/

theorem floorSqrt_mul_self (n : Nat) : floorSqrt (n * n) = n := by
  have hlow := floorSqrt_le (n * n)
  have hhigh := lt_succ_floorSqrt (n * n)
  have hle : floorSqrt (n * n) ≤ n := Nat.mul_self_le_mul_self_iff.1 hlow
  have hlt : n < floorSqrt (n * n) + 1 := Nat.mul_self_lt_mul_self_iff.1 hhigh
  omega

/-- A lateral part of zero gives the arctangent of a zero, of either sign. -/
theorem ratio_zero {n : Int} (hn : n ≠ 0) :
    ratio 0 n = .ok (if n < 0 then -Double.zero else Double.zero) := by
  have hunits : Double.nearestUnits (0 <<< Double.unitBits) n.natAbs = 0 := by
    simp [Double.nearestUnits, roundDiv]
  have hround : Double.ofRatio (decide ((0 : Int) < 0) ^^ decide (n < 0)) (Int.natAbs 0) n.natAbs =
      .finite (decide (n < 0)) 0 Double.fits_zero := by
    rw [Double.ofRatio, Double.round, Int.natAbs_zero, hunits, Double.ofUnits,
      dif_pos Double.fits_zero]
    simp
  rw [ratio, if_neg hn, hround]
  by_cases hnegative : n < 0
  · simp [hnegative, Double.isFinite, Double.zero]
  · simp [hnegative, Double.isFinite, Double.zero]

/-- A quotient of zero, of either sign, is at no angle or, with half a turn added, at 180
degrees. -/
theorem asInteger_degrees_of_isZero {x : Double} (h : x.isZero = true) :
    asInteger x.atan.toDegrees = .ok 0 ∧
      asInteger (x.atan + Double.halfTurn).toDegrees = .ok 180 := by
  refine ⟨asInteger_of_isZero (Double.angleLaws.isZero_degrees h), ?_⟩
  rw [Double.angleLaws.arctangent_add_halfTurn h, asInteger, Double.toDegrees,
    Double.angleLaws.nearestInt?_degrees]
  rfl

theorem angleDegrees_real (n : Int) :
    angleDegrees ⟨n, 0⟩ = .ok (if 0 < n then 0 else 180) := by
  have hright := (asInteger_degrees_of_isZero (x := .zero) rfl).1
  have hleft := (asInteger_degrees_of_isZero (x := -.zero) rfl).2
  unfold angleDegrees
  by_cases hzero : n = 0
  · simp [hzero]
  · rw [if_neg hzero, ratio_zero hzero]
    by_cases hpositive : 0 < n
    · have hnegative : ¬ n < 0 := by omega
      simp [bind, Except.bind, hpositive, hnegative, hright]
    · have hnegative : n < 0 := by omega
      simp [bind, Except.bind, hpositive, hnegative, hleft]

theorem ofCartesian_real (n : Int) : ∃ z, ofCartesian ⟨n, 0⟩ = .ok z ∧ z.IsReal n := by
  have hsquare : (n * n + 0 * 0).toNat = n.natAbs * n.natAbs := by
    rw [Int.mul_zero, Int.add_zero, ← Int.natAbs_mul_self, Int.toNat_natCast]
  refine ⟨⟨n.natAbs, if 0 < n then 0 else 180⟩, ?_, ?_⟩
  · simp only [ofCartesian, hsquare, floorSqrt_mul_self, angleDegrees_real]
    rfl
  · rw [isReal_iff]
    split
    · exact .inl ⟨rfl, by simp only; omega⟩
    · exact .inr ⟨rfl, by simp only; omega⟩

theorem IsReal.add (hz : z.IsReal a) (hw : w.IsReal b) :
    ∃ s, z.add w = .ok s ∧ s.IsReal (a + b) := by
  obtain ⟨s, hs, hsum⟩ := ofCartesian_real (a + b)
  refine ⟨s, ?_, hsum⟩
  rw [IntScalar.add, hz.2, hw.2]
  exact hs

theorem IsReal.sub (hz : z.IsReal a) (hw : w.IsReal b) :
    ∃ s, z.sub w = .ok s ∧ s.IsReal (a - b) := by
  obtain ⟨s, hs, hdifference⟩ := ofCartesian_real (a - b)
  refine ⟨s, ?_, hdifference⟩
  rw [IntScalar.sub, hz.2, hw.2]
  exact hs

/-! ## Remainders, magnitudes and signs -/

theorem IsReal.mod (hz : z.IsReal a) (hw : w.IsReal b) (hb : b ≠ 0) :
    ∃ r, z.mod w = .ok r ∧ r.IsReal (a.fmod b) := by
  refine ⟨⟨a.fmod b, 0⟩, ?_, isReal_ofInt _⟩
  rw [IntScalar.mod, hw.2, hz.2]
  simp only [bind, Except.bind, if_neg hb, remainder_of_ne hb]
  rfl

theorem IsReal.mod_zero (hw : w.IsReal 0) : z.mod w = refuse .moduloByZero := by
  rw [IntScalar.mod, hw.2]
  rfl

/-! ## Comparisons -/

theorem IsReal.compare (hz : z.IsReal a) (hw : w.IsReal b) (c : Comparison) :
    c.operation.onIntegers z w =
      .ok ⟨if c.holdsForIntegers ⟨a, 0⟩ ⟨b, 0⟩ then -1 else 0, 0⟩ := by
  simp only [Comparison.operation, hz.2, hw.2]
  rfl

end PolarCalc.IntScalar
