import PolarCalc.Proofs.Double.Bounded
/-!
# Laws of angles

Scalars are computed with the cosine and the sine of an angle, the arctangent of a
quotient, half a turn and the degrees in one radian.  The laws listed here are all that the
proofs about scalars use of these five, so that what they prove holds of any other way to
compute them that obeys the laws.  Of the exponential function, the logarithm and the
functions of complex numbers they use no law at all.
-/

namespace PolarCalc.Double

/-- What is relied on of a cosine, a sine, an arctangent, half a turn and the degrees in one
radian. -/
structure AngleLaws (cosine sine arctangent : Double → Double)
    (halfTurn degreesPerRadian : Double) : Prop where
  /-- An infinity is no angle, and neither is not-a-number. -/
  cosine_eq_nan {x : Double} (h : x.isFinite = false) : cosine x = .nan
  isFinite_cosine {x : Double} (h : x.isFinite = true) : (cosine x).isFinite = true
  isFinite_sine {x : Double} (h : x.isFinite = true) : (sine x).isFinite = true
  /-- Their squares add up to one, so that not both are rounded to zero. -/
  cosine_ne_zero_or_sine_ne_zero (x : Double) :
    (cosine x).isZero = false ∨ (sine x).isZero = false
  cosine_zero : cosine zero = one
  sine_zero : sine zero = zero
  /-- Either zero is its own arctangent. -/
  arctangent_of_isZero {x : Double} (h : x.isZero = true) : arctangent x = x
  /-- An arctangent is at most a quarter of a turn; sixteen is bound enough. -/
  isWithin_arctangent {x : Double} (h : x.isFinite = true) : (arctangent x).IsWithin 4
  isWithin_halfTurn : halfTurn.IsWithin 4
  isZero_halfTurn : halfTurn.isZero = false
  isWithin_degreesPerRadian : degreesPerRadian.IsWithin 6
  /-- Neither factor is exact. -/
  nearestInt?_degrees : (halfTurn * degreesPerRadian).nearestInt? = some 180

theorem angleLaws : AngleLaws cos sin atan halfTurn degreesPerRadian where
  cosine_eq_nan h := by simp [cos, h]
  isFinite_cosine h := (isWithin_cos h).isFinite
  isFinite_sine h := (isWithin_sin h).isFinite
  cosine_ne_zero_or_sine_ne_zero := cos_ne_zero_or_sin_ne_zero
  cosine_zero := cos_finite_zero
  sine_zero := sin_finite_zero
  arctangent_of_isZero h := by
    obtain ⟨s, rfl⟩ := eq_of_isZero h
    rfl
  isWithin_arctangent := isWithin_atan
  isWithin_halfTurn := by decide +kernel
  isZero_halfTurn := by decide +kernel
  isWithin_degreesPerRadian := by decide +kernel
  nearestInt?_degrees := by decide +kernel

namespace AngleLaws

variable {cosine sine arctangent : Double → Double} {halfTurn degreesPerRadian x : Double}

theorem isFinite_degrees (laws : AngleLaws cosine sine arctangent halfTurn degreesPerRadian)
    (h : x.isFinite = true) :
    (arctangent x * degreesPerRadian).isFinite = true ∧
      ((arctangent x + halfTurn) * degreesPerRadian).isFinite = true := by
  have hangle := laws.isWithin_arctangent h
  have hsum := hangle.add (by norm_num) laws.isWithin_halfTurn
  exact ⟨(hangle.mul (by norm_num) laws.isWithin_degreesPerRadian).isFinite,
    (hsum.mul (by norm_num) laws.isWithin_degreesPerRadian).isFinite⟩

theorem isZero_degrees (laws : AngleLaws cosine sine arctangent halfTurn degreesPerRadian)
    (h : x.isZero = true) : (arctangent x * degreesPerRadian).isZero = true := by
  rw [laws.arctangent_of_isZero h]
  exact isZero_mul h laws.isWithin_degreesPerRadian.isFinite

theorem arctangent_add_halfTurn
    (laws : AngleLaws cosine sine arctangent halfTurn degreesPerRadian) (h : x.isZero = true) :
    arctangent x + halfTurn = halfTurn := by
  rw [laws.arctangent_of_isZero h, Double.add_comm]
  exact add_of_isZero laws.isZero_halfTurn h

end AngleLaws

end PolarCalc.Double
