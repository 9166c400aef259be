import PolarCalc.Proofs.Double.Angle
import PolarCalc.Proofs.Integer.Conversion
import PolarCalc.Proofs.Value.Truth
/-!
# Powers of integers

A power of integers is taken in the float kind and rounded back.  Where it has no value,
zero was to be divided by, or the result in the float kind is not finite: both are
refused.  Only an angle that is finite in radians and leaves the range of doubles in
degrees is a fault.
-/

namespace PolarCalc

namespace FloatScalar

/-- Zero is taken to an exponent that is not zero and has a negative real part. -/
def PowerDividesByZero (z w : FloatScalar) : Prop :=
  z.length.isZero = true ∧ w.length.isZero = false ∧ Double.lt w.toCartesian.real .zero = true

/-- The number is finite, but the degrees of its angle are out of range. -/
def LosesDegrees (z : FloatScalar) : Prop :=
  z.IsFinite ∧ Double.rangeLimit ≤ |z.angle.toRat * Double.degreesPerRadian.toRat|

theorem isZero_normalized (z : FloatScalar) : z.normalized.length.isZero = z.length.isZero := by
  unfold normalized
  split
  · exact Double.isZero_neg z.length
  · rfl

theorem pow_cases (z w : FloatScalar) :
    (PowerDividesByZero z w ∧ z.pow w = refuse .divisionByZero) ∨
      (¬ PowerDividesByZero z w ∧ ∃ p, z.pow w = .ok p) := by
  unfold pow PowerDividesByZero
  simp only [isZero_normalized]
  cases z.length.isZero with
  | false => exact .inr ⟨nofun, _, rfl⟩
  | true =>
      cases w.length.isZero with
      | true => exact .inr ⟨nofun, _, rfl⟩
      | false =>
          cases Double.lt w.toCartesian.real .zero with
          | true => exact .inl ⟨⟨rfl, rfl, rfl⟩, rfl⟩
          | false => exact .inr ⟨nofun, _, rfl⟩

end FloatScalar

namespace IntScalar

open FloatScalar (PowerDividesByZero LosesDegrees)

variable {z w : IntScalar} {f g : FloatScalar}

theorem isFinite_toDegrees {x : Double} (h : x.isFinite = true) :
    x.toDegrees.isFinite = true ↔
      |x.toRat * Double.degreesPerRadian.toRat| < Double.rangeLimit :=
  Double.isFinite_mul h Double.angleLaws.isWithin_degreesPerRadian.isFinite

theorem ofFloat_cases (p : FloatScalar) :
    (¬ p.IsFinite ∧ ofFloat p = refuse .notFinite) ∨
      (LosesDegrees p ∧ ofFloat p = .error .overflow) ∨
      (p.IsFinite ∧ ¬ LosesDegrees p ∧ ∃ r, ofFloat p = .ok r) := by
  by_cases hfinite : p.IsFinite
  · right
    obtain ⟨length, hlength⟩ := exists_asInteger hfinite.1
    have hrounded : ofFloat p = (asInteger p.angle.toDegrees).bind fun degrees =>
        .ok ⟨length, degrees⟩ := by
      rw [ofFloat, hfinite.1, hfinite.2, hlength]
      rfl
    rw [hrounded]
    cases hdegrees : p.angle.toDegrees.isFinite with
    | true =>
        obtain ⟨degrees, hinteger⟩ := exists_asInteger hdegrees
        refine .inr ⟨hfinite, fun hloses => ?_, ⟨length, degrees⟩, by rw [hinteger]; rfl⟩
        exact hloses.2.not_gt ((isFinite_toDegrees hfinite.2).1 hdegrees)
    | false =>
        refine .inl ⟨⟨hfinite, ?_⟩, by rw [asInteger_of_not_isFinite hdegrees]; rfl⟩
        rw [← not_lt, ← isFinite_toDegrees hfinite.2, hdegrees]
        exact Bool.false_ne_true
  · left
    refine ⟨hfinite, if_neg fun hboth => hfinite ?_⟩
    rwa [Bool.and_eq_true] at hboth

theorem eq_of_toFloat (h : z.toFloat = .ok f) :
    z.length.natAbs < Double.rangeLimit ∧ f.length = Double.ofInt z.length := by
  obtain ⟨length, hlength, hrest⟩ := Outcome.bind_eq_ok h
  obtain ⟨angle, -, hpair⟩ := Outcome.bind_eq_ok hrest
  obtain rfl : ⟨length, angle⟩ = f := Except.ok.inj hpair
  exact eq_of_asDouble hlength

theorem isZero_of_toFloat (h : z.toFloat = .ok f) : f.length.isZero = true ↔ z.length = 0 := by
  rw [(eq_of_toFloat h).2, isZero_ofInt]

theorem pow_of_toFloat (hz : z.toFloat = .ok f) (hw : w.toFloat = .ok g) :
    z.pow w = (f.pow g).bind ofFloat := by
  rw [pow, hz, hw]
  rfl

/-- A power of two integers that have a place in the float kind is an integer, or it is
refused: for a division by zero if zero is taken to an exponent with a negative real part,
or for its float result, if that is not finite.  It is a fault only where that result is
finite and its angle leaves the range of doubles in degrees. -/
theorem pow_failures (hz : z.toFloat = .ok f) (hw : w.toFloat = .ok g) :
    (z.pow w = refuse .divisionByZero ↔
      z.length = 0 ∧ w.length ≠ 0 ∧ Double.lt g.toCartesian.real .zero = true) ∧
    (z.pow w = refuse .notFinite ↔ ∃ p, f.pow g = .ok p ∧ ¬ p.IsFinite) ∧
    (z.pow w = .error .overflow ↔ ∃ p, f.pow g = .ok p ∧ p.LosesDegrees) ∧
    (z.pow w ≠ .error .overflow →
      (∃ r, z.pow w = .ok r) ∨ z.pow w = refuse .divisionByZero ∨
        z.pow w = refuse .notFinite) := by
  have hzero : PowerDividesByZero f g ↔
      z.length = 0 ∧ w.length ≠ 0 ∧ Double.lt g.toCartesian.real .zero = true := by
    rw [PowerDividesByZero, isZero_of_toFloat hz, ← Bool.not_eq_true, isZero_of_toFloat hw]
  rw [pow_of_toFloat hz hw, ← hzero]
  rcases f.pow_cases g with ⟨hdivides, hpow⟩ | ⟨hdivides, p, hpow⟩
  · rw [hpow]
    exact ⟨⟨fun _ => hdivides, fun _ => rfl⟩, ⟨nofun, fun ⟨_, h, _⟩ => nomatch h⟩,
      ⟨nofun, fun ⟨_, h, _⟩ => nomatch h⟩, fun _ => .inr (.inl rfl)⟩
  have honly (good : FloatScalar → Prop) :
      (∃ q, f.pow g = .ok q ∧ good q) ↔ good p := by
    simp [hpow]
  have hrounded : (f.pow g).bind ofFloat = ofFloat p := by
    rw [hpow]
    rfl
  rw [honly, honly, hrounded]
  rcases ofFloat_cases p with ⟨hfinite, hresult⟩ | ⟨hloses, hresult⟩ | ⟨hfinite, hkeeps, r, hresult⟩
  · rw [hresult]
    exact ⟨iff_of_false nofun hdivides, iff_of_true rfl hfinite,
      iff_of_false nofun fun h => hfinite h.1, fun _ => .inr (.inr rfl)⟩
  · rw [hresult]
    exact ⟨iff_of_false nofun hdivides, iff_of_false nofun fun h => h hloses.1,
      iff_of_true rfl hloses, fun h => absurd rfl h⟩
  · rw [hresult]
    exact ⟨iff_of_false nofun hdivides, iff_of_false nofun fun h => h hfinite,
      iff_of_false nofun hkeeps, fun _ => .inl ⟨r, rfl⟩⟩

/-- Zero at any angle has no power minus two. -/
theorem pow_failures_zero :
    let z : IntScalar := ⟨0, 30⟩
    let w : IntScalar := ⟨-2, 360⟩
    let f : FloatScalar := ⟨.zero, (Double.ofInt 30).toRadians⟩
    let g : FloatScalar := ⟨Double.ofInt (-2), (Double.ofInt 360).toRadians⟩
    z.toFloat = .ok f ∧ w.toFloat = .ok g ∧ z.pow w = refuse .divisionByZero := by
  intro z w f g
  obtain ⟨hz, hw, hnegative⟩ : z.toFloat = .ok f ∧ w.toFloat = .ok g ∧
      Double.lt g.toCartesian.real .zero = true := by decide +kernel
  exact ⟨hz, hw, (pow_failures hz hw).1.2 ⟨rfl, by decide, hnegative⟩⟩

/-- The imaginary unit to the power 10³⁰⁸: the angle is finite in radians only. -/
theorem pow_faults :
    let z : IntScalar := ⟨1, 90⟩
    let w : IntScalar := ⟨10 ^ 308, 0⟩
    (∃ f, z.toFloat = .ok f) ∧ (∃ g, w.toFloat = .ok g) ∧ z.pow w = .error .overflow := by
  intro z w
  obtain ⟨hz, hw, hpow⟩ : z.toFloat = .ok ⟨Double.ofInt 1, (Double.ofInt 90).toRadians⟩ ∧
      w.toFloat = .ok ⟨Double.ofInt (10 ^ 308), (Double.ofInt 0).toRadians⟩ ∧
      z.pow w = .error .overflow := by decide +kernel
  exact ⟨⟨_, hz⟩, ⟨_, hw⟩, hpow⟩

end IntScalar

end PolarCalc
