import PolarCalc.Scalar.Float
/-!
# Scalars of the integer kind

A complex number by its length and its angle in degrees, both integers of any
size.  On the four axes all arithmetic is exact; elsewhere the cartesian parts
are rounded to integers.
-/

namespace PolarCalc

/-- A complex number of the integer kind.  The length may be negative. -/
structure IntScalar where
  length : Int
  degrees : Int
  deriving DecidableEq, Repr

namespace IntScalar

/-- An integer as a double, unless it is out of range. -/
def asDouble (n : Int) : Outcome Double := orFail .overflow (Double.ofInt? n)

/-- An angle in degrees as radians; angles beyond 64 bits are refused. -/
def asRadians (degrees : Int) : Outcome Double :=
  if -Int.pow 2 63 ≤ degrees ∧ degrees < Int.pow 2 63 then .ok (Double.ofInt degrees).toRadians
  else .error .overflow

/-- The nearest integer to a double, unless that is infinite. -/
def asInteger (x : Double) : Outcome Int := orFail .overflow x.nearestInt?

/-- The quotient of two integers, cut off toward zero.  There is none by zero. -/
def quotient (a b : Int) : Outcome Int := if b = 0 then .error .crash else .ok (a.tdiv b)

/-- The floored remainder of two integers.  There is none by zero. -/
def remainder (a b : Int) : Outcome Int := if b = 0 then .error .crash else .ok (a.fmod b)

/-- The quotient of two integers as the nearest double, unless it is out of
range.  There is none by zero. -/
def ratio (num den : Int) : Outcome Double :=
  if den = 0 then .error .crash
  else
    let x := Double.ofRatio (decide (num < 0) ^^ decide (den < 0)) num.natAbs den.natAbs
    if x.isFinite then .ok x else .error .overflow

/-- The angle in whole degrees of the point `(real, lateral)`. -/
def angleDegrees (z : Cartesian Int) : Outcome Int :=
  if z.real = 0 then .ok 180
  else do
    let angle := (← ratio z.lateral z.real).atan
    asInteger (if 0 < z.real then angle else angle + Double.halfTurn).toDegrees

theorem quotient_of_ne {a b : Int} (h : b ≠ 0) : quotient a b = .ok (a.tdiv b) := if_neg h

theorem remainder_of_ne {a b : Int} (h : b ≠ 0) : remainder a b = .ok (a.fmod b) := if_neg h

/-- The scalar that an operation yields for a cartesian pair: the length is the
integral part of the root. -/
def ofCartesian (z : Cartesian Int) : Outcome IntScalar := do
  let length := floorSqrt (z.real * z.real + z.lateral * z.lateral).toNat
  return ⟨length, ← angleDegrees z⟩

/-- The cartesian parts, exact on the axes and rounded elsewhere. -/
def toCartesian (z : IntScalar) : Outcome (Cartesian Int) :=
  let turn := z.degrees % 360
  if turn = 0 then .ok ⟨z.length, 0⟩
  else if turn = 90 then .ok ⟨0, z.length⟩
  else if turn = 180 then .ok ⟨-z.length, 0⟩
  else if turn = 270 then .ok ⟨0, -z.length⟩
  else do
    let radians ← asRadians z.degrees
    let length ← asDouble z.length
    return ⟨← asInteger (length * radians.cos), ← asInteger (length * radians.sin)⟩

/-- The same number in the float kind. -/
def toFloat (z : IntScalar) : Outcome FloatScalar :=
  return ⟨← asDouble z.length, ← asRadians z.degrees⟩

/-- The nearest length and degrees to a scalar of the float kind. -/
def ofFloat (z : FloatScalar) : Outcome IntScalar :=
  if z.length.isFinite && z.angle.isFinite then
    return ⟨← asInteger z.length, ← asInteger z.angle.toDegrees⟩
  else refuse .notFinite

def add (z w : IntScalar) : Outcome IntScalar :=
  do ofCartesian ((← z.toCartesian) + (← w.toCartesian))

def sub (z w : IntScalar) : Outcome IntScalar :=
  do ofCartesian ((← z.toCartesian) - (← w.toCartesian))

def mul (z w : IntScalar) : IntScalar := ⟨z.length * w.length, z.degrees + w.degrees⟩

/-- The quotient, its length cut off toward zero; a divisor of length zero is
refused. -/
def div (z w : IntScalar) : Outcome IntScalar :=
  if w.length = 0 then refuse .divisionByZero
  else return ⟨← quotient z.length w.length, z.degrees - w.degrees⟩

/-- The power, taken in the float kind and rounded. -/
def pow (z w : IntScalar) : Outcome IntScalar := do
  ofFloat (← (← z.toFloat).pow (← w.toFloat))

/-- Multiplied by the imaginary unit. -/
def toLateral (z : IntScalar) : IntScalar := ⟨z.length, z.degrees + 90⟩

/-- Multiplied by minus one: the length changes its sign and the angle stays. -/
def toNegative (z : IntScalar) : IntScalar := ⟨-z.length, z.degrees⟩

example : toCartesian ⟨3, 90⟩ = .ok ⟨0, 3⟩ := by decide +kernel

example : add ⟨3, 0⟩ ⟨4, 90⟩ = .ok ⟨5, 53⟩ := by decide +kernel

example : pow ⟨2, 0⟩ ⟨10, 0⟩ = .ok ⟨1024, 0⟩ := by decide +kernel

end IntScalar

end PolarCalc
