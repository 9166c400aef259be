import PolarCalc.Cartesian
import PolarCalc.Decimal.Basic
import PolarCalc.Double.Elementary
import PolarCalc.Failure
/-!
# Scalars of the float kind

A complex number by its length and its angle in radians, both doubles.  Sums and
differences go through cartesian form; products and quotients stay polar; a
power is `e ^ (w · ln z)` with `ln z = ln |z| + j angle z`.
-/

namespace PolarCalc

/-- A complex number of the float kind.  The length may be negative. -/
structure FloatScalar where
  length : Double
  angle : Double
  deriving DecidableEq

/-- The quotient of two doubles, which takes the proof that there is one. -/
def Double.quotient (x y : Double) (_ : ¬ y.isZero = true) : Double := x / y

/-- The angle of the point `(real, lateral)` by the one-argument arctangent of
their quotient, half a turn off when the real part is negative.  A real part of
zero is given half a turn. -/
def polarAngle (real lateral : Double) : Double :=
  if hzero : real.isZero = true then Double.halfTurn
  else
    let angle := (lateral.quotient real hzero).atan
    if Double.lt .zero real then angle else angle + Double.halfTurn

namespace FloatScalar

/-- The scalar an operation yields for a cartesian pair. -/
def ofCartesian (z : Cartesian Double) : FloatScalar :=
  ⟨(z.real * z.real + z.lateral * z.lateral).sqrt, polarAngle z.real z.lateral⟩

/-- The scalar with the given parts by the two-argument arctangent. -/
def ofComponents (z : Cartesian Double) : FloatScalar :=
  ⟨z.real.hypot z.lateral, z.lateral.atan2 z.real⟩

/-- A scalar from its parts: a real number keeps its sign in the length. -/
def ofParts (z : Cartesian Double) : FloatScalar :=
  if z.lateral.isZero then ⟨z.real, .zero⟩ else ofComponents z

/-- A length times a factor; a factor of exactly zero wins over any length. -/
def project (length factor : Double) : Double :=
  if factor.isZero then .zero else length * factor

/-- The cartesian parts. -/
def toCartesian (z : FloatScalar) : Cartesian Double :=
  ⟨project z.length z.angle.cos, project z.length z.angle.sin⟩

/-- What is taken for round-off in a part: a 10⁻¹² share of the length, or of
one if that is more. -/
def tolerance : Double := (⟨false, 1, -12⟩ : Decimal).toDouble

/-- A part, zero if it is below the limit. -/
def snap (limit part : Double) : Double :=
  if Double.lt part.abs limit then .zero else part

/-- The cartesian parts with round-off snapped to zero. -/
def cleanCartesian (z : FloatScalar) : Cartesian Double :=
  let exact := z.toCartesian
  let limit := tolerance * Double.max .one z.length.abs
  ⟨snap limit exact.real, snap limit exact.lateral⟩

/-- The same number with a length that is not negative. -/
def normalized (z : FloatScalar) : FloatScalar :=
  if Double.lt z.length .zero then ⟨-z.length, z.angle + Double.halfTurn⟩ else z

def add (z w : FloatScalar) : FloatScalar := ofCartesian (z.toCartesian + w.toCartesian)

def sub (z w : FloatScalar) : FloatScalar := ofCartesian (z.toCartesian - w.toCartesian)

def mul (z w : FloatScalar) : FloatScalar := ⟨z.length * w.length, z.angle + w.angle⟩

/-- The quotient; a divisor of length zero is refused. -/
def div (z w : FloatScalar) : Outcome FloatScalar :=
  if hzero : w.length.isZero = true then refuse .divisionByZero
  else .ok ⟨z.length.quotient w.length hzero, z.angle - w.angle⟩

/-- The power.  Zero to the zero is one, zero to an exponent with a negative
real part is refused, and any other power of zero is zero. -/
def pow (z w : FloatScalar) : Outcome FloatScalar :=
  let base := z.normalized
  if base.length.isZero then
    if w.length.isZero then .ok ⟨.one, .zero⟩
    else if Double.lt w.toCartesian.real .zero then refuse .divisionByZero
    else .ok ⟨.zero, .zero⟩
  else
    let ln := base.length.log
    let exponent := w.toCartesian
    let real := exponent.real * ln - exponent.lateral * base.angle
    let lateral := exponent.real * base.angle + exponent.lateral * ln
    .ok ⟨real.exp, lateral⟩

/-- Multiplied by the imaginary unit. -/
def toLateral (z : FloatScalar) : FloatScalar := ⟨z.length, z.angle + Double.quarterTurn⟩

/-- Multiplied by minus one: the length changes its sign and the angle stays. -/
def toNegative (z : FloatScalar) : FloatScalar := ⟨-z.length, z.angle⟩

end FloatScalar

end PolarCalc
