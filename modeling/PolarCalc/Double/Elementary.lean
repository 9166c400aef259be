import PolarCalc.Double.Arithmetic
import PolarCalc.Wide.Elementary
/-!
# Elementary functions of doubles

Each function is computed far beyond double precision and rounded once.  The
arguments that have an exact result, the infinities and not-a-number are decided
first.  Proofs about scalars do not look into these definitions: what they rely on
is listed as `AngleLaws`.
-/

namespace PolarCalc.Double

/-- Half a turn: `π`. -/
def halfTurn : Double := Wide.halfTurn.toDouble

/-- A quarter of a turn. -/
def quarterTurn : Double := (Wide.halfTurn.scale (-1)).toDouble

/-- The base of the natural logarithm. -/
def euler : Double := (Wide.exp (Wide.ofInt 1)).toDouble

/-- The number with the other sign if asked. -/
def withSign (negative : Bool) (x : Double) : Double := if negative then -x else x

/-- The sine; a zero is its own. -/
def sin (x : Double) : Double :=
  if !x.isFinite then .nan
  else if x.isZero then x
  else (Wide.sinCos (.ofDouble x)).1.toDouble

def cos (x : Double) : Double :=
  if !x.isFinite then .nan
  else if x.isZero then one
  else (Wide.sinCos (.ofDouble x)).2.toDouble

/-- The exponential function. -/
def exp (x : Double) : Double :=
  match x with
  | .nan => .nan
  | .infinite negative => if negative then zero else .infinite false
  | .finite _ _ _ => (Wide.exp (.ofDouble x)).toDouble

/-- The natural logarithm: minus infinity at zero, undefined below. -/
def log (x : Double) : Double :=
  match x with
  | .nan => .nan
  | .infinite negative => if negative then .nan else .infinite false
  | .finite negative units _ =>
      if units = 0 then .infinite true
      else if negative then .nan
      else (Wide.log (.ofDouble x)).toDouble

/-- The arctangent; a zero is its own. -/
def atan (x : Double) : Double :=
  match x with
  | .nan => .nan
  | .infinite negative => withSign negative quarterTurn
  | .finite _ units _ =>
      if units = 0 then x else (Wide.atan2 (.ofDouble x) (.ofInt 1)).toDouble

/-- The angle of the point `(x, y)`, with the sign of `y`; the sign of a zero
`x` tells the half-plane. -/
def atan2 (y x : Double) : Double :=
  match y, x with
  | .nan, _ => .nan
  | _, .nan => .nan
  | .infinite s, .infinite t =>
      withSign s ((Wide.halfTurn.scale (-2)) * (.ofInt (if t then 3 else 1))).toDouble
  | .infinite s, .finite _ _ _ => withSign s quarterTurn
  | .finite s _ _, .infinite t => withSign s (if t then halfTurn else zero)
  | .finite s u _, .finite t _ _ =>
      if u = 0 then withSign s (if t then halfTurn else zero)
      else withSign s (Wide.atan2 (Wide.ofDouble y.abs) (Wide.ofDouble x)).toDouble

/-- The radians in one degree. -/
def radiansPerDegree : Double := halfTurn / ofInt 180

/-- The degrees in one radian. -/
def degreesPerRadian : Double := ofInt 180 / halfTurn

def toRadians (degrees : Double) : Double := degrees * radiansPerDegree

def toDegrees (radians : Double) : Double := radians * degreesPerRadian

end PolarCalc.Double
