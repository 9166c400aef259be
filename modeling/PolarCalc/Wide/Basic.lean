import PolarCalc.Double.Basic
import PolarCalc.Wide.Series
/-!
# Wide numbers

Intermediate results of the elementary functions: `mantissa · 2 ^ exponent` with
some 400 bits of mantissa and no bound on the exponent.  Nothing overflows and
nothing is lost that a double could show, so a function of doubles is rounded
once, at its end.
-/

namespace PolarCalc

/-- The number `mantissa · 2 ^ exponent`. -/
structure Wide where
  mantissa : Int
  exponent : Int

namespace Wide

/-- The bits that a mantissa is cut to. -/
def keptBits : Nat := 400

/-- Cut the mantissa to the bits kept, toward zero. -/
def trim (x : Wide) : Wide :=
  let excess := x.mantissa.natAbs.log2 - keptBits
  if excess = 0 then x
  else ⟨x.mantissa.tdiv (1 <<< excess), x.exponent + excess⟩

def zero : Wide := ⟨0, 0⟩

def ofInt (n : Int) : Wide := ⟨n, 0⟩

/-- The fixed-point number `n` with `p` fractional bits. -/
def ofFixed (p : Nat) (n : Int) : Wide := trim ⟨n, -(p : Int)⟩

/-- The number in fixed point with `p` fractional bits, cut toward zero. -/
def toFixed (p : Nat) (x : Wide) : Int :=
  let shift : Int := x.exponent + p
  if 0 ≤ shift then x.mantissa <<< shift.toNat
  else x.mantissa.tdiv (1 <<< (-shift).toNat)

/-- The exact number that a finite double is; zero for the others. -/
def ofDouble : Double → Wide
  | .finite negative units _ =>
      let shift := units.log2 - 52
      ⟨signed negative (units >>> shift), (shift : Int) - Double.unitBits⟩
  | _ => zero

/-- The nearest double; zero is positive. -/
def toDouble (x : Wide) : Double :=
  Double.ofScaled (decide (x.mantissa < 0)) x.mantissa.natAbs x.exponent

/-- The exponent of the leading bit. -/
def magnitude (x : Wide) : Int := x.exponent + x.mantissa.natAbs.log2

def isZero (x : Wide) : Bool := x.mantissa == 0

def isNegative (x : Wide) : Bool := decide (x.mantissa < 0)

def neg (x : Wide) : Wide := ⟨-x.mantissa, x.exponent⟩

def abs (x : Wide) : Wide := ⟨x.mantissa.natAbs, x.exponent⟩

/-- The number times a power of two. -/
def scale (x : Wide) (power : Int) : Wide := ⟨x.mantissa, x.exponent + power⟩

def mul (x y : Wide) : Wide :=
  trim ⟨x.mantissa * y.mantissa, x.exponent + y.exponent⟩

/-- The sum; a term below the last bit kept of the other is dropped. -/
def add (x y : Wide) : Wide :=
  let upper := if x.exponent < y.exponent then y else x
  let lower := if x.exponent < y.exponent then x else y
  let gap := (upper.exponent - lower.exponent).toNat
  if upper.isZero then lower
  else if 4 * keptBits < gap then upper
  else trim ⟨upper.mantissa <<< gap + lower.mantissa, lower.exponent⟩

def sub (x y : Wide) : Wide := add x (neg y)

/-- The quotient by a number that is not zero. -/
def div (x y : Wide) : Wide :=
  let shift := keptBits + y.mantissa.natAbs.log2
  trim ⟨(x.mantissa <<< shift).tdiv y.mantissa, x.exponent - y.exponent - shift⟩

/-- The square root of a number that is not negative. -/
def sqrt (x : Wide) : Wide :=
  let shift := 2 * keptBits + (x.exponent % 2).toNat
  trim ⟨floorSqrt (x.mantissa.toNat <<< shift), (x.exponent - shift) / 2⟩

instance : Neg Wide := ⟨neg⟩
instance : Add Wide := ⟨add⟩
instance : Sub Wide := ⟨sub⟩
instance : Mul Wide := ⟨mul⟩
instance : Div Wide := ⟨div⟩

/-- Is the first number below the second? -/
def lt (x y : Wide) : Bool := (x - y).isNegative

end Wide

end PolarCalc
