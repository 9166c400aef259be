import PolarCalc.Number.Rounding
/-!
# Power series in fixed point

A real number `x` is held as the integer nearest below `x · 2 ^ p` for a chosen
number `p` of fractional bits.  Each series is summed from its last term inward,
so one product and one short division are made per term.  The counts of terms
leave the cut-off error below the last bit for the ranges named with each
series.
-/

namespace PolarCalc.Series

/-- One, with `p` fractional bits. -/
def one (p : Nat) : Int := 1 <<< p

/-- The product of two fixed-point numbers. -/
def mul (p : Nat) (x y : Int) : Int := (x * y) >>> p

/-- `1 + t / d 1 · (1 + t / d 2 · (1 + …))`, cut off after `terms` terms, where
`d k` is the divisor of the step from term `k - 1` to term `k`. -/
def nested (p : Nat) (t : Int) (d : Nat → Nat) (terms : Nat) : Int :=
  (List.range terms).foldr (fun k inner => one p + mul p t inner / (d (k + 1) : Int)) (one p)

/-- The exponential function for arguments up to one half. -/
def exp (p : Nat) (x : Int) : Int :=
  nested p x id (p / 4 + 8)

/-- `x + s x³ / 3! + s² x⁵ / 5! + …` for arguments up to one: the sine for
`s = -1` and the hyperbolic sine for `s = 1`. -/
def sine (p : Nat) (s x : Int) : Int :=
  mul p x (nested p (s * mul p x x) (fun k => (2 * k) * (2 * k + 1)) (p / 8 + 8))

/-- The cosine for arguments up to one. -/
def cosine (p : Nat) (x : Int) : Int :=
  nested p (-mul p x x) (fun k => (2 * k - 1) * (2 * k)) (p / 8 + 8)

/-- `x + s x³ / 3 + s² x⁵ / 5 + …` for arguments up to one third, so that each
term is at most a ninth of the one before: the arctangent for `s = -1` and the
inverse hyperbolic tangent for `s = 1`. -/
def arctangent (p : Nat) (s x : Int) : Int :=
  let t := s * mul p x x
  mul p x ((List.range (p / 3 + 4)).foldr
    (fun k inner => one p / ((2 * k + 1 : Nat) : Int) + mul p t inner) 0)

/-- The fractional bits that the constants are kept to. -/
def constantBits : Nat := 1792

/-- Half a turn, `16 atan (1/5) - 4 atan (1/239)`. -/
def halfTurnConstant : Int :=
  16 * arctangent constantBits (-1) (one constantBits / 5)
    - 4 * arctangent constantBits (-1) (one constantBits / 239)

/-- The natural logarithm of two, `2 artanh (1/3)`. -/
def logTwoConstant : Int :=
  2 * arctangent constantBits 1 (one constantBits / 3)

/-- Half a turn with `p` fractional bits, `p` well below `constantBits`. -/
def halfTurn (p : Nat) : Int := halfTurnConstant >>> (constantBits - p)

/-- The logarithm of two with `p` fractional bits. -/
def logTwo (p : Nat) : Int := logTwoConstant >>> (constantBits - p)

/-- The arctangent of a number between zero and one: two halvings of the angle
bring the argument below one quarter. -/
def arctangentUnit (p : Nat) (x : Int) : Int :=
  4 * arctangent p (-1) (halve (halve x))
where
  /-- `x / (1 + √(1 + x²))`, the tangent of half the angle. -/
  halve (x : Int) : Int :=
    (x <<< p) / (one p + floorSqrt ((one p * one p + x * x).toNat))

/-- The natural logarithm of a number between `√½` and `√2`. -/
def logUnit (p : Nat) (x : Int) : Int :=
  2 * arctangent p 1 (((x - one p) <<< p) / (x + one p))

end PolarCalc.Series
