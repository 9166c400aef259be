import PolarCalc.Cartesian
import PolarCalc.Double.Elementary
/-!
# Elementary functions of complex numbers

The circular functions, their inverses and the logarithm on pairs of doubles.  An
argument on a branch cut belongs to the side that the sign of its zero part
names.  Each part is computed in wide numbers and rounded once.
-/

namespace PolarCalc.Double.Complex

/-- A complex double. -/
abbrev Pair := Cartesian Double

/-- Neither part is a number. -/
def undefined : Pair := ⟨.nan, .nan⟩

/-- The two parts rounded, the lateral one negated if asked. -/
def rounded (real lateral : Wide) (negative : Bool) : Pair :=
  ⟨real.toDouble, withSign negative lateral.toDouble⟩

/-- Are both parts finite? -/
def isFinite (z : Pair) : Bool := z.real.isFinite && z.lateral.isFinite

/-- Are both parts infinite? -/
def isInfinite (z : Pair) : Bool :=
  match z.real, z.lateral with
  | .infinite _, .infinite _ => true
  | _, _ => false

/-- `sin x cosh y + j cos x sinh y`. -/
def sin (z : Pair) : Pair :=
  if isInfinite z then ⟨.nan, z.lateral⟩
  else if !isFinite z then undefined
  else
    let (s, c) := Wide.sinCos (.ofDouble z.real)
    let y := Wide.ofDouble z.lateral
    rounded (s * y.cosh) (c * y.sinh) false

/-- `cos x cosh y - j sin x sinh y`. -/
def cos (z : Pair) : Pair :=
  if isInfinite z then ⟨.infinite false, .nan⟩
  else if !isFinite z then undefined
  else
    let (s, c) := Wide.sinCos (.ofDouble z.real)
    let y := Wide.ofDouble z.lateral
    rounded (c * y.cosh) (s * y.sinh) true

/-- `(sin 2x + j sinh 2y) / (cos 2x + cosh 2y)`. -/
def tan (z : Pair) : Pair :=
  if isInfinite z then ⟨zero, withSign z.lateral.isNegative one⟩
  else if !isFinite z then undefined
  else
    let (s, c) := Wide.sinCos ((Wide.ofDouble z.real).scale 1)
    let y := (Wide.ofDouble z.lateral).scale 1
    let divisor := c + y.cosh
    rounded (s / divisor) (y.sinh / divisor) false

/-- What the inverse sine and cosine are made of: the half sum `a` of the
distances from `1` and `-1`, as its area cosine `log (a + √(a² - 1))`, and
`b = x / a` with `√(1 - b²)`. -/
def confocal (z : Pair) : Wide × Wide × Wide :=
  let x := Wide.ofDouble z.real
  let y := Wide.ofDouble z.lateral
  let one := Wide.ofInt 1
  let distance (d : Wide) : Wide := (d * d + y * y).sqrt
  let a := (distance (x + one) + distance (x - one)).scale (-1)
  let b := x / a
  ((a + (a * a - one).sqrt).log, b, (one - b * b).sqrt)

/-- The inverse sine. -/
def asin (z : Pair) : Pair :=
  if isFinite z then
    let (area, b, cob) := confocal z
    rounded (Wide.atan2 b cob) area z.lateral.isNegative
  else if z.real.isNan || z.lateral.isNan then undefined
  else ⟨atan2 z.real z.lateral.abs, withSign z.lateral.isNegative (.infinite false)⟩

/-- The inverse cosine. -/
def acos (z : Pair) : Pair :=
  if isFinite z then
    let (area, b, cob) := confocal z
    rounded (Wide.atan2 cob b) area (!z.lateral.isNegative)
  else if z.real.isNan || z.lateral.isNan then undefined
  else ⟨atan2 z.lateral.abs z.real, withSign (!z.lateral.isNegative) (.infinite false)⟩

/-- The inverse tangent, `½ atan2 (2x) (1 - x² - y²)` with the lateral part
`¼ log (1 + 4y / (x² + (1 - y)²))`, an infinity at `±j`. -/
def atan (z : Pair) : Pair :=
  if isFinite z then
    let x := Wide.ofDouble z.real
    let y := (Wide.ofDouble z.lateral).abs
    let one := Wide.ofInt 1
    let real := (Wide.atan2 (x.scale 1) (one - x * x - y * y)).scale (-1)
    let distance := x * x + (one - y) * (one - y)
    if distance.isZero then
      ⟨real.toDouble, withSign z.lateral.isNegative (.infinite false)⟩
    else rounded real ((y.scale 2 / distance).logOnePlus.scale (-2)) z.lateral.isNegative
  else if z.real.isNan || z.lateral.isNan then undefined
  else ⟨withSign z.real.isNegative quarterTurn, zero⟩

/-- The natural logarithm: the logarithm of the length and the angle. -/
def log (z : Pair) : Pair :=
  if isFinite z then
    let x := Wide.ofDouble z.real
    let y := Wide.ofDouble z.lateral
    let square := x * x + y * y
    if square.isZero then ⟨.infinite true, atan2 z.lateral z.real⟩
    else ⟨(square.log.scale (-1)).toDouble, atan2 z.lateral z.real⟩
  else if z.real.isNan || z.lateral.isNan then undefined
  else ⟨.infinite false, atan2 z.lateral z.real⟩

/-- The logarithm to the base ten. -/
def log10 (z : Pair) : Pair :=
  let ln := log z
  let ten := Double.log (.ofInt 10)
  ⟨ln.real / ten, ln.lateral / ten⟩

end PolarCalc.Double.Complex
