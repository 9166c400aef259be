import PolarCalc.Wide.Basic
/-!
# Elementary functions of wide numbers

Exponential, logarithm, sine, cosine and arctangent.  Each argument is reduced
with as many bits of `π` or `log 2` as its magnitude takes away, a series gives
the reduced value, and the reduction is undone.
-/

namespace PolarCalc.Wide

/-- The fractional bits of the series for arguments of ordinary size. -/
def seriesBits : Nat := 384

/-- Half a turn. -/
def halfTurn : Wide := ofFixed seriesBits (Series.halfTurn seriesBits)

/-- Sine and cosine.  The argument less the nearest multiple of a quarter turn
is at most half of one; the multiple tells which series is which function. -/
def sinCos (x : Wide) : Wide × Wide :=
  if x.isZero then (zero, ofInt 1)
  else
    let p := seriesBits + (-x.magnitude).toNat
    let guard := (x.magnitude + 1).toNat
    let arg := toFixed (p + guard) x.abs
    let halfTurn := Series.halfTurn (p + guard)
    let quarters := (4 * arg + halfTurn) / (2 * halfTurn)
    let reduced := ((2 * arg - quarters * halfTurn) >>> guard) / 2
    let s := ofFixed p (Series.sine p (-1) reduced)
    let c := ofFixed p (Series.cosine p reduced)
    let (s, c) :=
      if quarters % 4 = 0 then (s, c)
      else if quarters % 4 = 1 then (c, -s)
      else if quarters % 4 = 2 then (-s, -c)
      else (-c, s)
    (if x.isNegative then -s else s, c)

/-- The exponential function.  Arguments beyond a million are taken for a
million: the result is far out of the range of doubles either way. -/
def exp (x : Wide) : Wide :=
  if 20 < x.magnitude && !x.isZero then
    ⟨1, if x.isNegative then -(1 <<< 20) else 1 <<< 20⟩
  else
    let p := seriesBits + 24
    let arg := toFixed p x
    let logTwo := Series.logTwo p
    let power := (2 * arg + logTwo) / (2 * logTwo)
    (ofFixed p (Series.exp p (arg - power * logTwo))).scale power

/-- The hyperbolic sine, by its series near zero. -/
def sinh (x : Wide) : Wide :=
  if x.isZero then zero
  else if x.magnitude < -2 then
    let p := seriesBits + (-x.magnitude).toNat
    ofFixed p (Series.sine p 1 (toFixed p x))
  else (exp x - exp (-x)).scale (-1)

def cosh (x : Wide) : Wide := (exp x + exp (-x)).scale (-1)

/-- The natural logarithm of a positive number. -/
def log (x : Wide) : Wide :=
  let p := seriesBits + 64
  let lead := x.magnitude
  let unit := toFixed p (x.scale (-lead))
  let high := decide (2 * (Series.one p * Series.one p) < unit * unit)
  let unit := if high then unit >>> (1 : Nat) else unit
  let lead := if high then lead + 1 else lead
  ofFixed p (Series.logUnit p unit) + ofInt lead * ofFixed p (Series.logTwo p)

/-- The natural logarithm of `1 + x` for `x` above minus one, as precise for
small `x` as for large. -/
def logOnePlus (x : Wide) : Wide :=
  if x.isZero then zero
  else if x.magnitude < -8 then
    let ratio := x / (ofInt 2 + x)
    let p := seriesBits + (-ratio.magnitude).toNat
    (ofFixed p (Series.arctangent p 1 (toFixed p ratio))).scale 1
  else log (ofInt 1 + x)

/-- The angle of the point `(x, y)`, between minus and plus half a turn; zero
for the origin. -/
def atan2 (y x : Wide) : Wide :=
  if y.isZero then (if x.isNegative then halfTurn else zero)
  else
    let steep := lt x.abs y.abs
    let small := if steep then x.abs else y.abs
    let large := if steep then y.abs else x.abs
    let p := seriesBits + min 1300 (large.magnitude - small.magnitude).toNat
    let halfTurn := Series.halfTurn p
    let angle := Series.arctangentUnit p (toFixed p (small / large))
    let angle := if steep then halfTurn / 2 - angle else angle
    let angle := if x.isNegative then halfTurn - angle else angle
    ofFixed p (if y.isNegative then -angle else angle)

end PolarCalc.Wide
