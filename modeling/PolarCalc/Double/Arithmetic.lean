import PolarCalc.Double.Basic
/-!
# Arithmetic of doubles

Sum, difference, product, quotient, square root, hypotenuse and floored
remainder, each the exact result rounded once.  The results that are not
numbers, the infinities and the signs of zero follow IEEE 754.
-/

namespace PolarCalc.Double

/-- The sum; an exact zero is negative only when both terms are. -/
def add : Double → Double → Double
  | .nan, _ => .nan
  | _, .nan => .nan
  | .infinite s, .infinite t => if s = t then .infinite s else .nan
  | .infinite s, .finite _ _ _ => .infinite s
  | .finite _ _ _, .infinite t => .infinite t
  | .finite s u _, .finite t v _ =>
      let total := signed s u + signed t v
      if total = 0 then .finite (s && t) 0 fits_zero
      else round (decide (total < 0)) total.natAbs 1

def sub (x y : Double) : Double := add x (-y)

/-- The product. -/
def mul : Double → Double → Double
  | .nan, _ => .nan
  | _, .nan => .nan
  | .infinite s, .infinite t => .infinite (s ^^ t)
  | .infinite s, .finite t v _ => if v = 0 then .nan else .infinite (s ^^ t)
  | .finite s u _, .infinite t => if u = 0 then .nan else .infinite (s ^^ t)
  | .finite s u _, .finite t v _ => round (s ^^ t) (u * v) oneUnits

/-- The quotient; a number that is not zero gives an infinity over zero. -/
def div : Double → Double → Double
  | .nan, _ => .nan
  | _, .nan => .nan
  | .infinite _, .infinite _ => .nan
  | .infinite s, .finite t _ _ => .infinite (s ^^ t)
  | .finite s _ _, .infinite t => .finite (s ^^ t) 0 fits_zero
  | .finite s u _, .finite t v _ =>
      if v = 0 then (if u = 0 then .nan else .infinite (s ^^ t))
      else round (s ^^ t) (u <<< unitBits) v

instance : Add Double := ⟨add⟩
instance : Sub Double := ⟨sub⟩
instance : Mul Double := ⟨mul⟩
instance : Div Double := ⟨div⟩

/-- The rounded square root of `square · 2 ^ exponent`.  The root is taken to 64
more bits, and one last bit, set when it is not exact, decides the ties. -/
def roundRoot (square : Nat) (exponent : Int) : Double :=
  let odd := (exponent % 2).toNat
  let scaled := square <<< (128 + odd)
  let root := floorSqrt scaled
  let sticky := if root * root = scaled then 0 else 1
  ofScaled false (2 * root + sticky) ((exponent - odd) / 2 - 65)

/-- The square root; that of a zero is the zero itself. -/
def sqrt : Double → Double
  | .nan => .nan
  | .infinite negative => if negative then .nan else .infinite false
  | .finite negative units fits =>
      if units = 0 then .finite negative units fits
      else if negative then .nan
      else
        let shift := units.log2 - 52
        roundRoot (units >>> shift) ((shift : Int) - unitBits)

/-- The length of the hypotenuse, without intermediate overflow. -/
def hypot : Double → Double → Double
  | .infinite _, _ => .infinite false
  | _, .infinite _ => .infinite false
  | .nan, _ => .nan
  | _, .nan => .nan
  | .finite _ u _, .finite _ v _ =>
      if u = 0 then ofUnits false v
      else if v = 0 then ofUnits false u
      else
        let shift := min (u.log2 - 52) (v.log2 - 52)
        let a := u >>> shift
        let b := v >>> shift
        roundRoot (a * a + b * b) (2 * ((shift : Int) - unitBits))

/-- The remainder with the sign of the dividend. -/
def rem : Double → Double → Double
  | .finite s u h, .infinite _ => .finite s u h
  | .finite s u _, .finite _ v _ => if v = 0 then .nan else ofUnits s (u % v)
  | _, _ => .nan

/-- The floored remainder: it takes the sign of the divisor, and a zero
remainder keeps the sign of the dividend. -/
def mod (x y : Double) : Double :=
  let r := rem x y
  if !r.isZero && !r.isNan && (lt r zero ^^ lt y zero) then r + y else r

/-- Are the numbers equal up to `tolerance`, absolutely or relative to either?
Infinities are close only to themselves and not-a-number to nothing. -/
def isClose (tolerance x y : Double) : Bool :=
  if eq x y then true
  else match x, y with
    | .finite _ _ _, .finite _ _ _ =>
        let gap := (y - x).abs
        le gap (tolerance * y).abs || le gap (tolerance * x).abs || le gap tolerance
    | _, _ => false

protected theorem add_comm (x y : Double) : x + y = y + x := by
  show add x y = add y x
  cases x <;> cases y <;> simp [add, Int.add_comm, Bool.and_comm]
  rename_i s t
  cases s <;> cases t <;> rfl

theorem isClose_self {tolerance x : Double} (h : x.isNan = false) :
    isClose tolerance x x = true := by
  cases x <;> simp_all [isClose, eq, compareBy, place?, isNan]

example : ofInt 1 + ofRatio false 1 (2 ^ 53) = ofInt 1 := by decide +kernel

example : (ofInt 2).sqrt * (ofInt 2).sqrt = ofRatio false 4503599627370497 2251799813685248 := by
  decide +kernel

example : mod (ofInt (-7)) (ofInt 3) = ofInt 2 ∧ mod (ofInt 7) (ofInt (-3)) = ofInt (-2) := by
  decide +kernel

example : hypot (ofInt 3) (ofInt (-4)) = ofInt 5 := by decide +kernel

end PolarCalc.Double
