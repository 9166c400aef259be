import PolarCalc.Number.Rounding
/-!
# Binary floating-point numbers, held exactly

A double is not a number, an infinity, or a signed whole number of units of
2⁻¹⁰⁷⁴.  The units of a finite double have at most 53 significant bits and lie
below 2²⁰⁹⁸, the first power of two out of range.  Every operation computes the
exact result first and rounds it once, to the nearest double and in a tie to
the one with an even last bit.
-/

namespace PolarCalc

namespace Double

/-- The exponent of the unit: one is `2 ^ unitBits` units. -/
def unitBits : Nat := 1074

/-- The number of units in one. -/
def oneUnits : Nat := Nat.pow 2 1074

/-- The first number of units out of range. -/
def limitUnits : Nat := Nat.pow 2 2098

/-- At most 53 significant bits, and in range. -/
def Fits (units : Nat) : Prop :=
  units % Nat.pow 2 (units.log2 - 52) = 0 ∧ units < limitUnits

instance (units : Nat) : Decidable (Fits units) :=
  inferInstanceAs (Decidable (_ ∧ _))

end Double

/-- A double-precision number. -/
inductive Double where
  | nan
  | infinite (negative : Bool)
  | finite (negative : Bool) (units : Nat) (fits : Double.Fits units)
  deriving DecidableEq

/-- An integer from its sign and magnitude. -/
def signed (negative : Bool) (magnitude : Nat) : Int :=
  if negative then -(magnitude : Int) else magnitude

theorem signed_not (negative : Bool) (n : Nat) : signed (!negative) n = -signed negative n := by
  cases negative <;> simp [signed]

namespace Double

/-! ## Rounding -/

/-- The double with the given units, an infinity when they do not fit. -/
def ofUnits (negative : Bool) (units : Nat) : Double :=
  if fits : Fits units then .finite negative units fits else .infinite negative

/-- The nearest whole number of units with 53 significant bits to the quotient
`num / den` units, before the range is looked at. -/
def nearestUnits (num den : Nat) : Nat :=
  let shift := (num / den).log2 - 52
  roundDiv num (den <<< shift) <<< shift

/-- The double nearest to `num / den` units. -/
def round (negative : Bool) (num den : Nat) : Double :=
  ofUnits negative (nearestUnits num den)

/-- The double nearest to the quotient of two natural numbers. -/
def ofRatio (negative : Bool) (num den : Nat) : Double :=
  round negative (num <<< unitBits) den

/-- The double nearest to an integer. -/
def ofInt (n : Int) : Double :=
  ofRatio (decide (n < 0)) n.natAbs 1

/-- The double nearest to `mantissa · 2 ^ exponent`, decided by the magnitude
alone when it is far out of range. -/
def ofScaled (negative : Bool) (mantissa : Nat) (exponent : Int) : Double :=
  let place : Int := exponent + unitBits
  if mantissa = 0 then ofUnits negative 0
  else if 2200 < place + mantissa.log2 then .infinite negative
  else if place + mantissa.log2 < -2 then ofUnits negative 0
  else if 0 ≤ place then round negative (mantissa <<< place.toNat) 1
  else round negative mantissa (1 <<< (-place).toNat)

theorem fits_zero : Fits 0 := by decide +kernel

theorem fits_oneUnits : Fits oneUnits := by decide +kernel

/-- Positive zero. -/
def zero : Double := .finite false 0 fits_zero

/-- One. -/
def one : Double := .finite false oneUnits fits_oneUnits

instance : Inhabited Double := ⟨zero⟩

/-! ## Parts -/

/-- Neither an infinity nor not-a-number. -/
def isFinite : Double → Bool
  | .finite _ _ _ => true
  | _ => false

def isNan : Double → Bool
  | .nan => true
  | _ => false

/-- Positive or negative zero. -/
def isZero : Double → Bool
  | .finite _ units _ => units == 0
  | _ => false

/-- Does the number carry the minus sign?  Zeros have signs too. -/
def isNegative : Double → Bool
  | .nan => false
  | .infinite negative => negative
  | .finite negative _ _ => negative

def neg : Double → Double
  | .nan => .nan
  | .infinite negative => .infinite (!negative)
  | .finite negative units fits => .finite (!negative) units fits

def abs : Double → Double
  | .nan => .nan
  | .infinite _ => .infinite false
  | .finite _ units fits => .finite false units fits

instance : Neg Double := ⟨neg⟩

@[simp] theorem neg_nan : -Double.nan = .nan := rfl

@[simp] theorem neg_infinite (s : Bool) : -Double.infinite s = .infinite (!s) := rfl

@[simp] theorem neg_finite (s : Bool) (u : Nat) (h : Fits u) :
    -Double.finite s u h = .finite (!s) u h := rfl

@[simp] theorem isZero_neg (x : Double) : (-x).isZero = x.isZero := by
  cases x <;> rfl

/-! ## Order -/

/-- The place on the number line in units, the infinities just beyond every
finite number; not-a-number has none. -/
def place? : Double → Option Int
  | .nan => none
  | .infinite negative => some (signed negative limitUnits)
  | .finite negative units _ => some (signed negative units)

/-- The comparison of two places, false when either is missing. -/
def compareBy (holds : Int → Int → Bool) (x y : Double) : Bool :=
  match x.place?, y.place? with
  | some a, some b => holds a b
  | _, _ => false

/-- Numeric equality: the two zeros are equal and not-a-number equals nothing. -/
def eq : Double → Double → Bool := compareBy fun a b => decide (a = b)

def lt : Double → Double → Bool := compareBy fun a b => decide (a < b)

def le : Double → Double → Bool := compareBy fun a b => decide (a ≤ b)

/-- The greater of two doubles; the first one unless the second exceeds it. -/
def max (x y : Double) : Double := if lt x y then y else x

theorem not_lt_of_lt {x y : Double} (h : lt x y = true) : lt y x = false := by
  simp only [lt, compareBy] at *
  cases hx : x.place? <;> cases hy : y.place? <;> simp_all
  omega

/-! ## Integers -/

/-- A finite number without a fractional part. -/
def isInteger : Double → Bool
  | .finite _ units _ => units % oneUnits == 0
  | _ => false

/-- The integer part, cut off toward zero, of a finite number. -/
def truncate? : Double → Option Int
  | .finite negative units _ => some (signed negative (units / oneUnits))
  | _ => none

/-- The integer nearest to a finite number, a half to the even neighbour. -/
def nearestInt? : Double → Option Int
  | .finite negative units _ => some (signed negative (roundDiv units oneUnits))
  | _ => none

/-- The whole number of units next below (`up = false`) or above. -/
def wholeUnits (up : Bool) (units : Nat) : Nat :=
  (if up then (units + oneUnits - 1) / oneUnits else units / oneUnits) <<< unitBits

/-- The greatest integral double that is not above; signs of zero are kept. -/
def floor : Double → Double
  | .finite negative units _ => ofUnits negative (wholeUnits negative units)
  | x => x

/-- The least integral double that is not below; signs of zero are kept. -/
def ceil : Double → Double
  | .finite negative units _ => ofUnits negative (wholeUnits (!negative) units)
  | x => x

/-- The double nearest to an integer, if that is in range. -/
def ofInt? (n : Int) : Option Double :=
  let x := ofInt n
  if x.isFinite then some x else none

theorem nearestInt?_neg (x : Double) : (-x).nearestInt? = x.nearestInt?.map (- ·) := by
  cases x <;> simp [nearestInt?, signed_not]

theorem ofUnits_not (s : Bool) (u : Nat) : ofUnits (!s) u = -ofUnits s u := by
  unfold ofUnits
  split <;> rfl

example : (ofRatio false 1 3).nearestInt? = some 0 ∧ (ofRatio true 5 2).nearestInt? = some (-2) := by
  decide +kernel

example : (ofInt (2 ^ 53 + 1)).truncate? = some (2 ^ 53) := by decide +kernel

example : ofInt? (2 ^ 1024) = none ∧ (ofInt? (2 ^ 1024 - 2 ^ 971)).isSome = true := by
  decide +kernel

end Double

end PolarCalc
