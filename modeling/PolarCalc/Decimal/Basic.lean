import PolarCalc.Double.Basic
/-!
# Decimal numbers and doubles

A decimal `±digits · 10 ^ exponent`, the double nearest to a decimal, and the
decimal of a given number of significant digits nearest to a double, ties to the
even digit.
-/

namespace PolarCalc

/-- The number `±digits · 10 ^ exponent`. -/
structure Decimal where
  negative : Bool
  digits : Nat
  exponent : Int
  deriving DecidableEq, Repr

namespace Decimal

/-- How many digits beyond the first a natural number has, looking at `fuel` of
them. -/
def extraDigits : Nat → Nat → Nat
  | 0, _ => 0
  | fuel + 1, n => if n < 10 then 0 else extraDigits fuel (n / 10) + 1

/-- The place of the leading digit: units are zero, tens are one, and so on. -/
def leadingPlace (n : Nat) : Nat := extraDigits n.log2 n

/-- The quotient of `num · 10 ^ place` and `den` for a place of either sign. -/
def scaledRound (num den : Nat) (place : Int) : Nat :=
  if 0 ≤ place then roundDiv (num * Nat.pow 10 place.toNat) den
  else roundDiv num (den * Nat.pow 10 (-place).toNat)

/-- The place of the leading digit of a positive quotient. -/
def leadingPlaceOfRatio (num den : Nat) : Int :=
  if den ≤ num then leadingPlace (num / den)
  else
    let above := (den + num - 1) / num
    if above ≤ 1 then 0 else -((leadingPlace (above - 1) + 1 : Nat) : Int)

/-- The decimal with `places` significant digits nearest to `num / den`.  A
carry into a further place is taken back into the exponent. -/
def nearest (places : Nat) (negative : Bool) (num den : Nat) : Decimal :=
  if num = 0 then ⟨negative, 0, 0⟩
  else
    let last : Int := leadingPlaceOfRatio num den - ((places : Int) - 1)
    let digits := scaledRound num den (-last)
    if digits = Nat.pow 10 places then ⟨negative, Nat.pow 10 (places - 1), last + 1⟩
    else ⟨negative, digits, last⟩

/-- The nearest double.  Far out of range the leading place alone decides. -/
def toDouble (d : Decimal) : Double :=
  let place : Int := d.exponent + leadingPlace d.digits
  if d.digits = 0 then Double.ofUnits d.negative 0
  else if 400 < place then .infinite d.negative
  else if place < -400 then Double.ofUnits d.negative 0
  else if 0 ≤ d.exponent then
    Double.ofRatio d.negative (d.digits * Nat.pow 10 d.exponent.toNat) 1
  else Double.ofRatio d.negative d.digits (Nat.pow 10 (-d.exponent).toNat)

example : nearest 3 false 1 8 = ⟨false, 125, -3⟩ := by decide +kernel

example : nearest 2 false 1996 10 = ⟨false, 20, 1⟩ := by decide +kernel

example : leadingPlaceOfRatio 1 10 = -1 ∧ leadingPlaceOfRatio 99 1000 = -2 := by decide +kernel

end Decimal

end PolarCalc
