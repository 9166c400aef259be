import PolarCalc.Decimal.Text
import PolarCalc.Number.IntegerText
import PolarCalc.Value.Basic
/-!
# The text of a value

Integers are written in full.  Floats are written by their cartesian parts with
15 significant digits, whole numbers below 10¹⁵ without exponent or fraction.  A
lateral part that is not zero follows after `+j`, with a sign of its own.
-/

namespace PolarCalc

/-- The significant digits of a float's parts. -/
def significantDigits : Nat := 15

/-- Whole numbers below this are written as integers. -/
def wholeLimit : Double := Double.ofInt (Int.pow 10 15)

/-- The text of one part of a float.  Adding zero makes a negative zero
positive. -/
def realText (x : Double) : String :=
  let y := Decimal.roundSignificant significantDigits x + .zero
  if y.isInteger && Double.lt y.abs wholeLimit then
    IntegerText.write (y.truncate?.getD 0)
  else String.ofList (Decimal.generalText significantDigits y)

/-- What stands before a lateral part. -/
def lateralMark : String := "+j"

namespace FloatScalar

/-- The text of a scalar of the float kind. -/
def text (z : FloatScalar) : String :=
  let parts := z.cleanCartesian
  if parts.lateral.isZero then realText parts.real
  else realText parts.real ++ lateralMark ++ realText parts.lateral

end FloatScalar

namespace IntScalar

/-- The text of a scalar of the integer kind. -/
def text (z : IntScalar) : Outcome String := do
  let parts ← z.toCartesian
  let real ← IntegerText.tryWrite parts.real
  if parts.lateral = 0 then return real
  else return real ++ lateralMark ++ (← IntegerText.tryWrite parts.lateral)

end IntScalar

namespace Scalar

def text : Scalar → Outcome String
  | float z => .ok z.text
  | integer z => z.text

end Scalar

namespace Value

/-- The text of the impossible value. -/
def impossibleText : String := "IMPOSSIBLE DATA ACHIEVED"

mutual

/-- The text of a value: the items of a list between brackets, a space after the
bracket and after each. -/
def text : Value → Outcome String
  | scalar z => z.text
  | list items => do return "[ " ++ (← itemsText items) ++ "]"
  | impossible => .ok impossibleText

/-- The texts of the items, a space after each. -/
def itemsText : List Value → Outcome String
  | [] => .ok ""
  | item :: items => do
      let first ← text item
      let rest ← itemsText items
      return first ++ " " ++ rest

end

/-- What a condition takes for false: a value that is written as zero. -/
def isFalse (v : Value) : Outcome Bool := return (← v.text) == "0"

end Value

end PolarCalc
