import PolarCalc.Decimal.Text
import PolarCalc.Failure
/-!
# Integers as decimal text

Integers of at most 4300 digits are read and written; longer ones are refused in
both directions.
-/

namespace PolarCalc.IntegerText

open PolarCalc.Text

/-- The greatest number of digits that is read or written. -/
def maxDigits : Nat := 4300

/-- The decimal text of an integer. -/
def write (n : Int) : String := toString n

/-- The decimal text of an integer, unless it has too many digits. -/
def tryWrite (n : Int) : Outcome String :=
  if n.natAbs < Nat.pow 10 maxDigits then .ok (write n) else .error .tooManyDigits

/-- The integer has few enough digits to be written. -/
def IsWritable (n : Int) : Prop := n.natAbs < Nat.pow 10 maxDigits

theorem tryWrite_of_isWritable {n : Int} (h : IsWritable n) : tryWrite n = .ok (write n) :=
  if_pos h

theorem tryWrite_of_not_isWritable {n : Int} (h : ¬ IsWritable n) :
    tryWrite n = .error .tooManyDigits :=
  if_neg h

/-- The integer that a text denotes: digits of any script, with padding around
them and a sign before them.  Leading zeros count toward the limit. -/
def read (text : List Char) : Outcome Int :=
  let (negative, body) := Decimal.readSign (trimPadding text)
  match Decimal.readDigits body with
  | ([], _) => .error .malformedNumber
  | (values, []) =>
      if values.length ≤ maxDigits then .ok (signed negative (Decimal.ofDigits values))
      else .error .tooManyDigits
  | _ => .error .malformedNumber

example : tryWrite (-12) = .ok "-12" := by decide +kernel

example : read [' ', '-', '0', '7', '\n'] = .ok (-7) := by decide +kernel

end PolarCalc.IntegerText
