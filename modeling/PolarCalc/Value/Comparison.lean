import PolarCalc.Value.Broadcast
/-!
# Comparison of values

A comparison yields a scalar: minus one when it holds and zero when not.
Integers are compared exactly by their cartesian parts, floats after round-off
is snapped away and up to a tolerance; orders compare the real parts alone.
-/

namespace PolarCalc

/-- The comparisons of two scalars. -/
inductive Comparison where
  | equal
  | unequal
  | greater
  | less
  | greaterEqual
  | lessEqual
  deriving DecidableEq, Repr

namespace Comparison

def all : List Comparison := [.equal, .unequal, .greater, .less, .greaterEqual, .lessEqual]

/-- The sign that a comparison is written with. -/
def sign : Comparison → String
  | .equal => "="
  | .unequal => "≠"
  | .greater => ">"
  | .less => "<"
  | .greaterEqual => "≥"
  | .lessEqual => "≤"

/-- The comparison that a sign stands for. -/
def ofSign? (text : String) : Option Comparison :=
  all.find? fun c => c.sign == text

/-- Are two pairs of doubles close in both parts? -/
def close (z w : Cartesian Double) : Bool :=
  Double.isClose FloatScalar.tolerance z.real w.real
    && Double.isClose FloatScalar.tolerance z.lateral w.lateral

/-- Does the comparison of two floats hold? -/
def holdsForFloats (c : Comparison) (z w : FloatScalar) : Bool :=
  let a := z.cleanCartesian
  let b := w.cleanCartesian
  match c with
  | .equal => close a b
  | .unequal => !close a b
  | .greater => Double.lt b.real a.real
  | .less => Double.lt a.real b.real
  | .greaterEqual => Double.le b.real a.real
  | .lessEqual => Double.le a.real b.real

/-- Does the comparison of two cartesian pairs of integers hold? -/
def holdsForIntegers (c : Comparison) (a b : Cartesian Int) : Bool :=
  match c with
  | .equal => decide (a = b)
  | .unequal => decide (a ≠ b)
  | .greater => decide (b.real < a.real)
  | .less => decide (a.real < b.real)
  | .greaterEqual => decide (b.real ≤ a.real)
  | .lessEqual => decide (a.real ≤ b.real)

/-- The scalars for true and false. -/
def operation (c : Comparison) : BinaryOperation where
  onFloats z w := .ok ⟨if c.holdsForFloats z w then -.one else .zero, .zero⟩
  onIntegers z w := do
    let a ← z.toCartesian
    let b ← w.toCartesian
    return ⟨if c.holdsForIntegers a b then -1 else 0, 0⟩

end Comparison

namespace Value

/-- The comparison written `sign`; an unknown sign gives the impossible value. -/
def compare (sign : String) (v w : Value) : Outcome Value :=
  match Comparison.ofSign? sign with
  | some c => broadcast c.operation v w
  | none => .ok .impossible

end Value

end PolarCalc
