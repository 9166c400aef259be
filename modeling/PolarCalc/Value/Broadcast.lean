import PolarCalc.Value.Basic
/-!
# Operations on two values

A binary operation on scalars is spread over lists.  Two lists cross: every item
on the left meets every item on the right, the left one varying slowest, so that
`[1, 2] + [10, 20]` is `[11, 21, 12, 22]`.  A list and a scalar meet item by
item.  Two integers stay integers; an integer beside a float becomes a float.
-/

namespace PolarCalc

/-- A binary operation, given for each of the two kinds. -/
structure BinaryOperation where
  onFloats : FloatScalar → FloatScalar → Outcome FloatScalar
  onIntegers : IntScalar → IntScalar → Outcome IntScalar

/-- The scalar of a value that is known to be of the float kind. -/
def Value.assumeFloat : Value → Outcome FloatScalar
  | .scalar (.float z) => .ok z
  | _ => .error .crash

namespace BinaryOperation

/-- The operation on two scalars: on integers if both are, else on floats, the
left one converted first. -/
def apply (op : BinaryOperation) : Scalar → Scalar → Outcome Scalar
  | .integer z, .integer w => return .integer (← op.onIntegers z w)
  | z, w => do
      let left ← (Value.scalar z).toFloat
      let right ← (Value.scalar w).toFloat
      return .float (← op.onFloats (← left.assumeFloat) (← right.assumeFloat))

def add : BinaryOperation := ⟨fun z w => .ok (z.add w), IntScalar.add⟩

def sub : BinaryOperation := ⟨fun z w => .ok (z.sub w), IntScalar.sub⟩

def mul : BinaryOperation := ⟨fun z w => .ok (z.mul w), fun z w => .ok (z.mul w)⟩

def div : BinaryOperation := ⟨FloatScalar.div, IntScalar.div⟩

def pow : BinaryOperation := ⟨FloatScalar.pow, IntScalar.pow⟩

end BinaryOperation

namespace Value

mutual

/-- The operation with a scalar on the left of any value. -/
def meetScalar (op : BinaryOperation) (z : Scalar) : Value → Outcome Value
  | scalar w => return .scalar (← op.apply z w)
  | list items => do return .list (← meetScalarItems op z items)
  | impossible => .ok .impossible

/-- `meetScalar` with each of the items. -/
def meetScalarItems (op : BinaryOperation) (z : Scalar) : List Value → Outcome (List Value)
  | [] => .ok []
  | item :: items => do
      let first ← meetScalar op z item
      let rest ← meetScalarItems op z items
      return first :: rest

end

mutual

/-- The impossible value on the left makes every leaf on the right impossible. -/
def meetImpossible : Value → Value
  | scalar _ => .impossible
  | list items => .list (meetImpossibleItems items)
  | impossible => .impossible

/-- `meetImpossible` with each of the items. -/
def meetImpossibleItems : List Value → List Value
  | [] => []
  | item :: items => meetImpossible item :: meetImpossibleItems items

end

/-- One function applied to each of the values, up to the first failure. -/
def collect (f : Value → Outcome Value) : List Value → Outcome (List Value)
  | [] => .ok []
  | v :: vs => do
      let first ← f v
      let rest ← collect f vs
      return first :: rest

/-- All functions applied to all values, each function to every value before the
next. -/
def cross : List (Value → Outcome Value) → List Value → Outcome (List Value)
  | [], _ => .ok []
  | f :: fs, vs => do
      let row ← collect f vs
      let rest ← cross fs vs
      return row ++ rest

/-- Each function applied to the same value, up to the first failure. -/
def collectAt (v : Value) : List (Value → Outcome Value) → Outcome (List Value)
  | [] => .ok []
  | f :: fs => do
      let first ← f v
      let rest ← collectAt v fs
      return first :: rest

mutual

/-- The operation spread over the lists on either side. -/
def broadcast (op : BinaryOperation) : Value → Value → Outcome Value
  | scalar z => meetScalar op z
  | impossible => fun other => .ok (meetImpossible other)
  | list items => fun
      | list others => do return .list (← cross (broadcastItems op items) others)
      | other => do return .list (← collectAt other (broadcastItems op items))

/-- `broadcast` with each of the items on the left. -/
def broadcastItems (op : BinaryOperation) : List Value → List (Value → Outcome Value)
  | [] => []
  | item :: items => broadcast op item :: broadcastItems op items

end

def add : Value → Value → Outcome Value := broadcast .add

def sub : Value → Value → Outcome Value := broadcast .sub

def mul : Value → Value → Outcome Value := broadcast .mul

def div : Value → Value → Outcome Value := broadcast .div

def pow : Value → Value → Outcome Value := broadcast .pow

@[simp] theorem broadcastItems_eq_map (op : BinaryOperation) (items : List Value) :
    broadcastItems op items = items.map (broadcast op) := by
  induction items with
  | nil => rfl
  | cons item items ih => simp [broadcastItems, ih]

end Value

end PolarCalc
