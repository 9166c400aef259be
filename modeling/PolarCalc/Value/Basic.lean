import PolarCalc.Scalar.Integer
/-!
# Values

A value is a scalar of either kind, a list of values nested to any depth, or the
impossible value, which stands for the result of an operation that has none.
Operations on scalars reach the leaves of a list one by one, in order.
-/

namespace PolarCalc

/-- A complex number of either kind. -/
inductive Scalar where
  | float (z : FloatScalar)
  | integer (z : IntScalar)
  deriving DecidableEq

/-- What expressions evaluate to. -/
inductive Value where
  | scalar (z : Scalar)
  | list (items : List Value)
  | impossible

namespace Scalar

def kind : Scalar → Kind
  | float _ => .float
  | integer _ => .integer

/-- The scalar in the float kind. -/
def toFloat : Scalar → Outcome FloatScalar
  | float z => .ok z
  | integer z => z.toFloat

def toLateral : Scalar → Scalar
  | float z => .float z.toLateral
  | integer z => .integer z.toLateral

def toNegative : Scalar → Scalar
  | float z => .float z.toNegative
  | integer z => .integer z.toNegative

end Scalar

namespace Value

instance : Inhabited Value := ⟨.impossible⟩

/-- A value of the float kind. -/
def float (z : FloatScalar) : Value := .scalar (.float z)

/-- A value of the integer kind. -/
def integer (z : IntScalar) : Value := .scalar (.integer z)

/-- A value of the float kind from its cartesian parts. -/
def ofParts (real lateral : Double) : Value := .float (.ofParts ⟨real, lateral⟩)

/-- An integer on the real axis. -/
def ofInt (n : Int) : Value := .integer ⟨n, 0⟩

/-- A real number of the float kind. -/
def ofReal (x : Double) : Value := .float ⟨x, .zero⟩

def kind : Value → Kind
  | scalar z => z.kind
  | list _ => .list
  | impossible => .impossible

def isList : Value → Bool
  | list _ => true
  | _ => false

def isImpossible : Value → Bool
  | impossible => true
  | _ => false

/-- A value with a scalar and items, at most one of which may be present. -/
def ofFields? (scalar? : Option Scalar) (items? : Option (List Value)) : Option Value :=
  match scalar?, items? with
  | some _, some _ => none
  | some z, none => some (.scalar z)
  | none, some items => some (.list items)
  | none, none => some .impossible

mutual

/-- The value with an operation applied to every scalar leaf. -/
def mapLeaves (f : Scalar → Scalar) : Value → Value
  | scalar z => .scalar (f z)
  | list items => .list (mapItems f items)
  | impossible => .impossible

/-- `mapLeaves` on each of the items. -/
def mapItems (f : Scalar → Scalar) : List Value → List Value
  | [] => []
  | item :: items => mapLeaves f item :: mapItems f items

end

mutual

/-- The value with an operation that can fail applied to every scalar leaf; the
first failure in order is the failure of the whole. -/
def traverse (f : Scalar → Outcome Value) : Value → Outcome Value
  | scalar z => f z
  | list items => do return .list (← traverseItems f items)
  | impossible => .ok .impossible

/-- `traverse` on each of the items. -/
def traverseItems (f : Scalar → Outcome Value) : List Value → Outcome (List Value)
  | [] => .ok []
  | item :: items => do
      let first ← traverse f item
      let rest ← traverseItems f items
      return first :: rest

end

/-- Multiplied by the imaginary unit. -/
def toLateral : Value → Value := mapLeaves Scalar.toLateral

/-- The length of every scalar with the other sign. -/
def toNegative : Value → Value := mapLeaves Scalar.toNegative

/-- Every scalar in the float kind. -/
def toFloat : Value → Outcome Value := traverse fun z => return .float (← z.toFloat)

/-- What holds of the leaves, and of a list once it holds of its items, holds of
every value. -/
@[elab_as_elim]
theorem induct {motive : Value → Prop} (scalar : ∀ z, motive (.scalar z))
    (list : ∀ items, (∀ item ∈ items, motive item) → motive (.list items))
    (impossible : motive .impossible) : ∀ v, motive v
  | .scalar z => scalar z
  | .list items => list items fun item _ => induct scalar list impossible item
  | .impossible => impossible

@[simp] theorem mapItems_eq_map (f : Scalar → Scalar) (items : List Value) :
    mapItems f items = items.map (mapLeaves f) := by
  induction items with
  | nil => rfl
  | cons item items ih => simp [mapItems, ih]

end Value

end PolarCalc
