import PolarCalc.Double.Complex
import PolarCalc.Value.Comparison
import PolarCalc.Value.Text
/-!
# Builtin functions

The functions that every session knows.  Those of one scalar reach the leaves of
a list; those of a list look at its items.
-/

namespace PolarCalc

/-- The builtin functions. -/
inductive Builtin where
  | sin
  | cos
  | tan
  | asin
  | acos
  | atan
  | d2r
  | r2d
  | log
  | ln
  | e
  | pi
  | mod
  | floor
  | ceil
  | abs
  | idx
  | len
  | app
  | del
  | sign
  | comp
  deriving DecidableEq, Repr

namespace Scalar

/-- The cartesian parts as doubles: those of a float with round-off snapped away,
those of an integer unless they are out of range. -/
def doubleParts : Scalar → Outcome (Cartesian Double)
  | float z => .ok z.cleanCartesian
  | integer z => do
      let parts ← z.toCartesian
      return ⟨← IntScalar.asDouble parts.real, ← IntScalar.asDouble parts.lateral⟩

/-- A complex function of a scalar; the result is of the float kind. -/
def applyComplex (f : Cartesian Double → Cartesian Double) (z : Scalar) : Outcome Value := do
  return .float (.ofParts (f (← z.doubleParts)))

/-- Both parts times a factor. -/
def scaleBy (factor : Double) : Scalar → Outcome Value :=
  applyComplex fun z => ⟨z.real * factor, z.lateral * factor⟩

/-- Both parts rounded; an integer is whole already. -/
def roundBy (f : Double → Double) : Scalar → Outcome Value
  | float z =>
      let parts := z.cleanCartesian
      .ok (.ofParts (f parts.real) (f parts.lateral))
  | integer z => .ok (.integer z)

/-- The magnitude of the length, on the real axis. -/
def magnitude : Scalar → Outcome Value
  | float z => .ok (.ofReal z.length.abs)
  | integer z => .ok (.ofInt z.length.natAbs)

/-- The sign of the real part: minus one, zero or one, in the scalar's kind. -/
def realSign : Scalar → Outcome Value
  | float z =>
      let real := z.cleanCartesian.real
      .ok (.ofReal (if Double.lt .zero real then .one
        else if Double.lt real .zero then -.one else .zero))
  | integer z => do return .ofInt (← z.toCartesian).real.sign

end Scalar

namespace FloatScalar

/-- The floored remainder of the real parts. -/
def mod (z w : FloatScalar) : Outcome FloatScalar :=
  let divisor := w.cleanCartesian.real
  if divisor.isZero then refuse .moduloByZero
  else .ok ⟨Double.mod z.cleanCartesian.real divisor, .zero⟩

end FloatScalar

namespace IntScalar

/-- The floored remainder of the real parts. -/
def mod (z w : IntScalar) : Outcome IntScalar := do
  let divisor := (← w.toCartesian).real
  if divisor = 0 then refuse .moduloByZero
  else return ⟨← remainder (← z.toCartesian).real divisor, 0⟩

end IntScalar

namespace Builtin

/-- All builtins, in the order in which they are listed. -/
def all : List Builtin := [
  .sin, .cos, .tan, .asin, .acos, .atan, .d2r, .r2d, .log, .ln, .e, .pi, .mod, .floor, .ceil,
  .abs, .idx, .len, .app, .del, .sign, .comp]

/-- The name that a builtin is called by. -/
def name : Builtin → String
  | .sin => "sin"
  | .cos => "cos"
  | .tan => "tan"
  | .asin => "asin"
  | .acos => "acos"
  | .atan => "atan"
  | .d2r => "d2r"
  | .r2d => "r2d"
  | .log => "log"
  | .ln => "ln"
  | .e => "e"
  | .pi => "pi"
  | .mod => "mod"
  | .floor => "floor"
  | .ceil => "ceil"
  | .abs => "abs"
  | .idx => "idx"
  | .len => "len"
  | .app => "app"
  | .del => "del"
  | .sign => "sign"
  | .comp => "comp"

/-- The builtin of a name. -/
def ofName? (text : String) : Option Builtin :=
  all.find? fun b => b.name == text

/-- The natural logarithm of every scalar. -/
def naturalLog : Value → Outcome Value :=
  Value.traverse (Scalar.applyComplex Double.Complex.log)

/-- What a builtin of one argument does to a scalar leaf, if it is of that sort. -/
def leafFunction? : Builtin → Option (Scalar → Outcome Value)
  | .sin => some (Scalar.applyComplex Double.Complex.sin)
  | .cos => some (Scalar.applyComplex Double.Complex.cos)
  | .tan => some (Scalar.applyComplex Double.Complex.tan)
  | .asin => some (Scalar.applyComplex Double.Complex.asin)
  | .acos => some (Scalar.applyComplex Double.Complex.acos)
  | .atan => some (Scalar.applyComplex Double.Complex.atan)
  | .d2r => some (Scalar.scaleBy Double.radiansPerDegree)
  | .r2d => some (Scalar.scaleBy Double.degreesPerRadian)
  | .ln => some (Scalar.applyComplex Double.Complex.log)
  | .log => some (Scalar.applyComplex Double.Complex.log10)
  | .floor => some (Scalar.roundBy Double.floor)
  | .ceil => some (Scalar.roundBy Double.ceil)
  | .abs => some Scalar.magnitude
  | .sign => some Scalar.realSign
  | _ => none

/-- The items of a list; any other value is refused. -/
def expectList (b : Builtin) : Value → Outcome (List Value)
  | .list items => .ok items
  | v => refuse (.listExpected b.name v.kind)

/-- The whole number that a value is, refused unless it is real and integral. -/
def expectInteger (b : Builtin) (v : Value) : Outcome Int :=
  let wrong : Outcome Int := do refuse (.integerIndexExpected b.name (← v.text))
  match v with
  | .scalar (.float z) =>
      let parts := z.cleanCartesian
      if parts.lateral.isZero && parts.real.isInteger then .ok (parts.real.truncate?.getD 0)
      else wrong
  | .scalar (.integer z) => do
      let parts ← z.toCartesian
      if parts.lateral = 0 then
        let _ ← IntScalar.asDouble parts.real
        return parts.real
      else wrong
  | v => refuse (.indexExpected b.name v.kind)

/-- The position in a list of `length` items; negative ones count from the end. -/
def expectIndex (b : Builtin) (v : Value) (length : Nat) : Outcome Nat := do
  let index ← expectInteger b v
  if -(length : Int) ≤ index ∧ index < length then
    return (← IntScalar.remainder index length).toNat
  else refuse (.indexOutOfRange b.name index length)

/-- Refuse a number of arguments, naming the numbers that are accepted. -/
def wrongArity (b : Builtin) (expected : String) (args : List Value) : Outcome Value :=
  refuse (.wrongArity b.name expected args.length)

/-- The remainder spread over lists. -/
def modulo : BinaryOperation := ⟨FloatScalar.mod, IntScalar.mod⟩

/-- The value of a builtin for its arguments. -/
def apply (b : Builtin) (args : List Value) : Outcome Value :=
  match b with
  | .comp => refuse (.notImplemented b.name)
  | .e =>
      match args with
      | [] => .ok (.ofReal Double.euler)
      | _ => wrongArity b "0" args
  | .pi =>
      match args with
      | [] => .ok (.ofReal Double.halfTurn)
      | _ => wrongArity b "0" args
  | .log =>
      match args with
      | [v] => v.traverse (Scalar.applyComplex Double.Complex.log10)
      | [v, base] => do
          let above ← naturalLog v
          let below ← naturalLog base
          above.div below
      | _ => wrongArity b "1 or 2" args
  | .mod =>
      match args with
      | [v, w] => v.broadcast modulo w
      | _ => wrongArity b "2" args
  | .len =>
      match args with
      | [v] => do return .ofInt (← expectList b v).length
      | _ => wrongArity b "1" args
  | .idx =>
      match args with
      | [v, position] => do
          let items ← expectList b v
          let index ← expectIndex b position items.length
          orFail .crash items[index]?
      | _ => wrongArity b "2" args
  | .app =>
      match args with
      | [v, item] => do return .list ((← expectList b v) ++ [item])
      | _ => wrongArity b "2" args
  | .del =>
      match args with
      | [v, position] => do
          let items ← expectList b v
          let index ← expectIndex b position items.length
          return .list (items.eraseIdx index)
      | _ => wrongArity b "2" args
  | _ =>
      match args, b.leafFunction? with
      | [v], some f => v.traverse f
      | _, _ => wrongArity b "1" args

end Builtin

end PolarCalc
