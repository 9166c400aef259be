import PolarCalc.Text.Quoted
/-!
# Failures of an evaluation

An evaluation ends in a value, in an error that is reported to the user as text,
or in a fault that ends the whole request.  Errors are causes; `message` gives
their wording and `category` the sort that a caller can tell apart.
-/

namespace PolarCalc

/-- The kinds of values. -/
inductive Kind where
  | float
  | integer
  | list
  | impossible
  deriving DecidableEq, Repr

namespace Kind

/-- All kinds, in the order in which they are listed. -/
def all : List Kind := [.float, .integer, .list, .impossible]

def name : Kind → String
  | .float => "float"
  | .integer => "integer"
  | .list => "list"
  | .impossible => "impossible"

end Kind

/-- The sorts of errors. -/
inductive ErrorCategory where
  | runtime
  | unknownName
  | mismatch
  | arity
  | unsupported
  | plugin
  deriving DecidableEq, Repr

/-- Why an evaluation is refused. -/
inductive EvalError where
  | unknownVariable (name : String)
  | unknownFunction (name : String)
  | wrongArity (function expected : String) (got : Nat)
  | listExpected (function : String) (got : Kind)
  | indexExpected (function : String) (got : Kind)
  | integerIndexExpected (function shown : String)
  | indexOutOfRange (function : String) (index : Int) (length : Nat)
  | libraryNameExpected
  | divisionByZero
  | moduloByZero
  | notFinite
  | unsupportedOperator (op : String)
  | notImplemented (function : String)
  | missingDirectory (path : String)
  | missingLibrary (library : String)
  | missingEntry (library : String)
  | foreignReply (library typeName : String)
  | reported (category : ErrorCategory) (message : String)
  deriving DecidableEq, Repr

/-- The function that calls a plugin library. -/
def callFunction : String := "call"

namespace EvalError

/-- The wording of a wrong number of arguments. -/
def arityMessage (function expected got : String) : String :=
  "Function '" ++ function ++ "' expects " ++ expected ++ " argument(s), got " ++ got

/-- A sentence about a function and what it was given. -/
def expectation (function expected got : String) : String :=
  "Function '" ++ function ++ "' expects " ++ expected ++ ", got " ++ got

/-- The wording of an error. -/
def message : EvalError → String
  | unknownVariable name => "No such variable '" ++ name ++ "'"
  | unknownFunction name => "No such function '" ++ name ++ "'"
  | wrongArity function expected got => arityMessage function expected (toString got)
  | listExpected function got => expectation function "a list" got.name
  | indexExpected function got => expectation function "a scalar index" got.name
  | integerIndexExpected function shown => expectation function "an integer index" shown
  | indexOutOfRange function index length =>
      "Function '" ++ function ++ "' index " ++ toString index ++ " is out of range for length "
        ++ toString length
  | libraryNameExpected =>
      "Function '" ++ callFunction ++ "' expects a library name as its first argument"
  | divisionByZero => "Division by zero"
  | moduloByZero => "Modulo by zero"
  | notFinite => "Integer result is not finite"
  | unsupportedOperator op => "Unsupported unary operator " ++ Text.quoted op
  | notImplemented function => "Builtin '" ++ function ++ "' is not implemented"
  | missingDirectory path => "Plugin directory '" ++ path ++ "' does not exist"
  | missingLibrary library => "Plugin library '" ++ library ++ "' does not exist"
  | missingEntry library => "Plugin library '" ++ library ++ "' has no execute function"
  | foreignReply library typeName =>
      "Plugin library '" ++ library ++ "' returned " ++ typeName ++ ", expected a value"
  | reported _ message => message

/-- The sort of an error. -/
def category : EvalError → ErrorCategory
  | unknownVariable _ | unknownFunction _ => .unknownName
  | wrongArity _ _ _ => .arity
  | listExpected _ _ | indexExpected _ _ | integerIndexExpected _ _ | indexOutOfRange _ _ _
  | libraryNameExpected => .mismatch
  | divisionByZero | moduloByZero | notFinite => .runtime
  | unsupportedOperator _ | notImplemented _ => .unsupported
  | missingDirectory _ | missingLibrary _ | missingEntry _ | foreignReply _ _ => .plugin
  | reported category _ => category

end EvalError

/-- How a request can fail: with an error, which is reported as text, or with a
fault, which is not. -/
inductive Failure where
  /-- An error of the calculation. -/
  | error (cause : EvalError)
  /-- An integer does not fit a double, or an angle in degrees not 64 bits. -/
  | overflow
  /-- An integer has too many digits to be read or written. -/
  | tooManyDigits
  /-- The text of a number is no number. -/
  | malformedNumber
  /-- Something broke down that was not to fail: a plugin, a division by zero, an
  item that a list lacks, a value of another kind than the step at hand counts on. -/
  | crash
  /-- What stands in an expression is not an expression. -/
  | notAnExpression
  /-- The calls are nested deeper than the evaluation was allowed. -/
  | outOfDepth
  deriving DecidableEq, Repr

namespace Failure

/-- Is the failure reported to the user as text? -/
def isError : Failure → Bool
  | error _ => true
  | _ => false

end Failure

/-- What an evaluation yields. -/
abbrev Outcome (α : Type) := Except Failure α

instance {α : Type} [DecidableEq α] : DecidableEq (Outcome α)
  | .ok a, .ok b =>
      if h : a = b then isTrue (by rw [h]) else isFalse fun eq => h (Except.ok.inj eq)
  | .error e, .error f =>
      if h : e = f then isTrue (by rw [h]) else isFalse fun eq => h (Except.error.inj eq)
  | .ok _, .error _ => isFalse nofun
  | .error _, .ok _ => isFalse nofun

/-- Refuse with an error. -/
def refuse {α : Type} (cause : EvalError) : Outcome α := .error (.error cause)

/-- A value that a conversion may lack, with the failure for its absence. -/
def orFail {α : Type} (failure : Failure) : Option α → Outcome α
  | some a => .ok a
  | none => .error failure

end PolarCalc
