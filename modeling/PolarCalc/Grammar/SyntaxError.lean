import PolarCalc.Grammar.Cursor
/-!
# Errors of the grammar

Where a text stops making sense: the span of the offending character, what would
have been accepted there, and what was found.
-/

namespace PolarCalc

namespace Grammar

/-- The members of a list, each where it first occurs. -/
def distinct : List String → List String
  | [] => []
  | x :: xs => x :: (distinct xs).filter (· != x)

end Grammar

/-- A failure to read a text, with the span `[start, stop)` of where it arose. -/
structure SyntaxError where
  message : String
  start : Nat
  stop : Nat
  expected : List String
  found : Option String
  deriving DecidableEq, Repr

namespace SyntaxError

/-- The wording of a failure at a span. -/
def report (message : String) (start stop : Int) (expected : List String)
    (found : Option String) : String :=
  message ++ " at span [" ++ toString start ++ ", " ++ toString stop ++ ")"
    ++ (if expected.isEmpty then "" else "; expected " ++ String.intercalate ", " expected)
    ++ (match found with
      | none => ""
      | some text => "; found " ++ text)

/-- The text of a failure. -/
def text (e : SyntaxError) : String :=
  report e.message e.start e.stop e.expected e.found

/-- The failure to find any of `expected` at a cursor. -/
def expecting (c : Grammar.Cursor) (message : String) (expected : List String) : SyntaxError where
  message := message
  start := c.pos
  stop := min (c.pos + 1) c.length
  expected := Grammar.distinct expected
  found := some c.describe

/-- One failure for two alternatives: the one that got further, or both of them
in what they expected. -/
def merge (e f : SyntaxError) : SyntaxError :=
  if e.start < f.start then f
  else if e.start = f.start then
    { e with expected := Grammar.distinct (e.expected ++ f.expected) }
  else e

/-- The failure that got furthest; of several, the last one. -/
def farthest? : List SyntaxError → Option SyntaxError
  | [] => none
  | e :: rest =>
      match farthest? rest with
      | none => some e
      | some f => if f.start < e.start then some e else some f

end SyntaxError

end PolarCalc
