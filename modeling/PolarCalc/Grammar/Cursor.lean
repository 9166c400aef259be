import PolarCalc.Text.Blank
import PolarCalc.Text.Quoted
/-!
# Positions in a source text

A cursor stands before the rest of a text.  Positions count characters; one may
lie beyond the end, where nothing is left to read.
-/

namespace PolarCalc.Grammar

open PolarCalc.Text

/-- A position in a text of `length` characters, and what follows it. -/
structure Cursor where
  length : Nat
  pos : Nat
  rest : List Char
  deriving DecidableEq, Repr

namespace Cursor

/-- The position `pos` of a text. -/
def ofText (text : List Char) (pos : Nat) : Cursor := ⟨text.length, pos, text.drop pos⟩

/-- Onward by `n` characters. -/
def advance (c : Cursor) (n : Nat) : Cursor := ⟨c.length, c.pos + n, c.rest.drop n⟩

/-- Onward past blanks; a position beyond the end comes back to it. -/
def skipBlanks (c : Cursor) : Cursor :=
  ⟨c.length, min c.length (c.pos + (c.rest.takeWhile isBlank).length), c.rest.dropWhile isBlank⟩

/-- How many characters are left. -/
def remaining (c : Cursor) : Nat := c.length - c.pos

/-- Does the word stand here?  Nothing, not even the empty word, stands beyond
the end. -/
def startsWith (c : Cursor) (word : List Char) : Bool :=
  decide (c.pos ≤ c.length) && word.isPrefixOf c.rest

/-- What stands here, for an error message. -/
def describe (c : Cursor) : String :=
  match c.rest with
  | [] => "end of input"
  | char :: _ => String.ofList (quoteChars [char])

/-- Nothing is left to read. -/
def atEnd (c : Cursor) : Bool := c.pos == c.length

end Cursor

end PolarCalc.Grammar
