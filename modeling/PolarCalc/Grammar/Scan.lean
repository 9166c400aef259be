import PolarCalc.Grammar.Attempt
import PolarCalc.Grammar.Token
/-!
# Rules for words and tokens

Each rule reads one word or token and the blanks behind it, or fails at the
place where it was expected.
-/

namespace PolarCalc.Grammar

open PolarCalc.Text

/-- A word as an error message names it. -/
def quotedWord (word : String) : String := quoted word

/-- The cursor behind `n` characters and the blanks after them. -/
def Cursor.behind (c : Cursor) (n : Nat) : Cursor := (c.advance n).skipBlanks

/-- The given word. -/
def word (text : String) : Rule String := fun c =>
  if c.startsWith text.toList then return (text, c.behind text.length)
  else fail c ("Expected '" ++ text ++ "'") [quotedWord text]

/-- Does a character stand at the cursor that continues a word? -/
def continuesWord (c : Cursor) : Bool :=
  match c.rest with
  | [] => false
  | char :: _ => isWordChar char

/-- The given word, not continued by further word characters. -/
def keyword (text : String) : Rule String := fun c =>
  if c.startsWith text.toList && !continuesWord (c.advance text.length) then
    return (text, c.behind text.length)
  else fail c ("Expected keyword '" ++ text ++ "'") [quotedWord text]

/-- The first of the given words that stands here. -/
def oneOf (words : List String) : Rule String := fun c =>
  match words.find? fun text => c.startsWith text.toList with
  | some text => return (text, c.behind text.length)
  | none => fail c "Expected operator" (words.map quotedWord)

/-- The first of the given words, if one of them stands here. -/
def optionally (words : List String) : Rule (Option String) := fun c =>
  ((oneOf words).map some c).recover fun _ => return (none, c)

/-- A token, by the function that finds it. -/
def token (find : List Char → Option (List Char)) (sort : String) (expected : String) :
    Rule String := fun c =>
  match find c.rest with
  | some text => return (String.ofList text, c.behind text.length)
  | none => fail c ("Expected " ++ sort) [expected]

/-- A name. -/
def name : Rule String := token nameToken? "identifier" "identifier"

/-- An integer literal. -/
def integer : Rule String := token integerToken? "integer literal" "integer"

/-- A number literal. -/
def number : Rule String := token numberToken? "number" "number"

end PolarCalc.Grammar
