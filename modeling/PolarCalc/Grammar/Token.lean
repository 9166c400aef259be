import PolarCalc.Text.Digit
/-!
# Tokens

The names and number literals at the front of a text.  Each function gives the
longest token there is, or none.
-/

namespace PolarCalc.Grammar

open PolarCalc.Text

/-- A name: an ASCII letter or underscore, then letters, digits and
underscores. -/
def nameToken? : List Char → Option (List Char)
  | [] => none
  | c :: rest => if isNameStart c then some (c :: rest.takeWhile isNameChar) else none

/-- A digit or the underscore that separates and ends integer literals. -/
def isIntegerChar (c : Char) : Bool := c == '_' || isAsciiDigit c

/-- An integer literal: a run of digits and underscores that begins with a digit
and ends with an underscore. -/
def integerToken? (text : List Char) : Option (List Char) :=
  match text with
  | [] => none
  | c :: rest =>
      let run := c :: rest.takeWhile isIntegerChar
      if isAsciiDigit c && run.getLast? == some '_' then some run else none

/-- The part of a number before its exponent: digits with a point at the end or
among them, or a point with digits after it. -/
def mantissaToken? (text : List Char) : Option (List Char) :=
  match text.takeWhile isAsciiDigit, text.dropWhile isAsciiDigit with
  | [], '.' :: rest =>
      match rest.takeWhile isAsciiDigit with
      | [] => none
      | fraction => some ('.' :: fraction)
  | [], _ => none
  | whole, '.' :: rest => some (whole ++ '.' :: rest.takeWhile isAsciiDigit)
  | whole, _ => some whole

/-- The sign at the front of an exponent, if there is one. -/
def signToken : List Char → List Char
  | '+' :: _ => ['+']
  | '-' :: _ => ['-']
  | _ => []

/-- An exponent: the letter e, an optional sign and digits; else nothing. -/
def exponentToken : List Char → List Char
  | [] => []
  | c :: rest =>
      if c = 'e' ∨ c = 'E' then
        let sign := signToken rest
        match (rest.drop sign.length).takeWhile isAsciiDigit with
        | [] => []
        | digits => c :: sign ++ digits
      else []

/-- A number literal. -/
def numberToken? (text : List Char) : Option (List Char) :=
  (mantissaToken? text).map fun mantissa =>
    mantissa ++ exponentToken (text.drop mantissa.length)

example : numberToken? ['1', '.', 'e', '+'] = some ['1', '.'] := by decide +kernel

example : numberToken? ['.', '5', 'E', '-', '2', 'x'] = some ['.', '5', 'E', '-', '2'] := by
  decide +kernel

example : integerToken? ['1', '_', '0', '_'] = some ['1', '_', '0', '_'] ∧
    integerToken? ['1', '_', '0'] = none := by decide +kernel

end PolarCalc.Grammar
