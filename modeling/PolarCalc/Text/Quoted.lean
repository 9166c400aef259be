import PolarCalc.Text.Printable
/-!
# Quoted text

Text in quotation marks, as error messages show it.  Apostrophes are the usual
marks; double quotes are taken when the text holds an apostrophe and no double
quote.  The backslash, the mark itself, and the tab and line-break characters
are written with a backslash, every other character that cannot be shown as its
code point in two, four or eight hexadecimal digits.
-/

namespace PolarCalc.Text

/-- A lower-case hexadecimal digit. -/
def hexDigit (value : Nat) : Char :=
  Char.ofNat (if value < 10 then 48 + value else 87 + value)

/-- The lowest `width` hexadecimal digits of a number. -/
def hexDigits : Nat → Nat → List Char
  | 0, _ => []
  | width + 1, value => hexDigits width (value / 16) ++ [hexDigit (value % 16)]

/-- How one character stands between two quotation marks `mark`. -/
def quoteChar (mark c : Char) : List Char :=
  if c = mark ∨ c = '\\' then ['\\', c]
  else if c = '\n' then ['\\', 'n']
  else if c = '\r' then ['\\', 'r']
  else if c = '\t' then ['\\', 't']
  else if isPrintable c then [c]
  else if c.toNat < 0x100 then '\\' :: 'x' :: hexDigits 2 c.toNat
  else if c.toNat < 0x10000 then '\\' :: 'u' :: hexDigits 4 c.toNat
  else '\\' :: 'U' :: hexDigits 8 c.toNat

/-- The mark that a text is quoted with. -/
def quoteMark (text : List Char) : Char :=
  if text.contains '\'' && !text.contains '"' then '"' else '\''

/-- The text in quotation marks. -/
def quoteChars (text : List Char) : List Char :=
  let mark := quoteMark text
  mark :: text.flatMap (quoteChar mark) ++ [mark]

/-- The string in quotation marks. -/
def quoted (text : String) : String :=
  String.ofList (quoteChars text.toList)

example : quoteChars ['a', '\''] = ['"', 'a', '\'', '"'] := by decide +kernel

example : quoteChars ['\'', '"'] = ['\'', '\\', '\'', '"', '\''] := by decide +kernel

example : quoteChars ['\u200B'] = ['\'', '\\', 'u', '2', '0', '0', 'b', '\''] := by
  decide +kernel

end PolarCalc.Text
