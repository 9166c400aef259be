import PolarCalc.Text.Ranges
/-!
# Blank characters

The characters that separate words: the space, the tabs and line breaks, the
four information separators and the wide, narrow and ideographic spaces.  The
zero-width characters are not blank.
-/

namespace PolarCalc.Text

/-- The blank code points. -/
def blankRanges : Ranges := [
  (0x9, 0xD), (0x1C, 0x20), (0x85, 0x85), (0xA0, 0xA0), (0x1680, 0x1680),
  (0x2000, 0x200A), (0x2028, 0x2029), (0x202F, 0x202F), (0x205F, 0x205F), (0x3000, 0x3000)]

/-- Does the character only separate words? -/
def isBlank (c : Char) : Bool :=
  blankRanges.contains c.toNat

/-- The code points of the four information separators. -/
def separatorRanges : Ranges := [(0x1C, 0x1F)]

/-- May the character stand around the digits of a number?  All blanks may but
the information separators. -/
def isPadding (c : Char) : Bool :=
  isBlank c && !separatorRanges.contains c.toNat

/-- The text without the characters of a class at either end. -/
def trimBoth (drop : Char → Bool) (text : List Char) : List Char :=
  ((text.dropWhile drop).reverse.dropWhile drop).reverse

/-- The text without the blanks at either end. -/
def trimBlanks : List Char → List Char := trimBoth isBlank

/-- The text of a number without what may stand around it. -/
def trimPadding : List Char → List Char := trimBoth isPadding

example : [' ', '\t', '\n', '\u00A0', '\u3000'].all isBlank = true := by decide +kernel

example : ['a', '_', '0', '\u200B', '\uFEFF'].any isBlank = false := by decide +kernel

example : trimBlanks [' ', 'a', ' ', 'b', '\n'] = ['a', ' ', 'b'] := by decide +kernel

example : trimPadding ['\u2003', '1', '\x1C', '\n'] = ['1', '\x1C'] := by decide +kernel

end PolarCalc.Text
