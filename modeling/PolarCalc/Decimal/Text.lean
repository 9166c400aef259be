import PolarCalc.Decimal.Basic
import PolarCalc.Text.Blank
import PolarCalc.Text.Digit
/-!
# Decimal text

Writing decimals in general notation and reading floating-point text.  A number
with `places` significant digits is written positionally while its leading digit
stands between the ten-thousandths and the last place, otherwise with an
exponent of at least two digits; zeros at the end of the fraction are dropped.
-/

namespace PolarCalc.Decimal

open PolarCalc.Text

/-- The digits of a natural number in base ten. -/
def digitChars (n : Nat) : List Char := Nat.toDigits 10 n

/-- The exponent part: its sign and at least two digits. -/
def exponentText (e : Int) : List Char :=
  let digits := digitChars e.natAbs
  let padded := if digits.length < 2 then '0' :: digits else digits
  'e' :: (if e < 0 then '-' else '+') :: padded

/-- The digits without the zeros at the end. -/
def dropTrailingZeros (digits : List Char) : List Char :=
  (digits.reverse.dropWhile (· == '0')).reverse

/-- A fraction after its point, nothing when there is none. -/
def fractionText (digits : List Char) : List Char :=
  if digits.isEmpty then [] else '.' :: digits

/-- A positive number in general notation, where `lead` is the place of the
leading digit. -/
def layout (places : Nat) (digits : List Char) (lead : Int) : List Char :=
  if lead < -4 ∨ (places : Int) ≤ lead then
    digits.take 1 ++ fractionText (dropTrailingZeros (digits.drop 1)) ++ exponentText lead
  else if lead < 0 then
    '0' :: fractionText (List.replicate (-lead - 1).toNat '0' ++ dropTrailingZeros digits)
  else
    digits.take (lead.toNat + 1) ++ fractionText (dropTrailingZeros (digits.drop (lead.toNat + 1)))

/-- A decimal of `places` significant digits in general notation. -/
def general (places : Nat) (d : Decimal) : List Char :=
  let sign := if d.negative then ['-'] else []
  if d.digits = 0 then sign ++ ['0']
  else
    let digits := digitChars d.digits
    sign ++ layout places digits (d.exponent + ((digits.length - 1 : Nat) : Int))

/-- A double in general notation with `places` significant digits. -/
def generalText (places : Nat) : Double → List Char
  | .nan => ['n', 'a', 'n']
  | .infinite negative => (if negative then ['-'] else []) ++ ['i', 'n', 'f']
  | .finite negative units _ => general places (nearest places negative units Double.oneUnits)

/-- The double nearest to its own decimal of `places` significant digits. -/
def roundSignificant (places : Nat) : Double → Double
  | .finite negative units _ => (nearest places negative units Double.oneUnits).toDouble
  | x => x

/-! ## Reading -/

/-- The digits at the front of a text, with single underscores between them, and
what follows; digits of any script count. -/
def readDigits : List Char → List Nat × List Char
  | [] => ([], [])
  | c :: rest =>
      match digitValue? c with
      | none => ([], c :: rest)
      | some value =>
          match rest with
          | '_' :: next :: more =>
              if (digitValue? next).isSome then
                let (values, remaining) := readDigits (next :: more)
                (value :: values, remaining)
              else ([value], '_' :: next :: more)
          | rest =>
              let (values, remaining) := readDigits rest
              (value :: values, remaining)

/-- The number that digits in base ten denote. -/
def ofDigits (values : List Nat) : Nat :=
  values.foldl (fun n value => 10 * n + value) 0

/-- A sign at the front: is it a minus, and the rest. -/
def readSign : List Char → Bool × List Char
  | '-' :: rest => (true, rest)
  | '+' :: rest => (false, rest)
  | rest => (false, rest)

/-- The exponent at the end of a number: nothing, or `e`, a sign and digits. -/
def readExponent? : List Char → Option Int
  | [] => some 0
  | c :: rest =>
      if c = 'e' ∨ c = 'E' then
        let (negative, rest) := readSign rest
        match readDigits rest with
        | ([], _) => none
        | (values, []) => some (signed negative (ofDigits values))
        | _ => none
      else none

/-- An unsigned number: digits, a point with digits on either side of it, and an
exponent. -/
def readUnsigned? (negative : Bool) (text : List Char) : Option Decimal :=
  let (whole, rest) := readDigits text
  let (fraction, rest) :=
    match rest with
    | '.' :: rest => readDigits rest
    | rest => ([], rest)
  if whole.isEmpty && fraction.isEmpty then none
  else (readExponent? rest).map fun e =>
    ⟨negative, ofDigits (whole ++ fraction), e - fraction.length⟩

/-- A word without regard to the case of ASCII letters. -/
def sameWord (word : String) (text : List Char) : Bool :=
  text.map Char.toLower == word.toList

/-- The double that a text denotes: a decimal number, `inf`, `infinity` or
`nan`, with padding around it and a sign before it. -/
def readDouble? (text : List Char) : Option Double :=
  let (negative, body) := readSign (trimPadding text)
  if sameWord "inf" body || sameWord "infinity" body then some (.infinite negative)
  else if sameWord "nan" body then some .nan
  else (readUnsigned? negative body).map toDouble

example : general 15 ⟨false, 125, -3⟩ = ['0', '.', '1', '2', '5'] := by decide +kernel

example : general 3 ⟨true, 125, 7⟩ = ['-', '1', '.', '2', '5', 'e', '+', '0', '9'] := by
  decide +kernel

example : (readUnsigned? false ['1', '_', '0', '.', '5', 'e', '2']) = some ⟨false, 105, 1⟩ := by
  decide +kernel

end PolarCalc.Decimal
