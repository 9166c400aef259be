import PolarCalc.Expr.Basic
/-!
# Source text of trees

The text that a tree is written as: one space around binary operators, after a
prefix operator and after commas, parentheses around an operand that is not a
literal, a name, a list or a call.  Bare levels leave no trace.
-/

namespace PolarCalc

/-- Texts with a comma and a space between them. -/
def separated : List (List Char) → List Char
  | [] => []
  | [text] => text
  | text :: rest => text ++ [',', ' '] ++ separated rest

namespace Head

/-- What a statement begins with. -/
def chars : Head → List Char
  | express => []
  | assign name => ['l', 'e', 't', ' '] ++ name.toList ++ [' ', '=', ' ']
  | define name params =>
      '\\' :: name.toList ++ ['('] ++ separated (params.map String.toList)
        ++ [')', ' ', '-', '>', ' ']

end Head

namespace Expr

/-- Does the expression stand as an operand without parentheses? -/
def isAtom : Expr → Bool
  | ident _ | number _ | integer _ | list _ | call _ _ => true
  | _ => false

mutual

/-- The characters that an expression is written as. -/
def chars : Expr → List Char
  | ident name => name.toList
  | number text => text.toList
  | integer text => text.toList
  | list items => ['['] ++ separated (itemsChars items) ++ [']']
  | call function args => function.toList ++ ['('] ++ separated (itemsChars args) ++ [')']
  | term inner => if inner.isAtom then chars inner else ['('] ++ chars inner ++ [')']
  | bare _ inner => chars inner
  | prefixed op operand => op.toList ++ [' '] ++ chars operand
  | power base exponent => chars base ++ [' ', '^', ' '] ++ chars exponent
  | binary _ left op right => chars left ++ [' '] ++ op.toList ++ [' '] ++ chars right
  | ifThen condition thenBranch => chars condition ++ [' ', '?', ' '] ++ chars thenBranch
  | ifElse condition elseBranch =>
      chars condition ++ [' ', '?', ' ', ':', ' '] ++ chars elseBranch
  | ifThenElse condition thenBranch elseBranch =>
      chars condition ++ [' ', '?', ' '] ++ chars thenBranch ++ [' ', ':', ' ']
        ++ chars elseBranch
  | misplaced head body => head.chars ++ chars body
  | foreign => []

/-- The characters of each of the expressions. -/
def itemsChars : List Expr → List (List Char)
  | [] => []
  | item :: items => chars item :: itemsChars items

end

mutual

/-- Is there something in the tree that is no expression at all? -/
def hasForeign : Expr → Bool
  | ident _ | number _ | integer _ => false
  | list items => anyForeign items
  | call _ args => anyForeign args
  | term inner => hasForeign inner
  | bare _ inner => hasForeign inner
  | prefixed _ operand => hasForeign operand
  | power base exponent => hasForeign base || hasForeign exponent
  | binary _ left _ right => hasForeign left || hasForeign right
  | ifThen condition thenBranch => hasForeign condition || hasForeign thenBranch
  | ifElse condition elseBranch => hasForeign condition || hasForeign elseBranch
  | ifThenElse condition thenBranch elseBranch =>
      hasForeign condition || hasForeign thenBranch || hasForeign elseBranch
  | misplaced _ body => hasForeign body
  | foreign => true

def anyForeign : List Expr → Bool
  | [] => false
  | item :: items => hasForeign item || anyForeign items

end

/-- The source text of an expression. -/
def source (e : Expr) : String := String.ofList e.chars

/-- The source text of an expression, if every part of it has one. -/
def source? (e : Expr) : Option String := if e.hasForeign then none else some e.source

end Expr

namespace Statement

/-- The characters that a statement is written as. -/
def chars (s : Statement) : List Char := s.head.chars ++ s.body.chars

/-- The source text of a statement. -/
def source (s : Statement) : String := String.ofList s.chars

/-- The source text of a statement, if every part of it has one. -/
def source? (s : Statement) : Option String :=
  if s.body.hasForeign then none else some s.source

end Statement

end PolarCalc
