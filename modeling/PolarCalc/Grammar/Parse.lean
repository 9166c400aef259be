import PolarCalc.Expr.Source
import PolarCalc.Grammar.Level
/-!
# Reading whole lines

    statement := definition | assignment | conditional
    definition := '\' name '(' [ name { ',' name } ] ')' '->' conditional
    assignment := 'let' name '=' conditional

A line is read when a statement reaches its end.  When it ends before, and a
failure that was noted got further than it, that failure is reported instead of
the text left over.
-/

namespace PolarCalc

namespace Grammar

/-- The two rules at which the grammar turns back on itself. -/
inductive Goal where
  | conditional
  | power
  deriving DecidableEq, Repr

/-- The rule of a goal, with room for `fuel` turns.  Between two turns at least
one character is read, so the characters that are left always suffice. -/
def goal : Nat → Goal → Rule Expr
  | 0, _ => exhausted
  | fuel + 1, .power => powerLevel (goal fuel .conditional) (goal fuel .power)
  | fuel + 1, .conditional =>
      conditionalLevel (goal fuel .conditional)
        (powerLevel (goal fuel .conditional) (goal fuel .power))

/-- An expression. -/
def expression : Rule Expr := fun c => goal (c.remaining + 1) .conditional c

/-- A function definition. -/
def definition : Rule Statement := fun c => do
  let (_, c) ← word "\\" c
  let (function, c) ← name c
  let (_, c) ← word "(" c
  let (params, c) ← separatedItems name ")" c
  let (_, c) ← word "->" c
  let (body, c) ← expression c
  return (⟨.define function params, body⟩, c)

/-- An assignment to a variable. -/
def assignment : Rule Statement := fun c => do
  let (_, c) ← keyword "let" c
  let (target, c) ← name c
  let (_, c) ← word "=" c
  let (body, c) ← expression c
  return (⟨.assign target, body⟩, c)

/-- A statement, with blanks before it. -/
def statement : Rule Statement := fun c =>
  Rule.firstOf definition [assignment, expression.map fun body => ⟨.express, body⟩] c.skipBlanks

/-- The failure for text left over behind a statement. -/
def trailingInput (c : Cursor) : SyntaxError where
  message := "Unexpected trailing input"
  start := c.pos
  stop := c.length
  expected := ["end of input"]
  found := some c.describe

/-- The result of an attempt that must reach the end of the text. -/
def Attempt.whole {α : Type} (attempt : Attempt (α × Cursor)) : Except SyntaxError α :=
  match attempt.result with
  | .error e => .error e
  | .ok (a, c) =>
      if c.atEnd then .ok a
      else
        match SyntaxError.farthest? attempt.noted with
        | some e => .error (if c.pos < e.start then e else trailingInput c)
        | none => .error (trailingInput c)

end Grammar

/-- The statement that a text is. -/
def Statement.parse (text : String) : Except SyntaxError Statement :=
  (Grammar.statement (.ofText text.toList 0)).whole

/-- The expression that a text is. -/
def Expr.parse (text : String) : Except SyntaxError Expr :=
  (Grammar.expression (Grammar.Cursor.ofText text.toList 0).skipBlanks).whole

end PolarCalc
