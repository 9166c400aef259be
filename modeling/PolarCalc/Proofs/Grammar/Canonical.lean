import PolarCalc.Expr.Source
import PolarCalc.Grammar.Level
import PolarCalc.Proofs.Grammar.Token
/-!
# Canonical trees

The trees that the grammar can build, described without the rules that build
them: every level holds the next one, operators group as they bind, tokens
belong to their languages, and two ambiguities of the text are resolved the way
the rules resolve them.

* An else-branch belongs to the nearest condition that lacks one, so that no
  then-branch in front of an else-branch may end in a condition without it.
* The letter `j` in front of an operand is the prefix operator wherever it can
  be, so that without an operator a unary level may not begin with a name that
  falls apart into `j` and a number, nor with a call of `j` with one argument.
-/

namespace PolarCalc

open PolarCalc.Text

/-! ## Categories of the grammar -/

/-- The levels of the grammar and the operands below them. -/
inductive Category where
  | level (level : Level)
  | operand
  deriving DecidableEq, Repr

namespace Level

/-- What a level holds where it applies no operator. -/
def below : Level → Category
  | conditional => .level .unary
  | unary => .level .power
  | power => .level (.tier .product)
  | tier .product => .level (.tier .sum)
  | tier .sum => .level (.tier .relational)
  | tier .relational => .operand

end Level

/-- The operators of a tier, each by its one sign. -/
def Tier.operators : Tier → List String
  | .product => ["*", "/"]
  | .sum => ["+", "-"]
  | .relational => ["=", "≠", ">", "<", "≥", "≤"]

theorem Grammar.operatorOf_mem {tier : Tier} {spelling : String}
    (h : spelling ∈ Grammar.spellings tier) : Grammar.operatorOf spelling ∈ tier.operators := by
  cases tier <;> revert spelling <;> decide

theorem Tier.operators_subset {tier : Tier} {op : String} (h : op ∈ tier.operators) :
    op ∈ Grammar.spellings tier ∧ Grammar.operatorOf op = op := by
  cases tier <;> revert op <;> decide

/-! ## The two ambiguities -/

namespace Expr

/-- Would a colon behind the conditional be taken for its own? -/
def isOpen : Expr → Bool
  | ifThen _ _ => true
  | ifElse _ elseBranch => isOpen elseBranch
  | ifThenElse _ _ elseBranch => isOpen elseBranch
  | _ => false

/-- The operand that an expression begins with. -/
def leading : Expr → Expr
  | bare _ inner => leading inner
  | power base _ => leading base
  | binary _ left _ _ => leading left
  | term inner => inner
  | e => e

/-- Does a name begin with the letter `j` and a digit? -/
def splitsAfterJ : List Char → Bool
  | 'j' :: c :: _ => isAsciiDigit c
  | _ => false

/-- Is the operand still an operand where the prefix `j` may stand? -/
def keepsJ : Expr → Bool
  | ident name => !splitsAfterJ name.toList
  | call function args =>
      !splitsAfterJ function.toList && !(function == "j" && args.length == 1)
  | _ => true

end Expr

/-! ## Canonical trees -/

/-- The trees of each category. -/
inductive Canonical : Category → Expr → Prop
  | bare {level : Level} {e : Expr} : level ≠ .unary → Canonical level.below e →
      Canonical (.level level) (.bare level e)
  | plain {e : Expr} : e.leading.keepsJ = true → Canonical (.level .power) e →
      Canonical (.level .unary) (.bare .unary e)
  | prefixed {op : String} {e : Expr} : op = "j" ∨ op = "-" → Canonical (.level .power) e →
      Canonical (.level .unary) (.prefixed op e)
  | power {base exponent : Expr} : Canonical (.level (.tier .product)) base →
      Canonical (.level .power) exponent → Canonical (.level .power) (.power base exponent)
  | first {tier : Tier} {left right : Expr} {op : String} : op ∈ tier.operators →
      Canonical (Level.tier tier).below left → Canonical (Level.tier tier).below right →
      Canonical (.level (.tier tier)) (.binary tier left op right)
  | further {tier : Tier} {left middle right : Expr} {op next : String} : next ∈ tier.operators →
      Canonical (.level (.tier tier)) (.binary tier left op middle) →
      Canonical (Level.tier tier).below right →
      Canonical (.level (.tier tier)) (.binary tier (.binary tier left op middle) next right)
  | ifThen {condition thenBranch : Expr} : Canonical (.level .unary) condition →
      Canonical (.level .conditional) thenBranch →
      Canonical (.level .conditional) (.ifThen condition thenBranch)
  | ifElse {condition elseBranch : Expr} : Canonical (.level .unary) condition →
      Canonical (.level .conditional) elseBranch →
      Canonical (.level .conditional) (.ifElse condition elseBranch)
  | ifThenElse {condition thenBranch elseBranch : Expr} :
      Canonical (.level .unary) condition → Canonical (.level .conditional) thenBranch →
      thenBranch.isOpen = false → Canonical (.level .conditional) elseBranch →
      Canonical (.level .conditional) (.ifThenElse condition thenBranch elseBranch)
  | parenthesized {e : Expr} : Canonical (.level .conditional) e → Canonical .operand (.term e)
  | list {items : List Expr} : (∀ item ∈ items, Canonical (.level .conditional) item) →
      Canonical .operand (.term (.list items))
  | call {function : String} {args : List Expr} : Grammar.IsName function.toList →
      (∀ arg ∈ args, Canonical (.level .conditional) arg) →
      Canonical .operand (.term (.call function args))
  | ident {name : String} : Grammar.IsName name.toList → Canonical .operand (.term (.ident name))
  | integer {text : String} : Grammar.IsInteger text.toList →
      Canonical .operand (.term (.integer text))
  | number {text : String} : Grammar.IsNumber text.toList →
      Canonical .operand (.term (.number text))

/-- The names in the head of a statement are names. -/
def Head.Canonical : Head → Prop
  | express => True
  | assign name => Grammar.IsName name.toList
  | define name params =>
      Grammar.IsName name.toList ∧ ∀ param ∈ params, Grammar.IsName param.toList

/-- A statement holds a canonical conditional, whatever its head does with it. -/
def Statement.Canonical (s : Statement) : Prop :=
  s.head.Canonical ∧ PolarCalc.Canonical (.level .conditional) s.body

namespace Canonical

theorem isAtom_eq_false {level : Level} {e : Expr} (h : Canonical (.level level) e) :
    e.isAtom = false := by
  cases h <;> rfl

theorem keepsJ {level : Level} {e : Expr} (h : Canonical (.level level) e) : e.keepsJ = true := by
  cases h <;> rfl

theorem isOpen_eq_false {k : Category} {e : Expr} (h : Canonical k e)
    (hk : k ≠ .level .conditional) : e.isOpen = false := by
  cases h with
  | ifThen | ifElse | ifThenElse => exact absurd rfl hk
  | _ => rfl

theorem leading {k : Category} {e : Expr} (h : Canonical k e) (hk : k ≠ .level .unary)
    (hc : k ≠ .level .conditional) : Canonical .operand (.term e.leading) := by
  induction h with
  | @bare level e hne h ih =>
      cases level with
      | conditional => exact absurd rfl hc
      | unary => exact absurd rfl hne
      | power => exact ih nofun nofun
      | tier t => cases t <;> exact ih nofun nofun
  | plain | prefixed => exact absurd rfl hk
  | ifThen | ifElse | ifThenElse => exact absurd rfl hc
  | power _ _ ih => exact ih nofun nofun
  | @first tier _ _ _ _ _ _ ih => cases tier <;> exact ih nofun nofun
  | further _ _ _ ih => exact ih nofun nofun
  | parenthesized h => exact .parenthesized h
  | list h => exact .list h
  | call hname h => exact .call hname h
  | ident h => exact .ident h
  | integer h => exact .integer h
  | number h => exact .number h

end Canonical

end PolarCalc
