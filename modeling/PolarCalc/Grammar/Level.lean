import PolarCalc.Expr.Basic
import PolarCalc.Grammar.Scan
/-!
# The levels of the grammar

    conditional := unary [ '?' [ conditional ] [ ':' conditional ] ]
    unary       := [ 'j' | '-' ] power
    power       := product [ '^' power ]
    product     := sum { ( '*' | '/' ) sum }
    sum         := relational { ( '+' | '-' ) relational }
    relational  := term { ( '=' | '≠' | '>' | '<' | '≥' | '≤' ) term }
    term        := '(' conditional ')' | list | call | name | integer | number

Each level is a rule over the rules that it contains.  Where the grammar turns
back on itself the inner rule is a parameter: `conditional` for what stands in
parentheses, lists, calls and branches, `power` for an exponent.
-/

namespace PolarCalc.Grammar

/-- The failure of a rule that was given no room to read in. -/
def exhausted {α : Type} : Rule α := fun c => fail c "Expected expression" ["expression"]

/-! ## Separated items -/

/-- Further items, each after a comma. -/
def moreItems {α : Type} (item : Rule α) : Nat → Rule (List α)
  | 0, c => return ([], c)
  | fuel + 1, c =>
      if c.startsWith [','] then do
        let (_, c) ← word "," c
        let (first, c) ← item c
        (moreItems item fuel).map (first :: ·) c
      else return ([], c)

/-- Items with commas between them up to the closing word, possibly none. -/
def separatedItems {α : Type} (item : Rule α) (closer : String) : Rule (List α) := fun c =>
  if c.startsWith closer.toList then do
    let (_, c) ← word closer c
    return ([], c)
  else do
    let (first, c) ← item c
    let (rest, c) ← moreItems item c.remaining c
    if c.startsWith closer.toList then
      let (_, c) ← word closer c
      return (first :: rest, c)
    else
      fail c ("Expected ',' or '" ++ closer ++ "'") [quotedWord ",", quotedWord closer]

/-! ## Terms -/

/-- An expression in parentheses. -/
def parenthesized (conditional : Rule Expr) : Rule Expr := fun c => do
  let (_, c) ← word "(" c
  let (inner, c) ← conditional c
  if c.startsWith [')'] then
    let (_, c) ← word ")" c
    return (.term inner, c)
  else fail c "Expected ')'" [quotedWord ")"]

/-- Items in brackets. -/
def listTerm (conditional : Rule Expr) : Rule Expr := fun c => do
  let (_, c) ← word "[" c
  let (items, c) ← separatedItems conditional "]" c
  return (.term (.list items), c)

/-- A name with arguments in parentheses. -/
def callTerm (conditional : Rule Expr) : Rule Expr := fun c => do
  let (function, c) ← name c
  let (_, c) ← word "(" c
  let (args, c) ← separatedItems conditional ")" c
  return (.term (.call function args), c)

/-- An operand. -/
def term (conditional : Rule Expr) : Rule Expr :=
  .firstOf (parenthesized conditional) [
    listTerm conditional,
    callTerm conditional,
    name.map fun text => .term (.ident text),
    integer.map fun text => .term (.integer text),
    number.map fun text => .term (.number text)]

/-! ## Binary levels -/

/-- The spellings of the operators of a tier, longer ones first. -/
def spellings : Tier → List String
  | .product => ["*", "/"]
  | .sum => ["+", "-"]
  | .relational => ["=/=", "!=", ">=", "<=", "≠", "≥", "≤", "=", ">", "<"]

/-- The operator that a spelling stands for. -/
def operatorOf (spelling : String) : String :=
  if spelling = "=/=" ∨ spelling = "!=" then "≠"
  else if spelling = ">=" then "≥"
  else if spelling = "<=" then "≤"
  else spelling

/-- Further operators of a tier with their right operands, behind `left`;
`whole` is the tree if none follows. -/
def chain (tier : Tier) (operand : Rule Expr) : Nat → (left whole : Expr) → Rule Expr
  | 0, _, whole, c => do
      let (_, c) ← optionally (spellings tier) c
      return (whole, c)
  | fuel + 1, left, whole, c => do
      let (spelling?, c) ← optionally (spellings tier) c
      match spelling? with
      | none => return (whole, c)
      | some spelling =>
          let (right, c) ← operand c
          let tree := .binary tier left (operatorOf spelling) right
          chain tier operand fuel tree tree c

/-- A tier: operands with its operators between them, grouped to the left. -/
def binaryLevel (tier : Tier) (operand : Rule Expr) : Rule Expr := fun c => do
  let (first, c) ← operand c
  chain tier operand c.remaining first (.bare (.tier tier) first) c

/-- The three tiers, the innermost binding strongest. -/
def product (conditional : Rule Expr) : Rule Expr :=
  binaryLevel .product <| binaryLevel .sum <| binaryLevel .relational <| term conditional

/-! ## Powers, prefixes and conditionals -/

/-- A power; powers group to the right. -/
def powerLevel (conditional power : Rule Expr) : Rule Expr := fun c => do
  let (base, c) ← product conditional c
  let (caret?, c) ← optionally ["^"] c
  match caret? with
  | none => return (.bare .power base, c)
  | some _ =>
      let (exponent, c) ← power c
      return (.power base exponent, c)

/-- Does the prefix operator stand here?  A letter or underscore after `j` makes
it the beginning of a name. -/
def startsPrefixed (op : String) (c : Cursor) : Bool :=
  c.startsWith op.toList && !(op == "j" && beginsName (c.advance 1))
where
  beginsName (c : Cursor) : Bool :=
    match c.rest with
    | [] => false
    | char :: _ => Text.isLetter char || char == '_'

/-- A power behind a prefix operator. -/
def prefixedBy (op : String) (power : Rule Expr) : Rule Expr := fun c =>
  if startsPrefixed op c then do
    let (operand, c) ← power (c.behind op.length)
    return (.prefixed op operand, c)
  else fail c ("Expected '" ++ op ++ "'") [quotedWord op]

/-- A power with at most one prefix operator. -/
def unaryLevel (power : Rule Expr) : Rule Expr :=
  .firstOf (prefixedBy "j" power) [prefixedBy "-" power, power.map (.bare .unary)]

/-- What follows the question mark: a branch, a colon with a branch, or both. -/
def branches (conditional : Rule Expr) (condition : Expr) : Rule Expr := fun c =>
  if c.startsWith [':'] then do
    let (_, c) ← word ":" c
    let (elseBranch, c) ← conditional c
    return (.ifElse condition elseBranch, c)
  else do
    let (thenBranch, c) ← conditional c
    if c.startsWith [':'] then
      let (_, c) ← word ":" c
      let (elseBranch, c) ← conditional c
      return (.ifThenElse condition thenBranch elseBranch, c)
    else return (.ifThen condition thenBranch, c)

/-- A conditional; the branches reach as far to the right as they can. -/
def conditionalLevel (conditional power : Rule Expr) : Rule Expr := fun c => do
  let (condition, c) ← unaryLevel power c
  if c.startsWith ['?'] then
    let (_, c) ← word "?" c
    branches conditional condition c
  else return (.bare .conditional condition, c)

end PolarCalc.Grammar
