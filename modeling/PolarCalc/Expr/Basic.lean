/-!
# Expressions and statements

An expression keeps every level of the grammar that it was read through: where a
level applied no operator, it stands as a bare wrapper around the next one, so
that a tree tells exactly how it was written.  Trees may also be built by hand;
then any operator text may stand in them, and a statement or something foreign
may stand where an expression belongs.
-/

namespace PolarCalc

/-- The levels of the grammar with left-associative binary operators. -/
inductive Tier where
  | product
  | sum
  | relational
  deriving DecidableEq, Repr

/-- The levels of the grammar that leave a wrapper when they apply no operator. -/
inductive Level where
  | conditional
  | unary
  | power
  | tier (tier : Tier)
  deriving DecidableEq, Repr

/-- What a statement does with its expression. -/
inductive Head where
  | express
  | assign (name : String)
  | define (name : String) (params : List String)
  deriving DecidableEq, Repr

/-- Expressions. -/
inductive Expr where
  | ident (name : String)
  | number (text : String)
  | integer (text : String)
  | list (items : List Expr)
  | call (function : String) (args : List Expr)
  /-- An operand: a literal, a name, a list, a call, or an expression in
  parentheses. -/
  | term (inner : Expr)
  /-- A level without operator.  There are six kinds of these, one for each level, and all
  six are printed as what is inside, evaluated to its value and passed through in the search
  for a name; only as trees do they differ, so that the level is data here. -/
  | bare (level : Level) (inner : Expr)
  | prefixed (op : String) (operand : Expr)
  | power (base exponent : Expr)
  | binary (tier : Tier) (left : Expr) (op : String) (right : Expr)
  /-- A conditional with a branch for true only. -/
  | ifThen (condition thenBranch : Expr)
  /-- A conditional with a branch for false only. -/
  | ifElse (condition elseBranch : Expr)
  | ifThenElse (condition thenBranch elseBranch : Expr)
  /-- A statement where an expression belongs. -/
  | misplaced (head : Head) (body : Expr)
  /-- Something that is no expression at all. -/
  | foreign
  deriving Repr

namespace Expr

instance : Inhabited Expr := ⟨.foreign⟩

mutual

/-- Are two expressions the same tree? -/
def same : Expr → Expr → Bool
  | ident n, ident m => n == m
  | number t, number u => t == u
  | integer t, integer u => t == u
  | list xs, list ys => sameItems xs ys
  | call f xs, call g ys => f == g && sameItems xs ys
  | term e, term f => same e f
  | bare l e, bare m f => l == m && same e f
  | prefixed o e, prefixed p f => o == p && same e f
  | power b e, power c f => same b c && same e f
  | binary t l o r, binary u m p s => t == u && same l m && o == p && same r s
  | ifThen c t, ifThen d u => same c d && same t u
  | ifElse c e, ifElse d f => same c d && same e f
  | ifThenElse c t e, ifThenElse d u f => same c d && same t u && same e f
  | misplaced h e, misplaced k f => h == k && same e f
  | foreign, foreign => true
  | _, _ => false

/-- Are two lists of expressions the same trees in the same order? -/
def sameItems : List Expr → List Expr → Bool
  | [], [] => true
  | x :: xs, y :: ys => same x y && sameItems xs ys
  | _, _ => false

end

/-- The name that an expression is, if it is nothing but a name inside bare
levels and parentheses. -/
def bareIdentifier? : Expr → Option String
  | ident name => some name
  | term inner => bareIdentifier? inner
  | bare _ inner => bareIdentifier? inner
  | _ => none

mutual

theorem eq_of_same : ∀ e f : Expr, same e f = true → e = f := by
  intro e f h
  cases e <;> cases f <;> simp [same] at h <;> simp_all
  · exact eq_of_sameItems _ _ h
  · exact eq_of_sameItems _ _ h.2
  · exact eq_of_same _ _ h
  · exact eq_of_same _ _ h.2
  · exact eq_of_same _ _ h.2
  · exact ⟨eq_of_same _ _ h.1, eq_of_same _ _ h.2⟩
  · exact ⟨eq_of_same _ _ h.1.1.2, eq_of_same _ _ h.2⟩
  · exact ⟨eq_of_same _ _ h.1, eq_of_same _ _ h.2⟩
  · exact ⟨eq_of_same _ _ h.1, eq_of_same _ _ h.2⟩
  · exact ⟨eq_of_same _ _ h.1.1, eq_of_same _ _ h.1.2, eq_of_same _ _ h.2⟩
  · exact eq_of_same _ _ h.2

theorem eq_of_sameItems : ∀ xs ys : List Expr, sameItems xs ys = true → xs = ys := by
  intro xs ys h
  cases xs <;> cases ys <;> simp [sameItems] at h
  · rfl
  · rw [eq_of_same _ _ h.1, eq_of_sameItems _ _ h.2]

end

mutual

theorem same_self : ∀ e : Expr, same e e = true := by
  intro e
  cases e <;> simp [same]
  · exact sameItems_self _
  · exact sameItems_self _
  · exact same_self _
  · exact same_self _
  · exact same_self _
  · exact ⟨same_self _, same_self _⟩
  · exact ⟨same_self _, same_self _⟩
  · exact ⟨same_self _, same_self _⟩
  · exact ⟨same_self _, same_self _⟩
  · exact ⟨⟨same_self _, same_self _⟩, same_self _⟩
  · exact same_self _

theorem sameItems_self : ∀ xs : List Expr, sameItems xs xs = true := by
  intro xs
  cases xs <;> simp [sameItems]
  exact ⟨same_self _, sameItems_self _⟩

end

instance : DecidableEq Expr := fun e f =>
  decidable_of_iff (same e f = true) ⟨eq_of_same e f, fun h => h ▸ same_self e⟩

end Expr

/-- A line: what it does, and its expression. -/
structure Statement where
  head : Head
  body : Expr
  deriving DecidableEq, Repr

end PolarCalc
