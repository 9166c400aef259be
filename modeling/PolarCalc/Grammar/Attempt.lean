import PolarCalc.Grammar.SyntaxError
/-!
# Attempts at reading

An attempt ends with what was read or with a failure, and keeps every failure
that was raised on the way, also those from which it recovered by trying
something else.  Taking note of a failure is a step of its own: it is done where
an attempt goes on after a failure, and where a choice has nothing left to try.
Only what was noted is remembered when a text turns out to go on behind what was
read.
-/

namespace PolarCalc.Grammar

/-- The end of an attempt, all failures raised during it and those of which note
was taken, both in order. -/
structure Attempt (α : Type) where
  result : Except SyntaxError α
  failures : List SyntaxError
  noted : List SyntaxError

namespace Attempt

/-- Success without reading. -/
def pure {α : Type} (a : α) : Attempt α := ⟨.ok a, [], []⟩

/-- One attempt after another. -/
def bind {α β : Type} (x : Attempt α) (f : α → Attempt β) : Attempt β :=
  match x.result with
  | .ok a =>
      let y := f a
      ⟨y.result, x.failures ++ y.failures, x.noted ++ y.noted⟩
  | .error e => ⟨.error e, x.failures, x.noted⟩

instance : Monad Attempt where
  pure := pure
  bind := bind

/-- The attempt with what it read passed through a function. -/
def map {α β : Type} (f : α → β) (x : Attempt α) : Attempt β :=
  ⟨x.result.map f, x.failures, x.noted⟩

/-- Failure. -/
def raise {α : Type} (e : SyntaxError) : Attempt α := ⟨.error e, [e], []⟩

/-- Failure, of which note is taken at once. -/
def giveUp {α : Type} (e : SyntaxError) : Attempt α := ⟨.error e, [e], [e]⟩

/-- The attempt, or what is done about its failure when it has been noted. -/
def recover {α : Type} (x : Attempt α) (handle : SyntaxError → Attempt α) : Attempt α :=
  match x.result with
  | .ok _ => x
  | .error e =>
      let y := handle e
      ⟨y.result, x.failures ++ y.failures, x.noted ++ e :: y.noted⟩

end Attempt

/-- What a rule reads at a cursor, and the cursor behind it. -/
abbrev Rule (α : Type) := Cursor → Attempt (α × Cursor)

/-- The failure to find any of `expected`. -/
def fail {α : Type} (c : Cursor) (message : String) (expected : List String) : Attempt α :=
  .raise (.expecting c message expected)

namespace Rule

/-- The rule with its result passed through a function. -/
def map {α β : Type} (f : α → β) (rule : Rule α) : Rule β := fun c =>
  (rule c).map fun read => (f read.1, read.2)

/-- The first of the remaining rules that succeeds, where `failure` is the
failure of those before. -/
def orElse {α : Type} (failure : SyntaxError) : List (Rule α) → Rule α
  | [], _ => .giveUp failure
  | rule :: rules, c => (rule c).recover fun e => orElse (failure.merge e) rules c

/-- The first rule that succeeds; when none does, the failure that got
furthest. -/
def firstOf {α : Type} (rule : Rule α) (rules : List (Rule α)) : Rule α := fun c =>
  (rule c).recover fun e => orElse e rules c

end Rule

end PolarCalc.Grammar
