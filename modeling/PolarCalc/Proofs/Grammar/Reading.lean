import PolarCalc.Grammar.Parse
/-!
# What rules read

An attempt without its failures is an optional value, and a rule without them a
partial function on the texts that a cursor stands before.  Three judgements
about such a function carry everything that is proved about the grammar:

* `Accepts` — before `text ++ rest` the rule reads `text`;
* `Refuses` — before `rest` the rule reads nothing;
* `Yields`  — whatever the rule reads, text and result satisfy a relation.
-/

namespace PolarCalc.Grammar

open PolarCalc.Text

/-! ## Values of attempts -/

namespace Attempt

variable {α β : Type}

/-- What was read, if the attempt succeeded. -/
def value? (x : Attempt α) : Option α := x.result.toOption

@[simp] theorem value?_pure (a : α) : (Pure.pure a : Attempt α).value? = some a := rfl

@[simp] theorem value?_bind (x : Attempt α) (f : α → Attempt β) :
    (x >>= f).value? = x.value?.bind fun a => (f a).value? := by
  show (Attempt.bind x f).value? = _
  unfold Attempt.bind value?
  cases x.result <;> rfl

@[simp] theorem value?_map (f : α → β) (x : Attempt α) : (x.map f).value? = x.value?.map f := by
  unfold Attempt.map value?
  cases x.result <;> rfl

@[simp] theorem value?_fail (c : Cursor) (message : String) (expected : List String) :
    (fail c message expected : Attempt α).value? = none := rfl

theorem value?_recover (x : Attempt α) (handle : SyntaxError → Attempt α) (y : Option α)
    (hy : ∀ e, (handle e).value? = y) : (x.recover handle).value? = x.value?.or y := by
  unfold Attempt.recover
  cases hx : x.result with
  | ok a => simp [value?, hx, Except.toOption]
  | error e =>
      have hnone : x.value? = none := by simp [value?, hx, Except.toOption]
      rw [hnone, Option.none_or]
      exact hy e

theorem whole_eq_ok_iff (x : Attempt (α × Cursor)) (a : α) :
    x.whole = .ok a ↔ ∃ c, x.value? = some (a, c) ∧ c.atEnd = true := by
  unfold Attempt.whole value?
  cases hx : x.result with
  | error e => simp [Except.toOption]
  | ok read =>
      obtain ⟨b, c⟩ := read
      simp only [Except.toOption, Option.some.injEq, Prod.mk.injEq]
      split
      · constructor
        · intro h
          exact ⟨c, ⟨by simpa using h, rfl⟩, by assumption⟩
        · rintro ⟨_, ⟨rfl, -⟩, -⟩
          rfl
      · rename_i hend
        constructor
        · intro h
          split at h <;> cases h
        · rintro ⟨_, ⟨-, rfl⟩, hatEnd⟩
          exact absurd hatEnd hend

end Attempt

/-! ## Ordered choice -/

theorem Rule.value?_orElse {α : Type} (failure : SyntaxError) (rules : List (Rule α))
    (c : Cursor) :
    (Rule.orElse failure rules c).value? = rules.findSome? fun rule => (rule c).value? := by
  induction rules generalizing failure with
  | nil => rfl
  | cons rule rules ih =>
      rw [Rule.orElse, Attempt.value?_recover _ _ _ fun e => ih (failure.merge e),
        List.findSome?_cons]
      cases (rule c).value? <;> rfl

theorem Rule.value?_firstOf {α : Type} (rule : Rule α) (rules : List (Rule α)) (c : Cursor) :
    (Rule.firstOf rule rules c).value? =
      (rule :: rules).findSome? fun rule => (rule c).value? := by
  rw [Rule.firstOf, Attempt.value?_recover _ _ _ fun e => Rule.value?_orElse e rules c,
    List.findSome?_cons]
  cases (rule c).value? <;> rfl

@[simp] theorem Rule.value?_map {α β : Type} (f : α → β) (rule : Rule α) (c : Cursor) :
    (rule.map f c).value? = (rule c).value?.map fun read => (f read.1, read.2) :=
  Attempt.value?_map _ _

/-! ## Cursors before a text -/

namespace Cursor

/-- The cursor stands before `text`, which reaches to the end. -/
structure At (c : Cursor) (text : List Char) : Prop where
  rest : c.rest = text
  length : c.pos + text.length = c.length

variable {c : Cursor} {s text rest : List Char}

theorem at_ofText (text : List Char) : (ofText text 0).At text := by
  constructor <;> simp [ofText]

@[simp] theorem advance_advance (c : Cursor) (m n : Nat) :
    (c.advance m).advance n = c.advance (m + n) := by
  simp [advance, Nat.add_assoc]

theorem At.advance (h : c.At (s ++ rest)) : (c.advance s.length).At rest := by
  obtain ⟨hrest, hlength⟩ := h
  constructor
  · simp [Cursor.advance, hrest]
  · simp only [Cursor.advance, List.length_append] at *
    omega

theorem At.startsWith_iff (h : c.At text) (word : List Char) :
    c.startsWith word = true ↔ word <+: text := by
  have hpos : c.pos ≤ c.length := by
    have := h.length
    omega
  simp [startsWith, hpos, h.rest]

theorem At.remaining_eq (h : c.At text) : c.remaining = text.length := by
  have := h.length
  unfold remaining
  omega

theorem At.atEnd_iff (h : c.At text) : c.atEnd = true ↔ text = [] := by
  have hlength := h.length
  rw [atEnd, beq_iff_eq, ← List.length_eq_zero_iff]
  omega

end Cursor

theorem startsWith_of_startsPrefixed {op : String} {c : Cursor} (h : startsPrefixed op c = true) :
    c.startsWith op.toList = true := by
  rw [startsPrefixed, Bool.and_eq_true] at h
  exact h.1

/-! ## Judgements about rules -/

/-- Before `text` and then `rest` the rule reads `a` and stops before `rest`. -/
def Rule.Accepts {α : Type} (rule : Rule α) (text : List Char) (a : α) (rest : List Char) : Prop :=
  ∀ c, c.At (text ++ rest) → (rule c).value? = some (a, c.advance text.length)

/-- Before `rest` the rule reads nothing. -/
def Rule.Refuses {α : Type} (rule : Rule α) (rest : List Char) : Prop :=
  ∀ c, c.At rest → (rule c).value? = none

/-- Whatever the rule reads stands in the text, and result, text and what is left
are related by `P`. -/
def Rule.Yields {α : Type} (rule : Rule α) (P : α → List Char → List Char → Prop) : Prop :=
  ∀ c text a c', c.At text → (rule c).value? = some (a, c') →
    ∃ s rest, text = s ++ rest ∧ c' = c.advance s.length ∧ P a s rest

namespace Rule

variable {α β : Type} {rule : Rule α} {P Q : α → List Char → List Char → Prop}

theorem Yields.imp (h : rule.Yields P) (hPQ : ∀ a s rest, P a s rest → Q a s rest) :
    rule.Yields Q := by
  intro c text a c' hc hread
  obtain ⟨s, rest, htext, hc', hP⟩ := h c text a c' hc hread
  exact ⟨s, rest, htext, hc', hPQ a s rest hP⟩

theorem Yields.split {c c' : Cursor} {text : List Char} {a : α} (h : rule.Yields P)
    (hc : c.At text) (hread : (rule c).value? = some (a, c')) :
    ∃ s rest, text = s ++ rest ∧ c' = c.advance s.length ∧ c'.At rest ∧ P a s rest := by
  obtain ⟨s, rest, rfl, rfl, hP⟩ := h c text a c' hc hread
  exact ⟨s, rest, rfl, rfl, hc.advance, hP⟩

theorem Yields.map (f : α → β) {P : β → List Char → List Char → Prop}
    (h : rule.Yields fun a s rest => P (f a) s rest) : (rule.map f).Yields P := by
  intro c text b c' hc hread
  rw [value?_map, Option.map_eq_some_iff] at hread
  obtain ⟨⟨a, d⟩, hread, heq⟩ := hread
  cases heq
  exact h c text a d hc hread

theorem Accepts.value?_bind {next : α × Cursor → Attempt β} {c : Cursor} {s rest : List Char}
    {a : α} (h : rule.Accepts s a rest) (hc : c.At (s ++ rest)) :
    (rule c >>= next).value? = (next (a, c.advance s.length)).value? := by
  rw [Attempt.value?_bind, h c hc, Option.bind_some]

theorem Refuses.value?_bind {next : α × Cursor → Attempt β} {c : Cursor} {rest : List Char}
    (h : rule.Refuses rest) (hc : c.At rest) : (rule c >>= next).value? = none := by
  rw [Attempt.value?_bind, h c hc, Option.bind_none]

theorem Accepts.map (f : α → β) {text rest : List Char} {a : α}
    (h : rule.Accepts text a rest) : (rule.map f).Accepts text (f a) rest := by
  intro c hc
  rw [value?_map, h c hc]
  rfl

theorem Refuses.map (f : α → β) {rest : List Char} (h : rule.Refuses rest) :
    (rule.map f).Refuses rest := by
  intro c hc
  rw [value?_map, h c hc]
  rfl

theorem Yields.firstOf {rules : List (Rule α)} (h : ∀ r ∈ rule :: rules, r.Yields P) :
    (Rule.firstOf rule rules).Yields P := by
  intro c text a c' hc hread
  rw [value?_firstOf] at hread
  obtain ⟨r, hr, hread⟩ := List.exists_of_findSome?_eq_some hread
  exact h r hr c text a c' hc hread

theorem Refuses.firstOf {rules : List (Rule α)} {rest : List Char}
    (h : ∀ r ∈ rule :: rules, r.Refuses rest) : (Rule.firstOf rule rules).Refuses rest := by
  intro c hc
  rw [value?_firstOf, List.findSome?_eq_none_iff]
  intro r hr
  exact h r hr c hc

end Rule

end PolarCalc.Grammar
