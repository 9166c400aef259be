import PolarCalc.Proofs.Grammar.Room
import PolarCalc.Proofs.Grammar.RoundTrip
/-!
# Every text is read or refused with a place

Reading a text ends with a tree that is well formed, or with an error that stands
in the text and says what was found there and what was expected.  It ends because
every rule that reads anything moves on, not because the room that the rules are
given runs out.
-/

namespace PolarCalc

open PolarCalc.Text

/-- An error as a reader may rely on it.  Its span is one character or empty at the end,
unless it reports text left over, when it reaches to the end. -/
structure SyntaxError.WellPlaced (e : SyntaxError) (text : List Char) : Prop where
  start_le_stop : e.start ≤ e.stop
  stop_le : e.stop ≤ text.length
  expected_ne_nil : e.expected ≠ []
  expected_nodup : e.expected.Nodup
  found_end_iff : e.found = some "end of input" ↔ e.start = text.length
  found_eq : ∀ c, text[e.start]? = some c → e.found = some (String.ofList (quoteChars [c]))
  span : if e.message = "Unexpected trailing input"
    then e.start < text.length ∧ e.stop = text.length
    else e.stop = min (e.start + 1) text.length

namespace Grammar

/-- The rule moves on whenever it reads something. -/
def Rule.Advances {α : Type} (rule : Rule α) (text : List Char) : Prop :=
  ∀ c a c', c.In text → (rule c).result = .ok (a, c') → c'.In text ∧ c.pos < c'.pos

/-- What a tier has for operands. -/
def operandRule : Tier → Rule Expr
  | .relational => term expression
  | .sum => binaryLevel .relational (term expression)
  | .product => binaryLevel .sum (binaryLevel .relational (term expression))

/-- The rules that read expressions. -/
def expressionRules : List (Rule Expr) := [
  parenthesized expression, listTerm expression, callTerm expression, term expression,
  binaryLevel .relational (operandRule .relational), binaryLevel .sum (operandRule .sum),
  binaryLevel .product (operandRule .product), ample .power,
  prefixedBy "j" (ample .power), prefixedBy "-" (ample .power), unaryLevel (ample .power),
  expression]

/-- The rules that read statements. -/
def statementRules : List (Rule Statement) := [definition, assignment, statement]

/-- The rules that read tokens. -/
def tokenRules : List (Rule String) := [name, integer, number]

/-- Every rule that reads something moves on. -/
structure RulesAdvance (text : List Char) : Prop where
  tokens : ∀ rule ∈ tokenRules, rule.Advances text
  words : ∀ w : String, w.toList ≠ [] → (word w).Advances text
  expressions : ∀ rule ∈ expressionRules, rule.Advances text
  statements : ∀ rule ∈ statementRules, rule.Advances text

/-- No rule stops for want of room: the two rules at which the grammar turns back on itself
are what they are written as, with themselves inside, and loops do not depend on how many
turns they are given. -/
structure AmpleRoom (text : List Char) : Prop where
  conditional : ∀ c, c.In text → expression c = conditionalLevel expression (ample .power) c
  power : ∀ c, c.In text → ample .power c = powerLevel expression (ample .power) c
  items : ∀ c fuel, c.In text → c.remaining ≤ fuel →
    moreItems expression fuel c = moreItems expression c.remaining c
  params : ∀ c fuel, c.In text → c.remaining ≤ fuel →
    moreItems name fuel c = moreItems name c.remaining c
  operators : ∀ tier c fuel left whole, c.In text → c.remaining ≤ fuel →
    chain tier (operandRule tier) fuel left whole c =
      chain tier (operandRule tier) c.remaining left whole c

section Rules

variable {α : Type} {text : List Char} {n : Nat}

theorem Rule.Alike.advances {rule : Rule α} (h : rule.Alike text 0 rule) : rule.Advances text := by
  intro c a c' hc hread
  exact (h c hc (Nat.zero_le _)).stops a c' hread

theorem operandRule_alike (tier : Tier) : (operandRule tier).Alike text n (operandRule tier) := by
  have hterm : (term expression).Alike text n (term expression) := term_alike expression_alike
  cases tier with
  | relational => exact hterm
  | sum => exact binaryLevel_alike hterm
  | product => exact binaryLevel_alike (binaryLevel_alike hterm)

theorem definition_alike : definition.Alike text n definition := by
  intro c hc hn
  refine (word_alike (by decide) c hc hn).bind fun _ c₁ hc₁ h₁ => ?_
  refine (name_alike (n := n) c₁ hc₁ (by omega)).bind fun function c₂ hc₂ h₂ => ?_
  refine (word_alike (n := n) (by decide) c₂ hc₂ (by omega)).bind fun _ c₃ hc₃ h₃ => ?_
  have hparams := separatedItems_alike (n := n) name_alike (by decide : ")".toList ≠ []) c₃ hc₃
    (by omega)
  refine hparams.bind fun params c₄ hc₄ h₄ => ?_
  refine (word_alike (n := n) (by decide) c₄ hc₄ (by omega)).bind fun _ c₅ hc₅ h₅ => ?_
  refine (expression_alike (n := n) c₅ hc₅ (by omega)).bind fun body c₆ hc₆ h₆ => ?_
  exact .pure hc₆ (by omega) _

theorem assignment_alike : assignment.Alike text n assignment := by
  intro c hc hn
  refine (keyword_alike (by decide) c hc hn).bind fun _ c₁ hc₁ h₁ => ?_
  refine (name_alike (n := n) c₁ hc₁ (by omega)).bind fun target c₂ hc₂ h₂ => ?_
  refine (word_alike (n := n) (by decide) c₂ hc₂ (by omega)).bind fun _ c₃ hc₃ h₃ => ?_
  refine (expression_alike (n := n) c₃ hc₃ (by omega)).bind fun body c₄ hc₄ h₄ => ?_
  exact .pure hc₄ (by omega) _

theorem statement_alike : statement.Alike text n statement := by
  intro c hc hn
  obtain ⟨hblanks, hpos⟩ := hc.skipBlanks
  have hrules : (Rule.firstOf definition
      [assignment, expression.map fun body => ⟨.express, body⟩]).Alike text n
      (Rule.firstOf definition [assignment, expression.map fun body => ⟨.express, body⟩]) :=
    .firstOf definition_alike (.cons assignment_alike (.cons (expression_alike.map _) .nil))
  exact (hrules c.skipBlanks hblanks (by omega)).imp (by omega)

end Rules

/-! ## Rules that move on and have room -/

theorem rulesAdvance (text : List Char) : RulesAdvance text where
  tokens rule hrule := by
    simp only [tokenRules, List.mem_cons, List.not_mem_nil, or_false] at hrule
    rcases hrule with rfl | rfl | rfl
    · exact name_alike.advances
    · exact integer_alike.advances
    · exact number_alike.advances
  words _ hne := (word_alike hne).advances
  expressions rule hrule := by
    have hexpression {n : Nat} : expression.Alike text n expression := expression_alike
    have hpower : (ample .power).Alike text 0 (ample .power) := ample_alike .power
    simp only [expressionRules, List.mem_cons, List.not_mem_nil, or_false] at hrule
    rcases hrule with rfl | rfl | rfl | rfl | rfl | rfl | rfl | rfl | rfl | rfl | rfl | rfl
    · exact (parenthesized_alike hexpression).advances
    · exact (listTerm_alike hexpression).advances
    · exact (callTerm_alike hexpression).advances
    · exact (term_alike hexpression).advances
    · exact (binaryLevel_alike (operandRule_alike _)).advances
    · exact (binaryLevel_alike (operandRule_alike _)).advances
    · exact (binaryLevel_alike (operandRule_alike _)).advances
    · exact hpower.advances
    · exact (prefixedBy_alike hpower _).advances
    · exact (prefixedBy_alike hpower _).advances
    · exact (unaryLevel_alike hpower).advances
    · exact hexpression.advances
  statements rule hrule := by
    simp only [statementRules, List.mem_cons, List.not_mem_nil, or_false] at hrule
    rcases hrule with rfl | rfl | rfl
    · exact definition_alike.advances
    · exact assignment_alike.advances
    · exact statement_alike.advances

theorem ampleRoom (text : List Char) : AmpleRoom text where
  conditional _ hc := expression_eq hc
  power _ hc := ample_power hc
  items _ _ hc hfuel :=
    (moreItems_alike (n := 0) expression_alike hc (Nat.zero_le _) hfuel (Nat.le_refl _)).same
  params _ _ hc hfuel :=
    (moreItems_alike (n := 0) name_alike hc (Nat.zero_le _) hfuel (Nat.le_refl _)).same
  operators tier _ _ left whole hc hfuel :=
    (chain_alike (n := 0) (operandRule_alike tier) hc (Nat.zero_le _) hfuel (Nat.le_refl _) left
      whole).same

/-! ## Errors -/

theorem describe_of_getElem? {text : List Char} {i : Nat} {c : Char} (h : text[i]? = some c) :
    (Cursor.ofText text i).describe = String.ofList (quoteChars [c]) := by
  obtain ⟨hlt, hc⟩ := List.getElem?_eq_some_iff.1 h
  rw [Cursor.describe, Cursor.ofText]
  simp only [List.drop_eq_getElem_cons hlt, hc]

theorem quoted_ne_end (c : Char) : String.ofList (quoteChars [c]) ≠ "end of input" := by
  intro h
  have hchars := congrArg String.toList h
  rw [String.toList_ofList, quoteChars] at hchars
  have hmark : quoteMark [c] = 'e' := (List.cons.inj hchars).1
  rw [quoteMark] at hmark
  split at hmark <;> exact absurd hmark (by decide)

theorem describe_eq_end_iff {text : List Char} {i : Nat} (hi : i ≤ text.length) :
    (Cursor.ofText text i).describe = "end of input" ↔ i = text.length := by
  constructor
  · intro h
    by_contra hne
    have hlt : i < text.length := Nat.lt_of_le_of_ne hi hne
    rw [describe_of_getElem? (List.getElem?_eq_getElem hlt)] at h
    exact quoted_ne_end _ h
  · rintro rfl
    rw [Cursor.describe, Cursor.ofText]
    simp only [List.drop_length]

end Grammar

namespace SyntaxError

open Grammar (Cursor describe_of_getElem? describe_eq_end_iff)

variable {e : SyntaxError} {text : List Char}

theorem Located.message_ne (h : e.Located text) : e.message ≠ "Unexpected trailing input" := by
  intro hmessage
  have hhead := h.message_head
  rw [hmessage] at hhead
  exact absurd hhead (by decide)

theorem Located.wellPlaced (h : e.Located text) : e.WellPlaced text where
  start_le_stop := by
    have hstart := h.start_le
    rw [h.stop_eq]
    omega
  stop_le := by
    rw [h.stop_eq]
    exact Nat.min_le_right _ _
  expected_ne_nil := h.expected_ne_nil
  expected_nodup := h.expected_nodup
  found_end_iff := by rw [h.found_eq, Option.some.injEq, describe_eq_end_iff h.start_le]
  found_eq c hc := by rw [h.found_eq, describe_of_getElem? hc]
  span := by
    rw [if_neg h.message_ne]
    exact h.stop_eq

theorem mem_of_farthest? {failures : List SyntaxError} (h : farthest? failures = some e) :
    e ∈ failures := by
  induction failures with
  | nil => cases h
  | cons f rest ih =>
      rw [farthest?] at h
      cases hrest : farthest? rest with
      | none =>
          rw [hrest] at h
          cases h
          exact List.mem_cons_self
      | some g =>
          rw [hrest] at h
          simp only at h
          split at h
          · cases h
            exact List.mem_cons_self
          · cases h
            exact List.mem_cons_of_mem _ (ih hrest)

end SyntaxError

namespace Grammar

theorem trailingInput_wellPlaced {c : Cursor} {text : List Char} (hc : c.In text)
    (hlt : c.pos < text.length) : (trailingInput c).WellPlaced text := by
  have hfound : (trailingInput c).found = some (Cursor.ofText text c.pos).describe := by
    simp only [trailingInput, Cursor.describe, Cursor.ofText, hc.here.rest]
  exact {
    start_le_stop := by
      rw [trailingInput, hc.length]
      exact Nat.le_of_lt hlt
    stop_le := Nat.le_of_eq hc.length
    expected_ne_nil := List.cons_ne_nil _ _
    expected_nodup := by simp [trailingInput]
    found_end_iff := by rw [hfound, Option.some.injEq, describe_eq_end_iff hc.pos_le]; rfl
    found_eq := fun d hd => by rw [hfound]; exact congrArg some (describe_of_getElem? hd)
    span := by
      rw [trailingInput, if_pos rfl]
      exact ⟨hlt, hc.length⟩ }

/-- The error of an attempt that should reach the end is one of its failures, or text is
left over. -/
theorem Attempt.Alike.whole_wellPlaced {α : Type} {text : List Char} {n : Nat}
    {x : Attempt (α × Cursor)} (h : x.Alike text n x) {e : SyntaxError} (he : x.whole = .error e) :
    e.WellPlaced text := by
  rw [Attempt.whole] at he
  cases hresult : x.result with
  | error f =>
      rw [hresult] at he
      cases he
      exact (h.fails _ hresult).wellPlaced
  | ok read =>
      obtain ⟨a, c⟩ := read
      obtain ⟨hc, -⟩ := h.stops a c hresult
      rw [hresult] at he
      simp only at he
      split at he
      · cases he
      · rename_i hend
        have hlt : c.pos < text.length := by
          refine Nat.lt_of_le_of_ne hc.pos_le fun heq => hend ?_
          rw [Cursor.atEnd, beq_iff_eq, hc.length, heq]
        have htrailing := trailingInput_wellPlaced hc hlt
        cases hfarthest : SyntaxError.farthest? x.noted with
        | none =>
            rw [hfarthest] at he
            cases he
            exact htrailing
        | some f =>
            rw [hfarthest] at he
            have hraised := h.accounted.raised_of_noted f (SyntaxError.mem_of_farthest? hfarthest)
            have hf := h.failures f hraised
            simp only at he
            split at he
            · cases he
              exact hf.wellPlaced
            · cases he
              exact htrailing

/-! ## Whole texts -/

/-- Every text is read as a tree that is well formed, or it is refused with an error at its
place; so is every failure on the way, and no rule stands still or runs out of room. -/
theorem parse_total (text : String) :
    ((∃ t, Statement.parse text = .ok t ∧ t.Canonical) ∨
      ∃ e, Statement.parse text = .error e ∧ e.WellPlaced text.toList) ∧
    ((∃ e, Expr.parse text = .ok e ∧ Canonical (.level .conditional) e) ∨
      ∃ e, Expr.parse text = .error e ∧ e.WellPlaced text.toList) ∧
    (∀ e ∈ (statement (.ofText text.toList 0)).failures, e.WellPlaced text.toList) ∧
    (∀ e ∈ (expression (Cursor.ofText text.toList 0).skipBlanks).failures,
      e.WellPlaced text.toList) ∧
    RulesAdvance text.toList ∧ AmpleRoom text.toList := by
  have hstart := Cursor.in_ofText text.toList
  have hstatement := statement_alike (n := 0) _ hstart (Nat.zero_le _)
  have hexpression := expression_alike (n := 0) _ hstart.skipBlanks.1 (Nat.zero_le _)
  refine ⟨?_, ?_, fun e he => (hstatement.failures e he).wellPlaced,
    fun e he => (hexpression.failures e he).wellPlaced, rulesAdvance _, ampleRoom _⟩
  · cases hparse : Statement.parse text with
    | ok t => exact .inl ⟨t, rfl, (parse_sound hparse).1⟩
    | error e => exact .inr ⟨e, rfl, hstatement.whole_wellPlaced hparse⟩
  · cases hparse : Expr.parse text with
    | ok e => exact .inl ⟨e, rfl, (Expr.parse_eq_ok_iff.1 hparse).1⟩
    | error e => exact .inr ⟨e, rfl, hexpression.whole_wellPlaced hparse⟩

example : Expr.parse "1 2" = .error
    ⟨"Unexpected trailing input", 2, 3, ["end of input"], some "'2'"⟩ := by
  decide +kernel

end Grammar

end PolarCalc
