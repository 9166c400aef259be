import PolarCalc.Proofs.Grammar.Powers
/-!
# Where rules refuse and how far they read

No rule for an expression reads anything where no operand begins.  Where one does
begin, the end of a binary level or of a power depends on that operand only
through the place where it ends: neither the tree built so far nor the room for
further operators matters, as long as there is room for the rest of the text.
-/

namespace PolarCalc.Grammar

open PolarCalc.Text

/-! ## Refusals -/

section Refusals

variable {conditional operand power : Rule Expr} {tier : Tier} {rest : List Char}

theorem parenthesized_refuses (h : ¬ ['('] <+: rest) :
    (parenthesized conditional).Refuses rest := by
  have hword : (word "(").Refuses rest := word_refuses h
  intro c hc
  rw [parenthesized, Attempt.value?_bind, hword c hc, Option.bind_none]

theorem listTerm_refuses (h : ¬ ['['] <+: rest) : (listTerm conditional).Refuses rest := by
  have hword : (word "[").Refuses rest := word_refuses h
  intro c hc
  rw [listTerm, Attempt.value?_bind, hword c hc, Option.bind_none]

theorem callTerm_refuses (h : ∀ c ∈ rest.head?, isNameStart c = false) :
    (callTerm conditional).Refuses rest := by
  intro c hc
  rw [callTerm, Attempt.value?_bind, name_refuses h c hc, Option.bind_none]

theorem binaryLevel_refuses (h : operand.Refuses rest) :
    (binaryLevel tier operand).Refuses rest := by
  intro c hc
  rw [binaryLevel, Attempt.value?_bind, h c hc, Option.bind_none]

theorem term_refuses (h : ∀ c ∈ rest.head?, startsOperand c = false) :
    (term conditional).Refuses rest := by
  have hapart : ∀ c ∈ rest.head?, c ≠ '(' ∧ c ≠ '[' ∧ c ≠ '.' ∧ isAsciiDigit c = false ∧
      isNameStart c = false := by
    intro c hc
    have hstart := h c hc
    simp only [startsOperand, Bool.or_eq_false_iff, beq_eq_false_iff_ne, ne_eq] at hstart
    obtain ⟨⟨⟨⟨hround, hsquare⟩, hpoint⟩, hdigit⟩, hname⟩ := hstart
    exact ⟨hround, hsquare, hpoint, hdigit, hname⟩
  have hname : ∀ c ∈ rest.head?, isNameStart c = false := fun c hc => (hapart c hc).2.2.2.2
  refine .firstOf fun rule hrule => ?_
  simp only [List.mem_cons, List.not_mem_nil, or_false] at hrule
  rcases hrule with rfl | rfl | rfl | rfl | rfl | rfl
  · refine parenthesized_refuses ?_
    rintro ⟨behind, rfl⟩
    exact (hapart '(' rfl).1 rfl
  · refine listTerm_refuses ?_
    rintro ⟨behind, rfl⟩
    exact (hapart '[' rfl).2.1 rfl
  · exact callTerm_refuses hname
  · exact (name_refuses hname).map _
  · exact (integer_refuses fun c hc => (hapart c hc).2.2.2.1).map _
  · exact (number_refuses fun c hc => ⟨(hapart c hc).2.2.2.1, (hapart c hc).2.2.1⟩).map _

theorem unbracketed_refuse {ch : Char} {more : List Char} (h : ch = '(' ∨ ch = '[') :
    ∀ rule ∈ [callTerm conditional, name.map fun text => Expr.term (.ident text),
      integer.map fun text => Expr.term (.integer text),
      number.map fun text => Expr.term (.number text)], rule.Refuses (ch :: more) := by
  have hapart : isNameStart ch = false ∧ isAsciiDigit ch = false ∧ ch ≠ '.' := by
    rcases h with rfl | rfl <;> exact ⟨by decide, by decide, by decide⟩
  obtain ⟨hstart, hdigit, hpoint⟩ := hapart
  have hname : ∀ d ∈ (ch :: more).head?, isNameStart d = false := by
    rintro _ ⟨⟩
    exact hstart
  have hliteral : ∀ d ∈ (ch :: more).head?, isAsciiDigit d = false ∧ d ≠ '.' := by
    rintro _ ⟨⟩
    exact ⟨hdigit, hpoint⟩
  intro rule hrule
  simp only [List.mem_cons, List.not_mem_nil, or_false] at hrule
  rcases hrule with rfl | rfl | rfl | rfl
  · exact callTerm_refuses hname
  · exact (name_refuses hname).map _
  · exact (integer_refuses fun d hd => (hliteral d hd).1).map _
  · exact (number_refuses hliteral).map _

theorem literals_refuse {ch : Char} {more : List Char} (h : isNameStart ch = true) :
    integer.Refuses (ch :: more) ∧ number.Refuses (ch :: more) := by
  have hdigit : isAsciiDigit ch = false := by
    by_contra hdigit
    rw [isNameStart_of_isAsciiDigit (by simpa using hdigit)] at h
    cases h
  constructor
  · refine integer_refuses ?_
    rintro _ ⟨⟩
    exact hdigit
  · refine number_refuses ?_
    rintro _ ⟨⟩
    refine ⟨hdigit, ?_⟩
    rintro rfl
    exact absurd h (by decide)

theorem powerLevel_refuses (h : (term conditional).Refuses rest) :
    (powerLevel conditional power).Refuses rest := by
  have hproduct : (product conditional).Refuses rest :=
    binaryLevel_refuses <| binaryLevel_refuses <| binaryLevel_refuses h
  intro c hc
  rw [powerLevel, Attempt.value?_bind, hproduct c hc, Option.bind_none]

end Refusals

/-! ## Ends -/

/-- Where a rule stops, if it reads something. -/
def Rule.end? {α : Type} (rule : Rule α) (c : Cursor) : Option Cursor :=
  (rule c).value?.map Prod.snd

theorem Rule.end?_of_value? {α : Type} {rule : Rule α} {c c' : Cursor} {a : α}
    (h : (rule c).value? = some (a, c')) : rule.end? c = some c' := by
  rw [end?, h]
  rfl

theorem Rule.value?_of_end? {α : Type} {rule : Rule α} {c c' : Cursor}
    (h : rule.end? c = some c') : ∃ a, (rule c).value? = some (a, c') := by
  obtain ⟨⟨a, d⟩, hread, rfl⟩ := Option.map_eq_some_iff.1 h
  exact ⟨a, hread⟩

/-! ## Operands by their first character -/

section Operands

variable {conditional : Rule Expr} {c d : Cursor} {ch : Char} {text : List Char}

theorem value?_term_of_isNameChar (hc : c.At (ch :: text)) (h : isNameChar ch = true) :
    (term conditional c).value? =
      [callTerm conditional, name.map fun text => .term (.ident text),
        integer.map fun text => .term (.integer text),
        number.map fun text => .term (.number text)].findSome? fun rule => (rule c).value? := by
  have hround : (parenthesized conditional c).value? = none := by
    refine parenthesized_refuses ?_ c hc
    rintro ⟨behind, heq⟩
    cases heq
    exact absurd h (by decide)
  have hsquare : (listTerm conditional c).value? = none := by
    refine listTerm_refuses ?_ c hc
    rintro ⟨behind, heq⟩
    cases heq
    exact absurd h (by decide)
  rw [term, Rule.value?_firstOf, List.findSome?_cons, hround, List.findSome?_cons, hsquare]

theorem value?_term_of_isNameStart (hc : c.At (ch :: text)) (h : isNameStart ch = true) :
    (term conditional c).value? = (callTerm conditional c).value?.or
      ((name.map fun text => Expr.term (.ident text)) c).value? := by
  have hliterals : integer.Refuses (ch :: text) ∧ number.Refuses (ch :: text) := literals_refuse h
  obtain ⟨hinteger, hnumber⟩ := hliterals
  rw [value?_term_of_isNameChar hc (isNameChar_of_isNameStart h)]
  simp only [List.findSome?_cons, List.findSome?_nil, hinteger.map _ c hc, hnumber.map _ c hc]
  cases (callTerm conditional c).value? with
  | some read => rfl
  | none => cases ((name.map fun text => Expr.term (.ident text)) c).value? <;> rfl

theorem callTerm_of_term {function : String} {args : List Expr} (hc : c.At (ch :: text))
    (h : isNameStart ch = true)
    (hread : (term conditional c).value? = some (.term (.call function args), d)) :
    (callTerm conditional c).value? = some (.term (.call function args), d) := by
  rw [value?_term_of_isNameStart hc h, Option.or_eq_some_iff, Rule.value?_map,
    Option.map_eq_some_iff] at hread
  rcases hread with hcall | ⟨-, _, -, heq⟩
  · exact hcall
  · cases heq

theorem term_of_isAsciiDigit (hc : c.At (ch :: text)) (h : isAsciiDigit ch = true) :
    ∃ tok s rest, (IsInteger tok ∨ IsNumber tok) ∧ ch :: text = s ++ rest ∧ Lexeme tok s ∧
      NoBlank rest ∧ (term conditional).end? c = some (c.advance s.length) := by
  have hname : ∀ d ∈ (ch :: text).head?, isNameStart d = false := by
    rintro _ ⟨⟩
    exact isNameStart_of_isAsciiDigit h
  have hcall : (callTerm conditional c).value? = none := callTerm_refuses hname c hc
  have hident := (name_refuses hname).map (fun text => Expr.term (.ident text)) c hc
  rw [Rule.end?, value?_term_of_isNameChar hc (isNameChar_of_isAsciiDigit h)]
  simp only [List.findSome?_cons, List.findSome?_nil, hcall, hident, Rule.value?_map]
  cases hinteger : (integer c).value? with
  | some read =>
      obtain ⟨a, d⟩ := read
      obtain ⟨s, rest, hsplit, rfl, -, htok, hlexeme, hblank⟩ := integer_yields.split hc hinteger
      exact ⟨a.toList, s, rest, .inl htok, hsplit, hlexeme, hblank, rfl⟩
  | none =>
      obtain ⟨⟨a, d⟩, hnumber⟩ : ∃ read, (number c).value? = some read := by
        obtain ⟨tok, htok⟩ := Option.isSome_iff_exists.1 (numberToken?_isSome_of_digit h)
        rw [number, token, hc.rest, htok]
        exact ⟨_, rfl⟩
      obtain ⟨s, rest, hsplit, rfl, -, htok, hlexeme, hblank⟩ := number_yields.split hc hnumber
      rw [hnumber]
      exact ⟨a.toList, s, rest, .inr htok, hsplit, hlexeme, hblank, rfl⟩

end Operands

/-! ## Chains -/

section Chains

variable {tier : Tier} {operand : Rule Expr} {P : Expr → List Char → List Char → Prop}
  {fuel fuel' : Nat} {left left' whole whole' : Expr} {c d : Cursor} {text : List Char}

theorem value?_chain_of_none (hc : c.At text) (hnone : ∀ w ∈ spellings tier, ¬ w.toList <+: text) :
    (chain tier operand fuel left whole c).value? = some (whole, c) := by
  have hfound := optionally_accepts_none hnone c hc
  cases fuel with
  | zero =>
      simp only [chain, Attempt.value?_bind, hfound]
      rfl
  | succ fuel =>
      simp only [chain, Attempt.value?_bind, hfound]
      rfl

theorem value?_chain_of_some {w : String}
    (hfound : (optionally (spellings tier) c).value? = some (some w, d)) :
    (chain tier operand (fuel + 1) left whole c).value? =
      (operand d).value?.bind fun read =>
        (chain tier operand fuel (.binary tier left (operatorOf w) read.1)
          (.binary tier left (operatorOf w) read.1) read.2).value? := by
  simp only [chain, Attempt.value?_bind, hfound, Option.bind_some]

theorem chain_end? (h : operand.Yields P) (hc : c.At text) (hfuel : text.length ≤ fuel)
    (hfuel' : text.length ≤ fuel') :
    (chain tier operand fuel left whole).end? c =
      (chain tier operand fuel' left' whole').end? c := by
  induction fuel generalizing fuel' left left' whole whole' c text with
  | zero =>
      obtain rfl : text = [] := List.length_eq_zero_iff.1 (by omega)
      have hnone : ∀ w ∈ spellings tier, ¬ w.toList <+: [] := by
        intro w hw hprefix
        obtain ⟨d, ds, htext, -⟩ := spelling_eq_cons hw
        rw [htext, List.prefix_nil] at hprefix
        cases hprefix
      simp only [Rule.end?, value?_chain_of_none hc hnone, Option.map_some]
  | succ fuel ih =>
      by_cases hnone : ∀ w ∈ spellings tier, ¬ w.toList <+: text
      · simp only [Rule.end?, value?_chain_of_none hc hnone, Option.map_some]
      -- an operator takes at least one character, so both chains have room left behind it
      · obtain ⟨w, hfound⟩ :
            ∃ w, (spellings tier).find? (fun w => c.startsWith w.toList) = some w := by
          rw [← Option.isSome_iff_exists, List.find?_isSome]
          by_contra hall
          exact hnone fun w hw hprefix => hall ⟨w, hw, (hc.startsWith_iff _).2 hprefix⟩
        have hread : (optionally (spellings tier) c).value? = some (some w, c.behind w.length) := by
          rw [value?_optionally, hfound]
        obtain ⟨s, rest, rfl, hcursor, hd, hw, hlexeme, -⟩ := (optionally_yields _).split hc hread
        have hpositive : 0 < s.length := by
          obtain ⟨e, es, htext, -⟩ := spelling_eq_cons hw
          have hle := hlexeme.length_le
          rw [htext, List.length_cons] at hle
          omega
        rw [List.length_append] at hfuel hfuel'
        obtain ⟨fuel', rfl⟩ : ∃ n, fuel' = n + 1 := ⟨fuel' - 1, by omega⟩
        rw [Rule.end?, Rule.end?, value?_chain_of_some hread, value?_chain_of_some hread]
        cases hright : (operand (c.behind w.length)).value? with
        | none => rfl
        | some read =>
            obtain ⟨right, e⟩ := read
            obtain ⟨s', rest', rfl, -, he, -⟩ := h.split hd hright
            rw [List.length_append] at hfuel hfuel'
            exact ih he (by omega) (by omega)

end Chains

/-! ## Levels -/

section Levels

variable {tier : Tier} {operand conditional power : Rule Expr}
  {P : Expr → List Char → List Char → Prop} {c d : Cursor} {text text' : List Char}

theorem value?_binaryLevel : (binaryLevel tier operand c).value? =
    (operand c).value?.bind fun read =>
      (chain tier operand read.2.remaining read.1 (.bare (.tier tier) read.1) read.2).value? :=
  Attempt.value?_bind _ _

theorem binaryLevel_end? (h : operand.Yields P) (hc : c.At text)
    (hends : operand.end? c = operand.end? d) :
    (binaryLevel tier operand).end? c = (binaryLevel tier operand).end? d := by
  simp only [Rule.end?, value?_binaryLevel] at hends ⊢
  cases hread : (operand c).value? with
  | none =>
      rw [hread, Option.map_none, eq_comm, Option.map_eq_none_iff] at hends
      rw [hends]
  | some read =>
      obtain ⟨first, c₁⟩ := read
      obtain ⟨s, rest, rfl, -, hc₁, -⟩ := h.split hc hread
      rw [hread, Option.map_some, eq_comm, Option.map_eq_some_iff] at hends
      obtain ⟨⟨first', c₂⟩, hread', rfl⟩ := hends
      rw [hread']
      exact chain_end? h hc₁ hc₁.remaining_eq.ge hc₁.remaining_eq.ge

/-- Behind its first operator a level ends where a level would that begins there. -/
theorem binaryLevel_end?_behind (h : operand.Yields P) {first : Expr} {c₁ : Cursor} {sign w : _}
    (hread : (operand c).value? = some (first, c₁)) (hc₁ : c₁.At (sign ++ text))
    (hfound : (optionally (spellings tier)).Accepts sign (some w) text) (hsign : sign ≠ [])
    (hends : operand.end? (c₁.advance sign.length) = operand.end? d) :
    (binaryLevel tier operand).end? c = (binaryLevel tier operand).end? d := by
  have hpositive := List.length_pos_iff.2 hsign
  have hroom := hc₁.remaining_eq
  rw [List.length_append] at hroom
  obtain ⟨fuel, hfuel⟩ : ∃ fuel, c₁.remaining = fuel + 1 := ⟨c₁.remaining - 1, by omega⟩
  simp only [Rule.end?] at hends
  rw [Rule.end?, Rule.end?, value?_binaryLevel, value?_binaryLevel, hread, Option.bind_some]
  simp only
  rw [hfuel, value?_chain_of_some (hfound c₁ hc₁)]
  cases hright : (operand (c₁.advance sign.length)).value? with
  | none =>
      rw [hright, Option.map_none, eq_comm, Option.map_eq_none_iff] at hends
      rw [hends]
      rfl
  | some read =>
      obtain ⟨right, m⟩ := read
      obtain ⟨s, rest, hsplit, -, hm, -⟩ := h.split hc₁.advance hright
      rw [hright, Option.map_some, eq_comm, Option.map_eq_some_iff] at hends
      obtain ⟨⟨right', m'⟩, hright', rfl⟩ := hends
      rw [hright']
      refine chain_end? h hm ?_ hm.remaining_eq.ge
      rw [hsplit, List.length_append] at hroom
      omega

theorem powerLevel_end? (hends : (product conditional).end? c = (product conditional).end? d) :
    (powerLevel conditional power).end? c = (powerLevel conditional power).end? d := by
  simp only [Rule.end?, powerLevel, Attempt.value?_bind] at hends ⊢
  cases hread : (product conditional c).value? with
  | none =>
      rw [hread, Option.map_none, eq_comm, Option.map_eq_none_iff] at hends
      rw [hends]
  | some read =>
      obtain ⟨base, c₁⟩ := read
      rw [hread, Option.map_some, eq_comm, Option.map_eq_some_iff] at hends
      obtain ⟨⟨base', c₂⟩, hread', rfl⟩ := hends
      rw [hread']
      simp only [Option.bind_some]
      cases (optionally ["^"] c₂).value? with
      | none => rfl
      | some found =>
          obtain ⟨caret?, c₃⟩ := found
          cases caret? with
          | none => rfl
          | some caret =>
              simp only [Option.bind_some, Attempt.value?_bind]
              cases (power c₃).value? <;> rfl

theorem value?_binaryLevel_of_none {first : Expr} (hread : (operand c).value? = some (first, d))
    (hd : d.At text) (hnone : ∀ w ∈ spellings tier, ¬ w.toList <+: text) :
    (binaryLevel tier operand c).value? = some (.bare (.tier tier) first, d) := by
  rw [value?_binaryLevel, hread]
  exact value?_chain_of_none hd hnone

end Levels

end PolarCalc.Grammar
