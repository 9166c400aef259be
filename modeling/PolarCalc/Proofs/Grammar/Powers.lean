import PolarCalc.Proofs.Grammar.Spelling
/-!
# What the rules up to powers read

Whatever a rule reads is a canonical tree, spelled by the text that was read.
The conditionals inside are read by a rule of which as much is assumed, and two
facts about them depend on what follows: they are canonical if the text goes on
as behind an expression, and an open one is never followed by a colon.
-/

namespace PolarCalc.Grammar

open PolarCalc.Text

/-- `s` spells a canonical tree and no blank follows. -/
def ReadsAs (k : Category) (e : Expr) (s rest : List Char) : Prop :=
  e.Spells s ∧ Canonical k e ∧ NoBlank rest

/-- As `ReadsAs` for a conditional, provided that an expression may end there. -/
def ReadsConditional (e : Expr) (s rest : List Char) : Prop :=
  e.Spells s ∧ NoBlank rest ∧
    (Follows (.level .conditional) rest → Canonical (.level .conditional) e) ∧
    (e.isOpen = true → ¬ [':'] <+: rest)

/-! ## Separated items -/

section Items

variable {α : Type} {item : Rule α} {P : α → List Char → List Char → Prop}

/-- The item was read where a comma or the closing word follows. -/
def Enclosed (P : α → List Char → List Char → Prop) (closer : String) (a : α)
    (s : List Char) : Prop :=
  ∃ rest, P a s rest ∧ ([','] <+: rest ∨ closer.toList <+: rest)

theorem SeparatedMore.starts {Q : α → List Char → Prop} {as : List α} {s rest closing : List Char}
    (h : SeparatedMore Q as s) (hrest : closing <+: rest) :
    [','] <+: s ++ rest ∨ closing <+: s ++ rest := by
  cases as with
  | nil =>
      obtain rfl : s = [] := h
      exact .inr hrest
  | cons a as =>
      obtain ⟨comma, first, more, rfl, hcomma, -⟩ := h
      obtain ⟨blanks, rfl⟩ := hcomma.eq_cons
      exact .inl ⟨blanks ++ first ++ more ++ rest, by simp⟩

theorem moreItems_yields (h : item.Yields P) (closer : String) (fuel : Nat) :
    (moreItems item fuel).Yields fun as s rest =>
      closer.toList <+: rest → SeparatedMore (Enclosed P closer) as s := by
  induction fuel with
  | zero =>
      intro c text as c' hc hread
      cases hread
      exact ⟨[], text, rfl, rfl, fun _ => rfl⟩
  | succ fuel ih =>
      intro c text as c' hc hread
      unfold moreItems at hread
      split at hread
      · simp only [Attempt.value?_bind, Option.bind_eq_some_iff, Rule.value?_map,
          Option.map_eq_some_iff] at hread
        obtain ⟨⟨_, c₁⟩, hcomma, ⟨a, c₂⟩, hfirst, ⟨as, c₃⟩, hmore, heq⟩ := hread
        cases heq
        obtain ⟨s₁, rest₁, rfl, rfl, hc₁, -, hlexeme, -⟩ := (word_yields ",").split hc hcomma
        obtain ⟨s₂, rest₂, rfl, rfl, hc₂, hP⟩ := h.split hc₁ hfirst
        obtain ⟨s₃, rest₃, rfl, rfl, -, hQ⟩ := ih.split hc₂ hmore
        refine ⟨s₁ ++ s₂ ++ s₃, rest₃, by simp, by simp [Nat.add_assoc], fun hclosing => ?_⟩
        have hseparated := hQ hclosing
        exact ⟨s₁, s₂, s₃, rfl, hlexeme, ⟨_, hP, hseparated.starts hclosing⟩, hseparated⟩
      · cases hread
        exact ⟨[], text, rfl, rfl, fun _ => rfl⟩

theorem separatedItems_yields (h : item.Yields P) (closer : String) :
    (separatedItems item closer).Yields fun as s rest => ∃ inside closing, s = inside ++ closing ∧
      Separated (Enclosed P closer) as inside ∧ Lexeme closer.toList closing ∧ NoBlank rest := by
  intro c text as c' hc hread
  unfold separatedItems at hread
  split at hread
  · simp only [Attempt.value?_bind, Option.bind_eq_some_iff] at hread
    obtain ⟨⟨_, c₁⟩, hclosing, heq⟩ := hread
    cases heq
    obtain ⟨s, rest, rfl, rfl, -, -, hlexeme, hblank⟩ := (word_yields closer).split hc hclosing
    exact ⟨s, rest, rfl, rfl, [], s, rfl, rfl, hlexeme, hblank⟩
  · simp only [Attempt.value?_bind, Option.bind_eq_some_iff] at hread
    obtain ⟨⟨a, c₁⟩, hfirst, ⟨as, c₂⟩, hmore, hread⟩ := hread
    obtain ⟨s₁, rest₁, rfl, rfl, hc₁, hP⟩ := h.split hc hfirst
    obtain ⟨s₂, rest₂, rfl, rfl, hc₂, hQ⟩ := (moreItems_yields h closer _).split hc₁ hmore
    split at hread
    · rename_i hstarts
      simp only [Attempt.value?_bind, Option.bind_eq_some_iff] at hread
      obtain ⟨⟨_, c₃⟩, hclosing, heq⟩ := hread
      cases heq
      have hprefix := (hc₂.startsWith_iff _).1 hstarts
      obtain ⟨s₃, rest₃, rfl, rfl, -, -, hlexeme, hblank⟩ :=
        (word_yields closer).split hc₂ hclosing
      have hseparated := hQ hprefix
      exact ⟨s₁ ++ s₂ ++ s₃, rest₃, by simp, by simp [Nat.add_assoc], s₁ ++ s₂, s₃, rfl,
        ⟨s₁, s₂, rfl, ⟨_, hP, hseparated.starts hprefix⟩, hseparated⟩, hlexeme, hblank⟩
    · cases hread

end Items

/-! ## Operands -/

section Operands

variable {conditional : Rule Expr}

theorem Enclosed.canonical {closer : String} {sign : Char} (hcloser : closer.toList = [sign])
    (hstop : sign ∈ (Category.level .conditional).stops) {e : Expr} {s : List Char}
    (h : Enclosed ReadsConditional closer e s) :
    Canonical (.level .conditional) e := by
  obtain ⟨rest, ⟨-, -, hcanonical, -⟩, hrest⟩ := h
  apply hcanonical
  rcases hrest with ⟨behind, rfl⟩ | ⟨behind, rfl⟩
  · exact .cons (by decide)
  · rw [hcloser]
    exact .cons hstop

theorem separatedConditionals_yields (h : conditional.Yields ReadsConditional) {closer : String}
    {sign : Char} (hcloser : closer.toList = [sign])
    (hstop : sign ∈ (Category.level .conditional).stops) :
    (separatedItems conditional closer).Yields fun items s rest => ∃ inside closing,
      s = inside ++ closing ∧ Separated Expr.Spells items inside ∧
      Lexeme closer.toList closing ∧ NoBlank rest ∧
      ∀ item ∈ items, Canonical (.level .conditional) item := by
  refine (separatedItems_yields h closer).imp ?_
  rintro items s rest ⟨inside, closing, rfl, hitems, hclosing, hblank⟩
  refine ⟨inside, closing, rfl, hitems.imp ?_, hclosing, hblank, hitems.forall ?_⟩
  · rintro e - s ⟨_, hreads, -⟩
    exact hreads.1
  · exact fun e s hread => hread.canonical hcloser hstop

theorem parenthesized_yields (h : conditional.Yields ReadsConditional) :
    (parenthesized conditional).Yields (ReadsAs .operand) := by
  intro c text e c' hc hread
  unfold parenthesized at hread
  simp only [Attempt.value?_bind, Option.bind_eq_some_iff] at hread
  obtain ⟨⟨_, c₁⟩, hopening, ⟨inner, c₂⟩, hinner, hread⟩ := hread
  obtain ⟨s₁, rest₁, rfl, rfl, hc₁, -, hlexeme₁, -⟩ := (word_yields "(").split hc hopening
  obtain ⟨s₂, rest₂, rfl, rfl, hc₂, hspells, -, hcanonical, -⟩ := h.split hc₁ hinner
  split at hread
  · rename_i hstarts
    simp only [Attempt.value?_bind, Option.bind_eq_some_iff] at hread
    obtain ⟨⟨_, c₃⟩, hclosing, heq⟩ := hread
    cases heq
    obtain ⟨behind, rfl⟩ := (hc₂.startsWith_iff _).1 hstarts
    obtain ⟨s₃, rest₃, hsplit, rfl, -, -, hlexeme₃, hblank⟩ :=
      (word_yields ")").split hc₂ hclosing
    have hinner : Canonical (.level .conditional) inner := hcanonical (.cons (by decide))
    refine ⟨s₁ ++ s₂ ++ s₃, rest₃, by rw [hsplit]; simp, by simp [Nat.add_assoc], ?_,
      .parenthesized hinner, hblank⟩
    simp only [Expr.Spells, hinner.isAtom_eq_false, Bool.false_eq_true, if_false]
    exact ⟨s₁, s₂, s₃, rfl, hlexeme₁, hspells, hlexeme₃⟩
  · cases hread

theorem listTerm_yields (h : conditional.Yields ReadsConditional) :
    (listTerm conditional).Yields (ReadsAs .operand) := by
  intro c text e c' hc hread
  unfold listTerm at hread
  simp only [Attempt.value?_bind, Option.bind_eq_some_iff] at hread
  obtain ⟨⟨_, c₁⟩, hopening, ⟨items, c₂⟩, hitems, heq⟩ := hread
  cases heq
  obtain ⟨s₁, rest₁, rfl, rfl, hc₁, -, hlexeme₁, -⟩ := (word_yields "[").split hc hopening
  obtain ⟨s₂, rest₂, rfl, rfl, -, inside, closing, rfl, hinside, hlexeme₂, hblank, hcanonical⟩ :=
    (separatedConditionals_yields h rfl (by decide)).split hc₁ hitems
  refine ⟨s₁ ++ inside ++ closing, rest₂, by simp, by simp, ?_, .list hcanonical, hblank⟩
  show Expr.Spells (.list items) _
  rw [Expr.Spells, Expr.spellsItems_eq]
  exact ⟨s₁, inside, closing, rfl, hlexeme₁, hinside, hlexeme₂⟩

theorem callTerm_yields (h : conditional.Yields ReadsConditional) :
    (callTerm conditional).Yields (ReadsAs .operand) := by
  intro c text e c' hc hread
  unfold callTerm at hread
  simp only [Attempt.value?_bind, Option.bind_eq_some_iff] at hread
  obtain ⟨⟨function, c₁⟩, hname, ⟨_, c₂⟩, hopening, ⟨args, c₃⟩, hargs, heq⟩ := hread
  cases heq
  obtain ⟨s₁, rest₁, rfl, rfl, hc₁, hisName, hlexeme₁, -⟩ := name_yields.split hc hname
  obtain ⟨s₂, rest₂, rfl, rfl, hc₂, -, hlexeme₂, -⟩ := (word_yields "(").split hc₁ hopening
  obtain ⟨s₃, rest₃, rfl, rfl, -, inside, closing, rfl, hinside, hlexeme₃, hblank, hcanonical⟩ :=
    (separatedConditionals_yields h rfl (by decide)).split hc₂ hargs
  refine ⟨s₁ ++ (s₂ ++ inside ++ closing), rest₃, by simp, by simp [Nat.add_assoc], ?_,
    .call hisName hcanonical, hblank⟩
  show Expr.Spells (.call function args) _
  rw [Expr.Spells, Expr.spellsItems_eq]
  exact ⟨s₁, s₂, inside, closing, rfl, hlexeme₁, hlexeme₂, hinside, hlexeme₃⟩

theorem term_yields (h : conditional.Yields ReadsConditional) :
    (term conditional).Yields (ReadsAs .operand) := by
  refine .firstOf fun rule hrule => ?_
  simp only [List.mem_cons, List.not_mem_nil, or_false] at hrule
  rcases hrule with rfl | rfl | rfl | rfl | rfl | rfl
  · exact parenthesized_yields h
  · exact listTerm_yields h
  · exact callTerm_yields h
  · exact .map _ (name_yields.imp fun _ _ _ ⟨hname, hlexeme, hblank⟩ =>
      ⟨hlexeme, .ident hname, hblank⟩)
  · exact .map _ (integer_yields.imp fun _ _ _ ⟨hinteger, hlexeme, hblank⟩ =>
      ⟨hlexeme, .integer hinteger, hblank⟩)
  · exact .map _ (number_yields.imp fun _ _ _ ⟨hnumber, hlexeme, hblank⟩ =>
      ⟨hlexeme, .number hnumber, hblank⟩)

end Operands

/-! ## Binary levels -/

section Tiers

variable {tier : Tier} {operand : Rule Expr}

/-- What a chain of operators has built from the text `s`: the first operand and
its wrapper, or a tree with an operator of the tier. -/
def ChainState (tier : Tier) (left whole : Expr) (s : List Char) : Prop :=
  left.Spells s ∧
    ((whole = .bare (.tier tier) left ∧ Canonical (Level.tier tier).below left) ∨
      (whole = left ∧ Canonical (.level (.tier tier)) left ∧
        ∃ l op r, left = .binary tier l op r))

theorem ChainState.start {first : Expr} {s : List Char} (hs : first.Spells s)
    (h : Canonical (Level.tier tier).below first) :
    ChainState tier first (.bare (.tier tier) first) s :=
  ⟨hs, .inl ⟨rfl, h⟩⟩

theorem ChainState.finish {left whole : Expr} {s : List Char} (h : ChainState tier left whole s) :
    whole.Spells s ∧ Canonical (.level (.tier tier)) whole := by
  obtain ⟨hs, ⟨rfl, hleft⟩ | ⟨rfl, hwhole, -⟩⟩ := h
  · exact ⟨hs, .bare nofun hleft⟩
  · exact ⟨hs, hwhole⟩

theorem ChainState.step {left whole right : Expr} {s sign behind : List Char} {spelling : String}
    (h : ChainState tier left whole s) (hspelling : spelling ∈ spellings tier)
    (hsign : Lexeme spelling.toList sign) (hbehind : right.Spells behind)
    (hright : Canonical (Level.tier tier).below right) :
    ChainState tier (.binary tier left (operatorOf spelling) right)
      (.binary tier left (operatorOf spelling) right) (s ++ sign ++ behind) := by
  have hop := operatorOf_mem hspelling
  refine ⟨⟨s, sign, behind, spelling, rfl, h.1, hspelling, rfl, hsign, hbehind⟩,
    .inr ⟨rfl, ?_, _, _, _, rfl⟩⟩
  obtain ⟨-, ⟨-, hleft⟩ | ⟨-, hleft, l, op, r, rfl⟩⟩ := h
  · exact .first hop hleft hright
  · exact .further hop hleft hright

/-- A chain with room for the rest of the text goes on with what it has built. -/
theorem chain_yields (h : operand.Yields (ReadsAs (Level.tier tier).below)) {fuel : Nat}
    {left whole e : Expr} {before text : List Char} {c c' : Cursor}
    (hstate : ChainState tier left whole before) (hc : c.At text) (hfuel : text.length ≤ fuel)
    (hblank : NoBlank text) (hread : (chain tier operand fuel left whole c).value? = some (e, c')) :
    ∃ s rest, text = s ++ rest ∧ c' = c.advance s.length ∧ e.Spells (before ++ s) ∧
      Canonical (.level (.tier tier)) e ∧ NoBlank rest := by
  induction fuel generalizing left whole before text c with
  | zero =>
      simp only [chain, Attempt.value?_bind, Option.bind_eq_some_iff] at hread
      obtain ⟨⟨found, c₁⟩, hfound, heq⟩ := hread
      cases heq
      obtain ⟨s, rest, rfl, rfl, -⟩ := (optionally_yields _).split hc hfound
      rw [List.length_append] at hfuel
      obtain rfl : s = [] := List.length_eq_zero_iff.1 (by omega)
      refine ⟨[], rest, rfl, rfl, ?_⟩
      rw [List.append_nil]
      exact ⟨hstate.finish.1, hstate.finish.2, hblank⟩
  | succ fuel ih =>
      simp only [chain, Attempt.value?_bind, Option.bind_eq_some_iff] at hread
      obtain ⟨⟨found, c₁⟩, hfound, hread⟩ := hread
      obtain ⟨s₁, rest₁, rfl, rfl, hc₁, hsign⟩ := (optionally_yields _).split hc hfound
      cases found with
      | none =>
          cases hread
          obtain rfl := hsign.1
          refine ⟨[], rest₁, rfl, rfl, ?_⟩
          rw [List.append_nil]
          exact ⟨hstate.finish.1, hstate.finish.2, hblank⟩
      | some spelling =>
          obtain ⟨hspelling, hlexeme, -⟩ := hsign
          simp only [Attempt.value?_bind, Option.bind_eq_some_iff] at hread
          obtain ⟨⟨right, c₂⟩, hright, hread⟩ := hread
          obtain ⟨s₂, rest₂, rfl, rfl, hc₂, hspells, hcanonical, hblank₂⟩ := h.split hc₁ hright
          have hpositive : 0 < s₁.length := by
            obtain ⟨d, ds, htext, -⟩ := spelling_eq_cons hspelling
            have hle := hlexeme.length_le
            rw [htext, List.length_cons] at hle
            omega
          have hroom : rest₂.length ≤ fuel := by
            simp only [List.length_append] at hfuel
            omega
          obtain ⟨s₃, rest₃, rfl, rfl, hspells₃, hcanonical₃, hblank₃⟩ :=
            ih (hstate.step hspelling hlexeme hspells hcanonical) hc₂ hroom hblank₂ hread
          refine ⟨s₁ ++ s₂ ++ s₃, rest₃, by simp, by simp [Nat.add_assoc], ?_, hcanonical₃,
            hblank₃⟩
          simpa using hspells₃

theorem binaryLevel_yields (h : operand.Yields (ReadsAs (Level.tier tier).below)) :
    (binaryLevel tier operand).Yields (ReadsAs (.level (.tier tier))) := by
  intro c text e c' hc hread
  unfold binaryLevel at hread
  simp only [Attempt.value?_bind, Option.bind_eq_some_iff] at hread
  obtain ⟨⟨first, c₁⟩, hfirst, hread⟩ := hread
  obtain ⟨s₁, rest₁, rfl, rfl, hc₁, hspells, hcanonical, hblank⟩ := h.split hc hfirst
  obtain ⟨s₂, rest₂, rfl, rfl, hresult⟩ :=
    chain_yields h (.start hspells hcanonical) hc₁ hc₁.remaining_eq.ge hblank hread
  exact ⟨s₁ ++ s₂, rest₂, by simp, by simp, hresult⟩

theorem product_yields {conditional : Rule Expr} (h : conditional.Yields ReadsConditional) :
    (product conditional).Yields (ReadsAs (.level (.tier .product))) :=
  binaryLevel_yields <| binaryLevel_yields <| binaryLevel_yields <| term_yields h

end Tiers

/-! ## Powers -/

theorem powerLevel_yields {conditional power : Rule Expr}
    (hconditional : conditional.Yields ReadsConditional)
    (hpower : power.Yields (ReadsAs (.level .power))) :
    (powerLevel conditional power).Yields (ReadsAs (.level .power)) := by
  intro c text e c' hc hread
  unfold powerLevel at hread
  simp only [Attempt.value?_bind, Option.bind_eq_some_iff] at hread
  obtain ⟨⟨base, c₁⟩, hbase, ⟨found, c₂⟩, hfound, hread⟩ := hread
  obtain ⟨s₁, rest₁, rfl, rfl, hc₁, hspells₁, hcanonical₁, hblank₁⟩ :=
    (product_yields hconditional).split hc hbase
  obtain ⟨s₂, rest₂, rfl, rfl, hc₂, hcaret⟩ := (optionally_yields _).split hc₁ hfound
  cases found with
  | none =>
      cases hread
      obtain rfl := hcaret.1
      exact ⟨s₁, rest₂, by simp, by simp, hspells₁, .bare nofun hcanonical₁, hblank₁⟩
  | some spelling =>
      obtain ⟨hspelling, hlexeme, -⟩ := hcaret
      obtain rfl := List.mem_singleton.1 hspelling
      simp only [Attempt.value?_bind, Option.bind_eq_some_iff] at hread
      obtain ⟨⟨exponent, c₃⟩, hexponent, heq⟩ := hread
      cases heq
      obtain ⟨s₃, rest₃, rfl, rfl, -, hspells₃, hcanonical₃, hblank₃⟩ :=
        hpower.split hc₂ hexponent
      exact ⟨s₁ ++ s₂ ++ s₃, rest₃, by simp, by simp [Nat.add_assoc],
        ⟨s₁, s₂, s₃, rfl, hspells₁, hlexeme, hspells₃⟩, .power hcanonical₁ hcanonical₃, hblank₃⟩

end PolarCalc.Grammar
