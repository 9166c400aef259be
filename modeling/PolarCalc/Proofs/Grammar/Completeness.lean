import PolarCalc.Proofs.Grammar.Prefix
/-!
# What the rules accept

Every text that spells a canonical tree is read as that tree, wherever what
follows may follow a tree of its category.  A colon may not follow an open
conditional, which would take it for its own.
-/

namespace PolarCalc.Grammar

open PolarCalc.Text

/-- The rule accepts every canonical tree of the category in texts shorter than `n`. -/
def Complete (rule : Rule Expr) (k : Category) (n : Nat) : Prop :=
  ∀ e s rest, Canonical k e → e.Spells s → Follows k rest →
    (e.isOpen = true → ¬ [':'] <+: rest) → s.length < n → rule.Accepts s e rest

/-! ## Separated items -/

section Items

variable {α : Type} {item : Rule α} {P : α → List Char → Prop} {closer : String} {n : Nat}
  {as : List α} {s rest : List Char}

theorem SeparatedMore.length_le (h : SeparatedMore P as s) : as.length ≤ s.length := by
  induction as generalizing s with
  | nil => simp
  | cons a as ih =>
      obtain ⟨comma, first, more, rfl, hcomma, -, hmore⟩ := h
      have hpositive := hcomma.length_le
      have hle := ih hmore
      simp only [List.length_append, List.length_cons, List.length_nil] at hpositive ⊢
      omega

theorem moreItems_accepts
    (h : ∀ a s rest, P a s → s.length < n → [','] <+: rest ∨ closer.toList <+: rest →
      item.Accepts s a rest)
    (hhead : ∀ a s rest, P a s → NoBlank (s ++ rest)) {fuel : Nat} (hs : SeparatedMore P as s)
    (hcloser : closer.toList <+: rest) (hcomma : ¬ [','] <+: rest) (hlength : s.length ≤ n)
    (hfuel : as.length ≤ fuel) : (moreItems item fuel).Accepts s as rest := by
  induction as generalizing s fuel with
  | nil =>
      obtain rfl : s = [] := hs
      intro c hc
      cases fuel with
      | zero => rfl
      | succ fuel =>
          have hstarts : ¬ c.startsWith [','] = true := fun hstarts =>
            hcomma ((hc.startsWith_iff _).1 hstarts)
          rw [moreItems, if_neg hstarts]
          rfl
  | cons a as ih =>
      obtain ⟨comma, first, more, rfl, hlexeme, hfirst, hmore⟩ := hs
      rw [List.length_cons] at hfuel
      obtain ⟨fuel, rfl⟩ : ∃ m, fuel = m + 1 := ⟨fuel - 1, by omega⟩
      have hpositive := hlexeme.length_le
      simp only [List.length_append, List.length_cons, List.length_nil] at hpositive hlength
      have hword : (word ",").Accepts comma "," (first ++ (more ++ rest)) :=
        word_accepts hlexeme (hhead a first _ hfirst)
      have hitem := h a first (more ++ rest) hfirst (by omega) (hmore.starts hcloser)
      have hrest := (ih hmore (by omega) (Nat.le_of_succ_le_succ hfuel)).map (a :: ·)
      intro c hc
      simp only [List.append_assoc] at hc
      have hstarts : c.startsWith [','] = true := by
        rw [hc.startsWith_iff]
        exact hlexeme.starts.trans (List.prefix_append _ _)
      rw [moreItems, if_pos hstarts, hword.value?_bind hc, hitem.value?_bind hc.advance,
        hrest _ hc.advance.advance]
      simp [Nat.add_assoc]

theorem separatedItems_accepts
    (h : ∀ a s rest, P a s → s.length < n → [','] <+: rest ∨ closer.toList <+: rest →
      item.Accepts s a rest)
    (hhead : ∀ a s rest, P a s → NoBlank (s ++ rest) ∧ ¬ closer.toList <+: s ++ rest)
    {inside closing : List Char} (hs : Separated P as inside)
    (hclosing : Lexeme closer.toList closing) (hcomma : ∀ rest, ¬ [','] <+: closing ++ rest)
    (hrest : NoBlank rest) (hlength : inside.length < n) :
    (separatedItems item closer).Accepts (inside ++ closing) as rest := by
  have hword : (word closer).Accepts closing closer rest := word_accepts hclosing hrest
  have hcloser : closer.toList <+: closing ++ rest :=
    hclosing.starts.trans (List.prefix_append _ _)
  intro c hc
  cases as with
  | nil =>
      obtain rfl : inside = [] := hs
      rw [List.nil_append] at hc ⊢
      have hstarts : c.startsWith closer.toList = true := (hc.startsWith_iff _).2 hcloser
      rw [separatedItems, if_pos hstarts, hword.value?_bind hc]
      rfl
  | cons a as =>
      obtain ⟨first, more, rfl, hfirst, hmore⟩ := hs
      rw [List.length_append] at hlength
      simp only [List.append_assoc] at hc
      have hstarts : ¬ c.startsWith closer.toList = true := by
        rw [hc.startsWith_iff]
        exact (hhead a first _ hfirst).2
      have hitem := h a first (more ++ (closing ++ rest)) hfirst (by omega) (hmore.starts hcloser)
      have hc₁ := hc.advance
      have hroom : as.length ≤ (c.advance first.length).remaining := by
        rw [hc₁.remaining_eq, List.length_append]
        have := hmore.length_le
        omega
      have hmany : (moreItems item (c.advance first.length).remaining).Accepts more as
          (closing ++ rest) :=
        moreItems_accepts h (fun a s rest hP => (hhead a s rest hP).1) hmore hcloser (hcomma rest)
          (by omega) hroom
      have hends := (hc₁.advance.startsWith_iff _).2 hcloser
      rw [separatedItems, if_neg hstarts, hitem.value?_bind hc]
      simp only
      rw [hmany.value?_bind hc₁]
      simp only
      rw [if_pos hends, hword.value?_bind hc₁.advance, Attempt.value?_pure]
      simp [Nat.add_assoc]

end Items

/-! ## Operands -/

section Operands

variable {conditional : Rule Expr} {n : Nat} {e : Expr} {opening inside closing rest : List Char}

theorem parenthesized_accepts (h : Complete conditional (.level .conditional) n)
    (he : Canonical (.level .conditional) e) (hopening : Lexeme ['('] opening)
    (hs : e.Spells inside) (hclosing : Lexeme [')'] closing) (hrest : NoBlank rest)
    (hlength : inside.length < n) :
    (parenthesized conditional).Accepts (opening ++ inside ++ closing) (.term e) rest := by
  obtain ⟨blanks, hcloser⟩ := hclosing.eq_cons
  have hfirst : (word "(").Accepts opening "(" (inside ++ (closing ++ rest)) :=
    word_accepts hopening (expression_noBlank he hs _)
  have hinner : conditional.Accepts inside e (closing ++ rest) := by
    refine h e inside _ he hs ?_ ?_ hlength
    · rw [hcloser]
      exact .cons (by decide)
    · rw [hcloser]
      rintro - ⟨behind, heq⟩
      cases heq
  have hlast : (word ")").Accepts closing ")" rest := word_accepts hclosing hrest
  intro c hc
  simp only [List.append_assoc] at hc
  have hc₂ := hc.advance.advance
  have hends : ((c.advance opening.length).advance inside.length).startsWith [')'] = true :=
    (hc₂.startsWith_iff _).2 (hclosing.starts.trans (List.prefix_append _ _))
  rw [parenthesized, hfirst.value?_bind hc]
  simp only
  rw [hinner.value?_bind hc.advance]
  simp only
  rw [if_pos hends, hlast.value?_bind hc₂, Attempt.value?_pure]
  simp [Nat.add_assoc]

theorem conditionals_accepts (h : Complete conditional (.level .conditional) n) {closer : String}
    {sign : Char} (hcloser : closer.toList = [sign])
    (hsign : sign ∈ (Category.level .conditional).stops) (hcolon : sign ≠ ':') (hcomma : sign ≠ ',')
    {items : List Expr} (hitems : ∀ item ∈ items, Canonical (.level .conditional) item)
    (hs : Separated Expr.Spells items inside) (hclosing : Lexeme closer.toList closing)
    (hrest : NoBlank rest) (hlength : inside.length < n) :
    (separatedItems conditional closer).Accepts (inside ++ closing) items rest := by
  have hseparated : Separated (fun e s => Canonical (.level .conditional) e ∧ e.Spells s)
      items inside := hs.imp fun item hitem s hspells => ⟨hitems item hitem, hspells⟩
  refine separatedItems_accepts ?_ ?_ hseparated hclosing ?_ hrest hlength
  · rintro e s rest ⟨he, hspells⟩ hshort hrest
    rw [hcloser] at hrest
    refine h e s rest he hspells ?_ ?_ hshort
    · rcases hrest with ⟨behind, rfl⟩ | ⟨behind, rfl⟩
      · exact .cons (by decide)
      · exact .cons hsign
    · rintro - ⟨behind, rfl⟩
      rcases hrest with ⟨behind, heq⟩ | ⟨behind, heq⟩
      · exact absurd (List.cons.inj heq).1 (by decide)
      · exact hcolon (List.cons.inj heq).1
  · rintro e s rest ⟨he, hspells⟩
    rw [hcloser]
    exact ⟨expression_noBlank he hspells rest,
      expression_apart he hspells rest (stops_below .conditional hsign)⟩
  · rintro rest ⟨behind, heq⟩
    rw [hcloser] at hclosing
    obtain ⟨blanks, rfl⟩ := hclosing.eq_cons
    exact hcomma (List.cons.inj heq).1.symm

theorem conditionals_noBlank {sign : Char} {items : List Expr}
    (hitems : ∀ item ∈ items, Canonical (.level .conditional) item)
    (hs : Separated Expr.Spells items inside) (hclosing : Lexeme [sign] closing)
    (hsign : isBlank sign = false) : NoBlank (inside ++ (closing ++ rest)) := by
  cases items with
  | nil =>
      obtain rfl : inside = [] := hs
      obtain ⟨blanks, rfl⟩ := hclosing.eq_cons
      rintro _ ⟨⟩
      exact hsign
  | cons item items =>
      obtain ⟨first, more, rfl, hfirst, -⟩ := hs
      rw [List.append_assoc]
      exact expression_noBlank (hitems item List.mem_cons_self) hfirst _

theorem listTerm_accepts (h : Complete conditional (.level .conditional) n) {items : List Expr}
    (hitems : ∀ item ∈ items, Canonical (.level .conditional) item)
    (hopening : Lexeme ['['] opening) (hs : Separated Expr.Spells items inside)
    (hclosing : Lexeme [']'] closing) (hrest : NoBlank rest) (hlength : inside.length < n) :
    (listTerm conditional).Accepts (opening ++ inside ++ closing) (.term (.list items)) rest := by
  have hfirst : (word "[").Accepts opening "[" (inside ++ (closing ++ rest)) :=
    word_accepts hopening (conditionals_noBlank hitems hs hclosing (by decide))
  have hmany : (separatedItems conditional "]").Accepts (inside ++ closing) items rest :=
    conditionals_accepts h rfl (by decide) (by decide) (by decide) hitems hs hclosing hrest hlength
  intro c hc
  simp only [List.append_assoc] at hc
  have hc₁ := hc.advance
  rw [← List.append_assoc] at hc₁
  rw [listTerm, hfirst.value?_bind hc]
  simp only
  rw [hmany.value?_bind hc₁, Attempt.value?_pure]
  simp

theorem callTerm_accepts (h : Complete conditional (.level .conditional) n) {function : String}
    {args : List Expr} {called : List Char} (hname : IsName function.toList)
    (hargs : ∀ arg ∈ args, Canonical (.level .conditional) arg)
    (hcalled : Lexeme function.toList called) (hopening : Lexeme ['('] opening)
    (hs : Separated Expr.Spells args inside) (hclosing : Lexeme [')'] closing)
    (hrest : NoBlank rest) (hlength : inside.length < n) :
    (callTerm conditional).Accepts (called ++ (opening ++ inside ++ closing))
      (.term (.call function args)) rest := by
  obtain ⟨blanks, hround⟩ := hopening.eq_cons
  have hcall : name.Accepts called function (opening ++ (inside ++ (closing ++ rest))) := by
    refine name_accepts hname hcalled ?_
    rw [hround]
    rintro _ ⟨⟩
    exact ⟨by decide, by decide, by decide⟩
  have hfirst : (word "(").Accepts opening "(" (inside ++ (closing ++ rest)) :=
    word_accepts hopening (conditionals_noBlank hargs hs hclosing (by decide))
  have hmany : (separatedItems conditional ")").Accepts (inside ++ closing) args rest :=
    conditionals_accepts h rfl (by decide) (by decide) (by decide) hargs hs hclosing hrest hlength
  intro c hc
  simp only [List.append_assoc] at hc
  have hc₂ := hc.advance.advance
  rw [← List.append_assoc] at hc₂
  rw [callTerm, hcall.value?_bind hc]
  simp only
  rw [hfirst.value?_bind hc.advance]
  simp only
  rw [hmany.value?_bind hc₂, Attempt.value?_pure]
  simp [Nat.add_assoc]

theorem callTerm_refuses_ident {x : String} {s : List Char} (hname : IsName x.toList)
    (hs : Lexeme x.toList s) (hrest : Follows .operand rest) :
    (callTerm conditional).Refuses (s ++ rest) := by
  have hcall : name.Accepts s x rest := name_accepts hname hs hrest.stops
  have hround : (word "(").Refuses rest := by
    refine word_refuses ?_
    rintro ⟨behind, rfl⟩
    exact absurd (hrest '(' rfl) (by decide)
  intro c hc
  rw [callTerm, hcall.value?_bind hc]
  simp only
  rw [hround.value?_bind hc.advance]

theorem term_accepts_ident {x : String} {s : List Char} (hname : IsName x.toList)
    (hs : Lexeme x.toList s) (hrest : Follows .operand rest) :
    (term conditional).Accepts s (.term (.ident x)) rest := by
  intro c hc
  have hcall : (callTerm conditional c).value? = none :=
    callTerm_refuses_ident hname hs hrest c hc
  have hread := (name_accepts hname hs hrest.stops).map (fun text => Expr.term (.ident text)) c hc
  obtain ⟨ch, word, hword, hch, -⟩ := hname
  rw [hword] at hs
  obtain ⟨behind, rfl⟩ := hs.eq_cons
  rw [value?_term_of_isNameStart hc hch, hcall, Option.none_or, hread]

theorem term_accepts_integer {text : String} {s : List Char} (hinteger : IsInteger text.toList)
    (hs : Lexeme text.toList s) (hrest : Stops rest) :
    (term conditional).Accepts s (.term (.integer text)) rest := by
  intro c hc
  have hread := (integer_accepts hinteger hs hrest).map (fun text => Expr.term (.integer text)) c hc
  obtain ⟨ch, word, hword, hch, -⟩ := hinteger
  rw [hword] at hs
  obtain ⟨behind, rfl⟩ := hs.eq_cons
  have hname : ∀ d ∈ (ch :: behind ++ rest).head?, isNameStart d = false := by
    rintro _ ⟨⟩
    exact isNameStart_of_isAsciiDigit hch
  have hcall : (callTerm conditional c).value? = none := callTerm_refuses hname c hc
  rw [value?_term_of_isNameChar hc (isNameChar_of_isAsciiDigit hch)]
  simp only [List.findSome?_cons, hcall, (name_refuses hname).map _ c hc, hread]

/-- A number may begin with a point, so that all other operands are tried first. -/
theorem term_accepts_number {text : String} {s : List Char} (hnumber : IsNumber text.toList)
    (hs : Lexeme text.toList s) (hrest : Stops rest) :
    (term conditional).Accepts s (.term (.number text)) rest := by
  intro c hc
  have hread := (number_accepts hnumber hs hrest).map (fun text => Expr.term (.number text)) c hc
  have hinteger : integer.Refuses (s ++ rest) := by
    obtain ⟨blanks, hblanks, rfl⟩ := hs
    refine token_refuses ?_
    rw [List.append_assoc]
    exact integerToken?_of_isNumber hnumber (hrest.endsNumber hblanks)
  obtain ⟨ch, word, hword, hch⟩ := hnumber.head
  rw [hword] at hs
  obtain ⟨behind, rfl⟩ := hs.eq_cons
  have hname : ∀ d ∈ (ch :: behind ++ rest).head?, isNameStart d = false := by
    rintro _ ⟨⟩
    rcases hch with hch | rfl
    · exact isNameStart_of_isAsciiDigit hch
    · decide
  have hround : (parenthesized conditional c).value? = none := by
    refine parenthesized_refuses ?_ c hc
    rintro ⟨behind, heq⟩
    cases heq
    exact absurd hch (by decide)
  have hsquare : (listTerm conditional c).value? = none := by
    refine listTerm_refuses ?_ c hc
    rintro ⟨behind, heq⟩
    cases heq
    exact absurd hch (by decide)
  have hcall : (callTerm conditional c).value? = none := callTerm_refuses hname c hc
  rw [term, Rule.value?_firstOf]
  simp only [List.findSome?_cons, hround, hsquare, hcall, (name_refuses hname).map _ c hc,
    hinteger.map _ c hc, hread]

theorem term_complete (h : Complete conditional (.level .conditional) n) :
    Complete (term conditional) .operand (n + 1) := by
  intro e s rest he hs hrest _ hlength c hc
  cases he with
  | parenthesized he =>
      simp only [Expr.Spells, he.isAtom_eq_false, Bool.false_eq_true, if_false] at hs
      obtain ⟨opening, inside, closing, rfl, hopening, hinside, hclosing⟩ := hs
      have hpositive := hopening.length_le
      simp only [List.length_append, List.length_cons, List.length_nil] at hpositive hlength
      have haccepts := parenthesized_accepts h he hopening hinside hclosing hrest.noBlank (by omega)
      rw [term, Rule.value?_firstOf, List.findSome?_cons, haccepts c hc]
  | @list items hitems =>
      replace hs : (Expr.list items).Spells s := hs
      rw [Expr.Spells, Expr.spellsItems_eq] at hs
      obtain ⟨opening, inside, closing, rfl, hopening, hinside, hclosing⟩ := hs
      have hpositive := hopening.length_le
      simp only [List.length_append, List.length_cons, List.length_nil] at hpositive hlength
      have haccepts := listTerm_accepts h hitems hopening hinside hclosing hrest.noBlank (by omega)
      have hround : (parenthesized conditional c).value? = none := by
        obtain ⟨blanks, rfl⟩ := hopening.eq_cons
        refine parenthesized_refuses ?_ c hc
        rintro ⟨behind, heq⟩
        cases heq
      rw [term, Rule.value?_firstOf, List.findSome?_cons, hround, List.findSome?_cons,
        haccepts c hc]
  | @call function args hname hargs =>
      replace hs : (Expr.call function args).Spells s := hs
      rw [Expr.Spells, Expr.spellsItems_eq] at hs
      obtain ⟨called, opening, inside, closing, rfl, hcalled, hopening, hinside, hclosing⟩ := hs
      have hpositive := hopening.length_le
      simp only [List.length_append, List.length_cons, List.length_nil] at hpositive hlength
      have haccepts := callTerm_accepts h hname hargs hcalled hopening hinside hclosing
        hrest.noBlank (by omega)
      have hread := haccepts c hc
      obtain ⟨ch, word, hword, hch, -⟩ := hname
      rw [hword] at hcalled
      obtain ⟨behind, rfl⟩ := hcalled.eq_cons
      rw [value?_term_of_isNameStart hc hch, hread, Option.some_or]
  | ident hname => exact term_accepts_ident hname hs hrest c hc
  | integer hinteger => exact term_accepts_integer hinteger hs hrest.stops c hc
  | number hnumber => exact term_accepts_number hnumber hs hrest.stops c hc

end Operands

/-! ## Binary levels -/

section Tiers

variable {tier : Tier} {operand conditional power : Rule Expr} {n : Nat}

theorem find?_spelling {spelling : String} {sign behind : List Char}
    (h : spelling ∈ spellings tier) (hsign : Lexeme spelling.toList sign)
    (hbehind : ∃ c more, behind = c :: more ∧ startsOperand c = true) :
    (spellings tier).find? (fun text => text.toList.isPrefixOf (sign ++ behind)) =
      some spelling := by
  obtain ⟨blanks, hblanks, rfl⟩ := hsign
  obtain ⟨d, tail, htail, heq, hslash⟩ : ∃ d tail, blanks ++ behind = d :: tail ∧ d ≠ '=' ∧
      d ≠ '/' := by
    cases blanks with
    | nil =>
        obtain ⟨c, more, rfl, hc⟩ := hbehind
        refine ⟨c, more, rfl, ?_, ?_⟩ <;> rintro rfl <;> exact absurd hc (by decide)
    | cons b blanks =>
        have hblank := hblanks b List.mem_cons_self
        exact ⟨b, blanks ++ behind, rfl, ne_of_isBlank hblank (by decide),
          ne_of_isBlank hblank (by decide)⟩
  rw [List.append_assoc, htail]
  cases tier with
  | product | sum =>
      simp only [spellings, List.mem_cons, List.not_mem_nil, or_false] at h
      rcases h with rfl | rfl <;> rfl
  | relational =>
      simp only [spellings, List.mem_cons, List.not_mem_nil, or_false] at h
      rcases h with rfl | rfl | rfl | rfl | rfl | rfl | rfl | rfl | rfl | rfl <;>
        simp [spellings, List.isPrefixOf, heq.symm, hslash.symm]

/-- The operand or tree to which the next operator of a tier is applied. -/
def chainLeft : Expr → Expr
  | .bare _ inner => inner
  | e => e

theorem chain_step (h : Complete operand (Level.tier tier).below n) {spelling : String}
    (left whole : Expr) {right : Expr} {sign behind rest : List Char} {fuel : Nat} {c : Cursor}
    (hspelling : spelling ∈ spellings tier) (hsign : Lexeme spelling.toList sign)
    (hright : Canonical (Level.tier tier).below right) (hbehind : right.Spells behind)
    (hrest : Follows (Level.tier tier).below rest) (hlength : behind.length < n)
    (hfuel : (sign ++ (behind ++ rest)).length ≤ fuel) (hc : c.At (sign ++ (behind ++ rest))) :
    ∃ fuel', rest.length ≤ fuel' ∧ (chain tier operand fuel left whole c).value? =
      (chain tier operand fuel' (.binary tier left (operatorOf spelling) right)
        (.binary tier left (operatorOf spelling) right)
        (c.advance (sign ++ behind).length)).value? := by
  have hpositive : 0 < sign.length := by
    obtain ⟨d, ds, htext, -⟩ := spelling_eq_cons hspelling
    have hle := hsign.length_le
    rw [htext, List.length_cons] at hle
    omega
  simp only [List.length_append] at hfuel
  obtain ⟨fuel, rfl⟩ : ∃ m, fuel = m + 1 := ⟨fuel - 1, by omega⟩
  have hu : (Level.tier tier).below ≠ .level .unary := by cases tier <;> nofun
  have hconditional : (Level.tier tier).below ≠ .level .conditional := by cases tier <;> nofun
  have hopen : right.isOpen = false := hright.isOpen_eq_false hconditional
  obtain ⟨d, more, hmore, hd⟩ := power_head hright hu hconditional hbehind
  have hhead : ∃ d more, behind ++ rest = d :: more ∧ startsOperand d = true :=
    ⟨d, more ++ rest, by rw [hmore]; rfl, hd⟩
  have hfind := find?_spelling hspelling hsign hhead
  have hfound := optionally_accepts_some hsign (expression_noBlank hright hbehind rest) hfind
  have hoperand := h right behind rest hright hbehind hrest (by simp [hopen]) hlength
  refine ⟨fuel, by omega, ?_⟩
  rw [value?_chain_of_some (hfound c hc), hoperand _ hc.advance, Option.bind_some,
    Cursor.advance_advance, List.length_append]

/-- A level reads what spells one of its trees and goes on with that tree. -/
theorem binaryLevel_reads (h : Complete operand (Level.tier tier).below n) {e : Expr}
    {s rest : List Char} {c : Cursor} (he : Canonical (.level (.tier tier)) e) (hs : e.Spells s)
    (hrest : Follows (Level.tier tier).below rest) (hlength : s.length < n)
    (hc : c.At (s ++ rest)) :
    ∃ fuel, rest.length ≤ fuel ∧ (binaryLevel tier operand c).value? =
      (chain tier operand fuel (chainLeft e) e (c.advance s.length)).value? := by
  have hconditional : (Level.tier tier).below ≠ .level .conditional := by cases tier <;> nofun
  generalize hk : Category.level (.tier tier) = k at he
  induction he generalizing s rest with
  | @bare level e _ he =>
      cases hk
      have hopen : e.isOpen = false := he.isOpen_eq_false hconditional
      have hoperand := h e s rest he hs hrest (by simp [hopen]) hlength
      refine ⟨_, hc.advance.remaining_eq.ge, ?_⟩
      rw [value?_binaryLevel, hoperand c hc]
      rfl
  | @first tier' left right op hop hleft hright =>
      cases hk
      obtain ⟨before, sign, behind, spelling, rfl, hbefore, hspelling, rfl, hsign, hbehind⟩ := hs
      have hopen : left.isOpen = false := hleft.isOpen_eq_false hconditional
      obtain ⟨d, ds, htext, hd⟩ := spelling_eq_cons hspelling
      simp only [List.length_append] at hlength
      simp only [List.append_assoc] at hc
      have hfollows : Follows (Level.tier tier).below (sign ++ (behind ++ rest)) := by
        rw [htext] at hsign
        obtain ⟨blanks, rfl⟩ := hsign.eq_cons
        exact .cons hd
      have hoperand := h left before _ hleft hbefore hfollows (by simp [hopen]) (by omega)
      have hc₁ := hc.advance
      obtain ⟨fuel, hfuel, hchain⟩ := chain_step h left _ hspelling hsign hright hbehind hrest
        (by omega) hc₁.remaining_eq.ge hc₁
      refine ⟨fuel, hfuel, ?_⟩
      rw [value?_binaryLevel, hoperand c hc, Option.bind_some]
      simp only
      rw [hchain, Cursor.advance_advance]
      simp [chainLeft]
  | @further tier' left middle right op next hnext hleft hright ih =>
      cases hk
      obtain ⟨before, sign, behind, spelling, rfl, hbefore, hspelling, rfl, hsign, hbehind⟩ := hs
      obtain ⟨d, ds, htext, hd⟩ := spelling_eq_cons hspelling
      simp only [List.length_append] at hlength
      simp only [List.append_assoc] at hc
      have hfollows : Follows (Level.tier tier).below (sign ++ (behind ++ rest)) := by
        rw [htext] at hsign
        obtain ⟨blanks, rfl⟩ := hsign.eq_cons
        exact .cons hd
      obtain ⟨fuel, hfuel, hlevel⟩ := ih hbefore hfollows (by omega) hc rfl
      obtain ⟨fuel', hfuel', hchain⟩ := chain_step h (chainLeft (.binary tier left op middle)) _
        hspelling hsign hright hbehind hrest (by omega) hfuel hc.advance
      refine ⟨fuel', hfuel', ?_⟩
      rw [hlevel, hchain, Cursor.advance_advance]
      simp [chainLeft]
  | _ => cases hk

theorem binaryLevel_complete (h : Complete operand (Level.tier tier).below n) :
    Complete (binaryLevel tier operand) (.level (.tier tier)) n := by
  intro e s rest he hs hrest _ hlength c hc
  obtain ⟨fuel, -, hlevel⟩ := binaryLevel_reads h he hs hrest.below hlength hc
  rw [hlevel, value?_chain_of_none hc.advance hrest.not_spelling]

theorem product_complete (h : Complete conditional (.level .conditional) n) :
    Complete (product conditional) (.level (.tier .product)) (n + 1) :=
  binaryLevel_complete <| binaryLevel_complete <| binaryLevel_complete <| term_complete h

/-! ## Powers -/

theorem powerLevel_complete (hconditional : Complete conditional (.level .conditional) n)
    (hpower : Complete power (.level .power) n) :
    Complete (powerLevel conditional power) (.level .power) (n + 1) := by
  intro e s rest he hs hrest _ hlength c hc
  cases he with
  | @bare level base _ hbase =>
      have hopen : base.isOpen = false := hbase.isOpen_eq_false (by decide)
      have hproduct := product_complete hconditional base s rest hbase hs hrest.below
        (by simp [hopen]) hlength
      have hstop : (optionally ["^"]).Accepts [] none rest := by
        refine optionally_accepts_none fun w hw => ?_
        obtain rfl := List.mem_singleton.1 hw
        rintro ⟨behind, rfl⟩
        exact absurd (hrest '^' rfl) (by decide)
      rw [powerLevel, hproduct.value?_bind hc]
      simp only
      rw [hstop.value?_bind hc.advance]
      rfl
  | @power base exponent hbase hexponent =>
      obtain ⟨left, caret, right, rfl, hleft, hcaret, hright⟩ := hs
      have hpositive := hcaret.length_le
      simp only [List.length_append, List.length_cons, List.length_nil] at hpositive hlength
      simp only [List.append_assoc] at hc
      have hopen : base.isOpen = false := hbase.isOpen_eq_false (by decide)
      have hopen' : exponent.isOpen = false := hexponent.isOpen_eq_false (by decide)
      have hfollows : Follows (.level (.tier .product)) (caret ++ (right ++ rest)) := by
        obtain ⟨blanks, rfl⟩ := hcaret.eq_cons
        exact .cons (by decide)
      have hproduct := product_complete hconditional base left _ hbase hleft hfollows
        (by simp [hopen]) (by omega)
      have hfound : (optionally ["^"]).Accepts caret (some "^") (right ++ rest) := by
        refine optionally_accepts_some hcaret (expression_noBlank hexponent hright rest) ?_
        obtain ⟨blanks, rfl⟩ := hcaret.eq_cons
        rfl
      have hread := hpower exponent right rest hexponent hright hrest
        (by simp [hopen']) (by omega)
      rw [powerLevel, hproduct.value?_bind hc]
      simp only
      rw [hfound.value?_bind hc.advance]
      simp only
      rw [hread.value?_bind hc.advance.advance, Attempt.value?_pure]
      simp [Nat.add_assoc]

end Tiers

/-! ## Prefixes -/

section Prefixes

variable {conditional power rule : Rule Expr} {n : Nat} {e : Expr} {op : String} {c : Cursor}
  {s sign behind rest : List Char}

theorem prefixedBy_accepts (h : rule.Accepts behind e rest) (hsign : Lexeme op.toList sign)
    (hblank : NoBlank (behind ++ rest))
    (hstarts : ∀ c, c.At (sign ++ (behind ++ rest)) → startsPrefixed op c = true) :
    (prefixedBy op rule).Accepts (sign ++ behind) (.prefixed op e) rest := by
  intro c hc
  rw [List.append_assoc] at hc
  have hcursor : c.behind op.length = c.advance sign.length := by
    obtain ⟨blanks, hblanks, rfl⟩ := hsign
    rw [← String.length_toList]
    exact hc.behind hblanks hblank
  rw [prefixedBy, if_pos (hstarts c hc), hcursor, h.value?_bind hc.advance, Attempt.value?_pure]
  simp

theorem prefixedBy_refuses (h : ¬ op.toList <+: rest) : (prefixedBy op rule).Refuses rest := by
  intro c hc
  have hstarts : startsPrefixed op c = false := by
    have hsign : c.startsWith op.toList = false := by
      rw [← Bool.not_eq_true, hc.startsWith_iff]
      exact h
    rw [startsPrefixed, hsign, Bool.false_and]
  rw [prefixedBy, hstarts, if_neg (by simp), Attempt.value?_fail]

theorem startsPrefixed_of_spells (hsign : Lexeme ['j'] sign)
    (hhead : ∃ ch more, behind = ch :: more ∧ startsOperand ch = true)
    (hapart : sign = ['j'] → ∀ ch ∈ behind.head?, isNameStart ch = false)
    (hc : c.At (sign ++ (behind ++ rest))) : startsPrefixed "j" c = true := by
  obtain ⟨blanks, hblanks, rfl⟩ := hsign
  rw [List.append_assoc] at hc
  refine startsPrefixed_j hc fun ch hch => ?_
  cases blanks with
  | cons b blanks =>
      have hblank := hblanks b List.mem_cons_self
      cases hch
      exact ⟨isLetter_of_isBlank hblank, ne_of_isBlank hblank (by decide)⟩
  | nil =>
      obtain ⟨d, more, rfl, hd⟩ := hhead
      cases hch
      have hname := hapart rfl ch rfl
      simp only [startsOperand, Bool.or_eq_true, beq_iff_eq, hname, Bool.false_eq_true,
        or_false] at hd
      rcases hd with ((rfl | rfl) | rfl) | hdigit
      · decide
      · decide
      · decide
      · refine ⟨isLetter_of_isAsciiDigit hdigit, ?_⟩
        rintro rfl
        exact absurd hdigit (by decide)

/-- The rule reads nothing where no expression begins. -/
def RefusesOutside (rule : Rule Expr) : Prop :=
  ∀ rest, (∀ ch ∈ rest.head?, startsOperand ch = false ∧ ch ≠ '-') → rule.Refuses rest

/-- The arguments of a call are no expression in parentheses unless there is one. -/
theorem parenthesized_refuses_args (hconditional : Complete conditional (.level .conditional) n)
    (hrefuses : RefusesOutside conditional) {args : List Expr}
    {opening inside closing : List Char}
    (hargs : ∀ arg ∈ args, Canonical (.level .conditional) arg) (hne : args.length ≠ 1)
    (hopening : Lexeme ['('] opening) (hs : Separated Expr.Spells args inside)
    (hclosing : Lexeme [')'] closing) (hlength : inside.length < n) :
    (parenthesized conditional).Refuses (opening ++ (inside ++ (closing ++ rest))) := by
  have hfirst : (word "(").Accepts opening "(" (inside ++ (closing ++ rest)) :=
    word_accepts hopening (conditionals_noBlank hargs hs hclosing (by decide))
  intro c hc
  rw [parenthesized, hfirst.value?_bind hc]
  simp only
  rcases args with _ | ⟨arg, _ | ⟨next, args⟩⟩
  · obtain rfl : inside = [] := hs
    have hnone : conditional.Refuses (closing ++ rest) := by
      refine hrefuses _ ?_
      obtain ⟨blanks, rfl⟩ := hclosing.eq_cons
      rintro _ ⟨⟩
      exact ⟨by decide, by decide⟩
    rw [hnone.value?_bind hc.advance]
  · exact absurd rfl hne
  · obtain ⟨first, _, rfl, harg, comma, second, more, rfl, hcomma, -, -⟩ := hs
    obtain ⟨blanks, rfl⟩ := hcomma.eq_cons
    simp only [List.length_append] at hlength
    have hread : conditional.Accepts first arg
        (',' :: blanks ++ (second ++ (more ++ (closing ++ rest)))) := by
      refine hconditional arg first _ (hargs arg List.mem_cons_self) harg (.cons (by decide)) ?_
        (by omega)
      rintro - ⟨behind, heq⟩
      cases heq
    simp only [List.append_assoc] at hc
    have hc₂ := hc.advance.advance
    have hends : ¬ ((c.advance opening.length).advance first.length).startsWith [')'] = true := by
      rw [hc₂.startsWith_iff]
      rintro ⟨behind, heq⟩
      cases heq
    rw [hread.value?_bind hc.advance]
    simp only
    rw [if_neg hends, Attempt.value?_fail]

theorem term_refuses_args (hconditional : Complete conditional (.level .conditional) n)
    (hrefuses : RefusesOutside conditional) {args : List Expr}
    {opening inside closing : List Char}
    (hargs : ∀ arg ∈ args, Canonical (.level .conditional) arg) (hne : args.length ≠ 1)
    (hopening : Lexeme ['('] opening) (hs : Separated Expr.Spells args inside)
    (hclosing : Lexeme [')'] closing) (hlength : inside.length < n) :
    (term conditional).Refuses (opening ++ (inside ++ (closing ++ rest))) := by
  have hround : (parenthesized conditional).Refuses (opening ++ (inside ++ (closing ++ rest))) :=
    parenthesized_refuses_args hconditional hrefuses hargs hne hopening hs hclosing hlength
  obtain ⟨blanks, rfl⟩ := hopening.eq_cons
  refine .firstOf fun rule hrule => ?_
  rcases List.mem_cons.1 hrule with rfl | hrule
  · exact hround
  · rcases List.mem_cons.1 hrule with rfl | hrule
    · refine listTerm_refuses ?_
      rintro ⟨behind, heq⟩
      cases heq
    · exact unbracketed_refuse (.inl rfl) rule hrule

theorem eq_j_of_startsPrefixed {x : String} {more : List Char} (hname : IsName x.toList)
    (hc : c.At (x.toList ++ more)) (hstarts : startsPrefixed "j" c = true)
    (hkeeps : Expr.splitsAfterJ x.toList = false) : x = "j" := by
  rcases splits_of_startsPrefixed hname hc hstarts with hj | hsplits
  · rw [← String.ofList_toList (s := x), hj]
  · rw [hsplits] at hkeeps
    cases hkeeps

theorem prefixedBy_j_stuck {sign more : List Char} (hsign : Lexeme ['j'] sign)
    (hmore : NoBlank more) (hterm : (term conditional).Refuses more) :
    (prefixedBy "j" (powerLevel conditional power)).Refuses (sign ++ more) := by
  obtain ⟨blanks, hblanks, rfl⟩ := hsign
  intro c hc
  have hcursor : c.behind "j".length = c.advance (['j'] ++ blanks).length :=
    hc.behind hblanks hmore
  unfold prefixedBy
  split
  · rw [hcursor, (powerLevel_refuses hterm).value?_bind hc.advance]
  · rfl

/-- In front of a plain power the prefix `j` gets stuck or does not stand. -/
theorem prefixedBy_j_refuses (hconditional : Complete conditional (.level .conditional) n)
    (hrefuses : RefusesOutside conditional) (he : Canonical (.level .power) e)
    (hkeeps : e.leading.keepsJ = true) (hs : e.Spells s) (hrest : Follows (.level .power) rest)
    (hlength : s.length < n + 1) :
    (prefixedBy "j" (powerLevel conditional power)).Refuses (s ++ rest) := by
  obtain ⟨before, behind, rfl, hbefore, hbehind⟩ := split_leading he nofun nofun hs
  have hoperand := he.leading nofun nofun
  have hfollows : Follows .operand (behind ++ rest) := hbehind.append hrest.operand
  rw [List.append_assoc]
  rw [List.length_append] at hlength
  intro c hc
  by_cases hstarts : startsPrefixed "j" c = true
  · have hsign : ['j'] <+: before ++ (behind ++ rest) :=
      (hc.startsWith_iff _).1 (startsWith_of_startsPrefixed hstarts)
    have hstart : ∀ ch ∈ before.head?, isNameStart ch = true := by
      intro ch hch
      cases before with
      | nil => cases hch
      | cons d before =>
          cases hch
          obtain ⟨after, heq⟩ := hsign
          rw [← (List.cons.inj heq).1]
          rfl
    generalize e.leading = inner at hkeeps hbefore hoperand
    obtain ⟨x, hname, rfl | ⟨args, rfl, hargs⟩⟩ := operand_named hoperand hbefore hstart
    · replace hbefore : Lexeme x.toList before := hbefore
      obtain rfl : x = "j" := by
        obtain ⟨blanks, -, rfl⟩ := hbefore
        rw [List.append_assoc] at hc
        exact eq_j_of_startsPrefixed hname hc hstarts (by simpa [Expr.keepsJ] using hkeeps)
      refine prefixedBy_j_stuck hbefore hfollows.noBlank (term_refuses ?_) c hc
      exact hfollows.startsOperand_eq_false
    · replace hbefore : (Expr.call x args).Spells before := hbefore
      rw [Expr.Spells, Expr.spellsItems_eq] at hbefore
      obtain ⟨called, opening, inside, closing, rfl, hcalled, hopening, hinside, hclosing⟩ :=
        hbefore
      simp only [List.length_append] at hlength
      have hpositive := hopening.length_le
      rw [List.length_singleton] at hpositive
      rw [Expr.keepsJ, Bool.and_eq_true, Bool.not_eq_true'] at hkeeps
      obtain rfl : x = "j" := by
        obtain ⟨blanks, -, rfl⟩ := hcalled
        simp only [List.append_assoc] at hc
        exact eq_j_of_startsPrefixed hname hc hstarts hkeeps.1
      have hne : args.length ≠ 1 := by
        intro hone
        rw [hone] at hkeeps
        exact absurd hkeeps.2 (by decide)
      simp only [List.append_assoc] at hc
      have hterm : (term conditional).Refuses
          (opening ++ (inside ++ (closing ++ (behind ++ rest)))) :=
        term_refuses_args hconditional hrefuses hargs hne hopening hinside hclosing (by omega)
      refine prefixedBy_j_stuck hcalled ?_ hterm c hc
      obtain ⟨blanks, rfl⟩ := hopening.eq_cons
      rintro _ ⟨⟩
      decide
  · rw [prefixedBy, if_neg hstarts, Attempt.value?_fail]

theorem unaryLevel_complete (hconditional : Complete conditional (.level .conditional) n)
    (hrefuses : RefusesOutside conditional) (hpower : Complete power (.level .power) n) :
    Complete (unaryLevel (powerLevel conditional power)) (.level .unary) (n + 1) := by
  have hcomplete := powerLevel_complete hconditional hpower
  intro e s rest he hs hrest _ hlength c hc
  cases he with
  | bare hne => exact absurd rfl hne
  | @plain e hkeeps he =>
      have hopen : e.isOpen = false := he.isOpen_eq_false (by decide)
      have hj : (prefixedBy "j" (powerLevel conditional power) c).value? = none :=
        prefixedBy_j_refuses hconditional hrefuses he hkeeps hs hrest hlength c hc
      have hminus : (prefixedBy "-" (powerLevel conditional power) c).value? = none := by
        refine prefixedBy_refuses ?_ c hc
        obtain ⟨ch, more, rfl, hch⟩ := power_head he nofun nofun hs
        rintro ⟨behind, heq⟩
        obtain rfl : '-' = ch := (List.cons.inj heq).1
        exact absurd hch (by decide)
      have hread :=
        (hcomplete e s rest he hs hrest (by simp [hopen]) hlength).map (Expr.bare .unary) c hc
      rw [unaryLevel, Rule.value?_firstOf]
      simp only [List.findSome?_cons, hj, hminus, hread]
  | @prefixed op operand hop he =>
      obtain ⟨sign, behind, rfl, hsign, hbehind, hapart⟩ := hs
      have hopen : operand.isOpen = false := he.isOpen_eq_false (by decide)
      rw [List.length_append] at hlength
      have hread := hcomplete operand behind rest he hbehind hrest (by simp [hopen]) (by omega)
      have hblank := expression_noBlank he hbehind rest
      rw [unaryLevel, Rule.value?_firstOf]
      rcases hop with rfl | rfl
      · have hhead := power_head he nofun nofun hbehind
        have haccepts := prefixedBy_accepts hread hsign hblank fun c hc =>
          startsPrefixed_of_spells hsign hhead (hapart rfl) hc
        rw [List.findSome?_cons, haccepts c hc]
      · have haccepts := prefixedBy_accepts hread hsign hblank fun c hc => by
          have hstarts : c.startsWith "-".toList = true :=
            (hc.startsWith_iff _).2 (hsign.starts.trans (List.prefix_append _ _))
          rw [startsPrefixed, hstarts]
          rfl
        have hj : (prefixedBy "j" (powerLevel conditional power) c).value? = none := by
          refine prefixedBy_refuses ?_ c hc
          obtain ⟨blanks, rfl⟩ := hsign.eq_cons
          rintro ⟨behind, heq⟩
          cases heq
        simp only [List.findSome?_cons, hj, haccepts c hc]

end Prefixes

/-! ## Conditionals -/

section Conditionals

variable {conditional power : Rule Expr} {n : Nat} {condition e thenBranch elseBranch : Expr}
  {test mark behind yes colon no rest : List Char}

theorem startsWith_eq_false {c : Cursor} {word text : List Char} (hc : c.At text)
    (h : ¬ word <+: text) : ¬ c.startsWith word = true := fun hstarts =>
  h ((hc.startsWith_iff _).1 hstarts)

theorem branches_accepts_ifThen (hread : conditional.Accepts yes thenBranch rest)
    (hyes : ¬ [':'] <+: yes ++ rest) (hrest : ¬ [':'] <+: rest) :
    (branches conditional condition).Accepts yes (.ifThen condition thenBranch) rest := by
  intro c hc
  rw [branches, if_neg (startsWith_eq_false hc hyes), hread.value?_bind hc]
  simp only
  rw [if_neg (startsWith_eq_false hc.advance hrest)]
  rfl

theorem branches_accepts_ifElse (hcolon : Lexeme [':'] colon)
    (hread : conditional.Accepts no elseBranch rest) (hblank : NoBlank (no ++ rest)) :
    (branches conditional condition).Accepts (colon ++ no) (.ifElse condition elseBranch) rest := by
  have hword : (word ":").Accepts colon ":" (no ++ rest) := word_accepts hcolon hblank
  intro c hc
  rw [List.append_assoc] at hc
  have hstarts : c.startsWith [':'] = true :=
    (hc.startsWith_iff _).2 (hcolon.starts.trans (List.prefix_append _ _))
  rw [branches, if_pos hstarts, hword.value?_bind hc]
  simp only
  rw [hread.value?_bind hc.advance, Attempt.value?_pure]
  simp

theorem branches_accepts_ifThenElse
    (hthen : conditional.Accepts yes thenBranch (colon ++ (no ++ rest)))
    (hyes : ¬ [':'] <+: yes ++ (colon ++ (no ++ rest))) (hcolon : Lexeme [':'] colon)
    (helse : conditional.Accepts no elseBranch rest) (hblank : NoBlank (no ++ rest)) :
    (branches conditional condition).Accepts (yes ++ (colon ++ no))
      (.ifThenElse condition thenBranch elseBranch) rest := by
  have hword : (word ":").Accepts colon ":" (no ++ rest) := word_accepts hcolon hblank
  intro c hc
  simp only [List.append_assoc] at hc
  have hc₁ := hc.advance
  have hstarts : (c.advance yes.length).startsWith [':'] = true :=
    (hc₁.startsWith_iff _).2 (hcolon.starts.trans (List.prefix_append _ _))
  rw [branches, if_neg (startsWith_eq_false hc hyes), hthen.value?_bind hc]
  simp only
  rw [if_pos hstarts, hword.value?_bind hc₁]
  simp only
  rw [helse.value?_bind hc₁.advance, Attempt.value?_pure]
  simp [Nat.add_assoc]

theorem conditionalLevel_accepts
    (hunary : Complete (unaryLevel (powerLevel conditional power)) (.level .unary) n)
    (hcondition : Canonical (.level .unary) condition) (htest : condition.Spells test)
    (hlength : test.length < n) (hmark : Lexeme ['?'] mark)
    (hbranches : (branches conditional condition).Accepts behind e rest)
    (hblank : NoBlank (behind ++ rest)) :
    (conditionalLevel conditional (powerLevel conditional power)).Accepts
      (test ++ mark ++ behind) e rest := by
  have hopen : condition.isOpen = false := hcondition.isOpen_eq_false (by decide)
  have hread : (unaryLevel (powerLevel conditional power)).Accepts test condition
      (mark ++ (behind ++ rest)) := by
    refine hunary condition test _ hcondition htest ?_ (by simp [hopen]) hlength
    obtain ⟨blanks, rfl⟩ := hmark.eq_cons
    exact .cons (by decide)
  have hword : (word "?").Accepts mark "?" (behind ++ rest) := word_accepts hmark hblank
  intro c hc
  simp only [List.append_assoc] at hc
  have hc₁ := hc.advance
  have hstarts : (c.advance test.length).startsWith ['?'] = true :=
    (hc₁.startsWith_iff _).2 (hmark.starts.trans (List.prefix_append _ _))
  rw [conditionalLevel, hread.value?_bind hc]
  simp only
  rw [if_pos hstarts, hword.value?_bind hc₁]
  simp only
  rw [hbranches _ hc₁.advance]
  simp [Nat.add_assoc]

theorem conditionalLevel_complete (hconditional : Complete conditional (.level .conditional) n)
    (hrefuses : RefusesOutside conditional) (hpower : Complete power (.level .power) n) :
    Complete (conditionalLevel conditional (powerLevel conditional power)) (.level .conditional)
      (n + 1) := by
  have hunary := unaryLevel_complete hconditional hrefuses hpower
  intro e s rest he hs hrest hopen hlength
  cases he with
  | @bare level e _ he =>
      have hclosed : e.isOpen = false := he.isOpen_eq_false (by decide)
      have hread := hunary e s rest he hs hrest.below (by simp [hclosed]) hlength
      have hmark : ¬ ['?'] <+: rest := by
        rintro ⟨behind, rfl⟩
        exact absurd (hrest '?' rfl) (by decide)
      intro c hc
      rw [conditionalLevel, hread.value?_bind hc]
      simp only
      rw [if_neg (startsWith_eq_false hc.advance hmark)]
      rfl
  | @ifThen condition thenBranch hcondition hthen =>
      obtain ⟨test, mark, yes, rfl, htest, hmark, hyes⟩ := hs
      have hpositive := hmark.length_le
      simp only [List.length_append, List.length_singleton] at hlength hpositive
      have hcolon : ¬ [':'] <+: rest := hopen rfl
      have hread := hconditional thenBranch yes rest hthen hyes hrest (fun _ => hcolon) (by omega)
      exact conditionalLevel_accepts hunary hcondition htest (by omega) hmark
        (branches_accepts_ifThen hread (expression_apart hthen hyes rest (by decide)) hcolon)
        (expression_noBlank hthen hyes rest)
  | @ifElse condition elseBranch hcondition helse =>
      obtain ⟨test, mark, colon, no, rfl, htest, hmark, hcolon, hno⟩ := hs
      have hpositive := hmark.length_le
      simp only [List.length_append, List.length_singleton] at hlength hpositive
      have hread := hconditional elseBranch no rest helse hno hrest hopen (by omega)
      have hblank : NoBlank (colon ++ no ++ rest) := by
        obtain ⟨blanks, rfl⟩ := hcolon.eq_cons
        rintro _ ⟨⟩
        decide
      exact conditionalLevel_accepts hunary hcondition htest (by omega) hmark
        (branches_accepts_ifElse hcolon hread (expression_noBlank helse hno rest)) hblank
  | @ifThenElse condition thenBranch elseBranch hcondition hthen hclosed helse =>
      obtain ⟨test, mark, yes, colon, no, rfl, htest, hmark, hyes, hcolon, hno⟩ := hs
      have hpositive := hmark.length_le
      simp only [List.length_append, List.length_singleton] at hlength hpositive
      have hfollows : Follows (.level .conditional) (colon ++ (no ++ rest)) := by
        obtain ⟨blanks, rfl⟩ := hcolon.eq_cons
        exact .cons (by decide)
      have hread := hconditional thenBranch yes _ hthen hyes hfollows (by simp [hclosed]) (by omega)
      have hread' := hconditional elseBranch no rest helse hno hrest hopen (by omega)
      have hblank : NoBlank (yes ++ (colon ++ no) ++ rest) := by
        rw [List.append_assoc]
        exact expression_noBlank hthen hyes _
      exact conditionalLevel_accepts hunary hcondition htest (by omega) hmark
        (branches_accepts_ifThenElse hread (expression_apart hthen hyes _ (by decide)) hcolon
          hread' (expression_noBlank helse hno rest)) hblank

theorem conditionalLevel_refuses :
    RefusesOutside (conditionalLevel conditional (powerLevel conditional power)) := by
  intro rest hrest
  have hpower : (powerLevel conditional power).Refuses rest :=
    powerLevel_refuses (term_refuses fun ch hch => (hrest ch hch).1)
  have hunary : (unaryLevel (powerLevel conditional power)).Refuses rest := by
    refine .firstOf fun rule hrule => ?_
    simp only [List.mem_cons, List.not_mem_nil, or_false] at hrule
    rcases hrule with rfl | rfl | rfl
    · refine prefixedBy_refuses ?_
      rintro ⟨behind, rfl⟩
      exact absurd (hrest 'j' rfl).1 (by decide)
    · refine prefixedBy_refuses ?_
      rintro ⟨behind, rfl⟩
      exact (hrest '-' rfl).2 rfl
    · exact hpower.map _
  intro c hc
  rw [conditionalLevel, hunary.value?_bind hc]

theorem goal_refuses (fuel : Nat) : RefusesOutside (goal fuel .conditional) := by
  cases fuel with
  | zero =>
      intro rest _ c _
      rfl
  | succ fuel => exact conditionalLevel_refuses

theorem goal_complete (fuel : Nat) :
    Complete (goal fuel .conditional) (.level .conditional) fuel ∧
      Complete (goal fuel .power) (.level .power) fuel := by
  induction fuel with
  | zero =>
      constructor
      · intro e s rest _ _ _ _ hlength
        exact absurd hlength (by omega)
      · intro e s rest _ _ _ _ hlength
        exact absurd hlength (by omega)
  | succ fuel ih =>
      obtain ⟨hconditional, hpower⟩ := ih
      exact ⟨conditionalLevel_complete hconditional (goal_refuses fuel) hpower,
        powerLevel_complete hconditional hpower⟩

theorem expression_accepts {s : List Char} (he : Canonical (.level .conditional) e)
    (hs : e.Spells s) (hrest : Follows (.level .conditional) rest)
    (hopen : e.isOpen = true → ¬ [':'] <+: rest) : expression.Accepts s e rest := by
  intro c hc
  have hroom := hc.remaining_eq
  rw [List.length_append] at hroom
  exact (goal_complete (c.remaining + 1)).1 e s rest he hs hrest hopen (by omega) c hc

end Conditionals

end PolarCalc.Grammar
