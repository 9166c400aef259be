import PolarCalc.Proofs.Grammar.RoundTrip
/-!
# No token is lost

Without its blanks, and with one sign for each operator, the text of a statement
is the source text of what is read, likewise without blanks: every character of
a token is kept in its place.
-/

namespace PolarCalc

open PolarCalc.Text PolarCalc.Grammar

/-! ## Condensed texts -/

/-- The text without its blanks. -/
def condense (text : List Char) : List Char := text.filter fun c => !isBlank c

/-- The text with the one sign of an operator for each of its ASCII spellings. -/
def unify : List Char → List Char
  | '=' :: '/' :: '=' :: rest => '≠' :: unify rest
  | '!' :: '=' :: rest => '≠' :: unify rest
  | '>' :: '=' :: rest => '≥' :: unify rest
  | '<' :: '=' :: rest => '≤' :: unify rest
  | c :: rest => c :: unify rest
  | [] => []

/-- No character of the word is a blank or begins a spelling. -/
def Plain (word : List Char) : Prop :=
  ∀ c ∈ word, isBlank c = false ∧ c ∉ ['=', '!', '>', '<']

theorem condense_append (s t : List Char) : condense (s ++ t) = condense s ++ condense t :=
  List.filter_append ..

theorem condense_of_blanks {blanks : List Char} (h : ∀ c ∈ blanks, isBlank c = true) :
    condense blanks = [] := by
  rw [condense, List.filter_eq_nil_iff]
  intro c hc
  simp [h c hc]

theorem condense_word {word : List Char} (h : ∀ c ∈ word, isBlank c = false) :
    condense word = word := by
  rw [condense, List.filter_eq_self]
  intro c hc
  simp [h c hc]

theorem condense_lexeme {word s : List Char} (hs : Lexeme word s)
    (h : ∀ c ∈ word, isBlank c = false) : condense s = word := by
  obtain ⟨blanks, hblanks, rfl⟩ := hs
  rw [condense_append, condense_word h, condense_of_blanks hblanks, List.append_nil]

theorem Plain.condense_eq {word : List Char} (h : Plain word) : condense word = word :=
  condense_word fun c hc => (h c hc).1

theorem unify_cons {c : Char} (h : c ∉ ['=', '!', '>', '<']) (rest : List Char) :
    unify (c :: rest) = c :: unify rest := by
  simp only [List.mem_cons, List.not_mem_nil, or_false, not_or] at h
  obtain ⟨hequals, hexclamation, hgreater, hless⟩ := h
  rw [unify.eq_def]
  split <;> simp_all

theorem unify_cons_apart {c d : Char} (hd : d ≠ '=' ∧ d ≠ '/') (rest : List Char) :
    unify (c :: d :: rest) = c :: unify (d :: rest) := by
  obtain ⟨hequals, hslash⟩ := hd
  rw [unify.eq_def]
  split <;> simp_all

theorem Plain.unify_append {word : List Char} (h : Plain word) (rest : List Char) :
    unify (word ++ rest) = word ++ unify rest := by
  induction word with
  | nil => rfl
  | cons c word ih =>
      rw [List.cons_append, unify_cons (h c List.mem_cons_self).2,
        ih fun d hd => h d (List.mem_cons_of_mem c hd), List.cons_append]

theorem Plain.unify_lexeme {word s : List Char} (h : Plain word) (hs : Lexeme word s)
    (rest : List Char) : unify (condense s ++ rest) = word ++ unify rest := by
  rw [condense_lexeme hs fun c hc => (h c hc).1, h.unify_append]

theorem unify_spelling {tier : Tier} {spelling : String} (h : spelling ∈ spellings tier) {d : Char}
    (hd : d ≠ '=' ∧ d ≠ '/') (rest : List Char) :
    unify (spelling.toList ++ d :: rest) = (operatorOf spelling).toList ++ unify (d :: rest) := by
  cases tier with
  | product | sum =>
      simp only [spellings, List.mem_cons, List.not_mem_nil, or_false] at h
      rcases h with rfl | rfl <;> exact unify_cons_apart hd rest
  | relational =>
      simp only [spellings, List.mem_cons, List.not_mem_nil, or_false] at h
      rcases h with rfl | rfl | rfl | rfl | rfl | rfl | rfl | rfl | rfl | rfl
      · rfl
      · rfl
      · rfl
      · rfl
      all_goals exact unify_cons_apart hd rest

/-! ## Tokens are plain -/

theorem plain_of_isNameChar {word : List Char} (h : ∀ c ∈ word, isNameChar c = true) :
    Plain word := by
  intro c hc
  have hname := h c hc
  constructor
  · by_contra hblank
    rw [isNameChar_of_isBlank (by simpa using hblank)] at hname
    cases hname
  · intro hmem
    simp only [List.mem_cons, List.not_mem_nil, or_false] at hmem
    rcases hmem with rfl | rfl | rfl | rfl <;> exact absurd hname (by decide)

theorem plain_of_isNumber {word : List Char} (h : IsNumber word) : Plain word := by
  intro c hc
  by_cases hname : isNameChar c = true
  · have hword : Plain [c] := plain_of_isNameChar (by simpa using hname)
    exact hword c List.mem_cons_self
  · by_cases hpoint : c = '.'
    · subst hpoint
      exact ⟨by decide, by decide⟩
    · obtain ⟨before, behind, rfl⟩ := List.append_of_mem hc
      obtain ⟨rfl | rfl, -⟩ := h.digits_behind (by simpa using hname) hpoint
      · exact ⟨by decide, by decide⟩
      · exact ⟨by decide, by decide⟩

/-! ## Trees keep their tokens -/

theorem condense_head {k : Category} {e : Expr} {s : List Char} (h : Canonical k e)
    (hs : e.Spells s) : ∃ d more, condense s = d :: more ∧ d ≠ '=' ∧ d ≠ '/' := by
  obtain ⟨d, more, rfl, hd⟩ := expression_head h hs
  refine ⟨d, condense more, ?_, ?_, ?_⟩
  · rw [condense, List.filter_cons_of_pos (by simp [(head_apart hd).1])]
    rfl
  · rintro rfl
    exact absurd hd (by decide)
  · rintro rfl
    exact absurd hd (by decide)

/-- The condensed text `s`, its operators unified, is `word`, whatever follows. -/
def CondensesTo (s word : List Char) : Prop :=
  ∀ rest, unify (condense s ++ rest) = condense word ++ unify rest

theorem CondensesTo.append {s t word more : List Char} (hs : CondensesTo s word)
    (ht : CondensesTo t more) : CondensesTo (s ++ t) (word ++ more) := by
  intro rest
  rw [condense_append, List.append_assoc, hs, ht, condense_append, List.append_assoc]

theorem CondensesTo.nil : CondensesTo [] [] := fun _ => rfl

theorem CondensesTo.space {s word : List Char} (h : CondensesTo s word) :
    CondensesTo s (word ++ [' ']) := by
  intro rest
  rw [condense_append, h]
  have hspace : condense [' '] = [] := condense_of_blanks isBlank_of_mem_space
  rw [hspace, List.append_nil]

theorem Plain.condensesTo {word s : List Char} (h : Plain word) (hs : Lexeme word s) :
    CondensesTo s word := by
  intro rest
  rw [h.unify_lexeme hs, h.condense_eq]

theorem condensesTo_sign {tier : Tier} {spelling : String} {sign behind : List Char} {k : Category}
    {e : Expr} (h : spelling ∈ spellings tier) (hsign : Lexeme spelling.toList sign)
    (he : Canonical k e) (hbehind : e.Spells behind) (hcondenses : CondensesTo behind e.chars) :
    CondensesTo (sign ++ behind) ((operatorOf spelling).toList ++ [' '] ++ e.chars) := by
  have hblank : ∀ w ∈ spellings tier, ∀ c ∈ w.toList, isBlank c = false := by
    have hall : ∀ w ∈ spellings tier, w.toList.any isBlank = false := by
      cases tier <;> decide
    intro w hw c hc
    simpa using List.any_eq_false.1 (hall w hw) c hc
  have hop := hblank _ (Tier.operators_subset (operatorOf_mem h)).1
  have hspace : condense [' '] = [] := condense_of_blanks isBlank_of_mem_space
  obtain ⟨d, more, hhead, hd⟩ := condense_head he hbehind
  intro rest
  have hrest := hcondenses rest
  rw [hhead, List.cons_append] at hrest
  rw [condense_append, condense_lexeme hsign (hblank spelling h), hhead, List.append_assoc,
    List.cons_append, unify_spelling h hd, hrest, condense_append, condense_append,
    condense_word hop, hspace, List.append_nil, List.append_assoc]

theorem condensesTo_separated {α : Type} {P : α → List Char → Prop} {write : α → List Char}
    {as : List α} {s : List Char} (hs : Separated P as s)
    (h : ∀ a ∈ as, ∀ s, P a s → CondensesTo s (write a)) :
    CondensesTo s (separated (as.map write)) := by
  have hcomma : Plain [','] := by
    intro c hc
    obtain rfl := List.mem_singleton.1 hc
    exact ⟨by decide, by decide⟩
  have hmore : ∀ {as : List α} {s : List Char}, SeparatedMore P as s →
      (∀ a ∈ as, ∀ s, P a s → CondensesTo s (write a)) →
      CondensesTo s (as.flatMap fun a => [',', ' '] ++ write a) := by
    intro as s hs h
    induction as generalizing s with
    | nil =>
        obtain rfl : s = [] := hs
        exact .nil
    | cons a as ih =>
        obtain ⟨comma, first, more, rfl, hlexeme, hfirst, hmore⟩ := hs
        rw [List.flatMap_cons]
        refine (CondensesTo.append ?_ (h a List.mem_cons_self first hfirst)).append
          (ih hmore fun b hb => h b (List.mem_cons_of_mem a hb))
        exact (hcomma.condensesTo hlexeme).space
  cases as with
  | nil =>
      obtain rfl : s = [] := hs
      exact .nil
  | cons a as =>
      obtain ⟨first, more, rfl, hfirst, hrest⟩ := hs
      rw [List.map_cons, separated_cons_map]
      exact (h a List.mem_cons_self first hfirst).append
        (hmore hrest fun b hb => h b (List.mem_cons_of_mem a hb))

theorem plain_sign {c : Char} (hc : c ∈ ['(', ')', '[', ']', '^', '?', ':', 'j', '-', '\\']) :
    Plain [c] := by
  have hall : ['(', ')', '[', ']', '^', '?', ':', 'j', '-', '\\'].all (fun c =>
      decide (isBlank c = false ∧ c ∉ ['=', '!', '>', '<'])) = true := by decide
  intro d hd
  obtain rfl := List.mem_singleton.1 hd
  exact of_decide_eq_true (List.all_eq_true.1 hall d hc)

/-- The text of an expression condenses to its source text. -/
theorem condensesTo_chars {k : Category} {e : Expr} {s : List Char} (h : Canonical k e)
    (hs : e.Spells s) : CondensesTo s e.chars := by
  induction h generalizing s with
  | bare _ _ ih => exact ih hs
  | plain _ _ ih => exact ih hs
  | @prefixed op e hop _ ih =>
      obtain ⟨sign, behind, rfl, hsign, hbehind, -⟩ := hs
      have hword : Plain op.toList := by
        rcases hop with rfl | rfl
        · exact plain_sign (by decide)
        · exact plain_sign (by decide)
      exact (hword.condensesTo hsign).space.append (ih hbehind)
  | @power base exponent _ _ ihBase ihExponent =>
      obtain ⟨left, caret, right, rfl, hleft, hcaret, hright⟩ := hs
      have hword : Plain ['^'] := plain_sign (by decide)
      have hall := ((ihBase hleft).space.append (hword.condensesTo hcaret).space).append
        (ihExponent hright)
      simpa [Expr.chars] using hall
  | @first tier left right op hop hleft hright ihLeft ihRight =>
      obtain ⟨before, sign, behind, spelling, rfl, hbefore, hspelling, rfl, hsign, hbehind⟩ := hs
      have hall := (ihLeft hbefore).space.append
        (condensesTo_sign hspelling hsign hright hbehind (ihRight hbehind))
      simpa [Expr.chars] using hall
  | @further tier left middle right op next hnext hleft hright ihLeft ihRight =>
      obtain ⟨before, sign, behind, spelling, rfl, hbefore, hspelling, rfl, hsign, hbehind⟩ := hs
      have hall := (ihLeft hbefore).space.append
        (condensesTo_sign hspelling hsign hright hbehind (ihRight hbehind))
      simpa [Expr.chars] using hall
  | @ifThen condition thenBranch _ _ ihCondition ihThen =>
      obtain ⟨test, mark, yes, rfl, htest, hmark, hyes⟩ := hs
      have hword : Plain ['?'] := plain_sign (by decide)
      have hall := ((ihCondition htest).space.append (hword.condensesTo hmark).space).append
        (ihThen hyes)
      simpa [Expr.chars] using hall
  | @ifElse condition elseBranch _ _ ihCondition ihElse =>
      obtain ⟨test, mark, colon, no, rfl, htest, hmark, hcolon, hno⟩ := hs
      have hword : Plain ['?'] := plain_sign (by decide)
      have hword' : Plain [':'] := plain_sign (by decide)
      have hall := ((ihCondition htest).space.append (hword.condensesTo hmark).space).append
        ((hword'.condensesTo hcolon).space.append (ihElse hno))
      simpa [Expr.chars] using hall
  | @ifThenElse condition thenBranch elseBranch _ _ _ _ ihCondition ihThen ihElse =>
      obtain ⟨test, mark, yes, colon, no, rfl, htest, hmark, hyes, hcolon, hno⟩ := hs
      have hword : Plain ['?'] := plain_sign (by decide)
      have hword' : Plain [':'] := plain_sign (by decide)
      have hall := ((ihCondition htest).space.append (hword.condensesTo hmark).space).append
        ((ihThen hyes).space.append ((hword'.condensesTo hcolon).space.append (ihElse hno)))
      simpa [Expr.chars] using hall
  | @parenthesized e h ih =>
      simp only [Expr.Spells, h.isAtom_eq_false, Bool.false_eq_true, if_false] at hs
      obtain ⟨opening, inside, closing, rfl, hopening, hinside, hclosing⟩ := hs
      have hword : Plain ['('] := plain_sign (by decide)
      have hword' : Plain [')'] := plain_sign (by decide)
      rw [Expr.chars, h.isAtom_eq_false, if_neg Bool.false_ne_true]
      exact ((hword.condensesTo hopening).append (ih hinside)).append (hword'.condensesTo hclosing)
  | @list items _ ih =>
      replace hs : (Expr.list items).Spells s := hs
      rw [Expr.Spells, Expr.spellsItems_eq] at hs
      obtain ⟨opening, inside, closing, rfl, hopening, hinside, hclosing⟩ := hs
      have hword : Plain ['['] := plain_sign (by decide)
      have hword' : Plain [']'] := plain_sign (by decide)
      have hall := ((hword.condensesTo hopening).append (condensesTo_separated hinside
        fun item hitem s hs => ih item hitem hs)).append (hword'.condensesTo hclosing)
      simpa [Expr.chars, Expr.isAtom] using hall
  | @call function args hname _ ih =>
      replace hs : (Expr.call function args).Spells s := hs
      rw [Expr.Spells, Expr.spellsItems_eq] at hs
      obtain ⟨called, opening, inside, closing, rfl, hcalled, hopening, hinside, hclosing⟩ := hs
      have hword : Plain ['('] := plain_sign (by decide)
      have hword' : Plain [')'] := plain_sign (by decide)
      have hfunction := (plain_of_isNameChar hname.isNameChar).condensesTo hcalled
      have hall := hfunction.append (((hword.condensesTo hopening).append
        (condensesTo_separated hinside fun arg harg s hs => ih arg harg hs)).append
        (hword'.condensesTo hclosing))
      simpa [Expr.chars, Expr.isAtom] using hall
  | ident hname => exact (plain_of_isNameChar hname.isNameChar).condensesTo hs
  | integer hinteger => exact (plain_of_isNameChar hinteger.isNameChar).condensesTo hs
  | number hnumber => exact (plain_of_isNumber hnumber).condensesTo hs

namespace Statement

theorem condensesTo_chars {t : Statement} {head body : List Char} (h : t.Canonical)
    (hhead : t.head.Spells head) (hbody : t.body.Spells body) :
    CondensesTo (head ++ body) t.chars := by
  obtain ⟨kind, e⟩ := t
  obtain ⟨hnames, he⟩ := h
  have hcondenses := PolarCalc.condensesTo_chars he hbody
  cases kind with
  | express =>
      obtain rfl : head = [] := hhead
      exact hcondenses
  | assign target =>
      obtain ⟨keyword, name, sign, rfl, hkeyword, -, hname, hsign⟩ := hhead
      have hword : Plain "let".toList :=
        plain_of_isNameChar (List.all_eq_true.1 (by decide : "let".toList.all isNameChar = true))
      have htarget := (plain_of_isNameChar hnames.isNameChar).condensesTo hname
      have hequals : "=" ∈ spellings .relational := by decide
      have hall := ((hword.condensesTo hkeyword).space.append htarget.space).append
        (condensesTo_sign hequals hsign he hbody hcondenses)
      simpa [Statement.chars, Head.chars, operatorOf] using hall
  | define function params =>
      obtain ⟨backslash, name, opening, inside, closing, arrow, rfl, hbackslash, hname, hopening,
        hinside, hclosing, blanks, hblanks, rfl⟩ := hhead
      have hfunction := (plain_of_isNameChar hnames.1.isNameChar).condensesTo hname
      have hparams := condensesTo_separated hinside fun param hparam s hs =>
        (plain_of_isNameChar (hnames.2 param hparam).isNameChar).condensesTo hs
      have hlambda : Plain ['\\'] := plain_sign (by decide)
      have hround : Plain ['('] := plain_sign (by decide)
      have hround' : Plain [')'] := plain_sign (by decide)
      have hminus : Plain ['-'] := plain_sign (by decide)
      -- the end of the arrow is the only sign in a head that a spelling could begin with
      have hgreater : ">" ∈ spellings .relational := by decide
      have harrow : Lexeme ['>'] ('>' :: blanks) := ⟨blanks, hblanks, rfl⟩
      have hall := (((((hlambda.condensesTo hbackslash).append hfunction).append
        (hround.condensesTo hopening)).append hparams).append
        (hround'.condensesTo hclosing).space).append
        ((hminus.condensesTo (.self _)).append
          (condensesTo_sign hgreater harrow he hbody hcondenses))
      simpa [Statement.chars, Head.chars, operatorOf] using hall

/-- What is read keeps every token of the text, in order and nothing else. -/
theorem parse_condensed {text : String} {t : Statement} (h : parse text = .ok t) :
    unify (condense text.toList) = condense t.source.toList := by
  obtain ⟨hcanonical, blanks, head, body, htext, hblanks, hhead, hbody⟩ := parse_sound h
  have hall := condensesTo_chars hcanonical hhead hbody []
  rw [List.append_nil, unify, List.append_nil] at hall
  rw [htext, List.append_assoc, condense_append, condense_of_blanks hblanks, List.nil_append, hall,
    source, String.toList_ofList]

theorem parse_condensed_assignment : ∃ t, parse " let x = 1 >= 2" = .ok t ∧
    unify (condense " let x = 1 >= 2".toList) = condense t.source.toList := by
  have h : parse " let x = 1 >= 2" = .ok ⟨.assign "x", .bare .conditional (.bare .unary
      (.bare .power (.bare (.tier .product) (.bare (.tier .sum) (.binary .relational
        (.term (.number "1")) "≥" (.term (.number "2")))))))⟩ := by
    decide +kernel
  exact ⟨_, h, parse_condensed h⟩

end Statement

end PolarCalc
