import PolarCalc.Proofs.Grammar.Completeness
/-!
# Reading statements

Every text that spells a canonical statement is read as it.  The three kinds of
statements are tried in order, and two of the beginnings are not to be mistaken
for each other: an expression may begin with the name `let`, but then no further
name follows.
-/

namespace PolarCalc.Grammar

open PolarCalc.Text

variable {e : Expr} {s rest : List Char}

/-! ## The word `let` -/

/-- The text begins with a name, behind which no further name begins. -/
def BeginsWord (s : List Char) : Prop :=
  ∃ x blanks after, s = x ++ (blanks ++ after) ∧ IsName x ∧ (∀ c ∈ blanks, isBlank c = true) ∧
    ∀ c ∈ after.head?, c ∈ Category.operand.stops ∨ c = '('

theorem BeginsWord.append (h : BeginsWord s) (hrest : Follows .operand rest) :
    BeginsWord (s ++ rest) := by
  obtain ⟨x, blanks, after, rfl, hx, hblanks, hafter⟩ := h
  refine ⟨x, blanks, after ++ rest, by simp, hx, hblanks, fun c hc => ?_⟩
  cases after with
  | nil => exact .inl (hrest c hc)
  | cons d after => exact hafter c hc

theorem operand_word {c : Char} {more : List Char} (h : Canonical .operand (.term e))
    (hs : (Expr.term e).Spells (c :: more)) (hc : isNameStart c = true) :
    BeginsWord (c :: more) := by
  have hstart : ∀ d ∈ (c :: more).head?, isNameStart d = true := by
    rintro _ ⟨⟩
    exact hc
  obtain ⟨x, hname, rfl | ⟨args, rfl, -⟩⟩ := operand_named h hs hstart
  · obtain ⟨blanks, hblanks, hsplit⟩ : Lexeme x.toList (c :: more) := hs
    exact ⟨x.toList, blanks, [], by simpa using hsplit, hname, hblanks, nofun⟩
  · obtain ⟨called, opening, inside, closing, hsplit, ⟨blanks, hblanks, rfl⟩, hopening, -, -⟩ := hs
    refine ⟨x.toList, blanks, opening ++ inside ++ closing, by simpa using hsplit, hname,
      hblanks, ?_⟩
    obtain ⟨behind, rfl⟩ := hopening.eq_cons
    rintro _ ⟨⟩
    exact .inr rfl

theorem unary_word {c : Char} {more : List Char} (h : Canonical (.level .unary) e)
    (hs : e.Spells (c :: more)) (hc : isNameStart c = true) (hj : c ≠ 'j') :
    BeginsWord (c :: more) := by
  generalize htext : c :: more = text at hs
  cases h with
  | bare hne => exact absurd rfl hne
  | plain _ h =>
      obtain ⟨before, behind, rfl, hbefore, hbehind⟩ := split_leading h nofun nofun hs
      have hoperand := h.leading nofun nofun
      obtain ⟨d, word, rfl, -⟩ := operand_head hoperand hbefore
      obtain rfl : c = d := (List.cons.inj htext).1
      exact (operand_word hoperand hbefore hc).append hbehind
  | prefixed hop h =>
      obtain ⟨sign, behind, rfl, hsign, -, -⟩ := hs
      rcases hop with rfl | rfl
      · obtain ⟨after, rfl⟩ := hsign.eq_cons
        exact absurd (List.cons.inj htext).1 hj
      · obtain ⟨after, rfl⟩ := hsign.eq_cons
        obtain rfl : c = '-' := (List.cons.inj htext).1
        exact absurd hc (by decide)

theorem expression_word {c : Char} {more : List Char} (h : Canonical (.level .conditional) e)
    (hs : e.Spells (c :: more)) (hc : isNameStart c = true) (hj : c ≠ 'j') :
    BeginsWord (c :: more) := by
  have hcondition : ∀ {condition : Expr} {test mark behind : List Char},
      Canonical (.level .unary) condition → condition.Spells test → Lexeme ['?'] mark →
      c :: more = test ++ mark ++ behind → BeginsWord (c :: more) := by
    intro condition test mark behind h htest hmark htext
    obtain ⟨d, word, rfl, -⟩ := unary_head h htest
    obtain rfl : c = d := (List.cons.inj htext).1
    rw [htext, List.append_assoc]
    refine (unary_word h htest hc hj).append ?_
    obtain ⟨blanks, rfl⟩ := hmark.eq_cons
    exact .cons (by decide)
  cases h with
  | bare _ h => exact unary_word h hs hc hj
  | ifThen h =>
      obtain ⟨test, mark, yes, htext, htest, hmark, -⟩ := hs
      exact hcondition h htest hmark htext
  | ifElse h =>
      obtain ⟨test, mark, colon, no, htext, htest, hmark, -, -⟩ := hs
      exact hcondition h htest hmark htext
  | ifThenElse h =>
      obtain ⟨test, mark, yes, colon, no, htext, htest, hmark, -⟩ := hs
      exact hcondition h htest hmark htext

theorem BeginsWord.behind {word blanks : List Char} (h : BeginsWord s)
    (hs : s = word ++ (blanks ++ rest)) (hword : ∀ c ∈ word, isNameChar c = true)
    (hapart : ∀ c ∈ (blanks ++ rest).head?, isNameChar c = false)
    (hblanks : ∀ c ∈ blanks, isBlank c = true) (hrest : NoBlank rest) :
    ∀ c ∈ rest.head?, isNameStart c = false := by
  obtain ⟨x, blanks', after, rfl, hx, hblanks', hafter⟩ := h
  have hstops : ∀ c ∈ after.head?, isBlank c = false ∧ isNameChar c = false := by
    intro c hc
    rcases hafter c hc with hmem | rfl
    · exact ⟨(stops_apart c hmem).1, (stops_apart c hmem).2.1⟩
    · exact ⟨by decide, by decide⟩
  have hbehind : ∀ c ∈ (blanks' ++ after).head?, isNameChar c = false := by
    intro c hc
    cases blanks' with
    | nil => exact (hstops c hc).2
    | cons b blanks' =>
        obtain rfl : b = c := by simpa using hc
        exact isNameChar_of_isBlank (hblanks' b List.mem_cons_self)
  obtain ⟨-, hsame⟩ := run_unique hx.isNameChar hword hbehind hapart hs
  obtain ⟨-, rfl⟩ := run_unique hblanks' hblanks (fun c hc => (hstops c hc).1) hrest hsame
  intro c hc
  have hname := (hstops c hc).2
  rw [isNameChar, Bool.or_eq_false_iff] at hname
  exact hname.1

theorem assignment_refuses (he : Canonical (.level .conditional) e) (hs : e.Spells s)
    (hrest : Follows (.level .conditional) rest) : assignment.Refuses (s ++ rest) := by
  intro c hc
  rw [assignment, Attempt.value?_bind]
  cases hread : (keyword "let" c).value? with
  | none => rfl
  | some read =>
      obtain ⟨a, d⟩ := read
      obtain ⟨s', rest', hsplit, rfl, hd, -, ⟨blanks', hblanks', rfl⟩, hblank, hapart⟩ :=
        (keyword_yields "let").split hc hread
      obtain ⟨ch, more, rfl, -⟩ := expression_head he hs
      obtain rfl : ch = 'l' := (List.cons.inj hsplit).1
      have hbegins : BeginsWord (('l' :: more) ++ rest) :=
        (expression_word he hs (by decide) (by decide)).append hrest.operand
      have hbehind : ∀ ch ∈ (blanks' ++ rest').head?, isNameChar ch = false := by
        intro ch hch
        by_contra hname
        have hword := hapart (blanks' ++ rest') (List.append_assoc _ _ _) ch hch
        rw [isWordChar_of_isNameChar (by simpa using hname)] at hword
        cases hword
      have hlet : ∀ ch ∈ "let".toList, isNameChar ch = true :=
        List.all_eq_true.1 (by decide : "let".toList.all isNameChar = true)
      -- the expression begins with a name, which is `let`
      have hname : name.Refuses rest' := by
        apply name_refuses
        apply hbegins.behind _ hlet hbehind hblanks' hblank
        rw [hsplit, List.append_assoc]
      rw [Option.bind_some]
      simp only
      rw [hname.value?_bind hd]

/-! ## The three kinds of statements -/

theorem definition_refuses (h : ¬ ['\\'] <+: rest) : definition.Refuses rest := by
  have hword : (word "\\").Refuses rest := word_refuses h
  intro c hc
  rw [definition, hword.value?_bind hc]

theorem name_noBlank {x : String} {rest : List Char} (hx : IsName x.toList)
    (hs : Lexeme x.toList s) : NoBlank (s ++ rest) := by
  obtain ⟨ch, word, hword, hch, -⟩ := hx
  rw [hword] at hs
  obtain ⟨behind, rfl⟩ := hs.eq_cons
  rintro _ ⟨⟩
  by_contra hblank
  have hname := isNameChar_of_isBlank (by simpa using hblank)
  rw [isNameChar_of_isNameStart hch] at hname
  cases hname

theorem assignment_accepts {target : String} {body : List Char} {head : List Char}
    (htarget : IsName target.toList) (hhead : (Head.assign target).Spells head)
    (he : Canonical (.level .conditional) e) (hs : e.Spells body) :
    assignment.Accepts (head ++ body) ⟨.assign target, e⟩ [] := by
  obtain ⟨s₁, s₂, s₃, rfl, hkeyword, hne, hname, hsign⟩ := hhead
  have hread := expression_accepts he hs (.nil _) fun _ => by simp
  have hsignHead : ∀ ch ∈ (s₃ ++ (body ++ [])).head?, ch = '=' := by
    obtain ⟨blanks, rfl⟩ := hsign.eq_cons
    rintro _ ⟨⟩
    rfl
  have h₁ : (keyword "let").Accepts s₁ "let" (s₂ ++ (s₃ ++ (body ++ []))) :=
    keyword_accepts hkeyword hne (name_noBlank htarget hname)
  have h₂ : name.Accepts s₂ target (s₃ ++ (body ++ [])) := by
    refine name_accepts htarget hname fun ch hch => ?_
    rw [hsignHead ch hch]
    exact ⟨by decide, by decide, by decide⟩
  have h₃ : (word "=").Accepts s₃ "=" (body ++ []) :=
    word_accepts hsign (expression_noBlank he hs [])
  intro c hc
  simp only [List.append_assoc] at hc
  have hc₁ := hc.advance
  have hc₂ := hc₁.advance
  rw [assignment, h₁.value?_bind hc]
  simp only
  rw [h₂.value?_bind hc₁]
  simp only
  rw [h₃.value?_bind hc₂]
  simp only
  rw [hread.value?_bind hc₂.advance, Attempt.value?_pure]
  simp [Nat.add_assoc]

theorem parameters_accepts {params : List String} {inside closing : List Char}
    (hparams : ∀ param ∈ params, IsName param.toList)
    (hs : Separated (fun param : String => Lexeme param.toList) params inside)
    (hclosing : Lexeme [')'] closing) (hrest : NoBlank rest) :
    (separatedItems name ")").Accepts (inside ++ closing) params rest := by
  have hseparated : Separated (fun (param : String) s => IsName param.toList ∧
      Lexeme param.toList s) params inside := hs.imp fun param hmem s hs => ⟨hparams param hmem, hs⟩
  refine separatedItems_accepts ?_ ?_ hseparated hclosing ?_ hrest (Nat.lt_succ_self _)
  · rintro param s rest ⟨hname, hlexeme⟩ - hrest
    refine name_accepts hname hlexeme ?_
    rcases hrest with ⟨behind, rfl⟩ | ⟨behind, rfl⟩
    · rintro _ ⟨⟩
      exact ⟨by decide, by decide, by decide⟩
    · rintro _ ⟨⟩
      exact ⟨by decide, by decide, by decide⟩
  · rintro param s rest ⟨hname, hlexeme⟩
    refine ⟨name_noBlank hname hlexeme, ?_⟩
    obtain ⟨ch, word, hword, hch, -⟩ := hname
    rw [hword] at hlexeme
    obtain ⟨blanks, rfl⟩ := hlexeme.eq_cons
    rintro ⟨behind, heq⟩
    obtain rfl : ')' = ch := (List.cons.inj heq).1
    exact absurd hch (by decide)
  · rintro rest ⟨behind, heq⟩
    obtain ⟨blanks, rfl⟩ := hclosing.eq_cons
    cases heq

theorem definition_accepts {function : String} {params : List String} {head body : List Char}
    (hfunction : IsName function.toList) (hparams : ∀ param ∈ params, IsName param.toList)
    (hhead : (Head.define function params).Spells head)
    (he : Canonical (.level .conditional) e) (hs : e.Spells body) :
    definition.Accepts (head ++ body) ⟨.define function params, e⟩ [] := by
  obtain ⟨s₁, s₂, s₃, inside, closing, s₅, rfl, hbackslash, hname, hopening, hinside, hclosing,
    harrow⟩ := hhead
  have hread := expression_accepts he hs (.nil _) fun _ => by simp
  have hround : ∀ ch ∈ (s₃ ++ (inside ++ (closing ++ (s₅ ++ (body ++ []))))).head?, ch = '(' := by
    obtain ⟨blanks, rfl⟩ := hopening.eq_cons
    rintro _ ⟨⟩
    rfl
  have h₁ : (word "\\").Accepts s₁ "\\"
      (s₂ ++ (s₃ ++ (inside ++ (closing ++ (s₅ ++ (body ++ [])))))) :=
    word_accepts hbackslash (name_noBlank hfunction hname)
  have h₂ : name.Accepts s₂ function (s₃ ++ (inside ++ (closing ++ (s₅ ++ (body ++ []))))) := by
    refine name_accepts hfunction hname fun ch hch => ?_
    rw [hround ch hch]
    exact ⟨by decide, by decide, by decide⟩
  have h₃ : (word "(").Accepts s₃ "(" (inside ++ (closing ++ (s₅ ++ (body ++ [])))) := by
    refine word_accepts hopening ?_
    cases params with
    | nil =>
        obtain rfl : inside = [] := hinside
        obtain ⟨blanks, rfl⟩ := hclosing.eq_cons
        rintro _ ⟨⟩
        decide
    | cons param params =>
        obtain ⟨first, more, rfl, hfirst, -⟩ := hinside
        rw [List.append_assoc]
        exact name_noBlank (hparams param List.mem_cons_self) hfirst
  have h₄ : (separatedItems name ")").Accepts (inside ++ closing) params (s₅ ++ (body ++ [])) := by
    refine parameters_accepts hparams hinside hclosing ?_
    obtain ⟨blanks, rfl⟩ := harrow.eq_cons
    rintro _ ⟨⟩
    decide
  have h₅ : (word "->").Accepts s₅ "->" (body ++ []) :=
    word_accepts harrow (expression_noBlank he hs [])
  intro c hc
  simp only [List.append_assoc] at hc
  have hc₁ := hc.advance
  have hc₂ := hc₁.advance
  have hc₃ := hc₂.advance
  rw [← List.append_assoc inside] at hc₃
  have hc₄ := hc₃.advance
  rw [definition, h₁.value?_bind hc]
  simp only
  rw [h₂.value?_bind hc₁]
  simp only
  rw [h₃.value?_bind hc₂]
  simp only
  rw [h₄.value?_bind hc₃]
  simp only
  rw [h₅.value?_bind hc₄]
  simp only
  rw [hread.value?_bind hc₄.advance, Attempt.value?_pure]
  simp [Nat.add_assoc]

/-- Definitions are tried before assignments and assignments before expressions. -/
theorem statement_accepts {head : Head} {before body : List Char} (hhead : head.Canonical)
    (he : Canonical (.level .conditional) e) (hbefore : head.Spells before)
    (hbody : e.Spells body) :
    NoBlank (before ++ body) ∧ (Rule.firstOf definition
      [assignment, expression.map fun body => ⟨.express, body⟩]).Accepts
        (before ++ body) ⟨head, e⟩ [] := by
  cases head with
  | define function params =>
      have haccepts := definition_accepts hhead.1 hhead.2 hbefore he hbody
      obtain ⟨s₁, s₂, s₃, inside, closing, s₅, rfl, hbackslash, -⟩ := hbefore
      obtain ⟨behind, rfl⟩ := hbackslash.eq_cons
      refine ⟨?_, fun c hc => ?_⟩
      · rintro _ ⟨⟩
        decide
      · rw [Rule.value?_firstOf, List.findSome?_cons, haccepts c hc]
  | assign target =>
      have haccepts := assignment_accepts hhead hbefore he hbody
      obtain ⟨s₁, s₂, s₃, rfl, hkeyword, -⟩ := hbefore
      obtain ⟨behind, rfl⟩ := hkeyword.eq_cons
      refine ⟨?_, fun c hc => ?_⟩
      · rintro _ ⟨⟩
        decide
      · have hdefinition : (definition c).value? = none := by
          refine definition_refuses ?_ c hc
          rintro ⟨after, heq⟩
          cases heq
        rw [Rule.value?_firstOf, List.findSome?_cons, hdefinition, List.findSome?_cons,
          haccepts c hc]
  | express =>
      obtain rfl : before = [] := hbefore
      rw [List.nil_append]
      have haccepts := (expression_accepts he hbody (.nil _) fun _ => by simp).map
        (fun body => (⟨.express, body⟩ : Statement))
      have hblank := expression_noBlank he hbody []
      rw [List.append_nil] at hblank
      refine ⟨hblank, fun c hc => ?_⟩
      have hdefinition : (definition c).value? = none := by
        refine definition_refuses ?_ c hc
        obtain ⟨ch, more, rfl, hch⟩ := expression_head he hbody
        rintro ⟨after, heq⟩
        obtain rfl : '\\' = ch := (List.cons.inj heq).1
        exact absurd hch (by decide)
      have hassignment := assignment_refuses he hbody (.nil _) c hc
      simp only [Rule.value?_firstOf, List.findSome?_cons, hdefinition, hassignment,
        haccepts c hc]

/-- A text that spells a canonical statement is read as it. -/
theorem parse_complete {t : Statement} {text : String} (ht : t.Canonical)
    (hs : t.Spells text.toList) : Statement.parse text = .ok t := by
  obtain ⟨blanks, before, body, htext, hblanks, hbefore, hbody⟩ := hs
  obtain ⟨hblank, haccepts⟩ := statement_accepts ht.1 ht.2 hbefore hbody
  rw [Statement.parse, Attempt.whole_eq_ok_iff]
  have hstart := Cursor.at_ofText text.toList
  generalize Cursor.ofText text.toList 0 = start at hstart
  rw [htext, List.append_assoc] at hstart
  have hc := hstart.advance
  rw [statement, hstart.skipBlanks hblanks hblank]
  rw [← List.append_nil (before ++ body)] at hc
  exact ⟨_, haccepts _ hc, hc.advance.atEnd_iff.2 rfl⟩

end PolarCalc.Grammar
