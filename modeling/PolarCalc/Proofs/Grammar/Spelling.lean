import PolarCalc.Proofs.Grammar.Canonical
import PolarCalc.Proofs.Grammar.Lexeme
/-!
# Spellings of trees

A tree is spelled by its lexemes in order: any blanks may follow a word or
token, and any of its spellings may stand for an operator.  Two words need a
blank, or a sign, behind them: `let`, and the prefix `j` in front of a name.
-/

namespace PolarCalc

open PolarCalc.Text PolarCalc.Grammar

namespace Grammar

/-! ## Items with commas between them -/

section Separated

variable {α : Type}

/-- Further items, each behind a comma. -/
def SeparatedMore (P : α → List Char → Prop) : List α → List Char → Prop
  | [], text => text = []
  | a :: as, text => ∃ comma first more, text = comma ++ first ++ more ∧ Lexeme [','] comma ∧
      P a first ∧ SeparatedMore P as more

/-- Items with commas between them. -/
def Separated (P : α → List Char → Prop) : List α → List Char → Prop
  | [], text => text = []
  | a :: as, text => ∃ first more, text = first ++ more ∧ P a first ∧ SeparatedMore P as more

variable {P Q : α → List Char → Prop}

theorem separated_cons_map (write : α → List Char) (first : List Char) (as : List α) :
    separated (first :: as.map write) =
      first ++ as.flatMap fun a => [',', ' '] ++ write a := by
  induction as generalizing first with
  | nil => simp [separated]
  | cons a as ih =>
      rw [List.map_cons, separated, ih, List.flatMap_cons]
      · simp
      · nofun

theorem SeparatedMore.imp {as : List α} {text : List Char} (h : SeparatedMore P as text)
    (hPQ : ∀ a ∈ as, ∀ s, P a s → Q a s) : SeparatedMore Q as text := by
  induction as generalizing text with
  | nil => exact h
  | cons a as ih =>
      obtain ⟨comma, first, more, htext, hcomma, hfirst, hmore⟩ := h
      exact ⟨comma, first, more, htext, hcomma, hPQ a List.mem_cons_self first hfirst,
        ih hmore fun b hb => hPQ b (List.mem_cons_of_mem a hb)⟩

theorem Separated.imp {as : List α} {text : List Char} (h : Separated P as text)
    (hPQ : ∀ a ∈ as, ∀ s, P a s → Q a s) : Separated Q as text := by
  cases as with
  | nil => exact h
  | cons a as =>
      obtain ⟨first, more, htext, hfirst, hmore⟩ := h
      exact ⟨first, more, htext, hPQ a List.mem_cons_self first hfirst,
        hmore.imp fun b hb => hPQ b (List.mem_cons_of_mem a hb)⟩

theorem SeparatedMore.forall {as : List α} {text : List Char} (h : SeparatedMore P as text)
    {p : α → Prop} (hp : ∀ a s, P a s → p a) : ∀ a ∈ as, p a := by
  induction as generalizing text with
  | nil => nofun
  | cons a as ih =>
      obtain ⟨comma, first, more, -, -, hfirst, hmore⟩ := h
      intro b hb
      rcases List.mem_cons.1 hb with rfl | hb
      · exact hp b first hfirst
      · exact ih hmore b hb

theorem Separated.forall {as : List α} {text : List Char} (h : Separated P as text)
    {p : α → Prop} (hp : ∀ a s, P a s → p a) : ∀ a ∈ as, p a := by
  cases as with
  | nil => nofun
  | cons a as =>
      obtain ⟨first, more, -, hfirst, hmore⟩ := h
      intro b hb
      rcases List.mem_cons.1 hb with rfl | hb
      · exact hp b first hfirst
      · exact hmore.forall hp b hb

end Separated

end Grammar

/-! ## Expressions -/

namespace Expr

mutual

/-- The texts that spell an expression. -/
def Spells : Expr → List Char → Prop
  | ident name, s => Lexeme name.toList s
  | number text, s => Lexeme text.toList s
  | integer text, s => Lexeme text.toList s
  | list items, s => ∃ opening inside closing, s = opening ++ inside ++ closing ∧
      Lexeme ['['] opening ∧ SpellsItems items inside ∧ Lexeme [']'] closing
  | call function args, s => ∃ name opening inside closing,
      s = name ++ (opening ++ inside ++ closing) ∧ Lexeme function.toList name ∧
      Lexeme ['('] opening ∧ SpellsItems args inside ∧ Lexeme [')'] closing
  | term inner, s =>
      if inner.isAtom then Spells inner s
      else ∃ opening inside closing, s = opening ++ inside ++ closing ∧
        Lexeme ['('] opening ∧ Spells inner inside ∧ Lexeme [')'] closing
  | bare _ inner, s => Spells inner s
  | prefixed op operand, s => ∃ sign behind, s = sign ++ behind ∧ Lexeme op.toList sign ∧
      Spells operand behind ∧
      (op = "j" → sign = ['j'] → ∀ c ∈ behind.head?, isNameStart c = false)
  | power base exponent, s => ∃ left caret right, s = left ++ caret ++ right ∧
      Spells base left ∧ Lexeme ['^'] caret ∧ Spells exponent right
  | binary tier left op right, s => ∃ before sign behind spelling,
      s = before ++ sign ++ behind ∧ Spells left before ∧ spelling ∈ spellings tier ∧
      operatorOf spelling = op ∧ Lexeme spelling.toList sign ∧ Spells right behind
  | ifThen condition thenBranch, s => ∃ test mark yes, s = test ++ mark ++ yes ∧
      Spells condition test ∧ Lexeme ['?'] mark ∧ Spells thenBranch yes
  | ifElse condition elseBranch, s => ∃ test mark colon no, s = test ++ mark ++ (colon ++ no) ∧
      Spells condition test ∧ Lexeme ['?'] mark ∧ Lexeme [':'] colon ∧ Spells elseBranch no
  | ifThenElse condition thenBranch elseBranch, s => ∃ test mark yes colon no,
      s = test ++ mark ++ (yes ++ (colon ++ no)) ∧ Spells condition test ∧ Lexeme ['?'] mark ∧
      Spells thenBranch yes ∧ Lexeme [':'] colon ∧ Spells elseBranch no
  | misplaced _ _, _ => False
  | foreign, _ => False

/-- The texts that spell expressions with commas between them. -/
def SpellsItems : List Expr → List Char → Prop
  | [], s => s = []
  | item :: items, s => ∃ first more, s = first ++ more ∧ Spells item first ∧
      SpellsMore items more

/-- The texts that spell expressions with a comma before each. -/
def SpellsMore : List Expr → List Char → Prop
  | [], s => s = []
  | item :: items, s => ∃ comma first more, s = comma ++ first ++ more ∧ Lexeme [','] comma ∧
      Spells item first ∧ SpellsMore items more

end

@[simp] theorem spellsMore_eq (items : List Expr) :
    SpellsMore items = SeparatedMore Spells items := by
  induction items with
  | nil => rfl
  | cons item items ih =>
      funext s
      simp only [SpellsMore, SeparatedMore, ih]

@[simp] theorem spellsItems_eq (items : List Expr) :
    SpellsItems items = Separated Spells items := by
  cases items with
  | nil => rfl
  | cons item items =>
      funext s
      simp only [SpellsItems, Separated, spellsMore_eq]

end Expr

/-! ## Statements -/

/-- The texts that spell the beginning of a statement. -/
def Head.Spells : Head → List Char → Prop
  | express, s => s = []
  | assign name, s => ∃ keyword target sign, s = keyword ++ target ++ sign ∧
      Lexeme "let".toList keyword ∧ keyword ≠ "let".toList ∧ Lexeme name.toList target ∧
      Lexeme ['='] sign
  | define name params, s => ∃ backslash function opening inside closing arrow,
      s = backslash ++ function ++ opening ++ inside ++ closing ++ arrow ∧
      Lexeme ['\\'] backslash ∧ Lexeme name.toList function ∧ Lexeme ['('] opening ∧
      Separated (fun param : String => Lexeme param.toList) params inside ∧ Lexeme [')'] closing ∧
      Lexeme ['-', '>'] arrow

/-- The texts that spell a statement. -/
def Statement.Spells (t : Statement) (s : List Char) : Prop :=
  ∃ blanks head body, s = blanks ++ head ++ body ∧ (∀ c ∈ blanks, isBlank c = true) ∧
    t.head.Spells head ∧ t.body.Spells body

/-! ## What may begin and what may follow an expression -/

/-- The characters that may follow an expression of a category: those that close
something around it, and the signs of the levels above. -/
def Category.stops : Category → List Char
  | .level .conditional => [')', ']', ',', ':']
  | .level .unary => ['?', ')', ']', ',', ':']
  | .level .power => ['?', ')', ']', ',', ':']
  | .level (.tier .product) => ['^', '?', ')', ']', ',', ':']
  | .level (.tier .sum) => ['*', '/', '^', '?', ')', ']', ',', ':']
  | .level (.tier .relational) => ['+', '-', '*', '/', '^', '?', ')', ']', ',', ':']
  | .operand =>
      ['!', '=', '≠', '>', '<', '≥', '≤', '+', '-', '*', '/', '^', '?', ')', ']', ',', ':']

namespace Grammar

/-- The characters that an operand begins with. -/
def startsOperand (c : Char) : Bool :=
  c == '(' || c == '[' || c == '.' || isAsciiDigit c || isNameStart c

/-- What follows an expression of a category, if anything does. -/
def Follows (k : Category) (rest : List Char) : Prop := ∀ c ∈ rest.head?, c ∈ k.stops

theorem stops_below (level : Level) : level.below.stops ⊇ (Category.level level).stops := by
  cases level with
  | tier tier => cases tier <;> decide
  | _ => decide

theorem stops_operand (k : Category) : Category.operand.stops ⊇ k.stops := by
  cases k with
  | operand => exact fun _ => id
  | level level =>
      cases level with
      | tier tier => cases tier <;> decide
      | _ => decide

theorem stops_apart : ∀ c ∈ Category.operand.stops,
    isBlank c = false ∧ isNameChar c = false ∧ c ≠ '.' ∧ startsOperand c = false := by
  have hall : Category.operand.stops.all (fun c =>
      decide (isBlank c = false ∧ isNameChar c = false ∧ c ≠ '.' ∧ startsOperand c = false)) := by
    decide
  exact fun c hc => of_decide_eq_true (List.all_eq_true.1 hall c hc)

namespace Follows

variable {k : Category} {rest : List Char}

theorem nil (k : Category) : Follows k [] := nofun

theorem cons {c : Char} (hc : c ∈ k.stops) : Follows k (c :: rest) := by
  rintro _ ⟨⟩
  exact hc

theorem below {level : Level} (h : Follows (.level level) rest) : Follows level.below rest :=
  fun c hc => stops_below level (h c hc)

theorem operand (h : Follows k rest) : Follows .operand rest :=
  fun c hc => stops_operand k (h c hc)

theorem stops (h : Follows k rest) : Stops rest := by
  intro c hc
  obtain ⟨hblank, hname, hpoint, -⟩ := stops_apart c (h.operand c hc)
  exact ⟨hblank, hname, hpoint⟩

theorem noBlank (h : Follows k rest) : NoBlank rest := h.stops.noBlank

theorem startsOperand_eq_false (h : Follows k rest) :
    ∀ c ∈ rest.head?, startsOperand c = false :=
  fun c hc => (stops_apart c (h.operand c hc)).2.2.2

theorem append {text : List Char} (htext : Follows k text) (h : Follows k rest) :
    Follows k (text ++ rest) := by
  cases text with
  | nil => exact h
  | cons c text => exact cons (htext c rfl)

end Follows

theorem spelling_eq_cons {tier : Tier} {spelling : String} (h : spelling ∈ spellings tier) :
    ∃ c cs, spelling.toList = c :: cs ∧ c ∈ (Level.tier tier).below.stops := by
  have hhead : ∀ w ∈ spellings tier,
      w.toList.head?.any (decide <| · ∈ (Level.tier tier).below.stops) = true := by
    cases tier <;> decide
  have hstops := hhead spelling h
  cases htext : spelling.toList with
  | nil =>
      rw [htext] at hstops
      cases hstops
  | cons c cs =>
      rw [htext] at hstops
      exact ⟨c, cs, rfl, of_decide_eq_true hstops⟩

theorem Follows.not_spelling {tier : Tier} {rest : List Char}
    (h : Follows (.level (.tier tier)) rest) : ∀ w ∈ spellings tier, ¬ w.toList <+: rest := by
  have hapart : ∀ w ∈ spellings tier,
      w.toList.head?.all (decide <| · ∉ (Category.level (.tier tier)).stops) = true := by
    cases tier <;> decide
  rintro w hw ⟨behind, rfl⟩
  have hstops := hapart w hw
  obtain ⟨c, cs, htext, -⟩ := spelling_eq_cons hw
  rw [htext] at h hstops
  exact of_decide_eq_true hstops (h c rfl)

/-! ## How expressions begin -/

section Heads

variable {e : Expr} {s : List Char}

theorem operand_head (h : Canonical .operand (.term e)) (hs : (Expr.term e).Spells s) :
    ∃ c rest, s = c :: rest ∧ startsOperand c = true := by
  cases h with
  | parenthesized h =>
      simp only [Expr.Spells, h.isAtom_eq_false, Bool.false_eq_true, if_false] at hs
      obtain ⟨opening, inside, closing, rfl, hopening, -, -⟩ := hs
      obtain ⟨rest, rfl⟩ := hopening.eq_cons
      exact ⟨'(', _, rfl, rfl⟩
  | list =>
      obtain ⟨opening, inside, closing, rfl, hopening, -, -⟩ := hs
      obtain ⟨rest, rfl⟩ := hopening.eq_cons
      exact ⟨'[', _, rfl, rfl⟩
  | call hname =>
      obtain ⟨name, opening, inside, closing, rfl, hlexeme, -⟩ := hs
      obtain ⟨c, word, hword, hc, -⟩ := hname
      rw [hword] at hlexeme
      obtain ⟨rest, rfl⟩ := hlexeme.eq_cons
      exact ⟨c, _, rfl, by simp [startsOperand, hc]⟩
  | ident hname =>
      obtain ⟨c, word, hword, hc, -⟩ := hname
      have hlexeme : Lexeme _ s := hs
      rw [hword] at hlexeme
      obtain ⟨rest, rfl⟩ := hlexeme.eq_cons
      exact ⟨c, rest, rfl, by simp [startsOperand, hc]⟩
  | integer hinteger =>
      obtain ⟨c, word, hword, hc, -⟩ := hinteger
      have hlexeme : Lexeme _ s := hs
      rw [hword] at hlexeme
      obtain ⟨rest, rfl⟩ := hlexeme.eq_cons
      exact ⟨c, rest, rfl, by simp [startsOperand, hc]⟩
  | number hnumber =>
      obtain ⟨c, word, hword, hc⟩ := hnumber.head
      have hlexeme : Lexeme _ s := hs
      rw [hword] at hlexeme
      obtain ⟨rest, rfl⟩ := hlexeme.eq_cons
      refine ⟨c, rest, rfl, ?_⟩
      rcases hc with hc | rfl
      · simp [startsOperand, hc]
      · rfl

theorem operand_named (h : Canonical .operand (.term e)) (hs : (Expr.term e).Spells s)
    (hstart : ∀ c ∈ s.head?, isNameStart c = true) :
    ∃ x : String, IsName x.toList ∧ (e = .ident x ∨
      ∃ args, e = .call x args ∧ ∀ arg ∈ args, Canonical (.level .conditional) arg) := by
  cases h with
  | @ident x hname => exact ⟨x, hname, .inl rfl⟩
  | @call function args hname hargs => exact ⟨function, hname, .inr ⟨args, rfl, hargs⟩⟩
  | parenthesized h =>
      simp only [Expr.Spells, h.isAtom_eq_false, Bool.false_eq_true, if_false] at hs
      obtain ⟨opening, inside, closing, rfl, hopening, -, -⟩ := hs
      obtain ⟨rest, rfl⟩ := hopening.eq_cons
      exact absurd (hstart '(' rfl) (by decide)
  | list =>
      obtain ⟨opening, inside, closing, rfl, hopening, -, -⟩ := hs
      obtain ⟨rest, rfl⟩ := hopening.eq_cons
      exact absurd (hstart '[' rfl) (by decide)
  | integer hinteger =>
      obtain ⟨c, word, hword, hc, -⟩ := hinteger
      have hlexeme : Lexeme _ s := hs
      rw [hword] at hlexeme
      obtain ⟨rest, rfl⟩ := hlexeme.eq_cons
      have hname := hstart c rfl
      rw [isNameStart_of_isAsciiDigit hc] at hname
      cases hname
  | number hnumber =>
      obtain ⟨c, word, hword, hc⟩ := hnumber.head
      have hlexeme : Lexeme _ s := hs
      rw [hword] at hlexeme
      obtain ⟨rest, rfl⟩ := hlexeme.eq_cons
      have hname := hstart c rfl
      rcases hc with hc | rfl
      · rw [isNameStart_of_isAsciiDigit hc] at hname
        cases hname
      · exact absurd hname (by decide)

/-- Below the prefix operators an expression begins with an operand, behind which
an operator follows or nothing. -/
theorem split_leading {k : Category} (h : Canonical k e) (hu : k ≠ .level .unary)
    (hc : k ≠ .level .conditional) (hs : e.Spells s) :
    ∃ before behind, s = before ++ behind ∧ (Expr.term e.leading).Spells before ∧
      Follows .operand behind := by
  induction h generalizing s with
  | @bare level e hne h ih =>
      cases level with
      | conditional => exact absurd rfl hc
      | unary => exact absurd rfl hne
      | power => exact ih nofun nofun hs
      | tier t => cases t <;> exact ih nofun nofun hs
  | plain | prefixed => exact absurd rfl hu
  | ifThen | ifElse | ifThenElse => exact absurd rfl hc
  | power _ _ ih =>
      obtain ⟨left, caret, right, rfl, hleft, hcaret, -⟩ := hs
      obtain ⟨before, behind, rfl, hbefore, hbehind⟩ := ih nofun nofun hleft
      obtain ⟨rest, rfl⟩ := hcaret.eq_cons
      refine ⟨before, behind ++ ('^' :: rest ++ right), by simp, hbefore, hbehind.append ?_⟩
      exact .cons (by decide)
  | @first tier _ _ _ _ _ _ ih =>
      obtain ⟨left, sign, right, spelling, rfl, hleft, hspelling, -, hsign, -⟩ := hs
      obtain ⟨before, behind, rfl, hbefore, hbehind⟩ := ih (by cases tier <;> nofun)
        (by cases tier <;> nofun) hleft
      obtain ⟨c, cs, htext, hc⟩ := spelling_eq_cons hspelling
      rw [htext] at hsign
      obtain ⟨rest, rfl⟩ := hsign.eq_cons
      refine ⟨before, behind ++ (c :: rest ++ right), by simp, hbefore, hbehind.append ?_⟩
      exact .cons (stops_operand _ hc)
  | @further tier _ _ _ _ _ _ _ _ ih =>
      obtain ⟨left, sign, right, spelling, rfl, hleft, hspelling, -, hsign, -⟩ := hs
      obtain ⟨before, behind, rfl, hbefore, hbehind⟩ := ih nofun nofun hleft
      obtain ⟨c, cs, htext, hc⟩ := spelling_eq_cons hspelling
      rw [htext] at hsign
      obtain ⟨rest, rfl⟩ := hsign.eq_cons
      refine ⟨before, behind ++ (c :: rest ++ right), by simp, hbefore, hbehind.append ?_⟩
      exact .cons (stops_operand _ hc)
  | parenthesized => exact ⟨s, [], by simp, hs, .nil _⟩
  | list => exact ⟨s, [], by simp, hs, .nil _⟩
  | call => exact ⟨s, [], by simp, hs, .nil _⟩
  | ident => exact ⟨s, [], by simp, hs, .nil _⟩
  | integer => exact ⟨s, [], by simp, hs, .nil _⟩
  | number => exact ⟨s, [], by simp, hs, .nil _⟩

theorem power_head {k : Category} (h : Canonical k e) (hu : k ≠ .level .unary)
    (hc : k ≠ .level .conditional) (hs : e.Spells s) :
    ∃ c rest, s = c :: rest ∧ startsOperand c = true := by
  obtain ⟨before, behind, rfl, hbefore, -⟩ := split_leading h hu hc hs
  obtain ⟨c, rest, rfl, hstart⟩ := operand_head (h.leading hu hc) hbefore
  exact ⟨c, rest ++ behind, rfl, hstart⟩

theorem unary_head (h : Canonical (.level .unary) e) (hs : e.Spells s) :
    ∃ c rest, s = c :: rest ∧ (startsOperand c = true ∨ c = '-') := by
  cases h with
  | bare hne => exact absurd rfl hne
  | plain _ h =>
      obtain ⟨c, rest, rfl, hstart⟩ := power_head h nofun nofun hs
      exact ⟨c, rest, rfl, .inl hstart⟩
  | prefixed hop h =>
      obtain ⟨sign, behind, rfl, hsign, -, -⟩ := hs
      rcases hop with rfl | rfl
      · obtain ⟨rest, rfl⟩ := hsign.eq_cons
        exact ⟨'j', rest ++ behind, rfl, .inl rfl⟩
      · obtain ⟨rest, rfl⟩ := hsign.eq_cons
        exact ⟨'-', rest ++ behind, rfl, .inr rfl⟩

/-- An expression begins as an operand does, or with the minus sign. -/
theorem expression_head {k : Category} (h : Canonical k e) (hs : e.Spells s) :
    ∃ c rest, s = c :: rest ∧ (startsOperand c = true ∨ c = '-') := by
  by_cases hc : k = .level .conditional
  · subst hc
    cases h with
    | bare _ h => exact unary_head h hs
    | ifThen h =>
        obtain ⟨test, mark, yes, rfl, htest, -⟩ := hs
        obtain ⟨c, rest, rfl, hstart⟩ := unary_head h htest
        exact ⟨c, _, rfl, hstart⟩
    | ifElse h =>
        obtain ⟨test, mark, colon, no, rfl, htest, -⟩ := hs
        obtain ⟨c, rest, rfl, hstart⟩ := unary_head h htest
        exact ⟨c, _, rfl, hstart⟩
    | ifThenElse h =>
        obtain ⟨test, mark, yes, colon, no, rfl, htest, -⟩ := hs
        obtain ⟨c, rest, rfl, hstart⟩ := unary_head h htest
        exact ⟨c, _, rfl, hstart⟩
  · by_cases hu : k = .level .unary
    · subst hu
      exact unary_head h hs
    · obtain ⟨c, rest, rfl, hstart⟩ := power_head h hu hc hs
      exact ⟨c, rest, rfl, .inl hstart⟩

theorem head_apart {c : Char} (h : startsOperand c = true ∨ c = '-') :
    isBlank c = false ∧ c ∉ (Category.level .unary).stops := by
  rcases h with h | rfl
  · constructor
    · by_contra hblank
      have hblank : isBlank c = true := by simpa using hblank
      have hname := isNameChar_of_isBlank hblank
      simp only [isNameChar, Bool.or_eq_false_iff] at hname
      have hround : c ≠ '(' := ne_of_isBlank hblank (by decide)
      have hsquare : c ≠ '[' := ne_of_isBlank hblank (by decide)
      have hpoint : c ≠ '.' := ne_of_isBlank hblank (by decide)
      simp [startsOperand, hname, hround, hsquare, hpoint] at h
    · intro hstops
      rw [(stops_apart c (stops_operand _ hstops)).2.2.2] at h
      cases h
  · decide

theorem expression_noBlank {k : Category} (h : Canonical k e) (hs : e.Spells s) (rest : List Char) :
    NoBlank (s ++ rest) := by
  obtain ⟨c, more, rfl, hc⟩ := expression_head h hs
  rintro _ ⟨⟩
  exact (head_apart hc).1

theorem expression_apart {k : Category} (h : Canonical k e) (hs : e.Spells s) (rest : List Char)
    {c : Char} (hc : c ∈ (Category.level .unary).stops) : ¬ [c] <+: s ++ rest := by
  obtain ⟨d, more, rfl, hd⟩ := expression_head h hs
  rintro ⟨behind, heq⟩
  obtain rfl : c = d := (List.cons.inj heq).1
  exact (head_apart hd).2 hc

end Heads

end Grammar

end PolarCalc
