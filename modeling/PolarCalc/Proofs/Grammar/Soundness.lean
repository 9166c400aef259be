import PolarCalc.Proofs.Grammar.Prefix
/-!
# What the rules read

Every expression and every statement that is read is canonical, and the text
that was read spells it.
-/

namespace PolarCalc.Grammar

open PolarCalc.Text

/-! ## Prefixes -/

/-- As `ReadsAs` for a unary level, provided that an expression may end there. -/
def ReadsUnary (e : Expr) (s rest : List Char) : Prop :=
  e.Spells s ∧ NoBlank rest ∧ (Follows (.level .unary) rest → Canonical (.level .unary) e)

section Prefixes

variable {conditional power rule : Rule Expr} {c : Cursor} {text : List Char}

theorem prefixedBy_yields {op : String} (hop : op = "j" ∨ op = "-")
    (h : rule.Yields (ReadsAs (.level .power))) : (prefixedBy op rule).Yields ReadsUnary := by
  intro c text e c' hc hread
  unfold prefixedBy at hread
  split at hread
  · rename_i hstarts
    simp only [Attempt.value?_bind, Option.bind_eq_some_iff] at hread
    obtain ⟨⟨operand, d⟩, hoperand, heq⟩ := hread
    cases heq
    obtain ⟨behind, rfl⟩ := (hc.startsWith_iff _).1 (startsWith_of_startsPrefixed hstarts)
    obtain ⟨s₁, rest₁, hsplit, hlexeme, hblank₁, hcursor⟩ := hc.exists_lexeme
    have hc₁ := hc
    rw [hsplit] at hc₁
    rw [← String.length_toList, hcursor] at hoperand
    obtain ⟨s₂, rest₂, rfl, rfl, -, hspells, hcanonical, hblank₂⟩ := h.split hc₁.advance hoperand
    refine ⟨s₁ ++ s₂, rest₂, by rw [hsplit]; simp, by simp, ?_, hblank₂,
      fun _ => .prefixed hop hcanonical⟩
    refine ⟨s₁, s₂, rfl, hlexeme, hspells, ?_⟩
    rintro rfl rfl ch hch
    refine isNameStart_behind_j hc₁ hstarts ch ?_
    cases s₂ with
    | nil => cases hch
    | cons g s₂ => exact hch
  · cases hread

theorem unaryLevel_yields (hconditional : conditional.Yields ReadsConditional)
    (hpower : power.Yields (ReadsAs (.level .power))) :
    (unaryLevel (powerLevel conditional power)).Yields ReadsUnary := by
  have h := powerLevel_yields hconditional hpower
  intro c text e c' hc hread
  rw [unaryLevel, Rule.value?_firstOf] at hread
  cases hj : (prefixedBy "j" (powerLevel conditional power) c).value? with
  | some read =>
      rw [List.findSome?_cons, hj] at hread
      exact prefixedBy_yields (.inl rfl) h c text e c' hc (hj.trans hread)
  | none =>
      rw [List.findSome?_cons, hj] at hread
      cases hminus : (prefixedBy "-" (powerLevel conditional power) c).value? with
      | some read =>
          rw [List.findSome?_cons, hminus] at hread
          exact prefixedBy_yields (.inr rfl) h c text e c' hc (hminus.trans hread)
      | none =>
          rw [List.findSome?_cons, hminus, List.findSome?_cons, Rule.value?_map] at hread
          cases hplain : (powerLevel conditional power c).value? with
          | none =>
              rw [hplain] at hread
              cases hread
          | some read =>
              obtain ⟨operand, d⟩ := read
              rw [hplain] at hread
              cases hread
              obtain ⟨s, rest, rfl, rfl, hd, hspells, hcanonical, hblank⟩ := h.split hc hplain
              refine ⟨s, rest, rfl, rfl, hspells, hblank, fun hrest => ?_⟩
              exact .plain (keepsJ_of_plain hconditional hc hplain hd hrest hj) hcanonical

end Prefixes

/-! ## Conditionals -/

section Conditionals

variable {conditional power : Rule Expr} {condition : Expr} {test mark : List Char}

theorem branches_yields (h : conditional.Yields ReadsConditional) (htest : condition.Spells test)
    (hcondition : Canonical (.level .unary) condition) (hmark : Lexeme ['?'] mark) :
    (branches conditional condition).Yields fun e s rest =>
      ReadsConditional e (test ++ mark ++ s) rest := by
  intro c text e c' hc hread
  unfold branches at hread
  split at hread
  · simp only [Attempt.value?_bind, Option.bind_eq_some_iff] at hread
    obtain ⟨⟨_, c₁⟩, hcolon, ⟨elseBranch, c₂⟩, helse, heq⟩ := hread
    cases heq
    obtain ⟨s₁, rest₁, rfl, rfl, hc₁, -, hlexeme, -⟩ := (word_yields ":").split hc hcolon
    obtain ⟨s₂, rest₂, rfl, rfl, -, hspells, hblank, hcanonical, hopen⟩ := h.split hc₁ helse
    refine ⟨s₁ ++ s₂, rest₂, by simp, by simp, ?_, hblank, fun hrest => ?_, hopen⟩
    · exact ⟨test, mark, s₁, s₂, rfl, htest, hmark, hlexeme, hspells⟩
    · exact .ifElse hcondition (hcanonical hrest)
  · simp only [Attempt.value?_bind, Option.bind_eq_some_iff] at hread
    obtain ⟨⟨thenBranch, c₁⟩, hthen, hread⟩ := hread
    obtain ⟨s₁, rest₁, rfl, rfl, hc₁, hspells₁, hblank₁, hcanonical₁, hopen₁⟩ := h.split hc hthen
    split at hread
    · rename_i hstarts
      simp only [Attempt.value?_bind, Option.bind_eq_some_iff] at hread
      obtain ⟨⟨_, c₂⟩, hcolon, ⟨elseBranch, c₃⟩, helse, heq⟩ := hread
      cases heq
      -- the then-branch was read up to a colon, so it is canonical and not open
      have hprefix := (hc₁.startsWith_iff _).1 hstarts
      have hthen : Canonical (.level .conditional) thenBranch := by
        obtain ⟨behind, rfl⟩ := hprefix
        exact hcanonical₁ (.cons (by decide))
      have hclosed : thenBranch.isOpen = false := by
        by_contra hopen
        exact hopen₁ (by simpa using hopen) hprefix
      obtain ⟨s₂, rest₂, rfl, rfl, hc₂, -, hlexeme, -⟩ := (word_yields ":").split hc₁ hcolon
      obtain ⟨s₃, rest₃, rfl, rfl, -, hspells₃, hblank₃, hcanonical₃, hopen₃⟩ :=
        h.split hc₂ helse
      refine ⟨s₁ ++ (s₂ ++ s₃), rest₃, by simp, by simp [Nat.add_assoc], ?_, hblank₃,
        fun hrest => ?_, hopen₃⟩
      · exact ⟨test, mark, s₁, s₂, s₃, rfl, htest, hmark, hspells₁, hlexeme, hspells₃⟩
      · exact .ifThenElse hcondition hthen hclosed (hcanonical₃ hrest)
    · rename_i hstarts
      cases hread
      refine ⟨s₁, rest₁, rfl, rfl, ?_, hblank₁, fun hrest => ?_, fun _ hprefix => ?_⟩
      · exact ⟨test, mark, s₁, rfl, htest, hmark, hspells₁⟩
      · exact .ifThen hcondition (hcanonical₁ hrest)
      · exact hstarts ((hc₁.startsWith_iff _).2 hprefix)

theorem conditionalLevel_yields (hconditional : conditional.Yields ReadsConditional)
    (hpower : power.Yields (ReadsAs (.level .power))) :
    (conditionalLevel conditional (powerLevel conditional power)).Yields ReadsConditional := by
  intro c text e c' hc hread
  unfold conditionalLevel at hread
  simp only [Attempt.value?_bind, Option.bind_eq_some_iff] at hread
  obtain ⟨⟨condition, c₁⟩, hcondition, hread⟩ := hread
  obtain ⟨s₁, rest₁, rfl, rfl, hc₁, hspells, hblank, hcanonical⟩ :=
    (unaryLevel_yields hconditional hpower).split hc hcondition
  split at hread
  · rename_i hstarts
    simp only [Attempt.value?_bind, Option.bind_eq_some_iff] at hread
    obtain ⟨⟨_, c₂⟩, hmark, hread⟩ := hread
    have htest : Canonical (.level .unary) condition := by
      obtain ⟨behind, rfl⟩ := (hc₁.startsWith_iff _).1 hstarts
      exact hcanonical (.cons (by decide))
    obtain ⟨s₂, rest₂, rfl, rfl, hc₂, -, hlexeme, -⟩ := (word_yields "?").split hc₁ hmark
    obtain ⟨s₃, rest₃, rfl, rfl, -, hreads⟩ :=
      (branches_yields hconditional hspells htest hlexeme).split hc₂ hread
    exact ⟨s₁ ++ s₂ ++ s₃, rest₃, by simp, by simp [Nat.add_assoc], hreads⟩
  · cases hread
    exact ⟨s₁, rest₁, rfl, rfl, hspells, hblank,
      fun hrest => .bare nofun (hcanonical hrest.below), nofun⟩

theorem goal_yields (fuel : Nat) : (goal fuel .conditional).Yields ReadsConditional ∧
    (goal fuel .power).Yields (ReadsAs (.level .power)) := by
  induction fuel with
  | zero => exact ⟨nofun, nofun⟩
  | succ fuel ih =>
      obtain ⟨hconditional, hpower⟩ := ih
      exact ⟨conditionalLevel_yields hconditional hpower, powerLevel_yields hconditional hpower⟩

theorem expression_yields : expression.Yields ReadsConditional :=
  fun c text e c' hc hread => (goal_yields _).1 c text e c' hc hread

end Conditionals

/-! ## Statements -/

/-- `s` spells a statement, canonical if it may end there. -/
def ReadsStatement (t : Statement) (s rest : List Char) : Prop :=
  t.head.Canonical ∧ ∃ head body, s = head ++ body ∧ t.head.Spells head ∧
    ReadsConditional t.body body rest

theorem parameters_yields :
    (separatedItems name ")").Yields fun params s rest => ∃ inside closing, s = inside ++ closing ∧
      Separated (fun param : String => Lexeme param.toList) params inside ∧ Lexeme [')'] closing ∧
      NoBlank rest ∧ ∀ param ∈ params, IsName param.toList := by
  refine (separatedItems_yields name_yields ")").imp ?_
  rintro params s rest ⟨inside, closing, rfl, hparams, hclosing, hblank⟩
  refine ⟨inside, closing, rfl, hparams.imp ?_, hclosing, hblank, hparams.forall ?_⟩
  · rintro param - s ⟨_, ⟨-, hlexeme, -⟩, -⟩
    exact hlexeme
  · rintro param s ⟨_, ⟨hname, -, -⟩, -⟩
    exact hname

theorem definition_yields : definition.Yields ReadsStatement := by
  intro c text t c' hc hread
  simp only [definition, Attempt.value?_bind, Option.bind_eq_some_iff] at hread
  obtain ⟨⟨_, c₁⟩, hbackslash, ⟨function, c₂⟩, hname, ⟨_, c₃⟩, hopening, ⟨params, c₄⟩, hparams,
    ⟨_, c₅⟩, harrow, ⟨body, c₆⟩, hbody, heq⟩ := hread
  cases heq
  obtain ⟨s₁, rest₁, rfl, rfl, hc₁, -, hlexeme₁, -⟩ := (word_yields "\\").split hc hbackslash
  obtain ⟨s₂, rest₂, rfl, rfl, hc₂, hisName, hlexeme₂, -⟩ := name_yields.split hc₁ hname
  obtain ⟨s₃, rest₃, rfl, rfl, hc₃, -, hlexeme₃, -⟩ := (word_yields "(").split hc₂ hopening
  obtain ⟨s₄, rest₄, rfl, rfl, hc₄, inside, closing, rfl, hinside, hclosing, -, hnames⟩ :=
    parameters_yields.split hc₃ hparams
  obtain ⟨s₅, rest₅, rfl, rfl, hc₅, -, hlexeme₅, -⟩ := (word_yields "->").split hc₄ harrow
  obtain ⟨s₆, rest₆, rfl, rfl, -, hreads⟩ := expression_yields.split hc₅ hbody
  refine ⟨s₁ ++ s₂ ++ s₃ ++ inside ++ closing ++ s₅ ++ s₆, rest₆, by simp,
    by simp [Nat.add_assoc], ⟨hisName, hnames⟩, _, s₆, rfl, ?_, hreads⟩
  exact ⟨s₁, s₂, s₃, inside, closing, s₅, rfl, hlexeme₁, hlexeme₂, hlexeme₃, hinside, hclosing,
    hlexeme₅⟩

theorem assignment_yields : assignment.Yields ReadsStatement := by
  intro c text t c' hc hread
  simp only [assignment, Attempt.value?_bind, Option.bind_eq_some_iff] at hread
  obtain ⟨⟨_, c₁⟩, hkeyword, ⟨target, c₂⟩, hname, ⟨_, c₃⟩, hsign, ⟨body, c₄⟩, hbody, heq⟩ := hread
  cases heq
  obtain ⟨s₁, rest₁, rfl, rfl, hc₁, -, hlexeme₁, -, hkeyword⟩ :=
    (keyword_yields "let").split hc hkeyword
  obtain ⟨s₂, rest₂, rfl, rfl, hc₂, hisName, hlexeme₂, -⟩ := name_yields.split hc₁ hname
  obtain ⟨s₃, rest₃, rfl, rfl, hc₃, -, hlexeme₃, -⟩ := (word_yields "=").split hc₂ hsign
  obtain ⟨s₄, rest₄, rfl, rfl, -, hreads⟩ := expression_yields.split hc₃ hbody
  have hapart : s₁ ≠ "let".toList := by
    rintro rfl
    obtain ⟨ch, more, htext, hch, -⟩ := hisName
    rw [htext] at hlexeme₂
    obtain ⟨after, rfl⟩ := hlexeme₂.eq_cons
    have hword := hkeyword _ rfl ch rfl
    rw [isWordChar_of_isNameChar (isNameChar_of_isNameStart hch)] at hword
    cases hword
  refine ⟨s₁ ++ s₂ ++ s₃ ++ s₄, rest₄, by simp, by simp [Nat.add_assoc], hisName, _, s₄, rfl, ?_,
    hreads⟩
  exact ⟨s₁, s₂, s₃, rfl, hlexeme₁, hapart, hlexeme₂, hlexeme₃⟩

/-- A text that is read as a statement spells it, and the statement is canonical. -/
theorem parse_sound {text : String} {t : Statement} (h : Statement.parse text = .ok t) :
    t.Canonical ∧ t.Spells text.toList := by
  rw [Statement.parse, Attempt.whole_eq_ok_iff] at h
  obtain ⟨c, hread, hend⟩ := h
  have hrules : (Rule.firstOf definition
      [assignment, expression.map fun body => ⟨.express, body⟩]).Yields ReadsStatement := by
    refine .firstOf fun rule hrule => ?_
    simp only [List.mem_cons, List.not_mem_nil, or_false] at hrule
    rcases hrule with rfl | rfl | rfl
    · exact definition_yields
    · exact assignment_yields
    · exact .map _ (expression_yields.imp fun e s rest hreads => ⟨trivial, [], s, rfl, rfl, hreads⟩)
  have hblanks : ∀ ch ∈ text.toList.takeWhile isBlank, isBlank ch = true := mem_takeWhile
  have hsplit := List.takeWhile_append_dropWhile (p := isBlank) (l := text.toList)
  have hstart := Cursor.at_ofText text.toList
  generalize Cursor.ofText text.toList 0 = start at hread hstart
  rw [← hsplit] at hstart
  rw [statement, hstart.skipBlanks hblanks (head?_dropWhile _ _)] at hread
  obtain ⟨s, rest, hs, rfl, hc, hhead, head, body, rfl, hspells, hbody⟩ :=
    hrules.split hstart.advance hread
  obtain rfl : rest = [] := hc.atEnd_iff.1 hend
  obtain ⟨hbodySpells, -, hcanonical, -⟩ := hbody
  refine ⟨⟨hhead, hcanonical (.nil _)⟩, _, head, body, ?_, hblanks, hspells, hbodySpells⟩
  rw [List.append_nil] at hs
  rw [List.append_assoc, ← hs, hsplit]

end PolarCalc.Grammar
