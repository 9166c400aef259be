import PolarCalc.Proofs.Grammar.Soundness
import PolarCalc.Proofs.Grammar.Statements
/-!
# Source texts and what is read

The source text of a canonical tree spells it, so that it is read as the same
tree again.  Together with the soundness of the rules this gives the image of
reading: exactly the canonical statements.
-/

namespace PolarCalc

open PolarCalc.Text PolarCalc.Grammar

/-! ## Texts that spell what is read -/

/-- A text is read as the canonical statements that it spells. -/
theorem Statement.parse_eq_ok_iff {text : String} {t : Statement} :
    parse text = .ok t ↔ t.Canonical ∧ t.Spells text.toList :=
  ⟨parse_sound, fun ⟨ht, hs⟩ => parse_complete ht hs⟩

/-- A text is read as the canonical expressions that it spells, behind any blanks. -/
theorem Expr.parse_eq_ok_iff {text : String} {e : Expr} :
    parse text = .ok e ↔ Canonical (.level .conditional) e ∧
      ∃ blanks body, text.toList = blanks ++ body ∧ (∀ c ∈ blanks, isBlank c = true) ∧
        e.Spells body := by
  rw [parse, Attempt.whole_eq_ok_iff]
  have hstart := Cursor.at_ofText text.toList
  generalize Cursor.ofText text.toList 0 = start at hstart
  constructor
  · rintro ⟨c, hread, hend⟩
    have hblanks : ∀ ch ∈ text.toList.takeWhile isBlank, isBlank ch = true := mem_takeWhile
    have hsplit := List.takeWhile_append_dropWhile (p := isBlank) (l := text.toList)
    rw [← hsplit] at hstart
    rw [hstart.skipBlanks hblanks (head?_dropWhile _ _)] at hread
    obtain ⟨s, rest, hs, -, hc, hspells, -, hcanonical, -⟩ :=
      expression_yields.split hstart.advance hread
    obtain rfl : rest = [] := hc.atEnd_iff.1 hend
    rw [List.append_nil] at hs
    exact ⟨hcanonical (.nil _), _, s, by rw [← hs, hsplit], hblanks, hspells⟩
  · rintro ⟨he, blanks, body, htext, hblanks, hspells⟩
    rw [htext, ← List.append_nil body] at hstart
    have hread := expression_accepts he hspells (.nil _) fun _ => by simp
    refine ⟨_, ?_, hstart.advance.advance.atEnd_iff.2 rfl⟩
    rw [hstart.skipBlanks hblanks (expression_noBlank he hspells [])]
    exact hread _ hstart.advance

/-! ## Source texts spell their trees -/

theorem Grammar.separated_spells {α : Type} {P : α → List Char → Prop} {write : α → List Char}
    {as : List α} (h : ∀ a ∈ as, P a (write a)) : Separated P as (separated (as.map write)) := by
  have hmore : ∀ {as : List α}, (∀ a ∈ as, P a (write a)) →
      SeparatedMore P as (as.flatMap fun a => [',', ' '] ++ write a) := by
    intro as h
    induction as with
    | nil => rfl
    | cons a as ih =>
        refine ⟨[',', ' '], write a, as.flatMap fun a => [',', ' '] ++ write a, ?_, ?_,
          h a List.mem_cons_self, ih fun b hb => h b (List.mem_cons_of_mem a hb)⟩
        · rw [List.flatMap_cons]
        · exact ⟨[' '], isBlank_of_mem_space, rfl⟩
  cases as with
  | nil => rfl
  | cons a as =>
      rw [List.map_cons, separated_cons_map]
      exact ⟨write a, _, rfl, h a List.mem_cons_self,
        hmore fun b hb => h b (List.mem_cons_of_mem a hb)⟩

namespace Expr

@[simp] theorem itemsChars_eq (items : List Expr) : itemsChars items = items.map chars := by
  induction items with
  | nil => rfl
  | cons item items ih => rw [itemsChars, ih, List.map_cons]

theorem lexeme_space (word : List Char) : Lexeme word (word ++ [' ']) :=
  ⟨[' '], isBlank_of_mem_space, rfl⟩

/-- The source text of a canonical tree spells it, also with blanks behind. -/
theorem spells_chars {k : Category} {e : Expr} (h : Canonical k e) {blanks : List Char}
    (hblanks : ∀ c ∈ blanks, isBlank c = true) : e.Spells (e.chars ++ blanks) := by
  have hnone : ∀ c ∈ ([] : List Char), isBlank c = true := nofun
  induction h generalizing blanks with
  | bare _ _ ih => exact ih hblanks
  | plain _ _ ih => exact ih hblanks
  | @prefixed op e hop _ ih =>
      refine ⟨op.toList ++ [' '], e.chars ++ blanks, by simp [chars], lexeme_space _,
        ih hblanks, ?_⟩
      rintro rfl hsign
      exact absurd hsign (by decide)
  | @power base exponent _ _ ihBase ihExponent =>
      exact ⟨base.chars ++ [' '], ['^', ' '], exponent.chars ++ blanks, by simp [chars],
        ihBase isBlank_of_mem_space, lexeme_space ['^'], ihExponent hblanks⟩
  | @first tier left right op hop _ _ ihLeft ihRight =>
      obtain ⟨hspelling, hsame⟩ := Tier.operators_subset hop
      exact ⟨left.chars ++ [' '], op.toList ++ [' '], right.chars ++ blanks, op, by simp [chars],
        ihLeft isBlank_of_mem_space, hspelling, hsame, lexeme_space _, ihRight hblanks⟩
  | @further tier left middle right op next hnext _ _ ihLeft ihRight =>
      obtain ⟨hspelling, hsame⟩ := Tier.operators_subset hnext
      exact ⟨(binary tier left op middle).chars ++ [' '], next.toList ++ [' '],
        right.chars ++ blanks, next, by simp [chars], ihLeft isBlank_of_mem_space, hspelling, hsame,
        lexeme_space _, ihRight hblanks⟩
  | @ifThen condition thenBranch _ _ ihCondition ihThen =>
      exact ⟨condition.chars ++ [' '], ['?', ' '], thenBranch.chars ++ blanks, by simp [chars],
        ihCondition isBlank_of_mem_space, lexeme_space ['?'], ihThen hblanks⟩
  | @ifElse condition elseBranch _ _ ihCondition ihElse =>
      exact ⟨condition.chars ++ [' '], ['?', ' '], [':', ' '], elseBranch.chars ++ blanks,
        by simp [chars], ihCondition isBlank_of_mem_space, lexeme_space ['?'], lexeme_space [':'],
        ihElse hblanks⟩
  | @ifThenElse condition thenBranch elseBranch _ _ _ _ ihCondition ihThen ihElse =>
      exact ⟨condition.chars ++ [' '], ['?', ' '], thenBranch.chars ++ [' '], [':', ' '],
        elseBranch.chars ++ blanks, by simp [chars], ihCondition isBlank_of_mem_space,
        lexeme_space ['?'], ihThen isBlank_of_mem_space, lexeme_space [':'], ihElse hblanks⟩
  | @parenthesized e h ih =>
      have hatom := h.isAtom_eq_false
      simp only [Spells, chars, hatom, Bool.false_eq_true, if_false]
      have hinside := ih hnone
      rw [List.append_nil] at hinside
      exact ⟨['('], e.chars, [')'] ++ blanks, by simp, .self _, hinside, blanks, hblanks, rfl⟩
  | @list items _ ih =>
      show Spells (.list items) _
      rw [Spells, spellsItems_eq]
      refine ⟨['['], separated (items.map chars), [']'] ++ blanks, ?_, .self _,
        separated_spells fun item hitem => ?_, blanks, hblanks, rfl⟩
      · simp [chars, isAtom]
      · have hspells := ih item hitem hnone
        rwa [List.append_nil] at hspells
  | @call function args _ _ ih =>
      show Spells (.call function args) _
      rw [Spells, spellsItems_eq]
      refine ⟨function.toList, ['('], separated (args.map chars), [')'] ++ blanks, ?_, .self _,
        .self _, separated_spells fun arg harg => ?_, blanks, hblanks, rfl⟩
      · simp [chars, isAtom]
      · have hspells := ih arg harg hnone
        rwa [List.append_nil] at hspells
  | ident | integer | number => exact ⟨blanks, hblanks, rfl⟩

theorem hasForeign_eq_false {k : Category} {e : Expr} (h : Canonical k e) :
    e.hasForeign = false := by
  have hany : ∀ {items : List Expr}, (∀ item ∈ items, hasForeign item = false) →
      anyForeign items = false := by
    intro items h
    induction items with
    | nil => rfl
    | cons item items ih =>
        rw [anyForeign, h item List.mem_cons_self,
          ih fun next hnext => h next (List.mem_cons_of_mem item hnext), Bool.or_self]
  induction h with
  | list _ ih => exact hany ih
  | call _ _ ih => exact hany ih
  | _ => simp_all [hasForeign]

end Expr

namespace Statement

theorem head_spells_chars {head : Head} : head.Spells head.chars := by
  cases head with
  | express => rfl
  | assign name =>
      refine ⟨['l', 'e', 't', ' '], name.toList ++ [' '], ['=', ' '], by simp [Head.chars],
        Expr.lexeme_space ['l', 'e', 't'], by decide, Expr.lexeme_space _, Expr.lexeme_space ['=']⟩
  | define name params =>
      exact ⟨['\\'], name.toList, ['('], separated (params.map String.toList), [')', ' '],
        ['-', '>', ' '], by simp [Head.chars], .self _, .self _, .self _,
        separated_spells fun _ _ => .self _, Expr.lexeme_space [')'], Expr.lexeme_space ['-', '>']⟩

theorem spells_chars {t : Statement} (h : t.Canonical) : t.Spells t.chars := by
  have hnone : ∀ c ∈ ([] : List Char), isBlank c = true := nofun
  have hbody := Expr.spells_chars h.2 hnone
  rw [List.append_nil] at hbody
  exact ⟨[], t.head.chars, t.body.chars, rfl, nofun, head_spells_chars, hbody⟩

/-- The source text of a canonical statement is read as it. -/
theorem parse_source_of_canonical {t : Statement} (h : t.Canonical) : parse t.source = .ok t := by
  refine parse_complete h ?_
  rw [source, String.toList_ofList]
  exact spells_chars h

/-- What was read is written as a text that is read the same. -/
theorem parse_source {text : String} {t : Statement} (h : parse text = .ok t) :
    ∃ written, t.source? = some written ∧ parse written = .ok t := by
  obtain ⟨hcanonical, -⟩ := parse_sound h
  refine ⟨t.source, ?_, parse_source_of_canonical hcanonical⟩
  rw [source?, Expr.hasForeign_eq_false hcanonical.2]
  rfl

theorem parse_source_prefixed : ∃ t, parse "j 2!=a" = .ok t ∧
    ∃ written, t.source? = some written ∧ parse written = .ok t := by
  have h : parse "j 2!=a" = .ok ⟨.express, .bare .conditional (.prefixed "j" (.bare .power
      (.bare (.tier .product) (.bare (.tier .sum) (.binary .relational (.term (.number "2")) "≠"
        (.term (.ident "a")))))))⟩ := by
    decide +kernel
  exact ⟨_, h, parse_source h⟩

/-- A statement is read from some text exactly if it is canonical. -/
theorem exists_parse_iff (t : Statement) : (∃ text, parse text = .ok t) ↔ t.Canonical := by
  constructor
  · rintro ⟨text, h⟩
    exact (parse_sound h).1
  · intro h
    exact ⟨t.source, parse_source_of_canonical h⟩

end Statement

end PolarCalc
