import Mathlib.Data.List.Forall2
import PolarCalc.Proofs.Grammar.Spacing
/-!
# Expressions in any context

A text that is read as an expression on its own is read as the same expression
wherever the grammar has a place for one: as a statement, behind the head of an
assignment or a definition, in parentheses, and as an item of a list or a call.  The
blanks in front of it belong to the word that it then stands behind.
-/

namespace PolarCalc

open PolarCalc.Text PolarCalc.Grammar

/-! ## Operands on their own -/

namespace Expr

/-- An operand inside all levels, none of which applies an operator. -/
def alone (operand : Expr) : Expr :=
  .bare .conditional <| .bare .unary <| .bare .power <| .bare (.tier .product) <|
    .bare (.tier .sum) <| .bare (.tier .relational) <| .term operand

theorem canonical_alone {operand : Expr} (h : Canonical .operand (.term operand))
    (hkeeps : operand.keepsJ = true) : Canonical (.level .conditional) operand.alone :=
  .bare nofun <| .plain hkeeps <| .bare nofun <| .bare nofun <| .bare nofun <| .bare nofun h

theorem spells_alone {operand : Expr} {s : List Char} (h : (Expr.term operand).Spells s) :
    operand.alone.Spells s := h

theorem keepsJ_call {function : String} {args : List Expr}
    (h : function.toList.head? ≠ some 'j') : (call function args).keepsJ = true := by
  have hsplits : splitsAfterJ function.toList = false := by
    rw [splitsAfterJ.eq_def]
    split
    · rename_i htext
      rw [htext] at h
      exact absurd rfl h
    · rfl
  have hname : function ≠ "j" := by
    rintro rfl
    exact h (by decide)
  simp [keepsJ, hsplits, hname]

end Expr

/-! ## Texts with commas between them -/

section Joined

variable {α : Type} {P : α → List Char → Prop} {as : List α} {texts : List (List Char)}

/-- The text is one with the property, behind any blanks. -/
def Padded (P : α → List Char → Prop) (a : α) (text : List Char) : Prop :=
  ∃ blanks body, text = blanks ++ body ∧ (∀ c ∈ blanks, isBlank c = true) ∧ P a body

theorem intercalate_cons (text : List Char) (texts : List (List Char)) :
    [','].intercalate (text :: texts) = text ++ texts.flatMap (',' :: ·) := by
  induction texts generalizing text with
  | nil => simp
  | cons next texts ih =>
      rw [List.intercalate_cons_cons, ih, List.flatMap_cons]
      simp

theorem separatedMore_of_padded (h : List.Forall₂ (Padded P) as texts) :
    SeparatedMore P as (texts.flatMap (',' :: ·)) := by
  induction h with
  | nil => rfl
  | @cons a text as texts hfirst _ ih =>
      obtain ⟨blanks, body, rfl, hblanks, hbody⟩ := hfirst
      exact ⟨',' :: blanks, body, _, by simp, ⟨blanks, hblanks, rfl⟩, hbody, ih⟩

theorem separated_of_padded (h : List.Forall₂ (Padded P) as texts) (word : List Char) :
    ∃ opening inside, word ++ [','].intercalate texts = opening ++ inside ∧
      Lexeme word opening ∧ Separated P as inside := by
  cases h with
  | nil => exact ⟨word, [], by simp, .self word, rfl⟩
  | @cons a text as texts hfirst hmore =>
      obtain ⟨blanks, body, rfl, hblanks, hbody⟩ := hfirst
      refine ⟨word ++ blanks, body ++ texts.flatMap (',' :: ·), ?_, ⟨blanks, hblanks, rfl⟩, body, _,
        rfl, hbody, separatedMore_of_padded hmore⟩
      rw [intercalate_cons]
      simp

theorem padded_names (params : List String) :
    List.Forall₂ (Padded fun param : String => Lexeme param.toList) (params.map trimmed)
      (params.map String.toList) := by
  rw [List.forall₂_map_left_iff, List.forall₂_map_right_iff, List.forall₂_same]
  intro param _
  obtain ⟨front, back, htext, hfront, hback⟩ := exists_trimmed param
  exact ⟨front, _, by rw [htext, List.append_assoc], hfront, back, hback, rfl⟩

end Joined

/-! ## Expressions as parts of texts -/

namespace Expr

variable {text : String} {e : Expr}

theorem padded_of_parse (h : parse text = .ok e) :
    Canonical (.level .conditional) e ∧ Padded Spells e text.toList :=
  parse_eq_ok_iff.1 h

theorem parse_of_spells (he : Canonical (.level .conditional) e) (hs : e.Spells text.toList) :
    parse text = .ok e :=
  parse_eq_ok_iff.2 ⟨he, [], _, rfl, nofun, hs⟩

/-- A text is read as an expression exactly if it is a statement that is one. -/
theorem parse_statement_iff : Statement.parse text = .ok ⟨.express, e⟩ ↔ parse text = .ok e := by
  rw [Statement.parse_eq_ok_iff, parse_eq_ok_iff]
  constructor
  · rintro ⟨⟨-, he⟩, blanks, head, body, htext, hblanks, rfl, hbody⟩
    exact ⟨he, blanks, body, by rw [htext, List.append_nil], hblanks, hbody⟩
  · rintro ⟨he, blanks, body, htext, hblanks, hbody⟩
    exact ⟨⟨trivial, he⟩, blanks, [], body, by rw [htext, List.append_nil], hblanks, rfl, hbody⟩

theorem parse_assignment {name : String} (hname : IsName name.toList) (h : parse text = .ok e) :
    Statement.parse ("let " ++ name ++ " = " ++ text) = .ok ⟨.assign name, e⟩ := by
  obtain ⟨he, blanks, body, htext, hblanks, hbody⟩ := padded_of_parse h
  refine Statement.parse_eq_ok_iff.2 ⟨⟨hname, he⟩, [], "let ".toList ++ (name.toList ++ [' ']) ++
    ('=' :: ' ' :: blanks), body, ?_, nofun, ⟨_, _, _, rfl, ?_, by decide, ?_, ?_⟩, hbody⟩
  · simp [htext]
  · exact ⟨[' '], isBlank_of_mem_space, rfl⟩
  · exact ⟨[' '], isBlank_of_mem_space, rfl⟩
  · exact ⟨' ' :: blanks, List.forall_mem_cons.2 ⟨by decide, hblanks⟩, rfl⟩

theorem parse_definition {name : String} {params : List String} (hname : IsName name.toList)
    (hparams : ∀ param ∈ params, IsName (trimmed param).toList) (h : parse text = .ok e) :
    Statement.parse ("\\" ++ name ++ "(" ++ String.intercalate "," params ++ ") -> " ++ text) =
      .ok ⟨.define name (params.map trimmed), e⟩ := by
  obtain ⟨he, blanks, body, htext, hblanks, hbody⟩ := padded_of_parse h
  obtain ⟨opening, inside, hopen, hopening, hinside⟩ :=
    separated_of_padded (padded_names params) ['(']
  refine Statement.parse_eq_ok_iff.2 ⟨⟨⟨hname, ?_⟩, he⟩, [], ['\\'] ++ name.toList ++ opening ++
    inside ++ [')', ' '] ++ ('-' :: '>' :: ' ' :: blanks), body, ?_, nofun, ⟨_, _, _, _, _, _, rfl,
    .self _, .self _, hopening, hinside, ⟨[' '], isBlank_of_mem_space, rfl⟩, ' ' :: blanks, ?_, rfl⟩,
    hbody⟩
  · rw [List.forall_mem_map]
    exact hparams
  · rw [List.append_assoc (['\\'] ++ name.toList) opening inside, ← hopen]
    simp [htext]
  · exact List.forall_mem_cons.2 ⟨by decide, hblanks⟩

theorem parse_parenthesized (h : parse text = .ok e) :
    parse ("(" ++ text ++ ")") = .ok e.alone := by
  obtain ⟨he, blanks, body, htext, hblanks, hbody⟩ := padded_of_parse h
  refine parse_of_spells (canonical_alone (.parenthesized he) he.keepsJ) (spells_alone ?_)
  simp only [Spells, he.isAtom_eq_false, Bool.false_eq_true, if_false]
  exact ⟨'(' :: blanks, body, [')'], by simp [htext], ⟨blanks, hblanks, rfl⟩, hbody, .self _⟩

/-! ## Expressions as items -/

section Items

variable {texts : List String} {items : List Expr}

theorem padded_items (h : List.Forall₂ (fun text e => parse text = .ok e) texts items) :
    (∀ item ∈ items, Canonical (.level .conditional) item) ∧
      List.Forall₂ (Padded Spells) items (texts.map String.toList) := by
  induction h with
  | nil => exact ⟨nofun, .nil⟩
  | cons hfirst _ ih =>
      obtain ⟨hitem, hpadded⟩ := padded_of_parse hfirst
      exact ⟨List.forall_mem_cons.2 ⟨hitem, ih.1⟩, .cons hpadded ih.2⟩

theorem parse_list (h : List.Forall₂ (fun text e => parse text = .ok e) texts items) :
    parse ("[" ++ String.intercalate "," texts ++ "]") = .ok (list items).alone := by
  obtain ⟨hitems, hpadded⟩ := padded_items h
  obtain ⟨opening, inside, hopen, hopening, hinside⟩ := separated_of_padded hpadded ['[']
  refine parse_of_spells (canonical_alone (.list hitems) rfl) (spells_alone ?_)
  show Spells (.list items) _
  rw [Spells, spellsItems_eq]
  refine ⟨opening, inside, [']'], ?_, hopening, hinside, .self _⟩
  rw [← hopen]
  simp

theorem parse_call {function : String} (hname : IsName function.toList)
    (hj : function.toList.head? ≠ some 'j')
    (h : List.Forall₂ (fun text e => parse text = .ok e) texts items) :
    parse (function ++ "(" ++ String.intercalate "," texts ++ ")") =
      .ok (call function items).alone := by
  obtain ⟨hitems, hpadded⟩ := padded_items h
  obtain ⟨opening, inside, hopen, hopening, hinside⟩ := separated_of_padded hpadded ['(']
  refine parse_of_spells (canonical_alone (.call hname hitems) (keepsJ_call hj)) (spells_alone ?_)
  show Spells (.call function items) _
  rw [Spells, spellsItems_eq]
  refine ⟨function.toList, opening, inside, [')'], ?_, .self _, hopening, hinside, .self _⟩
  rw [← hopen]
  simp

end Items

/-- What is read as an expression is read as the same expression in every place that the
grammar has for one, and a statement that is an expression is read as one. -/
theorem parse_in_context :
    (∀ text e, parse text = .ok e →
      Statement.parse text = .ok ⟨.express, e⟩ ∧
      (∀ name : String, IsName name.toList →
        Statement.parse ("let " ++ name ++ " = " ++ text) = .ok ⟨.assign name, e⟩) ∧
      (∀ (name : String) (params : List String), IsName name.toList →
        (∀ param ∈ params, IsName (trimmed param).toList) →
        Statement.parse ("\\" ++ name ++ "(" ++ String.intercalate "," params ++ ") -> " ++ text) =
          .ok ⟨.define name (params.map trimmed), e⟩) ∧
      parse ("(" ++ text ++ ")") = .ok e.alone) ∧
    (∀ texts items, List.Forall₂ (fun text e => parse text = .ok e) texts items →
      parse ("[" ++ String.intercalate "," texts ++ "]") = .ok (list items).alone ∧
      ∀ function : String, IsName function.toList → function.toList.head? ≠ some 'j' →
        parse (function ++ "(" ++ String.intercalate "," texts ++ ")") =
          .ok (call function items).alone) ∧
    ∀ text e, Statement.parse text = .ok ⟨.express, e⟩ → parse text = .ok e := by
  refine ⟨fun text e h => ⟨parse_statement_iff.2 h, fun name hname => parse_assignment hname h,
    fun name params hname hparams => parse_definition hname hparams h, parse_parenthesized h⟩,
    fun texts items h => ⟨parse_list h, fun function hname hj => parse_call hname hj h⟩,
    fun text e => parse_statement_iff.1⟩

theorem parse_in_context_name :
    Statement.parse ("\\" ++ "g" ++ "(" ++ String.intercalate "," ["x", " y "] ++ ") -> " ++ "x") =
        .ok ⟨.define "g" (["x", " y "].map trimmed), (ident "x").alone⟩ ∧
      parse ("f" ++ "(" ++ String.intercalate "," ["x", "x"] ++ ")") =
        .ok (call "f" [(ident "x").alone, (ident "x").alone]).alone := by
  have h : parse "x" = .ok (ident "x").alone := by decide +kernel
  have hname {text : String} {c : Char} (htext : text.toList = [c])
      (hc : isNameStart c = true) : IsName text.toList := ⟨c, [], htext, hc, nofun⟩
  obtain ⟨hone, hmany, -⟩ := parse_in_context
  obtain ⟨-, -, hdefinition, -⟩ := hone "x" _ h
  obtain ⟨-, hcall⟩ := hmany ["x", "x"] _ (.cons h (.cons h .nil))
  refine ⟨hdefinition "g" ["x", " y "] (hname rfl (by decide)) ?_,
    hcall "f" (hname rfl (by decide)) (by decide)⟩
  simp only [List.forall_mem_cons]
  exact ⟨hname rfl (by decide), hname (c := 'y') (by decide) (by decide), nofun⟩

end Expr

end PolarCalc
