import Mathlib.Data.List.Basic
import PolarCalc.Proofs.Grammar.Condensed
/-!
# Blanks between words

Only where blanks stand matters, not how many they are or which.  Two texts are
respaced if they have the same characters and runs of blanks at the same places; a
text that spells a tree goes over to every text respaced from it, word by word.  Two
words look at the character behind them, `let` and the prefix `j`: a run of blanks
never becomes empty, so they find the same there.
-/

namespace PolarCalc

open PolarCalc.Text PolarCalc.Grammar

/-- The same text with other runs of blanks in place of its runs of blanks. -/
inductive Respaced : List Char → List Char → Prop
  | nil : Respaced [] []
  | char (c : Char) {s t : List Char} : Respaced s t → Respaced (c :: s) (c :: t)
  | run {blanks blanks' s t : List Char} : blanks ≠ [] → blanks' ≠ [] →
      (∀ c ∈ blanks, isBlank c = true) → (∀ c ∈ blanks', isBlank c = true) → Respaced s t →
      Respaced (blanks ++ s) (blanks' ++ t)

/-- The same words: respaced texts, with any blanks or none behind either. -/
def SameWords (s t : List Char) : Prop := Respaced (s ++ [' ']) (t ++ [' '])

/-- The text begins with a character that is not blank. -/
def Flush (s : List Char) : Prop := ∃ c more, s = c :: more ∧ isBlank c = false

/-- A word to be read as one: it is not empty and has no blanks in it. -/
def Solid (word : List Char) : Prop := word ≠ [] ∧ ∀ c ∈ word, isBlank c = false

variable {s t word more : List Char}

/-- The text without the blanks at its ends. -/
def Text.trimmed (text : String) : String := String.ofList (trimBlanks text.toList)

theorem Text.exists_trimmed (text : String) :
    ∃ front back, text.toList = front ++ (trimmed text).toList ++ back ∧
      (∀ c ∈ front, isBlank c = true) ∧ ∀ c ∈ back, isBlank c = true := by
  refine ⟨text.toList.takeWhile isBlank,
    ((text.toList.dropWhile isBlank).reverse.takeWhile isBlank).reverse, ?_, mem_takeWhile,
    fun c hc => mem_takeWhile c (List.mem_reverse.1 hc)⟩
  rw [trimmed, String.toList_ofList, trimBlanks, trimBoth, List.append_assoc,
    ← List.reverse_append, List.takeWhile_append_dropWhile, List.reverse_reverse,
    List.takeWhile_append_dropWhile]

/-! ## Texts that begin with a word -/

theorem Flush.noBlank (h : Flush s) : NoBlank s := by
  obtain ⟨c, more, rfl, hc⟩ := h
  rintro _ ⟨⟩
  exact hc

theorem Flush.append (h : Flush s) (t : List Char) : Flush (s ++ t) := by
  obtain ⟨c, more, rfl, hc⟩ := h
  exact ⟨c, more ++ t, rfl, hc⟩

theorem Solid.flush (hword : Solid word) (hs : Lexeme word s) : Flush s := by
  obtain ⟨blanks, -, rfl⟩ := hs
  obtain ⟨hne, hsolid⟩ := hword
  obtain ⟨c, behind, rfl⟩ := List.exists_cons_of_ne_nil hne
  exact ⟨c, behind ++ blanks, rfl, hsolid c List.mem_cons_self⟩

theorem Plain.solid (h : Plain word) (hne : word ≠ []) : Solid word :=
  ⟨hne, fun c hc => (h c hc).1⟩

theorem solid_of_mem_spellings {tier : Tier} {spelling : String} (h : spelling ∈ spellings tier) :
    Solid spelling.toList := by
  have hall : ∀ w ∈ spellings tier, w.toList ≠ [] ∧ w.toList.all (!isBlank ·) = true := by
    cases tier <;> decide
  obtain ⟨hne, hsolid⟩ := hall spelling h
  exact ⟨hne, fun c hc => by simpa using List.all_eq_true.1 hsolid c hc⟩

theorem Grammar.IsName.solid (h : IsName word) : Solid word := by
  refine (plain_of_isNameChar h.isNameChar).solid ?_
  obtain ⟨c, more, rfl, -⟩ := h
  exact List.cons_ne_nil _ _

theorem Grammar.IsInteger.solid (h : IsInteger word) : Solid word := by
  refine (plain_of_isNameChar h.isNameChar).solid ?_
  obtain ⟨c, more, rfl, -⟩ := h
  exact List.cons_ne_nil _ _

theorem Grammar.IsNumber.solid (h : IsNumber word) : Solid word := by
  refine (plain_of_isNumber h).solid ?_
  obtain ⟨c, more, rfl, -⟩ := h.head
  exact List.cons_ne_nil _ _

theorem solid_of_all (hne : word ≠ []) (h : word.all (!isBlank ·) = true) : Solid word :=
  ⟨hne, fun c hc => by simpa using List.all_eq_true.1 h c hc⟩

theorem expression_flush {k : Category} {e : Expr} (h : Canonical k e) (hs : e.Spells s) :
    Flush s := by
  obtain ⟨c, more, rfl, hc⟩ := expression_head h hs
  exact ⟨c, more, rfl, (head_apart hc).1⟩

/-! ## Respaced texts -/

namespace Respaced

theorem refl (s : List Char) : Respaced s s := by
  induction s with
  | nil => exact .nil
  | cons c s ih => exact .char c ih

theorem symm (h : Respaced s t) : Respaced t s := by
  induction h with
  | nil => exact .nil
  | char c _ ih => exact .char c ih
  | run hne hne' hblanks hblanks' _ ih => exact .run hne' hne hblanks' hblanks ih

theorem append {s' t' : List Char} (h : Respaced s t) (h' : Respaced s' t') :
    Respaced (s ++ s') (t ++ t') := by
  induction h with
  | nil => exact h'
  | char c _ ih => exact .char c ih
  | run hne hne' hblanks hblanks' _ ih =>
      rw [List.append_assoc, List.append_assoc]
      exact .run hne hne' hblanks hblanks' ih

theorem of_blanks {blanks blanks' : List Char} (hne : blanks ≠ []) (hne' : blanks' ≠ [])
    (hblanks : ∀ c ∈ blanks, isBlank c = true) (hblanks' : ∀ c ∈ blanks', isBlank c = true) :
    Respaced blanks blanks' := by
  have h := Respaced.run hne hne' hblanks hblanks' .nil
  rwa [List.append_nil, List.append_nil] at h

theorem eq_nil_iff (h : Respaced s t) : s = [] ↔ t = [] := by
  cases h with
  | nil => exact Iff.rfl
  | char => exact iff_of_false (List.cons_ne_nil _ _) (List.cons_ne_nil _ _)
  | run hne hne' => exact iff_of_false (by simp [hne]) (by simp [hne'])

theorem isBlank (h : Respaced s t) (hs : ∀ c ∈ s, isBlank c = true) :
    ∀ c ∈ t, Text.isBlank c = true := by
  induction h with
  | nil => exact hs
  | char c _ ih =>
      rw [List.forall_mem_cons] at hs ⊢
      exact ⟨hs.1, ih hs.2⟩
  | run _ _ _ hblanks' _ ih =>
      rw [List.forall_mem_append] at hs ⊢
      exact ⟨hblanks', ih hs.2⟩

theorem eq_cons {c : Char} (h : Respaced (c :: s) t) (hc : Text.isBlank c = false) :
    ∃ t', t = c :: t' ∧ Respaced s t' := by
  generalize hsource : c :: s = source at h
  cases h with
  | nil => cases hsource
  | char _ h =>
      cases hsource
      exact ⟨_, rfl, h⟩
  | @run blanks _ _ _ hne _ hblanks _ _ =>
      obtain ⟨d, behind, rfl⟩ := List.exists_cons_of_ne_nil hne
      obtain rfl : c = d := (List.cons.inj hsource).1
      cases hc.symm.trans (hblanks c List.mem_cons_self)

theorem head?_eq (h : Respaced s t) (hs : Flush s) : t.head? = s.head? := by
  obtain ⟨c, more, rfl, hc⟩ := hs
  obtain ⟨t', rfl, -⟩ := h.eq_cons hc
  rfl

theorem flush (h : Respaced s t) (hs : Flush s) : Flush t := by
  obtain ⟨c, more, rfl, hc⟩ := hs
  obtain ⟨t', rfl, -⟩ := h.eq_cons hc
  exact ⟨c, t', rfl, hc⟩

/-- A text can be cut in front of a word or at its end, and respaced in two parts. -/
theorem split (h : Respaced s t) {a b : List Char} (hs : s = a ++ b) (hb : NoBlank b) :
    ∃ a' b', t = a' ++ b' ∧ Respaced a a' ∧ Respaced b b' := by
  induction h generalizing a with
  | nil =>
      obtain ⟨rfl, rfl⟩ := List.append_eq_nil_iff.1 hs.symm
      exact ⟨[], [], rfl, .nil, .nil⟩
  | char c h ih =>
      cases a with
      | nil =>
          obtain rfl := hs
          exact ⟨[], _, rfl, .nil, .char c h⟩
      | cons d a =>
          cases hs
          obtain ⟨a', b', rfl, ha, hb'⟩ := ih rfl
          exact ⟨_ :: a', b', rfl, .char _ ha, hb'⟩
  | @run blanks blanks' s t hne hne' hblanks hblanks' h ih =>
      rcases List.append_eq_append_iff.1 hs with ⟨a, rfl, rfl⟩ | ⟨behind, rfl, rfl⟩
      · obtain ⟨a', b', rfl, ha, hb'⟩ := ih rfl
        exact ⟨blanks' ++ a', b', by rw [List.append_assoc],
          .run hne hne' hblanks hblanks' ha, hb'⟩
      · -- a cut inside the run would leave a blank in front
        cases behind with
        | nil =>
            rw [List.append_nil] at hne hblanks
            exact ⟨blanks', t, rfl, of_blanks hne hne' hblanks hblanks', h⟩
        | cons c behind =>
            cases (hb c rfl).symm.trans (hblanks c (by simp))

theorem lexeme (h : Respaced s t) (hword : ∀ c ∈ word, Text.isBlank c = false)
    (hs : Lexeme word s) : Lexeme word t ∧ (s = word ↔ t = word) := by
  obtain ⟨blanks, hblanks, rfl⟩ := hs
  induction word generalizing t with
  | nil => exact ⟨⟨t, h.isBlank hblanks, rfl⟩, h.eq_nil_iff⟩
  | cons c word ih =>
      obtain ⟨hc, hword⟩ := List.forall_mem_cons.1 hword
      obtain ⟨t', rfl, hmore⟩ := h.eq_cons hc
      obtain ⟨⟨behind, hbehind, rfl⟩, hiff⟩ := ih hword hmore
      exact ⟨⟨behind, hbehind, rfl⟩, by simpa using hiff⟩

theorem sameWords (h : Respaced s t) : SameWords s t := h.append (.refl _)

end Respaced

/-! ## Texts of the same words -/

namespace SameWords

theorem symm (h : SameWords s t) : SameWords t s := Respaced.symm h

/-- A text can be cut in front of a word; before the cut the blanks stay. -/
theorem split {a b : List Char} (h : SameWords (a ++ b) t) (hb : Flush b) :
    ∃ a' b', t = a' ++ b' ∧ Respaced a a' ∧ SameWords b b' := by
  have hend := hb.append [' ']
  obtain ⟨a', rest, ht, ha, hrest⟩ := Respaced.split h (List.append_assoc a b [' ']) hend.noBlank
  have hne : rest ≠ [] := by
    obtain ⟨c, more, rfl, -⟩ := hrest.flush hend
    exact List.cons_ne_nil _ _
  obtain ⟨b', c, rfl⟩ := (List.eq_nil_or_concat' rest).resolve_left hne
  rw [← List.append_assoc] at ht
  obtain ⟨rfl, hlast⟩ := List.append_inj' ht rfl
  cases hlast
  exact ⟨a', b', rfl, ha, hrest⟩

theorem lexeme (h : SameWords s t) (hword : Solid word) (hs : Lexeme word s) :
    Lexeme word t := by
  obtain ⟨blanks, hblanks, rfl⟩ := hs
  have hspaced : Lexeme word (word ++ blanks ++ [' ']) :=
    ⟨blanks ++ [' '], List.forall_mem_append.2 ⟨hblanks, isBlank_of_mem_space⟩,
      List.append_assoc _ _ _⟩
  obtain ⟨⟨behind, hbehind, ht⟩, -⟩ := Respaced.lexeme h hword.2 hspaced
  rcases List.eq_nil_or_concat' behind with rfl | ⟨behind, c, rfl⟩
  · -- the blank at the end would be part of the word
    have hmem : ' ' ∈ word := by
      rw [List.append_nil] at ht
      rw [← ht]
      exact List.mem_append_right _ List.mem_cons_self
    cases (hword.2 _ hmem).symm.trans (isBlank_of_mem_space _ List.mem_cons_self)
  · rw [← List.append_assoc] at ht
    obtain ⟨rfl, -⟩ := List.append_inj' ht rfl
    exact ⟨behind, fun d hd => hbehind d (List.mem_append_left _ hd), rfl⟩

theorem head?_eq (h : SameWords s t) (hs : Flush s) : t.head? = s.head? := by
  have hhead := Respaced.head?_eq h (hs.append _)
  obtain ⟨c, more, rfl, hc⟩ := hs
  obtain ⟨t', ht, -⟩ := Respaced.eq_cons h hc
  cases t with
  | nil =>
      cases ht
      cases hc.symm.trans (isBlank_of_mem_space _ List.mem_cons_self)
  | cons d t => exact hhead

theorem split₃ {a b c : List Char} (h : SameWords (a ++ b ++ c) t) (hb : Flush (b ++ c))
    (hc : Flush c) :
    ∃ a' b' c', t = a' ++ b' ++ c' ∧ Respaced a a' ∧ Respaced b b' ∧ SameWords c c' := by
  rw [List.append_assoc] at h
  obtain ⟨a', rest, rfl, ha, hrest⟩ := h.split hb
  obtain ⟨b', c', rfl, hb', hc'⟩ := hrest.split hc
  exact ⟨a', b', c', (List.append_assoc _ _ _).symm, ha, hb', hc'⟩

theorem of_run {blanks blanks' front back : List Char} (hne : blanks ≠ []) (hne' : blanks' ≠ [])
    (hblanks : ∀ c ∈ blanks, isBlank c = true) (hblanks' : ∀ c ∈ blanks', isBlank c = true) :
    SameWords (' ' :: (front ++ blanks ++ back)) (' ' :: (front ++ blanks' ++ back)) := by
  have hfront := Respaced.refl (' ' :: front)
  have hback := Respaced.refl (back ++ [' '])
  have h := (hfront.append (.of_blanks hne hne' hblanks hblanks')).append hback
  simpa [SameWords] using h

theorem of_ends {blanks blanks' : List Char} (s : List Char)
    (hblanks : ∀ c ∈ blanks, isBlank c = true) (hblanks' : ∀ c ∈ blanks', isBlank c = true) :
    SameWords (' ' :: (blanks ++ s ++ blanks')) (' ' :: s) := by
  have hspace := isBlank_of_mem_space
  have hfront : Respaced (' ' :: blanks) [' '] :=
    .of_blanks (List.cons_ne_nil _ _) (List.cons_ne_nil _ _)
      (List.forall_mem_cons.2 ⟨hspace _ List.mem_cons_self, hblanks⟩) hspace
  have hback : Respaced (blanks' ++ [' ']) [' '] :=
    .of_blanks (by simp) (List.cons_ne_nil _ _) (List.forall_mem_append.2 ⟨hblanks', hspace⟩) hspace
  have h := (hfront.append (.refl s)).append hback
  simpa [SameWords] using h

end SameWords

/-! ## Items with commas between them -/

section Items

variable {α : Type} {P : α → List Char → Prop} {as : List α}

theorem solid_comma : Solid [','] := solid_of_all (by decide) (by decide)

theorem Grammar.SeparatedMore.noBlank (hs : SeparatedMore P as s) : NoBlank s := by
  cases as with
  | nil =>
      obtain rfl : s = [] := hs
      exact nofun
  | cons a as =>
      obtain ⟨comma, first, more, rfl, hcomma, -⟩ := hs
      rw [List.append_assoc]
      exact ((solid_comma.flush hcomma).append _).noBlank

theorem Grammar.SeparatedMore.respaced (hs : SeparatedMore P as s)
    (hP : ∀ a ∈ as, ∀ s, P a s → Flush s ∧ ∀ t, Respaced s t → P a t) (h : Respaced s t) :
    SeparatedMore P as t := by
  induction as generalizing s t with
  | nil => exact h.eq_nil_iff.1 hs
  | cons a as ih =>
      obtain ⟨comma, first, more, rfl, hcomma, hfirst, hmore⟩ := hs
      obtain ⟨hflush, hrespaced⟩ := hP a List.mem_cons_self first hfirst
      rw [List.append_assoc] at h
      obtain ⟨comma', rest, rfl, hcomma', hrest⟩ := h.split rfl (hflush.append more).noBlank
      obtain ⟨first', more', rfl, hfirst', hmore'⟩ := hrest.split rfl hmore.noBlank
      exact ⟨comma', first', more', (List.append_assoc _ _ _).symm,
        (hcomma'.lexeme solid_comma.2 hcomma).1, hrespaced first' hfirst',
        ih hmore (fun b hb => hP b (List.mem_cons_of_mem a hb)) hmore'⟩

theorem Grammar.Separated.respaced (hs : Separated P as s)
    (hP : ∀ a ∈ as, ∀ s, P a s → Flush s ∧ ∀ t, Respaced s t → P a t) (h : Respaced s t) :
    Separated P as t := by
  cases as with
  | nil => exact h.eq_nil_iff.1 hs
  | cons a as =>
      obtain ⟨first, more, rfl, hfirst, hmore⟩ := hs
      obtain ⟨first', more', rfl, hfirst', hmore'⟩ := h.split rfl hmore.noBlank
      exact ⟨first', more', rfl, (hP a List.mem_cons_self first hfirst).2 first' hfirst',
        hmore.respaced (fun b hb => hP b (List.mem_cons_of_mem a hb)) hmore'⟩

theorem Grammar.Separated.flush_append (hs : Separated P as s)
    (hP : ∀ a ∈ as, ∀ s, P a s → Flush s) (ht : Flush t) : Flush (s ++ t) := by
  cases as with
  | nil =>
      obtain rfl : s = [] := hs
      exact ht
  | cons a as =>
      obtain ⟨first, more, rfl, hfirst, -⟩ := hs
      rw [List.append_assoc]
      exact (hP a List.mem_cons_self first hfirst).append _

theorem bracketed_respaced {opening inside closing left right : List Char} (hleft : Solid left)
    (hright : Solid right) (hopening : Lexeme left opening) (hinside : Separated P as inside)
    (hclosing : Lexeme right closing)
    (hP : ∀ a ∈ as, ∀ s, P a s → Flush s ∧ ∀ t, Respaced s t → P a t)
    (h : SameWords (opening ++ inside ++ closing) t) :
    ∃ opening' inside' closing', t = opening' ++ inside' ++ closing' ∧ Lexeme left opening' ∧
      Separated P as inside' ∧ Lexeme right closing' := by
  have hflush := hright.flush hclosing
  obtain ⟨opening', inside', closing', rfl, hopening', hinside', hclosing'⟩ :=
    h.split₃ (hinside.flush_append (fun a ha s hs => (hP a ha s hs).1) hflush) hflush
  exact ⟨opening', inside', closing', rfl, (hopening'.lexeme hleft.2 hopening).1,
    hinside.respaced hP hinside', hclosing'.lexeme hright hclosing⟩

end Items

/-! ## Trees -/

theorem solid_sign {c : Char} (hc : c ∈ ['(', ')', '[', ']', '^', '?', ':', 'j', '-', '\\']) :
    Solid [c] :=
  (plain_sign hc).solid (List.cons_ne_nil _ _)

theorem binary_respaced {tier : Tier} {left right : Expr} {op : String}
    (hs : (Expr.binary tier left op right).Spells s)
    (hleft : ∀ {s t}, left.Spells s → SameWords s t → left.Spells t)
    (hright : ∀ {s t}, right.Spells s → SameWords s t → right.Spells t)
    (hflush : ∀ {s}, right.Spells s → Flush s) (h : SameWords s t) :
    (Expr.binary tier left op right).Spells t := by
  obtain ⟨before, sign, behind, spelling, rfl, hbefore, hspelling, hop, hsign, hbehind⟩ := hs
  have hword := solid_of_mem_spellings hspelling
  obtain ⟨before', sign', behind', rfl, hbefore', hsign', hbehind'⟩ :=
    h.split₃ ((hword.flush hsign).append behind) (hflush hbehind)
  exact ⟨before', sign', behind', spelling, rfl, hleft hbefore hbefore'.sameWords, hspelling, hop,
    (hsign'.lexeme hword.2 hsign).1, hright hbehind hbehind'⟩

/-- Texts of the same words spell the same trees. -/
theorem Expr.Spells.respaced {k : Category} {e : Expr} (h : Canonical k e) (hs : e.Spells s)
    (hst : SameWords s t) : e.Spells t := by
  have hround : Solid ['('] := solid_sign (by decide)
  have hround' : Solid [')'] := solid_sign (by decide)
  have hsquare : Solid ['['] := solid_sign (by decide)
  have hsquare' : Solid [']'] := solid_sign (by decide)
  have hquestion : Solid ['?'] := solid_sign (by decide)
  have hcolon : Solid [':'] := solid_sign (by decide)
  induction h generalizing s t with
  | bare _ _ ih => exact ih hs hst
  | plain _ _ ih => exact ih hs hst
  | @prefixed op e hop h ih =>
      obtain ⟨sign, behind, rfl, hsign, hbehind, hstart⟩ := hs
      have hflush := expression_flush h hbehind
      have hword : Solid op.toList := by
        rcases hop with rfl | rfl
        · exact solid_sign (by decide)
        · exact solid_sign (by decide)
      obtain ⟨sign', behind', rfl, hsign', hbehind'⟩ := hst.split hflush
      obtain ⟨hlexeme, hbare⟩ := hsign'.lexeme hword.2 hsign
      refine ⟨sign', behind', rfl, hlexeme, ih hbehind hbehind', ?_⟩
      rintro rfl hj
      rw [hbehind'.head?_eq hflush]
      exact hstart rfl (hbare.2 hj)
  | @power base exponent _ h ihBase ihExponent =>
      obtain ⟨left, caret, right, rfl, hleft, hcaret, hright⟩ := hs
      have hword : Solid ['^'] := solid_sign (by decide)
      obtain ⟨left', caret', right', rfl, hleft', hcaret', hright'⟩ :=
        hst.split₃ ((hword.flush hcaret).append right) (expression_flush h hright)
      exact ⟨left', caret', right', rfl, ihBase hleft hleft'.sameWords,
        (hcaret'.lexeme hword.2 hcaret).1, ihExponent hright hright'⟩
  | first _ _ h ihLeft ihRight => exact binary_respaced hs ihLeft ihRight (expression_flush h) hst
  | further _ _ h ihLeft ihRight =>
      exact binary_respaced hs ihLeft ihRight (expression_flush h) hst
  | @ifThen condition thenBranch _ hthen ihCondition ihThen =>
      obtain ⟨test, mark, yes, rfl, htest, hmark, hyes⟩ := hs
      obtain ⟨test', mark', yes', rfl, htest', hmark', hyes'⟩ :=
        hst.split₃ ((hquestion.flush hmark).append yes) (expression_flush hthen hyes)
      exact ⟨test', mark', yes', rfl, ihCondition htest htest'.sameWords,
        (hmark'.lexeme hquestion.2 hmark).1, ihThen hyes hyes'⟩
  | @ifElse condition elseBranch _ helse ihCondition ihElse =>
      obtain ⟨test, mark, colon, no, rfl, htest, hmark, hlexeme, hno⟩ := hs
      obtain ⟨test', mark', rest, rfl, htest', hmark', hrest⟩ :=
        hst.split₃ ((hquestion.flush hmark).append _) ((hcolon.flush hlexeme).append no)
      obtain ⟨colon', no', rfl, hcolon', hno'⟩ := hrest.split (expression_flush helse hno)
      exact ⟨test', mark', colon', no', rfl, ihCondition htest htest'.sameWords,
        (hmark'.lexeme hquestion.2 hmark).1, (hcolon'.lexeme hcolon.2 hlexeme).1,
        ihElse hno hno'⟩
  | @ifThenElse condition thenBranch elseBranch _ hthen _ helse ihCondition ihThen ihElse =>
      obtain ⟨test, mark, yes, colon, no, rfl, htest, hmark, hyes, hlexeme, hno⟩ := hs
      obtain ⟨test', mark', rest, rfl, htest', hmark', hrest⟩ :=
        hst.split₃ ((hquestion.flush hmark).append _) ((expression_flush hthen hyes).append _)
      rw [← List.append_assoc] at hrest
      obtain ⟨yes', colon', no', rfl, hyes', hcolon', hno'⟩ :=
        hrest.split₃ ((hcolon.flush hlexeme).append no) (expression_flush helse hno)
      exact ⟨test', mark', yes', colon', no', by simp, ihCondition htest htest'.sameWords,
        (hmark'.lexeme hquestion.2 hmark).1, ihThen hyes hyes'.sameWords,
        (hcolon'.lexeme hcolon.2 hlexeme).1, ihElse hno hno'⟩
  | @parenthesized e h ih =>
      simp only [Expr.Spells, h.isAtom_eq_false, Bool.false_eq_true, if_false] at hs ⊢
      obtain ⟨opening, inside, closing, rfl, hopening, hinside, hclosing⟩ := hs
      obtain ⟨opening', inside', closing', rfl, hopening', hinside', hclosing'⟩ :=
        hst.split₃ ((expression_flush h hinside).append closing) (hround'.flush hclosing)
      exact ⟨opening', inside', closing', rfl, (hopening'.lexeme hround.2 hopening).1,
        ih hinside hinside'.sameWords, hclosing'.lexeme hround' hclosing⟩
  | @list items hitems ih =>
      replace hs : (Expr.list items).Spells s := hs
      show (Expr.list items).Spells t
      rw [Expr.Spells, Expr.spellsItems_eq] at hs ⊢
      obtain ⟨opening, inside, closing, rfl, hopening, hinside, hclosing⟩ := hs
      refine bracketed_respaced hsquare hsquare' hopening hinside hclosing ?_ hst
      exact fun item hitem s hs => ⟨expression_flush (hitems item hitem) hs,
        fun t h => ih item hitem hs h.sameWords⟩
  | @call function args hname hargs ih =>
      replace hs : (Expr.call function args).Spells s := hs
      show (Expr.call function args).Spells t
      rw [Expr.Spells, Expr.spellsItems_eq] at hs ⊢
      obtain ⟨called, opening, inside, closing, rfl, hcalled, hopening, hinside, hclosing⟩ := hs
      rw [List.append_assoc opening] at hst
      obtain ⟨called', rest, rfl, hcalled', hrest⟩ := hst.split ((hround.flush hopening).append _)
      rw [← List.append_assoc] at hrest
      have hbracketed := bracketed_respaced hround hround' hopening hinside hclosing
        (fun arg harg s hs => ⟨expression_flush (hargs arg harg) hs,
          fun t h => ih arg harg hs h.sameWords⟩) hrest
      obtain ⟨opening', inside', closing', rfl, hspells⟩ := hbracketed
      exact ⟨called', opening', inside', closing', rfl, (hcalled'.lexeme hname.solid.2 hcalled).1,
        hspells⟩
  | ident hname => exact hst.lexeme hname.solid hs
  | integer hinteger => exact hst.lexeme hinteger.solid hs
  | number hnumber => exact hst.lexeme hnumber.solid hs

/-! ## Statements -/

theorem solid_let : Solid "let".toList := solid_of_all (by decide) (by decide)

theorem solid_arrow : Solid ['-', '>'] := solid_of_all (by decide) (by decide)

theorem solid_equals : Solid ['='] := solid_of_all (by decide) (by decide)

namespace Statement

theorem head_respaced {head : Head} (hhead : head.Canonical) (hs : head.Spells s)
    (h : Respaced s t) : head.Spells t := by
  cases head with
  | express => exact h.eq_nil_iff.1 hs
  | assign name =>
      obtain ⟨keyword, target, sign, rfl, hkeyword, hne, htarget, hsign⟩ := hs
      have hname : Solid name.toList := Grammar.IsName.solid hhead
      rw [List.append_assoc] at h
      obtain ⟨keyword', rest, rfl, hkeyword', hrest⟩ :=
        h.split rfl ((hname.flush htarget).append sign).noBlank
      obtain ⟨target', sign', rfl, htarget', hsign'⟩ :=
        hrest.split rfl (solid_equals.flush hsign).noBlank
      obtain ⟨hlexeme, hbare⟩ := hkeyword'.lexeme solid_let.2 hkeyword
      exact ⟨keyword', target', sign', (List.append_assoc _ _ _).symm, hlexeme,
        fun heq => hne (hbare.2 heq), (htarget'.lexeme hname.2 htarget).1,
        (hsign'.lexeme solid_equals.2 hsign).1⟩
  | define name params =>
      obtain ⟨backslash, function, opening, inside, closing, arrow, rfl, hbackslash, hfunction,
        hopening, hinside, hclosing, harrow⟩ := hs
      obtain ⟨hname, hparams⟩ := hhead
      have hbackslashWord : Solid ['\\'] := solid_sign (by decide)
      have hround : Solid ['('] := solid_sign (by decide)
      have hround' : Solid [')'] := solid_sign (by decide)
      have hflush := hround'.flush hclosing
      have hitem : ∀ param ∈ params, ∀ s, Lexeme param.toList s →
          Flush s ∧ ∀ t, Respaced s t → Lexeme param.toList t := fun param hparam s hs =>
        have hsolid := (hparams param hparam).solid
        ⟨hsolid.flush hs, fun t h => (h.lexeme hsolid.2 hs).1⟩
      have hitems := Separated.flush_append hinside (fun param hparam s hs =>
        (hitem param hparam s hs).1) hflush
      simp only [List.append_assoc] at h
      obtain ⟨backslash', rest, rfl, hbackslash', hrest⟩ :=
        h.split rfl ((hname.solid.flush hfunction).append _).noBlank
      obtain ⟨function', rest, rfl, hfunction', hrest⟩ :=
        hrest.split rfl ((hround.flush hopening).append _).noBlank
      rw [← List.append_assoc inside] at hrest
      obtain ⟨opening', rest, rfl, hopening', hrest⟩ :=
        hrest.split rfl (hitems.append arrow).noBlank
      rw [List.append_assoc] at hrest
      obtain ⟨inside', rest, rfl, hinside', hrest⟩ := hrest.split rfl (hflush.append arrow).noBlank
      obtain ⟨closing', arrow', rfl, hclosing', harrow'⟩ :=
        hrest.split rfl (solid_arrow.flush harrow).noBlank
      exact ⟨backslash', function', opening', inside', closing', arrow', by simp,
        (hbackslash'.lexeme hbackslashWord.2 hbackslash).1,
        (hfunction'.lexeme hname.solid.2 hfunction).1, (hopening'.lexeme hround.2 hopening).1,
        Separated.respaced hinside hitem hinside', (hclosing'.lexeme hround'.2 hclosing).1,
        (harrow'.lexeme solid_arrow.2 harrow).1⟩

theorem head_flush {head : Head} {body : List Char} (hs : head.Spells s) (hbody : Flush body) :
    Flush (s ++ body) := by
  cases head with
  | express =>
      obtain rfl : s = [] := hs
      exact hbody
  | assign name =>
      obtain ⟨keyword, target, sign, rfl, hkeyword, -⟩ := hs
      simp only [List.append_assoc]
      exact (solid_let.flush hkeyword).append _
  | define name params =>
      obtain ⟨backslash, function, opening, inside, closing, arrow, rfl, hbackslash, -⟩ := hs
      have hword : Solid ['\\'] := solid_sign (by decide)
      simp only [List.append_assoc]
      exact (hword.flush hbackslash).append _

theorem Spells.respaced {x : Statement} (hx : x.Canonical) (hs : x.Spells s)
    (h : SameWords (' ' :: s) (' ' :: t)) : x.Spells t := by
  obtain ⟨blanks, head, body, rfl, hblanks, hhead, hbody⟩ := hs
  have hflush := expression_flush hx.2 hbody
  rw [List.append_assoc, ← List.cons_append] at h
  obtain ⟨front, rest, ht, hfront, hrest⟩ := h.split (head_flush hhead hflush)
  obtain ⟨head', body', rfl, hhead', hbody'⟩ := hrest.split hflush
  have hspace : ∀ c ∈ ' ' :: blanks, isBlank c = true :=
    List.forall_mem_cons.2 ⟨isBlank_of_mem_space _ List.mem_cons_self, hblanks⟩
  cases front with
  | nil => exact absurd (hfront.eq_nil_iff.2 rfl) (List.cons_ne_nil _ _)
  | cons c blanks' =>
      cases ht
      refine ⟨blanks', head', body', by simp, ?_, head_respaced hx.1 hhead hhead',
        hbody.respaced hx.2 hbody'⟩
      exact fun c hc => hfront.isBlank hspace c (List.mem_cons_of_mem _ hc)

/-- Texts of the same words are read alike. -/
theorem parse_of_sameWords {text text' : String}
    (h : SameWords (' ' :: text.toList) (' ' :: text'.toList)) (x : Statement) :
    parse text = .ok x ↔ parse text' = .ok x := by
  rw [parse_eq_ok_iff, parse_eq_ok_iff]
  exact and_congr_right fun hx => ⟨fun hs => hs.respaced hx h, fun hs => hs.respaced hx h.symm⟩

theorem parse_trimmed (line : String) (x : Statement) :
    parse (trimmed line) = .ok x ↔ parse line = .ok x := by
  obtain ⟨front, back, hline, hfront, hback⟩ := exists_trimmed line
  refine (parse_of_sameWords ?_ x).symm
  rw [hline]
  exact .of_ends _ hfront hback

end Statement

end PolarCalc
