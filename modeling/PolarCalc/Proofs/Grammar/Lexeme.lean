import PolarCalc.Proofs.Grammar.Reading
import PolarCalc.Proofs.Grammar.Token
/-!
# Lexemes

A lexeme is a word or token together with the blanks behind it.  Every rule for
a word or token reads exactly one lexeme and stops before what is not blank.
-/

namespace PolarCalc.Grammar

open PolarCalc.Text

/-- `text` is `word` with blanks behind it. -/
def Lexeme (word text : List Char) : Prop :=
  ∃ blanks, (∀ c ∈ blanks, isBlank c = true) ∧ text = word ++ blanks

/-- What follows does not begin with a blank. -/
def NoBlank (rest : List Char) : Prop := ∀ c ∈ rest.head?, isBlank c = false

/-- What follows begins with nothing that could continue a token. -/
def Stops (rest : List Char) : Prop :=
  ∀ c ∈ rest.head?, isBlank c = false ∧ isNameChar c = false ∧ c ≠ '.'

theorem Lexeme.self (word : List Char) : Lexeme word word := ⟨[], by simp⟩

theorem Lexeme.length_le {word text : List Char} (h : Lexeme word text) :
    word.length ≤ text.length := by
  obtain ⟨blanks, -, rfl⟩ := h
  simp

theorem Lexeme.starts {word text : List Char} (h : Lexeme word text) : word <+: text := by
  obtain ⟨blanks, -, rfl⟩ := h
  exact List.prefix_append _ _

theorem Lexeme.eq_cons {c : Char} {word text : List Char} (h : Lexeme (c :: word) text) :
    ∃ rest, text = c :: rest := by
  obtain ⟨blanks, -, rfl⟩ := h
  exact ⟨word ++ blanks, rfl⟩

theorem Stops.noBlank {rest : List Char} (h : Stops rest) : NoBlank rest := fun c hc => (h c hc).1

theorem Stops.endsNumber {rest blanks : List Char} (h : Stops rest)
    (hblanks : ∀ c ∈ blanks, isBlank c = true) : EndsNumber (blanks ++ rest) := by
  intro c hc
  cases blanks with
  | nil => exact (h c hc).2
  | cons b blanks =>
      cases hc
      have hblank := hblanks c List.mem_cons_self
      exact ⟨isNameChar_of_isBlank hblank, ne_of_isBlank hblank (by decide)⟩

/-! ## The cursor behind a lexeme -/

namespace Cursor

variable {c : Cursor} {word blanks rest : List Char}

theorem At.skipBlanks (h : c.At (blanks ++ rest)) (hblanks : ∀ d ∈ blanks, isBlank d = true)
    (hrest : NoBlank rest) : c.skipBlanks = c.advance blanks.length := by
  have hlength := h.length
  simp only [Cursor.skipBlanks, Cursor.advance, h.rest, takeWhile_run hblanks hrest,
    dropWhile_run hblanks hrest, List.drop_left, Cursor.mk.injEq, true_and, and_true]
  rw [List.length_append] at hlength
  omega

theorem At.behind (h : c.At (word ++ blanks ++ rest)) (hblanks : ∀ d ∈ blanks, isBlank d = true)
    (hrest : NoBlank rest) : c.behind word.length = c.advance (word ++ blanks).length := by
  rw [List.append_assoc] at h
  rw [Cursor.behind, h.advance.skipBlanks hblanks hrest, advance_advance, List.length_append]

theorem At.exists_lexeme (h : c.At (word ++ rest)) :
    ∃ s behind, word ++ rest = s ++ behind ∧ Lexeme word s ∧ NoBlank behind ∧
      c.behind word.length = c.advance s.length := by
  have hblanks : ∀ d ∈ rest.takeWhile isBlank, isBlank d = true := mem_takeWhile
  have hrest : NoBlank (rest.dropWhile isBlank) := head?_dropWhile _ _
  have hsplit : word ++ rest = word ++ rest.takeWhile isBlank ++ rest.dropWhile isBlank := by
    rw [List.append_assoc, List.takeWhile_append_dropWhile]
  refine ⟨_, _, hsplit, ⟨_, hblanks, rfl⟩, hrest, ?_⟩
  rw [hsplit] at h
  exact h.behind hblanks hrest

end Cursor

/-! ## Words -/

section Words

variable {rest s : List Char}

theorem word_yields (text : String) :
    (word text).Yields fun a s rest => a = text ∧ Lexeme text.toList s ∧ NoBlank rest := by
  intro c before a c' hc hread
  unfold word at hread
  split at hread
  · rename_i hstarts
    obtain ⟨rest, rfl⟩ := (hc.startsWith_iff _).1 hstarts
    obtain ⟨s, behind, hsplit, hlexeme, hnoBlank, hcursor⟩ := hc.exists_lexeme
    simp only [Attempt.value?_pure, Option.some.injEq, Prod.mk.injEq] at hread
    obtain ⟨rfl, rfl⟩ := hread
    exact ⟨s, behind, hsplit, hcursor, rfl, hlexeme, hnoBlank⟩
  · simp at hread

theorem word_accepts {text : String} (h : Lexeme text.toList s) (hrest : NoBlank rest) :
    (word text).Accepts s text rest := by
  obtain ⟨blanks, hblanks, rfl⟩ := h
  intro c hc
  have hstarts : c.startsWith text.toList = true :=
    (hc.startsWith_iff _).2 ⟨blanks ++ rest, by rw [List.append_assoc]⟩
  rw [word, if_pos hstarts, Attempt.value?_pure, ← String.length_toList,
    hc.behind hblanks hrest]

theorem word_refuses {text : String} (h : ¬ text.toList <+: rest) : (word text).Refuses rest := by
  intro c hc
  have hstarts : ¬ c.startsWith text.toList = true := fun hs => h ((hc.startsWith_iff _).1 hs)
  rw [word, if_neg hstarts, Attempt.value?_fail]

theorem keyword_yields (text : String) :
    (keyword text).Yields fun a s rest => a = text ∧ Lexeme text.toList s ∧ NoBlank rest ∧
      ∀ behind, s ++ rest = text.toList ++ behind → ∀ c ∈ behind.head?, isWordChar c = false := by
  intro c before a c' hc hread
  unfold keyword at hread
  split at hread
  · rename_i hcond
    rw [Bool.and_eq_true] at hcond
    obtain ⟨rest, rfl⟩ := (hc.startsWith_iff _).1 hcond.1
    obtain ⟨s, behind, hsplit, hlexeme, hnoBlank, hcursor⟩ := hc.exists_lexeme
    simp only [Attempt.value?_pure, Option.some.injEq, Prod.mk.injEq] at hread
    obtain ⟨rfl, rfl⟩ := hread
    refine ⟨s, behind, hsplit, hcursor, rfl, hlexeme, hnoBlank, fun after hafter d hd => ?_⟩
    obtain rfl : rest = after := List.append_cancel_left (hsplit.trans hafter)
    have hnext := hcond.2
    rw [← String.length_toList, continuesWord, hc.advance.rest] at hnext
    cases rest with
    | nil => cases hd
    | cons e rest =>
        cases hd
        simpa using hnext
  · simp at hread

theorem keyword_accepts {text : String} (h : Lexeme text.toList s) (hne : s ≠ text.toList)
    (hrest : NoBlank rest) : (keyword text).Accepts s text rest := by
  obtain ⟨blanks, hblanks, rfl⟩ := h
  intro c hc
  have hstarts : c.startsWith text.toList = true :=
    (hc.startsWith_iff _).2 ⟨blanks ++ rest, by rw [List.append_assoc]⟩
  have hcursor := hc.behind hblanks hrest
  have hnext : continuesWord (c.advance text.length) = false := by
    rw [List.append_assoc] at hc
    rw [← String.length_toList, continuesWord, hc.advance.rest]
    cases blanks with
    | nil => simp at hne
    | cons b blanks => exact isWordChar_of_isBlank (hblanks b List.mem_cons_self)
  rw [keyword, if_pos (by rw [hstarts, hnext]; rfl), Attempt.value?_pure,
    ← String.length_toList, hcursor]

end Words

/-! ## Tokens -/

section Tokens

variable {find : List Char → Option (List Char)} {L : List Char → Prop} {sort expected : String}
  {rest s : List Char} {a : String}

theorem token_yields
    (hfind : ∀ text tok, find text = some tok → L tok ∧ ∃ rest, text = tok ++ rest) :
    (token find sort expected).Yields fun a s rest =>
      L a.toList ∧ Lexeme a.toList s ∧ NoBlank rest := by
  intro c text a c' hc hread
  unfold token at hread
  rw [hc.rest] at hread
  split at hread
  · rename_i tok htok
    obtain ⟨hL, rest, rfl⟩ := hfind text tok htok
    obtain ⟨s, behind, hsplit, hlexeme, hnoBlank, hcursor⟩ := hc.exists_lexeme
    simp only [Attempt.value?_pure, Option.some.injEq, Prod.mk.injEq] at hread
    obtain ⟨rfl, rfl⟩ := hread
    refine ⟨s, behind, hsplit, hcursor, ?_⟩
    simp only [String.toList_ofList]
    exact ⟨hL, hlexeme, hnoBlank⟩
  · simp at hread

theorem token_accepts (h : Lexeme a.toList s) (hrest : NoBlank rest)
    (hfind : find (s ++ rest) = some a.toList) :
    (token find sort expected).Accepts s a rest := by
  obtain ⟨blanks, hblanks, rfl⟩ := h
  intro c hc
  unfold token
  rw [hc.rest, hfind]
  simp only [Attempt.value?_pure, String.ofList_toList, hc.behind hblanks hrest]

theorem token_refuses (hfind : find rest = none) : (token find sort expected).Refuses rest := by
  intro c hc
  unfold token
  rw [hc.rest, hfind]
  rfl

theorem name_yields :
    name.Yields fun a s rest => IsName a.toList ∧ Lexeme a.toList s ∧ NoBlank rest := by
  refine token_yields fun text tok htok => ?_
  obtain ⟨hname, rest, hsplit, -⟩ := nameToken?_eq_some htok
  exact ⟨hname, rest, hsplit⟩

theorem name_accepts (ha : IsName a.toList) (h : Lexeme a.toList s) (hrest : Stops rest) :
    name.Accepts s a rest := by
  refine token_accepts h hrest.noBlank ?_
  obtain ⟨blanks, hblanks, rfl⟩ := h
  rw [List.append_assoc]
  exact nameToken?_append ha fun c hc => (hrest.endsNumber hblanks c hc).1

theorem name_refuses (h : ∀ c ∈ rest.head?, isNameStart c = false) : name.Refuses rest :=
  token_refuses (nameToken?_eq_none h)

theorem integer_yields :
    integer.Yields fun a s rest => IsInteger a.toList ∧ Lexeme a.toList s ∧ NoBlank rest :=
  token_yields fun _ _ => integerToken?_eq_some

theorem integer_accepts (ha : IsInteger a.toList) (h : Lexeme a.toList s) (hrest : Stops rest) :
    integer.Accepts s a rest := by
  refine token_accepts h hrest.noBlank ?_
  obtain ⟨blanks, hblanks, rfl⟩ := h
  rw [List.append_assoc]
  refine integerToken?_append ha fun c hc => ?_
  by_contra hchar
  have hname := (hrest.endsNumber hblanks c hc).1
  rw [isNameChar_of_isIntegerChar (by simpa using hchar)] at hname
  cases hname

theorem integer_refuses (h : ∀ c ∈ rest.head?, isAsciiDigit c = false) : integer.Refuses rest :=
  token_refuses (integerToken?_eq_none h)

theorem number_yields :
    number.Yields fun a s rest => IsNumber a.toList ∧ Lexeme a.toList s ∧ NoBlank rest :=
  token_yields fun _ _ => numberToken?_eq_some

theorem number_accepts (ha : IsNumber a.toList) (h : Lexeme a.toList s) (hrest : Stops rest) :
    number.Accepts s a rest := by
  refine token_accepts h hrest.noBlank ?_
  obtain ⟨blanks, hblanks, rfl⟩ := h
  rw [List.append_assoc]
  exact numberToken?_append ha (hrest.endsNumber hblanks)

theorem number_refuses (h : ∀ c ∈ rest.head?, isAsciiDigit c = false ∧ c ≠ '.') :
    number.Refuses rest :=
  token_refuses (numberToken?_eq_none h)

end Tokens

/-! ## Optional operators -/

section Optionally

variable {words : List String} {rest s : List Char}

theorem value?_optionally (words : List String) (c : Cursor) :
    (optionally words c).value? =
      match words.find? fun text => c.startsWith text.toList with
      | some text => some (some text, c.behind text.length)
      | none => some (none, c) := by
  unfold optionally
  rw [Attempt.value?_recover _ _ (some (none, c)) fun _ => rfl, Rule.value?_map, oneOf]
  cases words.find? fun text => c.startsWith text.toList <;> rfl

theorem optionally_yields (words : List String) :
    (optionally words).Yields fun found s rest =>
      match found with
      | none => s = [] ∧ ∀ w ∈ words, ¬ w.toList <+: rest
      | some w => w ∈ words ∧ Lexeme w.toList s ∧ NoBlank rest := by
  intro c text found c' hc hread
  rw [value?_optionally] at hread
  split at hread
  · rename_i w hfind
    have hstarts := List.find?_some hfind
    obtain ⟨rest, rfl⟩ := (hc.startsWith_iff _).1 hstarts
    obtain ⟨s, behind, hsplit, hlexeme, hnoBlank, hcursor⟩ := hc.exists_lexeme
    simp only [Option.some.injEq, Prod.mk.injEq] at hread
    obtain ⟨rfl, rfl⟩ := hread
    refine ⟨s, behind, hsplit, ?_, List.mem_of_find?_eq_some hfind, hlexeme, hnoBlank⟩
    rw [← String.length_toList, hcursor]
  · rename_i hfind
    simp only [Option.some.injEq, Prod.mk.injEq] at hread
    obtain ⟨rfl, rfl⟩ := hread
    refine ⟨[], text, rfl, rfl, rfl, fun w hw hprefix => ?_⟩
    have := List.find?_eq_none.1 hfind w hw
    exact this ((hc.startsWith_iff _).2 hprefix)

theorem optionally_accepts_none (h : ∀ w ∈ words, ¬ w.toList <+: rest) :
    (optionally words).Accepts [] none rest := by
  intro c hc
  have hfind : words.find? (fun text => c.startsWith text.toList) = none :=
    List.find?_eq_none.2 fun w hw hstarts => h w hw ((hc.startsWith_iff _).1 hstarts)
  rw [value?_optionally, hfind]
  rfl

theorem optionally_accepts_some {w : String} (h : Lexeme w.toList s) (hrest : NoBlank rest)
    (hfind : words.find? (fun text => text.toList.isPrefixOf (s ++ rest)) = some w) :
    (optionally words).Accepts s (some w) rest := by
  intro c hc
  have hsame : words.find? (fun text => c.startsWith text.toList) = some w := by
    rw [← hfind]
    congr 1
    funext text
    rw [Bool.eq_iff_iff, hc.startsWith_iff, List.isPrefixOf_iff_prefix]
  obtain ⟨blanks, hblanks, rfl⟩ := h
  rw [value?_optionally, hsame]
  simp only [← String.length_toList, hc.behind hblanks hrest]

end Optionally

end PolarCalc.Grammar
