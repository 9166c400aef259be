import PolarCalc.Proofs.Grammar.Token
import PolarCalc.Proofs.Integer.Axis
import PolarCalc.Evaluation
/-!
# Integer literals

An integer literal is written with digits and underscores, and its value is what
the digits denote in base ten.  Only a literal with too many digits is refused.
-/

namespace PolarCalc

open PolarCalc.Text PolarCalc.Grammar

/-! ## Runs of digits -/

theorem Text.digitValue?_of_isAsciiDigit {c : Char} (h : isAsciiDigit c = true) :
    digitValue? c = some (c.toNat - '0'.toNat) := by
  have hdigit := toNat_of_isAsciiDigit h
  have hfirst : decimalZeros.find? (fun first => decide (first ≤ c.toNat ∧ c.toNat < first + 10)) =
      some 0x30 := List.find?_cons_of_pos (decide_eq_true (by omega))
  rw [digitValue?, hfirst]
  rfl

theorem Text.digitValue?_eq_none {c : Char} (hascii : c.toNat < 128)
    (hdigit : isAsciiDigit c = false) : digitValue? c = none := by
  have hzeros : ∀ first ∈ decimalZeros, first = 48 ∨ 128 ≤ first := by decide
  have hrange : ¬ (48 ≤ c.toNat ∧ c.toNat ≤ 57) := by simpa [isAsciiDigit] using hdigit
  rw [digitValue?, Option.map_eq_none_iff, List.find?_eq_none]
  intro first hfirst
  have := hzeros first hfirst
  rw [decide_eq_true_eq]
  omega

theorem Text.isPadding_of_isAsciiDigit {c : Char} (h : isAsciiDigit c = true) :
    isPadding c = false := by
  have hdigit := toNat_of_isAsciiDigit h
  by_contra hpadding
  have hblank : isBlank c = true := by
    simp only [isPadding, Bool.not_eq_false, Bool.and_eq_true] at hpadding
    exact hpadding.1
  have := toNat_of_isBlank hblank
  omega

theorem Text.trimBoth_of_forall {drop : Char → Bool} {text : List Char}
    (h : ∀ c ∈ text, drop c = false) : trimBoth drop text = text := by
  have hkeep : ∀ cs : List Char, (∀ c ∈ cs, drop c = false) → cs.dropWhile drop = cs := by
    intro cs hcs
    cases cs with
    | nil => rfl
    | cons c cs => exact List.dropWhile_cons_of_neg (by simp [hcs c])
  rw [trimBoth, hkeep text h, hkeep _ (fun c hc => h c (List.mem_reverse.1 hc)),
    List.reverse_reverse]

theorem Decimal.readDigits_append {text rest : List Char} (h : AllDigits text)
    (hrest : ∀ c ∈ rest.head?, digitValue? c = none ∧ c ≠ '_') :
    readDigits (text ++ rest) = (text.map fun c => c.toNat - '0'.toNat, rest) := by
  induction text with
  | nil =>
      cases rest with
      | nil => rw [List.nil_append, readDigits]; rfl
      | cons c rest =>
          rw [List.nil_append, readDigits, (hrest c rfl).1]
          rfl
  | cons c text ih =>
      have hvalue := digitValue?_of_isAsciiDigit (h c List.mem_cons_self)
      have htext : AllDigits text := fun d hd => h d (List.mem_cons_of_mem _ hd)
      have hunderscore : ∀ next more, text ++ rest ≠ '_' :: next :: more := by
        intro next more hsplit
        cases text with
        | nil =>
            rw [List.nil_append] at hsplit
            exact (hrest '_' (by rw [hsplit]; rfl)).2 rfl
        | cons d text =>
            obtain rfl : d = '_' := (List.cons.inj hsplit).1
            exact absurd (htext '_' List.mem_cons_self) (by decide)
      rw [List.cons_append, readDigits, hvalue]
      simp only [ih htext]
      rfl

theorem Decimal.readDigits_of_allDigits {text : List Char} (h : AllDigits text) :
    readDigits text = (text.map fun c => c.toNat - '0'.toNat, []) := by
  have hread : readDigits (text ++ []) = _ := readDigits_append h nofun
  rwa [List.append_nil] at hread

theorem Decimal.ofDigits_map (text : List Char) :
    ofDigits (text.map fun c => c.toNat - '0'.toNat) = Nat.ofDigitChars 10 text 0 := by
  rw [ofDigits, List.foldl_map, Nat.ofDigitChars_eq_foldl]

theorem Decimal.readSign_of_allDigits {text : List Char} (h : AllDigits text) :
    readSign text = (false, text) := by
  unfold readSign
  split
  · exact absurd (h '-' List.mem_cons_self) (by decide)
  · exact absurd (h '+' List.mem_cons_self) (by decide)
  · rfl

/-- A run of digits is read in base ten unless it is too long. -/
theorem IntegerText.read_of_allDigits {text : List Char} (h : AllDigits text) (hne : text ≠ []) :
    read text = if text.length ≤ maxDigits then .ok (Nat.ofDigitChars 10 text 0 : Int)
      else .error .tooManyDigits := by
  have htrim : trimPadding text = text :=
    trimBoth_of_forall fun c hc => isPadding_of_isAsciiDigit (h c hc)
  have hnumber := Decimal.ofDigits_map text
  have hlength : (text.map fun c => c.toNat - '0'.toNat).length = text.length := List.length_map _
  obtain ⟨c, rest, rfl⟩ := List.exists_cons_of_ne_nil hne
  rw [← hnumber, ← hlength, read, htrim, Decimal.readSign_of_allDigits h]
  simp only [Decimal.readDigits_of_allDigits h]
  rfl

/-! ## Texts of literals -/

/-- A text of digits and underscores with at least one digit. -/
structure IsLiteral (text : String) : Prop where
  chars : ∀ c ∈ text.toList, isIntegerChar c = true
  digit : ∃ c ∈ text.toList, isAsciiDigit c = true

/-- The digits of a literal. -/
def literalDigits (text : String) : List Char := text.toList.filter (· != '_')

/-- What a literal denotes. -/
def literalValue (text : String) : Int := Nat.ofDigitChars 10 (literalDigits text) 0

/-- The literals that the grammar reads are among these texts. -/
theorem IsLiteral.of_isInteger {text : List Char} (h : IsInteger text) :
    IsLiteral (String.ofList text) := by
  obtain ⟨c, rest, rfl, hc, hrest, -⟩ := h
  refine ⟨fun d hd => ?_, c, by simp, hc⟩
  rw [String.toList_ofList] at hd
  rcases List.mem_cons.1 hd with rfl | hd
  · exact isIntegerChar_of_isAsciiDigit hc
  · exact hrest d hd

theorem IsLiteral.allDigits {text : String} (h : IsLiteral text) :
    AllDigits (literalDigits text) := by
  intro c hc
  obtain ⟨hmem, hne⟩ := List.mem_filter.1 hc
  have hchar := h.chars c hmem
  simp only [isIntegerChar, Bool.or_eq_true, beq_iff_eq] at hchar
  rcases hchar with rfl | hdigit
  · exact absurd hne (by decide)
  · exact hdigit

theorem IsLiteral.digits_ne_nil {text : String} (h : IsLiteral text) :
    literalDigits text ≠ [] := by
  obtain ⟨c, hmem, hdigit⟩ := h.digit
  have hne : c ≠ '_' := by
    rintro rfl
    exact absurd hdigit (by decide)
  exact List.ne_nil_of_mem (List.mem_filter.2 ⟨hmem, by simpa using hne⟩)

theorem IsLiteral.integerValue_eq {text : String} (h : IsLiteral text) :
    integerValue text =
      if (literalDigits text).length ≤ IntegerText.maxDigits then .ok (.ofInt (literalValue text))
      else .error .tooManyDigits := by
  have hread := IntegerText.read_of_allDigits h.allDigits h.digits_ne_nil
  rw [integerValue, ← literalDigits, hread]
  split <;> rfl

end PolarCalc
