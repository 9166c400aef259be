import PolarCalc.Grammar.Token
import PolarCalc.Text.Blank
import Mathlib.Data.List.TakeWhile
/-!
# The languages of the tokens

Names, integer literals and number literals as sets of texts, and the scanning
functions against them: what is scanned belongs to the language, and a text of
the language is scanned whole when nothing that could continue it follows.
-/

namespace PolarCalc.Grammar

open PolarCalc.Text

/-! ## Classes of characters -/

/-- The code points of the blanks, one by one. -/
def blankCodes : List Nat := blankRanges.flatMap fun r => List.range' r.1 (r.2 + 1 - r.1)

theorem mem_blankCodes {c : Char} (h : isBlank c = true) : c.toNat ∈ blankCodes := by
  obtain ⟨r, hr, hlow, hhigh⟩ := Ranges.exists_mem_of_contains h
  refine List.mem_flatMap.2 ⟨r, hr, ?_⟩
  rw [List.mem_range'_1]
  omega

theorem blankCodes_apart : ∀ n ∈ blankCodes, letterRanges.contains n = false ∧
    numericRanges.contains n = false ∧ (n < 33 ∨ 126 < n) := by
  decide +kernel

theorem isLetter_of_isBlank {c : Char} (h : isBlank c = true) : isLetter c = false :=
  (blankCodes_apart _ (mem_blankCodes h)).1

theorem toNat_of_isBlank {c : Char} (h : isBlank c = true) : c.toNat < 33 ∨ 126 < c.toNat :=
  (blankCodes_apart _ (mem_blankCodes h)).2.2

theorem isBlank_of_mem_space : ∀ c ∈ [' '], isBlank c = true :=
  List.forall_mem_singleton.2 rfl

theorem ne_of_isBlank {c d : Char} (h : isBlank c = true) (hd : 33 ≤ d.toNat ∧ d.toNat ≤ 126) :
    c ≠ d := by
  rintro rfl
  have := toNat_of_isBlank h
  omega

theorem isWordChar_of_isBlank {c : Char} (h : isBlank c = true) : isWordChar c = false := by
  obtain ⟨hletter, hnumeric, -⟩ := blankCodes_apart _ (mem_blankCodes h)
  have hne : c ≠ '_' := ne_of_isBlank h (by decide)
  simp [isWordChar, isAlphanumeric, isLetter, hletter, hnumeric, hne]

theorem toNat_of_isAsciiDigit {c : Char} (h : isAsciiDigit c = true) :
    48 ≤ c.toNat ∧ c.toNat ≤ 57 := by
  simpa [isAsciiDigit] using h

theorem toNat_of_isNameStart {c : Char} (h : isNameStart c = true) :
    c.toNat = 95 ∨ (65 ≤ c.toNat ∧ c.toNat ≤ 90) ∨ (97 ≤ c.toNat ∧ c.toNat ≤ 122) := by
  simp only [isNameStart, Bool.or_eq_true, beq_iff_eq, decide_eq_true_eq] at h
  rcases h with (rfl | h) | h
  · exact .inl rfl
  · exact .inr (.inl h)
  · exact .inr (.inr h)

theorem toNat_of_isNameChar {c : Char} (h : isNameChar c = true) :
    c.toNat = 95 ∨ (65 ≤ c.toNat ∧ c.toNat ≤ 90) ∨ (97 ≤ c.toNat ∧ c.toNat ≤ 122) ∨
      (48 ≤ c.toNat ∧ c.toNat ≤ 57) := by
  simp only [isNameChar, Bool.or_eq_true] at h
  rcases h with h | h
  · have := toNat_of_isNameStart h
    omega
  · have := toNat_of_isAsciiDigit h
    omega

theorem isNameChar_of_isNameStart {c : Char} (h : isNameStart c = true) : isNameChar c = true := by
  simp [isNameChar, h]

theorem isNameChar_of_isAsciiDigit {c : Char} (h : isAsciiDigit c = true) :
    isNameChar c = true := by
  simp [isNameChar, h]

theorem isNameChar_of_isIntegerChar {c : Char} (h : isIntegerChar c = true) :
    isNameChar c = true := by
  simp only [isIntegerChar, Bool.or_eq_true, beq_iff_eq] at h
  rcases h with rfl | h
  · decide
  · exact isNameChar_of_isAsciiDigit h

theorem isIntegerChar_of_isAsciiDigit {c : Char} (h : isAsciiDigit c = true) :
    isIntegerChar c = true := by
  simp [isIntegerChar, h]

theorem isNameStart_of_isAsciiDigit {c : Char} (h : isAsciiDigit c = true) :
    isNameStart c = false := by
  have hdigit := toNat_of_isAsciiDigit h
  by_contra hstart
  have := toNat_of_isNameStart (by simpa using hstart)
  omega

theorem isNameChar_of_isBlank {c : Char} (h : isBlank c = true) : isNameChar c = false := by
  have hblank := toNat_of_isBlank h
  by_contra hname
  have := toNat_of_isNameChar (by simpa using hname)
  omega

theorem asciiCodes_word : ∀ n < 128,
    ((65 ≤ n ∧ n ≤ 90) ∨ (97 ≤ n ∧ n ≤ 122) → letterRanges.contains n = true) ∧
    (48 ≤ n ∧ n ≤ 57 → numericRanges.contains n = true) := by
  decide +kernel

theorem isLetter_of_isNameStart {c : Char} (h : isNameStart c = true) (hne : c ≠ '_') :
    isLetter c = true := by
  have hcode : c.toNat ≠ 95 := fun h95 => hne (Char.toNat_inj.1 h95)
  have hstart := toNat_of_isNameStart h
  have hascii := asciiCodes_word c.toNat (by omega)
  exact hascii.1 (by omega)

theorem isLetter_of_isAsciiDigit {c : Char} (h : isAsciiDigit c = true) : isLetter c = false := by
  have hdigit := toNat_of_isAsciiDigit h
  exact Ranges.contains_cons_of_lt (by omega)

theorem isWordChar_of_isNameChar {c : Char} (h : isNameChar c = true) : isWordChar c = true := by
  simp only [isNameChar, Bool.or_eq_true] at h
  rcases h with h | h
  · by_cases hne : c = '_'
    · simp [isWordChar, hne]
    · simp [isWordChar, isAlphanumeric, isLetter_of_isNameStart h hne]
  · have hdigit := toNat_of_isAsciiDigit h
    have hnumeric := (asciiCodes_word c.toNat (by omega)).2 hdigit
    simp [isWordChar, isAlphanumeric, hnumeric]

/-! ## Runs of a class -/

section Runs

variable {p : Char → Bool} {run rest : List Char}

theorem takeWhile_of_head? (h : ∀ c ∈ rest.head?, p c = false) : rest.takeWhile p = [] := by
  cases rest with
  | nil => rfl
  | cons c rest => simp [h c rfl]

theorem dropWhile_of_head? (h : ∀ c ∈ rest.head?, p c = false) : rest.dropWhile p = rest := by
  cases rest with
  | nil => rfl
  | cons c rest => simp [h c rfl]

theorem takeWhile_run (hrun : ∀ c ∈ run, p c = true) (hrest : ∀ c ∈ rest.head?, p c = false) :
    (run ++ rest).takeWhile p = run := by
  rw [List.takeWhile_append_of_pos hrun, takeWhile_of_head? hrest, List.append_nil]

theorem dropWhile_run (hrun : ∀ c ∈ run, p c = true) (hrest : ∀ c ∈ rest.head?, p c = false) :
    (run ++ rest).dropWhile p = rest := by
  rw [List.dropWhile_append_of_pos hrun, dropWhile_of_head? hrest]

theorem head?_dropWhile (p : Char → Bool) (text : List Char) :
    ∀ c ∈ (text.dropWhile p).head?, p c = false := by
  intro c hc
  have h := List.head?_dropWhile_not p text
  rw [Option.mem_def.1 hc] at h
  simpa using h

theorem mem_takeWhile {text : List Char} : ∀ c ∈ text.takeWhile p, p c = true :=
  fun _ => List.mem_takeWhile_imp

theorem run_unique {run' rest' : List Char} (hrun : ∀ c ∈ run, p c = true)
    (hrun' : ∀ c ∈ run', p c = true) (hrest : ∀ c ∈ rest.head?, p c = false)
    (hrest' : ∀ c ∈ rest'.head?, p c = false) (h : run ++ rest = run' ++ rest') :
    run = run' ∧ rest = rest' := by
  constructor
  · rw [← takeWhile_run hrun hrest, h, takeWhile_run hrun' hrest']
  · rw [← dropWhile_run hrun hrest, h, dropWhile_run hrun' hrest']

end Runs

/-! ## Names -/

/-- An ASCII letter or underscore, then letters, digits and underscores. -/
def IsName (text : List Char) : Prop :=
  ∃ c rest, text = c :: rest ∧ isNameStart c = true ∧ ∀ d ∈ rest, isNameChar d = true

theorem IsName.isNameChar {text : List Char} (h : IsName text) :
    ∀ c ∈ text, isNameChar c = true := by
  obtain ⟨c, rest, rfl, hc, hrest⟩ := h
  intro d hd
  rcases List.mem_cons.1 hd with rfl | hd
  · exact isNameChar_of_isNameStart hc
  · exact hrest d hd

theorem nameToken?_eq_some {text token : List Char} (h : nameToken? text = some token) :
    IsName token ∧ ∃ rest, text = token ++ rest ∧ ∀ c ∈ rest.head?, isNameChar c = false := by
  cases text with
  | nil => simp [nameToken?] at h
  | cons c rest =>
      rw [nameToken?] at h
      split at h
      · rename_i hc
        simp only [Option.some.injEq] at h
        subst h
        refine ⟨⟨c, _, rfl, hc, mem_takeWhile⟩, rest.dropWhile isNameChar, ?_,
          head?_dropWhile _ _⟩
        rw [List.cons_append, List.takeWhile_append_dropWhile]
      · cases h

theorem nameToken?_append {token rest : List Char} (h : IsName token)
    (hrest : ∀ c ∈ rest.head?, isNameChar c = false) :
    nameToken? (token ++ rest) = some token := by
  obtain ⟨c, run, rfl, hc, hrun⟩ := h
  rw [List.cons_append, nameToken?, if_pos hc, takeWhile_run hrun hrest]

theorem nameToken?_eq_none {text : List Char} (h : ∀ c ∈ text.head?, isNameStart c = false) :
    nameToken? text = none := by
  cases text with
  | nil => rfl
  | cons c rest => simp [nameToken?, h c rfl]

/-! ## Integer literals -/

/-- A run of digits and underscores, a digit first and an underscore last. -/
def IsInteger (text : List Char) : Prop :=
  ∃ c rest, text = c :: rest ∧ isAsciiDigit c = true ∧ (∀ d ∈ rest, isIntegerChar d = true) ∧
    text.getLast? = some '_'

theorem IsInteger.isNameChar {text : List Char} (h : IsInteger text) :
    ∀ c ∈ text, isNameChar c = true := by
  obtain ⟨c, rest, rfl, hc, hrest, -⟩ := h
  intro d hd
  rcases List.mem_cons.1 hd with rfl | hd
  · exact isNameChar_of_isAsciiDigit hc
  · exact isNameChar_of_isIntegerChar (hrest d hd)

theorem integerToken?_eq_some {text token : List Char} (h : integerToken? text = some token) :
    IsInteger token ∧ ∃ rest, text = token ++ rest := by
  cases text with
  | nil => simp [integerToken?] at h
  | cons c rest =>
      simp only [integerToken?] at h
      split at h
      · rename_i hc
        simp only [Bool.and_eq_true, beq_iff_eq] at hc
        simp only [Option.some.injEq] at h
        subst h
        refine ⟨⟨c, _, rfl, hc.1, mem_takeWhile, hc.2⟩, rest.dropWhile isIntegerChar, ?_⟩
        rw [List.cons_append, List.takeWhile_append_dropWhile]
      · cases h

theorem integerToken?_append {token rest : List Char} (h : IsInteger token)
    (hrest : ∀ c ∈ rest.head?, isIntegerChar c = false) :
    integerToken? (token ++ rest) = some token := by
  obtain ⟨c, run, rfl, hc, hrun, hlast⟩ := h
  simp only [List.cons_append, integerToken?, takeWhile_run hrun hrest, hc, hlast]
  simp

theorem integerToken?_eq_none {text : List Char} (h : ∀ c ∈ text.head?, isAsciiDigit c = false) :
    integerToken? text = none := by
  cases text with
  | nil => rfl
  | cons c rest => simp [integerToken?, h c rfl]

theorem integerToken?_digits {digits rest : List Char} (h : ∀ d ∈ digits, isAsciiDigit d = true)
    (hrest : ∀ c ∈ rest.head?, isIntegerChar c = false) :
    integerToken? (digits ++ rest) = none := by
  cases digits with
  | nil =>
      refine integerToken?_eq_none fun c hc => ?_
      by_contra hdigit
      have := hrest c hc
      rw [isIntegerChar_of_isAsciiDigit (by simpa using hdigit)] at this
      cases this
  | cons c digits =>
      have hrun : ∀ d ∈ digits, isIntegerChar d = true := fun d hd =>
        isIntegerChar_of_isAsciiDigit (h d (List.mem_cons_of_mem _ hd))
      have hlast : (c :: digits).getLast? ≠ some '_' := by
        intro hlast
        have := h _ (List.mem_of_getLast? hlast)
        revert this
        decide
      simp only [List.cons_append, integerToken?, takeWhile_run hrun hrest]
      simp [hlast]

/-! ## Number literals -/

/-- ASCII digits only. -/
def AllDigits (text : List Char) : Prop := ∀ c ∈ text, isAsciiDigit c = true

/-- Digits with an optional point and optional digits after it, or a point and
digits. -/
inductive IsMantissa : List Char → Prop
  | whole {whole : List Char} : whole ≠ [] → AllDigits whole → IsMantissa whole
  | point {whole fraction : List Char} : whole ≠ [] → AllDigits whole → AllDigits fraction →
      IsMantissa (whole ++ '.' :: fraction)
  | fraction {fraction : List Char} : fraction ≠ [] → AllDigits fraction →
      IsMantissa ('.' :: fraction)

/-- Nothing, or the letter e, an optional sign and digits. -/
inductive IsExponent : List Char → Prop
  | absent : IsExponent []
  | present {letter : Char} {sign digits : List Char} : letter = 'e' ∨ letter = 'E' →
      sign ∈ [[], ['+'], ['-']] → digits ≠ [] → AllDigits digits →
      IsExponent (letter :: (sign ++ digits))

/-- A mantissa and an exponent. -/
def IsNumber (text : List Char) : Prop :=
  ∃ mantissa exponent, text = mantissa ++ exponent ∧ IsMantissa mantissa ∧ IsExponent exponent

theorem isNumber_of_allDigits {digits : List Char} (hne : digits ≠ []) (h : AllDigits digits) :
    IsNumber digits :=
  ⟨digits, [], by simp, .whole hne h, .absent⟩

/-- Nothing that could continue a mantissa or begin an exponent. -/
def EndsNumber (rest : List Char) : Prop := ∀ c ∈ rest.head?, isNameChar c = false ∧ c ≠ '.'

theorem allDigits_takeWhile (text : List Char) : AllDigits (text.takeWhile isAsciiDigit) :=
  mem_takeWhile

theorem takeWhile_ne_nil {digits rest : List Char} (hne : digits ≠ []) (h : AllDigits digits) :
    (digits ++ rest).takeWhile isAsciiDigit ≠ [] := by
  rw [List.takeWhile_append_of_pos h]
  exact List.append_ne_nil_of_left_ne_nil hne _

theorem IsMantissa.isAsciiDigit_or_eq {mantissa : List Char} (h : IsMantissa mantissa) :
    ∀ c ∈ mantissa, isAsciiDigit c = true ∨ c = '.' := by
  intro c hc
  cases h with
  | whole _ hwhole => exact .inl (hwhole c hc)
  | point _ hwhole hfraction =>
      rcases List.mem_append.1 hc with hc | hc
      · exact .inl (hwhole c hc)
      · rcases List.mem_cons.1 hc with rfl | hc
        · exact .inr rfl
        · exact .inl (hfraction c hc)
  | fraction _ hfraction =>
      rcases List.mem_cons.1 hc with rfl | hc
      · exact .inr rfl
      · exact .inl (hfraction c hc)

theorem IsNumber.head {text : List Char} (h : IsNumber text) :
    ∃ c rest, text = c :: rest ∧ (isAsciiDigit c = true ∨ c = '.') := by
  obtain ⟨mantissa, exponent, rfl, hmantissa, -⟩ := h
  have hne : mantissa ≠ [] := by
    cases hmantissa with
    | whole hne => exact hne
    | point => simp
    | fraction => simp
  obtain ⟨c, rest, rfl⟩ := List.exists_cons_of_ne_nil hne
  exact ⟨c, rest ++ exponent, rfl, hmantissa.isAsciiDigit_or_eq c List.mem_cons_self⟩

theorem IsNumber.digits_behind {before behind : List Char} {c : Char}
    (h : IsNumber (before ++ c :: behind)) (hname : isNameChar c = false) (hpoint : c ≠ '.') :
    (c = '+' ∨ c = '-') ∧ behind ≠ [] ∧ AllDigits behind := by
  have hdigit : isAsciiDigit c ≠ true := by
    intro hdigit
    rw [isNameChar_of_isAsciiDigit hdigit] at hname
    cases hname
  obtain ⟨mantissa, exponent, hsplit, hmantissa, hexponent⟩ := h
  obtain ⟨between, rfl⟩ : ∃ between, exponent = between ++ c :: behind := by
    rcases List.append_eq_append_iff.1 hsplit with ⟨between, rfl, hbetween⟩ | ⟨between, -, hbetween⟩
    · cases between with
      | nil => exact ⟨[], by simpa using hbetween.symm⟩
      | cons d between =>
          obtain ⟨rfl, -⟩ := List.cons.inj hbetween
          have hc := hmantissa.isAsciiDigit_or_eq c (by simp)
          exact absurd hc (by simp [hdigit, hpoint])
    · exact ⟨between, hbetween⟩
  generalize htext : between ++ c :: behind = text at hexponent
  cases hexponent with
  | absent => simp at htext
  | @present letter sign digits hletter hsign hne hdigits =>
      have hletter : c ≠ letter := by
        rintro rfl
        rcases hletter with rfl | rfl <;> exact absurd hname (by decide)
      cases between with
      | nil => exact absurd (List.cons.inj htext).1 hletter
      | cons d between =>
          have htail := (List.cons.inj htext).2
          rcases List.append_eq_append_iff.1 htail with ⟨more, rfl, hmore⟩ | ⟨more, -, rfl⟩
          · cases more with
            | nil =>
                rw [List.nil_append] at hmore
                exact absurd (hdigits c (by rw [← hmore]; simp)) hdigit
            | cons e more =>
                obtain ⟨rfl, rfl⟩ := List.cons.inj hmore
                have hshort : more = [] ∧ (c = '+' ∨ c = '-') := by
                  cases between <;> cases more <;> simp_all
                obtain ⟨rfl, hc⟩ := hshort
                exact ⟨hc, hne, hdigits⟩
          · exact absurd (hdigits c (by simp)) hdigit

theorem mantissaToken?_eq_some {text token : List Char} (h : mantissaToken? text = some token) :
    IsMantissa token ∧ ∃ rest, text = token ++ rest := by
  have hsplit := List.takeWhile_append_dropWhile (p := isAsciiDigit) (l := text)
  have hdigits := allDigits_takeWhile text
  revert h
  fun_cases mantissaToken? text with
  | case1 rest hbehind hwhole hnone =>
      simp
  | case2 rest hbehind hwhole hne =>
      rintro ⟨⟩
      rw [hwhole, hbehind, List.nil_append] at hsplit
      refine ⟨.fraction hne (allDigits_takeWhile rest), rest.dropWhile isAsciiDigit, ?_⟩
      rw [List.cons_append, List.takeWhile_append_dropWhile, hsplit]
  | case3 hwhole hbehind =>
      simp
  | case4 rest hbehind hne =>
      rintro ⟨⟩
      rw [hbehind] at hsplit
      refine ⟨.point hne hdigits (allDigits_takeWhile rest), rest.dropWhile isAsciiDigit, ?_⟩
      rw [List.append_assoc, List.cons_append, List.takeWhile_append_dropWhile, hsplit]
  | case5 hbehind hne =>
      rintro ⟨⟩
      exact ⟨.whole hne hdigits, text.dropWhile isAsciiDigit, hsplit.symm⟩

theorem head?_point (text : List Char) : ∀ c ∈ ('.' :: text).head?, isAsciiDigit c = false := by
  rintro _ ⟨⟩
  rfl

theorem exists_mantissaToken? {text : List Char} (h : text.takeWhile isAsciiDigit ≠ []) :
    ∃ token, mantissaToken? text = some token ∧ text.takeWhile isAsciiDigit <+: token := by
  fun_cases mantissaToken? text with
  | case1 _ _ hnil => exact absurd hnil h
  | case2 _ _ hnil => exact absurd hnil h
  | case3 hnil => exact absurd hnil h
  | case4 rest => exact ⟨_, rfl, List.prefix_append _ _⟩
  | case5 => exact ⟨_, rfl, List.prefix_refl _⟩

theorem mantissaToken?_point {whole text : List Char} (hne : whole ≠ [])
    (hwhole : AllDigits whole) :
    mantissaToken? (whole ++ '.' :: text) =
      some (whole ++ '.' :: text.takeWhile isAsciiDigit) := by
  unfold mantissaToken?
  rw [takeWhile_run hwhole (head?_point _), dropWhile_run hwhole (head?_point _)]
  split
  · exact absurd rfl hne
  · exact absurd rfl hne
  · rename_i heq
    cases heq
    rfl
  · rename_i hnot _
    exact absurd rfl (hnot _)

theorem mantissaToken?_fraction {text : List Char} (h : text.takeWhile isAsciiDigit ≠ []) :
    mantissaToken? ('.' :: text) = some ('.' :: text.takeWhile isAsciiDigit) := by
  unfold mantissaToken?
  rw [takeWhile_of_head? (head?_point _), dropWhile_of_head? (head?_point _)]
  obtain ⟨c, fraction, hfraction⟩ := List.exists_cons_of_ne_nil h
  simp only [hfraction]

theorem mantissaToken?_append {mantissa rest : List Char} (h : IsMantissa mantissa)
    (hrest : ∀ c ∈ rest.head?, isAsciiDigit c = false ∧ c ≠ '.') :
    mantissaToken? (mantissa ++ rest) = some mantissa := by
  have hdigit : ∀ c ∈ rest.head?, isAsciiDigit c = false := fun c hc => (hrest c hc).1
  cases h with
  | whole hne hwhole =>
      unfold mantissaToken?
      rw [takeWhile_run hwhole hdigit, dropWhile_run hwhole hdigit]
      split
      · exact absurd rfl hne
      · exact absurd rfl hne
      · exact absurd rfl (hrest '.' rfl).2
      · rfl
  | point hne hwhole hfraction =>
      rw [List.append_assoc, List.cons_append, mantissaToken?_point hne hwhole,
        takeWhile_run hfraction hdigit]
  | fraction hne hfraction =>
      rw [List.cons_append, mantissaToken?_fraction (takeWhile_ne_nil hne hfraction),
        takeWhile_run hfraction hdigit]

theorem numberToken?_isSome_of_digit {c : Char} {text : List Char} (h : isAsciiDigit c = true) :
    (numberToken? (c :: text)).isSome = true := by
  have hdigits : (c :: text).takeWhile isAsciiDigit ≠ [] := by simp [h]
  obtain ⟨mantissa, hmantissa, -⟩ := exists_mantissaToken? hdigits
  rw [numberToken?, hmantissa]
  rfl

theorem mantissaToken?_eq_none {text : List Char}
    (h : ∀ c ∈ text.head?, isAsciiDigit c = false ∧ c ≠ '.') : mantissaToken? text = none := by
  have hdigit : ∀ c ∈ text.head?, isAsciiDigit c = false := fun c hc => (h c hc).1
  unfold mantissaToken?
  rw [takeWhile_of_head? hdigit, dropWhile_of_head? hdigit]
  split
  · exact absurd rfl (h '.' rfl).2
  · rfl
  · contradiction
  · contradiction

theorem signToken_cases (text : List Char) :
    signToken text ∈ [[], ['+'], ['-']] ∧
      text = signToken text ++ text.drop (signToken text).length := by
  fun_cases signToken text <;> simp

theorem signToken_append {sign digits : List Char} (hsign : sign ∈ [[], ['+'], ['-']])
    (hdigits : ∀ c ∈ digits.head?, isAsciiDigit c = true) : signToken (sign ++ digits) = sign := by
  simp only [List.mem_cons, List.not_mem_nil, or_false] at hsign
  rcases hsign with rfl | rfl | rfl
  · cases digits with
    | nil => rfl
    | cons c digits =>
        have hc : isAsciiDigit c = true := hdigits c rfl
        rw [List.nil_append, signToken.eq_def]
        split
        · rename_i heq
          cases heq
          exact absurd hc (by decide)
        · rename_i heq
          cases heq
          exact absurd hc (by decide)
        · rfl
  · rfl
  · rfl

theorem exponentToken_spec (text : List Char) :
    IsExponent (exponentToken text) ∧ ∃ rest, text = exponentToken text ++ rest := by
  fun_cases exponentToken text with
  | case1 => exact ⟨.absent, [], rfl⟩
  | case2 c rest hletter sign hnone => exact ⟨.absent, _, rfl⟩
  | case3 c rest hletter sign hne =>
      obtain ⟨hsign, hsplit⟩ := signToken_cases rest
      have hdrop := List.takeWhile_append_dropWhile (p := isAsciiDigit) (l := rest.drop sign.length)
      refine ⟨.present hletter hsign hne (allDigits_takeWhile _),
        (rest.drop sign.length).dropWhile isAsciiDigit, ?_⟩
      rw [List.cons_append, List.cons_append, List.append_assoc, hdrop, ← hsplit]
  | case4 c rest hletter => exact ⟨.absent, _, rfl⟩

theorem exponentToken_present {letter : Char} {sign text : List Char}
    (hletter : letter = 'e' ∨ letter = 'E') (hsign : sign ∈ [[], ['+'], ['-']])
    (hne : text.takeWhile isAsciiDigit ≠ []) :
    exponentToken (letter :: (sign ++ text)) =
      letter :: (sign ++ text.takeWhile isAsciiDigit) := by
  have hhead : ∀ c ∈ text.head?, isAsciiDigit c = true := by
    intro c hc
    cases text with
    | nil => cases hc
    | cons d text =>
        cases hc
        by_contra hdigit
        exact hne (by simp [hdigit])
  rw [exponentToken, if_pos hletter]
  simp only [signToken_append hsign hhead, List.drop_left]
  rfl

theorem exponentToken_append {exponent rest : List Char} (h : IsExponent exponent)
    (hrest : EndsNumber rest) : exponentToken (exponent ++ rest) = exponent := by
  have hdigit : ∀ c ∈ rest.head?, isAsciiDigit c = false := by
    intro c hc
    by_contra hdigit
    have := (hrest c hc).1
    rw [isNameChar_of_isAsciiDigit (by simpa using hdigit)] at this
    cases this
  cases h with
  | absent =>
      cases rest with
      | nil => rfl
      | cons c rest =>
          have hc := (hrest c rfl).1
          have hletter : ¬ (c = 'e' ∨ c = 'E') := by
            rintro (rfl | rfl) <;> exact absurd hc (by decide)
          rw [List.nil_append, exponentToken, if_neg hletter]
  | present hletter hsign hne hdigits =>
      rw [List.cons_append, List.append_assoc,
        exponentToken_present hletter hsign (takeWhile_ne_nil hne hdigits),
        takeWhile_run hdigits hdigit]

theorem numberToken?_eq_some {text token : List Char} (h : numberToken? text = some token) :
    IsNumber token ∧ ∃ rest, text = token ++ rest := by
  rw [numberToken?, Option.map_eq_some_iff] at h
  obtain ⟨mantissa, hmantissa, rfl⟩ := h
  obtain ⟨hm, behind, rfl⟩ := mantissaToken?_eq_some hmantissa
  rw [List.drop_left]
  obtain ⟨hx, rest, hrest⟩ := exponentToken_spec behind
  refine ⟨⟨mantissa, _, rfl, hm, hx⟩, rest, ?_⟩
  rw [List.append_assoc, ← hrest]

theorem numberToken?_append {token rest : List Char} (h : IsNumber token)
    (hrest : EndsNumber rest) : numberToken? (token ++ rest) = some token := by
  obtain ⟨mantissa, exponent, rfl, hm, hx⟩ := h
  have hbehind : ∀ c ∈ (exponent ++ rest).head?, isAsciiDigit c = false ∧ c ≠ '.' := by
    intro c hc
    cases hx with
    | absent =>
        obtain ⟨hname, hpoint⟩ := hrest c hc
        refine ⟨?_, hpoint⟩
        by_contra hdigit
        rw [isNameChar_of_isAsciiDigit (by simpa using hdigit)] at hname
        cases hname
    | present hletter =>
        cases hc
        rcases hletter with rfl | rfl <;> decide
  rw [List.append_assoc, numberToken?, mantissaToken?_append hm hbehind, Option.map_some,
    List.drop_left, exponentToken_append hx hrest]

/-- A number is no integer literal, for no underscore ends it. -/
theorem integerToken?_of_isNumber {token rest : List Char} (h : IsNumber token)
    (hrest : EndsNumber rest) : integerToken? (token ++ rest) = none := by
  obtain ⟨mantissa, exponent, rfl, hmantissa, hexponent⟩ := h
  cases hmantissa with
  | whole _ hwhole =>
      rw [List.append_assoc]
      refine integerToken?_digits hwhole fun c hc => ?_
      by_contra hrun
      have hname := isNameChar_of_isIntegerChar (by simpa using hrun)
      cases hexponent with
      | absent =>
          rw [(hrest c hc).1] at hname
          cases hname
      | present hletter =>
          cases hc
          rcases hletter with rfl | rfl <;> exact absurd hrun (by decide)
  | point _ hwhole =>
      rw [List.append_assoc, List.append_assoc]
      refine integerToken?_digits hwhole ?_
      rintro _ ⟨⟩
      decide
  | fraction =>
      refine integerToken?_eq_none ?_
      rintro _ ⟨⟩
      decide

theorem numberToken?_eq_none {text : List Char}
    (h : ∀ c ∈ text.head?, isAsciiDigit c = false ∧ c ≠ '.') : numberToken? text = none := by
  rw [numberToken?, mantissaToken?_eq_none h, Option.map_none]

end PolarCalc.Grammar
