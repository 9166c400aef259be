import PolarCalc.Proofs.Decimal.Nearest
import PolarCalc.Proofs.Evaluation.Literal
import PolarCalc.Proofs.Integer.Text
/-!
# Decimal text read back

A decimal in general notation and an integer are read back as what they denote, though not
always by the same digits: zeros at the end of a fraction are not written.
-/

namespace PolarCalc.Decimal

open PolarCalc.Text PolarCalc.Grammar

/-- The number that a decimal denotes. -/
def toRat (d : Decimal) : ℚ := if d.negative then -d.magnitude else d.magnitude

/-- The decimal that a text denotes, before it is rounded to a double. -/
def read? (text : List Char) : Option Decimal :=
  let (negative, body) := readSign (trimPadding text)
  readUnsigned? negative body

/-- The text is an unsigned number that is read as `m`. -/
structure IsNumberFor (m : ℚ) (text : List Char) : Prop where
  isNumber : IsNumber text
  read : ∀ negative, ∃ d, readUnsigned? negative text = some d ∧ d.negative = negative ∧
    d.magnitude = m

/-- The minus sign of a number. -/
def signText (negative : Bool) : List Char := if negative then ['-'] else []

section Numbers

variable {negative : Bool} {text whole fraction exponent digits : List Char} {m : ℚ} {e : ℤ}

/-! ## Signs and words -/

theorem readSign_signed (negative : Bool) (h : IsNumber text) :
    readSign (trimPadding (signText negative ++ text)) = (negative, text) := by
  cases negative with
  | false =>
      rw [signText, if_neg Bool.false_ne_true, List.nil_append, trimPadding_of_isNumber h,
        readSign_of_isNumber h]
  | true =>
      have htrim : trimPadding ('-' :: text) = '-' :: text := by
        refine trimBoth_of_forall fun c hc => ?_
        rcases List.mem_cons.1 hc with rfl | hc
        · decide
        · rw [isPadding, (plain_of_isNumber h c hc).1, Bool.false_and]
      show readSign (trimPadding ('-' :: text)) = _
      rw [htrim]
      rfl

theorem sameWord_of_isNumber {word : String} {first : Char} {rest : List Char}
    (hword : word.toList = first :: rest) (hfirst : 65 ≤ first.toNat) (h : IsNumber text) :
    sameWord word text = false := by
  obtain ⟨c, rest', rfl, hc⟩ := h.head
  have hlt : c.toNat < 65 := by
    rcases hc with hdigit | rfl
    · have := toNat_of_isAsciiDigit hdigit
      omega
    · decide
  have hlower : c.toLower = c := by
    have hval : ¬ (65 ≤ c.val) := by
      rw [UInt32.le_iff_toNat_le]
      exact not_le.2 hlt
    exact dif_neg fun hc => hval hc.1
  rw [sameWord, hword, List.map_cons, hlower, beq_eq_false_iff_ne]
  intro heq
  obtain rfl := (List.cons.inj heq).1
  omega

/-- A number with a sign is read as a decimal, and as the double nearest to it. -/
theorem IsNumberFor.read_signed (h : IsNumberFor m text) (negative : Bool) :
    ∃ d, read? (signText negative ++ text) = some d ∧
      readDouble? (signText negative ++ text) = some d.toDouble ∧
      d.negative = negative ∧ d.magnitude = m := by
  obtain ⟨d, hread, hsign, hmagnitude⟩ := h.read negative
  have hsplit := readSign_signed negative h.isNumber
  have hinf : sameWord "inf" text = false := sameWord_of_isNumber rfl (by decide) h.isNumber
  have hinfinity : sameWord "infinity" text = false :=
    sameWord_of_isNumber rfl (by decide) h.isNumber
  have hnan : sameWord "nan" text = false := sameWord_of_isNumber rfl (by decide) h.isNumber
  refine ⟨d, ?_, ?_, hsign, hmagnitude⟩
  · rw [read?, hsplit]
    exact hread
  · simp only [readDouble?, hsplit, hinf, hinfinity, hnan, hread]
    rfl

/-! ## Digits around a point -/

/-- What digits around a point denote, times a power of ten. -/
def positional (whole fraction : List Char) (e : ℤ) : ℚ :=
  Nat.ofDigitChars 10 (whole ++ fraction) 0 * 10 ^ (e - fraction.length)

theorem isNumber_positional (hwhole : AllDigits whole) (hne : whole ≠ [])
    (hfraction : AllDigits fraction) (h : IsExponent exponent) :
    IsNumber (whole ++ fractionText fraction ++ exponent) := by
  refine ⟨_, _, rfl, ?_, h⟩
  cases fraction with
  | nil =>
      rw [fractionText, if_pos List.isEmpty_nil, List.append_nil]
      exact .whole hne hwhole
  | cons => exact .point hne hwhole hfraction

theorem isNumberFor_positional (hwhole : AllDigits whole) (hne : whole ≠ [])
    (hfraction : AllDigits fraction) (h : IsExponent exponent)
    (he : readExponent? exponent = some e) :
    IsNumberFor (positional whole fraction e) (whole ++ fractionText fraction ++ exponent) := by
  refine ⟨isNumber_positional hwhole hne hfraction h, fun negative =>
    ⟨⟨negative, Nat.ofDigitChars 10 (whole ++ fraction) 0, e - fraction.length⟩, ?_, rfl, rfl⟩⟩
  cases fraction with
  | nil =>
      rw [fractionText, if_pos List.isEmpty_nil, List.append_nil,
        readUnsigned_whole negative hwhole hne h, he, List.length_nil, Int.natCast_zero, sub_zero]
      rfl
  | cons c fraction =>
      show readUnsigned? negative (whole ++ '.' :: (c :: fraction) ++ exponent) = _
      rw [List.append_assoc, List.cons_append,
        readUnsigned_point negative hwhole hfraction (.inl hne) h, he]
      rfl

theorem exists_dropTrailingZeros (digits : List Char) :
    ∃ n, digits = dropTrailingZeros digits ++ List.replicate n '0' := by
  refine ⟨(digits.reverse.takeWhile (· == '0')).length, ?_⟩
  have hzeros : digits.reverse.takeWhile (· == '0') =
      List.replicate (digits.reverse.takeWhile (· == '0')).length '0' := by
    rw [List.eq_replicate_iff]
    exact ⟨rfl, fun c hc => by simpa using List.mem_takeWhile_imp hc⟩
  calc
    digits = (digits.reverse.takeWhile (· == '0') ++ digits.reverse.dropWhile (· == '0')).reverse := by
      rw [List.takeWhile_append_dropWhile, List.reverse_reverse]
    _ = dropTrailingZeros digits ++ (digits.reverse.takeWhile (· == '0')).reverse :=
      List.reverse_append
    _ = _ := by rw [hzeros, List.reverse_replicate, List.length_replicate]

theorem positional_dropTrailingZeros (whole fraction : List Char) (e : ℤ) :
    positional whole (dropTrailingZeros fraction) e = positional whole fraction e := by
  obtain ⟨n, hn⟩ := exists_dropTrailingZeros fraction
  generalize dropTrailingZeros fraction = kept at hn ⊢
  subst hn
  have hten : (10 : ℚ) ^ (e - kept.length) = 10 ^ n * 10 ^ (e - (kept.length + n : ℕ)) := by
    rw [← zpow_natCast, ← zpow_add₀ (by norm_num)]
    congr 1
    omega
  have hdigits : Nat.ofDigitChars 10 (whole ++ (kept ++ List.replicate n '0')) 0 =
      10 ^ n * Nat.ofDigitChars 10 (whole ++ kept) 0 := by
    rw [← List.append_assoc, Nat.ofDigitChars_append, Nat.ofDigitChars_replicate_zero]
  rw [positional, positional, hdigits, List.length_append, List.length_replicate, hten]
  push_cast
  ring

theorem positional_append (whole middle fraction : List Char) (e : ℤ) :
    positional whole (middle ++ fraction) e =
      positional (whole ++ middle) fraction (e - middle.length) := by
  rw [positional, positional, List.append_assoc, List.length_append, Nat.cast_add, sub_sub]

/-! ## Digits -/

theorem allDigits_digitChars (n : ℕ) : AllDigits (digitChars n) := by
  intro c hc
  have hdigit := IntegerText.isDigit_of_mem_toDigits hc
  rw [Char.isDigit, Bool.and_eq_true, decide_eq_true_eq, decide_eq_true_eq] at hdigit
  exact decide_eq_true hdigit

theorem length_digitChars {n places : ℕ} (hplaces : 0 < places) (hlow : 10 ^ (places - 1) ≤ n)
    (hhigh : n < 10 ^ places) : (digitChars n).length = places := by
  apply le_antisymm
  · exact (Nat.length_toDigits_le_iff (by omega) hplaces).2 hhigh
  · by_contra hlt
    rw [not_le] at hlt
    have hpos : 0 < (digitChars n).length := Nat.length_toDigits_pos
    have hfew : n < 10 ^ (places - 1) :=
      (Nat.length_toDigits_le_iff (by omega) (by omega)).1 (Nat.le_sub_one_of_lt hlt)
    omega

theorem ofDigitChars_zeros (n : ℕ) (digits : List Char) :
    Nat.ofDigitChars 10 (List.replicate n '0' ++ digits) 0 = Nat.ofDigitChars 10 digits 0 := by
  rw [Nat.ofDigitChars_append, Nat.ofDigitChars_replicate_zero, Nat.mul_zero]

theorem allDigits_zeros (n : ℕ) (h : AllDigits digits) :
    AllDigits (List.replicate n '0' ++ digits) := by
  intro c hc
  rcases List.mem_append.1 hc with hzero | hc
  · rw [List.eq_of_mem_replicate hzero]
    decide
  · exact h c hc

theorem allDigits_dropTrailingZeros (h : AllDigits digits) :
    AllDigits (dropTrailingZeros digits) := by
  obtain ⟨n, hn⟩ := exists_dropTrailingZeros digits
  intro c hc
  apply h
  rw [hn]
  exact List.mem_append_left _ hc

theorem exponentText_eq (e : ℤ) : ∃ digits, AllDigits digits ∧ digits ≠ [] ∧
    Nat.ofDigitChars 10 digits 0 = e.natAbs ∧
    exponentText e = 'e' :: ([if e < 0 then '-' else '+'] ++ digits) := by
  have hpadded (n : ℕ) := allDigits_zeros n (allDigits_digitChars e.natAbs)
  have hvalue (n : ℕ) :
      Nat.ofDigitChars 10 (List.replicate n '0' ++ digitChars e.natAbs) 0 = e.natAbs := by
    rw [ofDigitChars_zeros]
    exact Nat.ofDigitChars_ten_toDigits
  by_cases hshort : (digitChars e.natAbs).length < 2
  · exact ⟨_, hpadded 1, by simp, hvalue 1, by simp [exponentText, hshort]⟩
  · exact ⟨_, hpadded 0, by simp [digitChars, Nat.toDigits_ne_nil], hvalue 0,
      by simp [exponentText, hshort]⟩

theorem isExponent_exponentText (e : ℤ) : IsExponent (exponentText e) := by
  obtain ⟨digits, hdigits, hne, -, htext⟩ := exponentText_eq e
  rw [htext]
  refine .present (.inl rfl) ?_ hne hdigits
  split <;> decide

theorem readExponent_exponentText (e : ℤ) : readExponent? (exponentText e) = some e := by
  obtain ⟨digits, hdigits, hne, hvalue, htext⟩ := exponentText_eq e
  have hsign : readSign ([if e < 0 then '-' else '+'] ++ digits) = (decide (e < 0), digits) := by
    by_cases he : e < 0
    · rw [if_pos he, decide_eq_true he]
      rfl
    · rw [if_neg he, decide_eq_false he]
      rfl
  have hread : signed (decide (e < 0)) (Nat.ofDigitChars 10 digits 0) = e := by
    rw [hvalue, signed]
    by_cases he : e < 0
    · rw [if_pos (decide_eq_true he)]
      omega
    · rw [if_neg (by simpa using he)]
      omega
  rw [← ofDigits_map] at hread
  rw [htext, readExponent?, if_pos (.inl rfl), hsign]
  obtain ⟨c, digits, rfl⟩ := List.exists_cons_of_ne_nil hne
  simp only [readDigits_of_allDigits hdigits, List.map_cons]
  exact congrArg some hread

/-! ## General notation -/

theorem isNumberFor_dropTrailingZeros (hwhole : AllDigits whole) (hne : whole ≠ [])
    (hfraction : AllDigits fraction) (h : IsExponent exponent)
    (he : readExponent? exponent = some e) :
    IsNumberFor (positional whole fraction e)
      (whole ++ fractionText (dropTrailingZeros fraction) ++ exponent) := by
  rw [← positional_dropTrailingZeros]
  exact isNumberFor_positional hwhole hne (allDigits_dropTrailingZeros hfraction) h he

theorem isNumberFor_split {n : ℕ} (hdigits : AllDigits digits) (hn : 0 < n)
    (hlength : n ≤ digits.length) (h : IsExponent exponent) (he : readExponent? exponent = some e) :
    IsNumberFor (Nat.ofDigitChars 10 digits 0 * 10 ^ (e - (digits.length - n)))
      (digits.take n ++ fractionText (dropTrailingZeros (digits.drop n)) ++ exponent) := by
  have hvalue : positional (digits.take n) (digits.drop n) e =
      Nat.ofDigitChars 10 digits 0 * 10 ^ (e - (digits.length - n)) := by
    rw [positional, List.take_append_drop, List.length_drop, Nat.cast_sub hlength]
  rw [← hvalue]
  apply isNumberFor_dropTrailingZeros _ _ _ h he
  · exact fun c hc => hdigits c (List.mem_of_mem_take hc)
  · rw [Ne, List.take_eq_nil_iff]
    rintro (rfl | rfl)
    · omega
    · exact absurd (hn.trans_le hlength) (Nat.lt_irrefl 0)
  · exact fun c hc => hdigits c (List.mem_of_mem_drop hc)

/-- A number in general notation is read as its digits, with the leading one at its place. -/
theorem isNumberFor_layout {places : ℕ} (hdigits : AllDigits digits)
    (hlength : digits.length = places) (hplaces : 0 < places) (lead : ℤ) :
    IsNumberFor (Nat.ofDigitChars 10 digits 0 * 10 ^ (lead - ((places : ℤ) - 1)))
      (layout places digits lead) := by
  unfold layout
  split
  · have hone : 1 ≤ digits.length := by omega
    have hread := readExponent_exponentText lead
    rw [← hlength, ← Nat.cast_one]
    exact isNumberFor_split hdigits Nat.one_pos hone (isExponent_exponentText lead) hread
  · split
    · -- Zeros between the point and the digits.
      obtain ⟨k, hk⟩ : ∃ k : ℕ, lead = -(k + 1 : ℤ) := ⟨(-lead - 1).toNat, by omega⟩
      have hzeros : (-lead - 1).toNat = k := by omega
      have hvalue : positional ['0'] (List.replicate k '0' ++ dropTrailingZeros digits) 0 =
          Nat.ofDigitChars 10 digits 0 * 10 ^ (lead - ((places : ℤ) - 1)) := by
        rw [positional_append, positional_dropTrailingZeros, positional, List.singleton_append,
          ← List.replicate_succ, ofDigitChars_zeros, List.length_replicate, hlength, hk]
        congr 2
        omega
      have hkept : AllDigits (dropTrailingZeros digits) := allDigits_dropTrailingZeros hdigits
      have hzero : AllDigits ['0'] := fun c hc => by
        rw [List.mem_singleton.1 hc]
        decide
      have hnumber := isNumberFor_positional hzero nofun (allDigits_zeros k hkept) .absent rfl
      rw [hzeros, ← hvalue]
      rwa [List.append_nil] at hnumber
    · have hn : (0 : ℤ) - (digits.length - (lead.toNat + 1 : ℕ)) = lead - ((places : ℤ) - 1) := by
        omega
      rw [← hn, ← List.append_nil (_ ++ _)]
      exact isNumberFor_split hdigits (Nat.succ_pos _) (by omega) .absent rfl

theorem isNumberFor_digitChars (n : ℕ) : IsNumberFor n (digitChars n) := by
  have hdigits := allDigits_digitChars n
  have hne : digitChars n ≠ [] := Nat.toDigits_ne_nil
  refine ⟨isNumber_of_allDigits hne hdigits, fun negative => ⟨⟨negative, n, 0⟩, ?_, rfl, ?_⟩⟩
  · have hread := readUnsigned_whole negative hdigits hne .absent
    rwa [List.append_nil, digitChars, Nat.ofDigitChars_ten_toDigits] at hread
  · rw [magnitude, zpow_zero, mul_one]

/-! ## Texts of decimals and integers -/

theorem read_general {places : ℕ} {d : Decimal} (hplaces : 0 < places)
    (hlow : 10 ^ (places - 1) ≤ d.digits) (hhigh : d.digits < 10 ^ places) :
    ∃ e, read? (general places d) = some e ∧ readDouble? (general places d) = some e.toDouble ∧
      e.negative = d.negative ∧ e.magnitude = d.magnitude := by
  have hlength := length_digitChars hplaces hlow hhigh
  have hpos : 0 < 10 ^ (places - 1) := by positivity
  have hlayout := isNumberFor_layout (allDigits_digitChars d.digits) hlength hplaces
    (d.exponent + ((digitChars d.digits).length - 1 : ℕ))
  have hexponent : d.exponent + ((digitChars d.digits).length - 1 : ℕ) - ((places : ℤ) - 1) =
      d.exponent := by omega
  rw [hexponent, digitChars, Nat.ofDigitChars_ten_toDigits, ← magnitude] at hlayout
  rw [general, if_neg (by omega)]
  exact hlayout.read_signed d.negative

theorem read_write (n : ℤ) :
    ∃ e, read? (IntegerText.write n).toList = some e ∧
      readDouble? (IntegerText.write n).toList = some e.toDouble ∧
      e.negative = decide (n < 0) ∧ e.magnitude = n.natAbs := by
  have htext : (IntegerText.write n).toList = signText (decide (n < 0)) ++ digitChars n.natAbs := by
    rw [IntegerText.toList_write, signText]
    split <;> simp_all [digitChars]
  rw [htext]
  exact (isNumberFor_digitChars n.natAbs).read_signed _

end Numbers

end PolarCalc.Decimal
