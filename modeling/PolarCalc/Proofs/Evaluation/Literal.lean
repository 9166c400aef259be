import PolarCalc.Proofs.Evaluation.Outcome
import PolarCalc.Proofs.Grammar.Condensed
import PolarCalc.Proofs.Integer.Literal
/-!
# Literals have values

The number tokens of the grammar and the decimal texts that are read as doubles
are described apart from each other.  Every number token is such a text, so that
a number literal always has a value; an integer literal has one unless it is too
long.
-/

namespace PolarCalc

open PolarCalc.Text PolarCalc.Grammar
open Outcome (Within)
open Failure (IsForeseen)

namespace Decimal

variable {text whole fraction exponent : List Char}

theorem endsDigits_of_mem {c : Char} (h : c ∈ ['.', 'e', 'E']) :
    digitValue? c = none ∧ c ≠ '_' := by
  simp only [List.mem_cons, List.not_mem_nil, or_false] at h
  rcases h with rfl | rfl | rfl
  · exact ⟨digitValue?_eq_none (by decide) (by decide), by decide⟩
  · exact ⟨digitValue?_eq_none (by decide) (by decide), by decide⟩
  · exact ⟨digitValue?_eq_none (by decide) (by decide), by decide⟩

theorem head?_exponent (h : IsExponent exponent) : ∀ c ∈ exponent.head?, c ∈ ['e', 'E'] := by
  cases h with
  | absent => exact nofun
  | present hletter =>
      rintro _ ⟨⟩
      simpa using hletter

theorem readDigits_exponent (htext : AllDigits text) (h : IsExponent exponent) :
    readDigits (text ++ exponent) = (text.map fun c => c.toNat - '0'.toNat, exponent) := by
  apply readDigits_append htext
  intro c hc
  exact endsDigits_of_mem (List.mem_cons_of_mem '.' (head?_exponent h c hc))

theorem exists_readSign {sign digits : List Char} (hsign : sign ∈ [[], ['+'], ['-']])
    (hdigits : AllDigits digits) : ∃ negative, readSign (sign ++ digits) = (negative, digits) := by
  simp only [List.mem_cons, List.not_mem_nil, or_false] at hsign
  rcases hsign with rfl | rfl | rfl
  · exact ⟨false, readSign_of_allDigits hdigits⟩
  · exact ⟨false, rfl⟩
  · exact ⟨true, rfl⟩

theorem isSome_readExponent (h : IsExponent exponent) : (readExponent? exponent).isSome = true := by
  cases h with
  | absent => rfl
  | @present letter sign digits hletter hsign hne hdigits =>
      obtain ⟨negative, hread⟩ := exists_readSign hsign hdigits
      obtain ⟨d, digits, rfl⟩ := List.exists_cons_of_ne_nil hne
      rw [readExponent?, if_pos hletter, hread]
      simp only [readDigits_of_allDigits hdigits, List.map_cons]
      rfl

theorem readUnsigned_whole (negative : Bool) (hwhole : AllDigits whole) (hne : whole ≠ [])
    (h : IsExponent exponent) :
    readUnsigned? negative (whole ++ exponent) =
      (readExponent? exponent).map fun e => ⟨negative, Nat.ofDigitChars 10 whole 0, e⟩ := by
  have hpoint : ∀ rest, exponent ≠ '.' :: rest := by
    rintro rest rfl
    exact absurd (head?_exponent h '.' rfl) (by decide)
  have hdigits : (whole.map fun c => c.toNat - '0'.toNat).isEmpty = false := by
    simpa using hne
  simp only [readUnsigned?, readDigits_exponent hwhole h, hdigits, Bool.false_and]
  rw [if_neg Bool.false_ne_true]
  simp only [List.append_nil, List.length_nil, Int.natCast_zero, Int.sub_zero, ofDigits_map]

theorem readUnsigned_point (negative : Bool) (hwhole : AllDigits whole)
    (hfraction : AllDigits fraction) (hne : whole ≠ [] ∨ fraction ≠ []) (h : IsExponent exponent) :
    readUnsigned? negative (whole ++ '.' :: (fraction ++ exponent)) =
      (readExponent? exponent).map fun e =>
        ⟨negative, Nat.ofDigitChars 10 (whole ++ fraction) 0, e - fraction.length⟩ := by
  have hfirst : readDigits (whole ++ '.' :: (fraction ++ exponent)) =
      (whole.map fun c => c.toNat - '0'.toNat, '.' :: (fraction ++ exponent)) := by
    apply readDigits_append hwhole
    rintro _ ⟨⟩
    exact endsDigits_of_mem List.mem_cons_self
  have hdigits : ¬ ((whole.map fun c => c.toNat - '0'.toNat).isEmpty &&
      (fraction.map fun c => c.toNat - '0'.toNat).isEmpty) = true := by
    simpa [← not_or, imp_iff_not_or] using hne
  simp only [readUnsigned?, hfirst, readDigits_exponent hfraction h]
  rw [if_neg hdigits]
  simp only [← List.map_append, ofDigits_map, List.length_map]

theorem isSome_readUnsigned (negative : Bool) (h : IsNumber text) :
    (readUnsigned? negative text).isSome = true := by
  obtain ⟨mantissa, exponent, rfl, hmantissa, hexponent⟩ := h
  cases hmantissa with
  | whole hne hwhole =>
      rw [readUnsigned_whole negative hwhole hne hexponent, Option.isSome_map]
      exact isSome_readExponent hexponent
  | point hne hwhole hfraction =>
      rw [List.append_assoc, List.cons_append,
        readUnsigned_point negative hwhole hfraction (.inl hne) hexponent, Option.isSome_map]
      exact isSome_readExponent hexponent
  | @fraction fraction hne hfraction =>
      have hnone : AllDigits [] := nofun
      show (readUnsigned? negative ([] ++ '.' :: (fraction ++ exponent))).isSome = true
      rw [readUnsigned_point negative hnone hfraction (.inr hne) hexponent, Option.isSome_map]
      exact isSome_readExponent hexponent

theorem readSign_of_isNumber (h : IsNumber text) : readSign text = (false, text) := by
  obtain ⟨c, rest, rfl, hc⟩ := h.head
  unfold readSign
  split
  · next heq =>
      obtain rfl := (List.cons.inj heq).1
      exact absurd hc (by decide)
  · next heq =>
      obtain rfl := (List.cons.inj heq).1
      exact absurd hc (by decide)
  · rfl

theorem trimPadding_of_isNumber (h : IsNumber text) : trimPadding text = text := by
  refine trimBoth_of_forall fun c hc => ?_
  rw [isPadding, (plain_of_isNumber h c hc).1, Bool.false_and]

/-- Every number token is read as a double. -/
theorem isSome_readDouble (h : IsNumber text) : (readDouble? text).isSome = true := by
  simp only [readDouble?, trimPadding_of_isNumber h, readSign_of_isNumber h]
  split
  · rfl
  · split
    · rfl
    · rw [Option.isSome_map]
      exact isSome_readUnsigned false h

end Decimal

/-! ## The values of literals -/

theorem numberValue_within {text : String} (h : IsNumber text.toList) :
    Within (fun v => ∃ z, v = .scalar z) IsForeseen (numberValue text) := by
  obtain ⟨x, hx⟩ := Option.isSome_iff_exists.1 (Decimal.isSome_readDouble h)
  rw [numberValue, hx]
  exact .ok ⟨_, rfl⟩

theorem integerValue_within {text : String} (h : IsInteger text.toList) :
    Within (fun v => ∃ z, v = .scalar z) IsForeseen (integerValue text) := by
  have hliteral : IsLiteral text := by simpa using IsLiteral.of_isInteger h
  rw [hliteral.integerValue_eq]
  exact Outcome.within_ite (fun _ => .ok ⟨_, rfl⟩) fun _ => .error (.capacity .tooManyDigits)

end PolarCalc
