import PolarCalc.Number.IntegerText
/-!
# The text of an integer

An integer is written by the digits of its magnitude, behind a minus sign if it is
negative.  Different integers have different texts.
-/

namespace PolarCalc.IntegerText

theorem toList_write (n : Int) :
    (write n).toList =
      if n < 0 then '-' :: Nat.toDigits 10 n.natAbs else Nat.toDigits 10 n.natAbs := by
  rw [write, Int.toString_eq_repr, Int.repr_eq_if]
  by_cases hn : n < 0
  · have habs : (-n).toNat = n.natAbs := by omega
    rw [if_neg (by omega), if_pos hn, String.toList_append, Nat.toList_repr, habs]
    rfl
  · have habs : n.toNat = n.natAbs := by omega
    rw [if_pos (by omega), if_neg hn, Nat.toList_repr, habs]

theorem isDigit_of_mem_toDigits {k : Nat} {c : Char} (h : c ∈ Nat.toDigits 10 k) :
    c.isDigit = true :=
  Nat.isDigit_of_mem_toDigits (by omega) (by omega) h

theorem natAbs_eq_of_toDigits {m n : Int}
    (h : Nat.toDigits 10 m.natAbs = Nat.toDigits 10 n.natAbs) : m.natAbs = n.natAbs := by
  have hm := Nat.ofDigitChars_ten_toDigits (n := m.natAbs)
  rw [h, Nat.ofDigitChars_ten_toDigits] at hm
  exact hm.symm

theorem toDigits_ne_minus {k : Nat} {text : List Char} : Nat.toDigits 10 k ≠ '-' :: text := by
  intro h
  have hdigit : ('-' : Char).isDigit = true := by
    apply isDigit_of_mem_toDigits (k := k)
    rw [h]
    exact List.mem_cons_self
  exact absurd hdigit (by decide)

theorem write_inj {m n : Int} (h : write m = write n) : m = n := by
  have htext := congrArg String.toList h
  rw [toList_write, toList_write] at htext
  by_cases hm : m < 0
  · by_cases hn : n < 0
    · rw [if_pos hm, if_pos hn] at htext
      have habs := natAbs_eq_of_toDigits (List.cons.inj htext).2
      omega
    · rw [if_pos hm, if_neg hn] at htext
      exact absurd htext.symm toDigits_ne_minus
  · by_cases hn : n < 0
    · rw [if_neg hm, if_pos hn] at htext
      exact absurd htext toDigits_ne_minus
    · rw [if_neg hm, if_neg hn] at htext
      have habs := natAbs_eq_of_toDigits htext
      omega

theorem mem_write {n : Int} {c : Char} (h : c ∈ (write n).toList) :
    c.isDigit = true ∨ c = '-' := by
  rw [toList_write] at h
  split at h
  · rcases List.mem_cons.1 h with rfl | h
    · exact .inr rfl
    · exact .inl (isDigit_of_mem_toDigits h)
  · exact .inl (isDigit_of_mem_toDigits h)

theorem write_eq_zero_iff (n : Int) : write n = "0" ↔ n = 0 := by
  constructor
  · intro h
    apply write_inj
    rw [h]
    rfl
  · rintro rfl
    rfl

theorem eq_write_of_tryWrite {n : Int} {text : String} (h : tryWrite n = .ok text) :
    text = write n := by
  unfold tryWrite at h
  split at h
  · exact (Except.ok.inj h).symm
  · cases h

end PolarCalc.IntegerText
