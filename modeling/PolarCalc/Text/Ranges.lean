/-!
# Sets of code points

A character property is held as an ascending list of closed intervals of code
points.  The search stops at the first interval that begins beyond the
character, so a property of the low code points is decided early.
-/

namespace PolarCalc.Text

/-- Ascending closed intervals `(first, last)` of code points. -/
abbrev Ranges := List (Nat × Nat)

namespace Ranges

/-- Is the code point in one of the intervals? -/
def contains : Ranges → Nat → Bool
  | [], _ => false
  | (first, last) :: rest, code =>
      if code < first then false
      else decide (code ≤ last) || contains rest code

@[simp] theorem contains_nil (code : Nat) : contains [] code = false := rfl

theorem contains_cons_of_lt {first last code : Nat} {rest : Ranges}
    (h : code < first) : contains ((first, last) :: rest) code = false := by
  simp [contains, h]

theorem exists_mem_of_contains {ranges : Ranges} {code : Nat}
    (h : ranges.contains code = true) :
    ∃ r ∈ ranges, r.1 ≤ code ∧ code ≤ r.2 := by
  induction ranges with
  | nil => simp at h
  | cons r rest ih =>
      obtain ⟨first, last⟩ := r
      simp only [contains] at h
      split at h
      · exact absurd h (by simp)
      · rename_i hfirst
        simp only [Bool.or_eq_true, decide_eq_true_eq] at h
        rcases h with hlast | hrest
        · exact ⟨(first, last), by simp, by omega, hlast⟩
        · obtain ⟨r, hmem, hr⟩ := ih hrest
          exact ⟨r, by simp [hmem], hr⟩

end Ranges

end PolarCalc.Text
