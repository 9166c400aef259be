import PolarCalc.Proofs.Evaluation.Outcome
import PolarCalc.Proofs.Integer.Text
/-!
# How the texts of values begin

The text of a value begins with a digit, a minus sign, a bracket or a small
letter of `inf` and `nan`, and that of the impossible value with its own word:
never as the report of an error does.  Writing a value fails only for the size
of a number.
-/

namespace PolarCalc

open Outcome Failure

/-- The text has a first character, and that is not the capital E. -/
def BeginsApart (text : List Char) : Prop := ∃ c rest, text = c :: rest ∧ c ≠ 'E'

theorem BeginsApart.append {text : List Char} (h : BeginsApart text) (rest : List Char) :
    BeginsApart (text ++ rest) := by
  obtain ⟨c, more, rfl, hc⟩ := h
  exact ⟨c, more ++ rest, rfl, hc⟩

theorem BeginsApart.take {text : List Char} (h : BeginsApart text) (n : Nat) :
    BeginsApart (text.take (n + 1)) := by
  obtain ⟨c, more, rfl, hc⟩ := h
  exact ⟨c, more.take n, rfl, hc⟩

/-! ## Numbers -/

theorem beginsApart_toDigits (n : Nat) : BeginsApart (Nat.toDigits 10 n) := by
  obtain ⟨c, rest, hdigits⟩ := List.exists_cons_of_ne_nil (Nat.toDigits_ne_nil (n := n) (b := 10))
  refine ⟨c, rest, hdigits, ?_⟩
  have hdigit : c.isDigit = true := by
    apply IntegerText.isDigit_of_mem_toDigits (k := n)
    rw [hdigits]
    exact List.mem_cons_self
  rintro rfl
  exact absurd hdigit (by decide)

theorem beginsApart_write (n : Int) : BeginsApart (IntegerText.write n).toList := by
  rw [IntegerText.toList_write]
  split
  · exact ⟨'-', _, rfl, by decide⟩
  · exact beginsApart_toDigits _

namespace Decimal

theorem beginsApart_layout (places n : Nat) (lead : Int) :
    BeginsApart (layout places (digitChars n) lead) := by
  rw [layout]
  split
  · exact (((beginsApart_toDigits n).take 0).append _).append _
  · split
    · exact ⟨'0', _, rfl, by decide⟩
    · exact ((beginsApart_toDigits n).take _).append _

theorem beginsApart_general (places : Nat) (d : Decimal) : BeginsApart (general places d) := by
  have hsigned (negative : Bool) {text : List Char} (h : BeginsApart text) :
      BeginsApart ((if negative = true then ['-'] else []) ++ text) := by
    cases negative with
    | false => exact h
    | true => exact ⟨'-', text, rfl, by decide⟩
  by_cases hzero : d.digits = 0
  · rw [general, if_pos hzero]
    exact hsigned d.negative ⟨'0', [], rfl, by decide⟩
  · rw [general, if_neg hzero]
    exact hsigned d.negative (beginsApart_layout _ _ _)

theorem beginsApart_generalText (places : Nat) (x : Double) :
    BeginsApart (generalText places x) := by
  cases x with
  | nan => exact ⟨'n', _, rfl, by decide⟩
  | infinite negative =>
      cases negative with
      | false => exact ⟨'i', _, rfl, by decide⟩
      | true => exact ⟨'-', _, rfl, by decide⟩
  | finite negative units fits => exact beginsApart_general _ _

end Decimal

theorem beginsApart_realText (x : Double) : BeginsApart (realText x).toList := by
  simp only [realText]
  split
  · exact beginsApart_write _
  · rw [String.toList_ofList]
    exact Decimal.beginsApart_generalText _ _

/-! ## Values -/

theorem IntegerText.tryWrite_within (n : Int) :
    Within (fun t => BeginsApart t.toList) IsCapacity (tryWrite n) := by
  by_cases hn : IsWritable n
  · rw [tryWrite_of_isWritable hn]
    exact .ok (beginsApart_write n)
  · rw [tryWrite_of_not_isWritable hn]
    exact .error .tooManyDigits

theorem FloatScalar.beginsApart_text (z : FloatScalar) : BeginsApart z.text.toList := by
  simp only [FloatScalar.text]
  split
  · exact beginsApart_realText _
  · rw [String.toList_append, String.toList_append]
    exact ((beginsApart_realText _).append _).append _

theorem IntScalar.text_within (z : IntScalar) :
    Within (fun t => BeginsApart t.toList) IsCapacity z.text := by
  refine z.toCartesian_fails.bind fun parts _ => ?_
  refine (IntegerText.tryWrite_within _).bind fun real hreal => ?_
  refine within_ite (fun _ => .ok hreal) fun _ => ?_
  refine (IntegerText.tryWrite_within _).map fun lateral _ => ?_
  rw [String.toList_append, String.toList_append]
  exact (hreal.append _).append _

namespace Value

theorem itemsText_fails {items : List Value} (h : ∀ item ∈ items, Fails IsCapacity item.text) :
    Fails IsCapacity (itemsText items) := by
  induction items with
  | nil => exact .ok trivial
  | cons item items ih =>
      refine (h item List.mem_cons_self).bind fun _ _ => ?_
      exact (ih fun next hnext => h next (List.mem_cons_of_mem item hnext)).map fun _ _ => trivial

theorem text_within (v : Value) : Within (fun t => BeginsApart t.toList) IsCapacity v.text := by
  induction v using Value.induct with
  | scalar z =>
      cases z with
      | float z => exact .ok z.beginsApart_text
      | integer z => exact z.text_within
  | list items ih =>
      refine (itemsText_fails fun item hitem => (ih item hitem).fails).map fun inside _ => ?_
      rw [String.toList_append, String.toList_append]
      exact ⟨'[', _, rfl, by decide⟩
  | impossible => exact .ok ⟨'I', _, rfl, by decide⟩

end Value

end PolarCalc
