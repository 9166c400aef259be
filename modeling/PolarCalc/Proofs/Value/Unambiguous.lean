import Mathlib.Data.List.Forall2
import PolarCalc.Proofs.Evaluation.Text
import PolarCalc.Proofs.Grammar.Token
/-!
# The texts of integer data

The text of a value whose leaves are integers tells the value apart from every other
such value, up to the length and angle that an integer has besides its cartesian
parts.  The text of one item ends where the next space follows it, so that brackets,
signs and spaces are read back without looking ahead.
-/

namespace PolarCalc

open PolarCalc.Grammar (run_unique)

namespace Value

/-- All leaves of the value, at any depth, are integers. -/
inductive Integral : Value → Prop
  | integer (z : IntScalar) : Integral (.integer z)
  | list {items : List Value} : (∀ item ∈ items, Integral item) → Integral (.list items)

/-- The values are nested alike, and leaves at the same place are integers with the same
cartesian parts. -/
inductive Matches : Value → Value → Prop
  | integer {z w : IntScalar} {parts : Cartesian Int} : z.toCartesian = .ok parts →
      w.toCartesian = .ok parts → Matches (.integer z) (.integer w)
  | list {items others : List Value} : List.Forall₂ Matches items others →
      Matches (.list items) (.list others)

end Value

/-! ## Numbers -/

/-- A character of the text of an integer scalar. -/
def isNumeral (c : Char) : Bool := c.isDigit || c == '-' || c == '+' || c == 'j'

theorem IntegerText.isNumeral_of_mem_write {n : Int} {c : Char} (h : c ∈ (write n).toList) :
    isNumeral c = true := by
  rcases mem_write h with h | rfl
  · simp [isNumeral, h]
  · rfl

namespace IntScalar

/-- What is written of a lateral part. -/
def lateralText (n : Int) : List Char :=
  if n = 0 then [] else lateralMark.toList ++ (IntegerText.write n).toList

theorem lateralText_inj {m n : Int} (h : lateralText m = lateralText n) : m = n := by
  unfold lateralText at h
  by_cases hm : m = 0
  · by_cases hn : n = 0
    · rw [hm, hn]
    · rw [if_pos hm, if_neg hn] at h
      cases h
  · by_cases hn : n = 0
    · rw [if_neg hm, if_pos hn] at h
      cases h
    · rw [if_neg hm, if_neg hn] at h
      exact IntegerText.write_inj (String.toList_inj.1 (List.append_cancel_left h))

theorem isNumeral_of_mem_lateralText {n : Int} {c : Char} (h : c ∈ lateralText n) :
    isNumeral c = true := by
  unfold lateralText at h
  split at h
  · cases h
  · rcases List.mem_append.1 h with h | h
    · have hmark : ∀ d ∈ lateralMark.toList, isNumeral d = true :=
        List.all_eq_true.1 (by decide : lateralMark.toList.all isNumeral = true)
      exact hmark c h
    · exact IntegerText.isNumeral_of_mem_write h

/-- The real part ends where the lateral one begins with its sign. -/
theorem parts_unique {a b : Cartesian Int}
    (h : (IntegerText.write a.real).toList ++ lateralText a.lateral =
      (IntegerText.write b.real).toList ++ lateralText b.lateral) : a = b := by
  have hreal (n : Int) : ∀ c ∈ (IntegerText.write n).toList, (c != '+') = true := by
    intro c hc
    rcases IntegerText.mem_write hc with hdigit | rfl
    · rw [bne_iff_ne]
      rintro rfl
      exact absurd hdigit (by decide)
    · rfl
  have hlateral (n : Int) : ∀ c ∈ (lateralText n).head?, (c != '+') = false := by
    unfold lateralText
    split
    · nofun
    · rintro _ ⟨⟩
      rfl
  obtain ⟨hwrite, hrest⟩ :=
    run_unique (hreal a.real) (hreal b.real) (hlateral a.lateral) (hlateral b.lateral) h
  have hsame : a.real = b.real := IntegerText.write_inj (String.toList_inj.1 hwrite)
  calc
    a = ⟨a.real, a.lateral⟩ := rfl
    _ = ⟨b.real, b.lateral⟩ := by rw [hsame, lateralText_inj hrest]

theorem toList_text {z : IntScalar} {t : String} (h : z.text = .ok t) :
    ∃ parts, z.toCartesian = .ok parts ∧
      t.toList = (IntegerText.write parts.real).toList ++ lateralText parts.lateral := by
  obtain ⟨parts, hparts, h⟩ := Outcome.bind_eq_ok h
  obtain ⟨real, hreal, h⟩ := Outcome.bind_eq_ok h
  refine ⟨parts, hparts, ?_⟩
  unfold lateralText
  split at h
  · rename_i hzero
    rw [if_pos hzero, List.append_nil, ← IntegerText.eq_write_of_tryWrite hreal,
      Except.ok.inj h]
  · rename_i hzero
    obtain ⟨lateral, hlateral, h⟩ := Outcome.bind_eq_ok h
    rw [if_neg hzero, ← IntegerText.eq_write_of_tryWrite hreal,
      ← IntegerText.eq_write_of_tryWrite hlateral, ← Except.ok.inj h]
    simp only [String.toList_append, List.append_assoc]

theorem isNumeral_of_mem_text {z : IntScalar} {t : String} (h : z.text = .ok t) :
    ∀ c ∈ t.toList, isNumeral c = true := by
  obtain ⟨parts, -, htext⟩ := toList_text h
  intro c hc
  rw [htext] at hc
  rcases List.mem_append.1 hc with hc | hc
  · exact IntegerText.isNumeral_of_mem_write hc
  · exact isNumeral_of_mem_lateralText hc

end IntScalar

/-! ## Values -/

namespace Value

variable {items others : List Value} {item v w : Value} {t u : String} {r s : List Char}

theorem toList_text_list (h : (list items).text = .ok t) :
    ∃ inside, itemsText items = .ok inside ∧
      t.toList = '[' :: ' ' :: (inside.toList ++ [']']) := by
  obtain ⟨inside, hinside, h⟩ := Outcome.bind_eq_ok h
  refine ⟨inside, hinside, ?_⟩
  rw [← Except.ok.inj h, String.toList_append, String.toList_append]
  rfl

theorem toList_itemsText_cons (h : itemsText (item :: items) = .ok t) :
    ∃ first rest, item.text = .ok first ∧ itemsText items = .ok rest ∧
      t.toList = first.toList ++ ' ' :: rest.toList := by
  obtain ⟨first, hfirst, h⟩ := Outcome.bind_eq_ok h
  obtain ⟨rest, hrest, h⟩ := Outcome.bind_eq_ok h
  refine ⟨first, rest, hfirst, hrest, ?_⟩
  rw [← Except.ok.inj h]
  simp only [String.toList_append, List.append_assoc]
  rfl

/-- The first character tells a number from a list, and both from the end of one. -/
theorem Integral.opens (hv : Integral v) (h : v.text = .ok t) :
    ∃ c rest, t.toList = c :: rest ∧ (isNumeral c = true ∨ c = '[') := by
  cases hv with
  | integer z =>
      obtain ⟨c, rest, htext, -⟩ : BeginsApart t.toList := by
        have hwithin := z.text_within
        rw [show z.text = .ok t from h] at hwithin
        exact hwithin.of_ok
      refine ⟨c, rest, htext, .inl (IntScalar.isNumeral_of_mem_text h c ?_)⟩
      rw [htext]
      exact List.mem_cons_self
  | list hitems =>
      obtain ⟨inside, -, htext⟩ := toList_text_list h
      exact ⟨'[', _, htext, .inr rfl⟩

theorem integer_ne_list {z : IntScalar} (hz : (integer z).text = .ok t)
    (hlist : (list items).text = .ok u) (hr : t.toList ++ r = u.toList ++ s) : False := by
  obtain ⟨inside, -, htext⟩ := toList_text_list hlist
  obtain ⟨c, rest, hfirst, -⟩ := (Integral.integer z).opens hz
  rw [hfirst, htext] at hr
  have hc : c = '[' := (List.cons.inj hr).1
  have hnumeral : isNumeral c = true := by
    apply IntScalar.isNumeral_of_mem_text hz
    rw [hfirst]
    exact List.mem_cons_self
  rw [hc] at hnumeral
  exact absurd hnumeral (by decide)

theorem integer_text_unique {z z' : IntScalar} (hz : (integer z).text = .ok t)
    (hz' : (integer z').text = .ok u) (h : t.toList ++ ' ' :: r = u.toList ++ ' ' :: s) :
    Matches (integer z) (integer z') ∧ r = s := by
  have hspace (l : List Char) : ∀ c ∈ (' ' :: l).head?, isNumeral c = false := by
    rintro _ ⟨⟩
    rfl
  obtain ⟨htexts, hrest⟩ := run_unique (IntScalar.isNumeral_of_mem_text hz)
    (IntScalar.isNumeral_of_mem_text hz') (hspace r) (hspace s) h
  obtain ⟨parts, hparts, ht⟩ := IntScalar.toList_text hz
  obtain ⟨parts', hparts', hu⟩ := IntScalar.toList_text hz'
  have hsame : parts = parts' := by
    apply IntScalar.parts_unique
    rw [← ht, ← hu, htexts]
  rw [← hsame] at hparts'
  exact ⟨.integer hparts hparts', (List.cons.inj hrest).2⟩

theorem itemsText_unique (hothers : ∀ other ∈ others, Integral other)
    (hitems : ∀ item ∈ items, Integral item)
    (ih : ∀ item ∈ items, ∀ {other t u r s}, Integral other → item.text = .ok t →
      other.text = .ok u → t.toList ++ ' ' :: r = u.toList ++ ' ' :: s →
        Matches item other ∧ r = s)
    (ht : itemsText items = .ok t) (hu : itemsText others = .ok u)
    (h : t.toList ++ ']' :: r = u.toList ++ ']' :: s) :
    List.Forall₂ Matches items others ∧ r = s := by
  have hopens {v : Value} {first : String} {after behind : List Char} (hv : Integral v)
      (hfirst : v.text = .ok first) : ']' :: behind ≠ first.toList ++ after := by
    obtain ⟨c, rest, htext, hc⟩ := hv.opens hfirst
    intro heq
    rw [htext] at heq
    obtain rfl : ']' = c := (List.cons.inj heq).1
    exact absurd hc (by decide)
  induction items generalizing others t u with
  | nil =>
      cases others with
      | nil =>
          cases ht
          cases hu
          exact ⟨.nil, (List.cons.inj h).2⟩
      | cons other others =>
          cases ht
          obtain ⟨first, rest, hfirst, -, htext⟩ := toList_itemsText_cons hu
          rw [htext, List.append_assoc] at h
          exact absurd h (hopens (hothers other List.mem_cons_self) hfirst)
  | cons item items items_ih =>
      obtain ⟨first, rest, hfirst, hrest, htext⟩ := toList_itemsText_cons ht
      rw [htext, List.append_assoc, List.cons_append] at h
      cases others with
      | nil =>
          cases hu
          exact absurd h.symm (hopens (hitems item List.mem_cons_self) hfirst)
      | cons other others =>
          obtain ⟨first', rest', hfirst', hrest', htext'⟩ := toList_itemsText_cons hu
          rw [htext', List.append_assoc, List.cons_append] at h
          obtain ⟨hmatch, hbehind⟩ := ih item List.mem_cons_self
            (hothers other List.mem_cons_self) hfirst hfirst' h
          obtain ⟨hmatches, hend⟩ := items_ih
            (fun v hv => hothers v (List.mem_cons_of_mem other hv))
            (fun v hv => hitems v (List.mem_cons_of_mem item hv))
            (fun v hv => ih v (List.mem_cons_of_mem item hv)) hrest hrest' hbehind
          exact ⟨.cons hmatch hmatches, hend⟩

/-- The text of a value with a space behind it tells the value and where it ends. -/
theorem text_unique (hv : Integral v) (hw : Integral w) (ht : v.text = .ok t)
    (hu : w.text = .ok u) (h : t.toList ++ ' ' :: r = u.toList ++ ' ' :: s) :
    Matches v w ∧ r = s := by
  induction hv generalizing w t u r s with
  | integer z =>
      cases hw with
      | integer z' => exact integer_text_unique ht hu h
      | list _ => exact (integer_ne_list ht hu h).elim
  | @list items hitems ih =>
      cases hw with
      | integer z' => exact (integer_ne_list hu ht h.symm).elim
      | @list others hothers =>
          obtain ⟨inside, hinside, htext⟩ := toList_text_list ht
          obtain ⟨inside', hinside', htext'⟩ := toList_text_list hu
          have hbrackets : inside.toList ++ ']' :: ' ' :: r =
              inside'.toList ++ ']' :: ' ' :: s := by
            simpa [htext, htext'] using h
          obtain ⟨hmatches, hend⟩ := itemsText_unique hothers hitems
            (fun item hitem => ih item hitem) hinside hinside' hbrackets
          exact ⟨.list hmatches, (List.cons.inj hend).2⟩

/-- Values of integers that are written alike are nested alike, and their leaves have the
same cartesian parts, place by place. -/
theorem matches_of_text_eq (hv : Integral v) (hw : Integral w) (ht : v.text = .ok t)
    (hu : w.text = .ok t) : Matches v w :=
  (text_unique (r := []) (s := []) hv hw ht hu rfl).1

/-- Half a turn added to the angle and the sign of the length changed: another scalar, the
same text. -/
theorem matches_of_text_eq_nested :
    let v := list [list [], integer ⟨-3, 180⟩, list [integer ⟨2, 90⟩]]
    let w := list [list [], integer ⟨3, 0⟩, list [integer ⟨-2, 270⟩]]
    v ≠ w ∧ v.text = .ok "[ [ ] 3 [ 0+j2 ] ]" ∧ w.text = .ok "[ [ ] 3 [ 0+j2 ] ]" ∧
      Matches v w := by
  intro v w
  have hv : Integral v := .list (by
    simp only [List.forall_mem_cons]
    exact ⟨.list nofun, .integer _, .list (by simpa using .integer _), nofun⟩)
  have hw : Integral w := .list (by
    simp only [List.forall_mem_cons]
    exact ⟨.list nofun, .integer _, .list (by simpa using .integer _), nofun⟩)
  have hvText : v.text = .ok "[ [ ] 3 [ 0+j2 ] ]" := by decide +kernel
  have hwText : w.text = .ok "[ [ ] 3 [ 0+j2 ] ]" := by decide +kernel
  exact ⟨by simp [v, w, integer], hvText, hwText, matches_of_text_eq hv hw hvText hwText⟩

end Value

end PolarCalc
