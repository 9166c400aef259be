import Mathlib.Data.List.Forall2
import PolarCalc.Proofs.Grammar.Lexeme
/-!
# Where failures stand

Every failure that a rule raises names a place in the text, what stands there and
what was expected; alternatives that are merged, and failures that are only
remembered, keep to that.  The judgement `Alike` carries it through the rules
together with three more facts: a rule that succeeds has moved on, what it reads
does not depend on how much room the rules inside it were given, and no failure
from which it recovered went unnoted.
-/

namespace PolarCalc

namespace Grammar

theorem distinct_ne_nil {xs : List String} (h : xs ≠ []) : distinct xs ≠ [] := by
  cases xs with
  | nil => exact absurd rfl h
  | cons x xs => exact List.cons_ne_nil _ _

theorem nodup_distinct (xs : List String) : (distinct xs).Nodup := by
  induction xs with
  | nil => exact .nil
  | cons x xs ih =>
      rw [distinct, List.nodup_cons]
      exact ⟨by simp, ih.filter _⟩

/-- The cursor stands in the text. -/
structure Cursor.In (c : Cursor) (text : List Char) : Prop where
  length : c.length = text.length
  here : c.At (text.drop c.pos)

end Grammar

/-- The failure stands at a character of the text or at its end, and says what is there
and what was expected instead.  Text left over is reported in other words. -/
structure SyntaxError.Located (e : SyntaxError) (text : List Char) : Prop where
  start_le : e.start ≤ text.length
  stop_eq : e.stop = min (e.start + 1) text.length
  expected_ne_nil : e.expected ≠ []
  expected_nodup : e.expected.Nodup
  found_eq : e.found = some (Grammar.Cursor.ofText text e.start).describe
  message_head : e.message.toList.head? = some 'E'

namespace SyntaxError

variable {e f : SyntaxError} {text : List Char}

theorem Located.merge (he : e.Located text) (hf : f.Located text) : (e.merge f).Located text := by
  rw [SyntaxError.merge]
  split
  · exact hf
  · split
    · have happend : e.expected ++ f.expected ≠ [] := by simp [he.expected_ne_nil]
      exact { he with
        expected_ne_nil := Grammar.distinct_ne_nil happend
        expected_nodup := Grammar.nodup_distinct _ }
    · exact he

theorem located_expecting {c : Grammar.Cursor} (hc : c.In text) {message : String}
    {expected : List String} (hexpected : expected ≠ [])
    (hmessage : message.toList.head? = some 'E') :
    (expecting c message expected).Located text where
  start_le := by
    have hlength := hc.here.length
    rw [hc.length] at hlength
    exact Nat.le_of_add_right_le (Nat.le_of_eq hlength)
  stop_eq := by rw [expecting, hc.length]
  expected_ne_nil := Grammar.distinct_ne_nil hexpected
  expected_nodup := Grammar.nodup_distinct _
  found_eq := by
    simp only [expecting, Grammar.Cursor.describe, Grammar.Cursor.ofText, hc.here.rest]
  message_head := hmessage

end SyntaxError

namespace Grammar

open PolarCalc.Text

/-! ## Cursors that move on -/

namespace Cursor

variable {c : Cursor} {text word : List Char}

theorem In.pos_le (h : c.In text) : c.pos ≤ text.length := by
  have hlength := h.here.length
  rw [h.length] at hlength
  exact Nat.le_of_add_right_le (Nat.le_of_eq hlength)

theorem in_ofText (text : List Char) : (ofText text 0).In text where
  length := rfl
  here := at_ofText text

theorem In.advance (h : c.In text) {n : Nat} (hn : c.pos + n ≤ text.length) :
    (c.advance n).In text where
  length := h.length
  here := by
    constructor
    · rw [Cursor.advance, h.here.rest, List.drop_drop]
    · simp only [Cursor.advance, List.length_drop, h.length]
      omega

theorem In.behind (h : c.In text) (hword : word <+: text.drop c.pos) :
    (c.behind word.length).In text ∧ c.pos + word.length ≤ (c.behind word.length).pos := by
  obtain ⟨rest, hrest⟩ := hword
  have hhere := h.here
  rw [← hrest] at hhere
  obtain ⟨s, after, hsplit, hlexeme, -, hbehind⟩ := hhere.exists_lexeme
  have hlength := h.here.length
  rw [← hrest, hsplit, List.length_append, h.length] at hlength
  rw [hbehind]
  exact ⟨h.advance (by omega), Nat.add_le_add_left hlexeme.length_le c.pos⟩

theorem In.skipBlanks (h : c.In text) : c.skipBlanks.In text ∧ c.pos ≤ c.skipBlanks.pos :=
  h.behind List.nil_prefix

end Cursor

/-! ## Raised and noted failures -/

namespace Attempt

/-- Whatever is noted was raised, and whatever is raised is noted, but for the failure
that the attempt ends with, which may be left to what comes next. -/
structure Accounted {α : Type} (x : Attempt α) : Prop where
  raised_of_noted : ∀ e ∈ x.noted, e ∈ x.failures
  noted_or_eq_result : ∀ e ∈ x.failures, e ∈ x.noted ∨ x.result = .error e
  raised_of_result : ∀ e, x.result = .error e → e ∈ x.failures

namespace Accounted

variable {α β : Type} {x : Attempt α}

theorem pure (a : α) : (Pure.pure a : Attempt α).Accounted where
  raised_of_noted := nofun
  noted_or_eq_result := nofun
  raised_of_result := nofun

theorem raise (e : SyntaxError) : (Attempt.raise e : Attempt α).Accounted where
  raised_of_noted := nofun
  noted_or_eq_result f hf := by
    rw [List.mem_singleton.1 hf]
    exact .inr rfl
  raised_of_result f herror := by
    cases herror
    exact List.mem_cons_self

theorem giveUp (e : SyntaxError) : (Attempt.giveUp e : Attempt α).Accounted where
  raised_of_noted _ hf := hf
  noted_or_eq_result _ hf := .inl hf
  raised_of_result f herror := by
    cases herror
    exact List.mem_cons_self

theorem bind {f : α → Attempt β} (hx : x.Accounted)
    (hf : ∀ a, x.result = .ok a → (f a).Accounted) : (x >>= f).Accounted := by
  obtain ⟨result, failures, noted⟩ := x
  cases result with
  | error e =>
      refine ⟨hx.raised_of_noted, fun g hg => ?_, fun g herror => ?_⟩
      · rcases hx.noted_or_eq_result g hg with hnoted | herror
        · exact .inl hnoted
        · cases herror
          exact .inr rfl
      · cases herror
        exact hx.raised_of_result e rfl
  | ok a =>
      have hthen := hf a rfl
      refine ⟨fun g hg => ?_, fun g hg => ?_, fun g herror => ?_⟩
      · rcases List.mem_append.1 hg with hg | hg
        · exact List.mem_append_left _ (hx.raised_of_noted g hg)
        · exact List.mem_append_right _ (hthen.raised_of_noted g hg)
      · rcases List.mem_append.1 hg with hg | hg
        · rcases hx.noted_or_eq_result g hg with hnoted | herror
          · exact .inl (List.mem_append_left _ hnoted)
          · cases herror
        · rcases hthen.noted_or_eq_result g hg with hnoted | herror
          · exact .inl (List.mem_append_right _ hnoted)
          · exact .inr herror
      · exact List.mem_append_right _ (hthen.raised_of_result g herror)

theorem recover {handle : SyntaxError → Attempt α} (hx : x.Accounted)
    (hhandle : ∀ e, x.result = .error e → (handle e).Accounted) :
    (x.recover handle).Accounted := by
  obtain ⟨result, failures, noted⟩ := x
  cases result with
  | ok a => exact hx
  | error e =>
      have hthen := hhandle e rfl
      refine ⟨fun g hg => ?_, fun g hg => ?_, fun g herror => ?_⟩
      · rcases List.mem_append.1 hg with hg | hg
        · exact List.mem_append_left _ (hx.raised_of_noted g hg)
        · rcases List.mem_cons.1 hg with rfl | hg
          · exact List.mem_append_left _ (hx.raised_of_result g rfl)
          · exact List.mem_append_right _ (hthen.raised_of_noted g hg)
      · rcases List.mem_append.1 hg with hg | hg
        · refine .inl ?_
          rcases hx.noted_or_eq_result g hg with hnoted | herror
          · exact List.mem_append_left _ hnoted
          · cases herror
            exact List.mem_append_right _ List.mem_cons_self
        · rcases hthen.noted_or_eq_result g hg with hnoted | herror
          · exact .inl (List.mem_append_right _ (List.mem_cons_of_mem _ hnoted))
          · exact .inr herror
      · exact List.mem_append_right _ (hthen.raised_of_result g herror)

theorem map (f : α → β) (hx : x.Accounted) : (x.map f).Accounted := by
  obtain ⟨result, failures, noted⟩ := x
  cases result with
  | ok a =>
      refine ⟨hx.raised_of_noted, fun g hg => ?_, nofun⟩
      rcases hx.noted_or_eq_result g hg with hnoted | herror
      · exact .inl hnoted
      · cases herror
  | error e =>
      refine ⟨hx.raised_of_noted, fun g hg => ?_, fun g herror => ?_⟩
      · rcases hx.noted_or_eq_result g hg with hnoted | herror
        · exact .inl hnoted
        · cases herror
          exact .inr rfl
      · cases herror
        exact hx.raised_of_result e rfl

end Accounted

end Attempt

/-! ## Attempts and rules that are alike -/

/-- Both attempts are the same one.  If it succeeds it stops in the text, at `n` or
further on, and whatever fails on the way is located and accounted for. -/
structure Attempt.Alike {α : Type} (text : List Char) (n : Nat) (x y : Attempt (α × Cursor)) :
    Prop where
  same : x = y
  stops : ∀ a c, x.result = .ok (a, c) → c.In text ∧ n ≤ c.pos
  fails : ∀ e, x.result = .error e → e.Located text
  failures : ∀ e ∈ x.failures, e.Located text
  accounted : x.Accounted

/-- From `n` on the rules read the same, and move on where they read anything. -/
def Rule.Alike {α : Type} (text : List Char) (n : Nat) (rule rule' : Rule α) : Prop :=
  ∀ c, c.In text → n ≤ c.pos → (rule c).Alike text (c.pos + 1) (rule' c)

section Alike

variable {α β : Type} {text : List Char} {n m : Nat}

namespace Attempt.Alike

variable {x y : Attempt (α × Cursor)}

theorem imp (h : x.Alike text n y) (hmn : m ≤ n) : x.Alike text m y where
  same := h.same
  stops a c hread := ⟨(h.stops a c hread).1, hmn.trans (h.stops a c hread).2⟩
  fails := h.fails
  failures := h.failures
  accounted := h.accounted

theorem pure {c : Cursor} (hc : c.In text) (hn : n ≤ c.pos) (a : α) :
    Attempt.Alike text n (Pure.pure (a, c)) (Pure.pure (a, c)) where
  same := rfl
  stops b d hread := by
    cases hread
    exact ⟨hc, hn⟩
  fails e herror := nomatch herror
  failures e he := absurd he List.not_mem_nil
  accounted := .pure _

theorem raise {e : SyntaxError} (he : e.Located text) :
    Attempt.Alike (α := α) text n (.raise e) (.raise e) where
  same := rfl
  stops a c hread := nomatch hread
  fails f herror := by
    cases herror
    exact he
  failures f hf := by
    rw [List.mem_singleton.1 hf]
    exact he
  accounted := .raise e

theorem giveUp {e : SyntaxError} (he : e.Located text) :
    Attempt.Alike (α := α) text n (.giveUp e) (.giveUp e) where
  same := rfl
  stops := nofun
  fails := (raise (α := α) (n := n) he).fails
  failures := (raise (α := α) (n := n) he).failures
  accounted := .giveUp e

theorem fail {c : Cursor} (hc : c.In text) {message : String} {expected : List String}
    (hexpected : expected ≠ []) (hmessage : message.toList.head? = some 'E') :
    Attempt.Alike (α := α) text n (fail c message expected) (fail c message expected) :=
  raise (SyntaxError.located_expecting hc hexpected hmessage)

theorem bind {f g : α × Cursor → Attempt (β × Cursor)} (hx : x.Alike text n y)
    (hf : ∀ a c, c.In text → n ≤ c.pos → (f (a, c)).Alike text m (g (a, c))) :
    (x >>= f).Alike text m (y >>= g) := by
  obtain ⟨rfl, hstops, hfails, hfailures, haccounted⟩ := hx
  have hall : (x >>= f).Accounted := haccounted.bind fun read hread =>
    have ⟨hc, hn⟩ := hstops read.1 read.2 hread
    (hf read.1 read.2 hc hn).accounted
  obtain ⟨result, raised, noted⟩ := x
  cases result with
  | error e =>
      refine ⟨rfl, fun a c hread => (nomatch hread), fun g herror => ?_, hfailures, hall⟩
      cases herror
      exact hfails e rfl
  | ok read =>
      obtain ⟨a, c⟩ := read
      obtain ⟨hc, hn⟩ := hstops a c rfl
      obtain ⟨hsame, hstops, hfails, hthen, -⟩ := hf a c hc hn
      refine ⟨?_, hstops, hfails, fun e he => ?_, hall⟩
      · show Attempt.mk (f (a, c)).result (raised ++ (f (a, c)).failures)
          (noted ++ (f (a, c)).noted) = _
        rw [hsame]
        rfl
      · rcases List.mem_append.1 he with he | he
        · exact hfailures e he
        · exact hthen e he

theorem recover {handle handle' : SyntaxError → Attempt (α × Cursor)} (hx : x.Alike text n y)
    (hhandle : ∀ e, e.Located text → (handle e).Alike text n (handle' e)) :
    (x.recover handle).Alike text n (y.recover handle') := by
  obtain ⟨rfl, hstops, hfails, hfailures, haccounted⟩ := hx
  have hall : (x.recover handle).Accounted :=
    haccounted.recover fun e herror => (hhandle e (hfails e herror)).accounted
  obtain ⟨result, raised, noted⟩ := x
  cases result with
  | ok read => exact ⟨rfl, hstops, hfails, hfailures, hall⟩
  | error e =>
      obtain ⟨hsame, hstops, hfails, hthen, -⟩ := hhandle e (hfails e rfl)
      refine ⟨?_, hstops, hfails, fun f hf => ?_, hall⟩
      · show Attempt.mk (handle e).result (raised ++ (handle e).failures)
          (noted ++ e :: (handle e).noted) = _
        rw [hsame]
        rfl
      · rcases List.mem_append.1 hf with hf | hf
        · exact hfailures f hf
        · exact hthen f hf

theorem map (f : α → β) (hx : x.Alike text n y) :
    (x.map fun read => (f read.1, read.2)).Alike text n
      (y.map fun read => (f read.1, read.2)) := by
  obtain ⟨rfl, hstops, hfails, hfailures, haccounted⟩ := hx
  have hall := haccounted.map fun read => (f read.1, read.2)
  obtain ⟨result, raised, noted⟩ := x
  cases result with
  | error e =>
      refine ⟨rfl, fun a c hread => (nomatch hread), fun g herror => ?_, hfailures, hall⟩
      cases herror
      exact hfails e rfl
  | ok read =>
      refine ⟨rfl, fun a c hread => ?_, fun e herror => (nomatch herror), hfailures, hall⟩
      cases hread
      exact hstops read.1 read.2 rfl

theorem ite {p : Prop} [Decidable p] {x' y' : Attempt (α × Cursor)}
    (hx : p → x.Alike text n y) (hx' : ¬ p → x'.Alike text n y') :
    (if p then x else x').Alike text n (if p then y else y') := by
  by_cases hp : p
  · rw [if_pos hp, if_pos hp]
    exact hx hp
  · rw [if_neg hp, if_neg hp]
    exact hx' hp

end Attempt.Alike

namespace Rule.Alike

variable {rule rule' : Rule α}

theorem map (f : α → β) (h : rule.Alike text n rule') :
    (rule.map f).Alike text n (rule'.map f) :=
  fun c hc hn => (h c hc hn).map f

theorem orElse {rules rules' : List (Rule α)}
    (h : List.Forall₂ (Rule.Alike text n) rules rules') {c : Cursor} (hc : c.In text)
    (hn : n ≤ c.pos) {failure : SyntaxError} (hfailure : failure.Located text) :
    (Rule.orElse failure rules c).Alike text (c.pos + 1) (Rule.orElse failure rules' c) := by
  induction h generalizing failure with
  | nil => exact .giveUp hfailure
  | cons hrule _ ih => exact (hrule c hc hn).recover fun e he => ih (hfailure.merge he)

theorem firstOf {rules rules' : List (Rule α)} (hrule : rule.Alike text n rule')
    (h : List.Forall₂ (Rule.Alike text n) rules rules') :
    (Rule.firstOf rule rules).Alike text n (Rule.firstOf rule' rules') :=
  fun c hc hn => (hrule c hc hn).recover fun _ he => orElse h hc hn he

end Rule.Alike

/-! ## Words and tokens -/

theorem head?_message {front : String} (h : front.toList.head? = some 'E') (rest : String) :
    (front ++ rest).toList.head? = some 'E' := by
  rw [String.toList_append, List.head?_append, h, Option.some_or]

theorem behind_alike {c : Cursor} {word : List Char} (hc : c.In text)
    (hword : word <+: text.drop c.pos) (hne : word ≠ []) (a : α) :
    Attempt.Alike text (c.pos + 1) (Pure.pure (a, c.behind word.length))
      (Pure.pure (a, c.behind word.length)) := by
  obtain ⟨hbehind, hpos⟩ := hc.behind hword
  have hlength : 0 < word.length := List.length_pos_iff.2 hne
  exact .pure hbehind (by omega) a

theorem word_alike {word : String} (hne : word.toList ≠ []) :
    (Grammar.word word).Alike text n (Grammar.word word) := by
  intro c hc _
  rw [Grammar.word]
  split
  · rename_i hstarts
    rw [← String.length_toList]
    exact behind_alike hc ((hc.here.startsWith_iff _).1 hstarts) hne word
  · exact .fail hc (List.cons_ne_nil _ _) (head?_message (head?_message (by decide) _) _)

theorem keyword_alike {word : String} (hne : word.toList ≠ []) :
    (keyword word).Alike text n (keyword word) := by
  intro c hc _
  rw [keyword]
  split
  · rename_i hcond
    rw [Bool.and_eq_true] at hcond
    rw [← String.length_toList]
    exact behind_alike hc ((hc.here.startsWith_iff _).1 hcond.1) hne word
  · exact .fail hc (List.cons_ne_nil _ _) (head?_message (head?_message (by decide) _) _)

theorem oneOf_alike {words : List String} (hne : words ≠ []) (hwords : ∀ w ∈ words, w.toList ≠ []) :
    (oneOf words).Alike text n (oneOf words) := by
  intro c hc _
  rw [oneOf]
  split
  · rename_i word hfind
    have hstarts : c.startsWith word.toList = true := by simpa using List.find?_some hfind
    have hmem : word ∈ words := List.mem_of_find?_eq_some hfind
    rw [← String.length_toList]
    exact behind_alike hc ((hc.here.startsWith_iff _).1 hstarts) (hwords word hmem) word
  · exact .fail hc (by simpa using hne) (by decide)

theorem optionally_alike {words : List String} (hne : words ≠ [])
    (hwords : ∀ w ∈ words, w.toList ≠ []) {c : Cursor} (hc : c.In text) :
    (optionally words c).Alike text c.pos (optionally words c) := by
  have hword := (oneOf_alike hne hwords c hc (Nat.zero_le _)).map some
  exact (hword.imp (Nat.le_succ _)).recover fun _ _ => .pure hc (Nat.le_refl _) none

theorem token_alike {find : List Char → Option (List Char)} {sort expected : String}
    (hfind : ∀ before tok, find before = some tok → tok <+: before ∧ tok ≠ []) :
    (token find sort expected).Alike text n (token find sort expected) := by
  intro c hc _
  rw [token, hc.here.rest]
  split
  · rename_i tok htok
    obtain ⟨hfront, hne⟩ := hfind _ tok htok
    exact behind_alike hc hfront hne _
  · exact .fail hc (List.cons_ne_nil _ _) (head?_message (by decide) _)

theorem name_alike : name.Alike text n name := by
  refine token_alike fun before tok htok => ?_
  obtain ⟨⟨c, more, rfl, -⟩, rest, rfl, -⟩ := nameToken?_eq_some htok
  exact ⟨List.prefix_append _ _, List.cons_ne_nil _ _⟩

theorem integer_alike : integer.Alike text n integer := by
  refine token_alike fun before tok htok => ?_
  obtain ⟨⟨c, more, rfl, -⟩, rest, rfl⟩ := integerToken?_eq_some htok
  exact ⟨List.prefix_append _ _, List.cons_ne_nil _ _⟩

theorem number_alike : number.Alike text n number := by
  refine token_alike fun before tok htok => ?_
  obtain ⟨hnumber, rest, rfl⟩ := numberToken?_eq_some htok
  obtain ⟨c, more, rfl, -⟩ := hnumber.head
  exact ⟨List.prefix_append _ _, List.cons_ne_nil _ _⟩

end Alike

end Grammar

end PolarCalc
