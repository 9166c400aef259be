import PolarCalc.Proofs.Grammar.Completeness
import PolarCalc.Proofs.Grammar.Totality
/-!
# How far failures get

A rule that reads something stops behind every failure on its way, and a rule that
fails does so with the farthest of them.  There is one exception.  An operand that
begins with a name may be read with arguments or without, and one that begins with
`j` with a prefix or without; where the longer reading gets far before it fails and
the shorter one succeeds, nothing that is read afterwards need get as far again.
-/

namespace PolarCalc

open PolarCalc.Text PolarCalc.Grammar

/-- At some place of the text a longer reading of an operand ended with the failure,
behind where the shorter reading stops for which it was given up: a name alone for a
name with arguments, or an operand that begins with `j` for one behind that prefix. -/
def SyntaxError.Lost (e : SyntaxError) (text : List Char) : Prop :=
  ∃ c d, c.In text ∧ d.pos < e.start ∧
    (((callTerm expression c).result = .error e ∧ ∃ x, (name c).result = .ok (x, d)) ∨
      ((prefixedBy "j" (ample .power) c).result = .error e ∧
        ∃ operand, (ample .power c).result = .ok (operand, d)))

namespace SyntaxError

theorem start_le_merge (e f : SyntaxError) :
    e.start ≤ (e.merge f).start ∧ f.start ≤ (e.merge f).start := by
  rw [merge]
  split
  · exact ⟨by omega, Nat.le_refl _⟩
  · split
    · exact ⟨Nat.le_refl _, by simp only; omega⟩
    · exact ⟨Nat.le_refl _, by omega⟩

end SyntaxError

namespace Grammar

variable {α β : Type} {text : List Char} {n m : Nat}

/-! ## Failures up to a place -/

/-- Every failure stands at `n` or before, or no farther than one that was lost. -/
def Within (text : List Char) (failures : List SyntaxError) (n : Nat) : Prop :=
  ∀ f ∈ failures, f.start ≤ n ∨ ∃ g ∈ failures, f.start ≤ g.start ∧ g.Lost text

namespace Within

variable {failures more : List SyntaxError} {e : SyntaxError}

theorem nil : Within text [] n := nofun

theorem singleton (h : e.start ≤ n) : Within text [e] n := by
  intro f hf
  rw [List.mem_singleton.1 hf]
  exact .inl h

theorem imp (h : Within text failures m) (hmn : m ≤ n) : Within text failures n :=
  fun f hf => (h f hf).imp_left fun hm => hm.trans hmn

theorem append (h : Within text failures n) (hmore : Within text more n) :
    Within text (failures ++ more) n := by
  intro f hf
  rcases List.mem_append.1 hf with hf | hf
  · refine (h f hf).imp_right ?_
    rintro ⟨g, hg, hle, hlost⟩
    exact ⟨g, List.mem_append_left _ hg, hle, hlost⟩
  · refine (hmore f hf).imp_right ?_
    rintro ⟨g, hg, hle, hlost⟩
    exact ⟨g, List.mem_append_right _ hg, hle, hlost⟩

theorem of_lost (h : Within text failures e.start) (he : e ∈ failures)
    (hlost : e.start ≤ n ∨ e.Lost text) : Within text failures n := by
  rcases hlost with hle | hlost
  · exact h.imp hle
  · intro f hf
    refine .inr ((h f hf).elim (fun hle => ?_) id)
    exact ⟨e, he, hle, hlost⟩

end Within

/-! ## Attempts and rules -/

/-- If the attempt fails, then at `n` or behind it and with the farthest of its
failures. -/
def Attempt.FailsFarthest (text : List Char) (n : Nat) (x : Attempt α) : Prop :=
  ∀ e, x.result = .error e → n ≤ e.start ∧ e ∈ x.failures ∧ Within text x.failures e.start

/-- If the attempt succeeds, then it stops at `n` or behind it and its failures stand
no farther; otherwise it fails with the farthest of them. -/
structure Attempt.Reaches (text : List Char) (n : Nat) (x : Attempt (α × Cursor)) : Prop where
  stops : ∀ a c, x.result = .ok (a, c) → c.In text ∧ n ≤ c.pos ∧ Within text x.failures c.pos
  fails : x.FailsFarthest text n

/-- From `n` on every attempt of the rule reaches as far as its failures. -/
def Rule.Reaches (text : List Char) (n : Nat) (rule : Rule α) : Prop :=
  ∀ c, c.In text → n ≤ c.pos → (rule c).Reaches text c.pos

namespace Attempt

@[simp] theorem value?_eq_some_iff {x : Attempt α} {a : α} :
    x.value? = some a ↔ x.result = .ok a := by
  rw [value?]
  cases x.result <;> simp [Except.toOption]

theorem result_bind_error {x : Attempt α} {f : α → Attempt β} {e : SyntaxError}
    (h : x.result = .error e) : (x >>= f).result = .error e := by
  show (Attempt.bind x f).result = _
  unfold Attempt.bind
  rw [h]

namespace Reaches

variable {x : Attempt (α × Cursor)}

theorem imp (h : x.Reaches text n) (hmn : m ≤ n) : x.Reaches text m where
  stops a c hread :=
    have ⟨hc, hn, hwithin⟩ := h.stops a c hread
    ⟨hc, hmn.trans hn, hwithin⟩
  fails e herror :=
    have ⟨hn, he, hwithin⟩ := h.fails e herror
    ⟨hmn.trans hn, he, hwithin⟩

theorem pure {c : Cursor} (hc : c.In text) (hn : n ≤ c.pos) (a : α) :
    Attempt.Reaches text n (Pure.pure (a, c)) where
  stops b d hread := by
    cases hread
    exact ⟨hc, hn, .nil⟩
  fails e herror := nomatch herror

theorem fail {c : Cursor} (hn : n ≤ c.pos) (message : String) (expected : List String) :
    Attempt.Reaches (α := α) text n (fail c message expected) where
  stops a c hread := nomatch hread
  fails e herror := by
    cases herror
    exact ⟨hn, List.mem_cons_self, .singleton (Nat.le_refl _)⟩

theorem bind {f : α × Cursor → Attempt (β × Cursor)} (hx : x.Reaches text n)
    (hf : ∀ a c, x.result = .ok (a, c) → c.In text → n ≤ c.pos →
      (f (a, c)).Reaches text c.pos) :
    (x >>= f).Reaches text n := by
  obtain ⟨result, raised, noted⟩ := x
  cases result with
  | error e =>
      refine ⟨fun a c hread => (nomatch hread), fun g herror => ?_⟩
      cases herror
      exact hx.fails e rfl
  | ok read =>
      obtain ⟨a, c⟩ := read
      obtain ⟨hc, hn, hwithin⟩ := hx.stops a c rfl
      obtain ⟨hstops, hfails⟩ := hf a c rfl hc hn
      refine ⟨fun b d hread => ?_, fun e herror => ?_⟩
      · obtain ⟨hd, hcd, hthen⟩ := hstops b d hread
        exact ⟨hd, hn.trans hcd, (hwithin.imp hcd).append hthen⟩
      · obtain ⟨hce, hmem, hthen⟩ := hfails e herror
        exact ⟨hn.trans hce, List.mem_append_right _ hmem, (hwithin.imp hce).append hthen⟩

theorem map (f : α → β) (hx : x.Reaches text n) :
    (x.map fun read => (f read.1, read.2)).Reaches text n := by
  obtain ⟨result, raised, noted⟩ := x
  cases result with
  | error e =>
      refine ⟨fun a c hread => (nomatch hread), fun g herror => ?_⟩
      cases herror
      exact hx.fails e rfl
  | ok read =>
      refine ⟨fun a c hread => ?_, fun e herror => (nomatch herror)⟩
      cases hread
      exact hx.stops read.1 read.2 rfl

theorem ite {p : Prop} [Decidable p] {y : Attempt (α × Cursor)} (hx : p → x.Reaches text n)
    (hy : ¬ p → y.Reaches text n) : (if p then x else y).Reaches text n := by
  by_cases hp : p
  · rw [if_pos hp]
    exact hx hp
  · rw [if_neg hp]
    exact hy hp

end Reaches

/-! ## Choices -/

section Choices

variable {x : Attempt (α × Cursor)} {handle : SyntaxError → Attempt (α × Cursor)}

theorem FailsFarthest.recover (hx : x.FailsFarthest text n)
    (hhandle : ∀ e, x.result = .error e → (handle e).FailsFarthest text n ∧
      ∀ f, (handle e).result = .error f → e.start ≤ f.start) :
    (x.recover handle).FailsFarthest text n := by
  obtain ⟨result, raised, noted⟩ := x
  cases result with
  | ok read => exact hx
  | error e =>
      obtain ⟨hfails, hfar⟩ := hhandle e rfl
      intro f herror
      obtain ⟨hn, hmem, hthen⟩ := hfails f herror
      obtain ⟨-, -, hwithin⟩ := hx e rfl
      exact ⟨hn, List.mem_append_right _ hmem, (hwithin.imp (hfar f herror)).append hthen⟩

/-- A failure may be recovered from by reading as far, or it is lost. -/
theorem Reaches.recover (hx : x.Reaches text n)
    (hhandle : ∀ e, x.result = .error e → (handle e).Reaches text n ∧
      ∀ f, (handle e).result = .error f → e.start ≤ f.start)
    (hnear : ∀ e a c, x.result = .error e → (handle e).result = .ok (a, c) →
      e.start ≤ c.pos ∨ e.Lost text) :
    (x.recover handle).Reaches text n := by
  refine ⟨?_, hx.fails.recover fun e herror => (hhandle e herror).imp_left Reaches.fails⟩
  obtain ⟨result, raised, noted⟩ := x
  cases result with
  | ok read => exact hx.stops
  | error e =>
      intro a c hread
      obtain ⟨hc, hn, hthen⟩ := (hhandle e rfl).1.stops a c hread
      obtain ⟨-, he, hwithin⟩ := hx.fails e rfl
      exact ⟨hc, hn, (hwithin.of_lost he (hnear e a c rfl hread)).append hthen⟩

end Choices

end Attempt

namespace Rule

variable {c : Cursor} {rule : Rule α} {rules : List (Rule α)} {failure : SyntaxError}

theorem exists_of_orElse {read : α × Cursor}
    (h : (Rule.orElse failure rules c).result = .ok read) :
    ∃ rule ∈ rules, (rule c).result = .ok read := by
  rw [← Attempt.value?_eq_some_iff, value?_orElse] at h
  obtain ⟨rule, hrule, hread⟩ := List.exists_of_findSome?_eq_some h
  exact ⟨rule, hrule, Attempt.value?_eq_some_iff.1 hread⟩

/-- Where the first rule fails and the second one succeeds, the second one gets as far,
or the failure is lost. -/
def GivesWay (text : List Char) (c : Cursor) (rule rule' : Rule α) : Prop :=
  ∀ e a d, (rule c).result = .error e → (rule' c).result = .ok (a, d) →
    e.start ≤ d.pos ∨ e.Lost text

/-- The failure of a choice is the farthest of its alternatives. -/
theorem orElse_failsFarthest (h : ∀ rule ∈ rules, (rule c).FailsFarthest text n)
    (hfailure : n ≤ failure.start) :
    (Rule.orElse failure rules c).FailsFarthest text n ∧
      ∀ e, (Rule.orElse failure rules c).result = .error e → failure.start ≤ e.start := by
  induction rules generalizing failure with
  | nil =>
      refine ⟨fun e herror => ?_, fun e herror => ?_⟩
      · cases herror
        exact ⟨hfailure, List.mem_cons_self, .singleton (Nat.le_refl _)⟩
      · cases herror
        exact Nat.le_refl _
  | cons rule rules ih =>
      have hrule := h rule List.mem_cons_self
      have hrest (f : SyntaxError) := ih (fun r hr => h r (List.mem_cons_of_mem rule hr))
        (hfailure.trans (failure.start_le_merge f).1)
      refine ⟨hrule.recover fun f _ => ⟨(hrest f).1, fun e herror => ?_⟩, fun e herror => ?_⟩
      · exact (failure.start_le_merge f).2.trans ((hrest f).2 e herror)
      · rw [Rule.orElse, Attempt.recover] at herror
        cases hresult : (rule c).result with
        | ok read =>
            rw [hresult] at herror
            cases hresult.symm.trans herror
        | error f =>
            rw [hresult] at herror
            exact (failure.start_le_merge f).1.trans ((hrest f).2 e herror)

theorem firstOf_failsFarthest (h : ∀ r ∈ rule :: rules, (r c).FailsFarthest text n) :
    (Rule.firstOf rule rules c).FailsFarthest text n := by
  have hrule := h rule List.mem_cons_self
  refine hrule.recover fun e herror => ?_
  exact orElse_failsFarthest (fun r hr => h r (List.mem_cons_of_mem rule hr)) (hrule e herror).1

theorem orElse_reaches (h : ∀ rule ∈ rules, (rule c).Reaches text n)
    (hpairs : rules.Pairwise (GivesWay text c)) (hfailure : n ≤ failure.start) :
    (Rule.orElse failure rules c).Reaches text n := by
  refine ⟨?_, (orElse_failsFarthest (fun r hr => (h r hr).fails) hfailure).1⟩
  induction rules generalizing failure with
  | nil => exact fun a d hread => nomatch hread
  | cons rule rules ih =>
      have hrule := h rule List.mem_cons_self
      have hrest : ∀ r ∈ rules, (r c).Reaches text n := fun r hr => h r (List.mem_cons_of_mem rule hr)
      obtain ⟨hpair, hpairs⟩ := List.pairwise_cons.1 hpairs
      have hmerge (f : SyntaxError) : n ≤ (failure.merge f).start :=
        hfailure.trans (failure.start_le_merge f).1
      have hall (f : SyntaxError) :=
        orElse_failsFarthest (fun r hr => (hrest r hr).fails) (hmerge f)
      refine (hrule.recover (fun f _ => ⟨⟨ih hrest hpairs (hmerge f), (hall f).1⟩, ?_⟩) ?_).stops
      · exact fun e herror => (failure.start_le_merge f).2.trans ((hall f).2 e herror)
      · intro f a d herror hread
        obtain ⟨r, hr, hread⟩ := exists_of_orElse hread
        exact hpair r hr f a d herror hread

theorem firstOf_reaches (h : ∀ r ∈ rule :: rules, (r c).Reaches text n)
    (hpairs : (rule :: rules).Pairwise (GivesWay text c)) :
    (Rule.firstOf rule rules c).Reaches text n := by
  have hrule := h rule List.mem_cons_self
  have hrest : ∀ r ∈ rules, (r c).Reaches text n := fun r hr => h r (List.mem_cons_of_mem rule hr)
  obtain ⟨hpair, hpairs⟩ := List.pairwise_cons.1 hpairs
  refine hrule.recover (fun e herror => ?_) fun e a d herror hread => ?_
  · have hn := (hrule.fails e herror).1
    exact ⟨orElse_reaches hrest hpairs hn,
      (orElse_failsFarthest (fun r hr => (hrest r hr).fails) hn).2⟩
  · obtain ⟨r, hr, hread⟩ := exists_of_orElse hread
    exact hpair r hr e a d herror hread

end Rule

/-! ## Words and tokens -/

/-- The rule reads at once or fails where it begins. -/
def Rule.Immediate (rule : Rule α) : Prop :=
  ∀ c, (∃ read, rule c = Pure.pure read) ∨
    ∃ message expected, rule c = fail c message expected

theorem word_immediate (text : String) : (word text).Immediate := by
  intro c
  rw [word]
  split
  · exact .inl ⟨_, rfl⟩
  · exact .inr ⟨_, _, rfl⟩

theorem keyword_immediate (text : String) : (keyword text).Immediate := by
  intro c
  rw [keyword]
  split
  · exact .inl ⟨_, rfl⟩
  · exact .inr ⟨_, _, rfl⟩

theorem oneOf_immediate (words : List String) : (oneOf words).Immediate := by
  intro c
  rw [oneOf]
  split
  · exact .inl ⟨_, rfl⟩
  · exact .inr ⟨_, _, rfl⟩

theorem token_immediate (find : List Char → Option (List Char)) (sort expected : String) :
    (token find sort expected).Immediate := by
  intro c
  rw [token]
  split
  · exact .inl ⟨_, rfl⟩
  · exact .inr ⟨_, _, rfl⟩

theorem name_immediate : name.Immediate := token_immediate _ _ _

theorem integer_immediate : integer.Immediate := token_immediate _ _ _

theorem number_immediate : number.Immediate := token_immediate _ _ _

namespace Rule.Immediate

variable {rule : Rule α} {c : Cursor} {e : SyntaxError}

theorem map (f : α → β) (h : rule.Immediate) : (rule.map f).Immediate := by
  intro c
  rcases h c with ⟨read, hread⟩ | ⟨message, expected, hfails⟩
  · exact .inl ⟨(f read.1, read.2), by rw [Rule.map, hread]; rfl⟩
  · exact .inr ⟨message, expected, by rw [Rule.map, hfails]; rfl⟩

theorem start_eq (h : rule.Immediate) (herror : (rule c).result = .error e) :
    e.start = c.pos := by
  rcases h c with ⟨read, hread⟩ | ⟨message, expected, hfails⟩
  · rw [hread] at herror
    cases herror
  · rw [hfails] at herror
    cases herror
    rfl

theorem start_eq_of_bind {f : α × Cursor → Attempt β} (h : rule.Immediate)
    (hnone : (rule c).value? = none) (herror : (rule c >>= f).result = .error e) :
    e.start = c.pos := by
  cases hresult : (rule c).result with
  | ok read => cases (Attempt.value?_eq_some_iff.2 hresult).symm.trans hnone
  | error g =>
      rw [Attempt.result_bind_error hresult] at herror
      cases herror
      exact h.start_eq hresult

theorem reaches (h : rule.Immediate) (halike : rule.Alike text n rule) :
    rule.Reaches text n := by
  intro c hc hn
  rcases h c with ⟨⟨a, d⟩, hread⟩ | ⟨message, expected, hfails⟩
  · have hresult : (rule c).result = .ok (a, d) := by rw [hread]; rfl
    obtain ⟨hd, hcd⟩ := (halike c hc hn).stops a d hresult
    rw [hread]
    exact .pure hd (by omega) a
  · rw [hfails]
    exact .fail (Nat.le_refl _) message expected

theorem givesWay {rule' : Rule α} (h : rule.Immediate)
    (hreaches : (rule' c).Reaches text c.pos) : Rule.GivesWay text c rule rule' := by
  intro e a d herror hread
  rw [h.start_eq herror]
  exact .inl (hreaches.stops a d hread).2.1

end Rule.Immediate

theorem Rule.exists_of_map {f : α → β} {rule : Rule α} {c d : Cursor} {b : β}
    (h : (rule.map f c).result = .ok (b, d)) : ∃ a, (rule c).result = .ok (a, d) := by
  rw [← Attempt.value?_eq_some_iff, Rule.value?_map, Option.map_eq_some_iff] at h
  obtain ⟨⟨a, c'⟩, hread, heq⟩ := h
  cases heq
  exact ⟨a, Attempt.value?_eq_some_iff.1 hread⟩

theorem Rule.Reaches.map {rule : Rule α} (f : α → β) (h : rule.Reaches text n) :
    (rule.map f).Reaches text n :=
  fun c hc hn => (h c hc hn).map f

theorem word_reaches {word : String} (hne : word.toList ≠ []) :
    (Grammar.word word).Reaches text n :=
  (word_immediate word).reaches (word_alike hne)

theorem name_reaches : name.Reaches text n := name_immediate.reaches name_alike

theorem optionally_reaches {words : List String} (hne : words ≠ [])
    (hwords : ∀ w ∈ words, w.toList ≠ []) : (optionally words).Reaches text n := by
  intro c hc hn
  have himmediate := (oneOf_immediate words).map some
  have halike : ((oneOf words).map some).Alike text n ((oneOf words).map some) :=
    (oneOf_alike hne hwords).map some
  refine (himmediate.reaches halike c hc hn).recover (fun e herror => ⟨?_, nofun⟩) ?_
  · exact .pure hc (Nat.le_refl _) none
  · intro e a d herror hread
    cases hread
    exact .inl (himmediate.start_eq herror).le

/-! ## Separated items -/

theorem moreItems_reaches {item : Rule α} (hitem : item.Reaches text n) (fuel : Nat) :
    (moreItems item fuel).Reaches text n := by
  induction fuel with
  | zero => exact fun c hc _ => .pure hc (Nat.le_refl _) []
  | succ fuel ih =>
      intro c hc hn
      refine .ite (fun _ => ?_) fun _ => .pure hc (Nat.le_refl _) []
      refine (word_reaches (by decide) c hc hn).bind fun _ d _ hd hcd => ?_
      refine (hitem d hd (by omega)).bind fun first d' _ hd' hdd' => ?_
      exact (ih d' hd' (by omega)).map (first :: ·)

theorem separatedItems_reaches {item : Rule α} (hitem : item.Reaches text n) {closer : String}
    (hcloser : closer.toList ≠ []) : (separatedItems item closer).Reaches text n := by
  intro c hc hn
  have hword {d : Cursor} (hd : d.In text) (hdn : n ≤ d.pos) := word_reaches hcloser d hd hdn
  refine .ite (fun _ => ?_) fun _ => ?_
  · exact (hword hc hn).bind fun _ d _ hd hcd => .pure hd (Nat.le_refl _) []
  · refine (hitem c hc hn).bind fun first d _ hd hcd => ?_
    refine (moreItems_reaches hitem _ d hd (by omega)).bind fun rest d' _ hd' hdd' => ?_
    refine .ite (fun _ => ?_) fun _ => .fail (Nat.le_refl _) _ _
    exact (hword hd' (by omega)).bind fun _ d'' _ hd'' hdd'' => .pure hd'' (Nat.le_refl _) _

/-! ## Terms -/

section Terms

variable {c : Cursor}

theorem word_advances {word w : String} {d : Cursor} (hne : word.toList ≠ []) (hc : c.In text)
    (hread : (Grammar.word word c).result = .ok (w, d)) : c.pos < d.pos :=
  ((word_alike hne).advances c w d hc hread).2

theorem parenthesized_reaches (h : expression.Reaches text (n + 1)) :
    (parenthesized expression).Reaches text n := by
  intro c hc hn
  refine (word_reaches (by decide) c hc hn).bind fun _ d hread hd hcd => ?_
  have hlt := word_advances (by decide) hc hread
  refine (h d hd (by omega)).bind fun inner d' _ hd' hdd' => ?_
  refine .ite (fun _ => ?_) fun _ => .fail (Nat.le_refl _) _ _
  refine (word_reaches (n := n) (by decide) d' hd' (by omega)).bind fun _ d'' _ hd'' hdd'' => ?_
  exact .pure hd'' (Nat.le_refl _) _

theorem listTerm_reaches (h : expression.Reaches text (n + 1)) :
    (listTerm expression).Reaches text n := by
  intro c hc hn
  refine (word_reaches (by decide) c hc hn).bind fun _ d hread hd hcd => ?_
  have hlt := word_advances (by decide) hc hread
  have hitems := separatedItems_reaches h (by decide : "]".toList ≠ []) d hd (by omega)
  exact hitems.bind fun items d' _ hd' hdd' => .pure hd' (Nat.le_refl _) _

theorem callTerm_reaches (h : expression.Reaches text (n + 1)) :
    (callTerm expression).Reaches text n := by
  intro c hc hn
  refine (name_reaches c hc hn).bind fun function d _ hd hcd => ?_
  refine (word_reaches (n := n) (by decide) d hd (by omega)).bind fun _ d' hread hd' hdd' => ?_
  have hlt := word_advances (by decide) hd hread
  have hargs := separatedItems_reaches h (by decide : ")".toList ≠ []) d' hd' (by omega)
  exact hargs.bind fun args d'' _ hd'' hdd'' => .pure hd'' (Nat.le_refl _) _

theorem givesWay_of_opening {opening : String} {f : String × Cursor → Attempt (Expr × Cursor)}
    {rule rule' : Rule Expr} (hrule : rule c = word opening c >>= f)
    (hrefuses : opening.toList <+: text.drop c.pos → (rule' c).value? = none) (hc : c.In text)
    (hreaches : (rule' c).Reaches text c.pos) : Rule.GivesWay text c rule rule' := by
  intro e a d herror hread
  by_cases hopening : opening.toList <+: text.drop c.pos
  · cases (Attempt.value?_eq_some_iff.2 hread).symm.trans (hrefuses hopening)
  · rw [hrule] at herror
    rw [(word_immediate opening).start_eq_of_bind (word_refuses hopening c hc.here) herror]
    exact .inl (hreaches.stops a d hread).2.1

/-- A call that gets farther than its name is lost where the name is read instead. -/
theorem callTerm_givesWay_name (hc : c.In text) :
    Rule.GivesWay text c (callTerm expression) (name.map fun text => .term (.ident text)) := by
  intro e a d herror hread
  rcases Nat.lt_or_ge d.pos e.start with hlt | hle
  · exact .inr ⟨c, d, hc, hlt, .inl ⟨herror, Rule.exists_of_map hread⟩⟩
  · exact .inl hle

theorem callTerm_givesWay_literal {rule : Rule Expr} (hc : c.In text)
    (hrefuses : ∀ ch more, text.drop c.pos = ch :: more → isNameStart ch = true →
      (rule c).value? = none)
    (hreaches : (rule c).Reaches text c.pos) :
    Rule.GivesWay text c (callTerm expression) rule := by
  intro e a d herror hread
  cases hname : (name c).value? with
  | none =>
      rw [name_immediate.start_eq_of_bind hname herror]
      exact .inl (hreaches.stops a d hread).2.1
  | some read =>
      obtain ⟨x, c'⟩ := read
      obtain ⟨s, rest, hsplit, -, -, ⟨ch, word, hx, hch, -⟩, hlexeme, -⟩ :=
        name_yields.split hc.here hname
      rw [hx] at hlexeme
      obtain ⟨behind, rfl⟩ := hlexeme.eq_cons
      cases (Attempt.value?_eq_some_iff.2 hread).symm.trans (hrefuses ch _ hsplit hch)

theorem term_reaches (h : expression.Reaches text (n + 1)) :
    (term expression).Reaches text n := by
  intro c hc hn
  have hall : ∀ rule ∈ [parenthesized expression, listTerm expression, callTerm expression,
      name.map fun text => .term (.ident text), integer.map fun text => .term (.integer text),
      number.map fun text => .term (.number text)], (rule c).Reaches text c.pos := by
    intro rule hrule
    simp only [List.mem_cons, List.not_mem_nil, or_false] at hrule
    rcases hrule with rfl | rfl | rfl | rfl | rfl | rfl
    · exact parenthesized_reaches h c hc hn
    · exact listTerm_reaches h c hc hn
    · exact callTerm_reaches h c hc hn
    · exact name_reaches.map _ c hc hn
    · exact (integer_immediate.reaches integer_alike).map _ c hc hn
    · exact (number_immediate.reaches number_alike).map _ c hc hn
  refine Rule.firstOf_reaches hall ?_
  refine .cons ?parenthesis <| .cons ?bracket <| .cons ?call <| .cons ?name <| .cons ?integer <|
    List.pairwise_singleton _ _
  case parenthesis =>
    intro rule hrule
    refine givesWay_of_opening rfl ?_ hc (hall rule (List.mem_cons_of_mem _ hrule))
    rintro ⟨more, hmore⟩
    have hhere := hc.here
    rw [← hmore] at hhere
    rcases List.mem_cons.1 hrule with rfl | hrule
    · refine listTerm_refuses ?_ c hhere
      rintro ⟨behind, heq⟩
      cases heq
    · exact unbracketed_refuse (.inl rfl) rule hrule c hhere
  case bracket =>
    intro rule hrule
    refine givesWay_of_opening rfl ?_ hc (hall rule (List.mem_cons_of_mem _ <|
      List.mem_cons_of_mem _ hrule))
    rintro ⟨more, hmore⟩
    have hhere := hc.here
    rw [← hmore] at hhere
    exact unbracketed_refuse (.inr rfl) rule hrule c hhere
  case call =>
    intro rule hrule
    have hreaches := hall rule <| List.mem_cons_of_mem _ <| List.mem_cons_of_mem _ <|
      List.mem_cons_of_mem _ hrule
    simp only [List.mem_cons, List.not_mem_nil, or_false] at hrule
    rcases hrule with rfl | rfl | rfl
    · exact callTerm_givesWay_name hc
    · refine callTerm_givesWay_literal hc (fun ch more hmore hch => ?_) hreaches
      exact (literals_refuse hch).1.map _ c (hmore ▸ hc.here)
    · refine callTerm_givesWay_literal hc (fun ch more hmore hch => ?_) hreaches
      exact (literals_refuse hch).2.map _ c (hmore ▸ hc.here)
  case name =>
    intro rule hrule
    exact (name_immediate.map _).givesWay (hall rule (by simp_all))
  case integer =>
    intro rule hrule
    exact (integer_immediate.map _).givesWay (hall rule (by simp_all))

end Terms

/-! ## Binary levels -/

theorem chain_reaches {tier : Tier} {operand : Rule Expr} (hoperand : operand.Reaches text n)
    (fuel : Nat) (left whole : Expr) : (chain tier operand fuel left whole).Reaches text n := by
  have hoptionally : (optionally (spellings tier)).Reaches text n :=
    optionally_reaches (spellings_ne_nil tier) fun _ => spelling_ne_nil
  induction fuel generalizing left whole with
  | zero =>
      intro c hc hn
      exact (hoptionally c hc hn).bind fun _ d _ hd _ => .pure hd (Nat.le_refl _) whole
  | succ fuel ih =>
      intro c hc hn
      refine (hoptionally c hc hn).bind fun spelling? d _ hd hcd => ?_
      cases spelling? with
      | none => exact .pure hd (Nat.le_refl _) whole
      | some spelling =>
          refine (hoperand d hd (by omega)).bind fun right d' _ hd' hdd' => ?_
          exact ih _ _ d' hd' (by omega)

theorem binaryLevel_reaches {tier : Tier} {operand : Rule Expr}
    (hoperand : operand.Reaches text n) : (binaryLevel tier operand).Reaches text n := by
  intro c hc hn
  refine (hoperand c hc hn).bind fun first d _ hd hcd => ?_
  exact chain_reaches hoperand _ _ _ d hd (by omega)

theorem product_reaches (h : expression.Reaches text (n + 1)) :
    (product expression).Reaches text n :=
  binaryLevel_reaches <| binaryLevel_reaches <| binaryLevel_reaches <| term_reaches h

/-! ## Powers, prefixes and conditionals -/

theorem powerLevel_reaches (h : expression.Reaches text (n + 1))
    (hpower : (ample .power).Reaches text (n + 1)) :
    (powerLevel expression (ample .power)).Reaches text n := by
  intro c hc hn
  refine (product_reaches h c hc hn).bind fun base d hread hd hcd => ?_
  have hlt := ((product_alike expression_alike).advances c base d hc hread).2
  have hcaret : (optionally ["^"]).Reaches text n := optionally_reaches (by decide) (by decide)
  refine (hcaret d hd (by omega)).bind fun caret? d' _ hd' hdd' => ?_
  cases caret? with
  | none => exact .pure hd' (Nat.le_refl _) _
  | some caret =>
      refine (hpower d' hd' (by omega)).bind fun exponent d'' _ hd'' hdd'' => ?_
      exact .pure hd'' (Nat.le_refl _) _

theorem prefixedBy_reaches (hpower : (ample .power).Reaches text n) (op : String) :
    (prefixedBy op (ample .power)).Reaches text n := by
  intro c hc hn
  refine .ite (fun hprefixed => ?_) fun _ => .fail (Nat.le_refl _) _ _
  obtain ⟨hd, hcd⟩ := hc.behind
    ((hc.here.startsWith_iff _).1 (startsWith_of_startsPrefixed hprefixed))
  rw [String.length_toList] at hd hcd
  refine Attempt.Reaches.imp ?_ (by omega : c.pos ≤ (c.behind op.length).pos)
  refine (hpower _ hd (by omega)).bind fun operand d' _ hd' hdd' => ?_
  exact .pure hd' (Nat.le_refl _) _

theorem prefixedBy_givesWay {op : String} {c : Cursor} {rule : Rule Expr}
    (h : startsPrefixed op c = true → (rule c).value? = none)
    (hreaches : (rule c).Reaches text c.pos) :
    Rule.GivesWay text c (prefixedBy op (ample .power)) rule := by
  intro e a d herror hread
  cases hstarts : startsPrefixed op c with
  | true => cases (Attempt.value?_eq_some_iff.2 hread).symm.trans (h hstarts)
  | false =>
      rw [prefixedBy, hstarts, if_neg Bool.false_ne_true] at herror
      cases herror
      exact .inl (hreaches.stops a d hread).2.1

theorem unaryLevel_reaches (hpower : (ample .power).Reaches text n) :
    (unaryLevel (ample .power)).Reaches text n := by
  intro c hc hn
  have hj := prefixedBy_reaches hpower "j" c hc hn
  have hminus := prefixedBy_reaches hpower "-" c hc hn
  have hplain := (hpower c hc hn).map (Expr.bare .unary)
  refine Rule.firstOf_reaches ?_ ?_
  · intro rule hrule
    simp only [List.mem_cons, List.not_mem_nil, or_false] at hrule
    rcases hrule with rfl | rfl | rfl
    · exact hj
    · exact hminus
    · exact hplain
  refine .cons ?_ <| .cons ?_ <| List.pairwise_singleton _ _
  · intro rule hrule
    simp only [List.mem_cons, List.not_mem_nil, or_false] at hrule
    rcases hrule with rfl | rfl
    · refine prefixedBy_givesWay (fun hstarts => ?_) hminus
      obtain ⟨more, hmore⟩ := (hc.here.startsWith_iff _).1 (startsWith_of_startsPrefixed hstarts)
      refine prefixedBy_refuses ?_ c hc.here
      rw [← hmore]
      rintro ⟨behind, heq⟩
      cases heq
    · intro e a d herror hread
      rcases Nat.lt_or_ge d.pos e.start with hlt | hle
      · exact .inr ⟨c, d, hc, hlt, .inr ⟨herror, Rule.exists_of_map hread⟩⟩
      · exact .inl hle
  · intro rule hrule
    obtain rfl := List.mem_singleton.1 hrule
    refine prefixedBy_givesWay (fun hstarts => ?_) hplain
    obtain ⟨more, hmore⟩ := (hc.here.startsWith_iff _).1 (startsWith_of_startsPrefixed hstarts)
    have hrefuses : (powerLevel expression (ample .power)).Refuses (text.drop c.pos) := by
      refine powerLevel_refuses (term_refuses ?_)
      rw [← hmore]
      rintro _ ⟨⟩
      decide
    rw [Rule.value?_map, ample_power hc, hrefuses c hc.here, Option.map_none]

theorem branches_reaches {conditional : Rule Expr} (hconditional : conditional.Reaches text n)
    (condition : Expr) : (branches conditional condition).Reaches text n := by
  intro c hc hn
  have hcolon {d : Cursor} (hd : d.In text) (hdn : n ≤ d.pos) :=
    word_reaches (n := n) (by decide : ":".toList ≠ []) d hd hdn
  refine .ite (fun _ => ?_) fun _ => ?_
  · refine (hcolon hc hn).bind fun _ d _ hd hcd => ?_
    refine (hconditional d hd (by omega)).bind fun elseBranch d' _ hd' hdd' => ?_
    exact .pure hd' (Nat.le_refl _) _
  · refine (hconditional c hc hn).bind fun thenBranch d _ hd hcd => ?_
    refine .ite (fun _ => ?_) fun _ => .pure hd (Nat.le_refl _) _
    refine (hcolon hd (by omega)).bind fun _ d' _ hd' hdd' => ?_
    refine (hconditional d' hd' (by omega)).bind fun elseBranch d'' _ hd'' hdd'' => ?_
    exact .pure hd'' (Nat.le_refl _) _

theorem conditionalLevel_reaches (h : expression.Reaches text (n + 1))
    (hpower : (ample .power).Reaches text n) :
    (conditionalLevel expression (ample .power)).Reaches text n := by
  intro c hc hn
  refine (unaryLevel_reaches hpower c hc hn).bind fun condition d hread hd hcd => ?_
  have hlt := ((unaryLevel_alike (ample_alike .power)).advances c condition d hc hread).2
  refine .ite (fun _ => ?_) fun _ => .pure hd (Nat.le_refl _) _
  refine (word_reaches (n := n) (by decide) d hd (by omega)).bind fun _ d' _ hd' hdd' => ?_
  exact branches_reaches h condition d' hd' (by omega)

/-- By induction on what is left: inside a rule expressions begin farther on. -/
theorem goals_reach (k n : Nat) (h : text.length < n + k) :
    expression.Reaches text n ∧ (ample .power).Reaches text n := by
  induction k generalizing n with
  | zero =>
      have hnone {c : Cursor} (hc : c.In text) (hn : n ≤ c.pos) : False := by
        have hle := hc.pos_le
        omega
      exact ⟨fun c hc hn => (hnone hc hn).elim, fun c hc hn => (hnone hc hn).elim⟩
  | succ k ih =>
      obtain ⟨hexpression, hpower⟩ := ih (n + 1) (by omega)
      have hlevel : (ample .power).Reaches text n := by
        intro c hc hn
        rw [ample_power hc]
        exact powerLevel_reaches hexpression hpower c hc hn
      refine ⟨fun c hc hn => ?_, hlevel⟩
      rw [expression_eq hc]
      exact conditionalLevel_reaches hexpression hlevel c hc hn

theorem expression_reaches : expression.Reaches text n :=
  (goals_reach (text.length + 1) n (by omega)).1

/-! ## Statements -/

theorem definition_reaches : definition.Reaches text n := by
  intro c hc hn
  refine (word_reaches (by decide) c hc hn).bind fun _ c₁ _ hc₁ h₁ => ?_
  refine (name_reaches (n := n) c₁ hc₁ (by omega)).bind fun function c₂ _ hc₂ h₂ => ?_
  refine (word_reaches (n := n) (by decide) c₂ hc₂ (by omega)).bind fun _ c₃ _ hc₃ h₃ => ?_
  have hparams := separatedItems_reaches (n := n) name_reaches (by decide : ")".toList ≠ []) c₃ hc₃
    (by omega)
  refine hparams.bind fun params c₄ _ hc₄ h₄ => ?_
  refine (word_reaches (n := n) (by decide) c₄ hc₄ (by omega)).bind fun _ c₅ _ hc₅ h₅ => ?_
  refine (expression_reaches (n := n) c₅ hc₅ (by omega)).bind fun body c₆ _ hc₆ h₆ => ?_
  exact .pure hc₆ (Nat.le_refl _) _

theorem assignment_reaches : assignment.Reaches text n := by
  intro c hc hn
  have hkeyword := (keyword_immediate "let").reaches (keyword_alike (by decide)) c hc hn
  refine hkeyword.bind fun _ c₁ _ hc₁ h₁ => ?_
  refine (name_reaches (n := n) c₁ hc₁ (by omega)).bind fun target c₂ _ hc₂ h₂ => ?_
  refine (word_reaches (n := n) (by decide) c₂ hc₂ (by omega)).bind fun _ c₃ _ hc₃ h₃ => ?_
  refine (expression_reaches (n := n) c₃ hc₃ (by omega)).bind fun body c₄ _ hc₄ h₄ => ?_
  exact .pure hc₄ (Nat.le_refl _) _

/-- A statement that fails does so with the farthest failure that is not lost.  One that
succeeds may stop short of a failure: the name `let` is read where an assignment failed. -/
theorem statement_failsFarthest {c : Cursor} (hc : c.In text) :
    (statement c).FailsFarthest text c.skipBlanks.pos := by
  obtain ⟨hblanks, -⟩ := hc.skipBlanks
  refine Rule.firstOf_failsFarthest fun rule hrule => ?_
  simp only [List.mem_cons, List.not_mem_nil, or_false] at hrule
  rcases hrule with rfl | rfl | rfl
  · exact (definition_reaches (n := 0) _ hblanks (Nat.zero_le _)).fails
  · exact (assignment_reaches (n := 0) _ hblanks (Nat.zero_le _)).fails
  · exact ((expression_reaches (n := 0) _ hblanks (Nat.zero_le _)).map _).fails

end Grammar

end PolarCalc
