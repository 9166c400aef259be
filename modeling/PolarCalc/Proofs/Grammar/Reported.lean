import PolarCalc.Proofs.Grammar.Reach
/-!
# Which failure is reported

Where a statement ends before its line does, the line is refused with the farthest
failure of the whole reading, of several with the one that was noted last; and there
is always a failure at the place where the statement ends, because the last thing
tried there is one more operator.  Where no statement is read at all, the choice that
fails reports the farthest failure of its alternatives, and that is the farthest one
of the whole reading unless a longer reading of an operand was lost.
-/

namespace PolarCalc

open PolarCalc.Grammar

namespace Grammar.Attempt

variable {α β : Type}

/-- `n` is the greatest start of a failure that was raised during the attempt. -/
structure FailsUpTo (x : Attempt α) (n : Nat) : Prop where
  exists_start : ∃ e ∈ x.failures, e.start = n
  start_le : ∀ e ∈ x.failures, e.start ≤ n

/-- The failure that was noted last of those that start at `n`. -/
def lastNoted? (x : Attempt α) (n : Nat) : Option SyntaxError :=
  (x.noted.filter (·.start == n)).getLast?

/-- If the attempt succeeds, a failure stands where it stops. -/
def StopsAtFailure (x : Attempt (α × Cursor)) : Prop :=
  ∀ a c, x.result = .ok (a, c) → ∃ e ∈ x.failures, e.start = c.pos

end Grammar.Attempt

namespace SyntaxError

variable {e : SyntaxError} {failures : List SyntaxError}

theorem farthest?_eq_none_iff : farthest? failures = none ↔ failures = [] := by
  cases failures with
  | nil => exact iff_of_true rfl rfl
  | cons f rest =>
      refine iff_of_false (fun h => ?_) (List.cons_ne_nil _ _)
      rw [farthest?] at h
      split at h
      · cases h
      · split at h <;> cases h

/-- The farthest failure is the last one of those that start where it does. -/
theorem farthest?_spec (h : farthest? failures = some e) :
    (∀ f ∈ failures, f.start ≤ e.start) ∧
      (failures.filter (·.start == e.start)).getLast? = some e := by
  induction failures generalizing e with
  | nil => cases h
  | cons f rest ih =>
      rw [farthest?] at h
      cases hrest : farthest? rest with
      | none =>
          rw [hrest] at h
          cases h
          rw [farthest?_eq_none_iff.1 hrest]
          simp
      | some g =>
          obtain ⟨hle, hlast⟩ := ih hrest
          rw [hrest] at h
          simp only at h
          split at h
          · rename_i hlt
            cases h
            -- nothing behind the farthest failure starts where it does
            have hnone : rest.filter (·.start == f.start) = [] := by
              rw [List.filter_eq_nil_iff]
              intro r hr
              have hr := hle r hr
              simp only [beq_iff_eq]
              omega
            refine ⟨fun r hr => ?_, by simp [hnone]⟩
            rcases List.mem_cons.1 hr with rfl | hr
            · exact Nat.le_refl _
            · exact (hle r hr).trans (Nat.le_of_lt hlt)
          · rename_i hnear
            cases h
            refine ⟨fun r hr => ?_, ?_⟩
            · rcases List.mem_cons.1 hr with rfl | hr
              · exact Nat.le_of_not_lt hnear
              · exact hle r hr
            · rw [List.filter_cons]
              split
              · rw [List.getLast?_cons, hlast, Option.getD_some]
              · exact hlast

theorem exists_farthest? (h : e ∈ failures) :
    ∃ g ∈ failures, farthest? failures = some g ∧ (∀ f ∈ failures, f.start ≤ g.start) ∧
      (failures.filter (·.start == g.start)).getLast? = some g := by
  obtain ⟨g, hfarthest⟩ : ∃ g, farthest? failures = some g := by
    rw [← Option.ne_none_iff_exists', Ne, farthest?_eq_none_iff]
    exact List.ne_nil_of_mem h
  exact ⟨g, mem_of_farthest? hfarthest, hfarthest, farthest?_spec hfarthest⟩

end SyntaxError

namespace Grammar

variable {α β : Type} {text : List Char} {n : Nat}

theorem Attempt.Accounted.mem_failures_iff {x : Attempt α} {a : α} (h : x.Accounted)
    (hread : x.result = .ok a) (e : SyntaxError) : e ∈ x.failures ↔ e ∈ x.noted := by
  refine ⟨fun he => ?_, h.raised_of_noted e⟩
  rcases h.noted_or_eq_result e he with hnoted | herror
  · exact hnoted
  · cases hread.symm.trans herror

/-! ## Failures where an attempt stops -/

namespace Attempt.StopsAtFailure

variable {x : Attempt (α × Cursor)}

theorem of_error (h : ∀ read, x.result ≠ .ok read) : x.StopsAtFailure :=
  fun _ _ hread => absurd hread (h _)

theorem bind {f : α × Cursor → Attempt (β × Cursor)}
    (hf : ∀ a c, x.result = .ok (a, c) → (f (a, c)).StopsAtFailure ∨
      (∃ e ∈ x.failures, e.start = c.pos) ∧ ∃ b, f (a, c) = Pure.pure (b, c)) :
    (x >>= f).StopsAtFailure := by
  obtain ⟨result, raised, noted⟩ := x
  cases result with
  | error e => exact of_error nofun
  | ok read =>
      obtain ⟨a, c⟩ := read
      intro b d hread
      rcases hf a c rfl with hstops | ⟨⟨e, he, hstart⟩, b', hpure⟩
      · obtain ⟨e, he, hstart⟩ := hstops b d hread
        exact ⟨e, List.mem_append_right _ he, hstart⟩
      · have hread' : (f (a, c)).result = .ok (b, d) := hread
        rw [hpure] at hread'
        cases hread'
        exact ⟨e, List.mem_append_left _ he, hstart⟩

theorem bind_right {f : α × Cursor → Attempt (β × Cursor)}
    (hf : ∀ a c, x.result = .ok (a, c) → (f (a, c)).StopsAtFailure) :
    (x >>= f).StopsAtFailure :=
  bind fun a c hread => .inl (hf a c hread)

theorem bind_pure {f : α × Cursor → Attempt (β × Cursor)} (hx : x.StopsAtFailure)
    (hf : ∀ a c, ∃ b, f (a, c) = Pure.pure (b, c)) : (x >>= f).StopsAtFailure :=
  bind fun a c hread => .inr ⟨hx a c hread, hf a c⟩

theorem map (f : α → β) (hx : x.StopsAtFailure) :
    (x.map fun read => (f read.1, read.2)).StopsAtFailure := by
  obtain ⟨result, raised, noted⟩ := x
  cases result with
  | error e => exact of_error nofun
  | ok read =>
      intro b c hread
      cases hread
      exact hx read.1 read.2 rfl

theorem recover {handle : SyntaxError → Attempt (α × Cursor)} (hx : x.StopsAtFailure)
    (hhandle : ∀ e, (handle e).StopsAtFailure) : (x.recover handle).StopsAtFailure := by
  obtain ⟨result, raised, noted⟩ := x
  cases result with
  | ok read => exact hx
  | error e =>
      intro a c hread
      obtain ⟨f, hf, hstart⟩ := hhandle e a c hread
      exact ⟨f, List.mem_append_right _ hf, hstart⟩

theorem ite {p : Prop} [Decidable p] {y : Attempt (α × Cursor)} (hx : p → x.StopsAtFailure)
    (hy : ¬ p → y.StopsAtFailure) : (if p then x else y).StopsAtFailure := by
  by_cases hp : p
  · rw [if_pos hp]
    exact hx hp
  · rw [if_neg hp]
    exact hy hp

end Attempt.StopsAtFailure

theorem Rule.firstOf_stopsAtFailure {rule : Rule α} {rules : List (Rule α)} {c : Cursor}
    (h : ∀ r ∈ rule :: rules, (r c).StopsAtFailure) :
    (Rule.firstOf rule rules c).StopsAtFailure := by
  have horElse (failure : SyntaxError) : (Rule.orElse failure rules c).StopsAtFailure := by
    have hrules : ∀ r ∈ rules, (r c).StopsAtFailure := fun r hr => h r (List.mem_cons_of_mem _ hr)
    clear h
    induction rules generalizing failure with
    | nil => exact .of_error nofun
    | cons r rules ih =>
        refine (hrules r List.mem_cons_self).recover fun e => ?_
        exact ih _ fun r hr => hrules r (List.mem_cons_of_mem _ hr)
  exact (h rule List.mem_cons_self).recover horElse

/-! ## Rules that stop at a failure -/

theorem exists_start_of_optionally {words : List String} {c d : Cursor}
    (h : (optionally words c).result = .ok (none, d)) :
    d = c ∧ ∃ e ∈ (optionally words c).failures, e.start = c.pos := by
  rw [optionally, Rule.map] at h ⊢
  rcases oneOf_immediate words c with ⟨read, hread⟩ | ⟨message, expected, hfails⟩
  · rw [hread] at h
    cases h
  · rw [hfails] at h ⊢
    cases h
    exact ⟨rfl, _, List.mem_cons_self, rfl⟩

theorem powerLevel_stopsAtFailure {c : Cursor} (hc : c.In text)
    (hpower : ∀ d, d.In text → c.pos < d.pos → (ample .power d).StopsAtFailure) :
    (powerLevel expression (ample .power) c).StopsAtFailure := by
  refine .bind_right fun base d hread => ?_
  obtain ⟨hd, hcd⟩ := (product_alike expression_alike).advances c base d hc hread
  refine .bind fun caret? d' hread' => ?_
  cases caret? with
  | none =>
      obtain ⟨rfl, hfails⟩ := exists_start_of_optionally hread'
      exact .inr ⟨hfails, _, rfl⟩
  | some caret =>
      obtain ⟨hd', hdd'⟩ := (optionally_alike (by decide) (by decide) hd).stops _ d' hread'
      exact .inl (.bind_pure (hpower d' hd' (by omega)) fun _ _ => ⟨_, rfl⟩)

theorem prefixedBy_stopsAtFailure {c : Cursor} (hc : c.In text)
    (hpower : ∀ d, d.In text → c.pos ≤ d.pos → (ample .power d).StopsAtFailure) (op : String) :
    (prefixedBy op (ample .power) c).StopsAtFailure := by
  refine .ite (fun hprefixed => ?_) fun _ => .of_error nofun
  obtain ⟨hd, hcd⟩ := hc.behind
    ((hc.here.startsWith_iff _).1 (startsWith_of_startsPrefixed hprefixed))
  rw [String.length_toList] at hd hcd
  exact .bind_pure (hpower _ hd (by omega)) fun _ _ => ⟨_, rfl⟩

theorem unaryLevel_stopsAtFailure {c : Cursor} (hc : c.In text)
    (hpower : ∀ d, d.In text → c.pos ≤ d.pos → (ample .power d).StopsAtFailure) :
    (unaryLevel (ample .power) c).StopsAtFailure := by
  refine Rule.firstOf_stopsAtFailure fun rule hrule => ?_
  simp only [List.mem_cons, List.not_mem_nil, or_false] at hrule
  rcases hrule with rfl | rfl | rfl
  · exact prefixedBy_stopsAtFailure hc hpower "j"
  · exact prefixedBy_stopsAtFailure hc hpower "-"
  · exact (hpower c hc (Nat.le_refl _)).map _

theorem branches_stopsAtFailure {c : Cursor} (hc : c.In text)
    (h : ∀ d, d.In text → c.pos ≤ d.pos → (expression d).StopsAtFailure) (condition : Expr) :
    (branches expression condition c).StopsAtFailure := by
  have hcolon {d d' : Cursor} {w : String} (hd : d.In text) (hcd : c.pos ≤ d.pos)
      (hread : (word ":" d).result = .ok (w, d')) : (expression d').StopsAtFailure := by
    obtain ⟨hd', hdd'⟩ := (word_alike (by decide)).advances d w d' hd hread
    exact h d' hd' (by omega)
  refine .ite (fun _ => ?_) fun _ => ?_
  · refine .bind_right fun _ d hread => ?_
    exact .bind_pure (hcolon hc (Nat.le_refl _) hread) fun _ _ => ⟨_, rfl⟩
  · refine .bind fun thenBranch d hread => ?_
    obtain ⟨hd, hcd⟩ := expression_alike.advances c thenBranch d hc hread
    by_cases hstarts : d.startsWith [':'] = true
    · refine .inl ?_
      simp only [hstarts, if_true]
      refine .bind_right fun _ d' hread' => ?_
      exact .bind_pure (hcolon hd (Nat.le_of_lt hcd) hread') fun _ _ => ⟨_, rfl⟩
    · refine .inr ⟨h c hc (Nat.le_refl _) thenBranch d hread, ?_⟩
      simp only [hstarts]
      exact ⟨_, rfl⟩

theorem conditionalLevel_stopsAtFailure {c : Cursor} (hc : c.In text)
    (hpower : ∀ d, d.In text → c.pos ≤ d.pos → (ample .power d).StopsAtFailure)
    (h : ∀ d, d.In text → c.pos < d.pos → (expression d).StopsAtFailure) :
    (conditionalLevel expression (ample .power) c).StopsAtFailure := by
  refine .bind fun condition d hread => ?_
  obtain ⟨hd, hcd⟩ := (unaryLevel_alike (ample_alike .power)).advances c condition d hc hread
  by_cases hstarts : d.startsWith ['?'] = true
  · refine .inl ?_
    simp only [hstarts, if_true]
    refine .bind_right fun w d' hread' => ?_
    obtain ⟨hd', hdd'⟩ := (word_alike (by decide)).advances d w d' hd hread'
    exact branches_stopsAtFailure hd' (fun d'' hd'' hdd'' => h d'' hd'' (by omega)) condition
  · refine .inr ⟨unaryLevel_stopsAtFailure hc hpower condition d hread, ?_⟩
    simp only [hstarts]
    exact ⟨_, rfl⟩

/-- By induction on what is left, as the rules turn back on themselves farther on. -/
theorem goals_stopAtFailure (k n : Nat) (h : text.length < n + k) :
    ∀ c, c.In text → n ≤ c.pos →
      (expression c).StopsAtFailure ∧ (ample .power c).StopsAtFailure := by
  induction k generalizing n with
  | zero =>
      intro c hc hn
      have hle := hc.pos_le
      omega
  | succ k ih =>
      have hinner := ih (n + 1) (by omega)
      have hpower : ∀ c, c.In text → n ≤ c.pos → (ample .power c).StopsAtFailure := by
        intro c hc hn
        rw [ample_power hc]
        exact powerLevel_stopsAtFailure hc fun d hd hcd => (hinner d hd (by omega)).2
      intro c hc hn
      refine ⟨?_, hpower c hc hn⟩
      rw [expression_eq hc]
      refine conditionalLevel_stopsAtFailure hc (fun d hd hcd => hpower d hd (by omega)) ?_
      exact fun d hd hcd => (hinner d hd (by omega)).1

theorem expression_stopsAtFailure {c : Cursor} (hc : c.In text) :
    (expression c).StopsAtFailure :=
  (goals_stopAtFailure (text.length + 1) 0 (by omega) c hc (Nat.zero_le _)).1

theorem definition_stopsAtFailure {c : Cursor} (hc : c.In text) :
    (definition c).StopsAtFailure := by
  refine .bind_right fun _ c₁ h₁ => ?_
  obtain ⟨hc₁, -⟩ := (word_alike (by decide)).advances c _ c₁ hc h₁
  refine .bind_right fun _ c₂ h₂ => ?_
  obtain ⟨hc₂, -⟩ := name_alike.advances c₁ _ c₂ hc₁ h₂
  refine .bind_right fun _ c₃ h₃ => ?_
  obtain ⟨hc₃, -⟩ := (word_alike (by decide)).advances c₂ _ c₃ hc₂ h₃
  refine .bind_right fun _ c₄ h₄ => ?_
  obtain ⟨hc₄, -⟩ := (separatedItems_alike name_alike (by decide)).advances c₃ _ c₄ hc₃ h₄
  refine .bind_right fun _ c₅ h₅ => ?_
  obtain ⟨hc₅, -⟩ := (word_alike (by decide)).advances c₄ _ c₅ hc₄ h₅
  exact .bind_pure (expression_stopsAtFailure hc₅) fun _ _ => ⟨_, rfl⟩

theorem assignment_stopsAtFailure {c : Cursor} (hc : c.In text) :
    (assignment c).StopsAtFailure := by
  refine .bind_right fun _ c₁ h₁ => ?_
  obtain ⟨hc₁, -⟩ := (keyword_alike (by decide)).advances c _ c₁ hc h₁
  refine .bind_right fun _ c₂ h₂ => ?_
  obtain ⟨hc₂, -⟩ := name_alike.advances c₁ _ c₂ hc₁ h₂
  refine .bind_right fun _ c₃ h₃ => ?_
  obtain ⟨hc₃, -⟩ := (word_alike (by decide)).advances c₂ _ c₃ hc₂ h₃
  exact .bind_pure (expression_stopsAtFailure hc₃) fun _ _ => ⟨_, rfl⟩

theorem statement_stopsAtFailure {c : Cursor} (hc : c.In text) :
    (statement c).StopsAtFailure := by
  have hblanks := hc.skipBlanks.1
  refine Rule.firstOf_stopsAtFailure fun rule hrule => ?_
  simp only [List.mem_cons, List.not_mem_nil, or_false] at hrule
  rcases hrule with rfl | rfl | rfl
  · exact definition_stopsAtFailure hblanks
  · exact assignment_stopsAtFailure hblanks
  · exact (expression_stopsAtFailure hblanks).map _

end Grammar

namespace Statement

variable {text : String} {t : Statement} {c : Cursor} {e : SyntaxError}

/-- A line that goes on behind a statement is refused at the farthest failure of the whole
reading, all of which were noted.  Some failure stands where the statement ends; if none
stands farther, text is left over, and otherwise the error is the one noted last of those
that got so far. -/
theorem parse_of_stops_short
    (hread : (statement (.ofText text.toList 0)).result = .ok (t, c))
    (hshort : c.pos < text.length) :
    ∃ far e, (statement (.ofText text.toList 0)).FailsUpTo far ∧ c.pos ≤ far ∧
      Statement.parse text = .error e ∧ e.start = max c.pos far ∧
      (e = ⟨"Unexpected trailing input", c.pos, text.length, ["end of input"], some c.describe⟩ ↔
        far ≤ c.pos) ∧
      (c.pos < far → (statement (.ofText text.toList 0)).lastNoted? far = some e) ∧
      ∀ f, f ∈ (statement (.ofText text.toList 0)).failures ↔
        f ∈ (statement (.ofText text.toList 0)).noted := by
  have hstart := Cursor.in_ofText text.toList
  obtain ⟨-, hstops, -, hlocated, haccounted⟩ := statement_alike (n := 0) _ hstart (Nat.zero_le _)
  have hstopsAt := statement_stopsAtFailure hstart
  rw [Statement.parse, Attempt.whole]
  generalize statement (.ofText text.toList 0) = x at *
  obtain ⟨hc, -⟩ := hstops t c hread
  have hlength : c.length = text.length := hc.length.trans String.length_toList
  have hnoted := haccounted.mem_failures_iff hread
  obtain ⟨stop, hstop, hstopPos⟩ := hstopsAt t c hread
  obtain ⟨g, hmem, hfarthest, hle, hlast⟩ := SyntaxError.exists_farthest? ((hnoted stop).1 hstop)
  have hg : g ∈ x.failures := (hnoted g).2 hmem
  have hfailsUpTo : x.FailsUpTo g.start := ⟨⟨g, hg, rfl⟩, fun f hf => hle f ((hnoted f).1 hf)⟩
  have hpos : c.pos ≤ g.start := hstopPos ▸ hfailsUpTo.start_le stop hstop
  have hend : c.atEnd = false := by
    rw [Cursor.atEnd, beq_eq_false_iff_ne, hlength]
    exact Nat.ne_of_lt hshort
  rw [hread]
  simp only [hend, hfarthest, Bool.false_eq_true, if_false]
  refine ⟨g.start, _, hfailsUpTo, hpos, rfl, ?_, ?_, fun hlt => ?_, hnoted⟩
  · split
    · exact (Nat.max_eq_right hpos).symm
    · rename_i hnear
      exact (Nat.max_eq_left (Nat.le_of_not_lt hnear)).symm
  · split
    · rename_i hlt
      refine iff_of_false (fun heq => ?_) (Nat.not_le_of_lt hlt)
      exact (hlocated g hg).message_ne (congrArg SyntaxError.message heq)
    · rename_i hnear
      refine iff_of_true ?_ (Nat.le_of_not_lt hnear)
      rw [trailingInput, hlength]
  · rw [if_pos hlt]
    exact hlast

theorem parse_of_stops_short_call :
    ∃ far e, (statement (.ofText "f(1+".toList 0)).FailsUpTo far ∧ 1 ≤ far ∧
      Statement.parse "f(1+" = .error e ∧ e.start = max 1 far ∧
      (e = ⟨"Unexpected trailing input", 1, 4, ["end of input"], some "'('"⟩ ↔ far ≤ 1) ∧
      (1 < far → (statement (.ofText "f(1+".toList 0)).lastNoted? far = some e) ∧
      ∀ f, f ∈ (statement (.ofText "f(1+".toList 0)).failures ↔
        f ∈ (statement (.ofText "f(1+".toList 0)).noted :=
  @parse_of_stops_short "f(1+" _ ⟨4, 1, ['(', '1', '+']⟩ rfl (by decide)

/-- A line on which no statement is read is refused with a failure of that reading.  It is
the farthest one, or the farthest one was lost where an operand was read as a name without
its arguments, or without its prefix. -/
theorem parse_of_failed (herror : (statement (.ofText text.toList 0)).result = .error e) :
    Statement.parse text = .error e ∧ e ∈ (statement (.ofText text.toList 0)).failures ∧
      ((statement (.ofText text.toList 0)).FailsUpTo e.start ∨
        ∃ g ∈ (statement (.ofText text.toList 0)).failures, e.start < g.start ∧
          (statement (.ofText text.toList 0)).FailsUpTo g.start ∧ g.Lost text.toList) := by
  obtain ⟨-, he, hwithin⟩ := statement_failsFarthest (Cursor.in_ofText text.toList) e herror
  rw [Statement.parse, Attempt.whole]
  generalize statement (.ofText text.toList 0) = x at *
  rw [herror]
  refine ⟨rfl, he, ?_⟩
  obtain ⟨far, hfar, -, hle, -⟩ := SyntaxError.exists_farthest? he
  rcases Nat.lt_or_ge e.start far.start with hlt | hge
  · rcases hwithin far hfar with hnear | ⟨g, hg, hfg, hlost⟩
    · exact absurd hlt (Nat.not_lt_of_le hnear)
    · refine .inr ⟨g, hg, hlt.trans_le hfg, ⟨⟨g, hg, rfl⟩, fun f hf => ?_⟩, hlost⟩
      exact (hle f hf).trans hfg
  · exact .inl ⟨⟨e, he, rfl⟩, fun f hf => (hle f hf).trans hge⟩

theorem parse_of_failed_parenthesis :
    ∃ e, Statement.parse "(f(1+" = .error e ∧
      e ∈ (statement (.ofText "(f(1+".toList 0)).failures ∧
      ((statement (.ofText "(f(1+".toList 0)).FailsUpTo e.start ∨
        ∃ g ∈ (statement (.ofText "(f(1+".toList 0)).failures, e.start < g.start ∧
          (statement (.ofText "(f(1+".toList 0)).FailsUpTo g.start ∧ g.Lost "(f(1+".toList) :=
  ⟨⟨"Expected ')'", 2, 3, ["')'"], some "'('"⟩, @parse_of_failed "(f(1+" _ rfl⟩

/-- In `(f(1+` the call is given up for the name `f`, and the missing operand at the end is
not reported. -/
theorem not_failsUpTo_of_failed :
    ¬ ∀ text e, (∃ f, (statement (.ofText text.toList 0)).result = .error f) →
      Statement.parse text = .error e → (statement (.ofText text.toList 0)).FailsUpTo e.start := by
  intro h
  have hreported := h "(f(1+" ⟨"Expected ')'", 2, 3, ["')'"], some "'('"⟩ ⟨_, rfl⟩ rfl
  have hmissing : (⟨"Expected '('", 5, 5, ["'('", "'['", "identifier", "integer", "number"],
      some "end of input"⟩ : SyntaxError) ∈ (statement (.ofText "(f(1+".toList 0)).failures := by
    decide +kernel
  exact absurd (hreported.start_le _ hmissing) (by decide)

end Statement

end PolarCalc
