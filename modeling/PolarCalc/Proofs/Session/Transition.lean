import Mathlib.Data.List.Basic
import PolarCalc.Proofs.Session.Binding
/-!
# What a line changes and what it says

Every line that is answered with a text obeys the law of its kind: `Transition`
lists what may change, what the text is, and that an error is reported exactly
for a line that was refused.  Of the lines of a session that bind a name which was
not bound at the start, exactly the first one says `Added`: where all lines are
answered this is a case of `added_iff_of_lines`, which allows for lines that are not.
-/

namespace PolarCalc

namespace Head

/-- Does a statement with this head bind the name in that way? -/
def binds : Head → Binder → String → Bool
  | assign name, .assignment, other => name == other
  | define name _, .definition, other => name == other
  | _, _, _ => false

/-- Is the expression behind the head evaluated?  The body of a function is not. -/
def evaluates : Head → Bool
  | define _ _ => false
  | _ => true

end Head

section Law

variable {σ : Type} (host : PluginHost σ) (depth : Nat) (line : String) (before : Environment)
  (plugins : Option σ)

/-- The line cannot be read, or what it evaluates ends in an error. -/
inductive Refused : Prop
  | unread {e : SyntaxError} : Statement.parse line = .error e → Refused
  | unevaluated {s : Statement} {cause : EvalError} : Statement.parse line = .ok s →
      s.head.evaluates = true → s.body.outcome host depth before plugins = .error (.error cause) →
      Refused

/-- How a line that is answered with `text` leads from one environment to the
next. -/
structure Transition (after : Environment) (text : String) : Prop where
  reportsError_iff : ReportsError text ↔ Refused host depth line before plugins
  refused : Refused host depth line before plugins → after = before
  express {e : Expr} : Statement.parse line = .ok ⟨.express, e⟩ →
    after = before ∧ (¬ Refused host depth line before plugins →
      ∃ v, e.outcome host depth before plugins = .ok v ∧ v.text = .ok text)
  assign {name : String} {e : Expr} : Statement.parse line = .ok ⟨.assign name, e⟩ →
    ¬ Refused host depth line before plugins →
      after.functions = before.functions ∧
      ∃ v shown, e.outcome host depth before plugins = .ok v ∧ v.text = .ok shown ∧
        (∀ other, after.vars.get? other =
          if name = other then some v else before.vars.get? other) ∧
        text = assignmentReport (before.binds .assignment name) name shown
  define {name : String} {params : List String} {body : Expr} :
    Statement.parse line = .ok ⟨.define name params, body⟩ →
      after.vars = before.vars ∧
      (∀ other, after.functions.get? other =
        if name = other then some ⟨params, body⟩ else before.functions.get? other) ∧
      text = definitionReport (before.binds .definition name) name params

variable {host depth line before plugins}

theorem not_refused_of_define {name : String} {params : List String} {body : Expr}
    (h : Statement.parse line = .ok ⟨.define name params, body⟩) :
    ¬ Refused host depth line before plugins := by
  rintro (hread | ⟨hread, hhead, -⟩)
  · cases h.symm.trans hread
  · cases h.symm.trans hread
    cases hhead

theorem not_refused_of_ok {s : Statement} {v : Value} (h : Statement.parse line = .ok s)
    (hv : s.body.outcome host depth before plugins = .ok v) :
    ¬ Refused host depth line before plugins := by
  rintro (hread | ⟨hread, -, hcause⟩)
  · cases h.symm.trans hread
  · cases h.symm.trans hread
    cases hv.symm.trans hcause

theorem transition_unread {e : SyntaxError} (h : Statement.parse line = .error e) :
    Transition host depth line before plugins before e.line where
  reportsError_iff := ⟨fun _ => .unread h, fun _ => reportsError_errorLine _⟩
  refused _ := rfl
  express hread := nomatch h.symm.trans hread
  assign hread := nomatch h.symm.trans hread
  define hread := nomatch h.symm.trans hread

theorem transition_define {name : String} {params : List String} {body : Expr}
    (h : Statement.parse line = .ok ⟨.define name params, body⟩) :
    Transition host depth line before plugins (before.setFunction name ⟨params, body⟩)
      (definitionReport (before.binds .definition name) name params) where
  reportsError_iff :=
    iff_of_false (not_reportsError_of_report (says_definitionReport ..)) (not_refused_of_define h)
  refused hrefused := absurd hrefused (not_refused_of_define h)
  express hread := nomatch h.symm.trans hread
  assign hread := nomatch h.symm.trans hread
  define hread := by
    cases h.symm.trans hread
    exact ⟨rfl, fun other => Bindings.get?_set .., rfl⟩

theorem transition_unevaluated {s : Statement} {cause : EvalError}
    (h : Statement.parse line = .ok s) (hhead : s.head.evaluates = true)
    (hcause : s.body.outcome host depth before plugins = .error (.error cause)) :
    Transition host depth line before plugins before (errorLine cause.message) where
  reportsError_iff := iff_of_true (reportsError_errorLine _) (.unevaluated h hhead hcause)
  refused _ := rfl
  express _ := ⟨rfl, absurd (.unevaluated h hhead hcause)⟩
  assign _ := absurd (.unevaluated h hhead hcause)
  define hread := by
    cases h.symm.trans hread
    cases hhead

theorem transition_express {e : Expr} {v : Value} {text : String}
    (h : Statement.parse line = .ok ⟨.express, e⟩)
    (hv : e.outcome host depth before plugins = .ok v) (htext : v.text = .ok text) :
    Transition host depth line before plugins before text := by
  have hapart : BeginsApart text.toList := by
    have hwithin := v.text_within
    rw [htext] at hwithin
    exact hwithin.of_ok
  have hnot : ¬ Refused host depth line before plugins := not_refused_of_ok h hv
  exact {
    reportsError_iff := iff_of_false hapart.not_reportsError hnot
    refused := fun _ => rfl
    express := fun hread => by
      cases h.symm.trans hread
      exact ⟨rfl, fun _ => ⟨v, hv, htext⟩⟩
    assign := fun hread => nomatch h.symm.trans hread
    define := fun hread => nomatch h.symm.trans hread }

theorem transition_assign {name : String} {e : Expr} {v : Value} {shown : String}
    (h : Statement.parse line = .ok ⟨.assign name, e⟩)
    (hv : e.outcome host depth before plugins = .ok v) (hshown : v.text = .ok shown) :
    Transition host depth line before plugins (before.setVariable name v)
      (assignmentReport (before.binds .assignment name) name shown) where
  reportsError_iff := iff_of_false (not_reportsError_of_report (says_assignmentReport ..))
    (not_refused_of_ok h hv)
  refused hrefused := absurd hrefused (not_refused_of_ok h hv)
  express hread := nomatch h.symm.trans hread
  assign hread _ := by
    cases h.symm.trans hread
    exact ⟨rfl, v, shown, hv, hshown, fun other => Bindings.get?_set .., rfl⟩
  define hread := nomatch h.symm.trans hread

/-- Every line that is answered with a text obeys the law of its kind. -/
theorem runLine_transition {text : String}
    (h : (runLine host depth line before plugins).answer = .ok text) :
    Transition host depth line before plugins
      (runLine host depth line before plugins).environment text := by
  cases hread : Statement.parse line with
  | error e =>
      rw [runLine_of_error hread] at h ⊢
      cases h
      exact transition_unread hread
  | ok s =>
      obtain ⟨head, body⟩ := s
      rw [runLine_of_ok hread] at h ⊢
      cases head with
      | define name params =>
          rw [run_define] at h ⊢
          cases h
          exact transition_define hread
      | express =>
          rw [run_express_answer] at h
          rw [run_express_environment]
          rcases answered_cases h with ⟨v, shown, hv, hshown, rfl⟩ | ⟨cause, hcause, rfl⟩
          · exact transition_express hread hv hshown
          · exact transition_unevaluated hread rfl hcause
      | assign name =>
          rw [run_assign_answer] at h
          rw [run_assign_environment]
          rcases answered_cases h with ⟨v, shown, hv, hshown, rfl⟩ | ⟨cause, hcause, rfl⟩
          · rw [hv]
            exact transition_assign hread hv hshown
          · rw [hcause]
            exact transition_unevaluated hread rfl hcause

end Law

/-! ## Sessions -/

/-- The lines of a session in which every line is answered, each with its text. -/
abbrev Record := List (String × String)

namespace Record

/-- The line of the entry binds the name, and its answer reports no error. -/
def Binds (way : Binder) (name : String) (entry : String × String) : Prop :=
  (∃ s, Statement.parse entry.1 = .ok s ∧ s.head.binds way name = true) ∧ ¬ ReportsError entry.2

end Record

/-- The session runs the lines of the record, and they are answered as it says. -/
inductive Session.Runs {σ : Type} (host : PluginHost σ) (depth : Nat) :
    Session σ → Record → Session σ → Prop
  | nil (s : Session σ) : Runs host depth s [] s
  | cons {s last : Session σ} {line text : String} {rest : Record} :
      (s.run host depth line).1.answer = .ok text →
      Runs host depth (s.run host depth line).2 rest last →
      Runs host depth s ((line, text) :: rest) last

section Sessions

open Record (Binds)

variable {σ : Type} {host : PluginHost σ} {depth : Nat} {line text name : String} {way : Binder}

/-- The record tells which of the answered lines bind a name. -/
theorem Transition.record_binds_iff {before after : Environment} {plugins : Option σ}
    (h : Transition host depth line before plugins after text) :
    Binds way name (line, text) ↔ LineBinds host depth line before plugins way name := by
  constructor
  · rintro ⟨⟨⟨head, body⟩, hread, hhead⟩, herror⟩
    have hrefused : ¬ Refused host depth line before plugins := fun hrefused =>
      herror (h.reportsError_iff.2 hrefused)
    cases head with
    | express => cases hhead
    | assign target =>
        obtain ⟨-, v, -, hv, -⟩ := h.assign hread hrefused
        rw [lineBinds_of_assign hread]
        cases way with
        | assignment => exact ⟨⟨rfl, by simpa [Head.binds] using hhead⟩, v, hv⟩
        | definition => cases hhead
    | define target params =>
        rw [lineBinds_of_define hread]
        cases way with
        | assignment => cases hhead
        | definition => exact ⟨rfl, by simpa [Head.binds] using hhead⟩
  · rintro (⟨hread, hv⟩ | hread)
    · exact ⟨⟨_, hread, by simp [Head.binds]⟩, fun herror =>
        not_refused_of_ok hread hv (h.reportsError_iff.1 herror)⟩
    · exact ⟨⟨_, hread, by simp [Head.binds]⟩, fun herror =>
        not_refused_of_define hread (h.reportsError_iff.1 herror)⟩

theorem Session.Runs.append {s last : Session σ} {front back : Record}
    (h : Runs host depth s (front ++ back) last) :
    ∃ middle, Runs host depth s front middle ∧ Runs host depth middle back last := by
  induction front generalizing s with
  | nil => exact ⟨s, .nil s, h⟩
  | cons entry front ih =>
      cases h with
      | cons hanswer h =>
          obtain ⟨middle, hfront, hback⟩ := ih h
          exact ⟨middle, .cons hanswer hfront, hback⟩

theorem Session.Runs.after_eq {s last : Session σ} {record : Record}
    (h : Runs host depth s record last) : s.after host depth (record.map (·.1)) = last := by
  induction h with
  | nil s => rfl
  | cons _ _ ih => exact ih

theorem Session.Runs.binds_iff {s last : Session σ} {record : Record}
    (h : Runs host depth s record last) :
    s.Binds host depth way name (record.map (·.1)) ↔
      ∃ entry ∈ record, Record.Binds way name entry := by
  induction h with
  | nil s => exact iff_of_false nofun (by simp)
  | @cons s last line text rest hanswer _ ih =>
      rw [List.map_cons, Session.binds_cons_iff, ih,
        ← (runLine_transition hanswer).record_binds_iff]
      simp only [List.mem_cons, exists_eq_or_imp]

/-- Every line that is answered obeys the law of its kind.  Hence over a session,
of the lines that bind a name which was not bound at the start, exactly the first
one says `Added`. -/
theorem transitions_of_session (host : PluginHost σ) (depth : Nat) :
    (∀ line before plugins text, (runLine host depth line before plugins).answer = .ok text →
      Transition host depth line before plugins
        (runLine host depth line before plugins).environment text) ∧
    ∀ start record last, Session.Runs host depth start record last →
      ∀ way name, start.environment.binds way name = false →
        ∀ earlier line text later, record = earlier ++ (line, text) :: later →
          Binds way name (line, text) →
            (Says "Added" text ↔ ∀ entry ∈ earlier, ¬ Binds way name entry) := by
  refine ⟨fun _ _ _ _ h => runLine_transition h, ?_⟩
  rintro start _ last hruns way name hstart earlier line text later rfl hbinds
  obtain ⟨middle, hearlier, hrest⟩ := hruns.append
  obtain rfl := hearlier.after_eq
  cases hrest with
  | cons hanswer _ =>
      have hline := (runLine_transition hanswer).record_binds_iff.1 hbinds
      obtain ⟨hadded, -⟩ := added_iff_of_lines host depth start _ line way name hstart hline
      rw [hadded text hanswer, hearlier.binds_iff]
      simp only [not_exists, not_and]

/-- A variable that is set twice, and what is said the first time and the second
time. -/
theorem transitions_of_session_set_twice :
    let host : PluginHost Unit := ⟨(), fun _ _ s => (.error .crash, s)⟩
    let first := ("let a = 1_", "Added var 'a' with value 1 to environment.")
    let second := ("let a = 2_", "Updated var 'a' to 2")
    let start := Session.start host default
    (runLine host 0 first.1 default none).answer = .ok first.2 ∧
      Transition host 0 first.1 default none (runLine host 0 first.1 default none).environment
        first.2 ∧
      (∃ last, Session.Runs host 0 start [first, second] last) ∧
      start.environment.binds .assignment "a" = false ∧ Binds .assignment "a" second ∧
      (Says "Added" second.2 ↔ ∀ entry ∈ [first], ¬ Binds .assignment "a" entry) := by
  intro host first second start
  have hanswer : (runLine host 0 first.1 default none).answer = .ok first.2 := by decide +kernel
  have hruns : ∃ last, Session.Runs host 0 start [first, second] last :=
    ⟨_, .cons (by decide +kernel) (.cons (by decide +kernel) (.nil _))⟩
  have hread : Statement.parse second.1 = .ok ⟨.assign "a", .bare .conditional (.bare .unary
      (.bare .power (.bare (.tier .product) (.bare (.tier .sum) (.bare (.tier .relational)
        (.term (.integer "2_")))))))⟩ := by
    decide +kernel
  have hbinds : Binds .assignment "a" second :=
    ⟨⟨_, hread, rfl⟩, (by decide : ¬ ReportsError "Updated var 'a' to 2")⟩
  obtain ⟨last, hlast⟩ := hruns
  refine ⟨hanswer, (transitions_of_session host 0).1 _ _ _ _ hanswer, ⟨last, hlast⟩, rfl, hbinds, ?_⟩
  exact (transitions_of_session host 0).2 start _ last hlast .assignment "a" rfl [first] _ _ []
    rfl hbinds

end Sessions

end PolarCalc
