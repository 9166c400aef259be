import PolarCalc.CommandLine
import PolarCalc.Proofs.Evaluation.Text
/-!
# Answers to lines

What a statement is answered with and what it leaves behind, one equation for
each kind of statement, and how the texts of the answers begin: reports name what
they did, and nothing but the report of an error begins with its mark.
-/

namespace PolarCalc

open Outcome
open Failure (IsCapacity)

/-- What an expression comes to where it is evaluated first. -/
def Expr.outcome {σ : Type} (host : PluginHost σ) (depth : Nat) (env : Environment)
    (plugins : Option σ) (e : Expr) : Outcome Value :=
  (eval host depth env e ⟨plugins, []⟩).1

/-! ## Runs of statements -/

section Runs

variable {σ : Type} (host : PluginHost σ) (depth : Nat) {env : Environment} {plugins : Option σ}

theorem run_define (name : String) (params : List String) (body : Expr) (env : Environment)
    (plugins : Option σ) :
    Statement.run host depth ⟨.define name params, body⟩ env plugins =
      ⟨.ok (definitionReport (env.functions.contains name) name params),
        env.setFunction name ⟨params, body⟩, plugins,
        [.defined (env.functions.contains name) name params]⟩ := rfl

theorem run_express_environment (e : Expr) (env : Environment) (plugins : Option σ) :
    (Statement.run host depth ⟨.express, e⟩ env plugins).environment = env := rfl

theorem run_express_answer (e : Expr) (env : Environment) (plugins : Option σ) :
    (Statement.run host depth ⟨.express, e⟩ env plugins).answer =
      answerOf ((e.outcome host depth env plugins).bind fun v => v.text.map id) := by
  have hid : (fun v : Value => v.text.map id) = Value.text := by
    funext v
    cases v.text <;> rfl
  rw [hid]
  rfl

/-- A value is assigned before it is written, and kept if it cannot be written. -/
theorem run_assign_environment (name : String) (e : Expr) (env : Environment)
    (plugins : Option σ) :
    (Statement.run host depth ⟨.assign name, e⟩ env plugins).environment =
      match e.outcome host depth env plugins with
      | .ok v => env.setVariable name v
      | .error _ => env := by
  simp only [Statement.run, Expr.outcome]
  cases eval host depth env e ⟨plugins, []⟩ with
  | mk result m =>
      cases result with
      | error f => rfl
      | ok v =>
          simp only
          cases v.text <;> rfl

theorem run_assign_answer (name : String) (e : Expr) (env : Environment) (plugins : Option σ) :
    (Statement.run host depth ⟨.assign name, e⟩ env plugins).answer =
      answerOf ((e.outcome host depth env plugins).bind fun v =>
        v.text.map (assignmentReport (env.vars.contains name) name)) := by
  simp only [Statement.run, Expr.outcome]
  cases eval host depth env e ⟨plugins, []⟩ with
  | mk result m =>
      cases result with
      | error f => rfl
      | ok v =>
          simp only [Except.bind]
          cases v.text <;> rfl

variable {host depth}

theorem runLine_of_error {line : String} {e : SyntaxError} (h : Statement.parse line = .error e) :
    runLine host depth line env plugins = ⟨.ok e.line, env, plugins, []⟩ := by
  rw [runLine, h]

theorem runLine_of_ok {line : String} {s : Statement} (h : Statement.parse line = .ok s) :
    runLine host depth line env plugins = s.run host depth env plugins := by
  rw [runLine, h]

end Runs

/-! ## Errors and faults -/

theorem answerOf_eq_ok {x : Outcome String} {text : String} (h : answerOf x = .ok text) :
    x = .ok text ∨ ∃ cause, x = .error (.error cause) ∧ text = errorLine cause.message := by
  cases x with
  | ok written => exact .inl h
  | error f =>
      cases f with
      | error cause => exact .inr ⟨cause, rfl, (Except.ok.inj h).symm⟩
      | _ => cases h

theorem answerOf_eq_error {x : Outcome String} {f : Failure} (h : answerOf x = .error f) :
    x = .error f ∧ f.isError = false := by
  cases x with
  | ok written => cases h
  | error g =>
      cases g with
      | error cause => cases h
      | _ =>
          cases h
          exact ⟨rfl, rfl⟩

namespace Value

theorem text_cases (v : Value) :
    (∃ text, v.text = .ok text ∧ BeginsApart text.toList) ∨ ∃ f, v.text = .error f ∧ f.IsCapacity := by
  have hwithin := v.text_within
  cases htext : v.text with
  | ok text =>
      rw [htext] at hwithin
      exact .inl ⟨text, rfl, hwithin.of_ok⟩
  | error f =>
      rw [htext] at hwithin
      exact .inr ⟨f, rfl, hwithin.of_error⟩

theorem map_text_ne_refused (v : Value) (report : String → String) (cause : EvalError) :
    v.text.map report ≠ .error (.error cause) := by
  intro h
  rcases v.text_cases with ⟨text, htext, -⟩ | ⟨f, htext, hf⟩
  · rw [htext] at h
    cases h
  · rw [htext] at h
    cases h
    cases hf

end Value

theorem answered_cases {x : Outcome Value} {report : String → String} {text : String}
    (h : answerOf (x.bind fun v => v.text.map report) = .ok text) :
    (∃ v shown, x = .ok v ∧ v.text = .ok shown ∧ text = report shown) ∨
      ∃ cause, x = .error (.error cause) ∧ text = errorLine cause.message := by
  cases x with
  | error f =>
      rcases answerOf_eq_ok h with hok | ⟨cause, herror, htext⟩
      · cases hok
      · cases herror
        exact .inr ⟨cause, rfl, htext⟩
  | ok v =>
      rcases answerOf_eq_ok h with hok | ⟨cause, herror, -⟩
      · change v.text.map report = .ok text at hok
        rcases v.text_cases with ⟨shown, hshown, -⟩ | ⟨f, hshown, -⟩
        · rw [hshown] at hok
          exact .inl ⟨v, shown, rfl, hshown, (Except.ok.inj hok).symm⟩
        · rw [hshown] at hok
          cases hok
      · exact absurd herror (v.map_text_ne_refused report cause)

theorem fault_cases {x : Outcome Value} {report : String → String} {f : Failure}
    (h : answerOf (x.bind fun v => v.text.map report) = .error f) :
    x = .error f ∨ ∃ v, x = .ok v ∧ v.text = .error f := by
  obtain ⟨hfault, -⟩ := answerOf_eq_error h
  cases x with
  | error g =>
      cases hfault
      exact .inl rfl
  | ok v =>
      change v.text.map report = .error f at hfault
      rcases v.text_cases with ⟨shown, hshown, -⟩ | ⟨g, hshown, -⟩
      · rw [hshown] at hfault
        cases hfault
      · rw [hshown] at hfault
        cases hfault
        exact .inr ⟨v, rfl, hshown⟩

/-! ## How answers begin -/

/-- The text begins with a word. -/
def Says (word text : String) : Prop := word.toList <+: text.toList

instance (word text : String) : Decidable (Says word text) :=
  inferInstanceAs (Decidable (word.toList <+: text.toList))

/-- The text begins with the mark of an error. -/
def ReportsError (text : String) : Prop := CommandLine.errorMark <+: text.toList

instance (text : String) : Decidable (ReportsError text) :=
  inferInstanceAs (Decidable (CommandLine.errorMark <+: text.toList))

theorem reportsError_errorLine (message : String) : ReportsError (errorLine message) := by
  rw [ReportsError, errorLine, String.toList_append]
  exact ⟨' ' :: message.toList, rfl⟩

theorem BeginsApart.not_reportsError {text : String} (h : BeginsApart text.toList) :
    ¬ ReportsError text := by
  obtain ⟨c, rest, htext, hc⟩ := h
  rintro ⟨after, hafter⟩
  rw [htext] at hafter
  exact hc (List.cons.inj hafter).1.symm

/-- The word that a report begins with. -/
def reportWord (existed : Bool) : String := if existed then "Updated" else "Added"

theorem says_append {word text : String} (h : Says word text) (rest : String) :
    Says word (text ++ rest) := by
  rw [Says, String.toList_append]
  exact h.trans (List.prefix_append _ _)

theorem says_assignmentReport (existed : Bool) (name shown : String) :
    Says (reportWord existed) (assignmentReport existed name shown) := by
  have hadded : Says "Added" "Added var '" := by decide
  have hupdated : Says "Updated" "Updated var '" := by decide
  cases existed with
  | false => exact says_append (says_append (says_append (says_append hadded _) _) _) _
  | true => exact says_append (says_append (says_append hupdated _) _) _

theorem says_definitionReport (existed : Bool) (name : String) (params : List String) :
    Says (reportWord existed) (definitionReport existed name params) := by
  have hadded : Says "Added" "Added function '" := by decide
  have hupdated : Says "Updated" "Updated function '" := by decide
  cases existed with
  | false => exact says_append (says_append (says_append (says_append hadded _) _) _) _
  | true => exact says_append (says_append hupdated _) _

theorem says_added_iff {existed : Bool} {text : String} (h : Says (reportWord existed) text) :
    Says "Added" text ↔ existed = false := by
  cases existed with
  | false => exact ⟨fun _ => rfl, fun _ => h⟩
  | true =>
      refine ⟨fun hadded => ?_, nofun⟩
      rcases List.prefix_or_prefix_of_prefix h hadded with hprefix | hprefix
      · exact absurd hprefix (by decide)
      · exact absurd hprefix (by decide)

theorem not_reportsError_of_report {existed : Bool} {text : String}
    (h : Says (reportWord existed) text) : ¬ ReportsError text := by
  intro herror
  have happart : ∀ b, ¬ (reportWord b).toList <+: CommandLine.errorMark ∧
      ¬ CommandLine.errorMark <+: (reportWord b).toList := by
    decide
  rcases List.prefix_or_prefix_of_prefix h herror with hprefix | hprefix
  · exact (happart existed).1 hprefix
  · exact (happart existed).2 hprefix

end PolarCalc
