import PolarCalc.Proofs.Evaluation.Guarantee
import PolarCalc.Proofs.Grammar.Soundness
import PolarCalc.Proofs.Session.Answer
/-!
# Guarantees over lines and sessions

A line hands on what its expression guarantees: to its answer, of which only
faults fail, and to the environment, in which it may set a variable to a good
value or a function to a body that the grammar built.  So does a session of any
length.
-/

namespace PolarCalc

open Outcome

/-- The expression is what the grammar reads in some line. -/
def Expr.IsRead (e : Expr) : Prop := ∃ line head, Statement.parse line = .ok ⟨head, e⟩

theorem Expr.IsRead.canonical {e : Expr} (h : e.IsRead) : Canonical (.level .conditional) e := by
  obtain ⟨line, head, hread⟩ := h
  exact (Grammar.parse_sound hread).1.2

/-- The session after some lines, whatever they were answered with. -/
def Session.after {σ : Type} (host : PluginHost σ) (depth : Nat) (lines : List String)
    (s : Session σ) : Session σ :=
  lines.foldl (fun s line => (s.run host depth line).2) s

section Invariant

variable {σ : Type} {g : Guarantee} {host : PluginHost σ} {env : Environment}

theorem outcome_within (hhost : host.Meets g) (henv : env.Meets g) (depth : Nat)
    (plugins : Option σ) {e : Expr} (h : Canonical (.level .conditional) e) :
    Within g.good g.bad (e.outcome host depth env plugins) :=
  eval_ends hhost depth env e henv h _

theorem answerOf_fails {bad : Failure → Prop} {x : Outcome String} (h : Fails bad x) :
    Fails (fun f => bad f ∧ f.isError = false) (answerOf x) := by
  cases hanswer : answerOf x with
  | ok text => exact .ok trivial
  | error f =>
      obtain ⟨rfl, hf⟩ := answerOf_eq_error hanswer
      exact .error ⟨h.of_error, hf⟩

theorem written_fails {x : Outcome Value} (hx : Within g.good g.bad x)
    (report : String → String) : Fails g.bad (x.bind fun v => v.text.map report) := by
  refine hx.bind fun v _ => ?_
  rcases v.text_cases with ⟨text, htext, -⟩ | ⟨f, htext, hf⟩
  · rw [htext]
    exact .ok trivial
  · rw [htext]
    exact .error (g.foreseen (.capacity hf))

theorem run_answer_fails (hhost : host.Meets g) (henv : env.Meets g) (depth : Nat)
    (plugins : Option σ) {s : Statement} (h : Canonical (.level .conditional) s.body) :
    Fails (fun f => g.bad f ∧ f.isError = false) (s.run host depth env plugins).answer := by
  obtain ⟨head, body⟩ := s
  have hvalue := outcome_within hhost henv depth plugins h
  cases head with
  | define name params => exact .ok trivial
  | express =>
      rw [run_express_answer]
      exact answerOf_fails (written_fails hvalue _)
  | assign name =>
      rw [run_assign_answer]
      exact answerOf_fails (written_fails hvalue _)

theorem run_environment_meets (hhost : host.Meets g) (henv : env.Meets g) (depth : Nat)
    (plugins : Option σ) {s : Statement} (h : Canonical (.level .conditional) s.body) :
    (s.run host depth env plugins).environment.Meets g := by
  obtain ⟨head, body⟩ := s
  cases head with
  | define name params => exact henv.setFunction name h
  | express => exact henv
  | assign name =>
      have hvalue := outcome_within hhost henv depth plugins h
      rw [run_assign_environment]
      cases hv : Expr.outcome host depth env plugins body with
      | error f => exact henv
      | ok v =>
          rw [hv] at hvalue
          exact henv.setVariable name hvalue.of_ok

theorem runLine_answer_fails (hhost : host.Meets g) (henv : env.Meets g) (depth : Nat)
    (line : String) (plugins : Option σ) :
    Fails (fun f => g.bad f ∧ f.isError = false) (runLine host depth line env plugins).answer := by
  cases hread : Statement.parse line with
  | error e =>
      rw [runLine_of_error hread]
      exact .ok trivial
  | ok s =>
      rw [runLine_of_ok hread]
      exact run_answer_fails hhost henv depth plugins (Grammar.parse_sound hread).1.2

theorem runLine_environment_meets (hhost : host.Meets g) (henv : env.Meets g) (depth : Nat)
    (line : String) (plugins : Option σ) :
    (runLine host depth line env plugins).environment.Meets g := by
  cases hread : Statement.parse line with
  | error e =>
      rw [runLine_of_error hread]
      exact henv
  | ok s =>
      rw [runLine_of_ok hread]
      exact run_environment_meets hhost henv depth plugins (Grammar.parse_sound hread).1.2

/-- A guarantee that holds at the start of a session holds after every line. -/
theorem after_meets (hhost : host.Meets g) (depth : Nat) (lines : List String) {s : Session σ}
    (h : s.environment.Meets g) : (s.after host depth lines).environment.Meets g := by
  induction lines generalizing s with
  | nil => exact h
  | cons line lines ih => exact ih (runLine_environment_meets hhost h depth line _)

end Invariant

end PolarCalc
