import PolarCalc.Proofs.Session.Invariant
/-!
# Faults

What is not answered with a text ends in a fault.  A fault comes from evaluating
or from writing a value, and only the second kind leaves something behind: an
assignment is made before its value is written for the report.  With functions
that the grammar built and plugins that fail with errors only, all faults come
from numbers that are too large.
-/

namespace PolarCalc

open Outcome
section Faults

variable {σ : Type} (host : PluginHost σ) (depth : Nat)

/-! ## What a fault leaves behind -/

/-- A statement that ends in a fault leaves the environment as it was, but for an
assignment whose value cannot be written: that one is made. -/
theorem run_of_fault {s : Statement} {env : Environment} {plugins : Option σ} {f : Failure}
    (h : (s.run host depth env plugins).answer = .error f) :
    (s.body.outcome host depth env plugins = .error f ∧
        (s.run host depth env plugins).environment = env) ∨
      ∃ v, s.body.outcome host depth env plugins = .ok v ∧ v.text = .error f ∧
        ((s.head = .express ∧ (s.run host depth env plugins).environment = env) ∨
          ∃ name, s.head = .assign name ∧
            (s.run host depth env plugins).environment = env.setVariable name v) := by
  obtain ⟨head, body⟩ := s
  cases head with
  | define name params =>
      rw [run_define] at h
      cases h
  | express =>
      rw [run_express_answer] at h
      rw [run_express_environment]
      rcases fault_cases h with hvalue | ⟨v, hvalue, htext⟩
      · exact .inl ⟨hvalue, rfl⟩
      · exact .inr ⟨v, hvalue, htext, .inl ⟨rfl, rfl⟩⟩
  | assign name =>
      rw [run_assign_answer] at h
      rw [run_assign_environment]
      rcases fault_cases h with hvalue | ⟨v, hvalue, htext⟩
      · rw [hvalue]
        exact .inl ⟨rfl, rfl⟩
      · rw [hvalue]
        exact .inr ⟨v, rfl, htext, .inr ⟨name, rfl, rfl⟩⟩

end Faults

/-- A power of the imaginary unit whose angle is too large to be written. -/
def farAround : String := "let q = (j1_) ^ 100000000000000000000_"

theorem runLine_farAround :
    let host : PluginHost Unit := ⟨(), fun _ _ s => (.error .crash, s)⟩
    (runLine host 0 farAround default none).answer = .error .overflow ∧
      (runLine host 0 farAround default none).environment.vars.contains "q" = true := by
  decide +kernel

theorem run_of_fault_farAround :
    let host : PluginHost Unit := ⟨(), fun _ _ s => (.error .crash, s)⟩
    ∃ s, Statement.parse farAround = .ok s ∧
      (s.run host 0 default none).answer = .error .overflow ∧
      ((s.body.outcome host 0 default none = .error .overflow ∧
          (s.run host 0 default none).environment = default) ∨
        ∃ v, s.body.outcome host 0 default none = .ok v ∧ v.text = .error .overflow ∧
          ((s.head = .express ∧ (s.run host 0 default none).environment = default) ∨
            ∃ name, s.head = .assign name ∧
              (s.run host 0 default none).environment = Environment.setVariable default name v)) := by
  intro host
  have hanswer : (runLine host 0 farAround default none).answer = .error .overflow :=
    runLine_farAround.1
  cases hread : Statement.parse farAround with
  | error e =>
      rw [runLine_of_error hread] at hanswer
      cases hanswer
  | ok s =>
      rw [runLine_of_ok hread] at hanswer
      exact ⟨s, rfl, hanswer, run_of_fault host 0 hanswer⟩

/-- An assignment of a value that cannot be written ends in a fault and is made
nevertheless. -/
theorem run_faults_not_atomic :
    let host : PluginHost Unit := ⟨(), fun _ _ s => (.error .crash, s)⟩
    ∃ s, Statement.parse farAround = .ok s ∧
      (s.run host 0 default none).answer = .error .overflow ∧
      (default : Environment).vars.contains "q" = false ∧
      (s.run host 0 default none).environment.vars.contains "q" = true := by
  intro host
  obtain ⟨hanswer, hbound⟩ := runLine_farAround
  cases hread : Statement.parse farAround with
  | error e =>
      rw [runLine_of_error hread] at hanswer
      cases hanswer
  | ok s =>
      rw [runLine_of_ok hread] at hanswer hbound
      exact ⟨s, rfl, hanswer, rfl, hbound⟩

/-! ## Where faults come from -/

theorem meets_sound {σ : Type} {host : PluginHost σ}
    (hhost : ∀ library args state f, (host.execute library args state).1 = .error f →
      f.isError = true) : host.Meets .sound := by
  intro library args state _
  cases hreply : (host.execute library args state).1 with
  | ok v => exact .ok trivial
  | error f =>
      refine .error (.inr ?_)
      cases f with
      | error cause => exact .error cause
      | _ => cases hhost library args state _ hreply

/-- With functions that were read and plugins that fail with errors only, a line
within the depth of calls is answered with a text, or a number is too large.
There is no division by zero, no item sought that is not there, no value of a
wrong kind and no tree that is no expression; that no double is divided by zero
either is a proof that its quotient takes. -/
theorem runLine_answers {σ : Type} (host : PluginHost σ) (depth : Nat) (line : String)
    (env : Environment) (plugins : Option σ)
    (hbodies : ∀ name f, env.functions.get? name = some f → f.body.IsRead)
    (hhost : ∀ library args state f, (host.execute library args state).1 = .error f →
      f.isError = true)
    (hdepth : (runLine host depth line env plugins).answer ≠ .error .outOfDepth) :
    (∃ text, (runLine host depth line env plugins).answer = .ok text) ∨
      (runLine host depth line env plugins).answer = .error .overflow ∨
      (runLine host depth line env plugins).answer = .error .tooManyDigits := by
  have henv : env.Meets .sound := ⟨fun _ => trivial, fun hf => (hbodies _ _ hf).canonical⟩
  have hfails := runLine_answer_fails (meets_sound hhost) henv depth line plugins
  cases hanswer : (runLine host depth line env plugins).answer with
  | ok text => exact .inl ⟨text, rfl⟩
  | error f =>
      rw [hanswer] at hfails hdepth
      obtain ⟨hbad, hfault⟩ := hfails.of_error
      rcases hbad with rfl | ⟨⟨cause⟩ | ⟨hcapacity⟩⟩
      · exact absurd rfl hdepth
      · cases hfault
      · cases hcapacity with
        | overflow => exact .inr (.inl rfl)
        | tooManyDigits => exact .inr (.inr rfl)

/-- A call of a function whose body is its parameter. -/
theorem runLine_answers_call :
    let host : PluginHost Unit := ⟨(), fun _ _ s => (refuse (.missingDirectory "plugins"), s)⟩
    let body := Expr.bare .conditional (.bare .unary (.bare .power (.bare (.tier .product)
      (.bare (.tier .sum) (.bare (.tier .relational) (.term (.ident "x")))))))
    let env : Environment := { functions := ⟨[("f", ⟨["x"], body⟩)]⟩ }
    let line := "f(j1_) ^ 100000000000000000000_"
    (∀ name f, env.functions.get? name = some f → f.body.IsRead) ∧
      (∀ library args state f, (host.execute library args state).1 = .error f →
        f.isError = true) ∧
      (runLine host 1 line env none).answer ≠ .error .outOfDepth ∧
      ((∃ text, (runLine host 1 line env none).answer = .ok text) ∨
        (runLine host 1 line env none).answer = .error .overflow ∨
        (runLine host 1 line env none).answer = .error .tooManyDigits) := by
  intro host body env line
  have hread : Statement.parse "\\f(x) -> x" = .ok ⟨.define "f" ["x"], body⟩ := by decide +kernel
  have hbodies : ∀ name f, env.functions.get? name = some f → f.body.IsRead := by
    intro name f hf
    cases Bindings.mem_of_lookup hf with
    | head => exact ⟨_, _, hread⟩
    | tail _ hmem => cases hmem
  have hhost : ∀ library args state f, (host.execute library args state).1 = .error f →
      f.isError = true := by
    rintro library args state _ ⟨⟩
    rfl
  have hdepth : (runLine host 1 line env none).answer ≠ .error .outOfDepth := by decide +kernel
  exact ⟨hbodies, hhost, hdepth, runLine_answers host 1 line env none hbodies hhost hdepth⟩

end PolarCalc
