import PolarCalc.Proofs.Session.Invariant
/-!
# Names that lines bind

A line binds a name if it is read as a definition of it, or as an assignment to it whose
value was found.  It does so even where it is not answered: a value is assigned before it
is written, and one that cannot be written stays assigned.  With that kind of line counted,
a name is bound after any lines exactly if it was at the start or one of them bound it, and
of the answered lines that bind it the first one says `Added` unless a line that was not
answered bound it before.
-/

namespace PolarCalc

/-- The two ways in which a line binds a name. -/
inductive Binder where
  | assignment
  | definition
  deriving DecidableEq, Repr

namespace Environment

/-- Is the name bound in that way? -/
def binds (env : Environment) : Binder → String → Bool
  | .assignment, name => env.vars.contains name
  | .definition, name => env.functions.contains name

variable (env : Environment) (target name : String) (way : Binder)

theorem binds_setVariable (v : Value) :
    (env.setVariable target v).binds way name = true ↔
      env.binds way name = true ∨ (way = .assignment ∧ target = name) := by
  cases way with
  | assignment =>
      simp only [setVariable, binds, Bindings.contains, Bindings.get?_set]
      by_cases htarget : target = name <;> simp [htarget]
  | definition => simp [setVariable, binds]

theorem binds_setFunction (f : UserFunction) :
    (env.setFunction target f).binds way name = true ↔
      env.binds way name = true ∨ (way = .definition ∧ target = name) := by
  cases way with
  | assignment => simp [setFunction, binds]
  | definition =>
      simp only [setFunction, binds, Bindings.contains, Bindings.get?_set]
      by_cases htarget : target = name <;> simp [htarget]

end Environment

/-! ## One line -/

section Line

variable {σ : Type} (host : PluginHost σ) (depth : Nat) (line : String) (before : Environment)
  (plugins : Option σ)

/-- The line binds the name in that way, whether or not it is answered. -/
inductive LineBinds : Binder → String → Prop
  | assignment {name : String} {e : Expr} {v : Value}
      (h : Statement.parse line = .ok ⟨.assign name, e⟩)
      (hv : e.outcome host depth before plugins = .ok v) : LineBinds .assignment name
  | definition {name : String} {params : List String} {body : Expr}
      (h : Statement.parse line = .ok ⟨.define name params, body⟩) : LineBinds .definition name

variable {host depth line before plugins} {way : Binder} {target name : String}

theorem lineBinds_of_assign {e : Expr} (h : Statement.parse line = .ok ⟨.assign target, e⟩) :
    LineBinds host depth line before plugins way name ↔
      (way = .assignment ∧ target = name) ∧ ∃ v, e.outcome host depth before plugins = .ok v := by
  constructor
  · rintro (⟨hread, hv⟩ | hread)
    · cases h.symm.trans hread
      exact ⟨⟨rfl, rfl⟩, _, hv⟩
    · cases h.symm.trans hread
  · rintro ⟨⟨rfl, rfl⟩, v, hv⟩
    exact .assignment h hv

theorem lineBinds_of_define {params : List String} {body : Expr}
    (h : Statement.parse line = .ok ⟨.define target params, body⟩) :
    LineBinds host depth line before plugins way name ↔ way = .definition ∧ target = name := by
  constructor
  · rintro (⟨hread, -⟩ | hread)
    · cases h.symm.trans hread
    · cases h.symm.trans hread
      exact ⟨rfl, rfl⟩
  · rintro ⟨rfl, rfl⟩
    exact .definition h

theorem not_lineBinds_of_error {e : SyntaxError} (h : Statement.parse line = .error e) :
    ¬ LineBinds host depth line before plugins way name := by
  rintro (⟨hread, -⟩ | hread) <;> cases h.symm.trans hread

theorem not_lineBinds_of_express {e : Expr} (h : Statement.parse line = .ok ⟨.express, e⟩) :
    ¬ LineBinds host depth line before plugins way name := by
  rintro (⟨hread, -⟩ | hread) <;> cases h.symm.trans hread

/-- A name is bound after a line if it was before or the line binds it. -/
theorem runLine_binds_iff :
    (runLine host depth line before plugins).environment.binds way name = true ↔
      before.binds way name = true ∨ LineBinds host depth line before plugins way name := by
  cases hread : Statement.parse line with
  | error e => rw [runLine_of_error hread, or_iff_left (not_lineBinds_of_error hread)]
  | ok s =>
      obtain ⟨head, body⟩ := s
      rw [runLine_of_ok hread]
      cases head with
      | express => rw [run_express_environment, or_iff_left (not_lineBinds_of_express hread)]
      | assign target =>
          rw [run_assign_environment, lineBinds_of_assign hread]
          cases hv : body.outcome host depth before plugins with
          | error f => simp
          | ok v => simp [Environment.binds_setVariable]
      | define target params =>
          rw [run_define, lineBinds_of_define hread]
          exact Environment.binds_setFunction ..

theorem LineBinds.reports {text : String} (h : LineBinds host depth line before plugins way name)
    (hanswer : (runLine host depth line before plugins).answer = .ok text) :
    Says (reportWord (before.binds way name)) text := by
  cases h with
  | assignment hread hv =>
      rw [runLine_of_ok hread, run_assign_answer] at hanswer
      rcases answered_cases hanswer with ⟨_, shown, -, -, rfl⟩ | ⟨cause, hcause, -⟩
      · exact says_assignmentReport ..
      · cases hv.symm.trans hcause
  | definition hread =>
      rw [runLine_of_ok hread, run_define] at hanswer
      cases hanswer
      exact says_definitionReport ..

/-- A line that binds a name and is not answered assigns a value that cannot be written. -/
theorem LineBinds.unwritten {f : Failure} (h : LineBinds host depth line before plugins way name)
    (hanswer : (runLine host depth line before plugins).answer = .error f) :
    way = .assignment ∧ ∃ e v, Statement.parse line = .ok ⟨.assign name, e⟩ ∧
      e.outcome host depth before plugins = .ok v ∧ v.text = .error f ∧
      (runLine host depth line before plugins).environment = before.setVariable name v := by
  cases h with
  | @assignment _ e v hread hv =>
      rw [runLine_of_ok hread, run_assign_answer] at hanswer
      rcases fault_cases hanswer with hvalue | ⟨w, hw, htext⟩
      · cases hv.symm.trans hvalue
      · cases hv.symm.trans hw
        refine ⟨rfl, e, v, hread, hv, htext, ?_⟩
        rw [runLine_of_ok hread, run_assign_environment, hv]
  | definition hread =>
      rw [runLine_of_ok hread, run_define] at hanswer
      cases hanswer

end Line

/-! ## Any number of lines -/

/-- One of the lines binds the name in that way when it is run. -/
inductive Session.Binds {σ : Type} (host : PluginHost σ) (depth : Nat) (way : Binder)
    (name : String) : Session σ → List String → Prop
  | here {s : Session σ} {line : String} {lines : List String}
      (h : LineBinds host depth line s.environment (some s.plugins) way name) :
      Binds host depth way name s (line :: lines)
  | later {s : Session σ} {line : String} {lines : List String}
      (h : Binds host depth way name (s.run host depth line).2 lines) :
      Binds host depth way name s (line :: lines)

section Lines

variable {σ : Type} {host : PluginHost σ} {depth : Nat} {way : Binder} {name : String}

theorem Session.binds_cons_iff {s : Session σ} {line : String} {lines : List String} :
    s.Binds host depth way name (line :: lines) ↔
      LineBinds host depth line s.environment (some s.plugins) way name ∨
        (s.run host depth line).2.Binds host depth way name lines := by
  constructor
  · rintro (h | h)
    · exact .inl h
    · exact .inr h
  · rintro (h | h)
    · exact .here h
    · exact .later h

/-- A name is bound after some lines, whatever they were answered with, if it was at the
start or one of them binds it. -/
theorem after_binds_iff (lines : List String) (s : Session σ) :
    (s.after host depth lines).environment.binds way name = true ↔
      s.environment.binds way name = true ∨ s.Binds host depth way name lines := by
  induction lines generalizing s with
  | nil => exact (or_iff_left nofun).symm
  | cons line lines ih =>
      have hstep : (s.run host depth line).2.environment.binds way name = true ↔ _ :=
        runLine_binds_iff
      rw [Session.binds_cons_iff, ← or_assoc, ← hstep]
      exact ih _

/-- Behind any lines, a line that binds a name which was not bound at the start says `Added`,
if it is answered, exactly if none of those lines binds the name.  If it is not answered, it
is an assignment whose value cannot be written, and the name is bound to that value. -/
theorem added_iff_of_lines (host : PluginHost σ) (depth : Nat) (start : Session σ)
    (earlier : List String) (line : String) (way : Binder) (name : String)
    (hstart : start.environment.binds way name = false) :
    let before := start.after host depth earlier
    let ran := (before.run host depth line).1
    LineBinds host depth line before.environment (some before.plugins) way name →
      (∀ text, ran.answer = .ok text →
        (Says "Added" text ↔ ¬ start.Binds host depth way name earlier)) ∧
      ∀ f, ran.answer = .error f → way = .assignment ∧
        ∃ e v, Statement.parse line = .ok ⟨.assign name, e⟩ ∧
          e.outcome host depth before.environment (some before.plugins) = .ok v ∧
          v.text = .error f ∧ ran.environment = before.environment.setVariable name v := by
  intro before ran hbinds
  refine ⟨fun text hanswer => ?_, fun f hanswer => hbinds.unwritten hanswer⟩
  rw [says_added_iff (hbinds.reports hanswer), ← Bool.not_eq_true, after_binds_iff, hstart]
  simp

/-- The value cannot be written, and the next assignment is not the first. -/
example :
    let host : PluginHost Unit := ⟨(), fun _ _ s => (.error .crash, s)⟩
    let start := Session.start host default
    let far := "let q = (j1_) ^ 100000000000000000000_"
    (start.run host 0 far).1.answer = .error .overflow ∧
      ((start.after host 0 [far]).run host 0 "let q = 1_").1.answer =
        .ok "Updated var 'q' to 1" := by
  decide +kernel

end Lines

end PolarCalc
