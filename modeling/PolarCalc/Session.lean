import PolarCalc.Evaluation
import PolarCalc.Grammar.Parse
/-!
# Sessions

A session runs one line after another.  A line is answered with the text of its
value, with a report of what it assigned or defined, or with the text of its
error; only faults are not turned into text.
-/

namespace PolarCalc

/-- What a line that failed is answered with. -/
def errorLine (message : String) : String := "Error: " ++ message

/-- What tells an error of the grammar from one of the calculation. -/
def syntaxErrorPart : String := "Parse error: "

/-- The answer to a line that cannot be read. -/
def SyntaxError.line (e : SyntaxError) : String := errorLine (syntaxErrorPart ++ e.text)

/-- What a statement did: its answer or the fault that ended it, and what it left
behind. -/
structure Ran (σ : Type) where
  answer : Outcome String
  environment : Environment
  plugins : Option σ
  /-- The events, the first one first. -/
  events : List Event

/-- The answer for an outcome: errors become text, faults stay. -/
def answerOf : Outcome String → Outcome String
  | .error (.error cause) => .ok (errorLine cause.message)
  | other => other

/-- The report of an assignment. -/
def assignmentReport (existed : Bool) (name text : String) : String :=
  if existed then "Updated var '" ++ name ++ "' to " ++ text
  else "Added var '" ++ name ++ "' with value " ++ text ++ " to environment."

/-- The report of a definition. -/
def definitionReport (existed : Bool) (name : String) (params : List String) : String :=
  if existed then "Updated function '" ++ name ++ "'"
  else
    "Added function '" ++ name ++ "' with args ["
      ++ String.intercalate ", " (params.map fun p => "'" ++ p ++ "'") ++ "] to environment."

namespace Statement

variable {σ : Type}

/-- Run a statement.  An assignment is made before it is reported, so that a
value that cannot be written is assigned nevertheless. -/
def run (host : PluginHost σ) (depth : Nat) (s : Statement) (env : Environment)
    (plugins : Option σ) : Ran σ :=
  match s.head with
  | .define name params =>
      let existed := env.functions.contains name
      ⟨.ok (definitionReport existed name params), env.setFunction name ⟨params, s.body⟩, plugins,
        [.defined existed name params]⟩
  | .express =>
      let (result, m) := eval host depth env s.body ⟨plugins, []⟩
      ⟨answerOf (result.bind Value.text), env, m.plugins, m.trace.reverse⟩
  | .assign name =>
      let (result, m) := eval host depth env s.body ⟨plugins, []⟩
      match result with
      | .error f => ⟨answerOf (.error f), env, m.plugins, m.trace.reverse⟩
      | .ok v =>
          let existed := env.vars.contains name
          let env := env.setVariable name v
          match v.text with
          | .error f => ⟨answerOf (.error f), env, m.plugins, m.trace.reverse⟩
          | .ok text =>
              ⟨.ok (assignmentReport existed name text), env, m.plugins,
                (.assigned existed name text :: m.trace).reverse⟩

end Statement

/-- Run a line. -/
def runLine {σ : Type} (host : PluginHost σ) (depth : Nat) (line : String) (env : Environment)
    (plugins : Option σ) : Ran σ :=
  match Statement.parse line with
  | .error e => ⟨.ok e.line, env, plugins, []⟩
  | .ok s => s.run host depth env plugins

/-- An environment that persists from line to line, with a host that was created
with it. -/
structure Session (σ : Type) where
  environment : Environment
  plugins : σ

namespace Session

variable {σ : Type}

/-- A session at its start. -/
def start (host : PluginHost σ) (env : Environment) : Session σ := ⟨env, host.fresh⟩

/-- Run a line of a session. -/
def run (host : PluginHost σ) (depth : Nat) (line : String) (s : Session σ) :
    Ran σ × Session σ :=
  let ran := runLine host depth line s.environment (some s.plugins)
  (ran, ⟨ran.environment, ran.plugins.getD s.plugins⟩)

end Session

end PolarCalc
