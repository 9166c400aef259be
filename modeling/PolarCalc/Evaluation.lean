import PolarCalc.Builtin
import PolarCalc.Environment
import PolarCalc.Plugin.Host
/-!
# Evaluation of expressions

Operands are evaluated from left to right, a condition before its branch and the
other branch not at all, and the first failure ends everything.  A function body
is evaluated in its caller's environment with the parameters layered over it.

A host of plugins is either given from the start or created at the first call of
a plugin.  A function that is called before there is one makes its own, which
goes with it when it returns.
-/

namespace PolarCalc

/-- What happened during a run, for whoever follows it. -/
inductive Event where
  | called (function : String) (bindings : List (String × String))
  | assigned (existed : Bool) (name text : String)
  | defined (existed : Bool) (name : String) (params : List String)
  deriving DecidableEq, Repr

namespace Event

/-- Did a name exist already? -/
def verb (existed : Bool) : String := if existed then "updated" else "added"

/-- Names in quotation marks between parentheses; a single one has a comma after
it. -/
def nameTuple (names : List String) : String :=
  "(" ++ String.intercalate ", " (names.map Text.quoted)
    ++ (if names.length = 1 then "," else "") ++ ")"

/-- The wording of an event. -/
def message : Event → String
  | called function bindings =>
      "calling " ++ function ++ "("
        ++ String.intercalate ", " (bindings.map fun b => b.1 ++ "=" ++ b.2) ++ ")"
  | assigned existed name text =>
      verb existed ++ " variable " ++ Text.quoted name ++ " = " ++ text
  | defined existed name params =>
      verb existed ++ " function " ++ Text.quoted name ++ " with params " ++ nameTuple params

end Event

/-- What an evaluation carries along: the host of plugins, once there is one,
and the events so far, the last one first. -/
structure Machine (σ : Type) where
  plugins : Option σ
  trace : List Event := []

/-- An evaluation that can fail; what it changed until then stays changed. -/
abbrev EvalM (σ : Type) := ExceptT Failure (StateM (Machine σ))

namespace EvalM

variable {σ : Type}

/-- An outcome that does not touch the machine. -/
def ofOutcome {α : Type} (x : Outcome α) : EvalM σ α :=
  match x with
  | .ok a => pure a
  | .error f => throw f

/-- Refuse with an error. -/
def reject {α : Type} (cause : EvalError) : EvalM σ α := throw (.error cause)

/-- Note an event. -/
def note (event : Event) : EvalM σ Unit :=
  modify fun m => { m with trace := event :: m.trace }

/-- The state of the plugin host; a fresh host is created if there is none. -/
def hostState (host : PluginHost σ) : EvalM σ σ := do
  let m ← get
  match m.plugins with
  | some s => return s
  | none =>
      set { m with plugins := some host.fresh }
      return host.fresh

/-- Call a library of the plugin host. -/
def executePlugin (host : PluginHost σ) (library : String) (args : List Value) :
    EvalM σ Value := do
  let s ← hostState host
  let (reply, s) := host.execute library args s
  modify fun m => { m with plugins := some s }
  ofOutcome reply

/-- An evaluation that shares the plugin host if there is one, and else keeps the
one it creates to itself. -/
def sharingHost {α : Type} (x : EvalM σ α) : EvalM σ α := fun m =>
  let (result, after) := x m
  (result, if m.plugins.isSome then after else { after with plugins := none })

theorem bind_run {α β : Type} (x : EvalM σ α) (k : α → EvalM σ β) (m : Machine σ) :
    (x >>= k) m =
      match x m with
      | (.ok a, after) => k a after
      | (.error f, after) => (.error f, after) := by
  show (StateT.bind x (ExceptT.bindCont k)) m = _
  unfold StateT.bind
  cases x m with
  | mk result after => cases result <;> rfl

theorem ofOutcome_run {α : Type} (x : Outcome α) (m : Machine σ) :
    (ofOutcome x : EvalM σ α) m = (x, m) := by
  cases x <;> rfl

theorem hostState_run (host : PluginHost σ) (m : Machine σ) :
    hostState host m =
      (.ok (m.plugins.getD host.fresh), { m with plugins := some (m.plugins.getD host.fresh) }) := by
  obtain ⟨plugins, trace⟩ := m
  cases plugins <;> rfl

theorem executePlugin_run (host : PluginHost σ) (library : String) (args : List Value)
    (m : Machine σ) :
    executePlugin host library args m =
      let reply := host.execute library args (m.plugins.getD host.fresh)
      (reply.1, { m with plugins := some reply.2 }) := by
  rw [executePlugin, bind_run, hostState_run]
  exact ofOutcome_run _ _

theorem sharingHost_run {α : Type} (x : EvalM σ α) (m : Machine σ) :
    sharingHost x m =
      ((x m).1, if m.plugins.isSome then (x m).2 else { (x m).2 with plugins := none }) := rfl

theorem ofOutcome_ok_bind {α β : Type} (a : α) (k : α → EvalM σ β) :
    ofOutcome (.ok a) >>= k = k a := rfl

theorem ofOutcome_error_bind {α β : Type} (f : Failure) (k : α → EvalM σ β) :
    ofOutcome (.error f) >>= k = ofOutcome (.error f) := rfl

end EvalM

/-- The texts of bindings, in order. -/
def bindingTexts : List (String × Value) → Outcome (List (String × String))
  | [] => .ok []
  | (name, v) :: rest => do
      let text ← v.text
      let texts ← bindingTexts rest
      return (name, text) :: texts

/-- The value of a binary operator; any sign that is no arithmetic operator is
taken for a comparison. -/
def applyBinary (op : String) (v w : Value) : Outcome Value :=
  if op = "+" then v.add w
  else if op = "-" then v.sub w
  else if op = "*" then v.mul w
  else if op = "/" then v.div w
  else v.compare op w

/-- The value of a prefix operator. -/
def applyPrefix (op : String) (v : Value) : Outcome Value :=
  if op = "j" then .ok v.toLateral
  else if op = "-" then .ok v.toNegative
  else refuse (.unsupportedOperator op)

/-- The value of a number literal. -/
def numberValue (text : String) : Outcome Value :=
  (orFail .malformedNumber (Decimal.readDouble? text.toList)).map Value.ofReal

/-- The value of an integer literal, whose underscores do not count. -/
def integerValue (text : String) : Outcome Value :=
  (IntegerText.read (text.toList.filter (· != '_'))).map Value.ofInt

/-- Call a user's function whose arguments are evaluated.  The call is noted
before the body is evaluated. -/
def callUser {σ : Type} (callee : Environment → Expr → EvalM σ Value) (env : Environment)
    (name : String) (f : UserFunction) (args : List Value) : EvalM σ Value := do
  let bindings := Bindings.ofList (f.params.zip args)
  let texts ← EvalM.ofOutcome (bindingTexts bindings.entries)
  EvalM.note (.called name texts)
  EvalM.sharingHost (callee (env.extended bindings) f.body)

mutual

/-- The value of an expression, where `callee` evaluates the bodies of the
functions that it calls. -/
def evalWith {σ : Type} (host : PluginHost σ) (callee : Environment → Expr → EvalM σ Value)
    (env : Environment) : Expr → EvalM σ Value
  | .ident name =>
      match env.vars.get? name with
      | some v => return v
      | none => EvalM.reject (.unknownVariable name)
  | .number text => EvalM.ofOutcome (numberValue text)
  | .integer text => EvalM.ofOutcome (integerValue text)
  | .list items => return .list (← evalItems host callee env items)
  | .call function args =>
      if function = callFunction then
        match args with
        | [] => EvalM.reject (.wrongArity callFunction "at least 1" 0)
        | library :: args =>
            match library.bareIdentifier? with
            | none => EvalM.reject .libraryNameExpected
            | some library => do
                let _ ← EvalM.hostState host
                let args ← evalItems host callee env args
                EvalM.executePlugin host library args
      else
        match Builtin.ofName? function with
        | some builtin => do
            let args ← evalItems host callee env args
            EvalM.ofOutcome (builtin.apply args)
        | none =>
            match env.functions.get? function with
            | none => EvalM.reject (.unknownFunction function)
            | some f =>
                if args.length = f.params.length then do
                  let args ← evalItems host callee env args
                  callUser callee env function f args
                else EvalM.reject (.wrongArity function (toString f.params.length) args.length)
  | .term inner => evalWith host callee env inner
  | .bare _ inner => evalWith host callee env inner
  | .prefixed op operand => do
      let v ← evalWith host callee env operand
      EvalM.ofOutcome (applyPrefix op v)
  | .power base exponent => do
      let v ← evalWith host callee env base
      let w ← evalWith host callee env exponent
      EvalM.ofOutcome (v.pow w)
  | .binary _ left op right => do
      let v ← evalWith host callee env left
      let w ← evalWith host callee env right
      EvalM.ofOutcome (applyBinary op v w)
  | .ifThen condition thenBranch => do
      let v ← evalWith host callee env condition
      if ← EvalM.ofOutcome v.isFalse then return v
      else evalWith host callee env thenBranch
  | .ifElse condition elseBranch => do
      let v ← evalWith host callee env condition
      if ← EvalM.ofOutcome v.isFalse then evalWith host callee env elseBranch
      else return v
  | .ifThenElse condition thenBranch elseBranch => do
      let v ← evalWith host callee env condition
      if ← EvalM.ofOutcome v.isFalse then evalWith host callee env elseBranch
      else evalWith host callee env thenBranch
  | .misplaced _ _ => throw .notAnExpression
  | .foreign => throw .notAnExpression

/-- The values of expressions, in order. -/
def evalItems {σ : Type} (host : PluginHost σ) (callee : Environment → Expr → EvalM σ Value)
    (env : Environment) : List Expr → EvalM σ (List Value)
  | [] => return []
  | item :: items => do
      let v ← evalWith host callee env item
      let vs ← evalItems host callee env items
      return v :: vs

end

/-- The value of an expression with calls of user functions nested at most
`depth` deep. -/
def eval {σ : Type} (host : PluginHost σ) : Nat → Environment → Expr → EvalM σ Value
  | 0 => evalWith host fun _ _ => throw .outOfDepth
  | depth + 1 => evalWith host (eval host depth)

end PolarCalc
