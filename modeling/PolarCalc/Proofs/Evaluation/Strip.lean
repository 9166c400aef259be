import PolarCalc.Plugin.Samples
import PolarCalc.Proofs.Evaluation.Step
/-!
# Parentheses and bare levels

The levels of the grammar that apply no operator and the parentheses around an
operand tell how an expression was written and nothing else.  A tree and the tree
without them are evaluated alike, with the same events and calls of plugins, also
where the bodies of functions are stripped; and an expression counts as a bare name
exactly if a name is all that is left of it.
-/

namespace PolarCalc

namespace Expr

mutual

/-- The tree without parentheses and bare levels, at any depth. -/
def strip : Expr → Expr
  | ident name => ident name
  | number text => number text
  | integer text => integer text
  | list items => list (stripItems items)
  | call function args => call function (stripItems args)
  | term inner => strip inner
  | bare _ inner => strip inner
  | prefixed op operand => prefixed op (strip operand)
  | power base exponent => power (strip base) (strip exponent)
  | binary tier left op right => binary tier (strip left) op (strip right)
  | ifThen condition thenBranch => ifThen (strip condition) (strip thenBranch)
  | ifElse condition elseBranch => ifElse (strip condition) (strip elseBranch)
  | ifThenElse condition thenBranch elseBranch =>
      ifThenElse (strip condition) (strip thenBranch) (strip elseBranch)
  | misplaced head body => misplaced head (strip body)
  | foreign => foreign

/-- Each of the trees without parentheses and bare levels. -/
def stripItems : List Expr → List Expr
  | [] => []
  | item :: items => strip item :: stripItems items

end

end Expr

/-- The function with its body stripped. -/
def UserFunction.strip (f : UserFunction) : UserFunction := { f with body := f.body.strip }

/-- The environment with the bodies of all functions stripped. -/
def Environment.strip (env : Environment) : Environment :=
  { env with functions := ⟨env.functions.entries.map fun entry => (entry.1, entry.2.strip)⟩ }

/-! ## Stripped trees -/

namespace Expr

mutual

theorem strip_strip : ∀ e : Expr, e.strip.strip = e.strip := by
  intro e
  cases e with
  | ident | number | integer | foreign => rfl
  | term inner | bare level inner => exact strip_strip inner
  | list items | call function items => simp only [strip, stripItems_stripItems items]
  | prefixed op inner | misplaced head inner => simp only [strip, strip_strip inner]
  | power left right | binary tier left op right | ifThen left right | ifElse left right =>
      simp only [strip, strip_strip left, strip_strip right]
  | ifThenElse condition thenBranch elseBranch =>
      simp only [strip, strip_strip condition, strip_strip thenBranch, strip_strip elseBranch]

theorem stripItems_stripItems : ∀ items : List Expr,
    stripItems (stripItems items) = stripItems items := by
  intro items
  cases items with
  | nil => rfl
  | cons item items => simp only [stripItems, strip_strip item, stripItems_stripItems items]

end

@[simp] theorem length_stripItems (items : List Expr) :
    (stripItems items).length = items.length := by
  induction items with
  | nil => rfl
  | cons item items ih => simp only [stripItems, List.length_cons, ih]

/-- A bare name is a tree of which a name is left. -/
theorem bareIdentifier?_eq_some_iff {e : Expr} {name : String} :
    e.bareIdentifier? = some name ↔ e.strip = .ident name := by
  fun_induction bareIdentifier? e with
  | case1 n => simp [strip]
  | case2 inner ih => exact ih
  | case3 level inner ih => exact ih
  | case4 e hident hterm hbare =>
      cases e with
      | ident n => exact absurd rfl (hident n)
      | term inner => exact absurd rfl (hterm inner)
      | bare level inner => exact absurd rfl (hbare level inner)
      | _ => simp [strip]

theorem bareIdentifier?_strip (e : Expr) : e.strip.bareIdentifier? = e.bareIdentifier? := by
  apply Option.ext
  intro name
  rw [bareIdentifier?_eq_some_iff, bareIdentifier?_eq_some_iff, strip_strip]

end Expr

theorem Environment.get?_strip (env : Environment) (name : String) :
    env.strip.functions.get? name = (env.functions.get? name).map UserFunction.strip := by
  show Bindings.lookup name (env.functions.entries.map _) = _
  rw [Bindings.get?]
  induction env.functions.entries with
  | nil => rfl
  | cons entry rest ih =>
      rw [List.map_cons, Bindings.lookup, Bindings.lookup, ih]
      by_cases hkey : entry.1 = name
      · rw [if_pos hkey, if_pos hkey, Option.map_some]
      · rw [if_neg hkey, if_neg hkey]

/-! ## Evaluation -/

section Evaluation

variable {σ : Type} {host : PluginHost σ} {callee callee' : Environment → Expr → EvalM σ Value}
  {env : Environment}

theorem callUser_strip
    (h : ∀ env body, callee' env.strip body.strip = callee env body)
    (function : String) (f : UserFunction) (args : List Value) :
    callUser callee' env.strip function f.strip args = callUser callee env function f args := by
  have hbody (bindings : Bindings Value) :
      callee' (env.strip.extended bindings) f.strip.body =
        callee (env.extended bindings) f.body :=
    h (env.extended bindings) f.body
  simp only [callUser, hbody]
  rfl

mutual

/-- A stripped tree is evaluated as the tree itself where bodies are. -/
theorem evalWith_strip (h : ∀ env body, callee' env.strip body.strip = callee env body) :
    ∀ e : Expr, evalWith host callee' env.strip e.strip = evalWith host callee env e := by
  intro e
  cases e with
  | ident | number | integer | misplaced | foreign => rfl
  | term inner | bare level inner => exact evalWith_strip h inner
  | list items => simp only [Expr.strip, evalWith, evalItems_strip h items]
  | prefixed op operand => simp only [Expr.strip, evalWith, evalWith_strip h operand]
  | power left right | binary tier left op right | ifThen left right | ifElse left right =>
      simp only [Expr.strip, evalWith, evalWith_strip h left, evalWith_strip h right]
  | ifThenElse condition thenBranch elseBranch =>
      simp only [Expr.strip, evalWith, evalWith_strip h condition, evalWith_strip h thenBranch,
        evalWith_strip h elseBranch]
  | call function args =>
      rw [Expr.strip, evalWith.eq_def, evalWith.eq_def]
      by_cases hcall : function = callFunction
      · cases args with
        | nil => simp only [Expr.stripItems, if_pos hcall]
        | cons library args =>
            simp only [Expr.stripItems, if_pos hcall, Expr.bareIdentifier?_strip,
              evalItems_strip h args]
      · cases hbuiltin : Builtin.ofName? function with
        | some b => simp only [if_neg hcall, hbuiltin, evalItems_strip h args]
        | none =>
            simp only [if_neg hcall, hbuiltin, Environment.get?_strip, Expr.length_stripItems,
              evalItems_strip h args]
            cases env.functions.get? function with
            | none => rfl
            | some f => simp only [Option.map_some, callUser_strip h]; rfl

theorem evalItems_strip (h : ∀ env body, callee' env.strip body.strip = callee env body) :
    ∀ items : List Expr,
      evalItems host callee' env.strip (Expr.stripItems items) =
        evalItems host callee env items := by
  intro items
  cases items with
  | nil => rfl
  | cons item items =>
      simp only [Expr.stripItems, evalItems, evalWith_strip h item, evalItems_strip h items]

end

theorem eval_strip_strip (depth : Nat) (env : Environment) (e : Expr) :
    eval host depth env.strip e.strip = eval host depth env e := by
  induction depth generalizing env e with
  | zero => exact evalWith_strip (fun _ _ => rfl) e
  | succ depth ih => exact evalWith_strip ih e

theorem eval_strip_expr (depth : Nat) (env : Environment) (e : Expr) :
    eval host depth env e.strip = eval host depth env e :=
  calc
    eval host depth env e.strip = eval host depth env.strip e.strip.strip :=
      (eval_strip_strip depth env e.strip).symm
    _ = eval host depth env.strip e.strip := by rw [Expr.strip_strip]
    _ = eval host depth env e := eval_strip_strip depth env e

theorem eval_ident (depth : Nat) (env : Environment) (name : String) :
    eval host depth env (.ident name) =
      EvalM.ofOutcome (orFail (.error (.unknownVariable name)) (env.vars.get? name)) := by
  rw [eval_eq_evalWith, evalWith]
  cases env.vars.get? name <;> rfl

end Evaluation

/-- An expression and what is left of it are evaluated alike, and so they are where the
bodies of all functions are stripped.  The expressions that count as bare names are those
of which a name is left, and evaluating one is looking up that name. -/
theorem eval_strip {σ : Type} (host : PluginHost σ) (depth : Nat) (env : Environment) (e : Expr) :
    eval host depth env e.strip = eval host depth env e ∧
    eval host depth env.strip e.strip = eval host depth env e ∧
    eval host depth env.strip e = eval host depth env e ∧
    ∀ name, (e.bareIdentifier? = some name ↔ e.strip = .ident name) ∧
      (e.strip = .ident name → eval host depth env e =
        EvalM.ofOutcome (orFail (.error (.unknownVariable name)) (env.vars.get? name))) := by
  have hboth : eval host depth env.strip e.strip = eval host depth env e :=
    eval_strip_strip depth env e
  have hbodies : eval host depth env.strip e = eval host depth env e := by
    rw [← eval_strip_expr depth env.strip e, hboth]
  refine ⟨eval_strip_expr depth env e, hboth, hbodies, fun name => ?_⟩
  refine ⟨Expr.bareIdentifier?_eq_some_iff, fun hname => ?_⟩
  rw [← eval_strip_expr depth env e, hname, eval_ident]

/-- A call whose argument is a name in parentheses, of a function that names a library so. -/
theorem eval_strip_call :
    let x : Expr := .bare .conditional (.term (.bare .unary (.ident "x")))
    let body : Expr := .term (.call callFunction [.term (.ident "pack"), .term (.ident "a")])
    let env : Environment := ⟨⟨[("x", .ofInt 1)]⟩, ⟨[("f", ⟨["a"], body⟩)]⟩⟩
    let e : Expr := .bare .power (.call "f" [x])
    let host := Samples.folder.host
    e.strip = .call "f" [.ident "x"] ∧
      env.strip.functions.get? "f" =
        some ⟨["a"], .call callFunction [.ident "pack", .ident "a"]⟩ ∧
      eval host 1 env.strip e.strip = eval host 1 env e ∧
      x.strip = .ident "x" ∧ eval host 1 env x = EvalM.ofOutcome (.ok (.ofInt 1)) := by
  intro x body env e host
  obtain ⟨-, hboth, -⟩ := eval_strip host 1 env e
  obtain ⟨-, -, -, hname⟩ := eval_strip host 1 env x
  exact ⟨rfl, rfl, hboth, rfl, (hname "x").2 rfl⟩

end PolarCalc
