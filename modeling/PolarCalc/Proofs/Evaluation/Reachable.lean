import PolarCalc.Plugin.Samples
import PolarCalc.Proofs.Evaluation.Step
/-!
# What an evaluation depends on

The names that count are those which an expression mentions, and those which the
bodies of the functions that are called mention in turn.  Two environments that
agree on them cannot be told apart by evaluating the expression.
-/

namespace PolarCalc

/-- A name that an expression mentions. -/
inductive Symbol where
  | variable (name : String)
  | function (name : String)
  deriving DecidableEq, Repr

namespace Expr

mutual

/-- The variables and the user's functions that an expression mentions.  The name
of a library is neither. -/
def symbols : Expr → List Symbol
  | ident name => [.variable name]
  | number _ => []
  | integer _ => []
  | list items => symbolsOfItems items
  | call function args =>
      if function = callFunction then
        match args with
        | [] => []
        | _ :: args => symbolsOfItems args
      else if (Builtin.ofName? function).isSome then symbolsOfItems args
      else .function function :: symbolsOfItems args
  | term inner => symbols inner
  | bare _ inner => symbols inner
  | prefixed _ operand => symbols operand
  | power base exponent => symbols base ++ symbols exponent
  | binary _ left _ right => symbols left ++ symbols right
  | ifThen condition thenBranch => symbols condition ++ symbols thenBranch
  | ifElse condition elseBranch => symbols condition ++ symbols elseBranch
  | ifThenElse condition thenBranch elseBranch =>
      symbols condition ++ symbols thenBranch ++ symbols elseBranch
  | misplaced _ _ => []
  | foreign => []

/-- What the expressions of a list mention. -/
def symbolsOfItems : List Expr → List Symbol
  | [] => []
  | item :: items => symbols item ++ symbolsOfItems items

end

end Expr

/-- What an expression may come to mention: the names in it and those in the bodies
of the functions that it may call. -/
inductive Reachable (functions : Bindings UserFunction) (e : Expr) : Symbol → Prop where
  | here {s : Symbol} (h : s ∈ e.symbols) : Reachable functions e s
  | body {name : String} {f : UserFunction} {s : Symbol}
      (hname : Reachable functions e (.function name)) (hf : functions.get? name = some f)
      (h : s ∈ f.body.symbols) : Reachable functions e s

/-- Both environments bind each of these names to the same thing, or neither does. -/
structure Environment.AgreeOn (P : Symbol → Prop) (env env' : Environment) : Prop where
  vars : ∀ name, P (.variable name) → env.vars.get? name = env'.vars.get? name
  functions : ∀ name, P (.function name) → env.functions.get? name = env'.functions.get? name

/-- These names hold with a function everything that its body mentions. -/
def ClosedUnder (P : Symbol → Prop) (functions : Bindings UserFunction) : Prop :=
  ∀ name f, P (.function name) → functions.get? name = some f → ∀ s ∈ f.body.symbols, P s

/-! ## Reachable names -/

namespace Reachable

variable {functions : Bindings UserFunction} {e : Expr} {s : Symbol}

theorem closedUnder (functions : Bindings UserFunction) (e : Expr) :
    ClosedUnder (Reachable functions e) functions :=
  fun _ _ hname hf _ h => .body hname hf h

/-- The reachable names are the least that are closed. -/
theorem of_closedUnder {P : Symbol → Prop} (he : ∀ s ∈ e.symbols, P s)
    (hP : ClosedUnder P functions) (h : Reachable functions e s) : P s := by
  induction h with
  | here h => exact he _ h
  | body _ hf h ih => exact hP _ _ ih hf _ h

end Reachable

/-! ## What is mentioned where -/

namespace Expr

theorem mem_symbolsOfItems {items : List Expr} {s : Symbol} :
    s ∈ symbolsOfItems items ↔ ∃ x ∈ items, s ∈ x.symbols := by
  induction items with
  | nil => simp [symbolsOfItems]
  | cons item items ih => simp [symbolsOfItems, ih]

theorem symbols_call (function : String) (args : List Expr) :
    (call function args).symbols =
      if function = callFunction then symbolsOfItems args.tail
      else if (Builtin.ofName? function).isSome then symbolsOfItems args
      else .function function :: symbolsOfItems args := by
  cases args <;> rw [symbols.eq_def] <;> rfl

theorem function_mem_symbols {function : String} {args : List Expr}
    (h : isCallable function = true) : Symbol.function function ∈ (call function args).symbols := by
  simp only [isCallable, Bool.and_eq_true, bne_iff_ne, Option.isNone_iff_eq_none] at h
  rw [symbols_call, if_neg h.1, h.2]
  exact List.mem_cons_self

theorem mem_symbols_call {functions : Bindings UserFunction} {function : String} {args : List Expr}
    {x : Expr} {s : Symbol} (hx : x ∈ (Target.find functions function args).operands args)
    (hs : s ∈ x.symbols) : s ∈ (call function args).symbols := by
  rw [symbols_call]
  by_cases hcall : function = callFunction
  · rw [if_pos hcall]
    unfold Target.find at hx
    rw [if_pos hcall] at hx
    cases args with
    | nil => cases hx
    | cons first args =>
        have hmem : x ∈ args := by
          simp only at hx
          cases hname : first.bareIdentifier? with
          | none =>
              rw [hname] at hx
              cases hx
          | some name =>
              rw [hname] at hx
              exact hx
        exact mem_symbolsOfItems.2 ⟨x, hmem, hs⟩
  · rw [if_neg hcall]
    have hitems : s ∈ symbolsOfItems args :=
      mem_symbolsOfItems.2 ⟨x, Target.mem_of_mem_operands hx, hs⟩
    split
    · exact hitems
    · exact List.mem_cons_of_mem _ hitems

mutual

theorem isCallable_of_mem_symbols {name : String} :
    ∀ e : Expr, Symbol.function name ∈ e.symbols → isCallable name = true := by
  intro e h
  cases e with
  | call function args =>
      rw [symbols_call] at h
      by_cases hcall : function = callFunction
      · rw [if_pos hcall] at h
        cases args with
        | nil => cases h
        | cons first args => exact isCallable_of_mem_symbolsOfItems args h
      · rw [if_neg hcall] at h
        cases hbuiltin : Builtin.ofName? function with
        | some b =>
            rw [hbuiltin, Option.isSome_some, if_pos rfl] at h
            exact isCallable_of_mem_symbolsOfItems args h
        | none =>
            rw [hbuiltin, Option.isSome_none, if_neg Bool.false_ne_true] at h
            rcases List.mem_cons.1 h with hname | h
            · cases hname
              simp [isCallable, hcall, hbuiltin]
            · exact isCallable_of_mem_symbolsOfItems args h
  | list items => exact isCallable_of_mem_symbolsOfItems items h
  | term inner | bare level inner | prefixed op inner => exact isCallable_of_mem_symbols inner h
  | power left right | binary tier left op right | ifThen left right | ifElse left right =>
      rcases List.mem_append.1 h with h | h
      · exact isCallable_of_mem_symbols left h
      · exact isCallable_of_mem_symbols right h
  | ifThenElse condition thenBranch elseBranch =>
      rcases List.mem_append.1 h with h | h
      · rcases List.mem_append.1 h with h | h
        · exact isCallable_of_mem_symbols condition h
        · exact isCallable_of_mem_symbols thenBranch h
      · exact isCallable_of_mem_symbols elseBranch h
  | ident => simp [symbols] at h
  | number | integer | misplaced | foreign => cases h

theorem isCallable_of_mem_symbolsOfItems {name : String} :
    ∀ items : List Expr, Symbol.function name ∈ symbolsOfItems items → isCallable name = true := by
  intro items h
  cases items with
  | nil => cases h
  | cons item items =>
      rcases List.mem_append.1 h with h | h
      · exact isCallable_of_mem_symbols item h
      · exact isCallable_of_mem_symbolsOfItems items h

end

theorem mem_symbols_of_mem_operands {functions : Bindings UserFunction} {e x : Expr} {s : Symbol}
    (hx : x ∈ e.operands functions) (hs : s ∈ x.symbols) : s ∈ e.symbols := by
  cases e with
  | list items => exact mem_symbolsOfItems.2 ⟨x, hx, hs⟩
  | call function args => exact mem_symbols_call hx hs
  | ident | number | integer | misplaced | foreign => cases hx
  | _ =>
      simp only [operands, List.mem_cons, List.not_mem_nil, or_false] at hx
      simp only [symbols, List.mem_append]
      grind

theorem mem_symbols_of_mem_branches {e b : Expr} {s : Symbol} (hb : b ∈ e.branches)
    (hs : s ∈ b.symbols) : s ∈ e.symbols := by
  cases e with
  | ifThen | ifElse | ifThenElse =>
      simp only [branches, List.mem_cons, List.not_mem_nil, or_false] at hb
      simp only [symbols, List.mem_append]
      grind
  | _ => cases hb

end Expr

/-! ## Agreement -/

namespace Environment.AgreeOn

variable {P : Symbol → Prop} {env env' : Environment}

theorem extended (h : AgreeOn P env env') (bindings : Bindings Value) :
    AgreeOn P (env.extended bindings) (env'.extended bindings) where
  vars name hname := by
    simp only [Environment.extended, Bindings.get?_update, h.vars name hname]
  functions := h.functions

variable {e : Expr}

theorem find_eq {function : String} {args : List Expr}
    (h : AgreeOn P env env') (he : ∀ s ∈ (Expr.call function args).symbols, P s) :
    Target.find env.functions function args = Target.find env'.functions function args :=
  Target.find_congr fun hcallable =>
    h.functions function (he _ (Expr.function_mem_symbols hcallable))

theorem asksHost_eq (h : AgreeOn P env env') (he : ∀ s ∈ e.symbols, P s) :
    e.asksHost env.functions = e.asksHost env'.functions := by
  cases e with
  | call function args => simp only [Expr.asksHost, h.find_eq he]
  | _ => rfl

theorem operands_eq (h : AgreeOn P env env') (he : ∀ s ∈ e.symbols, P s) :
    e.operands env.functions = e.operands env'.functions := by
  cases e with
  | call function args => simp only [Expr.operands, h.find_eq he]
  | _ => rfl

theorem next_eq (h : AgreeOn P env env') (he : ∀ s ∈ e.symbols, P s) (vs : List Value) :
    e.next env vs = e.next env' vs := by
  cases e with
  | ident name => simp only [Expr.next, h.vars name (he _ List.mem_cons_self)]
  | call function args => simp only [Expr.next, h.find_eq he]
  | _ => rfl

end Environment.AgreeOn

/-! ## Evaluation -/

section Congruence

variable {σ : Type} {host : PluginHost σ} {callee : Environment → Expr → EvalM σ Value}
  {env env' : Environment}

theorem evalItems_congr {items : List Expr}
    (h : ∀ x ∈ items, evalWith host callee env x = evalWith host callee env' x) :
    evalItems host callee env items = evalItems host callee env' items := by
  induction items with
  | nil => rfl
  | cons item items ih =>
      rw [evalItems, evalItems, h item List.mem_cons_self,
        ih fun x hx => h x (List.mem_cons_of_mem _ hx)]

/-- Evaluation depends on nothing outside a set of names that is closed, if the
evaluation of bodies does not. -/
theorem evalWith_congr {P : Symbol → Prop} (hP : ClosedUnder P env.functions)
    (hcallee : ∀ bindings body, (∀ s ∈ body.symbols, P s) →
      callee (env.extended bindings) body = callee (env'.extended bindings) body)
    (h : env.AgreeOn P env') {e : Expr} (he : ∀ s ∈ e.symbols, P s) :
    evalWith host callee env e = evalWith host callee env' e := by
  induction e using Expr.induct_step env with
  | step e operands_ih branches_ih =>
  -- operands and branches are covered by induction, a body by the hypothesis on bodies
  have hitems : evalItems host callee env (e.operands env.functions) =
      evalItems host callee env' (e.operands env.functions) :=
    evalItems_congr fun x hx =>
      operands_ih x hx fun s hs => he s (Expr.mem_symbols_of_mem_operands hx hs)
  have hnext (vs : List Value) :
      (e.next env vs).run host callee env = (e.next env' vs).run host callee env' := by
    rw [← h.next_eq he vs]
    cases hn : e.next env vs with
    | finish result => rfl
    | plugin library args => rfl
    | branch b =>
        have hb := Expr.mem_branches_of_next hn
        exact branches_ih vs b hn fun s hs => he s (Expr.mem_symbols_of_mem_branches hb hs)
    | enter event bindings body =>
        obtain ⟨function, args, f, rfl, hfind, rfl⟩ := Expr.exists_user_of_next hn
        obtain ⟨hcallable, hf⟩ := Target.find_eq_user hfind
        have hfunction : P (.function function) := he _ (Expr.function_mem_symbols hcallable)
        simp only [Next.run, hcallee bindings f.body (hP function f hfunction hf)]
  rw [evalWith_step, evalWith_step, hitems, h.asksHost_eq he, h.operands_eq he]
  simp only [hnext]

/-- Two environments that agree on a closed set of names cannot be told apart by
what mentions no others. -/
theorem eval_congr {P : Symbol → Prop} (depth : Nat) {e : Expr} (hP : ClosedUnder P env.functions)
    (h : env.AgreeOn P env') (he : ∀ s ∈ e.symbols, P s) :
    eval host depth env e = eval host depth env' e := by
  -- a body mentions names of the closed set only, and its parameters are bound in both alike
  induction depth generalizing env env' e with
  | zero =>
      refine evalWith_congr hP ?_ h he
      intro bindings body hbody
      rfl
  | succ depth ih =>
      have hcallee (bindings : Bindings Value) (body : Expr) (hbody : ∀ s ∈ body.symbols, P s) :
          eval host depth (env.extended bindings) body =
            eval host depth (env'.extended bindings) body :=
        ih hP (h.extended bindings) hbody
      exact evalWith_congr hP hcallee h he

end Congruence

theorem Reachable.isCallable {functions : Bindings UserFunction} {e : Expr} {name : String}
    (h : Reachable functions e (.function name)) : isCallable name = true := by
  cases h with
  | here h => exact Expr.isCallable_of_mem_symbols e h
  | body _ _ h => exact Expr.isCallable_of_mem_symbols _ h

theorem Environment.agreeOn_setFunction {env : Environment} {e : Expr} {name : String}
    (f : UserFunction) (h : isCallable name = false) :
    env.AgreeOn (Reachable env.functions e) (env.setFunction name f) where
  vars _ _ := rfl
  functions other hother := by
    have hne : name ≠ other := by
      rintro rfl
      exact Bool.false_ne_true (h.symm.trans hother.isCallable)
    rw [Environment.setFunction, Bindings.get?_set, if_neg hne]

/-- The value of an expression, its failures, the events and the calls of plugins
depend on nothing but the reachable names; a function behind the name of a builtin or
of the form that calls libraries is not among them. -/
theorem eval_eq_of_reachable {σ : Type} (host : PluginHost σ) (depth : Nat) (e : Expr) :
    (∀ env env' : Environment, env.AgreeOn (Reachable env.functions e) env' →
      eval host depth env e = eval host depth env' e) ∧
    (∀ (env : Environment) (name : String) (f : UserFunction), isCallable name = false →
      eval host depth (env.setFunction name f) e = eval host depth env e) := by
  have hreachable (env env' : Environment) (h : env.AgreeOn (Reachable env.functions e) env') :
      eval host depth env e = eval host depth env' e :=
    eval_congr depth (Reachable.closedUnder env.functions e) h fun _ hs => .here hs
  refine ⟨hreachable, fun env name f hname => ?_⟩
  exact (hreachable _ _ (Environment.agreeOn_setFunction f hname)).symm

/-- A call between environments that differ in a variable and a function beside it. -/
theorem eval_eq_of_reachable_call :
    let f : UserFunction := ⟨["a"], .ident "a"⟩
    let env : Environment := ⟨⟨[("x", .ofInt 1)]⟩, ⟨[("f", f)]⟩⟩
    let env' : Environment := ⟨⟨[("y", .ofInt 2), ("x", .ofInt 1)]⟩, ⟨[("f", f), ("g", f)]⟩⟩
    let e : Expr := .call "f" [.ident "x"]
    let host := Samples.folder.host
    env.AgreeOn (Reachable env.functions e) env' ∧ isCallable "abs" = false ∧
      eval host 1 env e = eval host 1 env' e ∧
      eval host 1 (env.setFunction "abs" f) e = eval host 1 env e := by
  intro f env env' e host
  have hclosed : ClosedUnder (· ∈ [Symbol.function "f", .variable "x", .variable "a"])
      env.functions := by
    intro name g hname hg
    have hf : name = "f" := by simpa using hname
    subst hf
    cases hg
    decide
  have hreach {s : Symbol} (h : Reachable env.functions e s) :
      s ∈ [Symbol.function "f", .variable "x", .variable "a"] :=
    Reachable.of_closedUnder (by decide) hclosed h
  have hagree : env.AgreeOn (Reachable env.functions e) env' := by
    refine ⟨fun name hname => ?_, fun name hname => ?_⟩
    · have h : name = "x" ∨ name = "a" := by simpa using hreach hname
      rcases h with rfl | rfl <;> rfl
    · have h : name = "f" := by simpa using hreach hname
      subst h
      rfl
  have habs : isCallable "abs" = false := by decide
  have heval := eval_eq_of_reachable host 1 e
  exact ⟨hagree, habs, heval.1 env env' hagree, heval.2 env "abs" f habs⟩

end PolarCalc
