import PolarCalc.Evaluation
/-!
# The steps of an evaluation

Every expression is evaluated in the same way: first its operands from left to
right, then one further step, which is to finish, to go on with a branch, to call
a library or to enter the body of a user's function.  `evalWith_step` says so for
all forms at once, and `Expr.induct_step` is the induction over what comes first
and what may come next.
-/

namespace PolarCalc

/-! ## What a call turns to -/

/-- What a call turns to. -/
inductive Target where
  | refused (cause : EvalError)
  | library (name : String)
  | builtin (b : Builtin)
  | user (f : UserFunction)

namespace Target

/-- What a call of a function with these arguments turns to.  The form that calls
libraries comes first, the builtins second, and the user's functions last. -/
def find (functions : Bindings UserFunction) (function : String) (args : List Expr) : Target :=
  if function = callFunction then
    match args with
    | [] => refused (.wrongArity callFunction "at least 1" 0)
    | first :: _ =>
        match first.bareIdentifier? with
        | none => refused .libraryNameExpected
        | some name => library name
  else
    match Builtin.ofName? function with
    | some b => builtin b
    | none =>
        match functions.get? function with
        | none => refused (.unknownFunction function)
        | some f =>
            if args.length = f.params.length then user f
            else refused (.wrongArity function (toString f.params.length) args.length)

/-- The arguments that are evaluated; the first one of a library is its name. -/
def operands : Target → List Expr → List Expr
  | refused _, _ => []
  | library _, args => args.tail
  | builtin _, args => args
  | user _, args => args

end Target

/-- Can a user's function of this name be called at all? -/
def isCallable (name : String) : Bool := name != callFunction && (Builtin.ofName? name).isNone

namespace Target

variable {functions : Bindings UserFunction} {function : String} {args : List Expr}

/-- Of the user's functions only the one of the name matters, and not even that one
behind the name of a builtin or of the form that calls libraries. -/
theorem find_congr {functions' : Bindings UserFunction}
    (h : isCallable function = true → functions.get? function = functions'.get? function) :
    find functions function args = find functions' function args := by
  unfold find
  by_cases hcall : function = callFunction
  · rw [if_pos hcall, if_pos hcall]
  · rw [if_neg hcall, if_neg hcall]
    cases hbuiltin : Builtin.ofName? function with
    | some b => rfl
    | none =>
        have hcallable : isCallable function = true := by simp [isCallable, hcall, hbuiltin]
        rw [h hcallable]

theorem find_eq_user {f : UserFunction} (h : find functions function args = user f) :
    isCallable function = true ∧ functions.get? function = some f := by
  unfold find at h
  by_cases hcall : function = callFunction
  · rw [if_pos hcall] at h
    cases args with
    | nil => cases h
    | cons first args =>
        simp only at h
        cases hname : first.bareIdentifier? <;> rw [hname] at h <;> cases h
  · rw [if_neg hcall] at h
    cases hbuiltin : Builtin.ofName? function with
    | some b =>
        rw [hbuiltin] at h
        cases h
    | none =>
        rw [hbuiltin] at h
        cases hf : functions.get? function with
        | none =>
            rw [hf] at h
            cases h
        | some g =>
            rw [hf] at h
            simp only at h
            split at h
            · cases h
              exact ⟨by simp [isCallable, hcall, hbuiltin], rfl⟩
            · cases h

end Target

/-! ## The parts of a step -/

/-- What an expression does once its operands are evaluated. -/
inductive Next where
  | finish (result : Outcome Value)
  | branch (e : Expr)
  | plugin (library : String) (args : List Value)
  | enter (event : Event) (bindings : Bindings Value) (body : Expr)

namespace Next

/-- The step behind one operand. -/
def one (k : Value → Next) : List Value → Next
  | [v] => k v
  | _ => finish (.error .crash)

/-- The step behind two operands. -/
def two (k : Value → Value → Next) : List Value → Next
  | [v, w] => k v w
  | _ => finish (.error .crash)

/-- The one step if a value is false, and else the other. -/
def choose (v : Value) (whenFalse whenTrue : Next) : Next :=
  match v.isFalse with
  | .error f => finish (.error f)
  | .ok b => if b then whenFalse else whenTrue

end Next

/-- A call once its arguments are evaluated. -/
def Target.next (function : String) (args : List Value) : Target → Next
  | refused cause => .finish (refuse cause)
  | library name => .plugin name args
  | builtin b => .finish (b.apply args)
  | user f =>
      let bindings := Bindings.ofList (f.params.zip args)
      match bindingTexts bindings.entries with
      | .error failure => .finish (.error failure)
      | .ok texts => .enter (.called function texts) bindings f.body

namespace Expr

/-- The expressions that are evaluated first, in order. -/
def operands (functions : Bindings UserFunction) : Expr → List Expr
  | list items => items
  | call function args => (Target.find functions function args).operands args
  | term inner => [inner]
  | bare _ inner => [inner]
  | prefixed _ operand => [operand]
  | power base exponent => [base, exponent]
  | binary _ left _ right => [left, right]
  | ifThen condition _ => [condition]
  | ifElse condition _ => [condition]
  | ifThenElse condition _ _ => [condition]
  | _ => []

/-- The expressions of which at most one is evaluated behind the operands. -/
def branches : Expr → List Expr
  | ifThen _ thenBranch => [thenBranch]
  | ifElse _ elseBranch => [elseBranch]
  | ifThenElse _ thenBranch elseBranch => [thenBranch, elseBranch]
  | _ => []

/-- Is a host of plugins asked for before the operands are evaluated? -/
def asksHost (functions : Bindings UserFunction) : Expr → Bool
  | call function args =>
      match Target.find functions function args with
      | .library _ => true
      | _ => false
  | _ => false

/-- What follows the operands with these values. -/
def next (env : Environment) : Expr → List Value → Next
  | ident name, _ => .finish (orFail (.error (.unknownVariable name)) (env.vars.get? name))
  | number text, _ => .finish (numberValue text)
  | integer text, _ => .finish (integerValue text)
  | list _, vs => .finish (.ok (.list vs))
  | call function args, vs => (Target.find env.functions function args).next function vs
  | term _, vs => Next.one (fun v => .finish (.ok v)) vs
  | bare _ _, vs => Next.one (fun v => .finish (.ok v)) vs
  | prefixed op _, vs => Next.one (fun v => .finish (applyPrefix op v)) vs
  | power _ _, vs => Next.two (fun v w => .finish (v.pow w)) vs
  | binary _ _ op _, vs => Next.two (fun v w => .finish (applyBinary op v w)) vs
  | ifThen _ thenBranch, vs =>
      Next.one (fun v => .choose v (.finish (.ok v)) (.branch thenBranch)) vs
  | ifElse _ elseBranch, vs =>
      Next.one (fun v => .choose v (.branch elseBranch) (.finish (.ok v))) vs
  | ifThenElse _ thenBranch elseBranch, vs =>
      Next.one (fun v => .choose v (.branch elseBranch) (.branch thenBranch)) vs
  | misplaced _ _, _ => .finish (.error .notAnExpression)
  | foreign, _ => .finish (.error .notAnExpression)

end Expr

/-! ## The equation -/

section Equation

variable {σ : Type} (host : PluginHost σ) (callee : Environment → Expr → EvalM σ Value)
  (env : Environment)

/-- Ask for a host before going on, or do not. -/
def EvalM.prepare (asks : Bool) : EvalM σ Unit :=
  if asks then do let _ ← EvalM.hostState host else pure ()

/-- The step that is to come. -/
def Next.run : Next → EvalM σ Value
  | finish result => EvalM.ofOutcome result
  | branch e => evalWith host callee env e
  | plugin library args => EvalM.executePlugin host library args
  | enter event bindings body => do
      EvalM.note event
      EvalM.sharingHost (callee (env.extended bindings) body)

theorem Next.run_choose (v : Value) (whenFalse whenTrue : Next) :
    (Next.choose v whenFalse whenTrue).run host callee env =
      EvalM.ofOutcome v.isFalse >>= fun b =>
        if b = true then whenFalse.run host callee env else whenTrue.run host callee env := by
  rw [choose]
  cases v.isFalse with
  | error f => rfl
  | ok b => cases b <;> rfl

theorem evalWith_call_step (function : String) (args : List Expr) :
    evalWith host callee env (.call function args) =
      EvalM.prepare host (Expr.asksHost env.functions (.call function args)) >>= fun _ =>
        evalItems host callee env ((Target.find env.functions function args).operands args) >>=
          fun vs => ((Target.find env.functions function args).next function vs).run host callee
            env := by
  rw [evalWith.eq_def]
  by_cases hcall : function = callFunction
  · cases args with
    | nil => simp only [Expr.asksHost, Target.find, if_pos hcall]; rfl
    | cons first args =>
        cases hname : first.bareIdentifier? with
        | none => simp only [Expr.asksHost, Target.find, if_pos hcall, hname]; rfl
        | some name =>
            simp only [Expr.asksHost, Target.find, if_pos hcall, hname, EvalM.prepare, if_true,
              bind_assoc, pure_bind]
            rfl
  · cases hbuiltin : Builtin.ofName? function with
    | some b => simp only [Expr.asksHost, Target.find, if_neg hcall, hbuiltin]; rfl
    | none =>
        cases hf : env.functions.get? function with
        | none => simp only [Expr.asksHost, Target.find, if_neg hcall, hbuiltin, hf]; rfl
        | some f =>
            by_cases hlength : args.length = f.params.length
            · simp only [Expr.asksHost, Target.find, if_neg hcall, hbuiltin, hf, if_pos hlength,
                Target.operands, Target.next, callUser]
              refine bind_congr fun vs => ?_
              cases bindingTexts (Bindings.ofList (f.params.zip vs)).entries <;> rfl
            · simp only [Expr.asksHost, Target.find, if_neg hcall, hbuiltin, hf, if_neg hlength]
              rfl

/-- Operands first and one step behind them, whatever the expression. -/
theorem evalWith_step (e : Expr) :
    evalWith host callee env e =
      EvalM.prepare host (e.asksHost env.functions) >>= fun _ =>
        evalItems host callee env (e.operands env.functions) >>= fun vs =>
          (e.next env vs).run host callee env := by
  -- only calls of libraries ask for a host, so that the others have nothing to prepare
  have hprepare (k : Unit → EvalM σ Value) : EvalM.prepare host false >>= k = k () := rfl
  cases e with
  | call function args => exact evalWith_call_step host callee env function args
  | ident name =>
      rw [evalWith]
      simp only [Expr.asksHost, hprepare, Expr.operands, evalItems, pure_bind, Expr.next, Next.run]
      cases env.vars.get? name <;> rfl
  | number text | integer text =>
      rw [evalWith]
      simp only [Expr.asksHost, hprepare, Expr.operands, evalItems, pure_bind, Expr.next, Next.run]
  | misplaced head body | foreign =>
      rw [evalWith]
      rfl
  | list items =>
      rw [evalWith]
      rfl
  | term inner | bare level inner =>
      rw [evalWith]
      simp only [Expr.asksHost, hprepare, Expr.operands, evalItems, pure_bind, bind_assoc,
        Expr.next, Next.one, Next.run]
      exact (bind_pure _).symm
  | prefixed op operand | power base exponent | binary tier left op right =>
      rw [evalWith]
      simp only [Expr.asksHost, hprepare, Expr.operands, evalItems, pure_bind, bind_assoc,
        Expr.next, Next.one, Next.two, Next.run]
  | ifThen condition branch | ifElse condition branch | ifThenElse condition branch other =>
      rw [evalWith]
      simp only [Expr.asksHost, hprepare, Expr.operands, evalItems, pure_bind, bind_assoc,
        Expr.next, Next.one, Next.run_choose]
      rfl

/-- What evaluates the bodies of functions. -/
def evalBody : Nat → Environment → Expr → EvalM σ Value
  | 0 => fun _ _ => throw .outOfDepth
  | depth + 1 => eval host depth

theorem eval_eq_evalWith (depth : Nat) : eval host depth = evalWith host (evalBody host depth) := by
  cases depth <;> rfl

theorem eval_step (depth : Nat) (e : Expr) :
    eval host depth env e =
      EvalM.prepare host (e.asksHost env.functions) >>= fun _ =>
        evalItems host (evalBody host depth) env (e.operands env.functions) >>= fun vs =>
          (e.next env vs).run host (evalBody host depth) env := by
  rw [eval_eq_evalWith, evalWith_step]

end Equation

/-! ## Induction over the steps -/

theorem Target.mem_of_mem_operands {t : Target} {args : List Expr} {x : Expr}
    (h : x ∈ t.operands args) : x ∈ args := by
  cases t with
  | refused cause => cases h
  | library name => exact List.mem_of_mem_tail h
  | builtin b => exact h
  | user f => exact h

theorem Target.next_ne_branch {t : Target} {function : String} {vs : List Value} {b : Expr} :
    t.next function vs ≠ .branch b := by
  intro h
  cases t with
  | user f =>
      simp only [next] at h
      split at h <;> cases h
  | _ => cases h

theorem Target.exists_user_of_next {t : Target} {function : String} {vs : List Value} {body : Expr}
    {event : Event} {bindings : Bindings Value}
    (h : t.next function vs = .enter event bindings body) : ∃ f, t = user f ∧ f.body = body := by
  cases t with
  | user f =>
      simp only [next] at h
      split at h
      · cases h
      · cases h
        exact ⟨f, rfl, rfl⟩
  | _ => cases h

namespace Next

variable {n : Next}

theorem one_cases {k : Value → Next} {vs : List Value} (h : one k vs = n) :
    (∃ v, k v = n) ∨ ∃ f, n = finish (.error f) := by
  match vs with
  | [v] => exact .inl ⟨v, h⟩
  | [] | _ :: _ :: _ => exact .inr ⟨_, h.symm⟩

theorem two_cases {k : Value → Value → Next} {vs : List Value} (h : two k vs = n) :
    (∃ v w, k v w = n) ∨ ∃ f, n = finish (.error f) := by
  match vs with
  | [v, w] => exact .inl ⟨v, w, h⟩
  | [] | [_] | _ :: _ :: _ :: _ => exact .inr ⟨_, h.symm⟩

theorem choose_cases {v : Value} {x y : Next} (h : choose v x y = n) :
    (x = n ∨ y = n) ∨ ∃ f, n = finish (.error f) := by
  rw [choose] at h
  cases hfalse : v.isFalse with
  | error f =>
      rw [hfalse] at h
      exact .inr ⟨f, h.symm⟩
  | ok b =>
      rw [hfalse] at h
      cases b with
      | false => exact .inl (.inr h)
      | true => exact .inl (.inl h)

end Next

namespace Expr

theorem sizeOf_lt_of_mem_operands {functions : Bindings UserFunction} {e x : Expr}
    (h : x ∈ e.operands functions) : sizeOf x < sizeOf e := by
  cases e with
  | list items =>
      have hsize := List.sizeOf_lt_of_mem (show x ∈ items from h)
      simp only [list.sizeOf_spec]
      omega
  | call function args =>
      have hsize := List.sizeOf_lt_of_mem (Target.mem_of_mem_operands h)
      simp only [call.sizeOf_spec]
      omega
  | ident | number | integer | misplaced | foreign => cases h
  | _ =>
      simp only [operands, List.mem_cons, List.not_mem_nil, or_false] at h
      grind

theorem sizeOf_lt_of_mem_branches {e b : Expr} (h : b ∈ e.branches) : sizeOf b < sizeOf e := by
  cases e with
  | ifThen | ifElse | ifThenElse =>
      simp only [branches, List.mem_cons, List.not_mem_nil, or_false] at h
      grind
  | _ => cases h

theorem mem_branches_of_next {env : Environment} {e b : Expr} {vs : List Value}
    (h : e.next env vs = .branch b) : b ∈ e.branches := by
  cases e with
  | call function args => exact absurd h Target.next_ne_branch
  | ifThen condition thenBranch =>
      rcases Next.one_cases h with ⟨v, h⟩ | ⟨f, ⟨⟩⟩
      rcases Next.choose_cases h with (⟨⟨⟩⟩ | ⟨⟨⟩⟩) | ⟨f, ⟨⟩⟩
      exact List.mem_cons_self
  | ifElse condition elseBranch =>
      rcases Next.one_cases h with ⟨v, h⟩ | ⟨f, ⟨⟩⟩
      rcases Next.choose_cases h with (⟨⟨⟩⟩ | ⟨⟨⟩⟩) | ⟨f, ⟨⟩⟩
      exact List.mem_cons_self
  | ifThenElse condition thenBranch elseBranch =>
      rcases Next.one_cases h with ⟨v, h⟩ | ⟨f, ⟨⟩⟩
      rcases Next.choose_cases h with (⟨⟨⟩⟩ | ⟨⟨⟩⟩) | ⟨f, ⟨⟩⟩
      · exact List.mem_cons_of_mem _ List.mem_cons_self
      · exact List.mem_cons_self
  | term | bare | prefixed => obtain ⟨v, h⟩ | ⟨f, h⟩ := Next.one_cases h <;> cases h
  | power | binary => obtain ⟨v, w, h⟩ | ⟨f, h⟩ := Next.two_cases h <;> cases h
  | _ => cases h

theorem exists_user_of_next {env : Environment} {e body : Expr} {vs : List Value} {event : Event}
    {bindings : Bindings Value} (h : e.next env vs = .enter event bindings body) :
    ∃ function args f, e = call function args ∧
      Target.find env.functions function args = .user f ∧ f.body = body := by
  cases e with
  | call function args =>
      obtain ⟨f, hf, hbody⟩ := Target.exists_user_of_next h
      exact ⟨function, args, f, rfl, hf, hbody⟩
  | term | bare | prefixed => obtain ⟨v, h⟩ | ⟨f, h⟩ := Next.one_cases h <;> cases h
  | power | binary => obtain ⟨v, w, h⟩ | ⟨f, h⟩ := Next.two_cases h <;> cases h
  | ifThen | ifElse | ifThenElse =>
      rcases Next.one_cases h with ⟨v, h⟩ | ⟨f, ⟨⟩⟩
      obtain (h | h) | ⟨f, h⟩ := Next.choose_cases h <;> cases h
  | _ => cases h

/-- What holds of an expression once it holds of its operands and of the branches
that may follow them, holds of every expression. -/
theorem induct_step {motive : Expr → Prop} (env : Environment)
    (step : ∀ e, (∀ x ∈ e.operands env.functions, motive x) →
      (∀ vs b, e.next env vs = .branch b → motive b) → motive e) (e : Expr) : motive e :=
  step e (fun x _ => induct_step env step x) fun _ b _ => induct_step env step b
termination_by sizeOf e
decreasing_by
  · exact sizeOf_lt_of_mem_operands ‹_›
  · exact sizeOf_lt_of_mem_branches (mem_branches_of_next ‹_›)

end Expr

end PolarCalc
