import Mathlib.Logic.Relation
import PolarCalc.Proofs.Evaluation.Depth
import PolarCalc.Proofs.Evaluation.Guarantee
import PolarCalc.Proofs.Evaluation.Reachable
/-!
# Evaluations that end

Where no user's function calls itself, be it through others, the functions whose
bodies are being evaluated at one time are all different.  So calls are never nested
deeper than there are functions: an evaluation that is allowed as many levels comes
to its end.
-/

namespace PolarCalc

open Outcome
open Failure (IsForeseen)

/-- Every call of a library comes back. -/
def PluginHost.Returns {σ : Type} (host : PluginHost σ) : Prop :=
  ∀ library args s, (host.execute library args s).1 ≠ .error .outOfDepth

/-! ## Which function calls which -/

namespace Bindings

/-- The body of the one function calls the other, which is a user's function too.  What
stands for the name of a library is no call, as it is not evaluated. -/
def Calls (functions : Bindings UserFunction) (caller callee : String) : Prop :=
  ∃ f, functions.get? caller = some f ∧ Symbol.function callee ∈ f.body.symbols ∧
    (functions.get? callee).isSome

/-- No function calls itself, be it through others. -/
def Acyclic (functions : Bindings UserFunction) : Prop :=
  ∀ name, ¬ Relation.TransGen functions.Calls name name

variable {functions : Bindings UserFunction}

theorem acyclic_of_rank (rank : String → Nat)
    (h : ∀ caller callee, functions.Calls caller callee → rank callee < rank caller) :
    functions.Acyclic := by
  have hdown {caller callee : String} (hcalls : Relation.TransGen functions.Calls caller callee) :
      rank callee < rank caller := by
    induction hcalls with
    | single hcall => exact h _ _ hcall
    | tail _ hcall ih => exact (h _ _ hcall).trans ih
  exact fun name hname => Nat.lt_irrefl _ (hdown hname)

theorem mem_names {α : Type} {b : Bindings α} {name : String} {a : α}
    (h : b.get? name = some a) : name ∈ b.names :=
  List.mem_map_of_mem (mem_of_lookup h)

end Bindings

/-! ## Functions in progress -/

/-- These functions are in progress where the expression is evaluated: they are all
different, and each leads to every function that the expression calls. -/
structure InProgress (functions : Bindings UserFunction) (names : List String) (e : Expr) :
    Prop where
  nodup : names.Nodup
  bound : names ⊆ functions.names
  leads : ∀ caller ∈ names, ∀ callee, Symbol.function callee ∈ e.symbols →
    (functions.get? callee).isSome → Relation.TransGen functions.Calls caller callee

namespace InProgress

variable {functions : Bindings UserFunction} {names : List String} {e : Expr}

theorem nil (functions : Bindings UserFunction) (e : Expr) : InProgress functions [] e where
  nodup := List.nodup_nil
  bound := List.nil_subset _
  leads := nofun

theorem length_le (h : InProgress functions names e) : names.length ≤ functions.size := by
  calc names.length ≤ functions.names.length := h.nodup.length_le_of_subset h.bound
    _ = functions.size := List.length_map _

/-- A function that is called is none of those in progress, since each of these would
lead back to itself. -/
theorem enter (h : InProgress functions names e) (hacyclic : functions.Acyclic) {name : String}
    {f : UserFunction} (hname : Symbol.function name ∈ e.symbols)
    (hf : functions.get? name = some f) : InProgress functions (name :: names) f.body := by
  have hsome : (functions.get? name).isSome := by rw [hf]; rfl
  have hcalls {callee : String} (hmem : Symbol.function callee ∈ f.body.symbols)
      (hcallee : (functions.get? callee).isSome) : functions.Calls name callee :=
    ⟨f, hf, hmem, hcallee⟩
  constructor
  case nodup =>
    apply List.nodup_cons.2 ⟨?_, h.nodup⟩
    intro hmem
    exact hacyclic name (h.leads name hmem name hname hsome)
  case bound => exact List.cons_subset.2 ⟨Bindings.mem_names hf, h.bound⟩
  case leads =>
    intro caller hcaller callee hmem hcallee
    rcases List.mem_cons.1 hcaller with rfl | hcaller
    · exact .single (hcalls hmem hcallee)
    · exact (h.leads caller hcaller name hname hsome).tail (hcalls hmem hcallee)

end InProgress

/-! ## Steps that are not stopped -/

theorem Failure.IsForeseen.ne_outOfDepth {f : Failure} (h : f.IsForeseen) : f ≠ .outOfDepth := by
  rintro rfl
  cases h with
  | capacity h => cases h

/-- A step that finishes has a value or a failure of its own. -/
def Next.Settles : Next → Prop
  | finish result => Fails (· ≠ .outOfDepth) result
  | _ => True

namespace Next.Settles

variable {vs : List Value}

theorem of_foreseen {result : Outcome Value} (h : Fails IsForeseen result) :
    (finish result).Settles :=
  h.imp (fun _ _ => trivial) fun _ => Failure.IsForeseen.ne_outOfDepth

theorem ok (v : Value) : (finish (.ok v)).Settles := Within.ok trivial

theorem error {f : Failure} (h : f ≠ .outOfDepth) : (finish (.error f)).Settles :=
  Within.error h

theorem one {k : Value → Next} (h : ∀ v, (k v).Settles) : (Next.one k vs).Settles := by
  match vs with
  | [v] => exact h v
  | [] | _ :: _ :: _ => exact error nofun

theorem two {k : Value → Value → Next} (h : ∀ v w, (k v w).Settles) :
    (Next.two k vs).Settles := by
  match vs with
  | [v, w] => exact h v w
  | [] | [_] | _ :: _ :: _ :: _ => exact error nofun

theorem choose (v : Value) {x y : Next} (hx : x.Settles) (hy : y.Settles) :
    (Next.choose v x y).Settles := by
  have hfalse := v.isFalse_fails
  unfold Next.choose
  cases hv : v.isFalse with
  | error f =>
      rw [hv] at hfalse
      exact error hfalse.foreseen.of_error.ne_outOfDepth
  | ok b =>
      cases b with
      | false => exact hy
      | true => exact hx

end Next.Settles

theorem applyBinary_fails (op : String) (v w : Value) : Fails IsForeseen (applyBinary op v w) := by
  have hbroadcast {operation : BinaryOperation} (hop : operation.Foreseen) :
      Fails IsForeseen (Value.broadcast operation v w) :=
    Value.leafwise_true.broadcast hop trivial trivial
  refine within_ite (fun _ => hbroadcast BinaryOperation.foreseen_add) fun _ => ?_
  refine within_ite (fun _ => hbroadcast BinaryOperation.foreseen_sub) fun _ => ?_
  refine within_ite (fun _ => hbroadcast BinaryOperation.foreseen_mul) fun _ => ?_
  refine within_ite (fun _ => hbroadcast BinaryOperation.foreseen_div) fun _ => ?_
  unfold Value.compare
  cases Comparison.ofSign? op with
  | none => exact .ok trivial
  | some c => exact hbroadcast (BinaryOperation.foreseen_comparison c)

theorem Target.next_settles (t : Target) (function : String) (vs : List Value) :
    (t.next function vs).Settles := by
  cases t with
  | refused cause => exact .of_foreseen (refuse_within cause)
  | library name => trivial
  | builtin b =>
      exact .of_foreseen (b.apply_within Value.leafwise_true fun _ _ => trivial).fails
  | user f =>
      have htexts := bindingTexts_fails (Bindings.ofList (f.params.zip vs)).entries
      simp only [next]
      split
      next failure hfailure =>
        rw [hfailure] at htexts
        exact .error htexts.foreseen.of_error.ne_outOfDepth
      next => trivial

/-- A literal may be malformed in a tree that no text was read as. -/
theorem numberValue_fails (text : String) : Fails (· ≠ .outOfDepth) (numberValue text) := by
  unfold numberValue
  cases Decimal.readDouble? text.toList with
  | none => exact .error nofun
  | some x => exact .ok trivial

theorem integerText_fails (chars : List Char) :
    Fails (· ≠ .outOfDepth) (IntegerText.read chars) := by
  unfold IntegerText.read
  simp only
  split
  · exact .error nofun
  · exact within_ite (fun _ => .ok trivial) fun _ => .error nofun
  · exact .error nofun

theorem integerValue_fails (text : String) : Fails (· ≠ .outOfDepth) (integerValue text) := by
  have hread := integerText_fails (text.toList.filter (· != '_'))
  unfold integerValue
  cases hchars : IntegerText.read (text.toList.filter (· != '_')) with
  | error f =>
      rw [hchars] at hread
      exact .error hread.of_error
  | ok n => exact .ok trivial

theorem Expr.next_settles (env : Environment) (e : Expr) (vs : List Value) :
    (e.next env vs).Settles := by
  cases e with
  | ident name => exact .of_foreseen (orFail_within (fun _ _ => trivial) fun _ => .error _)
  | number text => exact numberValue_fails text
  | integer text => exact integerValue_fails text
  | list items => exact .ok _
  | call function args => exact Target.next_settles _ function vs
  | misplaced head body | foreign => exact .error nofun
  | term inner | bare level inner => exact .one fun v => .ok v
  | prefixed op operand =>
      exact .one fun v => .of_foreseen (Value.leafwise_true.applyPrefix op trivial)
  | power base exponent =>
      exact .two fun v w =>
        .of_foreseen (Value.leafwise_true.broadcast BinaryOperation.foreseen_pow trivial trivial)
  | binary tier left op right => exact .two fun v w => .of_foreseen (applyBinary_fails op v w)
  | ifThen condition thenBranch => exact .one fun v => .choose v (.ok v) trivial
  | ifElse condition elseBranch => exact .one fun v => .choose v trivial (.ok v)
  | ifThenElse condition thenBranch elseBranch => exact .one fun v => .choose v trivial trivial

/-! ## Evaluations that are not stopped -/

/-- However the machine stands, the evaluation is not stopped for its depth. -/
abbrev EvalM.Completes {σ α : Type} (x : EvalM σ α) : Prop :=
  x.Ends (fun _ => True) (· ≠ .outOfDepth)

section Completion

open EvalM (Completes)

variable {σ : Type} {host : PluginHost σ} {callee : Environment → Expr → EvalM σ Value}
  {env : Environment}

theorem prepare_completes (host : PluginHost σ) (asks : Bool) :
    (EvalM.prepare host asks).Completes := by
  cases asks with
  | false => exact .pure trivial
  | true =>
      rw [EvalM.prepare, if_pos rfl]
      exact hostState_ends.bind fun _ _ => .pure trivial

theorem executePlugin_completes (hhost : host.Returns) (library : String) (args : List Value) :
    (EvalM.executePlugin host library args).Completes := by
  intro m
  have hreply := hhost library args (m.plugins.getD host.fresh)
  rw [EvalM.executePlugin_run]
  simp only
  cases h : (host.execute library args (m.plugins.getD host.fresh)).1 with
  | ok v => exact .ok trivial
  | error f =>
      rw [h] at hreply
      exact .error fun hf => hreply (congrArg Except.error hf)

/-- An expression is evaluated to its end if the bodies are of the functions it calls. -/
theorem evalWith_completes (hhost : host.Returns) {e : Expr}
    (hcallee : ∀ name f bindings, Symbol.function name ∈ e.symbols →
      env.functions.get? name = some f → (callee (env.extended bindings) f.body).Completes) :
    (evalWith host callee env e).Completes := by
  induction e using Expr.induct_step env with
  | step e operands_ih branches_ih =>
  -- the operands and the branch mention no function that the expression does not mention
  rw [evalWith_step]
  apply (prepare_completes host _).bind
  intro _ _
  have hoperands : EvalM.Ends (∀ v ∈ ·, True) (· ≠ .outOfDepth)
      (evalItems host callee env (e.operands env.functions)) := by
    apply evalItems_ends
    intro x hx
    apply operands_ih x hx
    intro name f bindings hname
    exact hcallee name f bindings (Expr.mem_symbols_of_mem_operands hx hname)
  apply hoperands.bind
  intro vs _
  have hsettles := e.next_settles env vs
  cases hn : e.next env vs with
  | finish result =>
      rw [hn] at hsettles
      exact .ofOutcome hsettles
  | plugin library args => exact executePlugin_completes hhost library args
  | branch b =>
      apply branches_ih vs b hn
      intro name f bindings hname
      exact hcallee name f bindings
        (Expr.mem_symbols_of_mem_branches (Expr.mem_branches_of_next hn) hname)
  | enter event bindings body =>
      obtain ⟨function, args, f, rfl, hfind, rfl⟩ := Expr.exists_user_of_next hn
      obtain ⟨hcallable, hf⟩ := Target.find_eq_user hfind
      have hbody := hcallee function f bindings (Expr.function_mem_symbols hcallable) hf
      have hnote : (EvalM.note event : EvalM σ Unit).Completes := fun _ => .ok trivial
      exact hnote.bind fun _ _ => hbody.sharingHost

/-- With the functions that are in progress there are levels enough for all of them. -/
theorem eval_completes (hhost : host.Returns) (depth : Nat) {names : List String} {e : Expr}
    (hacyclic : env.functions.Acyclic) (h : InProgress env.functions names e)
    (hsize : env.functions.size ≤ names.length + depth) : (eval host depth env e).Completes := by
  induction depth generalizing env names e with
  | zero =>
      apply evalWith_completes hhost
      intro name f bindings hname hf
      -- one more function would be in progress than there are
      have hlength := (h.enter hacyclic hname hf).length_le
      rw [List.length_cons] at hlength
      omega
  | succ depth ih =>
      apply evalWith_completes hhost
      intro name f bindings hname hf
      have hmore : env.functions.size ≤ (name :: names).length + depth := by
        rw [List.length_cons]
        omega
      have henter : InProgress (env.extended bindings).functions (name :: names) f.body :=
        h.enter hacyclic hname hf
      exact ih hacyclic henter hmore

end Completion

/-- Where functions are not recursive and calls of libraries return, every evaluation ends
in a value or an error.  As many levels of calls as there are functions are enough, and
with more of them the evaluation is the same. -/
theorem eval_of_acyclic {σ : Type} {host : PluginHost σ} {env : Environment}
    (hhost : host.Returns) (hacyclic : env.functions.Acyclic) (e : Expr) (m : Machine σ) :
    ∃ result after, result ≠ .error .outOfDepth ∧
      ∀ depth, env.functions.size ≤ depth → eval host depth env e m = (result, after) := by
  have hcompletes : (eval host env.functions.size env e).Completes := by
    apply eval_completes hhost _ hacyclic (.nil env.functions e)
    omega
  have hend : (eval host env.functions.size env e m).1 ≠ .error .outOfDepth := by
    intro hstop
    have hm := hcompletes m
    rw [hstop] at hm
    exact hm.of_error rfl
  refine ⟨_, (eval host env.functions.size env e m).2, hend, ?_⟩
  intro depth hdepth
  exact eval_of_le hdepth env e m hend

/-- A function that calls another one twice, within and without. -/
theorem eval_of_acyclic_twice :
    let double : UserFunction := ⟨["a"], .binary .sum (.ident "a") "+" (.ident "a")⟩
    let twice : UserFunction := ⟨["a"], .call "double" [.call "double" [.ident "a"]]⟩
    let env : Environment := ⟨.empty, ⟨[("twice", twice), ("double", double)]⟩⟩
    let e : Expr := .call "twice" [.call callFunction [.ident "pack", .integer "1_"]]
    let host : PluginHost Unit := ⟨(), fun _ args s => (.ok (.list args), s)⟩
    host.Returns ∧ env.functions.Acyclic ∧
      ∃ result after, result ≠ .error .outOfDepth ∧
        ∀ depth, 2 ≤ depth → eval host depth env e ⟨none, []⟩ = (result, after) := by
  intro double twice env e host
  have hhost : host.Returns := fun _ _ _ => nofun
  have hcalls (caller callee : String) (h : env.functions.Calls caller callee) :
      caller = "twice" ∧ callee = "double" := by
    obtain ⟨f, hf, hmem, -⟩ := h
    have hentry : (caller, f) ∈ [("twice", twice), ("double", double)] :=
      Bindings.mem_of_lookup hf
    have htwice : twice.body.symbols = [.function "double", .function "double", .variable "a"] := by
      decide
    have hdouble : double.body.symbols = [.variable "a", .variable "a"] := by decide
    simp only [List.mem_cons, Prod.mk.injEq, List.not_mem_nil, or_false] at hentry
    rcases hentry with ⟨rfl, rfl⟩ | ⟨rfl, rfl⟩
    · rw [htwice] at hmem
      simpa using hmem
    · rw [hdouble] at hmem
      simp at hmem
  have hacyclic : env.functions.Acyclic := by
    apply Bindings.acyclic_of_rank fun name => if name = "twice" then 1 else 0
    intro caller callee h
    obtain ⟨rfl, rfl⟩ := hcalls caller callee h
    decide
  exact ⟨hhost, hacyclic, eval_of_acyclic hhost hacyclic e ⟨none, []⟩⟩

end PolarCalc
