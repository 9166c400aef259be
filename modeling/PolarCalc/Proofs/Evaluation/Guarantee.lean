import PolarCalc.Proofs.Evaluation.Literal
import PolarCalc.Proofs.Evaluation.Value
/-!
# What evaluation guarantees

One induction over the canonical trees, and one over the depth of calls, for
whatever is asked of values leaf by leaf and of failures beyond the foreseen
ones.  Such a `Guarantee` holds of every evaluation once the variables and the
plugins meet it and the bodies of the functions are canonical.
-/

namespace PolarCalc

open Outcome
open Failure (IsForeseen)

/-! ## Runs that end as they should -/

/-- However the machine stands, the evaluation ends in a value that has the one
property or in a failure that has the other. -/
def EvalM.Ends {σ α : Type} (good : α → Prop) (bad : Failure → Prop) (x : EvalM σ α) : Prop :=
  ∀ m, Within good bad (x m).1

namespace EvalM

variable {σ α β : Type} {x : EvalM σ α} {good : α → Prop} {next : β → Prop} {bad : Failure → Prop}

theorem Ends.pure {a : α} (h : good a) : Ends good bad (pure a : EvalM σ α) := fun _ => .ok h

theorem Ends.throw {f : Failure} (h : bad f) : Ends good bad (throw f : EvalM σ α) :=
  fun _ => .error h

theorem Ends.ofOutcome {x : Outcome α} (h : Within good bad x) :
    Ends good bad (ofOutcome x : EvalM σ α) := by
  intro m
  rw [ofOutcome_run]
  exact h

theorem Ends.bind {k : α → EvalM σ β} (hx : Ends good bad x)
    (hk : ∀ a, good a → Ends next bad (k a)) : Ends next bad (x >>= k) := by
  intro m
  have hfirst := hx m
  rw [bind_run]
  match x m, hfirst with
  | (.ok a, after), .ok h => exact hk a h after
  | (.error f, after), .error h => exact .error h

theorem Ends.sharingHost (hx : Ends good bad x) : Ends good bad (sharingHost x) := by
  intro m
  rw [sharingHost_run]
  exact hx m

end EvalM

/-! ## Guarantees -/

/-- What is asked of values and of failures. -/
structure Guarantee where
  good : Value → Prop
  bad : Failure → Prop
  leafwise : Value.Leafwise good
  foreseen {f : Failure} : f.IsForeseen → bad f
  outOfDepth : bad .outOfDepth

namespace Guarantee

/-- No failure but those of the operations, and that of the depth. -/
def sound : Guarantee where
  good _ := True
  bad f := f = .outOfDepth ∨ f.IsForeseen
  leafwise := Value.leafwise_true
  foreseen := .inr
  outOfDepth := .inl rfl

/-- No value with an impossible leaf. -/
def possible : Guarantee where
  good := Value.Possible
  bad _ := True
  leafwise := Value.leafwise_possible
  foreseen _ := trivial
  outOfDepth := trivial

end Guarantee

/-- The variables hold good values, and the functions have canonical bodies. -/
structure Environment.Meets (env : Environment) (g : Guarantee) : Prop where
  vars {name : String} {v : Value} : env.vars.get? name = some v → g.good v
  bodies {name : String} {f : UserFunction} : env.functions.get? name = some f →
    Canonical (.level .conditional) f.body

/-- For good arguments the libraries reply with good values or fail as they may. -/
def PluginHost.Meets {σ : Type} (host : PluginHost σ) (g : Guarantee) : Prop :=
  ∀ library args s, (∀ v ∈ args, g.good v) → Within g.good g.bad (host.execute library args s).1

namespace Environment.Meets

variable {g : Guarantee} {env : Environment}

theorem setVariable (h : env.Meets g) (name : String) {v : Value} (hv : g.good v) :
    (env.setVariable name v).Meets g where
  bodies := h.bodies
  vars hw := by
    rcases Bindings.eq_or_get?_of_get?_set hw with rfl | hw
    · exact hv
    · exact h.vars hw

theorem setFunction (h : env.Meets g) (name : String) {f : UserFunction}
    (hf : Canonical (.level .conditional) f.body) : (env.setFunction name f).Meets g where
  vars := h.vars
  bodies hw := by
    rcases Bindings.eq_or_get?_of_get?_set hw with rfl | hw
    · exact hf
    · exact h.bodies hw

theorem extended (h : env.Meets g) (params : List String) {args : List Value}
    (hargs : ∀ v ∈ args, g.good v) :
    (env.extended (Bindings.ofList (params.zip args))).Meets g where
  bodies := h.bodies
  vars {name v} hv := by
    change (env.vars.update _).get? name = some v at hv
    rw [Bindings.get?_update, Option.or_eq_some_iff] at hv
    rcases hv with hv | ⟨-, hv⟩
    · have hmem := Bindings.mem_ofList (List.mem_reverse.1 (Bindings.mem_of_lookup hv))
      exact hargs v (List.of_mem_zip hmem).2
    · exact h.vars hv

end Environment.Meets

/-! ## Expressions -/

section Evaluation

open EvalM (Ends)

variable {σ : Type} {g : Guarantee} {host : PluginHost σ} {env : Environment}
  {callee : Environment → Expr → EvalM σ Value}

theorem Guarantee.ends {α : Type} {good : α → Prop} {x : Outcome α} (g : Guarantee)
    (h : Within good IsForeseen x) : Ends good g.bad (EvalM.ofOutcome x : EvalM σ α) :=
  .ofOutcome (h.imp (fun _ ha => ha) fun _ => g.foreseen)

theorem Guarantee.reject (g : Guarantee) (cause : EvalError) :
    Ends g.good g.bad (EvalM.reject cause : EvalM σ Value) :=
  .throw (g.foreseen (.error cause))

theorem bindingTexts_fails (entries : List (String × Value)) :
    Fails Failure.IsCapacity (bindingTexts entries) := by
  induction entries with
  | nil => exact .ok trivial
  | cons entry rest ih =>
      exact entry.2.text_within.fails.bind fun _ _ => ih.map fun _ _ => trivial

theorem Value.isFalse_fails (v : Value) : Fails Failure.IsCapacity v.isFalse :=
  v.text_within.fails.map fun _ _ => trivial

theorem evalItems_ends {good : Value → Prop} {bad : Failure → Prop} {items : List Expr}
    (h : ∀ item ∈ items, Ends good bad (evalWith host callee env item)) :
    Ends (∀ v ∈ ·, good v) bad (evalItems host callee env items) := by
  induction items with
  | nil =>
      rw [evalItems]
      exact .pure fun v hv => absurd hv List.not_mem_nil
  | cons item items ih =>
      rw [evalItems]
      refine (h item List.mem_cons_self).bind fun v hv => ?_
      refine (ih fun next hnext => h next (List.mem_cons_of_mem item hnext)).bind fun vs hvs => ?_
      exact .pure (List.forall_mem_cons.2 ⟨hv, hvs⟩)

theorem hostState_ends {bad : Failure → Prop} :
    Ends (fun _ => True) bad (EvalM.hostState host) := by
  intro m
  rw [EvalM.hostState_run]
  exact .ok trivial

theorem executePlugin_ends (hhost : host.Meets g) (library : String) {args : List Value}
    (hargs : ∀ v ∈ args, g.good v) : Ends g.good g.bad (EvalM.executePlugin host library args) := by
  intro m
  rw [EvalM.executePlugin_run]
  exact hhost library args _ hargs

/-- The callee keeps the guarantee for canonical bodies. -/
def Keeps (g : Guarantee) (callee : Environment → Expr → EvalM σ Value) : Prop :=
  ∀ env body, env.Meets g → Canonical (.level .conditional) body →
    Ends g.good g.bad (callee env body)

theorem callUser_ends (hcallee : Keeps g callee) (henv : env.Meets g) (name : String)
    {f : UserFunction} (hf : Canonical (.level .conditional) f.body) {args : List Value}
    (hargs : ∀ v ∈ args, g.good v) : Ends g.good g.bad (callUser callee env name f args) := by
  have hnote (event : Event) : Ends (fun _ => True) g.bad (EvalM.note event : EvalM σ Unit) :=
    fun _ => .ok trivial
  refine (g.ends (bindingTexts_fails _).foreseen).bind fun texts _ => ?_
  refine (hnote _).bind fun _ _ => Ends.sharingHost ?_
  exact hcallee _ f.body (henv.extended f.params hargs) hf

theorem call_ends (hhost : host.Meets g) (hcallee : Keeps g callee) (henv : env.Meets g)
    (function : String) {args : List Expr}
    (hargs : ∀ arg ∈ args, Ends g.good g.bad (evalWith host callee env arg)) :
    Ends g.good g.bad (evalWith host callee env (.call function args)) := by
  rw [evalWith.eq_def]
  by_cases hcall : function = callFunction
  · simp only [if_pos hcall]
    cases args with
    | nil => exact g.reject _
    | cons library args =>
        simp only
        cases library.bareIdentifier? with
        | none => exact g.reject _
        | some library =>
            refine hostState_ends.bind fun _ _ => ?_
            have hitems := evalItems_ends fun arg harg => hargs arg (List.mem_cons_of_mem _ harg)
            exact hitems.bind fun vs hvs => executePlugin_ends hhost library hvs
  · simp only [if_neg hcall]
    cases Builtin.ofName? function with
    | some builtin =>
        exact (evalItems_ends hargs).bind fun vs hvs =>
          g.ends (builtin.apply_within g.leafwise hvs)
    | none =>
        cases hf : env.functions.get? function with
        | none => exact g.reject _
        | some f =>
            by_cases hlength : args.length = f.params.length
            · simp only [if_pos hlength]
              exact (evalItems_ends hargs).bind fun vs hvs =>
                callUser_ends hcallee henv function (henv.bodies hf) hvs
            · simp only [if_neg hlength]
              exact g.reject _

theorem choose_ends {v : Value} {x y : EvalM σ Value} (hx : Ends g.good g.bad x)
    (hy : Ends g.good g.bad y) :
    Ends g.good g.bad (EvalM.ofOutcome v.isFalse >>= fun b => if b = true then x else y) := by
  refine (g.ends v.isFalse_fails.foreseen).bind fun b _ => ?_
  cases b with
  | false => exact hy
  | true => exact hx

theorem evalWith_ends (hhost : host.Meets g) (hcallee : Keeps g callee) (henv : env.Meets g)
    {k : Category} {e : Expr} (h : Canonical k e) :
    Ends g.good g.bad (evalWith host callee env e) := by
  have hscalar {x : Outcome Value} (hx : Within (fun v => ∃ z, v = .scalar z) IsForeseen x) :
      Ends g.good g.bad (EvalM.ofOutcome x : EvalM σ Value) := by
    refine g.ends (hx.imp ?_ fun _ hf => hf)
    rintro _ ⟨z, rfl⟩
    exact g.leafwise.scalar z
  have hbinary {op : String} {tier : Tier} {left right : Expr} (hop : op ∈ tier.operators)
      (hleft : Ends g.good g.bad (evalWith host callee env left))
      (hright : Ends g.good g.bad (evalWith host callee env right)) :
      Ends g.good g.bad (evalWith host callee env (.binary tier left op right)) := by
    rw [evalWith]
    exact hleft.bind fun v hv => hright.bind fun w hw =>
      g.ends (g.leafwise.applyBinary hop hv hw)
  induction h with
  | bare _ _ ih =>
      rw [evalWith]
      exact ih
  | plain _ _ ih =>
      rw [evalWith]
      exact ih
  | prefixed _ _ ih =>
      rw [evalWith]
      exact ih.bind fun v hv => g.ends (g.leafwise.applyPrefix _ hv)
  | power _ _ ihbase ihexponent =>
      rw [evalWith]
      exact ihbase.bind fun v hv => ihexponent.bind fun w hw =>
        g.ends (g.leafwise.broadcast BinaryOperation.foreseen_pow hv hw)
  | first hop _ _ ihleft ihright => exact hbinary hop ihleft ihright
  | further hop _ _ ihleft ihright => exact hbinary hop ihleft ihright
  | ifThen _ _ ihcondition ihthen =>
      rw [evalWith]
      exact ihcondition.bind fun v hv => choose_ends (.pure hv) ihthen
  | ifElse _ _ ihcondition ihelse =>
      rw [evalWith]
      exact ihcondition.bind fun v hv => choose_ends ihelse (.pure hv)
  | ifThenElse _ _ _ _ ihcondition ihthen ihelse =>
      rw [evalWith]
      exact ihcondition.bind fun v hv => choose_ends ihelse ihthen
  | parenthesized _ ih =>
      rw [evalWith]
      exact ih
  | list _ ih =>
      rw [evalWith, evalWith]
      exact (evalItems_ends ih).bind fun vs hvs => .pure (g.leafwise.list.2 hvs)
  | call _ _ ih =>
      rw [evalWith]
      exact call_ends hhost hcallee henv _ ih
  | @ident name _ =>
      rw [evalWith, evalWith]
      cases hv : env.vars.get? name with
      | none => exact g.reject _
      | some v => exact .pure (henv.vars hv)
  | integer htext =>
      rw [evalWith, evalWith]
      exact hscalar (integerValue_within htext)
  | number htext =>
      rw [evalWith, evalWith]
      exact hscalar (numberValue_within htext)

/-- However deep calls may be nested, evaluation keeps the guarantee. -/
theorem eval_ends (hhost : host.Meets g) (depth : Nat) : Keeps g (eval host depth) := by
  induction depth with
  | zero =>
      intro env body henv hbody
      exact evalWith_ends hhost (fun _ _ _ _ => .throw g.outOfDepth) henv hbody
  | succ depth ih =>
      intro env body henv hbody
      exact evalWith_ends hhost ih henv hbody

end Evaluation

end PolarCalc
