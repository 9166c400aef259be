import PolarCalc.Proofs.Evaluation.Step
/-!
# Evaluations of different depth

The depth of calls that an evaluation is allowed decides only whether it comes to
its end: unless it is stopped for its depth, it has the same result at every
greater depth and leaves the same behind (`eval_of_le`).
-/

namespace PolarCalc

namespace EvalM

variable {σ α β : Type} {x y : EvalM σ α}

/-- Wherever the first evaluation is not stopped for its depth, the second does the
same. -/
def Extends (x y : EvalM σ α) : Prop :=
  ∀ m, (x m).1 ≠ .error .outOfDepth → y m = x m

theorem Extends.refl (x : EvalM σ α) : x.Extends x := fun _ _ => rfl

theorem Extends.trans {z : EvalM σ α} (hxy : x.Extends y) (hyz : y.Extends z) : x.Extends z := by
  intro m hx
  have hy : y m = x m := hxy m hx
  rw [← hy] at hx ⊢
  exact hyz m hx

theorem extends_throw (y : EvalM σ α) : (throw .outOfDepth : EvalM σ α).Extends y :=
  fun _ h => absurd rfl h

theorem Extends.bind {k l : α → EvalM σ β} (hx : x.Extends y) (hk : ∀ a, (k a).Extends (l a)) :
    (x >>= k).Extends (y >>= l) := by
  intro m h
  rw [bind_run] at h ⊢
  rw [bind_run]
  have hfirst : y m = x m := by
    apply hx
    intro hstop
    apply h
    cases hrun : x m with
    | mk result after =>
        rw [hrun] at hstop
        cases hstop
        rfl
  rw [hfirst]
  cases hrun : x m with
  | mk result after =>
      rw [hrun] at h
      cases result with
      | error f => rfl
      | ok a => exact hk a after h

theorem Extends.sharingHost (hx : x.Extends y) : (sharingHost x).Extends (sharingHost y) := by
  intro m h
  rw [sharingHost_run] at h ⊢
  rw [sharingHost_run, hx m h]

end EvalM

section Depth

open EvalM (Extends)

variable {σ : Type} {host : PluginHost σ} {callee callee' : Environment → Expr → EvalM σ Value}

theorem evalItems_extends {env : Environment} {items : List Expr}
    (h : ∀ x ∈ items, (evalWith host callee env x).Extends (evalWith host callee' env x)) :
    (evalItems host callee env items).Extends (evalItems host callee' env items) := by
  induction items with
  | nil => exact Extends.refl _
  | cons item items ih =>
      rw [evalItems, evalItems]
      apply Extends.bind (h item List.mem_cons_self)
      intro v
      apply Extends.bind (ih fun x hx => h x (List.mem_cons_of_mem item hx))
      intro vs
      exact Extends.refl _

/-- An expression is stopped for the depth of a body only, since nothing else is counted. -/
theorem evalWith_extends (h : ∀ env body, (callee env body).Extends (callee' env body))
    (env : Environment) (e : Expr) :
    (evalWith host callee env e).Extends (evalWith host callee' env e) := by
  induction e using Expr.induct_step env with
  | step e operands_ih branches_ih =>
  rw [evalWith_step, evalWith_step]
  apply Extends.bind (Extends.refl _)
  intro _
  apply Extends.bind (evalItems_extends operands_ih)
  intro vs
  cases hn : e.next env vs with
  | finish result => exact Extends.refl _
  | plugin library args => exact Extends.refl _
  | branch b => exact branches_ih vs b hn
  | enter event bindings body =>
      rw [Next.run, Next.run]
      exact (Extends.refl _).bind fun _ => (h _ body).sharingHost

theorem eval_extends (depth : Nat) (env : Environment) (e : Expr) :
    (eval host depth env e).Extends (eval host (depth + 1) env e) := by
  induction depth generalizing env e with
  | zero => exact evalWith_extends (fun _ _ => EvalM.extends_throw _) env e
  | succ depth ih => exact evalWith_extends ih env e

/-- What an evaluation comes to unless it is stopped for its depth, it comes to at every
greater depth. -/
theorem eval_of_le {depth deeper : Nat} (hle : depth ≤ deeper) (env : Environment) (e : Expr) :
    (eval host depth env e).Extends (eval host deeper env e) := by
  induction hle with
  | refl => exact Extends.refl _
  | step _ ih => exact ih.trans (eval_extends _ env e)

end Depth

end PolarCalc
