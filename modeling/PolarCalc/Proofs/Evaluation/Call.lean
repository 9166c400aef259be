import PolarCalc.Proofs.Plugin.Sharing
/-!
# Calls of user functions

A call evaluates its arguments, notes them as texts and then evaluates the body with
the parameters bound.  Were it not for the note, a call would be nothing but its
body: it is if every bound value can be written, and else it fails as writing the
first of those that cannot.
-/

namespace PolarCalc

open Outcome
open Failure (IsCapacity)

/-- The value can be written: no integer in it is too large for that. -/
def Value.IsWritable (v : Value) : Prop := ∃ text, v.text = .ok text

section Texts

variable {bindings back : List (String × Value)} {name : String} {v : Value} {failure : Failure}

theorem bindingTexts_of_writable (h : ∀ b ∈ bindings, b.2.IsWritable) :
    ∃ texts, bindingTexts bindings = .ok texts := by
  induction bindings with
  | nil => exact ⟨[], rfl⟩
  | cons b bindings ih =>
      obtain ⟨text, htext⟩ := h b List.mem_cons_self
      obtain ⟨texts, htexts⟩ := ih fun c hc => h c (List.mem_cons_of_mem b hc)
      rw [bindingTexts, htext, htexts]
      exact ⟨_, rfl⟩

theorem bindingTexts_of_not_writable (h : ∀ b ∈ bindings, b.2.IsWritable)
    (hv : v.text = .error failure) :
    bindingTexts (bindings ++ (name, v) :: back) = .error failure := by
  induction bindings with
  | nil =>
      rw [List.nil_append, bindingTexts, hv]
      rfl
  | cons b bindings ih =>
      obtain ⟨text, htext⟩ := h b List.mem_cons_self
      rw [List.cons_append, bindingTexts, htext, ih fun c hc => h c (List.mem_cons_of_mem b hc)]
      rfl

end Texts

section Calls

variable {σ : Type} {host : PluginHost σ} {depth : Nat} {env : Environment} {function : String}
  {f : UserFunction} {args : List Expr} {vs : List Value} {p : Option σ} {after : Machine σ}

/-- The events before an evaluation do not matter to its result. -/
theorem eval_eq_outcome (depth : Nat) (env : Environment) (e : Expr) (m : Machine σ) :
    (eval host depth env e m).1 = e.outcome host depth env m.plugins := by
  obtain ⟨course, q, hcourse, hleads, -⟩ := exists_course host depth env e m.plugins m.trace
  exact (hcourse.outcome_eq hleads).symm

theorem callUser_outcome {texts : List (String × String)}
    (htexts : bindingTexts (Bindings.ofList (f.params.zip vs)).entries = .ok texts) :
    (callUser (eval host depth) env function f vs after).1 =
      f.body.outcome host depth (env.extended (Bindings.ofList (f.params.zip vs)))
        after.plugins := by
  let noted : Machine σ := { after with trace := .called function texts :: after.trace }
  rw [← eval_eq_outcome depth _ f.body noted]
  simp only [callUser, htexts]
  rfl

theorem callUser_fails {failure : Failure}
    (htexts : bindingTexts (Bindings.ofList (f.params.zip vs)).entries = .error failure) :
    (callUser (eval host depth) env function f vs after).1 = .error failure := by
  simp only [callUser, htexts]
  rfl

/-- A call of a user's function whose arguments have values is the call with these values. -/
theorem eval_call (hcallable : isCallable function = true)
    (hf : env.functions.get? function = some f) (hlength : args.length = f.params.length)
    (hargs : evalItems host (eval host depth) env args ⟨p, []⟩ = (.ok vs, after)) :
    (Expr.call function args).outcome host (depth + 1) env p =
      (callUser (eval host depth) env function f vs after).1 := by
  simp only [isCallable, Bool.and_eq_true, bne_iff_ne, Option.isNone_iff_eq_none] at hcallable
  rw [Expr.outcome, eval, evalWith.eq_def]
  simp only [if_neg hcallable.1, hcallable.2, hf, if_pos hlength]
  rw [EvalM.bind_run, hargs]

/-- A call of a user's function is the evaluation of its body with the parameters bound,
value, error or fault, if what they are bound to can be written.  Else the body does not
count: the call fails for the first value that cannot be written, as one that is too
large. -/
theorem outcome_call (hcallable : isCallable function = true)
    (hf : env.functions.get? function = some f) (hlength : args.length = f.params.length)
    (hargs : evalItems host (eval host depth) env args ⟨p, []⟩ = (.ok vs, after)) :
    let bindings := Bindings.ofList (f.params.zip vs)
    let result := (Expr.call function args).outcome host (depth + 1) env p
    ((∀ b ∈ bindings.entries, b.2.IsWritable) →
      result = f.body.outcome host depth (env.extended bindings) after.plugins) ∧
    (∀ front name v back failure, bindings.entries = front ++ (name, v) :: back →
      (∀ b ∈ front, b.2.IsWritable) → v.text = .error failure →
        result = .error failure ∧ failure.IsCapacity) := by
  intro bindings result
  have hresult : result = (callUser (eval host depth) env function f vs after).1 :=
    eval_call hcallable hf hlength hargs
  constructor
  · intro hwritable
    obtain ⟨texts, htexts⟩ := bindingTexts_of_writable hwritable
    rw [hresult, callUser_outcome htexts]
  · intro front name v back failure hentries hfront hv
    have htexts : bindingTexts bindings.entries = .error failure := by
      rw [hentries, bindingTexts_of_not_writable hfront hv]
    have hcapacity := v.text_within
    rw [hv] at hcapacity
    exact ⟨by rw [hresult, callUser_fails htexts], hcapacity.of_error⟩

end Calls

/-- A function that packs its arguments the other way round. -/
theorem outcome_call_swap :
    let host : PluginHost Unit := ⟨(), fun _ args s => (.ok (.list args), s)⟩
    let pack (items : List Expr) : Expr := .call callFunction (.ident "pack" :: items)
    let swap : UserFunction := ⟨["a", "b"], pack [.ident "b", .ident "a"]⟩
    let x : Value := .ofInt 2
    let env : Environment := ⟨⟨[("x", x)]⟩, ⟨[("swap", swap)]⟩⟩
    let args : List Expr := [.ident "x", pack []]
    let bindings := Bindings.ofList [("a", x), ("b", .list [])]
    isCallable "swap" = true ∧ env.functions.get? "swap" = some swap ∧
      args.length = swap.params.length ∧
      evalItems host (eval host 0) env args ⟨some (), []⟩ =
        (.ok [x, .list []], ⟨some (), []⟩) ∧
      (Expr.call "swap" args).outcome host 1 env (some ()) =
        swap.body.outcome host 0 (env.extended bindings) (some ()) := by
  intro host pack swap x env args bindings
  have hcallable : isCallable "swap" = true := by decide
  have hargs : evalItems host (eval host 0) env args ⟨some (), []⟩ =
      (.ok [x, .list []], ⟨some (), []⟩) := by
    rfl
  have hwritable : ∀ b ∈ bindings.entries, b.2.IsWritable := by
    intro b hb
    have hmem : b ∈ [("a", x), ("b", .list [])] := hb
    simp only [List.mem_cons, List.not_mem_nil, or_false] at hmem
    rcases hmem with rfl | rfl
    · exact ⟨"2", by decide +kernel⟩
    · exact ⟨"[ ]", by decide +kernel⟩
  have hcall := outcome_call hcallable (f := swap) rfl rfl hargs
  exact ⟨hcallable, rfl, rfl, hargs, hcall.1 hwritable⟩

/-- A call whose argument cannot be written fails for it, whatever the body. -/
theorem outcome_call_ne_body :
    let host : PluginHost Unit := ⟨(), fun _ args s => (.ok (.list args), s)⟩
    let one : UserFunction := ⟨["x"], .integer "1_"⟩
    let env : Environment := ⟨.empty, ⟨[("f", one)]⟩⟩
    let arg : Expr := .power (.prefixed "j" (.integer "1_")) (.integer "100000000000000000000_")
    let call : Expr := .call "f" [arg]
    isCallable "f" = true ∧ env.functions.get? "f" = some one ∧
      ∃ v, evalItems host (eval host 0) env [arg] ⟨some (), []⟩ = (.ok [v], ⟨some (), []⟩) ∧
        one.body.outcome host 0 (env.extended (Bindings.ofList [("x", v)])) (some ()) =
          .ok (.ofInt 1) ∧
        call.outcome host 1 env (some ()) = .error .overflow := by
  intro host one env arg call
  have hcallable : isCallable "f" = true := by decide
  have hbase : integerValue "1_" = .ok (.ofInt 1) := by cbv
  have hexponent : integerValue "100000000000000000000_" = .ok (.ofInt (10 ^ 20)) := by cbv
  let far : IntScalar := ⟨1, 9000000000000001048576⟩
  have hpower : IntScalar.pow ⟨1, 90⟩ ⟨10 ^ 20, 0⟩ = .ok far := by decide +kernel
  have hvalue : (Value.ofInt 1).toLateral.pow (.ofInt (10 ^ 20)) = .ok (.integer far) := by
    have hinteger (z w r : IntScalar) (h : z.pow w = .ok r) :
        (Value.integer z).pow (.integer w) = .ok (.integer r) := by
      show ((z.pow w).bind fun s => .ok (Scalar.integer s)).bind (fun s => .ok (Value.scalar s)) = _
      rw [h]
      rfl
    exact hinteger _ _ _ hpower
  have harg : evalWith host (eval host 0) env arg ⟨some (), []⟩ =
      (.ok (.integer far), ⟨some (), []⟩) := by
    simp only [arg, evalWith, hbase, hexponent, applyPrefix, EvalM.ofOutcome_ok_bind, if_pos,
      hvalue]
    rfl
  have hargs : evalItems host (eval host 0) env [arg] ⟨some (), []⟩ =
      (.ok [.integer far], ⟨some (), []⟩) := by
    rw [evalItems, EvalM.bind_run, harg]
    rfl
  refine ⟨hcallable, rfl, .integer far, hargs, hbase, ?_⟩
  have htexts : bindingTexts (Bindings.ofList (one.params.zip [.integer far])).entries =
      .error .overflow := by
    decide +kernel
  rw [eval_call hcallable rfl rfl hargs, callUser_fails htexts]

end PolarCalc
