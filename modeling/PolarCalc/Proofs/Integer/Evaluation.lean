import PolarCalc.Proofs.Integer.Literal
import PolarCalc.Proofs.Integer.Text
/-!
# Arithmetic of integers

The expressions that are built from integers alone, what they mean over the
unbounded integers, and that their evaluation comes to nothing else:

* `meaning` — the reference: truncated quotients, floored remainders, true as
  minus one, operands from left to right;
* `Legible` — no number that is read or asked for zero on the way has more
  digits than decimal text may have;
* `Computes` — the judgement that ties an evaluation to both.
-/

namespace PolarCalc

/-! ## Arithmetic expressions -/

namespace Value

/-- The value stands for the integer `n` on the real axis. -/
def IsReal (v : Value) (n : Int) : Prop := ∃ z, v = .integer z ∧ z.IsReal n

/-- The real part of an integer scalar. -/
def realPart : Value → Int
  | .scalar (.integer z) =>
      match z.toCartesian with
      | .ok parts => parts.real
      | .error _ => 0
  | _ => 0

theorem IsReal.realPart {v : Value} {n : Int} (h : v.IsReal n) : v.realPart = n := by
  obtain ⟨z, rfl, hz⟩ := h
  simp only [Value.integer, Value.realPart, hz.2]

theorem isReal_ofInt (n : Int) : (ofInt n).IsReal n := ⟨_, rfl, IntScalar.isReal_ofInt n⟩

end Value

namespace Expr

open IntegerText (IsWritable)

/-- The signs of arithmetic and of the comparisons. -/
def integerOperators : List String := ["+", "-", "*", "/", "=", "≠", ">", "<", "≥", "≤"]

/-- Expressions over integer literals and variables on the real axis. -/
inductive IsArithmetic (vars : Bindings Value) : Expr → Prop
  | integer {text : String} : IsLiteral text → IsArithmetic vars (.integer text)
  | ident {name : String} {z : IntScalar} : vars.get? name = some (.integer z) →
      z.degrees % 180 = 0 → IsArithmetic vars (.ident name)
  | term {e : Expr} : IsArithmetic vars e → IsArithmetic vars (.term e)
  | bare {level : Level} {e : Expr} : IsArithmetic vars e → IsArithmetic vars (.bare level e)
  | negative {e : Expr} : IsArithmetic vars e → IsArithmetic vars (.prefixed "-" e)
  | binary {tier : Tier} {left right : Expr} {op : String} : op ∈ integerOperators →
      IsArithmetic vars left → IsArithmetic vars right →
      IsArithmetic vars (.binary tier left op right)
  | ifThen {c t : Expr} : IsArithmetic vars c → IsArithmetic vars t →
      IsArithmetic vars (.ifThen c t)
  | ifElse {c e : Expr} : IsArithmetic vars c → IsArithmetic vars e →
      IsArithmetic vars (.ifElse c e)
  | ifThenElse {c t e : Expr} : IsArithmetic vars c → IsArithmetic vars t →
      IsArithmetic vars e → IsArithmetic vars (.ifThenElse c t e)
  | mod {x y : Expr} : IsArithmetic vars x → IsArithmetic vars y →
      IsArithmetic vars (.call "mod" [x, y])
  | abs {x : Expr} : IsArithmetic vars x → IsArithmetic vars (.call "abs" [x])
  | sign {x : Expr} : IsArithmetic vars x → IsArithmetic vars (.call "sign" [x])

/-! ## The reference -/

/-- What a sign does to two integers. -/
def integerOperation (op : String) (a b : Int) : Except EvalError Int :=
  match op with
  | "+" => .ok (a + b)
  | "-" => .ok (a - b)
  | "*" => .ok (a * b)
  | "/" => if b = 0 then .error .divisionByZero else .ok (a.tdiv b)
  | "=" => .ok (if a = b then -1 else 0)
  | "≠" => .ok (if a ≠ b then -1 else 0)
  | ">" => .ok (if a > b then -1 else 0)
  | "<" => .ok (if a < b then -1 else 0)
  | "≥" => .ok (if a ≥ b then -1 else 0)
  | "≤" => .ok (if a ≤ b then -1 else 0)
  | _ => .ok 0

/-- What an arithmetic expression comes to over the integers; zero stands for
the expressions of other kinds. -/
def meaning (vars : Bindings Value) : Expr → Except EvalError Int
  | .integer text => .ok (literalValue text)
  | .ident name => .ok (((vars.get? name).map Value.realPart).getD 0)
  | .term e => meaning vars e
  | .bare _ e => meaning vars e
  | .prefixed _ e => do return -(← meaning vars e)
  | .binary _ left op right => do
      let a ← meaning vars left
      let b ← meaning vars right
      integerOperation op a b
  | .ifThen c t => do
      let n ← meaning vars c
      if n = 0 then return n else meaning vars t
  | .ifElse c e => do
      let n ← meaning vars c
      if n = 0 then meaning vars e else return n
  | .ifThenElse c t e => do
      let n ← meaning vars c
      if n = 0 then meaning vars e else meaning vars t
  | .call "mod" [x, y] => do
      let a ← meaning vars x
      let b ← meaning vars y
      if b = 0 then .error .moduloByZero else return a.fmod b
  | .call "abs" [x] => do return (← meaning vars x).natAbs
  | .call "sign" [x] => do return (← meaning vars x).sign
  | _ => .ok 0

/-- Of the literals and conditions that the evaluation comes to, none has too
many digits. -/
def Legible (vars : Bindings Value) : Expr → Prop
  | .integer text => (literalDigits text).length ≤ IntegerText.maxDigits
  | .ident _ => True
  | .term e => Legible vars e
  | .bare _ e => Legible vars e
  | .prefixed _ e => Legible vars e
  | .binary _ left _ right =>
      Legible vars left ∧ ∀ a, meaning vars left = .ok a → Legible vars right
  | .ifThen c t =>
      Legible vars c ∧ ∀ n, meaning vars c = .ok n →
        IsWritable n ∧ (n ≠ 0 → Legible vars t)
  | .ifElse c e =>
      Legible vars c ∧ ∀ n, meaning vars c = .ok n →
        IsWritable n ∧ (n = 0 → Legible vars e)
  | .ifThenElse c t e =>
      Legible vars c ∧ ∀ n, meaning vars c = .ok n →
        IsWritable n ∧ (n = 0 → Legible vars e) ∧ (n ≠ 0 → Legible vars t)
  | .call _ [x] => Legible vars x
  | .call _ [x, y] => Legible vars x ∧ ∀ a, meaning vars x = .ok a → Legible vars y
  | _ => True

end Expr

/-! ## Evaluations that come to integers -/

/-- A value and an integer that it stands for, or one and the same error. -/
def Agrees : Outcome Value → Except EvalError Int → Prop
  | .ok v, .ok n => v.IsReal n
  | .error f, .error cause => f = .error cause
  | _, _ => False

/-- The evaluation leaves the machine as it was, and ends in what it should if
all numbers are legible and in the refusal of digits if not. -/
def Computes {σ : Type} (x : EvalM σ Value) (legible : Prop) (r : Except EvalError Int) : Prop :=
  ∀ m, ∃ result, x m = (result, m) ∧ (legible → Agrees result r) ∧
    (¬ legible → result = .error .tooManyDigits)

namespace Computes

variable {σ : Type} {x : EvalM σ Value} {legible legible' : Prop} {r : Except EvalError Int}

theorem of_agrees {o : Outcome Value} (h : Agrees o r) :
    Computes (EvalM.ofOutcome o : EvalM σ Value) True r := by
  intro m
  refine ⟨o, ?_, fun _ => h, fun hfalse => absurd trivial hfalse⟩
  cases o <;> rfl

theorem of_tooManyDigits (h : ¬ legible) :
    Computes (EvalM.ofOutcome (.error .tooManyDigits) : EvalM σ Value) legible r :=
  fun _ => ⟨_, rfl, fun hlegible => absurd hlegible h, fun _ => rfl⟩

theorem congr (h : Computes x legible r) (hiff : legible ↔ legible') : Computes x legible' r :=
  propext hiff ▸ h

theorem bind {k : Value → EvalM σ Value} {next : Int → Prop} {f : Int → Except EvalError Int}
    (hx : Computes x legible r)
    (hk : ∀ v n, v.IsReal n → Computes (k v) (next n) (f n)) :
    Computes (x >>= k) (legible ∧ ∀ n, r = .ok n → next n) (r >>= f) := by
  intro m
  obtain ⟨result, hrun, hlegible, hrefused⟩ := hx m
  rw [EvalM.bind_run, hrun]
  by_cases hfirst : legible
  · have hagrees := hlegible hfirst
    match result, r, hagrees with
    | .ok v, .ok n, hv =>
        obtain ⟨last, hlast, hgood, hbad⟩ := hk v n hv m
        refine ⟨last, hlast, fun h => hgood (h.2 n rfl), fun h => hbad fun hn => h ⟨hfirst, ?_⟩⟩
        rintro _ ⟨⟩
        exact hn
    | .error _, .error cause, rfl =>
        refine ⟨_, rfl, fun _ => rfl, fun h => absurd ⟨hfirst, ?_⟩ h⟩
        rintro _ ⟨⟩
  · rw [hrefused hfirst]
    exact ⟨_, rfl, fun h => absurd h.1 hfirst, fun _ => rfl⟩

theorem map {g : Value → Outcome Value} {f : Int → Except EvalError Int}
    (hx : Computes x legible r) (hg : ∀ v n, v.IsReal n → Agrees (g v) (f n)) :
    Computes (x >>= fun v => EvalM.ofOutcome (g v)) legible (r >>= f) :=
  (hx.bind fun v n hv => of_agrees (hg v n hv)).congr
    ⟨fun h => h.1, fun h => ⟨h, fun _ _ => trivial⟩⟩

theorem map₂ {y : EvalM σ Value} {r' : Except EvalError Int} {g : Value → Value → Outcome Value}
    {f : Int → Int → Except EvalError Int}
    (hx : Computes x legible r) (hy : Computes y legible' r')
    (hg : ∀ v w a b, v.IsReal a → w.IsReal b → Agrees (g v w) (f a b)) :
    Computes (x >>= fun v => y >>= fun w => EvalM.ofOutcome (g v w))
      (legible ∧ ∀ a, r = .ok a → legible') (r >>= fun a => r' >>= fun b => f a b) :=
  hx.bind fun v a hv => hy.map fun w b hw => hg v w a b hv hw

end Computes

/-! ## Operations on integers -/

section Operations

variable {v w : Value} {a b n : Int}

theorem agrees_broadcast (op : BinaryOperation) {z z' : IntScalar}
    (h : ∃ s, op.onIntegers z z' = .ok s ∧ s.IsReal n) :
    Agrees (Value.broadcast op (.integer z) (.integer z')) (.ok n) := by
  obtain ⟨s, hs, hreal⟩ := h
  simp only [Value.integer, Value.broadcast, Value.meetScalar, BinaryOperation.apply, hs]
  exact ⟨s, rfl, hreal⟩

theorem agrees_broadcast_refuse (op : BinaryOperation) {z z' : IntScalar} {cause : EvalError}
    (h : op.onIntegers z z' = refuse cause) :
    Agrees (Value.broadcast op (.integer z) (.integer z')) (.error cause) := by
  simp only [Value.integer, Value.broadcast, Value.meetScalar, BinaryOperation.apply, h]
  rfl

theorem agrees_div (hv : v.IsReal a) (hw : w.IsReal b) :
    Agrees (v.div w) (if b = 0 then .error .divisionByZero else .ok (a.tdiv b)) := by
  obtain ⟨z, rfl, hz⟩ := hv
  obtain ⟨z', rfl, hz'⟩ := hw
  split
  · next hzero =>
      subst hzero
      exact agrees_broadcast_refuse .div hz'.div_zero
  · next hne => exact agrees_broadcast .div (hz.div hz' hne)

theorem agrees_mod (hv : v.IsReal a) (hw : w.IsReal b) :
    Agrees (Builtin.mod.apply [v, w])
      (if b = 0 then .error .moduloByZero else .ok (a.fmod b)) := by
  obtain ⟨z, rfl, hz⟩ := hv
  obtain ⟨z', rfl, hz'⟩ := hw
  split
  · next hzero =>
      subst hzero
      exact agrees_broadcast_refuse Builtin.modulo hz'.mod_zero
  · next hne => exact agrees_broadcast Builtin.modulo (hz.mod hz' hne)

theorem agrees_compare (hv : v.IsReal a) (hw : w.IsReal b) (c : Comparison) :
    Agrees (v.compare c.sign w) (.ok (if c.holdsForIntegers ⟨a, 0⟩ ⟨b, 0⟩ then -1 else 0)) := by
  obtain ⟨z, rfl, hz⟩ := hv
  obtain ⟨z', rfl, hz'⟩ := hw
  have hsign : Comparison.ofSign? c.sign = some c := by cases c <;> decide
  rw [Value.compare, hsign]
  exact agrees_broadcast c.operation ⟨_, hz.compare hz' c, IntScalar.isReal_ofInt _⟩

theorem Expr.integerOperation_sign (c : Comparison) :
    integerOperation c.sign a b = .ok (if c.holdsForIntegers ⟨a, 0⟩ ⟨b, 0⟩ then -1 else 0) := by
  cases c <;> simp [integerOperation, Comparison.sign, Comparison.holdsForIntegers]

theorem Expr.mem_integerOperators {op : String} (h : op ∈ integerOperators) :
    op = "+" ∨ op = "-" ∨ op = "*" ∨ op = "/" ∨ ∃ c : Comparison, op = c.sign := by
  simp only [integerOperators, List.mem_cons, List.not_mem_nil, or_false] at h
  rcases h with rfl | rfl | rfl | rfl | rfl | rfl | rfl | rfl | rfl | rfl
  · exact .inl rfl
  · exact .inr (.inl rfl)
  · exact .inr (.inr (.inl rfl))
  · exact .inr (.inr (.inr (.inl rfl)))
  · exact .inr (.inr (.inr (.inr ⟨.equal, rfl⟩)))
  · exact .inr (.inr (.inr (.inr ⟨.unequal, rfl⟩)))
  · exact .inr (.inr (.inr (.inr ⟨.greater, rfl⟩)))
  · exact .inr (.inr (.inr (.inr ⟨.less, rfl⟩)))
  · exact .inr (.inr (.inr (.inr ⟨.greaterEqual, rfl⟩)))
  · exact .inr (.inr (.inr (.inr ⟨.lessEqual, rfl⟩)))

theorem applyBinary_sign (c : Comparison) : applyBinary c.sign v w = v.compare c.sign w := by
  cases c <;> simp [applyBinary, Comparison.sign]

theorem agrees_applyBinary {op : String} (hop : op ∈ Expr.integerOperators) (hv : v.IsReal a)
    (hw : w.IsReal b) : Agrees (applyBinary op v w) (Expr.integerOperation op a b) := by
  rcases Expr.mem_integerOperators hop with rfl | rfl | rfl | rfl | ⟨c, rfl⟩
  · obtain ⟨z, rfl, hz⟩ := hv
    obtain ⟨z', rfl, hz'⟩ := hw
    exact agrees_broadcast .add (hz.add hz')
  · obtain ⟨z, rfl, hz⟩ := hv
    obtain ⟨z', rfl, hz'⟩ := hw
    exact agrees_broadcast .sub (hz.sub hz')
  · obtain ⟨z, rfl, hz⟩ := hv
    obtain ⟨z', rfl, hz'⟩ := hw
    exact agrees_broadcast .mul ⟨_, rfl, hz.mul hz'⟩
  · exact agrees_div hv hw
  · rw [applyBinary_sign, Expr.integerOperation_sign]
    exact agrees_compare hv hw c

theorem agrees_negative (hv : v.IsReal a) : Agrees (applyPrefix "-" v) (.ok (-a)) := by
  obtain ⟨z, rfl, hz⟩ := hv
  exact ⟨z.toNegative, rfl, hz.toNegative⟩

theorem agrees_abs (hv : v.IsReal a) : Agrees (Builtin.abs.apply [v]) (.ok a.natAbs) := by
  obtain ⟨z, rfl, hz⟩ := hv
  rw [← hz.natAbs_length]
  exact Value.isReal_ofInt _

theorem agrees_sign (hv : v.IsReal a) : Agrees (Builtin.sign.apply [v]) (.ok a.sign) := by
  obtain ⟨z, rfl, hz⟩ := hv
  have hsign : Builtin.sign.apply [.integer z] = .ok (.ofInt a.sign) := by
    show Scalar.realSign (.integer z) = _
    rw [Scalar.realSign, hz.2]
    rfl
  rw [hsign]
  exact Value.isReal_ofInt _

theorem Value.IsReal.isFalse (hv : v.IsReal n) :
    v.isFalse = (IntegerText.tryWrite n).map (· == "0") := by
  obtain ⟨z, rfl, hz⟩ := hv
  have htext : (Value.integer z).text = IntegerText.tryWrite n := by
    show IntScalar.text z = _
    rw [IntScalar.text, hz.2]
    simp only [bind, Except.bind]
    cases IntegerText.tryWrite n <;> rfl
  rw [Value.isFalse, htext]
  cases IntegerText.tryWrite n <;> rfl

theorem Value.IsReal.isFalse_of_isWritable (hv : v.IsReal n) (hn : IntegerText.IsWritable n) :
    v.isFalse = .ok (decide (n = 0)) := by
  have hzero : (IntegerText.write n == "0") = decide (n = 0) := by
    rw [Bool.eq_iff_iff, beq_iff_eq, decide_eq_true_eq, IntegerText.write_eq_zero_iff]
  rw [hv.isFalse, IntegerText.tryWrite_of_isWritable hn, ← hzero]
  rfl

theorem Value.IsReal.isFalse_of_not_isWritable (hv : v.IsReal n) (hn : ¬ IntegerText.IsWritable n) :
    v.isFalse = .error .tooManyDigits := by
  rw [hv.isFalse, IntegerText.tryWrite_of_not_isWritable hn]
  rfl

end Operations

namespace Computes

variable {σ : Type} {x y : EvalM σ Value} {first last : Prop} {r r' : Except EvalError Int}

theorem of_isReal {v : Value} {n : Int} (hv : v.IsReal n) :
    Computes (pure v : EvalM σ Value) True (.ok n) := of_agrees (o := .ok v) hv

theorem choose {v : Value} {n : Int} (hv : v.IsReal n)
    (hx : n = 0 → Computes x first r) (hy : n ≠ 0 → Computes y last r') :
    Computes (EvalM.ofOutcome v.isFalse >>= fun b => if b = true then x else y)
      (IntegerText.IsWritable n ∧ (n = 0 → first) ∧ (n ≠ 0 → last)) (if n = 0 then r else r') := by
  by_cases hn : IntegerText.IsWritable n
  · rw [hv.isFalse_of_isWritable hn, EvalM.ofOutcome_ok_bind]
    by_cases hzero : n = 0
    · rw [if_pos (decide_eq_true hzero), if_pos hzero]
      exact (hx hzero).congr ⟨fun h => ⟨hn, fun _ => h, absurd hzero⟩, fun h => h.2.1 hzero⟩
    · rw [if_neg (by simpa using hzero), if_neg hzero]
      exact (hy hzero).congr ⟨fun h => ⟨hn, (absurd · hzero), fun _ => h⟩, fun h => h.2.2 hzero⟩
  · rw [hv.isFalse_of_not_isWritable hn, EvalM.ofOutcome_error_bind]
    exact of_tooManyDigits fun h => hn h.1

end Computes

/-! ## The evaluation of arithmetic -/

section Evaluation

variable {σ : Type} (host : PluginHost σ) (callee : Environment → Expr → EvalM σ Value)
  (env : Environment)

theorem evalItems_one (x : Expr) : evalItems host callee env [x] =
    evalWith host callee env x >>= fun v => pure [v] := by
  simp only [evalItems, pure_bind]

theorem evalItems_two (x y : Expr) : evalItems host callee env [x, y] =
    evalWith host callee env x >>= fun v =>
      evalWith host callee env y >>= fun w => pure [v, w] := by
  simp only [evalItems, pure_bind, bind_assoc]

/-- Builtins come before everything that a user has defined. -/
theorem evalWith_call {name : String} {b : Builtin} (hname : name ≠ callFunction)
    (hb : Builtin.ofName? name = some b) (args : List Expr) :
    evalWith host callee env (.call name args) =
      evalItems host callee env args >>= fun vs => EvalM.ofOutcome (b.apply vs) := by
  rw [evalWith.eq_def]
  simp only [if_neg hname, hb]

open PolarCalc.Expr (meaning Legible IsArithmetic)

theorem computes_evalWith {e : Expr} (h : IsArithmetic env.vars e) :
    Computes (evalWith host callee env e) (Legible env.vars e) (meaning env.vars e) := by
  induction h with
  | @integer text htext =>
      rw [evalWith, Legible, meaning, htext.integerValue_eq]
      split
      · next hfits =>
          exact (Computes.of_isReal (Value.isReal_ofInt _)).congr
            ⟨fun _ => hfits, fun _ => trivial⟩
      · next hlong => exact Computes.of_tooManyDigits hlong
  | @ident name z hname hangle =>
      obtain ⟨n, hz⟩ := IntScalar.exists_isReal hangle
      have hv : (Value.integer z).IsReal n := ⟨z, rfl, hz⟩
      have hmeaning : meaning env.vars (.ident name) = .ok n := by
        simp only [meaning, hname, Option.map_some, Option.getD_some, hv.realPart]
      rw [hmeaning, evalWith, hname]
      exact (Computes.of_isReal hv).congr (by rw [Legible])
  | term _ ih =>
      rw [evalWith, Legible, meaning]
      exact ih
  | bare _ ih =>
      rw [evalWith, Legible, meaning]
      exact ih
  | negative _ ih =>
      rw [evalWith, Legible, meaning]
      exact ih.map fun v n hv => agrees_negative hv
  | binary hop _ _ ihleft ihright =>
      rw [evalWith, Legible, meaning]
      exact ihleft.map₂ ihright fun v w a b hv hw => agrees_applyBinary hop hv hw
  | ifThen _ _ ihc iht =>
      rw [evalWith, Legible, meaning]
      refine (ihc.bind fun v n hv =>
        Computes.choose hv (fun _ => Computes.of_isReal hv) (fun _ => iht)).congr ?_
      simp only [implies_true, true_and]
  | ifElse _ _ ihc ihe =>
      rw [evalWith, Legible, meaning]
      refine (ihc.bind fun v n hv =>
        Computes.choose hv (fun _ => ihe) (fun _ => Computes.of_isReal hv)).congr ?_
      simp only [implies_true, and_true]
  | ifThenElse _ _ _ ihc iht ihe =>
      rw [evalWith, Legible, meaning]
      exact ihc.bind fun v n hv => Computes.choose hv (fun _ => ihe) (fun _ => iht)
  | mod _ _ ihx ihy =>
      rw [evalWith_call host callee env (by decide) (b := .mod) (by decide), Legible, meaning]
      simp only [evalItems_two, bind_assoc, pure_bind]
      exact ihx.map₂ ihy fun v w a b hv hw => agrees_mod hv hw
  | abs _ ih =>
      rw [evalWith_call host callee env (by decide) (b := .abs) (by decide), Legible, meaning]
      simp only [evalItems_one, bind_assoc, pure_bind]
      exact ih.map fun v n hv => agrees_abs hv
  | sign _ ih =>
      rw [evalWith_call host callee env (by decide) (b := .sign) (by decide), Legible, meaning]
      simp only [evalItems_one, bind_assoc, pure_bind]
      exact ih.map fun v n hv => agrees_sign hv

/-- Whatever the form of the integers that the variables hold, arithmetic is that
of the unbounded integers. -/
theorem eval_arithmetic (depth : Nat) {e : Expr} (h : IsArithmetic env.vars e) :
    Computes (eval host depth env e) (Legible env.vars e) (meaning env.vars e) := by
  cases depth with
  | zero => exact computes_evalWith host _ env h
  | succ depth => exact computes_evalWith host _ env h

/-- Seven, written as minus seven half a turn away, and its quotient by minus
two. -/
theorem eval_arithmetic_quotient :
    let vars : Bindings Value := ⟨[("x", .integer ⟨-7, 180⟩)]⟩
    let e := Expr.binary .product (.ident "x") "/" (.prefixed "-" (.integer "2_"))
    IsArithmetic vars e ∧
      ∃ v, eval ⟨(), fun _ _ s => (.error .crash, s)⟩ 0 { vars } e ⟨none, []⟩ =
        (.ok v, ⟨none, []⟩) ∧ v.IsReal (-3) := by
  intro vars e
  have hchars : "2_".toList.all Grammar.isIntegerChar = true := by decide
  have hliteral : IsLiteral "2_" := ⟨List.all_eq_true.1 hchars, '2', by decide, by decide⟩
  have harithmetic : IsArithmetic vars e :=
    .binary (by decide) (.ident rfl rfl) (.negative (.integer hliteral))
  have hlegible : Legible vars e := by
    refine ⟨trivial, fun _ _ => ?_⟩
    show (literalDigits "2_").length ≤ IntegerText.maxDigits
    decide
  have hmeaning : meaning vars e = .ok (-3) := rfl
  refine ⟨harithmetic, ?_⟩
  obtain ⟨result, hrun, hgood, -⟩ := eval_arithmetic
    ⟨(), fun _ _ s => (.error .crash, s)⟩ { vars } 0 harithmetic ⟨none, []⟩
  have hagrees := hgood hlegible
  rw [hmeaning] at hagrees
  match result, hagrees with
  | .ok v, hv => exact ⟨v, hrun, hv⟩

end Evaluation

end PolarCalc
