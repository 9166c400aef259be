import PolarCalc.Builtin
/-!
# How outcomes end

An outcome is judged by what holds of its value and by what failures it may end
in.  The scalars come first: their conversions fail only when a number is too
large, and their operations beyond that only with an error.  In particular no
division by zero is reached, since each one stands behind its own check.
-/

namespace PolarCalc

namespace Failure

/-- The failures that come from the size of a number. -/
inductive IsCapacity : Failure → Prop
  | overflow : IsCapacity .overflow
  | tooManyDigits : IsCapacity .tooManyDigits

/-- The failures that an operation on values may end in. -/
inductive IsForeseen : Failure → Prop
  | error (cause : EvalError) : IsForeseen (.error cause)
  | capacity {f : Failure} : f.IsCapacity → IsForeseen f

end Failure

open Failure (IsCapacity IsForeseen)

namespace Outcome

variable {α β : Type}

theorem bind_eq_ok {x : Outcome α} {k : α → Outcome β} {b : β} (h : x >>= k = .ok b) :
    ∃ a, x = .ok a ∧ k a = .ok b := by
  cases x with
  | error f => cases h
  | ok a => exact ⟨a, rfl, h⟩

/-- A value has the one property, and a failure the other. -/
inductive Within (good : α → Prop) (bad : Failure → Prop) : Outcome α → Prop
  | ok {a : α} : good a → Within good bad (.ok a)
  | error {f : Failure} : bad f → Within good bad (.error f)

/-- Whatever the value, a failure has the property. -/
abbrev Fails (bad : Failure → Prop) (x : Outcome α) : Prop := Within (fun _ => True) bad x

section Within

variable {x y : Outcome α} {good good' : α → Prop} {next : β → Prop} {bad bad' : Failure → Prop}

theorem Within.of_ok {a : α} (h : Within good bad (.ok a)) : good a := by
  cases h with
  | ok h => exact h

theorem Within.of_error {f : Failure} (h : Within good bad (.error f)) : bad f := by
  cases h with
  | error h => exact h

theorem Within.imp (h : Within good bad x) (hgood : ∀ a, good a → good' a)
    (hbad : ∀ f, bad f → bad' f) : Within good' bad' x := by
  cases h with
  | ok h => exact .ok (hgood _ h)
  | error h => exact .error (hbad _ h)

theorem Within.bind {k : α → Outcome β} (hx : Within good bad x)
    (hk : ∀ a, good a → Within next bad (k a)) : Within next bad (x >>= k) := by
  cases hx with
  | ok h => exact hk _ h
  | error h => exact .error h

theorem Within.map {g : α → β} (hx : Within good bad x) (hg : ∀ a, good a → next (g a)) :
    Within next bad (x >>= fun a => pure (g a)) :=
  hx.bind fun a ha => .ok (hg a ha)

theorem within_ite {p : Prop} [Decidable p] (hx : p → Within good bad x)
    (hy : ¬ p → Within good bad y) : Within good bad (if p then x else y) := by
  by_cases h : p
  · rw [if_pos h]
    exact hx h
  · rw [if_neg h]
    exact hy h

theorem orFail_within {o : Option α} {f : Failure} (hgood : ∀ a, o = some a → good a)
    (hbad : o = none → bad f) : Within good bad (orFail f o) := by
  cases o with
  | none => exact .error (hbad rfl)
  | some a => exact .ok (hgood a rfl)

theorem refuse_within (cause : EvalError) : Within good IsForeseen (refuse cause) :=
  .error (.error cause)

theorem Within.fails (h : Within good bad x) : Fails bad x :=
  h.imp (fun _ _ => trivial) fun _ hf => hf

theorem Fails.foreseen (h : Fails IsCapacity x) : Fails IsForeseen x :=
  h.imp (fun _ _ => trivial) fun _ => .capacity

end Within

end Outcome

open Outcome

/-! ## Integers -/

namespace IntScalar

theorem asDouble_fails (n : Int) : Fails IsCapacity (asDouble n) :=
  orFail_within (fun _ _ => trivial) fun _ => .overflow

theorem asRadians_fails (degrees : Int) : Fails IsCapacity (asRadians degrees) :=
  within_ite (fun _ => .ok trivial) fun _ => .error .overflow

theorem asInteger_fails (x : Double) : Fails IsCapacity (asInteger x) :=
  orFail_within (fun _ _ => trivial) fun _ => .overflow

theorem quotient_fails {a b : Int} (hb : b ≠ 0) : Fails IsCapacity (quotient a b) := by
  rw [quotient_of_ne hb]
  exact .ok trivial

theorem remainder_fails {a b : Int} (hb : b ≠ 0) : Fails IsCapacity (remainder a b) := by
  rw [remainder_of_ne hb]
  exact .ok trivial

theorem ratio_fails {num den : Int} (hden : den ≠ 0) : Fails IsCapacity (ratio num den) := by
  rw [ratio, if_neg hden]
  exact within_ite (fun _ => .ok trivial) fun _ => .error .overflow

theorem angleDegrees_fails (z : Cartesian Int) : Fails IsCapacity (angleDegrees z) :=
  within_ite (fun _ => .ok trivial) fun hne => (ratio_fails hne).bind fun _ _ => asInteger_fails _

theorem ofCartesian_fails (z : Cartesian Int) : Fails IsCapacity (ofCartesian z) :=
  (angleDegrees_fails z).map fun _ _ => trivial

theorem toCartesian_fails (z : IntScalar) : Fails IsCapacity z.toCartesian := by
  refine within_ite (fun _ => .ok trivial) fun _ => ?_
  refine within_ite (fun _ => .ok trivial) fun _ => ?_
  refine within_ite (fun _ => .ok trivial) fun _ => ?_
  refine within_ite (fun _ => .ok trivial) fun _ => ?_
  refine (asRadians_fails _).bind fun radians _ => ?_
  refine (asDouble_fails _).bind fun length _ => ?_
  exact (asInteger_fails _).bind fun _ _ => (asInteger_fails _).map fun _ _ => trivial

theorem toFloat_fails (z : IntScalar) : Fails IsCapacity z.toFloat :=
  (asDouble_fails _).bind fun _ _ => (asRadians_fails _).map fun _ _ => trivial

theorem ofFloat_fails (z : FloatScalar) : Fails IsForeseen (ofFloat z) := by
  refine within_ite (fun _ => ?_) fun _ => refuse_within _
  refine (asInteger_fails _).foreseen.bind fun _ _ => ?_
  exact (asInteger_fails _).foreseen.map fun _ _ => trivial

end IntScalar

/-! ## Binary operations on scalars -/

/-- The operation fails on no scalars but as is foreseen. -/
structure BinaryOperation.Foreseen (op : BinaryOperation) : Prop where
  onFloats (z w : FloatScalar) : Fails IsForeseen (op.onFloats z w)
  onIntegers (z w : IntScalar) : Fails IsForeseen (op.onIntegers z w)

namespace FloatScalar

theorem div_fails (z w : FloatScalar) : Fails IsForeseen (z.div w) := by
  rw [div]
  split
  · exact refuse_within _
  · exact .ok trivial

theorem pow_fails (z w : FloatScalar) : Fails IsForeseen (z.pow w) := by
  refine within_ite (fun _ => ?_) fun _ => .ok trivial
  refine within_ite (fun _ => .ok trivial) fun _ => ?_
  exact within_ite (fun _ => refuse_within _) fun _ => .ok trivial

theorem mod_fails (z w : FloatScalar) : Fails IsForeseen (z.mod w) :=
  within_ite (fun _ => refuse_within _) fun _ => .ok trivial

end FloatScalar

namespace IntScalar

theorem add_fails (z w : IntScalar) : Fails IsForeseen (z.add w) :=
  z.toCartesian_fails.foreseen.bind fun _ _ =>
    w.toCartesian_fails.foreseen.bind fun _ _ => (ofCartesian_fails _).foreseen

theorem sub_fails (z w : IntScalar) : Fails IsForeseen (z.sub w) :=
  z.toCartesian_fails.foreseen.bind fun _ _ =>
    w.toCartesian_fails.foreseen.bind fun _ _ => (ofCartesian_fails _).foreseen

theorem div_fails (z w : IntScalar) : Fails IsForeseen (z.div w) :=
  within_ite (fun _ => refuse_within _) fun hne =>
    (quotient_fails hne).foreseen.map fun _ _ => trivial

theorem pow_fails (z w : IntScalar) : Fails IsForeseen (z.pow w) := by
  refine z.toFloat_fails.foreseen.bind fun base _ => ?_
  refine w.toFloat_fails.foreseen.bind fun exponent _ => ?_
  exact (base.pow_fails exponent).bind fun _ _ => ofFloat_fails _

theorem mod_fails (z w : IntScalar) : Fails IsForeseen (z.mod w) := by
  refine w.toCartesian_fails.foreseen.bind fun divisor _ => ?_
  refine within_ite (fun _ => refuse_within _) fun hne => ?_
  refine z.toCartesian_fails.foreseen.bind fun _ _ => ?_
  exact (remainder_fails hne).foreseen.map fun _ _ => trivial

end IntScalar

namespace BinaryOperation

theorem foreseen_add : add.Foreseen := ⟨fun _ _ => .ok trivial, IntScalar.add_fails⟩

theorem foreseen_sub : sub.Foreseen := ⟨fun _ _ => .ok trivial, IntScalar.sub_fails⟩

theorem foreseen_mul : mul.Foreseen := ⟨fun _ _ => .ok trivial, fun _ _ => .ok trivial⟩

theorem foreseen_div : div.Foreseen := ⟨FloatScalar.div_fails, IntScalar.div_fails⟩

theorem foreseen_pow : pow.Foreseen := ⟨FloatScalar.pow_fails, IntScalar.pow_fails⟩

theorem foreseen_modulo : Builtin.modulo.Foreseen := ⟨FloatScalar.mod_fails, IntScalar.mod_fails⟩

theorem foreseen_comparison (c : Comparison) : c.operation.Foreseen := by
  refine ⟨fun _ _ => .ok trivial, fun z w => ?_⟩
  refine z.toCartesian_fails.foreseen.bind fun _ _ => ?_
  exact w.toCartesian_fails.foreseen.map fun _ _ => trivial

theorem toFloat_scalar_within (z : Scalar) :
    Within (fun v => ∃ w, v = .float w) IsForeseen (Value.scalar z).toFloat := by
  have h : Fails IsForeseen z.toFloat := by
    cases z with
    | float z => exact .ok trivial
    | integer z => exact z.toFloat_fails.foreseen
  exact h.map fun w _ => ⟨w, rfl⟩

/-- Two scalars are both integers, or both are floats once they are converted. -/
theorem Foreseen.apply {op : BinaryOperation} (h : op.Foreseen) (z w : Scalar) :
    Fails IsForeseen (op.apply z w) := by
  have hfloats : Fails IsForeseen (do
      let left ← (Value.scalar z).toFloat
      let right ← (Value.scalar w).toFloat
      return Scalar.float (← op.onFloats (← left.assumeFloat) (← right.assumeFloat))) := by
    refine (toFloat_scalar_within z).bind fun left hleft => ?_
    refine (toFloat_scalar_within w).bind fun right hright => ?_
    obtain ⟨a, rfl⟩ := hleft
    obtain ⟨b, rfl⟩ := hright
    exact (h.onFloats a b).map fun _ _ => trivial
  cases z with
  | float z => exact hfloats
  | integer z =>
      cases w with
      | float w => exact hfloats
      | integer w => exact (h.onIntegers z w).map fun _ _ => trivial

end BinaryOperation

end PolarCalc
