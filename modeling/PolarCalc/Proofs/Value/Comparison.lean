import PolarCalc.Proofs.Double.Angle
import PolarCalc.Proofs.Value.Truth
/-!
# Laws of comparison

Two scalars are compared by their cartesian parts, those of a float after round-off is
snapped to zero.  No part of a definite scalar is not-a-number, so it equals itself,
infinite or not.  An undefined one has a part that is equal to nothing, and is unequal to
itself.  Of two scalars at most one is greater than the other.
-/

namespace PolarCalc

/-! ## Parts that are not numbers -/

namespace Double

variable {x y : Double}

theorem isNan_of_isFinite (h : x.isFinite = true) : x.isNan = false := by
  cases x with
  | nan => cases h
  | infinite s => rfl
  | finite s u fits => rfl

theorem isFinite_eq_false_of_isNan (h : x.isNan = true) : x.isFinite = false := by
  by_contra hfinite
  rw [isNan_of_isFinite (by simpa using hfinite)] at h
  cases h

theorem isNan_round {negative : Bool} {num den : ℕ} : (round negative num den).isNan = false := by
  unfold round ofUnits
  split <;> rfl

theorem isNan_mul (hfinite : y.isFinite = true) (hzero : y.isZero = false) :
    (x * y).isNan = x.isNan := by
  cases y with
  | nan => cases hfinite
  | infinite t => cases hfinite
  | finite t v fits =>
      have hv : v ≠ 0 := isZero_finite_eq_false.1 hzero
      cases x with
      | nan => rfl
      | infinite s =>
          show (mul (.infinite s) (.finite t v fits)).isNan = _
          rw [mul, if_neg hv]
          rfl
      | finite s u fits' => exact isNan_round

theorem isClose_self_eq (tolerance x : Double) : isClose tolerance x x = !x.isNan := by
  cases hnan : x.isNan with
  | true =>
      cases x with
      | nan => rfl
      | infinite s => cases hnan
      | finite s u fits => cases hnan
  | false => exact isClose_self hnan

end Double

namespace FloatScalar

/-- The length is not a number, or the angle has no direction. -/
def IsUndefined (z : FloatScalar) : Prop := z.length.isNan = true ∨ z.angle.isFinite = false

theorem isNan_snap (limit part : Double) : (snap limit part).isNan = part.isNan := by
  cases hnan : part.isNan with
  | true => rw [snap_of_isFinite_eq_false (Double.isFinite_eq_false_of_isNan hnan), hnan]
  | false =>
      unfold snap
      split
      · rfl
      · exact hnan

theorem isNan_project {factor : Double} (length : Double) (h : factor.isFinite = true) :
    (project length factor).isNan = (length.isNan && !factor.isZero) := by
  unfold project
  cases hzero : factor.isZero with
  | true => rw [if_pos rfl, Bool.not_true, Bool.and_false]; rfl
  | false => rw [if_neg Bool.false_ne_true, Bool.not_false, Bool.and_true, Double.isNan_mul h hzero]

/-- Exactly the undefined scalars have a part that is not a number. -/
theorem isNan_cleanCartesian (z : FloatScalar) :
    (z.cleanCartesian.real.isNan = true ∨ z.cleanCartesian.lateral.isNan = true) ↔
      z.IsUndefined := by
  have hclean : (z.cleanCartesian.real.isNan = true ∨ z.cleanCartesian.lateral.isNan = true) ↔
      ((project z.length z.angle.cos).isNan = true ∨
        (project z.length z.angle.sin).isNan = true) := by
    simp only [cleanCartesian, toCartesian, isNan_snap]
  rw [hclean, IsUndefined]
  cases hangle : z.angle.isFinite with
  | true =>
      rw [isNan_project _ (Double.angleLaws.isFinite_cosine hangle),
        isNan_project _ (Double.angleLaws.isFinite_sine hangle)]
      -- One of the two factors is not zero, and a length that is no number shows in its part.
      rcases Double.angleLaws.cosine_ne_zero_or_sine_ne_zero z.angle with hfactor | hfactor <;>
        cases hlength : z.length.isNan <;> simp [hfactor]
  | false =>
      rw [Double.angleLaws.cosine_eq_nan hangle, project_nan]
      exact iff_of_true (.inl rfl) (.inr rfl)

theorem close_self_iff (z : FloatScalar) :
    Comparison.close z.cleanCartesian z.cleanCartesian = true ↔ ¬ z.IsUndefined := by
  rw [← isNan_cleanCartesian, Comparison.close, Double.isClose_self_eq, Double.isClose_self_eq]
  simp

end FloatScalar

/-! ## Comparisons of two scalars -/

namespace Comparison

/-- Does the comparison of two scalars hold?  Two integers are compared by their own parts,
others in the float kind. -/
def decide? (c : Comparison) : Scalar → Scalar → Outcome Bool
  | .integer z, .integer w => return c.holdsForIntegers (← z.toCartesian) (← w.toCartesian)
  | z, w => return c.holdsForFloats (← z.toFloat) (← w.toFloat)

/-- The scalar for true or false: an integer for two integers. -/
def verdict : Scalar → Scalar → Bool → Value
  | .integer _, .integer _, holds => .ofInt (if holds then -1 else 0)
  | _, _, holds => .ofReal (if holds then -.one else .zero)

theorem ofSign?_sign (c : Comparison) : ofSign? c.sign = some c := by
  cases c <;> decide

theorem compare_scalar (c : Comparison) (z w : Scalar) :
    (Value.scalar z).compare c.sign (.scalar w) = (c.decide? z w).map (verdict z w) := by
  rw [Value.compare, ofSign?_sign]
  cases z with
  | float z =>
      cases w with
      | float w => rfl
      | integer w =>
          show Value.meetScalar _ _ _ = _
          simp only [Value.meetScalar, BinaryOperation.apply, decide?, Value.toFloat,
            Value.traverse, Scalar.toFloat]
          cases w.toFloat <;> rfl
  | integer z =>
      cases w with
      | float w =>
          show Value.meetScalar _ _ _ = _
          simp only [Value.meetScalar, BinaryOperation.apply, decide?, Value.toFloat,
            Value.traverse, Scalar.toFloat]
          cases z.toFloat <;> rfl
      | integer w =>
          show Value.meetScalar _ _ _ = _
          simp only [Value.meetScalar, BinaryOperation.apply, decide?, operation]
          cases z.toCartesian <;> cases w.toCartesian <;> rfl

theorem holdsForFloats_greater {z w : FloatScalar} (h : holdsForFloats .greater z w = true) :
    holdsForFloats .greater w z = false :=
  Double.not_lt_of_lt h

theorem decide?_greater {z w : Scalar} (h : decide? .greater z w = .ok true) :
    decide? .greater w z = .ok false := by
  cases z with
  | float z =>
      cases w with
      | float w =>
          have hholds : holdsForFloats .greater z w = true := Except.ok.inj h
          exact congrArg Except.ok (holdsForFloats_greater hholds)
      | integer w =>
          simp only [decide?, Scalar.toFloat] at h ⊢
          cases hw : w.toFloat with
          | error f => rw [hw] at h; cases h
          | ok f =>
              rw [hw] at h
              exact congrArg Except.ok (holdsForFloats_greater (Except.ok.inj h))
  | integer z =>
      cases w with
      | float w =>
          simp only [decide?, Scalar.toFloat] at h ⊢
          cases hz : z.toFloat with
          | error f => rw [hz] at h; cases h
          | ok f =>
              rw [hz] at h
              exact congrArg Except.ok (holdsForFloats_greater (Except.ok.inj h))
      | integer w =>
          simp only [decide?] at h ⊢
          cases hz : z.toCartesian with
          | error f => rw [hz] at h; cases h
          | ok a =>
              cases hw : w.toCartesian with
              | error f => rw [hz, hw] at h; cases h
              | ok b =>
                  rw [hz, hw] at h
                  have hlt : b.real < a.real := of_decide_eq_true (Except.ok.inj h)
                  have hholds : holdsForIntegers .greater b a = false := decide_eq_false (by omega)
                  exact congrArg Except.ok hholds

theorem verdict_injective (z w : Scalar) : Function.Injective (verdict z w) := by
  have hreal : -Double.one ≠ Double.zero :=
    fun h => Bool.noConfusion (congrArg Double.isNegative h : true = false)
  have hfloat : Function.Injective fun holds : Bool =>
      Value.ofReal (if holds then -Double.one else Double.zero) := by
    intro p q h
    cases p <;> cases q <;> simp_all [Value.ofReal, Value.float, hreal.symm]
  have hinteger : Function.Injective fun holds : Bool =>
      Value.ofInt (if holds then -1 else 0) := by
    intro p q h
    cases p <;> cases q <;> simp_all [Value.ofInt, Value.integer]
  cases z <;> cases w
  · exact hfloat
  · exact hfloat
  · exact hfloat
  · exact hinteger

theorem compare_eq_verdict {c : Comparison} {z w : Scalar} {holds : Bool} :
    (Value.scalar z).compare c.sign (.scalar w) = .ok (verdict z w holds) ↔
      c.decide? z w = .ok holds := by
  rw [compare_scalar]
  cases c.decide? z w with
  | error f => exact iff_of_false nofun nofun
  | ok p =>
      show Except.ok (verdict z w p) = _ ↔ _
      rw [Except.ok.injEq, Except.ok.injEq]
      exact (verdict_injective z w).eq_iff

end Comparison

namespace Scalar

/-- The cartesian parts can be computed.  Those of an integer off the axes are rounded from
doubles, which its length and angle may be out of range for. -/
def HasParts : Scalar → Prop
  | float _ => True
  | integer z => ∃ parts, z.toCartesian = .ok parts

/-- A float that is undefined; an integer never is. -/
def IsUndefined : Scalar → Prop
  | float z => z.IsUndefined
  | integer _ => False

end Scalar

namespace Comparison

open Scalar (HasParts IsUndefined)

variable {a b : Scalar}

theorem decide?_self (ha : a.HasParts) : ∃ same, decide? .equal a a = .ok same ∧
    decide? .unequal a a = .ok (!same) ∧ (same = true ↔ ¬ a.IsUndefined) := by
  cases a with
  | float z => exact ⟨close z.cleanCartesian z.cleanCartesian, rfl, rfl, z.close_self_iff⟩
  | integer z =>
      obtain ⟨parts, hparts⟩ := ha
      refine ⟨true, ?_, ?_, iff_of_true rfl id⟩
      · simp only [decide?, hparts]
        exact congrArg Except.ok (decide_eq_true rfl)
      · simp only [decide?, hparts]
        exact congrArg Except.ok (decide_eq_false (not_not_intro rfl))

/-- A scalar is equal to itself and not unequal, and the other way round if it is undefined;
and if one scalar is greater than another, the other is not greater than it. -/
theorem comparison_laws (ha : a.HasParts) (b : Scalar) :
    (¬ a.IsUndefined →
      (Value.scalar a).compare "=" (.scalar a) = .ok (verdict a a true) ∧
      (Value.scalar a).compare "≠" (.scalar a) = .ok (verdict a a false)) ∧
    (a.IsUndefined →
      (Value.scalar a).compare "=" (.scalar a) = .ok (verdict a a false) ∧
      (Value.scalar a).compare "≠" (.scalar a) = .ok (verdict a a true)) ∧
    ((Value.scalar a).compare ">" (.scalar b) = .ok (verdict a b true) →
      (Value.scalar b).compare ">" (.scalar a) = .ok (verdict b a false)) ∧
    ¬ ((Value.scalar a).compare ">" (.scalar b) = .ok (verdict a b true) ∧
      (Value.scalar b).compare ">" (.scalar a) = .ok (verdict b a true)) := by
  obtain ⟨same, hequal, hunequal, hsame⟩ := decide?_self ha
  have heq := compare_eq_verdict.2 hequal
  have hne := compare_eq_verdict.2 hunequal
  have hgreater (h : (Value.scalar a).compare ">" (.scalar b) = .ok (verdict a b true)) :
      (Value.scalar b).compare ">" (.scalar a) = .ok (verdict b a false) :=
    compare_eq_verdict.2 (decide?_greater (compare_eq_verdict.1 h))
  refine ⟨fun hdefined => ?_, fun hundefined => ?_, hgreater, ?_⟩
  · rw [hsame.2 hdefined] at heq hne
    exact ⟨heq, hne⟩
  · have hfalse : same = false := by
      rw [← Bool.not_eq_true, hsame]
      exact not_not_intro hundefined
    rw [hfalse] at heq hne
    exact ⟨heq, hne⟩
  · rintro ⟨h, hback⟩
    have hboth := (hgreater h).symm.trans hback
    cases verdict_injective b a (Except.ok.inj hboth)

/-- An integer on the lateral axis is equal to itself and has a lesser real part than one. -/
theorem comparison_laws_lateral :
    let a : Scalar := .integer ⟨1, 0⟩
    let b : Scalar := .integer ⟨2, 90⟩
    (Value.scalar a).compare "=" (.scalar a) = .ok (.ofInt (-1)) ∧
      (Value.scalar a).compare ">" (.scalar b) = .ok (.ofInt (-1)) ∧
      (Value.scalar b).compare ">" (.scalar a) = .ok (.ofInt 0) := by
  intro a b
  have ha : a.HasParts := ⟨⟨1, 0⟩, rfl⟩
  obtain ⟨hdefined, -, hgreater, -⟩ := comparison_laws ha b
  have h : (Value.scalar a).compare ">" (.scalar b) = .ok (verdict a b true) :=
    (compare_eq_verdict (c := .greater)).2 rfl
  exact ⟨(hdefined id).1, h, hgreater h⟩

/-- The quotient of two numbers out of range is undefined, and so not equal to itself. -/
theorem comparison_equal_fails :
    let host : PluginHost Unit := ⟨(), fun _ _ s => (.error .crash, s)⟩
    let start : Machine Unit := ⟨none, []⟩
    let beyond : Expr := .number "1e400"
    let a : Scalar := .float ⟨.nan, .zero⟩
    eval host 0 default (.binary .product beyond "/" beyond) start = (.ok (.scalar a), start) ∧
      a.HasParts ∧
      (Value.scalar a).compare "=" (.scalar a) = .ok (.ofReal .zero) ∧
      (Value.scalar a).compare "≠" (.scalar a) = .ok (.ofReal (-.one)) := by
  intro host start beyond a
  have hread : Decimal.readDouble? "1e400".toList = some (.infinite false) := by decide +kernel
  have hequal : (Value.scalar a).compare "=" (.scalar a) = .ok (verdict a a false) :=
    (compare_eq_verdict (c := .equal)).2 (by decide +kernel)
  have hunequal : (Value.scalar a).compare "≠" (.scalar a) = .ok (verdict a a true) :=
    (compare_eq_verdict (c := .unequal)).2 (by decide +kernel)
  have hnumber : eval host 0 default beyond start =
      (.ok (.ofReal (.infinite false)), start) := by
    show EvalM.ofOutcome (numberValue "1e400") start = _
    rw [numberValue, hread]
    rfl
  have hdiv : BinaryOperation.div.apply (.float ⟨.infinite false, .zero⟩)
      (.float ⟨.infinite false, .zero⟩) = .ok a := by decide +kernel
  have hquotient : applyBinary "/" (.ofReal (.infinite false)) (.ofReal (.infinite false)) =
      .ok (.scalar a) := by
    have hop (v w : Value) : applyBinary "/" v w = v.div w := by simp [applyBinary]
    rw [hop, Value.div, Value.ofReal, Value.float, Value.broadcast, Value.meetScalar, hdiv]
    rfl
  refine ⟨?_, trivial, hequal, hunequal⟩
  rw [eval_eq_evalWith] at hnumber ⊢
  simp only [evalWith, EvalM.bind_run, hnumber, hquotient]
  rfl

end Comparison

end PolarCalc
