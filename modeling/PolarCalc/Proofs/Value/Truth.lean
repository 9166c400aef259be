import PolarCalc.Proofs.Decimal.Significant
import PolarCalc.Proofs.Double.Angle
import PolarCalc.Proofs.Evaluation.Step
import PolarCalc.Proofs.Value.Unambiguous
/-!
# What a condition takes for false

A condition is false if its value is written as zero.  These are the scalars whose
cartesian parts are both zero, after round-off is snapped to zero in the float kind, and
no other values: no list, nothing infinite and nothing that is not a number.
-/

namespace PolarCalc

/-! ## Parts written as zero -/

theorem wholeLimit_pos : Double.lt .zero wholeLimit = true := by decide +kernel

namespace Double

variable {x : Double}

theorem isInteger_of_isZero (h : x.isZero = true) : x.isInteger = true := by
  obtain ⟨s, rfl⟩ := eq_of_isZero h
  simp [isInteger]

theorem abs_of_isZero (h : x.isZero = true) : x.abs = .zero := by
  obtain ⟨s, rfl⟩ := eq_of_isZero h
  rfl

theorem truncate?_eq_zero_iff (h : x.isInteger = true) :
    x.truncate?.getD 0 = 0 ↔ x.isZero = true := by
  cases x with
  | nan => cases h
  | infinite s => cases h
  | finite s u fits =>
      have hwhole : u % oneUnits = 0 := by simpa [isInteger] using h
      have hsplit := Nat.div_add_mod u oneUnits
      rw [truncate?, Option.getD_some, signed_eq_zero_iff, isZero, beq_iff_eq]
      constructor
      · intro hzero
        rw [hzero, hwhole] at hsplit
        omega
      · rintro rfl
        exact Nat.zero_div _

end Double

/-- A part is written as zero if it is zero: fifteen digits are enough to tell. -/
theorem realText_eq_zero_iff (x : Double) : realText x = "0" ↔ x.isZero = true := by
  have hrounded : (Decimal.roundSignificant significantDigits x + .zero).isZero = x.isZero := by
    rw [Double.isZero_add_zero, Decimal.isZero_roundSignificant (by decide)]
  rw [← hrounded]
  unfold realText
  simp only
  generalize Decimal.roundSignificant significantDigits x + .zero = y
  split
  · rename_i hwhole
    rw [Bool.and_eq_true] at hwhole
    rw [IntegerText.write_eq_zero_iff, Double.truncate?_eq_zero_iff hwhole.1]
  · rename_i hwhole
    constructor
    · intro h
      have hplaces : 0 < significantDigits := by decide
      apply Decimal.isZero_of_generalText hplaces
      rw [← String.toList_ofList (l := Decimal.generalText significantDigits y), h]
      rfl
    · intro h
      rw [Double.isInteger_of_isZero h, Double.abs_of_isZero h, wholeLimit_pos] at hwhole
      exact absurd rfl hwhole

theorem append_lateralMark_ne (text more : String) : text ++ lateralMark ++ more ≠ "0" := by
  intro h
  have hmem : '+' ∈ (text ++ lateralMark ++ more).toList := by
    simp [lateralMark]
  rw [h] at hmem
  exact absurd hmem (by decide)

theorem FloatScalar.text_eq_zero_iff (z : FloatScalar) :
    z.text = "0" ↔
      z.cleanCartesian.real.isZero = true ∧ z.cleanCartesian.lateral.isZero = true := by
  unfold text
  simp only
  split
  · rename_i hlateral
    rw [realText_eq_zero_iff, hlateral, and_iff_left rfl]
  · rename_i hlateral
    exact iff_of_false (append_lateralMark_ne _ _) fun hzero => hlateral hzero.2

theorem IntScalar.text_eq_zero_iff {z : IntScalar} {t : String} (h : z.text = .ok t) :
    t = "0" ↔ z.toCartesian = .ok ⟨0, 0⟩ := by
  obtain ⟨parts, hparts, htext⟩ := toList_text h
  rw [hparts, ← String.toList_inj, htext]
  constructor
  · intro hzero
    rw [parts_unique (b := ⟨0, 0⟩) hzero]
  · intro hzero
    cases hzero
    rfl

/-! ## Zero -/

namespace FloatScalar

/-- Neither the length nor the angle is infinite or not a number. -/
def IsFinite (z : FloatScalar) : Prop := z.length.isFinite = true ∧ z.angle.isFinite = true

variable {limit part length factor : Double}

theorem snap_of_isFinite_eq_false (h : part.isFinite = false) : snap limit part = part := by
  have hlt : Double.lt part.abs limit = false := by
    cases part with
    | nan => rfl
    | infinite s =>
        cases limit with
        | nan => rfl
        | infinite t =>
            have hplace : ¬ (Double.limitUnits : Int) < signed t Double.limitUnits := by
              cases t <;> simp only [signed, Bool.false_eq_true, if_true, if_false] <;> omega
            exact decide_eq_false hplace
        | finite t v fits =>
            have hlimit := fits.2
            have hplace : ¬ (Double.limitUnits : Int) < signed t v := by
              cases t <;> simp only [signed, Bool.false_eq_true, if_true, if_false] <;> omega
            exact decide_eq_false hplace
    | finite s u fits => cases h
  rw [snap, hlt]
  rfl

theorem project_isFinite_eq_false (hlength : length.isFinite = false)
    (hfactor : factor.isZero = false) : (project length factor).isFinite = false := by
  rw [project, hfactor]
  show (Double.mul length factor).isFinite = false
  cases length with
  | nan => rfl
  | infinite s =>
      cases factor with
      | nan => rfl
      | infinite t => rfl
      | finite t v fits =>
          have hv : v ≠ 0 := Double.isZero_finite_eq_false.1 hfactor
          rw [Double.mul, if_neg hv]
          rfl
  | finite s u fits => cases hlength

theorem project_nan (length : Double) : project length .nan = .nan := by
  cases length <;> rfl

theorem isZero_of_isFinite_eq_false {x : Double} (h : x.isFinite = false) : x.isZero = false := by
  by_contra hzero
  obtain ⟨s, rfl⟩ := Double.eq_of_isZero (by simpa using hzero)
  cases h

/-- What is infinite or not a number has a part that is. -/
theorem exists_part_isFinite_eq_false {z : FloatScalar} (h : ¬ z.IsFinite) :
    z.cleanCartesian.real.isFinite = false ∨ z.cleanCartesian.lateral.isFinite = false := by
  have hclean (part limit : Double) (hpart : part.isFinite = false) :
      (snap limit part).isFinite = false := by
    rw [snap_of_isFinite_eq_false hpart, hpart]
  rcases Bool.eq_false_or_eq_true z.angle.isFinite with hangle | hangle
  · have hlength : z.length.isFinite = false := by
      rw [← Bool.not_eq_true]
      exact fun hlength => h ⟨hlength, hangle⟩
    rcases Double.angleLaws.cosine_ne_zero_or_sine_ne_zero z.angle with hcos | hsin
    · exact .inl (hclean _ _ (project_isFinite_eq_false hlength hcos))
    · exact .inr (hclean _ _ (project_isFinite_eq_false hlength hsin))
  · left
    apply hclean
    show (project z.length z.angle.cos).isFinite = false
    rw [Double.angleLaws.cosine_eq_nan hangle, project_nan]
    rfl

end FloatScalar

namespace Value

/-- A scalar whose cartesian parts are both zero; the parts of a float are those that are
left when round-off was snapped to zero. -/
def IsZero : Value → Prop
  | scalar (.float z) =>
      z.cleanCartesian.real.isZero = true ∧ z.cleanCartesian.lateral.isZero = true
  | scalar (.integer z) => z.toCartesian = .ok ⟨0, 0⟩
  | list _ => False
  | impossible => False

/-- A scalar that is neither infinite nor not a number. -/
def IsFiniteScalar : Value → Prop
  | scalar (.float z) => z.IsFinite
  | scalar (.integer _) => True
  | list _ => False
  | impossible => False

variable {v : Value} {t : String}

theorem text_eq_zero_iff (h : v.text = .ok t) : t = "0" ↔ v.IsZero := by
  cases v with
  | scalar z =>
      cases z with
      | float z =>
          obtain rfl : z.text = t := Except.ok.inj h
          exact z.text_eq_zero_iff
      | integer z => exact IntScalar.text_eq_zero_iff h
  | list items =>
      obtain ⟨inside, -, htext⟩ := toList_text_list h
      refine iff_of_false ?_ id
      rintro rfl
      cases htext
  | impossible =>
      cases h
      exact iff_of_false (by decide) id

theorem IsZero.isFiniteScalar (h : v.IsZero) : v.IsFiniteScalar := by
  cases v with
  | scalar z =>
      cases z with
      | float z =>
          by_contra hfinite
          rcases FloatScalar.exists_part_isFinite_eq_false hfinite with hpart | hpart
          · have hreal := FloatScalar.isZero_of_isFinite_eq_false hpart
            rw [h.1] at hreal
            cases hreal
          · have hlateral := FloatScalar.isZero_of_isFinite_eq_false hpart
            rw [h.2] at hlateral
            cases hlateral
      | integer z => trivial
  | list items => exact h
  | impossible => exact h

theorem isFalse_of_text (h : v.text = .ok t) : v.isFalse = .ok (t == "0") := by
  rw [isFalse, h]
  rfl

end Value

/-! ## Conditions -/

section Conditions

variable {σ : Type} {host : PluginHost σ} {depth : Nat} {env : Environment}
  {condition : Expr} {m after : Machine σ} {v : Value} {no : Bool}

/-- The value of a condition chooses the branch that follows, where there is one. -/
theorem eval_conditional (h : eval host depth env condition m = (.ok v, after))
    (hno : v.isFalse = .ok no) (thenBranch elseBranch : Expr) :
    eval host depth env (.ifThenElse condition thenBranch elseBranch) m =
        (if no then eval host depth env elseBranch after
        else eval host depth env thenBranch after) ∧
      eval host depth env (.ifElse condition elseBranch) m =
        (if no then eval host depth env elseBranch after else (.ok v, after)) ∧
      eval host depth env (.ifThen condition thenBranch) m =
        (if no then (.ok v, after) else eval host depth env thenBranch after) := by
  simp only [eval_eq_evalWith] at h ⊢
  simp only [evalWith, EvalM.bind_run, h, hno]
  cases no <;> exact ⟨rfl, rfl, rfl⟩

/-- A value is written as zero exactly if it is zero, which nothing infinite is; and a
conditional goes to its else-side for such values and for no others. -/
theorem truth_of_text {t : String} (ht : v.text = .ok t) :
    (t = "0" ↔ v.IsZero) ∧ (v.IsZero → v.IsFiniteScalar) ∧
    ∀ {σ : Type} (host : PluginHost σ) (depth : Nat) (env : Environment) (condition : Expr)
      (m after : Machine σ), eval host depth env condition m = (.ok v, after) →
      ∀ thenBranch elseBranch : Expr,
        (v.IsZero →
          eval host depth env (.ifThenElse condition thenBranch elseBranch) m =
              eval host depth env elseBranch after ∧
            eval host depth env (.ifElse condition elseBranch) m =
              eval host depth env elseBranch after ∧
            eval host depth env (.ifThen condition thenBranch) m = (.ok v, after)) ∧
        (¬ v.IsZero →
          eval host depth env (.ifThenElse condition thenBranch elseBranch) m =
              eval host depth env thenBranch after ∧
            eval host depth env (.ifElse condition elseBranch) m = (.ok v, after) ∧
            eval host depth env (.ifThen condition thenBranch) m =
              eval host depth env thenBranch after) := by
  have hzero := Value.text_eq_zero_iff ht
  refine ⟨hzero, Value.IsZero.isFiniteScalar, ?_⟩
  intro σ host depth env condition m after heval thenBranch elseBranch
  have hbranches := eval_conditional heval (Value.isFalse_of_text ht) thenBranch elseBranch
  constructor
  · intro hv
    rw [beq_iff_eq.2 (hzero.2 hv)] at hbranches
    exact hbranches
  · intro hv
    rw [beq_eq_false_iff_ne.2 fun h => hv (hzero.1 h)] at hbranches
    exact hbranches

/-- A number below the tolerance is not zero, but written as zero and taken for it. -/
theorem truth_of_text_tiny :
    let tiny : Double := (⟨false, 1, -13⟩ : Decimal).toDouble
    let host : PluginHost Unit := ⟨(), fun _ _ s => (.error .crash, s)⟩
    let start : Machine Unit := ⟨none, []⟩
    let condition : Expr := .number "1e-13"
    tiny.isZero = false ∧ (Value.ofReal tiny).text = .ok "0" ∧ (Value.ofReal tiny).IsZero ∧
      eval host 0 default condition start = (.ok (.ofReal tiny), start) ∧
      eval host 0 default (.ifThenElse condition (.ident "x") (.integer "2_")) start =
        eval host 0 default (.integer "2_") start := by
  intro tiny host start condition
  have htext : (Value.ofReal tiny).text = .ok "0" := by decide +kernel
  have hread : Decimal.readDouble? "1e-13".toList = some tiny := by decide +kernel
  have heval : eval host 0 default condition start = (.ok (.ofReal tiny), start) := by
    show EvalM.ofOutcome (numberValue "1e-13") start = _
    rw [numberValue, hread]
    rfl
  obtain ⟨hzero, -, hconditional⟩ := truth_of_text htext
  have htiny : (Value.ofReal tiny).IsZero := hzero.1 rfl
  have hbranches := hconditional host 0 default condition start start heval (.ident "x")
    (.integer "2_")
  exact ⟨by decide +kernel, htext, htiny, heval, (hbranches.1 htiny).1⟩

end Conditions

end PolarCalc
