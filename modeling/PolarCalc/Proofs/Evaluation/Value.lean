import PolarCalc.Evaluation
import PolarCalc.Proofs.Evaluation.Text
import PolarCalc.Proofs.Grammar.Canonical
/-!
# Operations on values

What is asked of a value is asked of its leaves: `Leafwise` properties hold of
every scalar, and of a list as soon as they hold of its items.  The operators and
the builtins keep every such property and fail only as is foreseen; in particular
they come to the impossible value only from impossible operands.
-/

namespace PolarCalc

open Outcome
open Failure (IsForeseen)

namespace Value

/-- The property is that of the leaves, and scalars have it. -/
structure Leafwise (good : Value → Prop) : Prop where
  scalar (z : Scalar) : good (.scalar z)
  list {items : List Value} : good (.list items) ↔ ∀ item ∈ items, good item

/-- No leaf of the value is impossible. -/
inductive Possible : Value → Prop
  | scalar (z : Scalar) : Possible (.scalar z)
  | list {items : List Value} : (∀ item ∈ items, Possible item) → Possible (.list items)

theorem leafwise_possible : Leafwise Possible where
  scalar := .scalar
  list := by
    refine ⟨fun h => ?_, .list⟩
    cases h with
    | list h => exact h

theorem leafwise_true : Leafwise fun _ => True := ⟨fun _ => trivial, by simp⟩

end Value

section Operations

variable {good : Value → Prop} {bad : Failure → Prop} {v w : Value} {items : List Value}

namespace Value

/-! ## Lists of results -/

theorem collect_within {f : Value → Outcome Value} (h : ∀ v ∈ items, Within good bad (f v)) :
    Within (∀ v ∈ ·, good v) bad (collect f items) := by
  induction items with
  | nil => exact .ok nofun
  | cons item items ih =>
      refine (h item List.mem_cons_self).bind fun first hfirst => ?_
      refine (ih fun v hv => h v (List.mem_cons_of_mem item hv)).map fun rest hrest => ?_
      exact List.forall_mem_cons.2 ⟨hfirst, hrest⟩

theorem collectAt_within {fs : List (Value → Outcome Value)}
    (h : ∀ f ∈ fs, Within good bad (f v)) : Within (∀ v ∈ ·, good v) bad (collectAt v fs) := by
  induction fs with
  | nil => exact .ok nofun
  | cons f fs ih =>
      refine (h f List.mem_cons_self).bind fun first hfirst => ?_
      refine (ih fun g hg => h g (List.mem_cons_of_mem f hg)).map fun rest hrest => ?_
      exact List.forall_mem_cons.2 ⟨hfirst, hrest⟩

theorem cross_within {fs : List (Value → Outcome Value)}
    (h : ∀ f ∈ fs, ∀ v ∈ items, Within good bad (f v)) :
    Within (∀ v ∈ ·, good v) bad (cross fs items) := by
  induction fs with
  | nil => exact .ok nofun
  | cons f fs ih =>
      refine (collect_within (h f List.mem_cons_self)).bind fun row hrow => ?_
      refine (ih fun g hg => h g (List.mem_cons_of_mem f hg)).map fun rest hrest => ?_
      exact List.forall_mem_append.2 ⟨hrow, hrest⟩

theorem traverseItems_eq_collect (f : Scalar → Outcome Value) (items : List Value) :
    traverseItems f items = collect (traverse f) items := by
  induction items with
  | nil => rfl
  | cons item items ih => rw [traverseItems, collect, ih]

theorem meetScalarItems_eq_collect (op : BinaryOperation) (z : Scalar) (items : List Value) :
    meetScalarItems op z items = collect (meetScalar op z) items := by
  induction items with
  | nil => rfl
  | cons item items ih => rw [meetScalarItems, collect, ih]

theorem meetImpossibleItems_eq_map (items : List Value) :
    meetImpossibleItems items = items.map meetImpossible := by
  induction items with
  | nil => rfl
  | cons item items ih => rw [meetImpossibleItems, List.map_cons, ih]

/-! ## One operand -/

theorem Leafwise.mapLeaves (hgood : Leafwise good) (f : Scalar → Scalar) (hv : good v) :
    good (v.mapLeaves f) := by
  induction v using Value.induct with
  | scalar z => exact hgood.scalar _
  | list items ih =>
      rw [Value.mapLeaves, mapItems_eq_map, hgood.list]
      intro item hitem
      obtain ⟨before, hbefore, rfl⟩ := List.mem_map.1 hitem
      exact ih before hbefore (hgood.list.1 hv before hbefore)
  | impossible => exact hv

theorem Leafwise.traverse (hgood : Leafwise good) {f : Scalar → Outcome Value}
    (hf : ∀ z, Within good bad (f z)) (hv : good v) : Within good bad (v.traverse f) := by
  induction v using Value.induct with
  | scalar z => exact hf z
  | list items ih =>
      rw [Value.traverse, traverseItems_eq_collect]
      refine Within.map (collect_within fun item hitem => ?_) fun vs hvs => hgood.list.2 hvs
      exact ih item hitem (hgood.list.1 hv item hitem)
  | impossible => exact .ok hv

/-! ## Two operands -/

theorem Leafwise.meetScalar (hgood : Leafwise good) {op : BinaryOperation} (hop : op.Foreseen)
    (z : Scalar) (hw : good w) : Within good IsForeseen (meetScalar op z w) := by
  induction w using Value.induct with
  | scalar w => exact (hop.apply z w).map fun s _ => hgood.scalar s
  | list items ih =>
      rw [Value.meetScalar, meetScalarItems_eq_collect]
      refine Within.map (collect_within fun item hitem => ?_) fun vs hvs => hgood.list.2 hvs
      exact ih item hitem (hgood.list.1 hw item hitem)
  | impossible => exact .ok hw

theorem Leafwise.meetImpossible (hgood : Leafwise good) (himpossible : good .impossible)
    (w : Value) : good w.meetImpossible := by
  induction w using Value.induct with
  | scalar z => exact himpossible
  | list items ih =>
      rw [Value.meetImpossible, meetImpossibleItems_eq_map, hgood.list]
      intro item hitem
      obtain ⟨before, hbefore, rfl⟩ := List.mem_map.1 hitem
      exact ih before hbefore
  | impossible => exact himpossible

/-- An operation spread over lists keeps what is asked of the leaves. -/
theorem Leafwise.broadcast (hgood : Leafwise good) {op : BinaryOperation} (hop : op.Foreseen)
    (hv : good v) (hw : good w) : Within good IsForeseen (broadcast op v w) := by
  induction v using Value.induct generalizing w with
  | scalar z => exact hgood.meetScalar hop z hw
  | list items ih =>
      have hitems := hgood.list.1 hv
      have hmeet : ∀ f ∈ items.map (Value.broadcast op), ∀ w, good w →
          Within good IsForeseen (f w) := by
        intro f hf w hw
        obtain ⟨item, hitem, rfl⟩ := List.mem_map.1 hf
        exact ih item hitem (hitems item hitem) hw
      have hat : Within good IsForeseen (do
          return .list (← collectAt w (items.map (Value.broadcast op)))) :=
        Within.map (collectAt_within fun f hf => hmeet f hf w hw) fun vs hvs => hgood.list.2 hvs
      rw [Value.broadcast, broadcastItems_eq_map]
      cases w with
      | scalar => exact hat
      | list others =>
          refine Within.map (cross_within fun f hf other hother => ?_) fun vs hvs =>
            hgood.list.2 hvs
          exact hmeet f hf other (hgood.list.1 hw other hother)
      | impossible => exact hat
  | impossible => exact .ok (hgood.meetImpossible hv w)

end Value

/-! ## Operators -/

open BinaryOperation
open Value (Leafwise)

theorem Comparison.exists_ofSign? {op : String} (h : op ∈ Tier.relational.operators) :
    ∃ c, ofSign? op = some c := by
  apply Option.isSome_iff_exists.1
  revert op
  decide

theorem Tier.mem_relational {tier : Tier} {op : String} (h : op ∈ tier.operators)
    (hadd : op ≠ "+") (hsub : op ≠ "-") (hmul : op ≠ "*") (hdiv : op ≠ "/") :
    op ∈ Tier.relational.operators := by
  cases tier with
  | product => simp [operators, hmul, hdiv] at h
  | sum => simp [operators, hadd, hsub] at h
  | relational => exact h

theorem Value.Leafwise.compare (hgood : Leafwise good) {op : String}
    (hop : op ∈ Tier.relational.operators) (hv : good v) (hw : good w) :
    Within good IsForeseen (v.compare op w) := by
  obtain ⟨c, hc⟩ := Comparison.exists_ofSign? hop
  rw [Value.compare, hc]
  exact hgood.broadcast (foreseen_comparison c) hv hw

theorem Value.Leafwise.applyBinary (hgood : Leafwise good) {tier : Tier} {op : String}
    (hop : op ∈ tier.operators) (hv : good v) (hw : good w) :
    Within good IsForeseen (applyBinary op v w) := by
  refine within_ite (fun _ => hgood.broadcast foreseen_add hv hw) fun hadd => ?_
  refine within_ite (fun _ => hgood.broadcast foreseen_sub hv hw) fun hsub => ?_
  refine within_ite (fun _ => hgood.broadcast foreseen_mul hv hw) fun hmul => ?_
  refine within_ite (fun _ => hgood.broadcast foreseen_div hv hw) fun hdiv => ?_
  exact hgood.compare (Tier.mem_relational hop hadd hsub hmul hdiv) hv hw

theorem Value.Leafwise.applyPrefix (hgood : Leafwise good) (op : String) (hv : good v) :
    Within good IsForeseen (applyPrefix op v) := by
  refine within_ite (fun _ => .ok (hgood.mapLeaves _ hv)) fun _ => ?_
  exact within_ite (fun _ => .ok (hgood.mapLeaves _ hv)) fun _ => refuse_within _

/-! ## Builtins -/

/-- A function of scalars yields scalars and fails only as is foreseen. -/
def Scalar.Foreseen (f : Scalar → Outcome Value) : Prop :=
  ∀ z, Within (fun v => ∃ s, v = .scalar s) IsForeseen (f z)

namespace Scalar

theorem doubleParts_fails (z : Scalar) : Fails IsForeseen z.doubleParts := by
  cases z with
  | float z => exact .ok trivial
  | integer z =>
      refine z.toCartesian_fails.foreseen.bind fun parts _ => ?_
      refine (IntScalar.asDouble_fails _).foreseen.bind fun real _ => ?_
      exact (IntScalar.asDouble_fails _).foreseen.map fun _ _ => trivial

theorem foreseen_applyComplex (f : Cartesian Double → Cartesian Double) :
    Foreseen (applyComplex f) := fun z =>
  z.doubleParts_fails.map fun _ _ => ⟨_, rfl⟩

theorem foreseen_roundBy (f : Double → Double) : Foreseen (roundBy f)
  | .float _ => .ok ⟨_, rfl⟩
  | .integer _ => .ok ⟨_, rfl⟩

theorem foreseen_magnitude : Foreseen magnitude
  | .float _ => .ok ⟨_, rfl⟩
  | .integer _ => .ok ⟨_, rfl⟩

theorem foreseen_realSign : Foreseen realSign
  | .float _ => .ok ⟨_, rfl⟩
  | .integer z => z.toCartesian_fails.foreseen.map fun _ _ => ⟨_, rfl⟩

end Scalar

namespace Builtin

theorem foreseen_leafFunction {b : Builtin} {f : Scalar → Outcome Value}
    (h : b.leafFunction? = some f) : Scalar.Foreseen f := by
  cases b <;> cases h
  case floor | ceil => exact Scalar.foreseen_roundBy _
  case abs => exact Scalar.foreseen_magnitude
  case sign => exact Scalar.foreseen_realSign
  all_goals exact Scalar.foreseen_applyComplex _

theorem expectList_within (hgood : Leafwise good) (b : Builtin) (hv : good v) :
    Within (∀ item ∈ ·, good item) IsForeseen (expectList b v) := by
  cases v with
  | list items => exact .ok (hgood.list.1 hv)
  | scalar z => exact refuse_within _
  | impossible => exact refuse_within _

theorem expectInteger_fails (b : Builtin) (v : Value) : Fails IsForeseen (expectInteger b v) := by
  have hwrong : Fails IsForeseen (do
      refuse (.integerIndexExpected b.name (← v.text)) : Outcome Int) :=
    v.text_within.fails.foreseen.bind fun _ _ => refuse_within _
  cases v with
  | scalar z =>
      cases z with
      | float z => exact within_ite (fun _ => .ok trivial) fun _ => hwrong
      | integer z =>
          refine z.toCartesian_fails.foreseen.bind fun parts _ => ?_
          refine within_ite (fun _ => ?_) fun _ => hwrong
          exact (IntScalar.asDouble_fails _).foreseen.map fun _ _ => trivial
  | list items => exact refuse_within _
  | impossible => exact refuse_within _

/-- A position that is not refused lies in the list, which therefore is not
empty: there is a remainder by its length. -/
theorem expectIndex_within (b : Builtin) (v : Value) (length : Nat) :
    Within (· < length) IsForeseen (expectIndex b v length) := by
  refine (expectInteger_fails b v).bind fun index _ => ?_
  refine within_ite (fun hrange => ?_) fun _ => refuse_within _
  have hlength : 0 < (length : Int) := by omega
  have hlow := Int.fmod_nonneg_of_pos index hlength
  have hhigh := Int.fmod_lt_of_pos index hlength
  rw [IntScalar.remainder_of_ne (by omega)]
  refine .ok ?_
  show (index.fmod length).toNat < length
  omega

theorem leaves_within (hgood : Leafwise good) {f : Scalar → Outcome Value}
    (hf : Scalar.Foreseen f) (hv : good v) : Within good IsForeseen (v.traverse f) := by
  refine hgood.traverse (fun z => (hf z).imp ?_ fun _ h => h) hv
  rintro _ ⟨s, rfl⟩
  exact hgood.scalar s

theorem leafFunction_within (hgood : Leafwise good) (b : Builtin) {args : List Value} :
    (∀ v ∈ args, good v) → Within good IsForeseen (match args, b.leafFunction? with
      | [v], some f => v.traverse f
      | _, _ => wrongArity b "1" args) := by
  intro hargs
  split
  · next v f hleaf =>
      exact leaves_within hgood (foreseen_leafFunction hleaf) (hargs v List.mem_cons_self)
  · exact refuse_within _

/-- Whatever builtin is called with whatever number of arguments, it keeps what
is asked of the leaves. -/
theorem apply_within (hgood : Leafwise good) (b : Builtin) {args : List Value}
    (hargs : ∀ v ∈ args, good v) : Within good IsForeseen (b.apply args) := by
  -- the cases are those of the definition; what is not named is a wrong number of arguments
  fun_cases Builtin.apply b args with
  | case2 | case4 => exact .ok (hgood.scalar _)
  | case6 v =>
      exact leaves_within hgood (Scalar.foreseen_applyComplex _) (hargs v List.mem_cons_self)
  | case7 v base =>
      rw [List.forall_mem_cons, List.forall_mem_singleton] at hargs
      have hlog := Scalar.foreseen_applyComplex Double.Complex.log
      refine (leaves_within hgood hlog hargs.1).bind fun above habove => ?_
      refine (leaves_within hgood hlog hargs.2).bind fun below hbelow => ?_
      exact hgood.broadcast foreseen_div habove hbelow
  | case9 v w =>
      rw [List.forall_mem_cons, List.forall_mem_singleton] at hargs
      exact hgood.broadcast foreseen_modulo hargs.1 hargs.2
  | case11 v =>
      refine (expectList_within hgood _ (hargs v List.mem_cons_self)).map fun _ _ => ?_
      exact hgood.scalar _
  | case13 v position =>
      refine (expectList_within hgood _ (hargs v List.mem_cons_self)).bind fun items hitems => ?_
      refine (expectIndex_within _ position _).bind fun index hindex => ?_
      rw [List.getElem?_eq_getElem hindex]
      exact .ok (hitems _ (List.getElem_mem hindex))
  | case15 v item =>
      rw [List.forall_mem_cons, List.forall_mem_singleton] at hargs
      refine (expectList_within hgood _ hargs.1).map fun items hitems => ?_
      refine hgood.list.2 (List.forall_mem_append.2 ⟨hitems, ?_⟩)
      exact List.forall_mem_singleton.2 hargs.2
  | case17 v position =>
      refine (expectList_within hgood _ (hargs v List.mem_cons_self)).bind fun items hitems => ?_
      refine (expectIndex_within _ position _).map fun index _ => hgood.list.2 ?_
      exact fun item hitem => hitems item (List.mem_of_mem_eraseIdx hitem)
  | case19 | case20 => exact leafFunction_within hgood b hargs
  | _ => exact refuse_within _

end Builtin

end Operations

end PolarCalc
