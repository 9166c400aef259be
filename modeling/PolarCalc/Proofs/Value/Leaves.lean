import Mathlib.Data.List.Perm.Basic
import Mathlib.Data.List.ProdSigma
import PolarCalc.Proofs.Evaluation.Value
/-!
# The leaves of an operation on two values

However lists are nested on either side, an operation that is spread over them meets
every leaf on the left with every leaf on the right, and each pair once.  Only the
order of the pairs depends on the nesting.
-/

namespace PolarCalc

/-- What an operation makes of two leaves, where `none` is the impossible value: it is
impossible if one of them is, the operation on integers if both are integers, and else
the operation on floats with both converted. -/
def BinaryOperation.onLeaves (op : BinaryOperation) :
    Option Scalar → Option Scalar → Outcome (Option Scalar)
  | none, _ => .ok none
  | _, none => .ok none
  | some (.integer z), some (.integer w) => do
      return some (.integer (← op.onIntegers z w))
  | some z, some w => do
      let left ← z.toFloat
      let right ← w.toFloat
      return some (.float (← op.onFloats left right))

namespace Value

mutual

/-- The leaves at any depth, in order; the impossible value is `none`. -/
def leaves : Value → List (Option Scalar)
  | scalar z => [some z]
  | list items => leavesOfItems items
  | impossible => [none]

/-- The leaves of the items, one item after the other. -/
def leavesOfItems : List Value → List (Option Scalar)
  | [] => []
  | item :: items => leaves item ++ leavesOfItems items

end

@[simp] theorem leaves_scalar (z : Scalar) : (scalar z).leaves = [some z] := by rw [leaves]

@[simp] theorem leaves_impossible : impossible.leaves = [none] := by rw [leaves]

@[simp] theorem leaves_list (items : List Value) :
    (list items).leaves = items.flatMap leaves := by
  rw [leaves]
  induction items with
  | nil => rfl
  | cons item items ih => rw [leavesOfItems, ih, List.flatMap_cons]

end Value

/-! ## Pairs and their order -/

section Pairs

variable {α β γ : Type}

theorem flatMap_swap (xs : List α) (ys : List β) (f : α → β → List γ) :
    (xs.flatMap fun x => ys.flatMap (f x)).Perm (ys.flatMap fun y => xs.flatMap (f · y)) := by
  induction xs with
  | nil =>
      have hnil : (ys.flatMap fun _ => ([] : List γ)) = [] := by simp
      simp only [List.flatMap_nil, hnil]
      exact .refl []
  | cons x xs ih =>
      simp only [List.flatMap_cons]
      exact (ih.append_left _).trans (List.flatMap_append_perm ys _ _)

theorem getElem?_product (xs : List α) (ys : List β) {i j : Nat} (hi : i < xs.length)
    (hj : j < ys.length) : (xs ×ˢ ys)[i * ys.length + j]? = some (xs[i], ys[j]) := by
  induction xs generalizing i with
  | nil => cases hi
  | cons x xs ih =>
      rw [List.product_cons]
      cases i with
      | zero =>
          rw [Nat.zero_mul, Nat.zero_add, List.getElem?_append_left (by rwa [List.length_map]),
            List.getElem?_map, List.getElem?_eq_getElem hj]
          rfl
      | succ i =>
          have hrow : (i + 1) * ys.length + j = ys.length + (i * ys.length + j) := by
            rw [Nat.succ_mul]
            omega
          rw [hrow, List.getElem?_append_right (by rw [List.length_map]; omega), List.length_map,
            Nat.add_sub_cancel_left]
          exact ih (Nat.lt_of_succ_lt_succ hi)

end Pairs

namespace Value

/-! ## Lists of results -/

variable {R : Value → Value → Prop} {items others : List Value}

theorem exists_collect {f : Value → Outcome Value}
    (h : ∀ v ∈ items, ∃ r, f v = .ok r ∧ R v r) :
    ∃ rs, collect f items = .ok rs ∧ List.Forall₂ R items rs := by
  induction items with
  | nil => exact ⟨[], rfl, .nil⟩
  | cons item items ih =>
      obtain ⟨r, hr, hR⟩ := h item List.mem_cons_self
      obtain ⟨rs, hrs, hforall⟩ := ih fun v hv => h v (List.mem_cons_of_mem item hv)
      refine ⟨r :: rs, ?_, .cons hR hforall⟩
      rw [collect, hr, hrs]
      rfl

theorem collectAt_map (g : Value → Value → Outcome Value) (w : Value) (items : List Value) :
    collectAt w (items.map g) = collect (g · w) items := by
  induction items with
  | nil => rfl
  | cons item items ih => rw [List.map_cons, collectAt, collect, ih]

theorem exists_cross {g : Value → Value → Outcome Value} {R : Value × Value → Value → Prop}
    (h : ∀ v ∈ items, ∀ w ∈ others, ∃ r, g v w = .ok r ∧ R (v, w) r) :
    ∃ rs, cross (items.map g) others = .ok rs ∧ List.Forall₂ R (items ×ˢ others) rs := by
  induction items with
  | nil => exact ⟨[], rfl, by rw [List.nil_product]; exact .nil⟩
  | cons item items ih =>
      obtain ⟨row, hrow, hfirst⟩ := exists_collect (h item List.mem_cons_self)
      obtain ⟨rest, hrest, hforall⟩ := ih fun v hv => h v (List.mem_cons_of_mem item hv)
      refine ⟨row ++ rest, ?_, ?_⟩
      · rw [List.map_cons, cross, hrow, hrest]
        rfl
      · rw [List.product_cons]
        exact List.rel_append (List.forall₂_map_left_iff.2 hfirst) hforall

/-! ## Leaves of results -/

/-- The leaves of the value are these outcomes in some order. -/
def Yields (r : Value) (outcomes : List (Outcome (Option Scalar))) : Prop :=
  (r.leaves.map .ok).Perm outcomes

variable {op : BinaryOperation}

theorem yields_list {α : Type} {f : α → List (Outcome (Option Scalar))} {xs : List α}
    {rs : List Value} (h : List.Forall₂ (fun x r => Yields r (f x)) xs rs) :
    Yields (list rs) (xs.flatMap f) := by
  induction h with
  | nil => exact .refl []
  | cons hfirst _ ih =>
      unfold Yields at ih ⊢
      rw [leaves_list] at ih ⊢
      rw [List.flatMap_cons, List.flatMap_cons, List.map_append]
      exact hfirst.append ih

/-- The outcomes for all pairs of leaves. -/
def leafOutcomes (op : BinaryOperation) (v w : Value) : List (Outcome (Option Scalar)) :=
  v.leaves.flatMap fun x => w.leaves.map (op.onLeaves x)

theorem leafOutcomes_list_left (op : BinaryOperation) (items : List Value) (w : Value) :
    leafOutcomes op (list items) w = items.flatMap (leafOutcomes op · w) := by
  rw [leafOutcomes, leaves_list, List.flatMap_assoc]
  rfl

/-- The lists on the right are gone through inside those on the left, so that it is here that
the order changes. -/
theorem leafOutcomes_list_right (op : BinaryOperation) (v : Value) (others : List Value) :
    (others.flatMap (leafOutcomes op v)).Perm (leafOutcomes op v (list others)) := by
  have hrows : leafOutcomes op v (list others) =
      v.leaves.flatMap fun x => others.flatMap fun w => w.leaves.map (op.onLeaves x) := by
    simp only [leafOutcomes, leaves_list, List.map_flatMap]
  rw [hrows]
  exact (flatMap_swap v.leaves others fun x w => w.leaves.map (op.onLeaves x)).symm

theorem leafOutcomes_product (op : BinaryOperation) (items others : List Value) :
    ((items ×ˢ others).flatMap fun p => leafOutcomes op p.1 p.2).Perm
      (leafOutcomes op (list items) (list others)) := by
  have hrows : ((items ×ˢ others).flatMap fun p => leafOutcomes op p.1 p.2) =
      items.flatMap fun v => others.flatMap (leafOutcomes op v) := by
    show (items.flatMap fun v => others.map (Prod.mk v)).flatMap _ = _
    simp only [List.flatMap_assoc, List.flatMap_map]
  rw [hrows, leafOutcomes_list_left]
  exact List.Perm.flatMap_left items fun v _ => leafOutcomes_list_right op v others

/-! ## Operations spread over lists -/

/-- The operation fails on no pair of leaves. -/
def Succeeds (op : BinaryOperation) (v w : Value) : Prop :=
  ∀ x ∈ v.leaves, ∀ y ∈ w.leaves, ∃ r, op.onLeaves x y = .ok r

theorem Succeeds.list_left {w : Value} (h : Succeeds op (list items) w) {v : Value}
    (hv : v ∈ items) : Succeeds op v w := by
  intro x hx
  apply h x
  rw [leaves_list]
  exact List.mem_flatMap_of_mem hv hx

theorem Succeeds.list_right {v : Value} (h : Succeeds op v (list others)) {w : Value}
    (hw : w ∈ others) : Succeeds op v w := by
  intro x hx y hy
  apply h x hx y
  rw [leaves_list]
  exact List.mem_flatMap_of_mem hw hy

theorem onLeaves_scalars (op : BinaryOperation) (z w : Scalar) :
    op.onLeaves (some z) (some w) = (op.apply z w).map some := by
  have hfloats : (do
      let left ← z.toFloat
      let right ← w.toFloat
      return some (Scalar.float (← op.onFloats left right)) : Outcome (Option Scalar)) =
      (do
        let left ← (Value.scalar z).toFloat
        let right ← (Value.scalar w).toFloat
        return Scalar.float (← op.onFloats (← left.assumeFloat) (← right.assumeFloat)) :
          Outcome Scalar).map some := by
    unfold Value.toFloat
    rw [traverse, traverse]
    cases z.toFloat with
    | error f => rfl
    | ok left =>
        cases w.toFloat with
        | error f => rfl
        | ok right =>
            show (op.onFloats left right).bind _ = ((op.onFloats left right).bind _).map some
            cases op.onFloats left right <;> rfl
  cases z with
  | float z => cases w <;> exact hfloats
  | integer z =>
      cases w with
      | float w => exact hfloats
      | integer w =>
          show (op.onIntegers z w).bind _ = ((op.onIntegers z w).bind _).map some
          cases op.onIntegers z w <;> rfl

theorem exists_meetScalar (z : Scalar) {w : Value} (h : Succeeds op (scalar z) w) :
    ∃ r, meetScalar op z w = .ok r ∧ Yields r (leafOutcomes op (scalar z) w) := by
  induction w using Value.induct with
  | scalar w =>
      obtain ⟨r, hr⟩ := h (some z) (by simp) (some w) (by simp)
      have happly := onLeaves_scalars op z w
      rw [hr] at happly
      unfold meetScalar
      cases hs : op.apply z w with
      | error f =>
          rw [hs] at happly
          cases happly
      | ok s =>
          refine ⟨scalar s, rfl, ?_⟩
          simp [Yields, leafOutcomes, onLeaves_scalars, hs, Except.map]
  | list items ih =>
      have hitems (item : Value) (hitem : item ∈ items) :
          ∃ r, meetScalar op z item = .ok r ∧ Yields r (leafOutcomes op (scalar z) item) :=
        ih item hitem (h.list_right hitem)
      obtain ⟨rs, hrs, hyields⟩ := exists_collect hitems
      refine ⟨list rs, ?_, ?_⟩
      · rw [meetScalar, meetScalarItems_eq_collect, hrs]
        rfl
      · exact (yields_list hyields).trans (leafOutcomes_list_right op (scalar z) items)
  | impossible => exact ⟨impossible, rfl, .refl _⟩

theorem yields_meetImpossible (op : BinaryOperation) (w : Value) :
    Yields w.meetImpossible (leafOutcomes op impossible w) := by
  induction w using Value.induct with
  | scalar w => exact .refl _
  | list items ih =>
      rw [meetImpossible, meetImpossibleItems_eq_map]
      have hitems : List.Forall₂ (fun v r => Yields r (leafOutcomes op impossible v)) items
          (items.map meetImpossible) := by
        rw [List.forall₂_map_right_iff, List.forall₂_same]
        exact ih
      exact (yields_list hitems).trans (leafOutcomes_list_right op impossible items)
  | impossible => exact .refl _

/-- Two lists cross item by item, a list meets anything else item by item. -/
theorem exists_broadcast {v w : Value} (h : Succeeds op v w) :
    ∃ r, broadcast op v w = .ok r ∧ Yields r (leafOutcomes op v w) := by
  induction v using Value.induct generalizing w with
  | scalar z => exact exists_meetScalar z h
  | impossible => exact ⟨w.meetImpossible, rfl, yields_meetImpossible op w⟩
  | list items ih =>
      have hcells (v : Value) (hv : v ∈ items) {w : Value} (hw : Succeeds op v w) :
          ∃ r, broadcast op v w = .ok r ∧ Yields r (leafOutcomes op v w) := ih v hv hw
      -- what is no list on the right is met by one item after the other
      have hcolumn : ∃ rs, collectAt w (items.map (broadcast op)) = .ok rs ∧
          Yields (list rs) (leafOutcomes op (list items) w) := by
        obtain ⟨rs, hrs, hyields⟩ := exists_collect fun v hv => hcells v hv (h.list_left hv)
        rw [collectAt_map, leafOutcomes_list_left]
        exact ⟨rs, hrs, yields_list hyields⟩
      rw [broadcast, broadcastItems_eq_map]
      cases w with
      | scalar w =>
          obtain ⟨rs, hrs, hyields⟩ := hcolumn
          simp only [hrs]
          exact ⟨list rs, rfl, hyields⟩
      | impossible =>
          obtain ⟨rs, hrs, hyields⟩ := hcolumn
          simp only [hrs]
          exact ⟨list rs, rfl, hyields⟩
      | list others =>
          -- here the items on the left meet those on the right, not the whole list
          have hcross : ∃ rs, cross (items.map (broadcast op)) others = .ok rs ∧
              List.Forall₂ (fun p r => Yields r (leafOutcomes op p.1 p.2)) (items ×ˢ others) rs :=
            exists_cross fun v hv w hw => hcells v hv ((h.list_left hv).list_right hw)
          obtain ⟨rs, hrs, hyields⟩ := hcross
          simp only [hrs]
          exact ⟨list rs, rfl, (yields_list hyields).trans (leafOutcomes_product op items others)⟩

end Value

/-- If an operation fails on no pair of leaves, the leaves of its result are what it makes of
the pairs of a left and a right leaf, each pair once.  Of two lists the result has one item
for each pair of their items, row by row. -/
theorem broadcast_leaves (op : BinaryOperation) (v w : Value)
    (h : ∀ x ∈ v.leaves, ∀ y ∈ w.leaves, ∃ r, op.onLeaves x y = .ok r) :
    ∃ result, v.broadcast op w = .ok result ∧
      (result.leaves.map .ok).Perm (v.leaves.flatMap fun x => w.leaves.map (op.onLeaves x)) ∧
      ∀ items others, v = .list items → w = .list others →
        ∃ results, result = .list results ∧ results.length = items.length * others.length ∧
          ∀ i j (hi : i < items.length) (hj : j < others.length),
            ∃ item, results[i * others.length + j]? = some item ∧
              items[i].broadcast op others[j] = .ok item := by
  obtain ⟨result, hresult, hyields⟩ := Value.exists_broadcast h
  refine ⟨result, hresult, hyields, ?_⟩
  rintro items others rfl rfl
  have hcells : ∀ a ∈ items, ∀ b ∈ others, ∃ r, a.broadcast op b = .ok r ∧
      a.broadcast op b = .ok r := by
    intro a ha b hb
    have hsucceeds : Value.Succeeds op (.list items) (.list others) := h
    obtain ⟨r, hr, -⟩ := Value.exists_broadcast ((hsucceeds.list_left ha).list_right hb)
    exact ⟨r, hr, hr⟩
  obtain ⟨results, hcross, hpairs⟩ : ∃ rs, Value.cross (items.map (Value.broadcast op)) others =
      .ok rs ∧ List.Forall₂ (fun p r => p.1.broadcast op p.2 = .ok r) (items ×ˢ others) rs :=
    Value.exists_cross hcells
  have hlist : result = .list results := by
    rw [Value.broadcast, Value.broadcastItems_eq_map] at hresult
    simp only [hcross] at hresult
    exact (Except.ok.inj hresult).symm
  refine ⟨results, hlist, ?_, ?_⟩
  · rw [← hpairs.length_eq, List.length_product]
  · intro i j hi hj
    obtain ⟨hk, hpair⟩ := List.getElem?_eq_some_iff.1 (getElem?_product items others hi hj)
    have hk' : i * others.length + j < results.length := hpairs.length_eq ▸ hk
    have hitem := hpairs.get hk hk'
    rw [List.get_eq_getElem, List.get_eq_getElem, hpair] at hitem
    exact ⟨_, List.getElem?_eq_getElem hk', hitem⟩

/-- A list with an empty list and an impossible value in it, times a list of both kinds. -/
theorem broadcast_leaves_uneven :
    let v : Value := .list [.ofInt 2, .list [.ofInt 3, .impossible], .list []]
    let w : Value := .list [.ofInt 5, .list [.ofReal .one]]
    (∀ x ∈ v.leaves, ∀ y ∈ w.leaves, ∃ r, BinaryOperation.mul.onLeaves x y = .ok r) ∧
      ∃ result, v.broadcast .mul w = .ok result ∧
        (result.leaves.map .ok).Perm
          (v.leaves.flatMap fun x => w.leaves.map (BinaryOperation.mul.onLeaves x)) ∧
        ∃ results, result = .list results ∧ results.length = 6 ∧
          ∃ item, results[3]? = some item ∧
            (Value.list [.ofInt 3, .impossible]).broadcast .mul (.list [.ofReal .one]) =
              .ok item := by
  intro v w
  have hsome : ∀ x ∈ v.leaves, ∀ y ∈ w.leaves,
      (BinaryOperation.mul.onLeaves x y).toOption.isSome = true := by
    decide +kernel
  have h : ∀ x ∈ v.leaves, ∀ y ∈ w.leaves, ∃ r, BinaryOperation.mul.onLeaves x y = .ok r := by
    intro x hx y hy
    have hxy := hsome x hx y hy
    cases hr : BinaryOperation.mul.onLeaves x y with
    | ok r => exact ⟨r, rfl⟩
    | error f =>
        rw [hr] at hxy
        cases hxy
  obtain ⟨result, hresult, hperm, hitems⟩ := broadcast_leaves .mul v w h
  obtain ⟨results, hlist, hlength, hcells⟩ := hitems _ _ rfl rfl
  exact ⟨h, result, hresult, hperm, results, hlist, hlength, hcells 1 1 (by decide) (by decide)⟩

end PolarCalc
