import PolarCalc.Proofs.Value.Indexing
import PolarCalc.Proofs.Value.Leaves
/-!
# Operations that go leaf by leaf

Signs, kinds and the functions of one scalar are carried to the leaves of a value.  The
result is nested as the value is, with what the operation makes of each leaf in the leaf's
place; if there is a leaf that the operation fails on, the first one decides the failure.

* `traverse_at?` — positions of a value and of its result;
* `failure?_traverse` — the failure is that of the first leaf that fails;
* `leaf_by_leaf` — both, for the operations themselves.
-/

namespace PolarCalc

/-- The failure of what failed. -/
def Outcome.failure? {α : Type} : Outcome α → Option Failure
  | .ok _ => none
  | .error e => some e

theorem Outcome.failure?_eq_some {α : Type} {x : Outcome α} {e : Failure} :
    failure? x = some e ↔ x = .error e := by
  cases x <;> simp [failure?]

theorem Outcome.failure?_eq_none {α : Type} {x : Outcome α} :
    failure? x = none ↔ ∃ a, x = .ok a := by
  cases x <;> simp [failure?]

open Outcome (failure? failure?_eq_some failure?_eq_none)

/-! ## Lists -/

section Lists

variable {α β γ : Type}

theorem findSome?_flatMap {xs : List α} {f : α → List β} {g : β → Option γ} {h : α → Option γ}
    (hrow : ∀ x ∈ xs, h x = (f x).findSome? g) : (xs.flatMap f).findSome? g = xs.findSome? h := by
  induction xs with
  | nil => rfl
  | cons x xs ih =>
      rw [List.flatMap_cons, List.findSome?_append, List.findSome?_cons,
        hrow x List.mem_cons_self, ih fun y hy => hrow y (List.mem_cons_of_mem x hy)]
      cases (f x).findSome? g <;> rfl

theorem getElem?_cases {R : α → β → Prop} {xs : List α} {ys : List β} (h : List.Forall₂ R xs ys)
    (i : ℕ) : (xs[i]? = none ∧ ys[i]? = none) ∨
      ∃ x y, x ∈ xs ∧ xs[i]? = some x ∧ ys[i]? = some y ∧ R x y := by
  induction h generalizing i with
  | nil => exact .inl ⟨rfl, rfl⟩
  | cons hfirst _ ih =>
      cases i with
      | zero => exact .inr ⟨_, _, List.mem_cons_self, rfl, rfl, hfirst⟩
      | succ i =>
          rcases ih i with hout | ⟨x, y, hx, hitem, hresult, hR⟩
          · exact .inl hout
          · exact .inr ⟨x, y, List.mem_cons_of_mem _ hx, hitem, hresult, hR⟩

end Lists

namespace Value

variable {f : Scalar → Outcome Value} {R : Scalar → Scalar → Prop} {v r : Value}
  {items results : List Value}

/-- What stands at a position, given by the indices that lead to it from outside in. -/
def at? : List ℕ → Value → Option Value
  | [], v => some v
  | i :: path, .list items => items[i]?.bind (at? path)
  | _ :: _, _ => none

/-- Of two values in the same place both are scalars, related so, or lists of the same
length, or both are impossible. -/
inductive Corresponds (R : Scalar → Scalar → Prop) : Value → Value → Prop
  | scalar {z s : Scalar} : R z s → Corresponds R (.scalar z) (.scalar s)
  | list {items results : List Value} : items.length = results.length →
      Corresponds R (.list items) (.list results)
  | impossible : Corresponds R .impossible .impossible

/-! ## Results -/

theorem collect_eq_ok_iff {g : Value → Outcome Value} :
    collect g items = .ok results ↔ List.Forall₂ (fun v r => g v = .ok r) items results := by
  induction items generalizing results with
  | nil =>
      rw [collect, List.forall₂_nil_left_iff, Except.ok.injEq, eq_comm]
  | cons item items ih =>
      rw [List.forall₂_cons_left_iff]
      constructor
      · intro h
        obtain ⟨first, hfirst, hrest⟩ := Outcome.bind_eq_ok h
        obtain ⟨rest, hitems, hresults⟩ := Outcome.bind_eq_ok hrest
        exact ⟨first, rest, hfirst, ih.1 hitems, (Except.ok.inj hresults).symm⟩
      · rintro ⟨first, rest, hfirst, hitems, rfl⟩
        rw [collect, hfirst, ih.2 hitems]
        rfl

theorem traverse_list (f : Scalar → Outcome Value) (items : List Value) :
    (list items).traverse f =
      (collect (traverse f) items).bind fun results => .ok (list results) := by
  rw [traverse, traverseItems_eq_collect]
  rfl

theorem traverse_list_eq_ok (h : (list items).traverse f = .ok r) :
    ∃ results, r = list results ∧
      List.Forall₂ (fun v r => v.traverse f = .ok r) items results := by
  rw [traverse_list] at h
  obtain ⟨results, hresults, hlist⟩ := Outcome.bind_eq_ok h
  exact ⟨results, (Except.ok.inj hlist).symm, collect_eq_ok_iff.1 hresults⟩

/-- Position by position the result is what the function makes of the leaves, in the lists
that they stand in. -/
theorem traverse_at? (hf : ∀ z r, f z = .ok r → ∃ s, r = scalar s ∧ R z s)
    (h : v.traverse f = .ok r) (path : List ℕ) :
    Option.Rel (Corresponds R) (v.at? path) (r.at? path) := by
  induction v using Value.induct generalizing r path with
  | scalar z =>
      rw [traverse] at h
      obtain ⟨s, rfl, hs⟩ := hf z r h
      cases path with
      | nil => exact .some (.scalar hs)
      | cons i path => exact .none
  | list items ih =>
      obtain ⟨results, rfl, hresults⟩ := traverse_list_eq_ok h
      cases path with
      | nil => exact .some (.list hresults.length_eq)
      | cons i path =>
          rw [at?, at?]
          rcases getElem?_cases hresults i with ⟨hout, hout'⟩ | ⟨item, result, hmem, hi, hi', hitem⟩
          · rw [hout, hout']
            exact .none
          · rw [hi, hi']
            exact ih item hmem hitem path
  | impossible =>
      obtain rfl : impossible = r := Except.ok.inj h
      cases path with
      | nil => exact .some .impossible
      | cons i path => exact .none

/-! ## Failures -/

theorem failure?_collect (g : Value → Outcome Value) (items : List Value) :
    failure? (collect g items) = items.findSome? fun v => failure? (g v) := by
  induction items with
  | nil => rfl
  | cons item items ih =>
      rw [collect, List.findSome?_cons, ← ih]
      cases g item with
      | error e => rfl
      | ok first => cases collect g items <;> rfl

/-- The failure of a leaf; the impossible value has none. -/
def leafFailure? (f : Scalar → Outcome Value) (leaf : Option Scalar) : Option Failure :=
  leaf.bind fun z => failure? (f z)

theorem failure?_traverse (f : Scalar → Outcome Value) (v : Value) :
    failure? (v.traverse f) = v.leaves.findSome? (leafFailure? f) := by
  induction v using Value.induct with
  | scalar z =>
      rw [traverse, leaves_scalar, List.findSome?_singleton]
      rfl
  | list items ih =>
      have hitems : failure? (collect (traverse f) items) =
          (items.flatMap leaves).findSome? (leafFailure? f) := by
        rw [failure?_collect, findSome?_flatMap ih]
      rw [leaves_list, ← hitems, traverse_list]
      cases collect (traverse f) items <;> rfl
  | impossible => rfl

theorem traverse_eq_error_iff {e : Failure} : v.traverse f = .error e ↔
    ∃ before z after, v.leaves = before ++ some z :: after ∧
      (∀ x, some x ∈ before → ∃ r, f x = .ok r) ∧ f z = .error e := by
  rw [← failure?_eq_some, failure?_traverse, List.findSome?_eq_some_iff]
  constructor
  · rintro ⟨before, leaf, after, hleaves, hleaf, hbefore⟩
    obtain ⟨z, rfl, hz⟩ := Option.bind_eq_some_iff.1 hleaf
    exact ⟨before, z, after, hleaves, fun x hx => failure?_eq_none.1 (hbefore _ hx),
      failure?_eq_some.1 hz⟩
  · rintro ⟨before, z, after, hleaves, hbefore, hz⟩
    refine ⟨before, some z, after, hleaves, failure?_eq_some.2 hz, ?_⟩
    rintro (_ | x) hx
    · rfl
    · exact failure?_eq_none.2 (hbefore x hx)

/-! ## Positions of lists -/

theorem apply_idx_results {g : Value → Outcome Value}
    (h : List.Forall₂ (fun v r => g v = .ok r) items results) (p : Value) :
    Builtin.apply .idx [.list results, p] = Builtin.apply .idx [.list items, p] >>= g := by
  rw [Builtin.apply_idx_eq, Builtin.apply_idx_eq, h.length_eq]
  cases Builtin.expectIndex .idx p results.length with
  | error e => rfl
  | ok k =>
      show orFail .crash results[k]? = orFail .crash items[k]? >>= g
      rcases getElem?_cases h k with ⟨hout, hout'⟩ | ⟨item, result, -, hk, hk', hitem⟩
      · rw [hout, hout']
        rfl
      · rw [hk, hk']
        exact hitem.symm

theorem mapLeaves_eq_traverse (g : Scalar → Scalar) (v : Value) :
    .ok (v.mapLeaves g) = v.traverse fun z => .ok (.scalar (g z)) := by
  induction v using Value.induct with
  | scalar z => rfl
  | list items ih =>
      have hitems : collect (traverse fun z => .ok (.scalar (g z))) items =
          .ok (items.map (mapLeaves g)) := by
        rw [collect_eq_ok_iff, List.forall₂_map_right_iff, List.forall₂_same]
        exact fun item hitem => (ih item hitem).symm
      rw [mapLeaves, mapItems_eq_map, traverse_list, hitems]
      rfl
  | impossible => rfl

end Value

/-! ## The operations -/

namespace Scalar

/-- The results are scalars, and their kinds depend on those of the arguments alone. -/
def HasKind (kindOf : Kind → Kind) (f : Scalar → Outcome Value) : Prop :=
  ∀ z r, f z = .ok r → ∃ s, r = .scalar s ∧ s.kind = kindOf z.kind

theorem hasKind_applyComplex (f : Cartesian Double → Cartesian Double) :
    HasKind (fun _ => .float) (applyComplex f) := by
  intro z r h
  obtain ⟨parts, -, hr⟩ := Outcome.bind_eq_ok h
  exact ⟨_, (Except.ok.inj hr).symm, rfl⟩

theorem hasKind_roundBy (f : Double → Double) : HasKind id (roundBy f) := by
  intro z r h
  cases z with
  | float z => exact ⟨_, (Except.ok.inj h).symm, rfl⟩
  | integer z => exact ⟨_, (Except.ok.inj h).symm, rfl⟩

theorem hasKind_magnitude : HasKind id magnitude := by
  intro z r h
  cases z with
  | float z => exact ⟨_, (Except.ok.inj h).symm, rfl⟩
  | integer z => exact ⟨_, (Except.ok.inj h).symm, rfl⟩

theorem hasKind_realSign : HasKind id realSign := by
  intro z r h
  cases z with
  | float z => exact ⟨_, (Except.ok.inj h).symm, rfl⟩
  | integer z =>
      obtain ⟨parts, -, hr⟩ := Outcome.bind_eq_ok h
      exact ⟨_, (Except.ok.inj hr).symm, rfl⟩

theorem hasKind_toLateral : HasKind id fun z => .ok (.scalar z.toLateral) := by
  intro z r h
  refine ⟨_, (Except.ok.inj h).symm, ?_⟩
  cases z <;> rfl

theorem hasKind_toNegative : HasKind id fun z => .ok (.scalar z.toNegative) := by
  intro z r h
  refine ⟨_, (Except.ok.inj h).symm, ?_⟩
  cases z <;> rfl

theorem hasKind_toFloat : HasKind (fun _ => .float) fun z => do
    return .float (← z.toFloat) := by
  intro z r h
  obtain ⟨w, -, hr⟩ := Outcome.bind_eq_ok h
  exact ⟨_, (Except.ok.inj hr).symm, rfl⟩

end Scalar

/-- The builtins that go leaf by leaf, the logarithm to the base ten with one argument. -/
def Builtin.ofLeaves : List Builtin := [
  .sin, .cos, .tan, .asin, .acos, .atan, .d2r, .r2d, .ln, .floor, .ceil, .abs, .sign, .log]

/-- The operations that go leaf by leaf: the builtins that do, the turn by the imaginary
unit, the change of sign and the conversion to the float kind. -/
inductive LeafOperation where
  | builtin (b : Builtin) (hb : b ∈ Builtin.ofLeaves)
  | toLateral
  | toNegative
  | toFloat

namespace LeafOperation

/-- What the operation makes of a value. -/
def run : LeafOperation → Value → Outcome Value
  | builtin b _, v => b.apply [v]
  | toLateral, v => .ok v.toLateral
  | toNegative, v => .ok v.toNegative
  | toFloat, v => v.toFloat

/-- The kind of the result for a scalar of a kind: that kind if the operation rounds, measures
or changes a sign, and else a float. -/
def kindOf : LeafOperation → Kind → Kind
  | builtin .floor _, kind => kind
  | builtin .ceil _, kind => kind
  | builtin .abs _, kind => kind
  | builtin .sign _, kind => kind
  | toLateral, kind => kind
  | toNegative, kind => kind
  | _, _ => .float

/-- The scalar is the result for a leaf, of the kind that it is to be. -/
def Makes (op : LeafOperation) (z s : Scalar) : Prop :=
  op.run (.scalar z) = .ok (.scalar s) ∧ s.kind = op.kindOf z.kind

/-- Each of the operations carries one function of scalars to the leaves. -/
theorem exists_leafFunction (op : LeafOperation) :
    ∃ f, Scalar.HasKind op.kindOf f ∧ ∀ v, op.run v = v.traverse f := by
  cases op with
  | toLateral => exact ⟨_, Scalar.hasKind_toLateral, Value.mapLeaves_eq_traverse _⟩
  | toNegative => exact ⟨_, Scalar.hasKind_toNegative, Value.mapLeaves_eq_traverse _⟩
  | toFloat => exact ⟨_, Scalar.hasKind_toFloat, fun _ => rfl⟩
  | builtin b hb =>
      cases b
      case floor | ceil => exact ⟨_, Scalar.hasKind_roundBy _, fun _ => rfl⟩
      case abs => exact ⟨_, Scalar.hasKind_magnitude, fun _ => rfl⟩
      case sign => exact ⟨_, Scalar.hasKind_realSign, fun _ => rfl⟩
      case e | pi | mod | idx | len | app | del | comp => exact absurd hb (by decide)
      all_goals exact ⟨_, Scalar.hasKind_applyComplex _, fun _ => rfl⟩

/-- An operation fails if it fails on a leaf, and as on the first leaf that it fails on.  Else
its result has the nesting of the value, with the result for each leaf, of the foreseen kind,
in the place of the leaf; so that an index finds in the result what the operation makes of the
item that it finds in the value. -/
theorem leaf_by_leaf (op : LeafOperation) (v : Value) :
    (∀ e, op.run v = .error e ↔
      ∃ before z after, v.leaves = before ++ some z :: after ∧
        (∀ x, some x ∈ before → ∃ r, op.run (.scalar x) = .ok r) ∧
        op.run (.scalar z) = .error e) ∧
    ∀ r, op.run v = .ok r →
      (∀ path, Option.Rel (Value.Corresponds op.Makes) (v.at? path) (r.at? path)) ∧
      ∀ items, v = .list items → ∀ p,
        Builtin.apply .idx [r, p] = Builtin.apply .idx [v, p] >>= op.run := by
  obtain ⟨f, hkind, hrun⟩ := op.exists_leafFunction
  have hleaf (z : Scalar) : op.run (.scalar z) = f z := by
    rw [hrun, Value.traverse]
  constructor
  · intro e
    simp only [hrun v, hleaf]
    exact Value.traverse_eq_error_iff
  · intro r hr
    rw [hrun] at hr
    constructor
    · intro path
      refine Value.traverse_at? (fun z r hz => ?_) hr path
      obtain ⟨s, rfl, hs⟩ := hkind z r hz
      exact ⟨s, rfl, (hleaf z).trans hz, hs⟩
    · rintro items rfl p
      obtain ⟨results, rfl, hresults⟩ := Value.traverse_list_eq_ok hr
      have hrun' : op.run = Value.traverse f := funext hrun
      rw [hrun']
      exact Value.apply_idx_results hresults p

/-- Magnitudes inside lists beside what is impossible and an empty list; and the sines of a list
in which the second number is too large for a double. -/
theorem leaf_by_leaf_nested :
    let magnitude : LeafOperation := .builtin .abs (by decide)
    let sine : LeafOperation := .builtin .sin (by decide)
    let v : Value := .list [.ofInt (-3), .list [.impossible, .ofReal (-.one)], .list []]
    let r : Value := .list [.ofInt 3, .list [.impossible, .ofReal .one], .list []]
    let large : Value := .list [.ofReal .one, .list [.ofInt (10 ^ 400)], .impossible, .ofInt 1]
    magnitude.run v = .ok r ∧
      Option.Rel (Value.Corresponds magnitude.Makes) (v.at? [1, 1]) (r.at? [1, 1]) ∧
      Builtin.apply .idx [r, .ofInt (-2)] =
        Builtin.apply .idx [v, .ofInt (-2)] >>= magnitude.run ∧
      sine.run large = .error .overflow := by
  intro magnitude sine v r large
  have hmagnitude : magnitude.run v = .ok r := rfl
  obtain ⟨hplaces, hidx⟩ := (magnitude.leaf_by_leaf v).2 r hmagnitude
  refine ⟨hmagnitude, hplaces [1, 1], hidx _ rfl _, ?_⟩
  have hlarge (n : ℤ) (hn : Double.rangeLimit ≤ n.natAbs) :
      sine.run (.ofInt n) = .error .overflow := by
    show (do
      let real ← IntScalar.asDouble n
      let lateral ← IntScalar.asDouble 0
      return ⟨real, lateral⟩ : Outcome (Cartesian Double)).bind _ = _
    rw [IntScalar.asDouble_of_le hn]
    rfl
  refine ((sine.leaf_by_leaf large).1 .overflow).2 ⟨[some (.float ⟨.one, .zero⟩)],
    .integer ⟨10 ^ 400, 0⟩, [none, some (.integer ⟨1, 0⟩)], rfl, ?_, ?_⟩
  · intro x hx
    obtain rfl : x = .float ⟨.one, .zero⟩ := by simpa using hx
    exact ⟨_, rfl⟩
  · exact hlarge _ (by decide +kernel)

end LeafOperation

end PolarCalc
