import PolarCalc.Proofs.Integer.Conversion
import PolarCalc.Proofs.Value.Leaves
import PolarCalc.Proofs.Value.Truth
/-!
# Differences of integers

A negative has the other sign of length, a difference is taken of the cartesian parts, and
off the axes these are rounded.  Rounding is symmetric about zero, so for integers the two
agree: a difference is the sum with the negative, whatever lists it is spread over, and
fails as that does.
-/

namespace PolarCalc

/-! ## The other sign -/

namespace Double

theorem ofInt_neg {n : ℤ} (hn : n ≠ 0) : ofInt (-n) = -ofInt n := by
  have hsign : decide (-n < 0) = !decide (n < 0) := by
    rw [← decide_not, decide_eq_decide]
    omega
  rw [ofInt, ofInt, Int.natAbs_neg, hsign]
  exact ofUnits_not _ _

theorem neg_mul (x y : Double) : -x * y = -(x * y) := by
  show mul (-x) y = -mul x y
  cases x with
  | nan => rfl
  | infinite s =>
      cases y with
      | nan => rfl
      | infinite t => simp [mul]
      | finite t v fits =>
          rw [neg_infinite, mul, mul]
          split
          · rfl
          · rw [neg_infinite, Bool.not_xor]
  | finite s u fits =>
      cases y with
      | nan => rfl
      | infinite t =>
          rw [neg_finite, mul, mul]
          split
          · rfl
          · rw [neg_infinite, Bool.not_xor]
      | finite t v fits' =>
          rw [neg_finite, mul, mul, Bool.not_xor]
          exact ofUnits_not _ _

end Double

namespace IntScalar

/-- The pair with both signs changed. -/
def opposite (z : Cartesian ℤ) : Cartesian ℤ := ⟨-z.real, -z.lateral⟩

theorem asInteger_neg (x : Double) : asInteger (-x) = (asInteger x).map (- ·) := by
  rw [asInteger, asInteger, Double.nearestInt?_neg]
  cases x.nearestInt? <;> rfl

theorem asInteger_zero_mul (factor : Double) :
    asInteger (.zero * factor) = .ok 0 ∨ asInteger (.zero * factor) = .error .overflow := by
  cases factor with
  | nan => exact .inr rfl
  | infinite t => exact .inr rfl
  | finite t v fits => exact .inl (asInteger_of_isZero (Double.isZero_mul rfl rfl))

theorem asInteger_part_neg (n : ℤ) (factor : Double) :
    asInteger (Double.ofInt (-n) * factor) =
      (asInteger (Double.ofInt n * factor)).map (- ·) := by
  by_cases hn : n = 0
  · have hzero : Double.ofInt 0 = .zero := by decide +kernel
    rw [hn, Int.neg_zero, hzero]
    rcases asInteger_zero_mul factor with h | h <;> rw [h] <;> rfl
  · rw [Double.ofInt_neg hn, Double.neg_mul, asInteger_neg]

theorem asDouble_neg (n : ℤ) : asDouble (-n) = (asDouble n).map fun _ => Double.ofInt (-n) := by
  rcases lt_or_ge n.natAbs Double.rangeLimit with h | h
  · rw [asDouble_of_lt h, asDouble_of_lt (by rwa [Int.natAbs_neg])]
    rfl
  · rw [asDouble_of_le h, asDouble_of_le (by rwa [Int.natAbs_neg])]
    rfl

theorem opposite_parts (real lateral : Outcome ℤ) :
    (do return (⟨← real.map (- ·), ← lateral.map (- ·)⟩ : Cartesian ℤ)) =
      (do return (⟨← real, ← lateral⟩ : Cartesian ℤ)).map opposite := by
  cases real with
  | error f => rfl
  | ok x => cases lateral <;> rfl

theorem toCartesian_toNegative (z : IntScalar) :
    z.toNegative.toCartesian = z.toCartesian.map opposite := by
  unfold toCartesian toNegative
  simp only
  -- on the axes the length is a part itself
  split_ifs
  · rfl
  · rfl
  · rfl
  · rfl
  · cases asRadians z.degrees with
    | error f => rfl
    | ok radians =>
        rw [asDouble_neg]
        cases hlength : asDouble z.length with
        | error f => rfl
        | ok length =>
            obtain ⟨-, rfl⟩ := eq_of_asDouble hlength
            have hparts := opposite_parts (asInteger (Double.ofInt z.length * radians.cos))
              (asInteger (Double.ofInt z.length * radians.sin))
            rw [← asInteger_part_neg, ← asInteger_part_neg] at hparts
            exact hparts

theorem sub_opposite (a b : Cartesian ℤ) : a - b = a + opposite b := by
  have hparts : a - b = ⟨a.real - b.real, a.lateral - b.lateral⟩ := rfl
  rw [hparts, Int.sub_eq_add_neg, Int.sub_eq_add_neg]
  rfl

theorem sub_eq_add (z w : IntScalar) : z.sub w = z.add w.toNegative := by
  rw [sub, add, toCartesian_toNegative]
  cases z.toCartesian with
  | error f => rfl
  | ok a =>
      cases w.toCartesian with
      | error f => rfl
      | ok b =>
          show ofCartesian (a - b) = ofCartesian (a + opposite b)
          rw [sub_opposite]

end IntScalar

/-! ## Differences over lists -/

namespace Value

variable {op op' : BinaryOperation} {f : Scalar → Scalar} {v w : Value}
  {items others : List Value}

theorem collect_congr {g g' : Value → Outcome Value} (h : ∀ v ∈ items, g v = g' v) :
    collect g items = collect g' items := by
  induction items with
  | nil => rfl
  | cons item items ih =>
      rw [collect, collect, h item List.mem_cons_self,
        ih fun v hv => h v (List.mem_cons_of_mem item hv)]

theorem collect_map (g : Value → Outcome Value) (k : Value → Value) (items : List Value) :
    collect g (items.map k) = collect (fun v => g (k v)) items := by
  induction items with
  | nil => rfl
  | cons item items ih => rw [List.map_cons, collect, collect, ih]

theorem cross_congr {g g' : Value → Value → Outcome Value} {k : Value → Value}
    (h : ∀ v ∈ items, ∀ w ∈ others, g v w = g' v (k w)) :
    cross (items.map g) others = cross (items.map g') (others.map k) := by
  induction items with
  | nil => rfl
  | cons item items ih =>
      have hrow : collect (g item) others = collect (g' item) (others.map k) := by
        rw [collect_map]
        exact collect_congr (h item List.mem_cons_self)
      rw [List.map_cons, List.map_cons, cross, cross, hrow,
        ih fun v hv => h v (List.mem_cons_of_mem item hv)]

/-- The one operation does to the scalars on the right what the other does to their images. -/
def AgreesAfter (f : Scalar → Scalar) (op op' : BinaryOperation) (v w : Value) : Prop :=
  ∀ x y, some x ∈ v.leaves → some y ∈ w.leaves → op.apply x y = op'.apply x (f y)

theorem AgreesAfter.list_left (h : AgreesAfter f op op' (list items) w) (hv : v ∈ items) :
    AgreesAfter f op op' v w := by
  intro x y hx
  apply h x y
  rw [leaves_list]
  exact List.mem_flatMap_of_mem hv hx

theorem AgreesAfter.list_right (h : AgreesAfter f op op' v (list others)) (hw : w ∈ others) :
    AgreesAfter f op op' v w := by
  intro x y hx hy
  apply h x y hx
  rw [leaves_list]
  exact List.mem_flatMap_of_mem hw hy

theorem meetScalar_mapLeaves {z : Scalar} (h : AgreesAfter f op op' (scalar z) w) :
    meetScalar op z w = meetScalar op' z (w.mapLeaves f) := by
  induction w using Value.induct with
  | scalar y =>
      rw [mapLeaves, meetScalar, meetScalar, h z y (by simp) (by simp)]
  | list items ih =>
      rw [mapLeaves, mapItems_eq_map, meetScalar, meetScalar, meetScalarItems_eq_collect,
        meetScalarItems_eq_collect, collect_map,
        collect_congr fun item hitem => ih item hitem (h.list_right hitem)]
  | impossible => rfl

theorem meetImpossible_mapLeaves (f : Scalar → Scalar) (w : Value) :
    (w.mapLeaves f).meetImpossible = w.meetImpossible := by
  induction w using Value.induct with
  | scalar y => rfl
  | list items ih =>
      rw [mapLeaves, mapItems_eq_map, meetImpossible, meetImpossible, meetImpossibleItems_eq_map,
        meetImpossibleItems_eq_map, List.map_map]
      exact congrArg list (List.map_congr_left ih)
  | impossible => rfl

/-- Operations that agree on scalars agree when they are spread over lists. -/
theorem broadcast_mapLeaves (h : AgreesAfter f op op' v w) :
    broadcast op v w = broadcast op' v (w.mapLeaves f) := by
  induction v using Value.induct generalizing w with
  | scalar z => exact meetScalar_mapLeaves h
  | impossible => exact congrArg Except.ok (meetImpossible_mapLeaves f w).symm
  | list items ih =>
      have hcolumn : collectAt w (items.map (broadcast op)) =
          collectAt (w.mapLeaves f) (items.map (broadcast op')) := by
        rw [collectAt_map, collectAt_map]
        exact collect_congr fun v hv => ih v hv (h.list_left hv)
      rw [broadcast, broadcast, broadcastItems_eq_map, broadcastItems_eq_map]
      cases w with
      | scalar y =>
          rw [mapLeaves] at hcolumn ⊢
          simp only [hcolumn]
      | impossible =>
          rw [mapLeaves] at hcolumn ⊢
          simp only [hcolumn]
      | list others =>
          have hcells := cross_congr (k := mapLeaves f) fun v hv w hw =>
            ih v hv ((h.list_left hv).list_right hw)
          simp only [mapLeaves, mapItems_eq_map, hcells]

/-- No leaf is of the float kind: each is an integer or impossible. -/
def IsFloatFree (v : Value) : Prop := ∀ z, some (.float z) ∉ v.leaves

end Value

/-- The difference of two values without floats is the sum with the negative: the same value,
with the same lengths and angles, or the same failure. -/
theorem sub_eq_add_toNegative (v w : Value) (hv : v.IsFloatFree) (hw : w.IsFloatFree) :
    v.sub w = v.add w.toNegative := by
  apply Value.broadcast_mapLeaves
  intro x y hx hy
  cases x with
  | float z => exact absurd hx (hv z)
  | integer z =>
      cases y with
      | float w => exact absurd hy (hw w)
      | integer w =>
          show (z.sub w).bind _ = (z.add w.toNegative).bind _
          rw [IntScalar.sub_eq_add]

/-- A list with an impossible value in it, less a list of a negative length off the axes and
one on the lateral axis: the two ways come to one list of four. -/
theorem sub_eq_add_toNegative_uneven :
    let v : Value := .list [.integer ⟨3, 0⟩, .list [.impossible]]
    let w : Value := .list [.integer ⟨-5, 30⟩, .list [.integer ⟨7, 90⟩]]
    let difference : Value := .list [.integer ⟨7, 16⟩, .list [.integer ⟨7, -67⟩],
      .list [.impossible], .list [.impossible]]
    v.IsFloatFree ∧ w.IsFloatFree ∧ v.sub w = .ok difference ∧
      v.add w.toNegative = .ok difference := by
  intro v w difference
  have hv : v.IsFloatFree := by
    intro z hz
    simp [v, Value.integer] at hz
  have hw : w.IsFloatFree := by
    intro z hz
    simp [w, Value.integer] at hz
  obtain ⟨hfirst, hsecond⟩ : IntScalar.sub ⟨3, 0⟩ ⟨-5, 30⟩ = .ok ⟨7, 16⟩ ∧
      IntScalar.sub ⟨3, 0⟩ ⟨7, 90⟩ = .ok ⟨7, -67⟩ := by decide +kernel
  have hdifference : v.sub w = .ok difference := by
    simp only [v, w, Value.sub, Value.integer, Value.broadcast, Value.broadcastItems, Value.cross,
      Value.collect, Value.meetScalar, Value.meetScalarItems, BinaryOperation.apply,
      BinaryOperation.sub, hfirst, hsecond]
    rfl
  refine ⟨hv, hw, hdifference, ?_⟩
  rw [← sub_eq_add_toNegative v w hv hw]
  exact hdifference

end PolarCalc
