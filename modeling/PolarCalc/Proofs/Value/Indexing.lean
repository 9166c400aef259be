import Mathlib.Data.List.InsertIdx
import PolarCalc.Builtin
import PolarCalc.Proofs.Double.Angle
import PolarCalc.Proofs.Integer.Conversion
/-!
# Positions in lists

The builtins of lists share one reading of an index: a whole number of either kind,
from minus the length up to the length, negative ones counted from the end.  In that range
an item is found, and taken out, at one and the same position; every other index is
refused, unless it is too large to be looked at as a double.
-/

namespace PolarCalc

/-! ## Whole numbers as floats -/

namespace Double

variable {s : Bool} {u n : ℕ} {i : ℤ}

theorem finite_mul_one (fits : Fits u) : finite s u fits * one = finite s u fits := by
  show round (s ^^ false) (u * oneUnits) oneUnits = _
  rw [Bool.xor_false]
  exact round_of_fits oneUnits_pos fits

theorem exists_whole {x : Double} (hx : x.isFinite = true) (h : x.toRat = i) :
    ∃ s u fits, x = .finite s u fits ∧ u = i.natAbs * oneUnits ∧ signed s i.natAbs = i := by
  cases x with
  | nan => cases hx
  | infinite s => cases hx
  | finite s u fits =>
      have hone : (oneUnits : ℤ) ≠ 0 := Int.natCast_ne_zero.2 oneUnits_pos.ne'
      have hunits : signed s u = i * oneUnits := by
        rw [toRat, div_eq_iff cast_oneUnits_pos.ne'] at h
        exact_mod_cast h
      have habs : u = i.natAbs * oneUnits := by
        rw [← natAbs_signed s u, hunits, Int.natAbs_mul, Int.natAbs_natCast]
      refine ⟨s, u, fits, rfl, habs, Int.eq_of_mul_eq_mul_right hone ?_⟩
      rw [← signed_mul, ← habs, hunits]

end Double

namespace FloatScalar

theorem exists_tolerance :
    ∃ t fits, tolerance = .finite false t fits ∧ t ≤ Double.oneUnits := by
  obtain ⟨t, fits, htolerance, ht⟩ : ∃ t, Double.Fits t ∧ tolerance = Double.ofUnits false t ∧
      t ≤ Double.oneUnits :=
    ⟨Double.nearestUnits (1 <<< Double.unitBits) (10 ^ 12), by decide +kernel⟩
  exact ⟨t, fits, htolerance.trans (Double.ofUnits_of_fits fits), ht⟩

theorem lt_tolerance_mul {s : Bool} {u : ℕ} (fits : Double.Fits u) (hu : Double.oneUnits ≤ u) :
    Double.lt (Double.finite s u fits).abs
      (tolerance * Double.max .one (Double.finite s u fits).abs) = false := by
  obtain ⟨t, htolerance, heq, ht⟩ := exists_tolerance
  have hmax : Double.max .one (Double.finite s u fits).abs = .finite false u fits := by
    have hlt : Double.lt .one (.finite false u fits) = decide ((Double.oneUnits : ℤ) < u) := rfl
    rw [Double.max, Double.abs, hlt]
    rcases hu.lt_or_eq with hlt | heq
    · rw [if_pos (decide_eq_true (by exact_mod_cast hlt))]
    · rw [if_neg (by simp [heq]), Double.one]
      congr 1
  have hproduct : tolerance * Double.finite false u fits =
      Double.ofUnits false (Double.nearestUnits (t * u) Double.oneUnits) := by
    rw [heq]
    rfl
  have hone := Double.oneUnits_pos
  have hle : Double.nearestUnits (t * u) Double.oneUnits ≤ u := by
    apply Double.nearestUnits_le_of_significant hone fits.1
    rw [Nat.mul_comm]
    exact Nat.mul_le_mul_left u ht
  have hfits : Double.Fits (Double.nearestUnits (t * u) Double.oneUnits) :=
    ⟨Double.significant_nearestUnits hone, hle.trans_lt fits.2⟩
  rw [hmax, hproduct, Double.ofUnits_of_fits hfits]
  exact decide_eq_false (by simpa [signed] using hle)

theorem snap_zero (limit : Double) : snap limit .zero = .zero := by
  unfold snap
  split <;> rfl

/-- The cartesian parts of a whole number are the number itself and zero; only a zero may
lose its sign. -/
theorem cleanCartesian_whole (s : Bool) {u : ℕ} (fits : Double.Fits u)
    (hu : u % Double.oneUnits = 0) :
    ∃ t, (⟨.finite s u fits, .zero⟩ : FloatScalar).cleanCartesian = ⟨.finite t u fits, .zero⟩ ∧
      (u ≠ 0 → t = s) := by
  have hone : Double.one.isZero = false := Double.isZero_finite_eq_false.2 Double.oneUnits_pos.ne'
  have hzero : Double.zero.isZero = true := rfl
  have hexact : (⟨.finite s u fits, .zero⟩ : FloatScalar).toCartesian =
      ⟨.finite s u fits, .zero⟩ := by
    rw [toCartesian, Double.angleLaws.cosine_zero, Double.angleLaws.sine_zero, project, project,
      hone, hzero, Double.finite_mul_one]
    rfl
  simp only [cleanCartesian, hexact, snap_zero]
  rcases Nat.eq_zero_or_pos u with rfl | hpos
  · unfold snap
    split
    · exact ⟨false, rfl, fun h => absurd rfl h⟩
    · exact ⟨s, rfl, fun h => absurd rfl h⟩
  · have hle : Double.oneUnits ≤ u := Nat.le_of_dvd hpos (Nat.dvd_of_mod_eq_zero hu)
    rw [snap, lt_tolerance_mul fits hle]
    exact ⟨s, rfl, fun _ => rfl⟩

end FloatScalar

/-! ## Indices -/

/-- A value that is given for the index `i`: in the float kind a double that holds it
exactly, or a scalar that is cleaned up to one; in the integer kind a scalar with these
cartesian parts. -/
inductive Value.IsIndex (i : ℤ) : Value → Prop
  | real {x : Double} (hfinite : x.isFinite = true) (hx : x.toRat = i) : IsIndex i (.ofReal x)
  | float {z : FloatScalar} (hfinite : z.cleanCartesian.real.isFinite = true)
      (hreal : z.cleanCartesian.real.toRat = i) (hlateral : z.cleanCartesian.lateral.isZero = true) :
      IsIndex i (.float z)
  | integer {z : IntScalar} (hz : z.toCartesian = .ok ⟨i, 0⟩) : IsIndex i (.integer z)

/-- The index counts from the front of a list of the given length, or, if it is negative,
from its end. -/
def InRange (length : ℕ) (i : ℤ) : Prop := -(length : ℤ) ≤ i ∧ i < length

/-- The position that an index means. -/
def position (length : ℕ) (i : ℤ) : ℕ := (if i < 0 then i + length else i).toNat

/-- Where the item stood that is at position `k` once the item at `taken` is gone. -/
def standsAt (taken k : ℕ) : ℕ := if k < taken then k else k + 1

section Positions

variable {length : ℕ} {i : ℤ} {b : Builtin} {p : Value}

theorem InRange.position_lt (h : InRange length i) : position length i < length := by
  obtain ⟨hlow, hhigh⟩ := h
  unfold position
  split <;> omega

theorem position_of_nonneg (h : 0 ≤ i) : position length i = i.toNat := by
  rw [position, if_neg h.not_gt]

theorem InRange.natAbs_le (h : InRange length i) : i.natAbs ≤ length := by
  obtain ⟨hlow, hhigh⟩ := h
  omega

theorem remainder_of_inRange (h : InRange length i) :
    IntScalar.remainder i length = .ok (position length i : ℤ) := by
  obtain ⟨hlow, hhigh⟩ := h
  have hpos : (0 : ℤ) < length := by omega
  rw [IntScalar.remainder_of_ne hpos.ne', Int.fmod_eq_emod_of_nonneg _ hpos.le, position]
  split
  · rw [← Int.add_emod_right, Int.emod_eq_of_lt (by omega) (by omega)]
    rw [Int.toNat_of_nonneg (by omega)]
  · rw [Int.emod_eq_of_lt (by omega) hhigh, Int.toNat_of_nonneg (by omega)]

namespace Builtin

theorem expectInteger_integer {z : IntScalar} (hz : z.toCartesian = .ok ⟨i, 0⟩) :
    expectInteger b (.integer z) = (IntScalar.asDouble i).bind fun _ => .ok i := by
  simp only [expectInteger, Value.integer, hz]
  rfl

theorem expectInteger_float {z : FloatScalar} (hfinite : z.cleanCartesian.real.isFinite = true)
    (hreal : z.cleanCartesian.real.toRat = i) (hlateral : z.cleanCartesian.lateral.isZero = true) :
    expectInteger b (.float z) = .ok i := by
  obtain ⟨s, u, fits, hparts, hu, hsigned⟩ := Double.exists_whole hfinite hreal
  have hwhole : u % Double.oneUnits = 0 := by rw [hu, Nat.mul_mod_left]
  have hquotient : u / Double.oneUnits = i.natAbs := by
    rw [hu, Nat.mul_div_cancel _ Double.oneUnits_pos]
  have hinteger : z.cleanCartesian.real.isInteger = true := by
    rw [hparts]
    exact beq_iff_eq.2 hwhole
  have htruncate : z.cleanCartesian.real.truncate? = some i := by
    rw [hparts, Double.truncate?, hquotient, hsigned]
  simp only [expectInteger, Value.float, hlateral, hinteger, htruncate]
  rfl

theorem expectInteger_real {x : Double} (hfinite : x.isFinite = true) (hx : x.toRat = i) :
    expectInteger b (.ofReal x) = .ok i := by
  obtain ⟨s, u, fits, rfl, hu, -⟩ := Double.exists_whole hfinite hx
  obtain ⟨t, hparts, hsign⟩ := FloatScalar.cleanCartesian_whole s fits
    (by rw [hu, Nat.mul_mod_left])
  have hclean : (Double.finite t u fits).toRat = i := by
    rw [← hx]
    rcases Nat.eq_zero_or_pos u with rfl | hpos
    · rw [Double.toRat_finite_zero, Double.toRat_finite_zero]
    · rw [hsign hpos.ne']
  exact expectInteger_float (by rw [hparts]; rfl) (by rw [hparts, hclean]) (by rw [hparts]; rfl)

theorem expectInteger_of_isIndex (h : p.IsIndex i) (hi : i.natAbs < Double.rangeLimit) :
    expectInteger b p = .ok i := by
  cases h with
  | real hfinite hx => exact expectInteger_real hfinite hx
  | float hfinite hreal hlateral => exact expectInteger_float hfinite hreal hlateral
  | integer hz =>
      rw [expectInteger_integer hz, IntScalar.asDouble_of_lt hi]
      rfl

theorem expectInteger_of_le {z : IntScalar} (hz : z.toCartesian = .ok ⟨i, 0⟩)
    (hi : Double.rangeLimit ≤ i.natAbs) : expectInteger b (.integer z) = .error .overflow := by
  rw [expectInteger_integer hz, IntScalar.asDouble_of_le hi]
  rfl

theorem expectIndex_of_inRange (hp : expectInteger b p = .ok i) (hi : InRange length i) :
    expectIndex b p length = .ok (position length i) := by
  rw [expectIndex, hp]
  refine (if_pos hi).trans ?_
  rw [remainder_of_inRange hi]
  rfl

theorem expectIndex_of_not_inRange (hp : expectInteger b p = .ok i) (hi : ¬ InRange length i) :
    expectIndex b p length = refuse (.indexOutOfRange b.name i length) := by
  rw [expectIndex, hp]
  exact if_neg hi

/-! ## Calls of the list builtins -/

variable {items : List Value} {item : Value}

theorem apply_idx_eq (items : List Value) (p : Value) :
    apply .idx [.list items, p] =
      (expectIndex .idx p items.length).bind fun k => orFail .crash items[k]? := rfl

theorem apply_del_eq (items : List Value) (p : Value) :
    apply .del [.list items, p] =
      (expectIndex .del p items.length).bind fun k => .ok (.list (items.eraseIdx k)) := rfl

theorem apply_idx (hp : expectInteger .idx p = .ok i) (hi : InRange items.length i) :
    apply .idx [.list items, p] =
      .ok (items.get ⟨position items.length i, hi.position_lt⟩) := by
  rw [apply_idx_eq, expectIndex_of_inRange hp hi]
  show orFail .crash items[position items.length i]? = _
  rw [List.getElem?_eq_getElem hi.position_lt]
  rfl

theorem apply_del (hp : expectInteger .del p = .ok i) (hi : InRange items.length i) :
    apply .del [.list items, p] = .ok (.list (items.eraseIdx (position items.length i))) := by
  rw [apply_del_eq, expectIndex_of_inRange hp hi]
  rfl

/-- An index that fits a double finds and takes out an item if it is in range, and is
refused as a mismatch if it is not; a larger one is a fault, wherever the list ends. -/
theorem apply_at_integer (hb : b = .idx ∨ b = .del) (items : List Value) {z : IntScalar}
    (hz : z.toCartesian = .ok ⟨i, 0⟩) :
    let refusal : EvalError := .indexOutOfRange b.name i items.length
    (i.natAbs < Double.rangeLimit →
      (InRange items.length i → ∃ v, b.apply [.list items, .integer z] = .ok v) ∧
      (¬ InRange items.length i →
        b.apply [.list items, .integer z] = refuse refusal ∧ refusal.category = .mismatch)) ∧
    (Double.rangeLimit ≤ i.natAbs → b.apply [.list items, .integer z] = .error .overflow) := by
  intro refusal
  constructor
  · intro hfits
    have hp (c : Builtin) : expectInteger c (.integer z) = .ok i :=
      expectInteger_of_isIndex (.integer hz) hfits
    constructor
    · intro hi
      rcases hb with rfl | rfl
      · exact ⟨_, apply_idx (hp .idx) hi⟩
      · exact ⟨_, apply_del (hp .del) hi⟩
    · intro hi
      refine ⟨?_, rfl⟩
      rcases hb with rfl | rfl
      · rw [apply_idx_eq, expectIndex_of_not_inRange (hp .idx) hi]
        rfl
      · rw [apply_del_eq, expectIndex_of_not_inRange (hp .del) hi]
        rfl
  · intro hlarge
    have hindex (c : Builtin) : expectIndex c (.integer z) items.length = .error .overflow := by
      rw [expectIndex, expectInteger_of_le hz hlarge]
      rfl
    rcases hb with rfl | rfl
    · rw [apply_idx_eq, hindex]
      rfl
    · rw [apply_del_eq, hindex]
      rfl

/-- The empty list has no item at zero, whatever the angle of the zero. -/
theorem apply_at_integer_empty :
    let z : IntScalar := ⟨0, 45⟩
    let refusal : EvalError := .indexOutOfRange "del" 0 0
    (Builtin.del = .idx ∨ Builtin.del = .del) ∧ z.toCartesian = .ok ⟨0, 0⟩ ∧
      ¬ InRange ([] : List Value).length 0 ∧
      apply .del [.list [], .integer z] = refuse refusal ∧ refusal.category = .mismatch := by
  intro z refusal
  have hz : z.toCartesian = .ok ⟨0, 0⟩ := by decide +kernel
  have hout : ¬ InRange ([] : List Value).length 0 := fun h => absurd h.2 (by decide)
  have hsmall : (0 : ℤ).natAbs < Double.rangeLimit := Double.lt_rangeLimit (by decide)
  have hrefused := ((apply_at_integer (.inr rfl) [] hz).1 hsmall).2 hout
  exact ⟨.inr rfl, hz, hout, hrefused⟩

/-- At 10⁴⁰⁰ a list with one item is not refused an item. -/
theorem apply_idx_faults :
    let z : IntScalar := ⟨10 ^ 400, 0⟩
    z.toCartesian = .ok ⟨10 ^ 400, 0⟩ ∧ ¬ InRange 1 (10 ^ 400) ∧
      apply .idx [.list [.ofInt 1], .integer z] = .error .overflow := by
  intro z
  have hz : z.toCartesian = .ok ⟨10 ^ 400, 0⟩ := by decide +kernel
  have hlarge : Double.rangeLimit ≤ ((10 : ℤ) ^ 400).natAbs := by decide +kernel
  refine ⟨hz, fun h => absurd h.2 (by decide +kernel), ?_⟩
  rw [apply_idx_eq, expectIndex, expectInteger_of_le hz hlarge]
  rfl

/-! ## Laws of lists -/

theorem position_last (length : ℕ) : position (length + 1) (-1) = length := by
  rw [position, if_pos (by omega)]
  omega

theorem position_add_length (hi : i < 0) (hrange : InRange length i) :
    position length (i + length) = position length i := by
  obtain ⟨hlow, -⟩ := hrange
  rw [position, position, if_pos hi, if_neg (by omega)]

/-- An item that is appended is the last one, and what is left without it is the list. -/
theorem apply_last {last : Value} (items : List Value) (item : Value) (h : last.IsIndex (-1)) :
    apply .idx [.list (items ++ [item]), last] = .ok item ∧
      apply .del [.list (items ++ [item]), last] = .ok (.list items) := by
  have hfits : (-1 : ℤ).natAbs < Double.rangeLimit := Double.lt_rangeLimit (by decide)
  have hrange : InRange (items ++ [item]).length (-1) := by
    rw [List.length_append, List.length_singleton]
    constructor <;> omega
  have hposition : position (items ++ [item]).length (-1) = items.length := by
    rw [List.length_append, List.length_singleton, position_last]
  constructor
  · rw [apply_idx (expectInteger_of_isIndex h hfits) hrange]
    simp only [hposition, List.get_eq_getElem, List.getElem_concat_length]
  · rw [apply_del (expectInteger_of_isIndex h hfits) hrange, hposition,
      List.eraseIdx_append_of_length_le le_rfl, Nat.sub_self, List.eraseIdx_cons_zero,
      List.append_nil]

variable (hsize : items.length < Double.rangeLimit)

include hsize

theorem apply_negative {q : Value} (hi : i < 0) (hrange : InRange items.length i)
    (hp : p.IsIndex i) (hq : q.IsIndex (i + items.length)) :
    apply .idx [.list items, p] = apply .idx [.list items, q] ∧
      apply .del [.list items, p] = apply .del [.list items, q] := by
  have hrange' : InRange items.length (i + items.length) := by
    obtain ⟨hlow, -⟩ := hrange
    constructor <;> omega
  have hindex (b : Builtin) : expectIndex b p items.length = expectIndex b q items.length := by
    have hp' := expectInteger_of_isIndex (b := b) hp (hrange.natAbs_le.trans_lt hsize)
    have hq' := expectInteger_of_isIndex (b := b) hq (hrange'.natAbs_le.trans_lt hsize)
    rw [expectIndex_of_inRange hp' hrange, expectIndex_of_inRange hq' hrange',
      position_add_length hi hrange]
  rw [apply_idx_eq, apply_idx_eq, apply_del_eq, apply_del_eq, hindex, hindex]
  exact ⟨rfl, rfl⟩

/-- What is found at an index is what is taken out there. -/
theorem apply_taken (hrange : InRange items.length i) (hp : p.IsIndex i) :
    ∃ item rest, items[position items.length i]? = some item ∧
      apply .idx [.list items, p] = .ok item ∧
      apply .del [.list items, p] = .ok (.list rest) ∧
      rest = items.eraseIdx (position items.length i) ∧
      rest.insertIdx (position items.length i) item = items := by
  have hinteger (b : Builtin) : expectInteger b p = .ok i :=
    expectInteger_of_isIndex hp (hrange.natAbs_le.trans_lt hsize)
  exact ⟨_, _, List.getElem?_eq_getElem hrange.position_lt, apply_idx (hinteger .idx) hrange,
    apply_del (hinteger .del) hrange, rfl, List.insertIdx_eraseIdx_getElem hrange.position_lt⟩

/-- The items that are left keep their order: those before the one taken out stand where they
stood, those behind it one place nearer to the front. -/
theorem apply_left {k : ℕ} {j : ℤ} {q r : Value} (hk : k < items.length)
    (hrange : InRange (items.eraseIdx k).length j) (hq : q.IsIndex j)
    (hr : r.IsIndex (standsAt k (position (items.eraseIdx k).length j))) :
    apply .idx [.list (items.eraseIdx k), q] = apply .idx [.list items, r] := by
  have hlength := List.length_eraseIdx_of_lt hk
  have hj := hrange.position_lt
  have hrange' : InRange items.length (standsAt k (position (items.eraseIdx k).length j)) := by
    unfold standsAt
    constructor <;> split <;> omega
  rw [apply_idx (expectInteger_of_isIndex hq (hrange.natAbs_le.trans_lt (by omega))) hrange,
    apply_idx (expectInteger_of_isIndex hr (hrange'.natAbs_le.trans_lt hsize)) hrange']
  simp only [List.get_eq_getElem, List.getElem_eraseIdx, position_of_nonneg (Int.natCast_nonneg _),
    Int.toNat_natCast, standsAt]
  split <;> rfl

/-- The builtins of lists fit together.  No list is so long that its length is out of the
range of doubles. -/
theorem list_laws (v : Value) :
    (∃ longer, apply .app [.list items, v] = .ok (.list longer) ∧
      apply .len [.list longer] = .ok (.ofInt (items.length + 1)) ∧
      ∀ last : Value, last.IsIndex (-1) →
        apply .idx [.list longer, last] = .ok v ∧
        apply .del [.list longer, last] = .ok (.list items)) ∧
    ∀ (i : ℤ) (p : Value), InRange items.length i → p.IsIndex i →
      (i < 0 → ∀ q : Value, q.IsIndex (i + items.length) →
        apply .idx [.list items, p] = apply .idx [.list items, q] ∧
        apply .del [.list items, p] = apply .del [.list items, q]) ∧
      ∃ item rest, items[position items.length i]? = some item ∧
        apply .idx [.list items, p] = .ok item ∧
        apply .del [.list items, p] = .ok (.list rest) ∧
        apply .len [.list rest] = .ok (.ofInt (items.length - 1)) ∧
        rest.insertIdx (position items.length i) item = items ∧
        ∀ (j : ℤ) (q r : Value), InRange rest.length j → q.IsIndex j →
          r.IsIndex (standsAt (position items.length i) (position rest.length j)) →
          ∃ other, apply .idx [.list rest, q] = .ok other ∧
            apply .idx [.list items, r] = .ok other := by
  constructor
  · refine ⟨items ++ [v], rfl, ?_, fun last hlast => apply_last items v hlast⟩
    show Except.ok (Value.ofInt (items ++ [v]).length) = _
    rw [List.length_append, List.length_singleton, Nat.cast_succ]
  · intro i p hrange hp
    refine ⟨fun hi q hq => apply_negative hsize hi hrange hp hq, ?_⟩
    obtain ⟨item, rest, hitem, hidx, hdel, rfl, hinsert⟩ := apply_taken hsize hrange hp
    have hlength := List.length_eraseIdx_of_lt hrange.position_lt
    have hpos : 1 ≤ items.length := Nat.one_le_of_lt hrange.position_lt
    refine ⟨item, _, hitem, hidx, hdel, ?_, hinsert, ?_⟩
    · show Except.ok (Value.ofInt (items.eraseIdx _).length) = _
      rw [hlength, Nat.cast_sub hpos, Nat.cast_one]
    · intro j q r hj hq hr
      have hinteger : expectInteger .idx q = .ok j :=
        expectInteger_of_isIndex hq (hj.natAbs_le.trans_lt (by omega))
      refine ⟨_, apply_idx hinteger hj, ?_⟩
      rw [← apply_left hsize hrange.position_lt hj hq hr, apply_idx hinteger hj]

omit hsize

/-- A nested list is the last item, minus two is the place of one, and behind the item that is
taken out the last one is still the last. -/
theorem list_laws_nested :
    let nested : List Value := [.ofInt 1, .list [.ofInt 2], .ofInt 3]
    let minusOne : Value := .ofReal (-.one)
    let minusTwo : Value := .integer ⟨2, 180⟩
    (nested.length < Double.rangeLimit ∧ minusOne.IsIndex (-1) ∧ minusTwo.IsIndex (-2) ∧
      (Value.ofReal .one).IsIndex 1) ∧
    (∃ longer, apply .app [.list nested, .list nested] = .ok (.list longer) ∧
      apply .idx [.list longer, minusOne] = .ok (.list nested)) ∧
    apply .idx [.list nested, minusTwo] = apply .idx [.list nested, .ofReal .one] ∧
    ∃ rest other, apply .del [.list nested, minusTwo] = .ok (.list rest) ∧
      apply .idx [.list rest, minusOne] = .ok other ∧
      apply .idx [.list nested, .ofInt 2] = .ok other := by
  intro nested minusOne minusTwo
  have hsize : nested.length < Double.rangeLimit := Double.lt_rangeLimit (by decide)
  have hone : (Value.ofReal .one).IsIndex 1 := by
    refine .real rfl ?_
    rw [Double.one, Double.toRat, signed, if_neg Bool.false_ne_true, Int.cast_natCast,
      div_self Double.cast_oneUnits_pos.ne', Int.cast_one]
  have hminusOne : minusOne.IsIndex (-1) := by
    refine .real rfl ?_
    rw [Double.one, Double.neg_finite, Double.toRat, signed, if_pos Bool.not_false, Int.cast_neg,
      Int.cast_natCast, neg_div, div_self Double.cast_oneUnits_pos.ne', Int.cast_neg, Int.cast_one]
  have hminusTwo : minusTwo.IsIndex (-2) := .integer (by decide +kernel)
  have htwo : (Value.ofInt 2).IsIndex 2 := .integer (by decide +kernel)
  have hrange : InRange nested.length (-2) := by constructor <;> decide
  obtain ⟨⟨longer, happ, -, hlast⟩, hlaws⟩ := list_laws hsize (.list nested)
  obtain ⟨hnegative, item, rest, -, -, hdel, hlen, hinsert, hother⟩ :=
    hlaws (-2) minusTwo hrange hminusTwo
  have hrest : rest.length = 2 := by
    have hlength : Value.ofInt rest.length = .ofInt 2 := Except.ok.inj hlen
    simp only [Value.ofInt, Value.integer, Value.scalar.injEq, Scalar.integer.injEq,
      IntScalar.mk.injEq, and_true] at hlength
    exact_mod_cast hlength
  have hrange' : InRange rest.length (-1) := by rw [hrest]; constructor <;> decide
  obtain ⟨other, hleft, hright⟩ := hother (-1) minusOne (.ofInt 2) hrange' hminusOne (by
    rw [hrest]
    exact htwo)
  exact ⟨⟨hsize, hminusOne, hminusTwo, hone⟩, ⟨longer, happ, (hlast _ hminusOne).1⟩,
    (hnegative (by decide) _ hone).1, rest, other, hdel, hleft, hright⟩

end Builtin

end Positions

end PolarCalc
