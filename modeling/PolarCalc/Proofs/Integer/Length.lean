import PolarCalc.Proofs.Double.Angle
import PolarCalc.Proofs.Integer.Conversion
/-!
# Lengths of sums

A sum or a difference of integers is taken by its cartesian parts and put back into polar
form.  The length is the root of the sum of their squares cut off downward, and so the
integer nearest to the root up to the middle between two integers and one less beyond it.
Only the angle can be missing: the quotient of the parts has to be in the range of doubles.
-/

namespace PolarCalc

/-- The square of the distance from the origin. -/
def Cartesian.square (c : Cartesian ℤ) : ℤ := c.real * c.real + c.lateral * c.lateral

/-- The quotient of the parts is out of the range of doubles. -/
def Cartesian.IsSteep (c : Cartesian ℤ) : Prop :=
  c.real ≠ 0 ∧ Double.rangeLimit * c.real.natAbs ≤ c.lateral.natAbs

/-- The integer nearest to the square root of `n`. -/
def IsNearestRoot (root n : ℤ) : Prop :=
  0 ≤ root ∧ 4 * n ≤ (2 * root + 1) ^ 2 ∧ (0 < root → (2 * root - 1) ^ 2 ≤ 4 * n)

instance (c : Cartesian ℤ) : Decidable c.IsSteep := inferInstanceAs (Decidable (_ ∧ _))

instance (root n : ℤ) : Decidable (IsNearestRoot root n) := inferInstanceAs (Decidable (_ ∧ _))

/-! ## Roots cut off downward -/

section Root

variable {root n : ℤ}

theorem isNearestRoot_iff (hroot : 0 ≤ root) (hlow : root ^ 2 ≤ n) :
    IsNearestRoot root n ↔ n ≤ root ^ 2 + root := by
  constructor
  · rintro ⟨-, hle, -⟩
    nlinarith
  · intro hmiddle
    refine ⟨hroot, ?_, fun hpos => ?_⟩ <;> nlinarith

theorem isNearestRoot_succ (hroot : 0 ≤ root) (hhigh : n < (root + 1) ^ 2)
    (hmiddle : root ^ 2 + root < n) : IsNearestRoot (root + 1) n := by
  refine ⟨by omega, ?_, fun _ => ?_⟩ <;> nlinarith

theorem Cartesian.square_nonneg (c : Cartesian ℤ) : 0 ≤ c.square :=
  add_nonneg (mul_self_nonneg _) (mul_self_nonneg _)

theorem floorSqrt_toNat_bounds (hn : 0 ≤ n) :
    (floorSqrt n.toNat : ℤ) ^ 2 ≤ n ∧ n < (floorSqrt n.toNat + 1 : ℤ) ^ 2 := by
  have hlow := floorSqrt_le n.toNat
  have hhigh := lt_succ_floorSqrt n.toNat
  generalize floorSqrt n.toNat = root at hlow hhigh ⊢
  obtain ⟨m, rfl⟩ := Int.eq_ofNat_of_zero_le hn
  rw [Int.toNat_natCast] at hlow hhigh
  rw [sq, sq]
  exact ⟨by exact_mod_cast hlow, by exact_mod_cast hhigh⟩

end Root

namespace IntScalar

variable {z w : IntScalar} {a b c : Cartesian ℤ}

/-! ## Angles -/

theorem isFinite_ofRatio_natAbs (negative : Bool) {num den : ℤ} (hden : den ≠ 0) :
    (Double.ofRatio negative num.natAbs den.natAbs).isFinite = true ↔
      num.natAbs < Double.rangeLimit * den.natAbs := by
  have hpos : (0 : ℚ) < den.natAbs := by exact_mod_cast Int.natAbs_pos.2 hden
  rw [Double.isFinite_ofRatio (Int.natAbs_pos.2 hden), div_lt_iff₀ hpos]
  exact_mod_cast Iff.rfl

theorem exists_ratio {num den : ℤ} (hden : den ≠ 0)
    (h : num.natAbs < Double.rangeLimit * den.natAbs) :
    ∃ x, ratio num den = .ok x ∧ x.isFinite = true := by
  have hfinite := (isFinite_ofRatio_natAbs (decide (num < 0) ^^ decide (den < 0)) hden).2 h
  refine ⟨_, ?_, hfinite⟩
  rw [ratio, if_neg hden]
  exact if_pos hfinite

theorem ratio_of_le {num den : ℤ} (hden : den ≠ 0)
    (h : Double.rangeLimit * den.natAbs ≤ num.natAbs) : ratio num den = .error .overflow := by
  rw [ratio, if_neg hden]
  exact if_neg fun hfinite => h.not_gt ((isFinite_ofRatio_natAbs _ hden).1 hfinite)

theorem angleDegrees_of_isSteep (h : c.IsSteep) : angleDegrees c = .error .overflow := by
  rw [angleDegrees, if_neg h.1, ratio_of_le h.1 h.2]
  rfl

/-- Every other pair has an angle, which is finite in degrees. -/
theorem exists_angleDegrees (h : ¬ c.IsSteep) : ∃ degrees, angleDegrees c = .ok degrees := by
  unfold angleDegrees
  split
  · exact ⟨180, rfl⟩
  · rename_i hreal
    obtain ⟨x, hratio, hfinite⟩ := exists_ratio hreal (not_le.1 fun hle => h ⟨hreal, hle⟩)
    obtain ⟨hright, hleft⟩ := Double.angleLaws.isFinite_degrees hfinite
    rw [hratio]
    simp only [bind, Except.bind]
    split
    · exact exists_asInteger hright
    · exact exists_asInteger hleft

/-! ## Sums -/

theorem ofCartesian_of_isSteep (h : c.IsSteep) : ofCartesian c = .error .overflow := by
  rw [ofCartesian, angleDegrees_of_isSteep h]
  rfl

theorem exists_ofCartesian (h : ¬ c.IsSteep) :
    ∃ s, ofCartesian c = .ok s ∧ s.length = floorSqrt c.square.toNat := by
  obtain ⟨degrees, hdegrees⟩ := exists_angleDegrees h
  refine ⟨⟨floorSqrt c.square.toNat, degrees⟩, ?_, rfl⟩
  rw [ofCartesian, hdegrees]
  rfl

/-- A sum or a difference has a length unless its angle is out of range.  The length is the
integer nearest to the root of the squared parts exactly if these are not beyond the middle
between two squares; from there on it is one less than the nearest. -/
theorem length_of_sum {o : Outcome IntScalar} (hz : z.toCartesian = .ok a)
    (hw : w.toCartesian = .ok b)
    (ho : (c = a + b ∧ o = z.add w) ∨ (c = a - b ∧ o = z.sub w)) :
    (c.IsSteep → o = .error .overflow) ∧
    (¬ c.IsSteep → ∃ s, o = .ok s ∧
      0 ≤ s.length ∧ s.length ^ 2 ≤ c.square ∧ c.square < (s.length + 1) ^ 2 ∧
      (IsNearestRoot s.length c.square ↔ c.square ≤ s.length ^ 2 + s.length) ∧
      (s.length ^ 2 + s.length < c.square → IsNearestRoot (s.length + 1) c.square)) := by
  have hresult : o = ofCartesian c := by
    rcases ho with ⟨rfl, rfl⟩ | ⟨rfl, rfl⟩
    · rw [IntScalar.add, hz, hw]
      rfl
    · rw [IntScalar.sub, hz, hw]
      rfl
  rw [hresult]
  refine ⟨ofCartesian_of_isSteep, fun hsteep => ?_⟩
  obtain ⟨s, hs, hlength⟩ := exists_ofCartesian hsteep
  obtain ⟨hlow, hhigh⟩ := floorSqrt_toNat_bounds c.square_nonneg
  rw [← hlength] at hlow hhigh
  have hroot : 0 ≤ s.length := hlength.symm ▸ Int.natCast_nonneg _
  exact ⟨s, hs, hroot, hlow, hhigh, isNearestRoot_iff hroot hlow, isNearestRoot_succ hroot hhigh⟩

/-- The hypotenuse of a right triangle with whole sides is exact. -/
theorem length_of_sum_hypotenuse :
    ∃ s, add ⟨3, 0⟩ ⟨4, 90⟩ = .ok s ∧ s.length = 5 ∧ IsNearestRoot s.length 25 := by
  have hz : toCartesian ⟨3, 0⟩ = .ok ⟨3, 0⟩ := rfl
  have hw : toCartesian ⟨4, 90⟩ = .ok ⟨0, 4⟩ := rfl
  obtain ⟨s, hs, -, -, -, hnearest, -⟩ :=
    (length_of_sum hz hw (.inl ⟨rfl, rfl⟩)).2 (by decide +kernel)
  obtain rfl : s = ⟨5, 53⟩ := by
    have hsum : add ⟨3, 0⟩ ⟨4, 90⟩ = .ok ⟨5, 53⟩ := by decide +kernel
    exact Except.ok.inj (hs.symm.trans hsum)
  exact ⟨⟨5, 53⟩, hs, rfl, hnearest.2 (by decide)⟩

/-- The root of eight is nearer to three, but two and two at a right angle give two. -/
theorem add_length_not_nearest :
    toCartesian ⟨2, 0⟩ = .ok ⟨2, 0⟩ ∧ toCartesian ⟨2, 90⟩ = .ok ⟨0, 2⟩ ∧
      add ⟨2, 0⟩ ⟨2, 90⟩ = .ok ⟨2, 45⟩ ∧
      (⟨2, 0⟩ + ⟨0, 2⟩ : Cartesian ℤ).square = 8 ∧ IsNearestRoot 3 8 ∧ ¬ IsNearestRoot 2 8 := by
  decide +kernel

end IntScalar

end PolarCalc
