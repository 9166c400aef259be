import PolarCalc.Proofs.Double.Range
import PolarCalc.Scalar.Integer
/-!
# Integers and doubles

An integer is converted to a double if it lies in the range of doubles, and a double to
an integer if it is finite.  Only zero is converted to zero.
-/

namespace PolarCalc.IntScalar

variable {n : ℤ} {x : Double}

theorem isFinite_ofInt : (Double.ofInt n).isFinite = true ↔ n.natAbs < Double.rangeLimit := by
  rw [Double.ofInt, Double.isFinite_ofRatio Nat.one_pos, Nat.cast_one, div_one]
  exact_mod_cast Iff.rfl

theorem asDouble_of_lt (h : n.natAbs < Double.rangeLimit) : asDouble n = .ok (Double.ofInt n) := by
  rw [asDouble, Double.ofInt?, if_pos (isFinite_ofInt.2 h)]
  rfl

theorem asDouble_of_le (h : Double.rangeLimit ≤ n.natAbs) : asDouble n = .error .overflow := by
  rw [asDouble, Double.ofInt?, if_neg fun hfinite => h.not_gt (isFinite_ofInt.1 hfinite)]
  rfl

theorem eq_of_asDouble (h : asDouble n = .ok x) :
    n.natAbs < Double.rangeLimit ∧ x = Double.ofInt n := by
  rcases lt_or_ge n.natAbs Double.rangeLimit with hlt | hge
  · rw [asDouble_of_lt hlt] at h
    exact ⟨hlt, (Except.ok.inj h).symm⟩
  · rw [asDouble_of_le hge] at h
    cases h

theorem isZero_ofInt : (Double.ofInt n).isZero = true ↔ n = 0 := by
  have hone : 0 < 2 ^ Double.unitBits := Nat.two_pow_pos _
  rw [Double.ofInt, Double.ofRatio, Double.isZero_round Nat.one_pos, Nat.shiftLeft_eq]
  constructor
  · intro hle
    by_contra hne
    have hscaled : 1 * 1 ≤ n.natAbs * 2 ^ Double.unitBits :=
      Nat.mul_le_mul (Int.natAbs_pos.2 hne) hone
    omega
  · rintro rfl
    simp

theorem exists_asInteger (h : x.isFinite = true) : ∃ n, asInteger x = .ok n := by
  cases x with
  | nan => cases h
  | infinite s => cases h
  | finite s u fits => exact ⟨_, rfl⟩

theorem asInteger_of_isZero (h : x.isZero = true) : asInteger x = .ok 0 := by
  obtain ⟨s, rfl⟩ := Double.eq_of_isZero h
  cases s <;> simp [asInteger, orFail, Double.nearestInt?, roundDiv, signed]

theorem asInteger_of_not_isFinite (h : x.isFinite = false) : asInteger x = .error .overflow := by
  cases x with
  | nan => rfl
  | infinite s => rfl
  | finite s u fits => cases h

end PolarCalc.IntScalar
