import PolarCalc.Proofs.Double.Circular
import PolarCalc.Proofs.Double.Range
/-!
# Angles and circular functions are finite

A finite double has a finite sine and cosine, at most two in magnitude, and a finite
arctangent.  The bounds are those of the series, too generous by far, and what is rounded
is not rounded beyond a power of two.
-/

namespace PolarCalc

/-! ## The series of the arctangent -/

theorem le_floorSqrt {m n : ℕ} (h : m * m ≤ n) : m ≤ floorSqrt n := by
  have hlt := h.trans_lt (lt_succ_floorSqrt n)
  have := Nat.mul_self_lt_mul_self_iff.1 hlt
  omega

namespace Series

variable {p : ℕ} {x : ℤ}

/-- The root that half an angle is taken with is at least one, and at least the argument. -/
theorem root_bounds (p : ℕ) (x : ℤ) :
    2 ^ p ≤ (floorSqrt (one p * one p + x * x).toNat : ℤ) ∧
      |x| ≤ (floorSqrt (one p * one p + x * x).toNat : ℤ) := by
  have hsquare : 0 ≤ x * x := mul_self_nonneg x
  have hone : 0 ≤ one p * one p := mul_self_nonneg _
  have hle (m : ℕ) (hm : (m : ℤ) * m ≤ one p * one p + x * x) :
      (m : ℤ) ≤ floorSqrt (one p * one p + x * x).toNat := by
    have hroot : m * m ≤ (one p * one p + x * x).toNat := by
      rw [Int.le_toNat (by omega)]
      exact_mod_cast hm
    exact_mod_cast le_floorSqrt hroot
  constructor
  · have hpow := hle (2 ^ p)
    push_cast at hpow
    rw [one_eq] at hpow ⊢
    exact hpow (by omega)
  · rw [Int.abs_eq_natAbs]
    apply hle
    rw [Int.natAbs_mul_self']
    omega

/-- The tangent of half an angle is at most one. -/
theorem abs_halve_le (p : ℕ) (x : ℤ) : |arctangentUnit.halve p x| ≤ 2 ^ p := by
  obtain ⟨hone, hroot⟩ := root_bounds p x
  have hpos : (0 : ℤ) < 2 ^ p := by positivity
  unfold arctangentUnit.halve
  generalize (floorSqrt (one p * one p + x * x).toNat : ℤ) = root at hone hroot ⊢
  rw [one_eq, Int.shiftLeft_eq]
  apply abs_ediv_le (by omega)
  rw [abs_mul, abs_of_pos hpos, mul_comm]
  exact mul_le_mul_of_nonneg_left (by omega) hpos.le

theorem abs_halve_le_half (hp : 0 < p) (hx : |x| ≤ 2 ^ p) :
    |arctangentUnit.halve p x| ≤ 2 ^ (p - 1) := by
  obtain ⟨hone, -⟩ := root_bounds p x
  have hpos : (0 : ℤ) < 2 ^ p := by positivity
  unfold arctangentUnit.halve
  generalize (floorSqrt (one p * one p + x * x).toNat : ℤ) = root at hone ⊢
  rw [one_eq, Int.shiftLeft_eq]
  apply abs_ediv_le (by omega)
  rw [abs_mul, abs_of_pos hpos]
  calc
    |x| * 2 ^ p ≤ 2 ^ p * 2 ^ p := mul_le_mul_of_nonneg_right hx hpos.le
    _ = 2 ^ (p - 1) * (2 * 2 ^ p) := by
      nth_rewrite 1 [two_pow_eq hp]
      ring
    _ ≤ 2 ^ (p - 1) * (2 ^ p + root) :=
      mul_le_mul_of_nonneg_left (by omega) (by positivity)

theorem abs_mul_half_le {y : ℤ} (hp : 0 < p) (hx : |x| ≤ 2 ^ (p - 1)) (hy : |y| ≤ 2 * 2 ^ p) :
    |mul p x y| ≤ 2 ^ p := by
  apply abs_mul_le
  rw [abs_mul]
  calc
    |x| * |y| ≤ 2 ^ (p - 1) * (2 * 2 ^ p) := mul_le_mul hx hy (abs_nonneg y) (by positivity)
    _ = 2 ^ p * 2 ^ p := by
      nth_rewrite 2 [two_pow_eq hp]
      ring

theorem abs_arctangent_step_le {t inner d : ℤ} (hp : 0 < p) (hd : 1 ≤ d) (ht : |t| ≤ 2 ^ (p - 1))
    (hinner : |inner| ≤ 2 * 2 ^ p) : |one p / d + mul p t inner| ≤ 2 * 2 ^ p := by
  have hpos : (0 : ℤ) < 2 ^ p := by positivity
  have hterm : |one p / d| ≤ 2 ^ p := by
    apply abs_ediv_le (by omega)
    rw [one_eq, abs_of_pos hpos]
    exact le_mul_of_one_le_right hpos.le hd
  calc
    |one p / d + mul p t inner| ≤ |one p / d| + |mul p t inner| := abs_add_le _ _
    _ ≤ 2 ^ p + 2 ^ p := add_le_add hterm (abs_mul_half_le hp ht hinner)
    _ = 2 * 2 ^ p := (two_mul _).symm

theorem abs_arctangent_le (hp : 0 < p) (hx : |x| ≤ 2 ^ (p - 1)) :
    |arctangent p (-1) x| ≤ 2 ^ p := by
  have hhalf := two_pow_eq hp
  have hsquare : |(-1) * mul p x x| ≤ 2 ^ (p - 1) := by
    rw [neg_one_mul, abs_neg]
    apply abs_mul_le
    rw [abs_mul]
    exact mul_le_mul hx (by linarith [abs_nonneg x]) (abs_nonneg x) (by positivity)
  apply abs_mul_half_le hp hx
  induction List.range (p / 3 + 4) with
  | nil => simp
  | cons k rest ih =>
      rw [List.foldr_cons]
      exact abs_arctangent_step_le hp (by push_cast; omega) hsquare ih

theorem abs_arctangentUnit_le (hp : 0 < p) (x : ℤ) : |arctangentUnit p x| ≤ 4 * 2 ^ p := by
  have hangle := abs_arctangent_le hp (abs_halve_le_half hp (abs_halve_le p x))
  unfold arctangentUnit
  rw [abs_mul]
  simpa using hangle

theorem abs_placed_lt {angle : ℤ} (h : |angle| ≤ 4 * 2 ^ p) (steep west south : Bool) :
    let turn := halfTurn p
    let tilted := if steep then turn / 2 - angle else angle
    let placed := if west then turn - tilted else tilted
    |if south then -placed else placed| < 2 ^ (p + 4) := by
  intro turn tilted placed
  obtain ⟨hturn, hturn'⟩ := halfTurn_bounds p
  have hpos : (0 : ℤ) < 2 ^ p := by positivity
  have htilted : -(6 * 2 ^ p) < tilted ∧ tilted < 6 * 2 ^ p := by
    simp only [tilted, turn]
    rw [abs_le] at h
    split <;> omega
  have hplaced : |placed| < 2 ^ (p + 4) := by
    rw [pow_add, abs_lt]
    simp only [placed, turn]
    split <;> omega
  split
  · rwa [abs_neg]
  · exact hplaced

end Series

/-! ## Wide numbers -/

namespace Wide

@[simp] theorem magnitude_neg (x : Wide) : (-x).magnitude = x.magnitude := by
  show x.exponent + ((-x.mantissa).natAbs.log2 : ℤ) = _
  rw [Int.natAbs_neg]
  rfl

theorem magnitude_ofFixed_lt {p k : ℕ} {n : ℤ} (hk : 0 < k) (h : |n| < 2 ^ (p + k)) :
    (ofFixed p n).magnitude < k := by
  rw [ofFixed, (trim_leading _).1]
  unfold magnitude
  simp only
  rcases eq_or_ne n 0 with rfl | hn
  · simp only [Int.natAbs_zero, Nat.log2_zero]
    omega
  · have hlog : n.natAbs.log2 < p + k := by
      rw [Nat.log2_lt (Int.natAbs_ne_zero.2 hn)]
      rw [Int.abs_eq_natAbs] at h
      exact_mod_cast h
    omega

theorem magnitude_turned_lt {quarters : ℤ} {negative : Bool} {s c : Wide} {k : ℤ}
    (hs : s.magnitude < k) (hc : c.magnitude < k) :
    (turned quarters negative s c).1.magnitude < k ∧
      (turned quarters negative s c).2.magnitude < k := by
  unfold turned
  split_ifs <;> simp [hs, hc]

theorem magnitude_sinCos_lt {x : Wide} (hx : x.isZero = false) :
    (sinCos x).1.magnitude < 1 ∧ (sinCos x).2.magnitude < 1 := by
  obtain ⟨p, quarters, reduced, hp, hreduced, hsinCos⟩ := exists_turned hx
  have hpow : (2 : ℤ) ^ p < 2 ^ (p + 1) := by
    rw [pow_succ]
    have : (0 : ℤ) < 2 ^ p := by positivity
    omega
  obtain ⟨hlow, hhigh⟩ := Series.cosine_bounds hp hreduced
  rw [hsinCos]
  apply magnitude_turned_lt
  · exact magnitude_ofFixed_lt Nat.one_pos ((Series.abs_sine_le hp hreduced).trans_lt hpow)
  · apply magnitude_ofFixed_lt Nat.one_pos
    rw [abs_lt]
    omega

theorem magnitude_atan2_lt (y x : Wide) : (atan2 y x).magnitude < 4 := by
  have hhalfTurn : halfTurn.magnitude < 4 := by decide +kernel
  unfold atan2
  split
  · split
    · exact hhalfTurn
    · decide +kernel
  · have hbits (n : ℕ) : 0 < seriesBits + n := by
      unfold seriesBits
      omega
    exact magnitude_ofFixed_lt (by norm_num)
      (Series.abs_placed_lt (Series.abs_arctangentUnit_le (hbits _) _) _ _ _)

end Wide

/-! ## Doubles -/

namespace Double

/-- A finite number of magnitude at most `2 ^ k`. -/
inductive IsWithin (k : ℕ) : Double → Prop
  | intro {s : Bool} {u : ℕ} {fits : Fits u} (h : u ≤ 2 ^ (k + unitBits)) :
      IsWithin k (.finite s u fits)

theorem isWithin_finite {k : ℕ} {s : Bool} {u : ℕ} {fits : Fits u} :
    (finite s u fits).IsWithin k ↔ u ≤ 2 ^ (k + unitBits) :=
  ⟨fun ⟨h⟩ => h, .intro⟩

instance (k : ℕ) : DecidablePred (IsWithin k)
  | .nan => isFalse nofun
  | .infinite _ => isFalse nofun
  | .finite _ _ _ => decidable_of_iff _ isWithin_finite.symm

variable {j k : ℕ} {x y : Double}

theorem IsWithin.isFinite (h : x.IsWithin k) : x.isFinite = true := by
  cases h
  rfl

theorem isWithin_round {negative : Bool} {num den : ℕ} (hden : 0 < den) (hk : k ≤ 1000)
    (h : num ≤ 2 ^ (k + unitBits) * den) : (round negative num den).IsWithin k := by
  have hsignificant : (1 <<< (k + unitBits)) %
      Nat.pow 2 ((1 <<< (k + unitBits)).log2 - 52) = 0 := significant_shift (by norm_num)
  rw [Nat.shiftLeft_eq, one_mul] at hsignificant
  have hle : nearestUnits num den ≤ 2 ^ (k + unitBits) :=
    nearestUnits_le_of_significant hden hsignificant h
  have hfits : Fits (nearestUnits num den) := by
    refine ⟨significant_nearestUnits hden, hle.trans_lt ?_⟩
    rw [range_eq.2.1]
    apply Nat.pow_lt_pow_right (by norm_num)
    unfold unitBits
    omega
  rw [round, ofUnits_of_fits hfits]
  exact .intro hle

theorem IsWithin.add (hk : k + 1 ≤ 1000) (hx : x.IsWithin k) (hy : y.IsWithin k) :
    (x + y).IsWithin (k + 1) := by
  cases hx with
  | @intro s u hu hx =>
  cases hy with
  | @intro t v hv hy =>
  show (Double.add (finite s u hu) (finite t v hv)).IsWithin (k + 1)
  unfold Double.add
  simp only
  split
  · exact .intro (Nat.zero_le _)
  · have hle : (signed s u + signed t v).natAbs ≤ u + v := by
      calc
        _ ≤ (signed s u).natAbs + (signed t v).natAbs := Int.natAbs_add_le _ _
        _ = u + v := by rw [natAbs_signed, natAbs_signed]
    have hpow : 2 ^ (k + 1 + unitBits) = 2 ^ (k + unitBits) + 2 ^ (k + unitBits) := by
      rw [Nat.add_right_comm, pow_succ, Nat.mul_two]
    apply isWithin_round Nat.one_pos hk
    rw [hpow, Nat.mul_one]
    exact hle.trans (Nat.add_le_add hx hy)

theorem IsWithin.mul (hk : j + k ≤ 1000) (hx : x.IsWithin j) (hy : y.IsWithin k) :
    (x * y).IsWithin (j + k) := by
  cases hx with
  | @intro s u hu hx =>
  cases hy with
  | @intro t v hv hy =>
  show (round (s ^^ t) (u * v) oneUnits).IsWithin (j + k)
  apply isWithin_round oneUnits_pos hk
  calc
    u * v ≤ 2 ^ (j + unitBits) * 2 ^ (k + unitBits) := Nat.mul_le_mul hx hy
    _ = 2 ^ (j + k + unitBits) * oneUnits := by
      rw [oneUnits_eq]
      ring

theorem isWithin_toDouble {x : Wide} (hk : k ≤ 1000) (h : x.magnitude < k) :
    x.toDouble.IsWithin k := by
  obtain ⟨mantissa, exponent⟩ := x
  unfold Wide.magnitude at h
  unfold Wide.toDouble ofScaled
  simp only at h ⊢
  generalize decide (mantissa < 0) = negative
  generalize mantissa.natAbs = m at h ⊢
  have hlead : m < 2 ^ (m.log2 + 1) := Nat.lt_log2_self
  have hzero : (ofUnits negative 0).IsWithin k := by
    rw [ofUnits_of_fits fits_zero]
    exact .intro (Nat.zero_le _)
  split
  · exact hzero
  rw [if_neg (by unfold unitBits; omega)]
  split
  · exact hzero
  split
  · apply isWithin_round Nat.one_pos hk
    rw [Nat.shiftLeft_eq, Nat.mul_one]
    calc
      m * 2 ^ (exponent + unitBits).toNat ≤ 2 ^ (m.log2 + 1) * 2 ^ (exponent + unitBits).toNat :=
        Nat.mul_le_mul_right _ hlead.le
      _ = 2 ^ (m.log2 + 1 + (exponent + unitBits).toNat) := (pow_add _ _ _).symm
      _ ≤ 2 ^ (k + unitBits) := Nat.pow_le_pow_right (by norm_num) (by omega)
  · rw [Nat.shiftLeft_eq, Nat.one_mul]
    apply isWithin_round (Nat.two_pow_pos _) hk
    calc
      m ≤ 2 ^ (m.log2 + 1) := hlead.le
      _ ≤ 2 ^ (k + unitBits + (-(exponent + unitBits)).toNat) :=
        Nat.pow_le_pow_right (by norm_num) (by omega)
      _ = 2 ^ (k + unitBits) * 2 ^ (-(exponent + unitBits)).toNat := pow_add _ _ _

/-! ## Circular functions and angles -/

theorem isWithin_cos (h : x.isFinite = true) : x.cos.IsWithin 1 := by
  cases x with
  | nan => cases h
  | infinite s => cases h
  | finite s u fits =>
      by_cases hu : u = 0
      · subst hu
        rw [cos_finite_zero]
        decide +kernel
      · rw [cos_finite hu]
        exact isWithin_toDouble (by norm_num) (Wide.magnitude_sinCos_lt (Wide.isZero_ofDouble hu)).2

theorem isWithin_sin (h : x.isFinite = true) : x.sin.IsWithin 1 := by
  cases x with
  | nan => cases h
  | infinite s => cases h
  | finite s u fits =>
      by_cases hu : u = 0
      · subst hu
        rw [sin_finite_zero]
        exact .intro (Nat.zero_le _)
      · rw [sin_finite hu]
        exact isWithin_toDouble (by norm_num) (Wide.magnitude_sinCos_lt (Wide.isZero_ofDouble hu)).1

theorem isWithin_atan (h : x.isFinite = true) : x.atan.IsWithin 4 := by
  cases x with
  | nan => cases h
  | infinite s => cases h
  | finite s u fits =>
      simp only [atan]
      split
      · rename_i hu
        exact .intro (hu.trans_le (Nat.zero_le _))
      · exact isWithin_toDouble (by norm_num) (Wide.magnitude_atan2_lt _ _)

end Double

end PolarCalc
