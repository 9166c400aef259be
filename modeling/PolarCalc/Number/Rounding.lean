/-!
# Rounding of natural numbers

Quotients rounded to the nearest natural number with ties to even, and integer
square roots.
-/

namespace PolarCalc

/-- The quotient rounded to the nearest natural number, a half to the even
neighbour. -/
def roundDiv (num den : Nat) : Nat :=
  let floor := num / den
  let excess := 2 * (num % den)
  if den < excess ∨ (excess = den ∧ floor % 2 = 1) then floor + 1 else floor

/-- The root digit by digit in base two: `steps` digits of the root of
`n < 4 ^ steps`. -/
def sqrtDigits : Nat → Nat → Nat
  | 0, _ => 0
  | steps + 1, n =>
      let root := 2 * sqrtDigits steps (n / 4)
      if (root + 1) * (root + 1) ≤ n then root + 1 else root

/-- The greatest natural number whose square is at most `n`. -/
def floorSqrt (n : Nat) : Nat :=
  sqrtDigits (n.log2 / 2 + 1) n

theorem roundDiv_mul_left {den : Nat} (hden : 0 < den) (n : Nat) :
    roundDiv (den * n) den = n := by
  simp only [roundDiv, Nat.mul_mod_right, Nat.mul_div_cancel_left n hden]
  rw [if_neg]
  omega

/-- Rounding errs by at most half a unit. -/
theorem roundDiv_near {num den : Nat} (hden : 0 < den) :
    2 * num ≤ 2 * (roundDiv num den * den) + den ∧
      2 * (roundDiv num den * den) ≤ 2 * num + den := by
  have hsplit := Nat.div_add_mod num den
  have hlt := Nat.mod_lt num hden
  have hcomm := Nat.mul_comm den (num / den)
  simp only [roundDiv]
  split
  · rw [Nat.add_mul, Nat.one_mul]
    omega
  · omega

private theorem sqrtDigits_bounds (steps n : Nat) (h : n < Nat.pow 4 steps) :
    sqrtDigits steps n * sqrtDigits steps n ≤ n ∧
      n < (sqrtDigits steps n + 1) * (sqrtDigits steps n + 1) := by
  induction steps generalizing n with
  | zero => simp_all [sqrtDigits]
  | succ steps ih =>
      have hquarter : n / 4 < Nat.pow 4 steps := by
        rw [Nat.pow_eq, Nat.pow_succ] at h
        rw [Nat.pow_eq]
        omega
      obtain ⟨hlow, hhigh⟩ := ih (n / 4) hquarter
      generalize hr : sqrtDigits steps (n / 4) = r at hlow hhigh
      simp only [sqrtDigits, hr]
      simp only [Nat.mul_add, Nat.add_mul, Nat.mul_one, Nat.one_mul] at hhigh
      have hsq : 2 * r * (2 * r) = 4 * (r * r) := by
        rw [Nat.mul_mul_mul_comm]
      split
      · rename_i hle
        refine ⟨hle, ?_⟩
        simp only [Nat.mul_add, Nat.add_mul, Nat.mul_one, Nat.one_mul, hsq]
        omega
      · rename_i hgt
        refine ⟨by omega, by omega⟩

private theorem lt_four_pow (n : Nat) : n < Nat.pow 4 (n.log2 / 2 + 1) := by
  have h := Nat.lt_log2_self (n := n)
  have hpow : Nat.pow 4 (n.log2 / 2 + 1) = 2 ^ (2 * (n.log2 / 2 + 1)) := by
    rw [Nat.pow_eq, Nat.pow_mul]
  rw [hpow]
  exact Nat.lt_of_lt_of_le h (Nat.pow_le_pow_right (by decide) (by omega))

theorem floorSqrt_le (n : Nat) : floorSqrt n * floorSqrt n ≤ n :=
  (sqrtDigits_bounds _ n (lt_four_pow n)).1

theorem lt_succ_floorSqrt (n : Nat) : n < (floorSqrt n + 1) * (floorSqrt n + 1) :=
  (sqrtDigits_bounds _ n (lt_four_pow n)).2

example : roundDiv 5 2 = 2 ∧ roundDiv 7 2 = 4 ∧ roundDiv 8 3 = 3 := by decide

example : floorSqrt 24 = 4 ∧ floorSqrt 25 = 5 ∧ floorSqrt 0 = 0 := by decide

end PolarCalc
