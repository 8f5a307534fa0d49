import Mathlib.Algebra.Order.Ring.Nat
import Mathlib.Order.Monotone.Defs
import Mathlib.Tactic.Common

/-! # Rounding to the nearest

`roundDiv a b` is the integer nearest to `a / b`, the even one of two that are equally near, and
`roundBits p n` the number nearest to `n` that has `p` significant bits. Both are monotone and change
nothing that is exact. A monotone function is below a limit exactly up to the last place where it is
(`lt_iff_of_monotone`), which turns a comparison of rounded numbers into one of the numbers. -/

namespace Support

/-- The integer nearest to `a / b`, ties to even. -/
def roundDiv (a b : Nat) : Nat :=
  if 2 * (a % b) < b ∨ (2 * (a % b) = b ∧ a / b % 2 = 0) then a / b else a / b + 1

section RoundDiv

variable {a a' b : Nat}

/-- A rounded quotient is not below the exact one. -/
theorem div_le_roundDiv (a b : Nat) : a / b ≤ roundDiv a b := by
  unfold roundDiv
  split <;> omega

/-- A rounded quotient is at most one above. -/
theorem roundDiv_le (a b : Nat) : roundDiv a b ≤ a / b + 1 := by
  unfold roundDiv
  split <;> omega

/-- The quotient is at most one half away. -/
theorem roundDiv_bounds (hb : 0 < b) (a : Nat) :
    2 * a ≤ 2 * (b * roundDiv a b) + b ∧ 2 * (b * roundDiv a b) ≤ 2 * a + b := by
  have hdiv : b * (a / b) + a % b = a := Nat.div_add_mod a b
  have hmod : a % b < b := Nat.mod_lt a hb
  unfold roundDiv
  split
  case isTrue h => omega
  case isFalse h =>
    rw [Nat.mul_add, Nat.mul_one]
    omega

/-- Rounding keeps the order. -/
theorem roundDiv_mono (b : Nat) (h : a ≤ a') : roundDiv a b ≤ roundDiv a' b := by
  have hdiv : a / b ≤ a' / b := Nat.div_le_div_right h
  by_cases heq : a / b = a' / b
  · -- the quotients agree, so the remainders are in order
    have hmod : a % b ≤ a' % b := by
      have h1 := Nat.div_add_mod a b
      have h2 := Nat.div_add_mod a' b
      rw [heq] at h1
      omega
    unfold roundDiv
    rw [heq]
    split_ifs <;> omega
  · have h1 := roundDiv_le a b
    have h2 := div_le_roundDiv a' b
    omega

/-- An exact quotient is not rounded. -/
theorem roundDiv_mul (hb : 0 < b) (q : Nat) : roundDiv (q * b) b = q := by
  rw [roundDiv, Nat.mul_mod_left, Nat.mul_div_cancel q hb, if_pos (Or.inl (by omega))]

end RoundDiv

/-- The number nearest to `n` with at most `p` significant bits, ties to even. -/
def roundBits (p n : Nat) : Nat :=
  let unit := 2 ^ (n.log2 + 1 - p)
  roundDiv n unit * unit

section RoundBits

variable {p : Nat}

/-- A power of two that is a multiple of the unit is not changed. -/
theorem roundDiv_two_pow {e k : Nat} (h : e ≤ k) : roundDiv (2 ^ k) (2 ^ e) * 2 ^ e = 2 ^ k := by
  have hsplit : 2 ^ k = 2 ^ (k - e) * 2 ^ e := by rw [← Nat.pow_add, Nat.sub_add_cancel h]
  rw [hsplit, roundDiv_mul (Nat.two_pow_pos e)]

/-- Rounding reaches at most the next power of two. -/
theorem roundBits_le (n : Nat) : roundBits p n ≤ 2 ^ (n.log2 + 1) := by
  have hle : n ≤ 2 ^ (n.log2 + 1) := Nat.le_of_lt Nat.lt_log2_self
  calc roundBits p n ≤ roundDiv (2 ^ (n.log2 + 1)) (2 ^ (n.log2 + 1 - p)) * 2 ^ (n.log2 + 1 - p) :=
        Nat.mul_le_mul_right _ (roundDiv_mono _ hle)
    _ = 2 ^ (n.log2 + 1) := roundDiv_two_pow (Nat.sub_le _ _)

/-- Rounding does not fall below the power of two. -/
theorem le_roundBits (hp : 0 < p) {n : Nat} (hn : n ≠ 0) : 2 ^ n.log2 ≤ roundBits p n := by
  calc 2 ^ n.log2 = roundDiv (2 ^ n.log2) (2 ^ (n.log2 + 1 - p)) * 2 ^ (n.log2 + 1 - p) :=
        (roundDiv_two_pow (by omega)).symm
    _ ≤ roundBits p n := Nat.mul_le_mul_right _ (roundDiv_mono _ (Nat.log2_self_le hn))

/-- Numbers with the same number of bits are rounded to the same unit, and between others there is a power of
two, which is not changed. -/
theorem roundBits_mono (hp : 0 < p) : Monotone (roundBits p) := by
  intro n m h
  rcases Nat.eq_zero_or_pos n with rfl | hn
  · have hzero : roundBits p 0 = 0 := by
      rw [roundBits]
      simp [roundDiv]
    rw [hzero]
    exact Nat.zero_le _
  · have hm : m ≠ 0 := by omega
    have hlog : n.log2 ≤ m.log2 := (Nat.le_log2 hm).mpr ((Nat.log2_self_le (by omega)).trans h)
    rcases Nat.eq_or_lt_of_le hlog with heq | hlt
    · unfold roundBits
      rw [heq]
      exact Nat.mul_le_mul_right _ (roundDiv_mono _ h)
    · calc roundBits p n ≤ 2 ^ (n.log2 + 1) := roundBits_le n
        _ ≤ 2 ^ m.log2 := Nat.pow_le_pow_right (by decide) hlt
        _ ≤ roundBits p m := le_roundBits hp hm

end RoundBits

/-- Where a monotone function crosses a limit. -/
theorem lt_iff_of_monotone {f : Nat → Nat} (hf : Monotone f) {limit t : Nat} (hbelow : f t < limit)
    (habove : limit ≤ f (t + 1)) (n : Nat) : f n < limit ↔ n < t + 1 := by
  constructor
  · intro hlt
    by_contra hge
    have := hf (Nat.le_of_not_lt hge)
    omega
  · intro hlt
    exact Nat.lt_of_le_of_lt (hf (Nat.le_of_lt_succ hlt)) hbelow

end Support
