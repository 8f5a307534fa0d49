import Mathlib.Data.Int.ConditionallyCompleteOrder
import Mathlib.Order.GaloisConnection.Basic
import Mathlib.Tactic.Common
import Mathlib.Tactic.Linarith

/-! # Units of almost equal length

A calendar lays out `p` days over `q` years as evenly as whole days allow: the `n`-th unit begins at
`stair p q r n = ⌊(p n + r) / q⌋`, and the unit a place is in is again found by one division, `step`.
The two are a Galois connection (`gc_stair`), so a place is found in the unit that contains it
(`stair_step_le`, `lt_stair_step_add_one`).

When units follow each other without a gap, counting them and then the places in one of them is counting
the places: pairs are in the order of the places they stand for (`start_add_lt_iff`). -/

namespace Support

section Stair

variable (p q r : Int)

/-- Where the `n`-th unit begins, when `q` units have `p` places. -/
def stair (n : Int) : Int := (p * n + r) / q

/-- The unit that the place `x` is in. -/
def step (x : Int) : Int := (q * x + (q - 1 - r)) / p

variable {p q r}

/-- The unit of a place and the beginning of a unit are adjoint. -/
theorem gc_stair (hp : 0 < p) (hq : 0 < q) : GaloisConnection (stair p q r) (step p q r) := by
  intro n x
  -- both say that `p n + r < q (x + 1)`
  rw [stair, step, Int.le_ediv_iff_mul_le hp, ← Int.lt_add_one_iff, Int.ediv_lt_iff_lt_mul hq]
  constructor
  · intro h
    linarith
  · intro h
    linarith

variable (hp : 0 < p) (hq : 0 < q)

include hp hq

/-- The unit of a place begins at the place or before. -/
theorem stair_step_le (x : Int) : stair p q r (step p q r x) ≤ x := (gc_stair hp hq).l_u_le x

/-- The next unit begins behind the place. -/
theorem lt_stair_step_add_one (x : Int) : x < stair p q r (step p q r x + 1) := by
  by_contra h
  have hle : step p q r x + 1 ≤ step p q r x := (gc_stair hp hq _ _).mp (Int.not_lt.mp h)
  omega

end Stair

section Units

variable {start : Int → Int}

/-- The unit after `k` begins where `k` ends, so no later one begins before. -/
theorem start_monotone (h : ∀ k, start k ≤ start (k + 1)) : Monotone start :=
  monotone_int_of_le_succ h

/-- Places are in the order of their units, and in one unit in that of their numbers. -/
theorem start_add_lt_iff (h : ∀ k, start k ≤ start (k + 1)) {k k' d d' : Int}
    (hd : 1 ≤ d) (hdlen : d ≤ start (k + 1) - start k)
    (hd' : 1 ≤ d') (hdlen' : d' ≤ start (k' + 1) - start k') :
    start k + d < start k' + d' ↔ k < k' ∨ (k = k' ∧ d < d') := by
  have hmono := start_monotone h
  rcases Int.lt_trichotomy k k' with hlt | heq | hgt
  · -- all of the unit `k` is before the unit `k'`
    have hle : start (k + 1) ≤ start k' := hmono hlt
    exact iff_of_true (by omega) (Or.inl hlt)
  · subst heq
    constructor
    · intro hsum
      exact Or.inr ⟨rfl, by omega⟩
    · rintro (hlt | ⟨-, hlt⟩)
      · omega
      · omega
  · have hle : start (k' + 1) ≤ start k := hmono hgt
    refine iff_of_false (by omega) ?_
    rintro (hlt | ⟨heq, -⟩)
    · omega
    · omega

end Units

end Support
