import Mathlib.Tactic.Common

/-! # Binary search

`lowerBound below xs` is `std::lower_bound` as it is implemented: it halves a range of places and looks at
the element in the middle. On a list in which the elements that are `below` come first it finds where they
end (`lowerBound_eq`). Without any order the place is still one of the list or its end, and the search does
not stay at the front unless it has looked there. -/

namespace Support

variable {α : Type}

/-- The search in the `len` places from `first` on. -/
def lowerBoundFrom (below : α → Bool) (xs : List α) (first len : Nat) : Nat :=
  if len = 0 then first
  else
    let half := len / 2
    if (xs[first + half]?).any below then
      lowerBoundFrom below xs (first + half + 1) (len - half - 1)
    else lowerBoundFrom below xs first half
  termination_by len

/-- The place of the first element that is not `below`. -/
def lowerBound (below : α → Bool) (xs : List α) : Nat := lowerBoundFrom below xs 0 xs.length

/-- The bound is within the range. -/
theorem lowerBoundFrom_le (below : α → Bool) (xs : List α) (first len : Nat) :
    lowerBoundFrom below xs first len ≤ first + len := by
  fun_induction lowerBoundFrom below xs first len with
  | case1 => omega
  | case2 => omega
  | case3 => omega

/-- The bound is not before the range. -/
theorem le_lowerBoundFrom (below : α → Bool) (xs : List α) (first len : Nat) :
    first ≤ lowerBoundFrom below xs first len := by
  fun_induction lowerBoundFrom below xs first len with
  | case1 => omega
  | case2 => omega
  | case3 => omega

/-- The bound is within the list. -/
theorem lowerBound_le (below : α → Bool) (xs : List α) : lowerBound below xs ≤ xs.length := by
  have h := lowerBoundFrom_le below xs 0 xs.length
  rwa [Nat.zero_add] at h

/-- A search that ends where it began has looked at the element there. -/
theorem not_below_of_lowerBoundFrom {below : α → Bool} {xs : List α} {first len : Nat} (hlen : len ≠ 0)
    (h : lowerBoundFrom below xs first len = first) : ¬ (xs[first]?).any below := by
  fun_induction lowerBoundFrom below xs first len with
  | case1 first => exact absurd rfl hlen
  | case2 first len hne half hbelow ih =>
      -- the search has moved on
      have hle := le_lowerBoundFrom below xs (first + half + 1) (len - half - 1)
      omega
  | case3 first len hne half hbelow ih =>
      by_cases hhalf : half = 0
      · rwa [hhalf, Nat.add_zero] at hbelow
      · exact ih hhalf h

/-- At bound zero nothing is below. -/
theorem not_below_of_lowerBound_eq_zero {below : α → Bool} {x : α} {xs : List α}
    (h : lowerBound below (x :: xs) = 0) : below x = false := by
  have hnot := not_below_of_lowerBoundFrom (by simp) h
  simpa using hnot

/-- When the first `n` elements are the ones `below` and `n` is in the range, the search ends there. -/
theorem lowerBoundFrom_eq {below : α → Bool} {xs : List α} {first len n : Nat}
    (hbelow : ∀ i x, xs[i]? = some x → (below x = true ↔ i < n)) (hfirst : first ≤ n)
    (hlast : n ≤ first + len) (hlen : first + len ≤ xs.length) :
    lowerBoundFrom below xs first len = n := by
  fun_induction lowerBoundFrom below xs first len with
  | case1 first => omega
  | case2 first len hne half hmid ih =>
      have hlt : first + half < xs.length := by omega
      have hx := List.getElem?_eq_getElem hlt
      rw [hx, Option.any_some] at hmid
      have hbefore : first + half < n := (hbelow _ _ hx).mp hmid
      exact ih (by omega) (by omega) (by omega)
  | case3 first len hne half hmid ih =>
      have hlt : first + half < xs.length := by omega
      have hx := List.getElem?_eq_getElem hlt
      rw [hx, Option.any_some] at hmid
      have hafter : ¬ first + half < n := mt (hbelow _ _ hx).mpr hmid
      exact ih (by omega) (by omega) (by omega)

/-- The bound is where the predicate turns. -/
theorem lowerBound_eq {below : α → Bool} {xs : List α} {n : Nat} (hn : n ≤ xs.length)
    (hbelow : ∀ i x, xs[i]? = some x → (below x = true ↔ i < n)) : lowerBound below xs = n :=
  lowerBoundFrom_eq hbelow (Nat.zero_le n) (by omega) (by omega)

end Support
