import Mathlib.Data.List.Basic
import Mathlib.Tactic.Common

/-! # The first occurrence of a pattern

`search pattern xs` is the position of the first occurrence of `pattern` in `xs`. An occurrence that has
been found stays the first one when more input arrives. -/

namespace Support

variable {α : Type} [DecidableEq α]

/-- The position of the first occurrence of `pattern`. -/
def search (pattern : List α) : List α → Option Nat
  | [] => if pattern = [] then some 0 else none
  | x :: xs => if pattern <+: x :: xs then some 0 else (search pattern xs).map (· + 1)

/-- The occurrence lies within the list. -/
theorem search_le {pattern xs : List α} {i : Nat} (h : search pattern xs = some i) :
    i + pattern.length ≤ xs.length := by
  induction xs generalizing i with
  | nil =>
      unfold search at h
      split at h
      · next hnil =>
          cases h
          rw [hnil]
          exact Nat.le_refl _
      · cases h
  | cons x xs ih =>
      unfold search at h
      split at h
      · next hpre =>
          cases h
          rw [Nat.zero_add]
          exact hpre.length_le
      · obtain ⟨j, hj, rfl⟩ := Option.map_eq_some_iff.mp h
        have := ih hj
        rw [List.length_cons]
        omega

/-- More input does not change the first occurrence. -/
theorem search_append {pattern xs : List α} {i : Nat} (h : search pattern xs = some i)
    (ys : List α) : search pattern (xs ++ ys) = some i := by
  induction xs generalizing i with
  | nil =>
      unfold search at h
      split at h
      · next hnil =>
          subst hnil
          cases h
          cases ys with
          | nil => rfl
          | cons y ys => exact if_pos List.nil_prefix
      · cases h
  | cons x xs ih =>
      rw [List.cons_append]
      unfold search at h ⊢
      split at h
      · next hpre =>
          have hpre' : pattern <+: x :: (xs ++ ys) := hpre.trans ⟨ys, rfl⟩
          rw [if_pos hpre']
          exact h
      · next hpre =>
          obtain ⟨j, hj, rfl⟩ := Option.map_eq_some_iff.mp h
          -- an occurrence at the front would lie within `x :: xs`, since one lies behind it
          have hlen := search_le hj
          have hnot : ¬ pattern <+: x :: (xs ++ ys) := by
            intro hpre'
            have hwhole : x :: xs <+: x :: (xs ++ ys) := ⟨ys, rfl⟩
            refine hpre (List.prefix_of_prefix_length_le hpre' hwhole ?_)
            rw [List.length_cons]
            omega
          rw [if_neg hnot, ih hj]
          rfl

/-- An occurrence that lies within the first part of a list is found in that part. -/
theorem search_of_append {pattern xs ys : List α} {i : Nat}
    (h : search pattern (xs ++ ys) = some i) (hle : i + pattern.length ≤ xs.length) :
    search pattern xs = some i := by
  induction xs generalizing i with
  | nil =>
      obtain ⟨rfl, hnil⟩ : i = 0 ∧ pattern = [] := by
        rw [List.length_nil] at hle
        exact ⟨by omega, List.eq_nil_of_length_eq_zero (by omega)⟩
      exact if_pos hnil
  | cons x xs ih =>
      rw [List.cons_append, search] at h
      rw [search]
      split at h
      · next hpre =>
          cases h
          have hpre' : pattern <+: x :: xs := by
            refine List.prefix_of_prefix_length_le hpre ⟨ys, rfl⟩ ?_
            omega
          rw [if_pos hpre']
      · next hpre =>
          have hpre' : ¬ pattern <+: x :: xs := fun hpre' => hpre (hpre'.trans ⟨ys, rfl⟩)
          obtain ⟨j, hj, rfl⟩ := Option.map_eq_some_iff.mp h
          rw [if_neg hpre', ih hj (by rw [List.length_cons] at hle; omega)]
          rfl

/-- Where a pattern is found, it is. -/
theorem search_spec {pattern xs : List α} {i : Nat} (h : search pattern xs = some i) :
    xs = xs.take i ++ pattern ++ xs.drop (i + pattern.length) := by
  induction xs generalizing i with
  | nil =>
      unfold search at h
      split at h
      · next hnil =>
          cases h
          rw [hnil]
          rfl
      · cases h
  | cons x xs ih =>
      rw [search] at h
      split at h
      · next hpre =>
          cases h
          obtain ⟨ys, hys⟩ := hpre
          rw [← hys, List.take_zero, List.nil_append, Nat.zero_add, List.drop_left]
      · obtain ⟨j, hj, rfl⟩ := Option.map_eq_some_iff.mp h
        have hdrop : j + 1 + pattern.length = j + pattern.length + 1 := by omega
        rw [List.take_succ_cons, hdrop, List.drop_succ_cons, List.cons_append, List.cons_append,
          ← ih hj]

omit [DecidableEq α] in
/-- A pair that occurs in neither of two lists occurs in the two together only across their joint. -/
theorem pair_not_infix_append {a b : α} {xs ys : List α} (hxs : ¬ [a, b] <:+: xs)
    (hys : ¬ [a, b] <:+: ys) (hjoint : xs.getLast? ≠ some a ∨ ys.head? ≠ some b) :
    ¬ [a, b] <:+: xs ++ ys := by
  rw [List.infix_append_iff]
  rintro (hin | hin | ⟨front, back, heq, ⟨xs', rfl⟩, ⟨ys', rfl⟩⟩)
  · exact hxs hin
  · exact hys hin
  -- the pair is cut into a front and a back, one of which may be empty
  rcases front with - | ⟨x, - | ⟨y, front⟩⟩
  · exact hys ⟨[], ys', by rw [heq]; rfl⟩
  · obtain ⟨rfl, rfl⟩ : a = x ∧ [b] = back := by simpa using heq
    rcases hjoint with hlast | hhead
    · exact hlast List.getLast?_concat
    · exact hhead rfl
  · obtain ⟨rfl, rfl, hnil⟩ : a = x ∧ b = y ∧ front ++ back = [] := by simpa using heq
    obtain ⟨rfl, rfl⟩ := List.append_eq_nil_iff.mp hnil
    exact hxs ⟨xs', [], by rw [List.append_nil]⟩

/-- A pair of different elements is found behind a list in which it does not occur: it cannot begin
with the last element of the list either. -/
theorem search_pair {a b : α} (hab : a ≠ b) {xs : List α} (h : ¬ [a, b] <:+: xs) (ys : List α) :
    search [a, b] (xs ++ ([a, b] ++ ys)) = some xs.length := by
  induction xs with
  | nil => exact if_pos (List.prefix_append _ _)
  | cons x xs ih =>
      have hxs : ¬ [a, b] <:+: xs := fun hin => h (hin.trans (List.suffix_cons x xs).isInfix)
      have hpre : ¬ [a, b] <+: x :: (xs ++ ([a, b] ++ ys)) := by
        rw [List.cons_prefix_cons]
        rintro ⟨rfl, hpre⟩
        cases xs with
        | nil =>
            rw [List.nil_append, List.cons_append, List.cons_prefix_cons] at hpre
            exact hab hpre.1.symm
        | cons y xs =>
            rw [List.cons_append, List.cons_prefix_cons] at hpre
            obtain ⟨rfl, -⟩ := hpre
            exact h ⟨[], xs, rfl⟩
      rw [List.cons_append, search, if_neg hpre, ih hxs]
      rfl

end Support
