import Mathlib.Data.List.Basic
import Mathlib.Tactic.Common

/-! # Lists as memory

A list as a block of memory cells: `slice mem i j` is the range of cells from `i` up to `j`,
`overwrite mem i data` stores `data` from cell `i` on, `resize mem n d` cuts or extends the block.
The lemmas say what a slice reads after a store or a resize, inside, in front of and behind the cells
that changed. -/

namespace Support

variable {α : Type*}

/-- The cells from index `i` up to, not including, index `j`. -/
def slice (mem : List α) (i j : Nat) : List α := (mem.drop i).take (j - i)

/-- Store `data` from index `i` on. -/
def overwrite (mem : List α) (i : Nat) (data : List α) : List α :=
  mem.take i ++ data ++ mem.drop (i + data.length)

/-- Cut the block to `n` cells, or extend it to `n` cells that hold `d`. -/
def resize (mem : List α) (n : Nat) (d : α) : List α :=
  mem.take n ++ List.replicate (n - mem.length) d

/-- How long a slice is. -/
theorem length_slice (mem : List α) (i j : Nat) (hj : j ≤ mem.length) :
    (slice mem i j).length = j - i := by
  simp only [slice, List.length_take, List.length_drop]
  omega

/-- Neighbouring slices join. -/
theorem slice_append_slice (mem : List α) {i j k : Nat} (hij : i ≤ j) (hjk : j ≤ k) :
    slice mem i j ++ slice mem j k = slice mem i k := by
  have hk : k - i = (j - i) + (k - j) := by omega
  have hj : mem.drop j = (mem.drop i).drop (j - i) := by
    rw [List.drop_drop]
    congr 1
    omega
  rw [slice, slice, slice, hk, List.take_add, hj]

/-- Dropping cells of a slice moves its start. -/
theorem drop_slice (mem : List α) (i j n : Nat) : (slice mem i j).drop n = slice mem (i + n) j := by
  rw [slice, slice, List.drop_take, List.drop_drop, Nat.sub_sub]

/-- Taking cells of a slice moves its end. -/
theorem take_slice (mem : List α) {i j n : Nat} (h : i + n ≤ j) :
    (slice mem i j).take n = slice mem i (i + n) := by
  rw [slice, slice, List.take_take, Nat.add_sub_cancel_left]
  congr 1
  omega

/-- A store inside the block keeps its size. -/
theorem length_overwrite (mem : List α) (i : Nat) (data : List α)
    (h : i + data.length ≤ mem.length) : (overwrite mem i data).length = mem.length := by
  simp only [overwrite, List.length_append, List.length_take, List.length_drop]
  omega

/-- A slice that starts with the store and goes on behind it reads the data, then the old cells. -/
theorem slice_overwrite_front (mem data : List α) {i k : Nat} (h : i + data.length ≤ k)
    (hk : k ≤ mem.length) :
    slice (overwrite mem i data) i k = data ++ slice mem (i + data.length) k := by
  have htake : (mem.take i).length = i := List.length_take_of_le (by omega)
  have hdrop : (overwrite mem i data).drop i = data ++ mem.drop (i + data.length) := by
    rw [overwrite, List.append_assoc, List.drop_append_of_le_length (by omega),
      List.drop_eq_nil_of_le (by omega), List.nil_append]
  -- the slice is cut where the data ends
  have hlen : k - i = data.length + (k - (i + data.length)) := by omega
  rw [slice, hdrop, hlen, List.take_length_add_append, slice]

/-- The stored data is read back. -/
theorem slice_overwrite_self (mem data : List α) {i : Nat} (h : i + data.length ≤ mem.length) :
    slice (overwrite mem i data) i (i + data.length) = data := by
  rw [slice_overwrite_front mem data (Nat.le_refl _) h, slice, Nat.sub_self, List.take_zero,
    List.append_nil]

/-- A slice that ends before the store is not touched by it. -/
theorem slice_overwrite_of_le (mem data : List α) {i j k : Nat} (hjk : j ≤ k)
    (hk : k ≤ mem.length) : slice (overwrite mem k data) i j = slice mem i j := by
  have htake : (mem.take k).length = k := List.length_take_of_le hk
  by_cases hij : i ≤ j
  · rw [slice, slice, overwrite, List.append_assoc, List.drop_append_of_le_length (by omega),
      List.take_append_of_le_length (by rw [List.length_drop, htake]; omega), List.drop_take,
      List.take_take]
    congr 1
    omega
  · -- an empty range
    rw [slice, slice, Nat.sub_eq_zero_of_le (by omega), List.take_zero, List.take_zero]

@[simp] theorem length_resize (mem : List α) (n : Nat) (d : α) : (resize mem n d).length = n := by
  simp only [resize, List.length_append, List.length_take, List.length_replicate]
  omega

/-- A slice of the cells that a resize keeps. -/
theorem slice_resize (mem : List α) {i j n : Nat} (d : α) (hj : j ≤ mem.length) (hn : j ≤ n) :
    slice (resize mem n d) i j = slice mem i j := by
  by_cases hij : i ≤ j
  · have htake : j ≤ (mem.take n).length := by
      rw [List.length_take]
      omega
    rw [slice, slice, resize, List.drop_append_of_le_length (by omega),
      List.take_append_of_le_length (by rw [List.length_drop]; omega), List.drop_take,
      List.take_take]
    congr 1
    omega
  · rw [slice, slice, Nat.sub_eq_zero_of_le (by omega), List.take_zero, List.take_zero]

end Support
