import Muduo.Support.Checked
import Mathlib.Logic.Function.Basic

/-! # A heap of objects with explicit deletion

The objects that live at some addresses. Reading or deleting an object that is not there is an error,
as it is an error of a program to use a pointer after `delete`; an address may be given out again once
its object is gone. -/

namespace Support

/-- The objects of type `α` on the heap, by address. -/
def Heap (α : Type) : Type := Nat → Option α

namespace Heap

variable {α : Type} (heap : Heap α)

/-- No cell is allocated. -/
def empty : Heap α := fun _ => none

/-- The object that a pointer points to. -/
def get (a : Nat) : Checked α :=
  match heap a with
  | some x => .ok x
  | none => .error "use after delete"

/-- Put an object at an address. -/
def set (a : Nat) (x : α) : Heap α := fun b => if b = a then some x else heap b

/-- The heap without the object at an address. -/
def erase (a : Nat) : Heap α := fun b => if b = a then none else heap b

/-- `delete`. -/
def free (a : Nat) : Checked (Heap α) :=
  match heap a with
  | some _ => .ok (heap.erase a)
  -- a double `delete` is not silently ignored
  | none => .error "delete after delete"

variable {heap} {a b : Nat} {x y : α}

/-- A cell that is allocated is read. -/
theorem get_of_eq (h : heap a = some x) : heap.get a = .ok x := by
  rw [get, h]

/-- A cell that is allocated is freed. -/
theorem free_of_eq (h : heap a = some x) : heap.free a = .ok (heap.erase a) := by
  rw [free, h]

/-- Only an object that is there is read. -/
theorem get_eq_ok : heap.get a = .ok x ↔ heap a = some x := by
  rw [get]
  cases heap a <;> simp

/-- Only an object that is there is deleted. -/
theorem eq_erase_of_free {heap' : Heap α} (h : heap.free a = .ok heap') :
    heap' = heap.erase a := by
  rw [free] at h
  split at h
  · cases h
    rfl
  · cases h

@[simp] theorem set_same : heap.set a x a = some x := if_pos rfl

/-- Another cell stays. -/
theorem set_of_ne (h : b ≠ a) : heap.set a x b = heap b := if_neg h

@[simp] theorem erase_same : heap.erase a a = none := if_pos rfl

/-- Another cell stays allocated. -/
theorem erase_of_ne (h : b ≠ a) : heap.erase a b = heap b := if_neg h

/-- What is on the heap after an object was put there. -/
theorem set_eq_some : heap.set a x b = some y ↔ b = a ∧ x = y ∨ b ≠ a ∧ heap b = some y := by
  by_cases h : b = a
  · simp [h]
  · simp [h, set_of_ne h]

/-- What is on the heap after an object was deleted. -/
theorem erase_eq_some : heap.erase a b = some y ↔ b ≠ a ∧ heap b = some y := by
  by_cases h : b = a
  · simp [h]
  · simp [h, erase_of_ne h]

end Heap

end Support
