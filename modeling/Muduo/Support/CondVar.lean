import Mathlib.Data.Finset.Card
import Mathlib.Data.Fintype.Basic
import Mathlib.Tactic.Common

/-! # Condition variables

A condition variable seen from the threads that use it. A thread that waits is woken by a notification, or
spuriously, and is then awakened until it has the mutex again; what it does then is not part of the
condition variable, and it may well find that another thread was faster. `CondVar.Covered n` is the
bookkeeping against lost wakeups: while some thread waits, at least `n` threads are awakened. -/

namespace Support

/-- What a thread has to do with a condition variable. The value is what a waiting thread keeps for the time
after its wait. -/
inductive Waiter (α : Type) where
  | away
  | waiting (a : α)
  | awakened (a : α)
  deriving DecidableEq, Repr

namespace Waiter

variable {α : Type}

/-- Whether the thread waits. -/
def isWaiting : Waiter α → Bool
  | .waiting _ => true
  | _ => false

/-- Whether the thread has been woken and waits for the mutex. -/
def isAwakened : Waiter α → Bool
  | .awakened _ => true
  | _ => false

/-- A waiting thread is woken. -/
def wake : Waiter α → Waiter α
  | .waiting a => .awakened a
  | w => w

/-- A thread is not both waiting and awakened. -/
theorem isWaiting_eq_false {w : Waiter α} (h : w.isAwakened = true) : w.isWaiting = false := by
  cases w with
  | away => rfl
  | waiting a => cases h
  | awakened a => rfl

/-- A woken waiter waits no more. -/
theorem isWaiting_wake (w : Waiter α) : w.wake.isWaiting = false := by
  cases w with
  | away => rfl
  | waiting a => rfl
  | awakened a => rfl

/-- Only a waiter is awakened. -/
theorem isAwakened_wake (w : Waiter α) : w.wake.isAwakened = (w.isWaiting || w.isAwakened) := by
  cases w with
  | away => rfl
  | waiting a => rfl
  | awakened a => rfl

end Waiter

/-- A condition variable of the threads `κ`. -/
abbrev CondVar (κ α : Type) := κ → Waiter α

namespace CondVar

variable {κ α : Type}

/-- No thread uses the condition variable. -/
def idle : CondVar κ α := fun _ => .away

section Operations

variable [DecidableEq κ] (c : CondVar κ α)

/-- `k` waits. -/
def wait (k : κ) (a : α) : CondVar κ α := Function.update c k (.waiting a)

/-- `k` has the mutex again and goes on. -/
def leave (k : κ) : CondVar κ α := Function.update c k .away

/-- `k` is woken if it waits. -/
def wake (k : κ) : CondVar κ α := Function.update c k (c k).wake

/-- The thread that a notification wakes, if there is one. -/
def notify (woken : Option κ) : CondVar κ α := woken.elim c c.wake

/-- All threads that wait are woken. -/
def notifyAll : CondVar κ α := fun k => (c k).wake

end Operations

variable (c : CondVar κ α)

/-- Some thread waits. -/
def SomeWaiting : Prop := ∃ k, (c k).isWaiting = true

/-- A notification wakes one of the threads that wait; which one is not known. It wakes none only when
none waits. -/
def Notifies : Option κ → Prop
  | some k => (c k).isWaiting = true
  | none => ¬ c.SomeWaiting

/-- The threads that are awakened and do not have the mutex yet. -/
def awakened [Fintype κ] : Finset κ := {k | (c k).isAwakened = true}

/-- While some thread waits, at least `n` threads are awakened. -/
def Covered [Fintype κ] (n : Nat) : Prop := c.SomeWaiting → n ≤ c.awakened.card

variable {c}

/-- At the start nobody waits. -/
theorem not_someWaiting_idle : ¬ (idle : CondVar κ α).SomeWaiting := by
  rintro ⟨k, hk⟩
  cases hk

section Cover

variable [Fintype κ]

/-- Who is awakened. -/
theorem mem_awakened {k : κ} : k ∈ c.awakened ↔ (c k).isAwakened = true := by simp [awakened]

/-- Fewer are covered as well. -/
theorem Covered.mono {m n : Nat} (h : c.Covered n) (hmn : m ≤ n) : c.Covered m :=
  fun hw => hmn.trans (h hw)

/-- None are covered by anybody. -/
theorem Covered.zero : c.Covered 0 := fun _ => Nat.zero_le _

/-- Where no thread waits there is nothing to cover. -/
theorem Covered.idle {n : Nat} : (idle : CondVar κ α).Covered n := (absurd · not_someWaiting_idle)

/-- A thread that waits is not awakened. -/
theorem awakened_eq_empty (h : ∀ k, (c k).isWaiting = true) : c.awakened = ∅ := by
  refine Finset.eq_empty_of_forall_notMem fun k hk => ?_
  have hwaiting := h k
  rw [mem_awakened] at hk
  rw [Waiter.isWaiting_eq_false hk] at hwaiting
  cases hwaiting

/-- No thread is awakened: then none waits, or nothing has to be covered. -/
theorem Covered.eq_zero {n : Nat} (h : c.Covered n) (hw : c.SomeWaiting) (hnone : c.awakened = ∅) :
    n = 0 := by
  have hcard := h hw
  rw [hnone, Finset.card_empty] at hcard
  exact Nat.eq_zero_of_le_zero hcard

end Cover

section Rules

variable [DecidableEq κ]

/-- Waiting moves one thread. -/
theorem wait_of_ne {j k : κ} (h : j ≠ k) (a : α) : c.wait k a j = c j := Function.update_of_ne h _ _

/-- Leaving moves one thread. -/
theorem leave_of_ne {j k : κ} (h : j ≠ k) : c.leave k j = c j := Function.update_of_ne h _ _

/-- Waking moves one thread. -/
theorem wake_of_ne {j k : κ} (h : j ≠ k) : c.wake k j = c j := Function.update_of_ne h _ _

/-- Waking makes nobody wait. -/
theorem someWaiting_of_wake {k : κ} (h : (c.wake k).SomeWaiting) : c.SomeWaiting := by
  obtain ⟨j, hj⟩ := h
  refine ⟨j, ?_⟩
  by_cases hjk : j = k
  · subst hjk
    rw [wake, Function.update_self, Waiter.isWaiting_wake] at hj
    cases hj
  · rwa [wake_of_ne hjk] at hj

/-- Leaving makes nobody wait. -/
theorem someWaiting_of_leave {k : κ} (h : (c.leave k).SomeWaiting) : c.SomeWaiting := by
  obtain ⟨j, hj⟩ := h
  refine ⟨j, ?_⟩
  by_cases hjk : j = k
  · subst hjk
    rw [leave, Function.update_self] at hj
    cases hj
  · rwa [leave_of_ne hjk] at hj

/-- A notification makes nobody wait. -/
theorem someWaiting_of_notify {woken : Option κ} (h : (c.notify woken).SomeWaiting) : c.SomeWaiting := by
  cases woken with
  | none => exact h
  | some k => exact someWaiting_of_wake h

variable [Fintype κ]

/-- Waking only awakens more. -/
theorem awakened_subset_wake (k : κ) : c.awakened ⊆ (c.wake k).awakened := by
  intro j hj
  rw [mem_awakened] at hj ⊢
  by_cases hjk : j = k
  · subst hjk
    rw [wake, Function.update_self, Waiter.isAwakened_wake, hj, Bool.or_true]
  · rwa [wake_of_ne hjk]

/-- Leaving takes one from the awakened. -/
theorem erase_subset_awakened_leave (k : κ) : c.awakened.erase k ⊆ (c.leave k).awakened := by
  intro j hj
  obtain ⟨hjk, hj⟩ := Finset.mem_erase.mp hj
  rw [mem_awakened] at hj ⊢
  rwa [leave_of_ne hjk]

/-- A thread that waits is one more awakened thread when it is woken. -/
theorem card_awakened_wake {k : κ} (hk : (c k).isWaiting = true) :
    c.awakened.card + 1 ≤ (c.wake k).awakened.card := by
  have hnew : k ∉ c.awakened := by
    intro hmem
    rw [Waiter.isWaiting_eq_false (mem_awakened.mp hmem)] at hk
    cases hk
  have hmem : k ∈ (c.wake k).awakened := by
    rw [mem_awakened, wake, Function.update_self, Waiter.isAwakened_wake, hk, Bool.true_or]
  rw [← Finset.card_insert_of_notMem hnew]
  exact Finset.card_le_card (Finset.insert_subset hmem (awakened_subset_wake k))

/-- A spurious wakeup does no harm. -/
theorem Covered.wake {n : Nat} (h : c.Covered n) (k : κ) : (c.wake k).Covered n := fun hw =>
  (h (someWaiting_of_wake hw)).trans (Finset.card_le_card (awakened_subset_wake k))

/-- A notification covers one more. -/
theorem Covered.notify {n : Nat} (h : c.Covered n) {woken : Option κ} (hwoken : c.Notifies woken) :
    (c.notify woken).Covered (n + 1) := by
  intro hw
  cases woken with
  | none => exact absurd hw hwoken
  | some k => exact (Nat.succ_le_succ (h (someWaiting_of_wake hw))).trans (card_awakened_wake hwoken)

/-- A thread that goes on takes one away. -/
theorem Covered.leave {n : Nat} (h : c.Covered (n + 1)) (k : κ) : (c.leave k).Covered n := by
  intro hw
  have hcard := h (someWaiting_of_leave hw)
  have herase := Finset.card_le_card (erase_subset_awakened_leave (c := c) k)
  have hpred := Finset.pred_card_le_card_erase (s := c.awakened) (a := k)
  omega

/-- Leaving loses one. -/
theorem Covered.leave_pred {n : Nat} (h : c.Covered n) (k : κ) : (c.leave k).Covered (n - 1) := by
  cases n with
  | zero => exact .zero
  | succ n => exact h.leave k

end Rules

end CondVar

end Support
