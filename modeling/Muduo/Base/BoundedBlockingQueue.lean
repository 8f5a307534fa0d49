import Muduo.Support.CondVar
import Muduo.Support.Machine

/-! # `BoundedBlockingQueue`

The queue of `base/BoundedBlockingQueue.h` with any number of threads that put and of threads that take. What
a thread does between acquiring the mutex and releasing it, or waiting, is one step. A waiting thread is
woken by a notification, which wakes one thread if any waits, or spuriously, and then has to acquire the
mutex again. -/

namespace Muduo

open Support

/-- A queue of items `T` with the producers `P` and the consumers `C`. -/
structure BoundedBlockingQueue (P C T : Type) where
  capacity : Nat
  queue : List T
  /-- A waiting producer has its item with it. -/
  notFull : CondVar P T
  notEmpty : CondVar C Unit
  /-- The items put so far. -/
  items : List T
  /-- The items taken so far. -/
  taken : List T

namespace BoundedBlockingQueue

/-- The steps. The thread that a notification wakes is chosen by the system. -/
inductive Step (P C T : Type) where
  | put (p : P) (x : T) (woken : Option C)
  | putAwakened (p : P) (woken : Option C)
  | take (c : C) (woken : Option P)
  | takeAwakened (c : C) (woken : Option P)
  -- spurious wakeups
  | wakeProducer (p : P)
  | wakeConsumer (c : C)

variable {P C T : Type}

/-- The constructor, for a queue of at most `maxSize` items. -/
def new (maxSize : Nat) : BoundedBlockingQueue P C T :=
  { capacity := maxSize, queue := [], notFull := .idle, notEmpty := .idle, items := [], taken := [] }

variable (s : BoundedBlockingQueue P C T)

/-- `queue_.full()` -/
def full : Bool := s.queue.length = s.capacity

/-- `queue_.empty()` -/
def empty : Bool := s.queue.isEmpty

/-- `queue_.push_back(x)`: a full circular buffer overwrites its first item. -/
def pushBack (x : T) : BoundedBlockingQueue P C T :=
  { s with queue := if s.full then (s.queue ++ [x]).tail else s.queue ++ [x], items := s.items ++ [x] }

/-- The front is moved out, and `queue_.pop_front()`. -/
def popFront : BoundedBlockingQueue P C T :=
  match s.queue with
  | front :: rest => { s with queue := rest, taken := s.taken ++ [front] }
  | [] => s

variable [DecidableEq P] [DecidableEq C]

/-- `put(x)`, from the test of `queue_.full()` to the wait or to the end. -/
def putLocked (p : P) (x : T) (woken : Option C) : Checked (BoundedBlockingQueue P C T) :=
  if s.full then return { s with notFull := s.notFull.wait p x }
  else do
    assert (¬ s.full) "!queue_.full()"
    let s := s.pushBack x
    return { s with notEmpty := s.notEmpty.notify woken }

/-- `take()`, from the test of `queue_.empty()` to the wait or to the end. -/
def takeLocked (c : C) (woken : Option P) : Checked (BoundedBlockingQueue P C T) :=
  if s.empty then return { s with notEmpty := s.notEmpty.wait c () }
  else do
    assert (¬ s.empty) "!queue_.empty()"
    let s := s.popFront
    return { s with notFull := s.notFull.notify woken }

/-- An awakened producer has the mutex again. -/
def putAwakened (p : P) (woken : Option C) : Checked (BoundedBlockingQueue P C T) :=
  match s.notFull p with
  | .awakened x => { s with notFull := s.notFull.leave p }.putLocked p x woken
  | _ => return s

/-- An awakened consumer has the mutex again. -/
def takeAwakened (c : C) (woken : Option P) : Checked (BoundedBlockingQueue P C T) :=
  match s.notEmpty c with
  | .awakened _ => { s with notEmpty := s.notEmpty.leave c }.takeLocked c woken
  | _ => return s

/-- When a step is possible. -/
def Enabled : Step P C T → Prop
  | .put p _ woken => s.notFull p = .away ∧ (s.full = false → s.notEmpty.Notifies woken)
  | .putAwakened p woken => (s.notFull p).isAwakened = true ∧ (s.full = false → s.notEmpty.Notifies woken)
  | .take c woken => s.notEmpty c = .away ∧ (s.empty = false → s.notFull.Notifies woken)
  | .takeAwakened c woken => (s.notEmpty c).isAwakened = true ∧ (s.empty = false → s.notFull.Notifies woken)
  | .wakeProducer p => (s.notFull p).isWaiting = true
  | .wakeConsumer c => (s.notEmpty c).isWaiting = true

/-- What a step does, with the assertions of the source. -/
def exec : Step P C T → Checked (BoundedBlockingQueue P C T)
  | .put p x woken => s.putLocked p x woken
  | .putAwakened p woken => s.putAwakened p woken
  | .take c woken => s.takeLocked c woken
  | .takeAwakened c woken => s.takeAwakened c woken
  | .wakeProducer p => return { s with notFull := s.notFull.wake p }
  | .wakeConsumer c => return { s with notEmpty := s.notEmpty.wake c }

end BoundedBlockingQueue

/-- The queue with its threads. -/
def boundedBlockingQueue (P C T : Type) [DecidableEq P] [DecidableEq C] :
    Machine (BoundedBlockingQueue P C T) (BoundedBlockingQueue.Step P C T) where
  init s := ∃ maxSize, 1 ≤ maxSize ∧ s = .new maxSize
  enabled := BoundedBlockingQueue.Enabled
  exec s a := s.exec a

namespace BoundedBlockingQueue

variable {P C T : Type}

/-- A full queue is what its name says, and no thread waits without need: while a consumer waits, there are
at least as many awakened consumers as items, and while a producer waits, at least as many awakened producers
as free slots. -/
structure Inv [Fintype P] [Fintype C] (s : BoundedBlockingQueue P C T) : Prop where
  capacity : 1 ≤ s.capacity
  bounded : s.queue.length ≤ s.capacity
  fifo : s.taken ++ s.queue = s.items
  consumers : s.notEmpty.Covered s.queue.length
  producers : s.notFull.Covered (s.capacity - s.queue.length)

variable {s : BoundedBlockingQueue P C T}

/-- The queue is full when it holds as many items as its capacity. -/
theorem full_iff : s.full = true ↔ s.queue.length = s.capacity := by simp [full]

/-- The queue is empty when it holds no item. -/
theorem empty_iff : s.empty = true ↔ s.queue = [] := by simp [empty]

variable [Fintype P] [Fintype C]

/-- The invariant holds at the start. -/
theorem Inv.new {maxSize : Nat} (h : 1 ≤ maxSize) : (new maxSize : BoundedBlockingQueue P C T).Inv where
  capacity := h
  bounded := Nat.zero_le _
  fifo := rfl
  consumers := .idle
  producers := .idle

/-- While no thread is awakened, every waiting thread has to wait. -/
theorem Inv.must_wait (h : s.Inv) :
    (s.notEmpty.awakened = ∅ → s.notEmpty.SomeWaiting → s.queue = []) ∧
    (s.notFull.awakened = ∅ → s.notFull.SomeWaiting → s.queue.length = s.capacity) := by
  constructor
  · intro hnone hwaiting
    exact List.eq_nil_of_length_eq_zero (h.consumers.eq_zero hwaiting hnone)
  · intro hnone hwaiting
    have hfree := h.producers.eq_zero hwaiting hnone
    have hbounded := h.bounded
    omega

variable [DecidableEq P] [DecidableEq C]

/-- A producer that has the mutex waits, or puts its item and covers it with a consumer. One of the free
slots is its own. -/
theorem putLocked_sat (hcapacity : 1 ≤ s.capacity) (hbounded : s.queue.length ≤ s.capacity)
    (hfifo : s.taken ++ s.queue = s.items) (hconsumers : s.notEmpty.Covered s.queue.length)
    (hproducers : s.notFull.Covered (s.capacity - s.queue.length - 1)) (p : P) (x : T) {woken : Option C}
    (hwoken : s.full = false → s.notEmpty.Notifies woken) : (s.putLocked p x woken).Sat Inv := by
  unfold putLocked
  split
  · next hfull =>
      have hlen := full_iff.mp hfull
      refine .ok ⟨hcapacity, hbounded, hfifo, hconsumers, ?_⟩
      rw [hlen, Nat.sub_self]
      exact .zero
  · next hfull =>
      have hlen : s.queue.length ≠ s.capacity := fun h => hfull (full_iff.mpr h)
      have hpush : s.pushBack x = { s with queue := s.queue ++ [x], items := s.items ++ [x] } := by
        rw [pushBack, if_neg hfull]
      refine .assert hfull ?_
      dsimp only
      rw [hpush]
      refine .ok ⟨hcapacity, ?_, ?_, ?_, ?_⟩
      · dsimp only
        rw [List.length_append, List.length_singleton]
        omega
      · rw [← List.append_assoc, hfifo]
      · rw [List.length_append, List.length_singleton]
        exact hconsumers.notify (hwoken (Bool.eq_false_of_not_eq_true hfull))
      · rw [List.length_append, List.length_singleton]
        exact hproducers

/-- A consumer that has the mutex waits, or takes an item and covers the free slot with a producer. One of
the items is its own. -/
theorem takeLocked_sat (hcapacity : 1 ≤ s.capacity) (hbounded : s.queue.length ≤ s.capacity)
    (hfifo : s.taken ++ s.queue = s.items) (hconsumers : s.notEmpty.Covered (s.queue.length - 1))
    (hproducers : s.notFull.Covered (s.capacity - s.queue.length)) (c : C) {woken : Option P}
    (hwoken : s.empty = false → s.notFull.Notifies woken) : (s.takeLocked c woken).Sat Inv := by
  unfold takeLocked
  split
  · next hempty =>
      have hnil := empty_iff.mp hempty
      refine .ok ⟨hcapacity, hbounded, hfifo, ?_, hproducers⟩
      rw [hnil]
      exact .zero
  · next hempty =>
      refine .assert hempty ?_
      cases hqueue : s.queue with
      | nil => exact absurd (empty_iff.mpr hqueue) hempty
      | cons front rest =>
          have hpop : s.popFront = { s with queue := rest, taken := s.taken ++ [front] } := by
            rw [popFront, hqueue]
          rw [hqueue, List.length_cons] at hbounded hconsumers hproducers
          dsimp only
          rw [hpop]
          refine .ok ⟨hcapacity, ?_, ?_, hconsumers, ?_⟩
          · exact Nat.le_of_succ_le hbounded
          · rw [← hfifo, hqueue, List.append_assoc]
            rfl
          · have hnotify := hproducers.notify (hwoken (Bool.eq_false_of_not_eq_true hempty))
            have hfree : s.capacity - rest.length ≤ s.capacity - (rest.length + 1) + 1 := by omega
            exact hnotify.mono hfree

/-- A producer that has the mutex again is no longer one of the awakened. -/
theorem Inv.putAwakened (h : s.Inv) {p : P} {woken : Option C}
    (hwoken : s.full = false → s.notEmpty.Notifies woken) : (s.putAwakened p woken).Sat Inv := by
  unfold BoundedBlockingQueue.putAwakened
  split
  · next x _ =>
      exact putLocked_sat (s := { s with notFull := s.notFull.leave p }) h.capacity h.bounded h.fifo
        h.consumers (h.producers.leave_pred p) p x hwoken
  · exact .ok h

/-- A consumer that has the mutex again is no longer one of the awakened. -/
theorem Inv.takeAwakened (h : s.Inv) {c : C} {woken : Option P}
    (hwoken : s.empty = false → s.notFull.Notifies woken) : (s.takeAwakened c woken).Sat Inv := by
  unfold BoundedBlockingQueue.takeAwakened
  split
  · exact takeLocked_sat (s := { s with notEmpty := s.notEmpty.leave c }) h.capacity h.bounded h.fifo
      (h.consumers.leave_pred c) h.producers c hwoken
  · exact .ok h

/-- Every step keeps the invariant, and no assertion fails. -/
theorem Inv.step (h : s.Inv) {a : Step P C T} (ha : s.Enabled a) : (s.exec a).Sat Inv := by
  have ⟨hcapacity, hbounded, hfifo, hconsumers, hproducers⟩ := h
  cases a with
  | put p x woken =>
      exact putLocked_sat hcapacity hbounded hfifo hconsumers (hproducers.mono (Nat.sub_le _ _)) p x ha.2
  | putAwakened p woken => exact h.putAwakened ha.2
  | take c woken =>
      exact takeLocked_sat hcapacity hbounded hfifo (hconsumers.mono (Nat.sub_le _ _)) hproducers c ha.2
  | takeAwakened c woken => exact h.takeAwakened ha.2
  | wakeProducer p => exact .ok ⟨hcapacity, hbounded, hfifo, hconsumers, hproducers.wake p⟩
  | wakeConsumer c => exact .ok ⟨hcapacity, hbounded, hfifo, hconsumers.wake c, hproducers⟩

end BoundedBlockingQueue

section

variable {P C T : Type} [Fintype P] [Fintype C] [DecidableEq P] [DecidableEq C]

/-- **A bounded queue without lost wakeups.** In every reachable state, for any numbers of threads and any
capacity: the queue is not longer than its capacity; what was taken and what is in the queue is what was put,
in order; while a consumer waits there are at least as many awakened consumers as items, and while a producer
waits at least as many awakened producers as free slots. So never all threads wait while a consumer could
take an item or a producer could put one. No assertion fails. -/
theorem bounded_fifo_no_lost_wakeup {s : BoundedBlockingQueue P C T}
    (hs : (boundedBlockingQueue P C T).Reachable s) :
    s.queue.length ≤ s.capacity ∧
    s.taken ++ s.queue = s.items ∧
    (s.notEmpty.SomeWaiting → s.queue.length ≤ s.notEmpty.awakened.card) ∧
    (s.notFull.SomeWaiting → s.capacity - s.queue.length ≤ s.notFull.awakened.card) ∧
    ¬ ((∀ p, (s.notFull p).isWaiting = true) ∧ (∀ c, (s.notEmpty c).isWaiting = true) ∧
      (Nonempty C ∧ s.queue ≠ [] ∨ Nonempty P ∧ s.queue.length < s.capacity)) ∧
    (boundedBlockingQueue P C T).Safe s := by
  obtain ⟨hinv, hsafe⟩ := Machine.invariant (P := BoundedBlockingQueue.Inv)
    (by rintro _ ⟨maxSize, h, rfl⟩; exact .new h) (fun _ _ h ha => h.step ha) hs
  refine ⟨hinv.bounded, hinv.fifo, hinv.consumers, hinv.producers, ?_, hsafe⟩
  rintro ⟨hproducers, hconsumers, hpossible⟩
  obtain ⟨htake, hput⟩ := hinv.must_wait
  rcases hpossible with ⟨⟨c⟩, hne⟩ | ⟨⟨p⟩, hlt⟩
  · exact hne (htake (CondVar.awakened_eq_empty hconsumers) ⟨c, hconsumers c⟩)
  · exact hlt.ne (hput (CondVar.awakened_eq_empty hproducers) ⟨p, hproducers p⟩)

end

/-- The consumers wait as `notEmpty` says, and `queue` was put into the queue of one slot. -/
def BoundedBlockingQueue.oneSlot (notEmpty : CondVar Bool Unit) (queue : List Nat) :
    BoundedBlockingQueue Unit Bool Nat :=
  { capacity := 1, queue, notFull := .idle, notEmpty, items := queue, taken := [] }

/-- Two consumers wait, and one of them is notified of the item `7`. -/
def BoundedBlockingQueue.oneOfTwo : BoundedBlockingQueue Unit Bool Nat :=
  oneSlot (((CondVar.idle.wait true ()).wait false ()).wake false) [7]

/-- A run with one `put` leads there. -/
theorem BoundedBlockingQueue.oneOfTwo_reachable :
    (boundedBlockingQueue Unit Bool Nat).Reachable BoundedBlockingQueue.oneOfTwo := by
  have hnew : (boundedBlockingQueue Unit Bool Nat).Reachable (oneSlot .idle []) :=
    .of_init ⟨1, Nat.le_refl 1, rfl⟩
  have hfirst : (boundedBlockingQueue Unit Bool Nat).Reachable (oneSlot (CondVar.idle.wait true ()) []) :=
    hnew.step (a := .take true none) ⟨rfl, nofun⟩ rfl
  have hsecond : (boundedBlockingQueue Unit Bool Nat).Reachable
      (oneSlot ((CondVar.idle.wait true ()).wait false ()) []) :=
    hfirst.step (a := .take false none) ⟨rfl, nofun⟩ rfl
  exact hsecond.step (a := .put () 7 (some false)) ⟨rfl, fun _ => rfl⟩ rfl

/-- Of the two consumers that waited, one still waits and one is awakened. -/
theorem bounded_fifo_no_lost_wakeup_oneOfTwo :
    BoundedBlockingQueue.oneOfTwo.notEmpty.SomeWaiting ∧
      1 ≤ BoundedBlockingQueue.oneOfTwo.notEmpty.awakened.card := by
  have hwaiting : BoundedBlockingQueue.oneOfTwo.notEmpty.SomeWaiting := ⟨true, rfl⟩
  obtain ⟨-, -, hcovered, -⟩ := bounded_fifo_no_lost_wakeup BoundedBlockingQueue.oneOfTwo_reachable
  exact ⟨hwaiting, hcovered hwaiting⟩

end Muduo
