import Muduo.Base.BoundedBlockingQueue
import Muduo.Base.Mutex

/-! # `BoundedBlockingQueue`, statement by statement

The queue of `base/BoundedBlockingQueue.h` under its `MutexLock`, with its two conditions, one statement at a
time. `BoundedBlockingQueue` takes what a thread does with the mutex as one step; the statements here refine
it. -/

namespace Muduo

open Support Support.Monitor

namespace BoundedBlockingQueue

/-- The data under the lock. -/
structure Data (α : Type) where
  capacity : Nat
  queue : List α
  /-- The items put so far. -/
  items : List α
  /-- The items taken so far. -/
  taken : List α
  deriving DecidableEq, Repr

/-- The conditions `notFull_` and `notEmpty_`. -/
inductive Cond where
  | notFull
  | notEmpty
  deriving DecidableEq, Repr

/-- The statements of `put(x)` and `take()`. -/
inductive Place (α : Type) where
  | full (x : α)
  | pushBack (x : α)
  | notifyNotEmpty
  | empty
  | front
  | popFront (front : α)
  | notifyNotFull
  /-- The guard gives back the mutex. -/
  | done
  deriving DecidableEq, Repr

section

variable {α : Type}

/-- `queue_.full()` -/
def Data.full (d : Data α) : Bool := d.queue.length = d.capacity

/-- `queue_.push_back(x)`: a full circular buffer overwrites its first item. -/
def Data.pushBack (d : Data α) (x : α) : Data α :=
  { d with queue := if d.full then (d.queue ++ [x]).tail else d.queue ++ [x], items := d.items ++ [x] }

/-- The bodies of `put` and `take`, statement by statement. -/
def code : Place α → Data α → Checked (Stmt Cond (Place α) (Data α))
  -- `while (queue_.full()) notFull_.wait();`
  | .full x, d => return if d.full then .wait .notFull (.full x) else .set (.pushBack x) d
  | .pushBack x, d => do
      assert (¬ d.full) "!queue_.full()"
      return .set .notifyNotEmpty (d.pushBack x)
  | .notifyNotEmpty, _ => return .notify .notEmpty .done
  -- `while (queue_.empty()) notEmpty_.wait();`
  | .empty, d => return if d.queue.isEmpty then .wait .notEmpty .empty else .set .front d
  | .front, d => do
      assert (¬ d.queue.isEmpty) "!queue_.empty()"
      return .set (.popFront (← elementAt d.queue 0 "queue_.front()")) d
  | .popFront front, d => return .set .notifyNotFull { d with queue := d.queue.tail, taken := d.taken ++ [front] }
  | .notifyNotFull, _ => return .notify .notFull .done
  | .done, _ => return .leave

/-- The producers put and the consumers take. -/
def Entry {P C : Type} : P ⊕ C → Place α → Prop
  | .inl _, .full _ => True
  | .inr _, .empty => True
  | _, _ => False

end

/-- The queue with its threads, statement by statement. -/
def statements (P C α : Type) [DecidableEq P] [DecidableEq C] :
    Machine (Guarded (P ⊕ C) Cond (Place α) (Data α)) (Guarded.Step (P ⊕ C) Cond (Place α)) :=
  guarded code Entry fun d => ∃ maxSize, 1 ≤ maxSize ∧ d = ⟨maxSize, [], [], []⟩

variable {P C α : Type}

/-! ## The two levels -/

/-- The data of a queue. -/
def data (q : BoundedBlockingQueue P C α) : Data α :=
  { capacity := q.capacity, queue := q.queue, items := q.items, taken := q.taken }

/-- The conditions with the producers and the consumers that are in a wait. -/
def conds (notFull : CondVar P α) (notEmpty : CondVar C Unit) : Conds (P ⊕ C) Cond (Place α)
  | .notFull, .inl p => (notFull p).map .full
  | .notEmpty, .inr c => (notEmpty c).map fun _ => .empty
  | _, _ => .away

section Conditions

variable [DecidableEq P] [DecidableEq C] {notFull : CondVar P α} {notEmpty : CondVar C Unit}

/-- A producer's place at `notFull` changes on that side only. -/
theorem conds_update_notFull (p : P) (w : Waiter α) :
    Function.update (conds notFull notEmpty) .notFull
      (Function.update (conds notFull notEmpty .notFull) (.inl p) (w.map .full)) =
    conds (Function.update notFull p w) notEmpty := by
  funext c t
  rw [Conds.update_apply]
  cases c <;> cases t <;> simp [conds, Function.update_apply]
  split <;> rfl

/-- A consumer's place at `notEmpty` changes on that side only. -/
theorem conds_update_notEmpty (c : C) (w : Waiter Unit) :
    Function.update (conds notFull notEmpty) .notEmpty
      (Function.update (conds notFull notEmpty .notEmpty) (.inr c) (w.map fun _ => .empty)) =
    conds notFull (Function.update notEmpty c w) := by
  funext d t
  rw [Conds.update_apply]
  cases d <;> cases t <;> simp [conds, Function.update_apply]
  split <;> rfl

/-- Waiting at `notFull` is waiting on the producers' side. -/
theorem conds_wait_notFull (p : P) (x : α) :
    (conds notFull notEmpty).wait .notFull (.inl p) (.full x) = conds (notFull.wait p x) notEmpty :=
  conds_update_notFull p (.waiting x)

/-- Waiting at `notEmpty` is waiting on the consumers' side. -/
theorem conds_wait_notEmpty (c : C) :
    (conds notFull notEmpty).wait .notEmpty (.inr c) .empty = conds notFull (notEmpty.wait c ()) :=
  conds_update_notEmpty c (.waiting ())

/-- Leaving `notFull`, side by side. -/
theorem conds_leave_notFull (p : P) :
    (conds notFull notEmpty).leave .notFull (.inl p) = conds (notFull.leave p) notEmpty :=
  conds_update_notFull p .away

/-- Leaving `notEmpty`, side by side. -/
theorem conds_leave_notEmpty (c : C) :
    (conds notFull notEmpty).leave .notEmpty (.inr c) = conds notFull (notEmpty.leave c) :=
  conds_update_notEmpty c .away

/-- Waking at `notFull`, side by side. -/
theorem conds_wake_notFull (p : P) :
    (conds notFull notEmpty).wake .notFull (.inl p) = conds (notFull.wake p) notEmpty := by
  refine Eq.trans ?_ (conds_update_notFull p (notFull p).wake)
  rw [← Waiter.wake_map]
  rfl

/-- Waking at `notEmpty`, side by side. -/
theorem conds_wake_notEmpty (c : C) :
    (conds notFull notEmpty).wake .notEmpty (.inr c) = conds notFull (notEmpty.wake c) := by
  refine Eq.trans ?_ (conds_update_notEmpty c (notEmpty c).wake)
  rw [← Waiter.wake_map]
  rfl

/-- Only consumers wait for an item. -/
theorem notifies_notEmpty {woken : Option (P ⊕ C)} (h : (conds notFull notEmpty .notEmpty).Notifies woken) :
    ∃ consumer, notEmpty.Notifies consumer ∧
      (conds notFull notEmpty).notify .notEmpty woken = conds notFull (notEmpty.notify consumer) := by
  match woken with
  | some (.inl p) => cases h
  | some (.inr c) => exact ⟨some c, (Waiter.isWaiting_map ..).symm.trans h, conds_wake_notEmpty c⟩
  | none =>
      refine ⟨none, ?_, Function.update_eq_self ..⟩
      rintro ⟨c, hc⟩
      exact h ⟨.inr c, (Waiter.isWaiting_map ..).trans hc⟩

/-- Only producers wait for a free slot. -/
theorem notifies_notFull {woken : Option (P ⊕ C)} (h : (conds notFull notEmpty .notFull).Notifies woken) :
    ∃ producer, notFull.Notifies producer ∧
      (conds notFull notEmpty).notify .notFull woken = conds (notFull.notify producer) notEmpty := by
  match woken with
  | some (.inr c) => cases h
  | some (.inl p) => exact ⟨some p, (Waiter.isWaiting_map ..).symm.trans h, conds_wake_notFull p⟩
  | none =>
      refine ⟨none, ?_, Function.update_eq_self ..⟩
      rintro ⟨p, hp⟩
      exact h ⟨.inl p, (Waiter.isWaiting_map ..).trans hp⟩

end Conditions

variable [DecidableEq P] [DecidableEq C] {q q' : BoundedBlockingQueue P C α}

/-- The statements are at a state that the queue `q` has. -/
def Shows (d : Data α) (cs : Conds (P ⊕ C) Cond (Place α)) (q : BoundedBlockingQueue P C α) : Prop :=
  d = q.data ∧ cs = conds q.notFull q.notEmpty

/-- A producer that has the mutex in `q`, with the item `x`: however its section goes on, it is a step. -/
def Puts (p : P) (x : α) (q : BoundedBlockingQueue P C α) : Prop :=
  ∀ woken q', (q.full = false → q.notEmpty.Notifies woken) → q.putLocked p x woken = .ok q' →
    (boundedBlockingQueue P C α).Reachable q'

/-- A consumer that has the mutex in `q`. -/
def Takes (c : C) (q : BoundedBlockingQueue P C α) : Prop :=
  ∀ woken q', (q.empty = false → q.notFull.Notifies woken) → q.takeLocked c woken = .ok q' →
    (boundedBlockingQueue P C α).Reachable q'

/-- A producer that is away puts by a step. -/
theorem puts_of_away {p : P} (hq : (boundedBlockingQueue P C α).Reachable q) (hp : q.notFull p = .away) (x : α) :
    Puts p x q :=
  fun woken _ hwoken hq' => hq.step (a := .put p x woken) ⟨hp, hwoken⟩ hq'

/-- A producer that was awakened puts by a step. -/
theorem puts_of_awakened {p : P} {x : α} (hq : (boundedBlockingQueue P C α).Reachable q)
    (hp : q.notFull p = .awakened x) : Puts p x { q with notFull := q.notFull.leave p } := by
  intro woken q' hwoken hq'
  refine hq.step (a := .putAwakened p woken) ⟨by rw [hp]; rfl, hwoken⟩ ?_
  change q.putAwakened p woken = .ok q'
  rw [putAwakened, hp]
  exact hq'

/-- A consumer that is away takes by a step. -/
theorem takes_of_away {c : C} (hq : (boundedBlockingQueue P C α).Reachable q) (hc : q.notEmpty c = .away) :
    Takes c q :=
  fun woken _ hwoken hq' => hq.step (a := .take c woken) ⟨hc, hwoken⟩ hq'

/-- A consumer that was awakened takes by a step. -/
theorem takes_of_awakened {c : C} (hq : (boundedBlockingQueue P C α).Reachable q)
    (hc : q.notEmpty c = .awakened ()) : Takes c { q with notEmpty := q.notEmpty.leave c } := by
  intro woken q' hwoken hq'
  refine hq.step (a := .takeAwakened c woken) ⟨by rw [hc]; rfl, hwoken⟩ ?_
  change q.takeAwakened c woken = .ok q'
  rw [takeAwakened, hc]
  exact hq'

/-- The items are in order and not too many. -/
def Ordered (d : Data α) : Prop := d.queue.length ≤ d.capacity ∧ d.taken ++ d.queue = d.items

/-- What holds before a statement of a producer or a consumer. -/
def Before (d : Data α) (cs : Conds (P ⊕ C) Cond (Place α)) : P ⊕ C → Place α → Prop
  | .inl p, .full x => ∃ q, Puts p x q ∧ Shows d cs q
  | .inl p, .pushBack x => ∃ q, Puts p x q ∧ q.full = false ∧ Shows d cs q
  | .inl p, .notifyNotEmpty => ∃ q x, Puts p x q ∧ q.full = false ∧ Shows d cs (q.pushBack x)
  | .inr c, .empty => ∃ q, Takes c q ∧ Shows d cs q
  | .inr c, .front => ∃ q, Takes c q ∧ q.empty = false ∧ Shows d cs q
  | .inr c, .popFront front => ∃ q, Takes c q ∧ q.queue.head? = some front ∧ Shows d cs q
  | .inr c, .notifyNotFull => ∃ q, Takes c q ∧ q.empty = false ∧ Shows d cs q.popFront
  | _, .done => ∃ q, (boundedBlockingQueue P C α).Reachable q ∧ Shows d cs q
  | _, _ => False

/-- While the mutex is free the queue is one that its steps lead to. -/
def Refined (m : State (P ⊕ C) Cond (Place α) (Data α)) : Prop :=
  Ordered m.data ∧ ∃ q, (boundedBlockingQueue P C α).Reachable q ∧ Shows m.data m.conds q

/-- What a thread inside a critical section has established. -/
def Holds (t : P ⊕ C) (x : Config (P ⊕ C) Cond (Place α) (Data α)) : Prop :=
  Ordered x.data ∧ Before x.data x.conds t x.place

/-- A producer waits while the queue is full. -/
theorem putLocked_of_full {p : P} {x : α} {woken : Option C} (h : q.full = true) :
    q.putLocked p x woken = .ok { q with notFull := q.notFull.wait p x } := if_pos h

/-- With room, the item is put in and a consumer notified. -/
theorem putLocked_of_not_full {p : P} {x : α} {woken : Option C} (h : q.full = false) :
    q.putLocked p x woken = .ok { q.pushBack x with notEmpty := q.notEmpty.notify woken } := by
  rw [putLocked, if_neg (Bool.eq_false_iff.mp h), assert_pos (Bool.eq_false_iff.mp h)]
  rfl

omit [DecidableEq P] [DecidableEq C] in
/-- Taking an item wakes nobody by itself. -/
theorem popFront_notFull : q.popFront.notFull = q.notFull := by
  unfold popFront
  split <;> rfl

/-- A consumer waits while the queue is empty. -/
theorem takeLocked_of_empty {c : C} {woken : Option P} (h : q.empty = true) :
    q.takeLocked c woken = .ok { q with notEmpty := q.notEmpty.wait c () } := if_pos h

/-- With an item there, it is taken and a producer notified. -/
theorem takeLocked_of_not_empty {c : C} {woken : Option P} (h : q.empty = false) :
    q.takeLocked c woken = .ok { q.popFront with notFull := q.popFront.notFull.notify woken } := by
  rw [takeLocked, if_neg (Bool.eq_false_iff.mp h), assert_pos (Bool.eq_false_iff.mp h)]
  rfl

/-- The statements of `put(x)`. -/
theorem next_put {within : P ⊕ C → Option Cond} {p : P} {x : Config (P ⊕ C) Cond (Place α) (Data α)}
    (h : Holds (.inl p) x) : Outline.Next (fun _ => Holds) Refined within (.inl p) x (code x.place x.data) := by
  obtain ⟨place, d, cs⟩ := x
  obtain ⟨hordered, hbefore⟩ := h
  dsimp only at hordered hbefore ⊢
  cases place with
  | full y =>
      obtain ⟨q, hputs, rfl, rfl⟩ := hbefore
      cases hfull : q.full with
      | true =>
          have hcode : code (.full y) q.data = .ok (.wait .notFull (.full y)) := congrArg _ (if_pos hfull)
          rw [hcode]
          refine ⟨hordered, _, hputs none _ ?_ (putLocked_of_full hfull), rfl, conds_wait_notFull p y⟩
          rw [hfull]
          exact nofun
      | false =>
          have hcode : code (.full y) q.data = .ok (.set (.pushBack y) q.data) :=
            congrArg _ (if_neg (Bool.eq_false_iff.mp hfull))
          rw [hcode]
          exact ⟨hordered, q, hputs, hfull, rfl, rfl⟩
  | pushBack y =>
      obtain ⟨q, hputs, hfull, rfl, rfl⟩ := hbefore
      have hnot : ¬ q.data.full = true := Bool.eq_false_iff.mp hfull
      have hcode : code (.pushBack y) q.data = .ok (.set .notifyNotEmpty (q.data.pushBack y)) := by
        rw [code, assert_pos hnot]
        rfl
      rw [hcode]
      refine ⟨⟨?_, ?_⟩, q, y, hputs, hfull, rfl, rfl⟩
      · have hne : q.queue.length ≠ q.capacity := fun heq => hnot (decide_eq_true heq)
        have hle : q.queue.length ≤ q.capacity := hordered.1
        dsimp only [Data.pushBack]
        rw [if_neg hnot, List.length_append, List.length_singleton]
        change q.queue.length + 1 ≤ q.capacity
        omega
      · dsimp only [Data.pushBack]
        rw [if_neg hnot, ← List.append_assoc, hordered.2]
  | notifyNotEmpty =>
      obtain ⟨q, y, hputs, hfull, rfl, rfl⟩ := hbefore
      intro woken hwoken
      obtain ⟨consumer, hconsumer, hnotify⟩ := notifies_notEmpty hwoken
      exact ⟨hordered, _, hputs consumer _ (fun _ => hconsumer) (putLocked_of_not_full hfull), rfl, hnotify⟩
  | done => exact ⟨hordered, hbefore⟩
  | _ => exact hbefore.elim

/-- The statements of `take()`. -/
theorem next_take {within : P ⊕ C → Option Cond} {c : C} {x : Config (P ⊕ C) Cond (Place α) (Data α)}
    (h : Holds (.inr c) x) : Outline.Next (fun _ => Holds) Refined within (.inr c) x (code x.place x.data) := by
  obtain ⟨place, d, cs⟩ := x
  obtain ⟨hordered, hbefore⟩ := h
  dsimp only at hordered hbefore ⊢
  cases place with
  | empty =>
      obtain ⟨q, htakes, rfl, rfl⟩ := hbefore
      cases hempty : q.empty with
      | true =>
          have hcode : code .empty q.data = .ok (.wait .notEmpty .empty) := congrArg _ (if_pos hempty)
          rw [hcode]
          refine ⟨hordered, _, htakes none _ ?_ (takeLocked_of_empty hempty), rfl, conds_wait_notEmpty c⟩
          rw [hempty]
          exact nofun
      | false =>
          have hcode : code .empty q.data = .ok (.set .front q.data) :=
            congrArg _ (if_neg (Bool.eq_false_iff.mp hempty))
          rw [hcode]
          exact ⟨hordered, q, htakes, hempty, rfl, rfl⟩
  | front =>
      obtain ⟨q, htakes, hempty, rfl, rfl⟩ := hbefore
      obtain ⟨front, rest, hqueue⟩ : ∃ front rest, q.queue = front :: rest :=
        List.exists_cons_of_ne_nil fun hnil => Bool.eq_false_iff.mp hempty (empty_iff.mpr hnil)
      have hcode : code .front q.data = .ok (.set (.popFront front) q.data) := by
        simp [code, assert, elementAt, data, hqueue]
      rw [hcode]
      exact ⟨hordered, q, htakes, hqueue ▸ rfl, rfl, rfl⟩
  | popFront front =>
      obtain ⟨q, htakes, hhead, rfl, rfl⟩ := hbefore
      obtain ⟨rest, hqueue⟩ := List.head?_eq_some_iff.mp hhead
      have hpop : q.popFront = { q with queue := rest, taken := q.taken ++ [front] } := by rw [popFront, hqueue]
      have hempty : q.empty = false := by rw [empty, hqueue]; rfl
      obtain ⟨hlength, hfifo⟩ : (front :: rest).length ≤ q.capacity ∧ q.taken ++ front :: rest = q.items :=
        hqueue ▸ hordered
      have hcode : code (.popFront front) q.data = .ok (.set .notifyNotFull q.popFront.data) := by
        rw [hpop]
        simp only [code, data, hqueue]
        rfl
      rw [hcode]
      refine ⟨?_, q, htakes, hempty, rfl, by rw [hpop]⟩
      rw [hpop]
      refine ⟨Nat.le_of_succ_le hlength, ?_⟩
      rw [← hfifo]
      exact List.append_cons .. |>.symm
  | notifyNotFull =>
      obtain ⟨q, htakes, hempty, rfl, rfl⟩ := hbefore
      intro woken hwoken
      obtain ⟨producer, hproducer, hnotify⟩ := notifies_notFull hwoken
      refine ⟨hordered, _, htakes producer _ (fun _ => ?_) (takeLocked_of_not_empty hempty), rfl, hnotify⟩
      rwa [popFront_notFull] at hproducer
  | done => exact ⟨hordered, hbefore⟩
  | _ => exact hbefore.elim

/-- A producer waits for a free slot with its item, and a consumer for an item. -/
theorem wait_cases {l place : Place α} {d : Data α} {c : Cond} (h : code l d = .ok (.wait c place)) :
    (c = .notFull ∧ ∃ x, place = .full x) ∨ (c = .notEmpty ∧ place = .empty) := by
  cases l with
  | full x =>
      simp only [code, Checked.pure_eq_ok] at h
      split at h
      · cases h
        exact .inl ⟨rfl, x, rfl⟩
      · cases h
  | empty =>
      simp only [code, Checked.pure_eq_ok] at h
      split at h
      · cases h
        exact .inr ⟨rfl, rfl⟩
      · cases h
  | pushBack x =>
      obtain ⟨_, -, h⟩ := Checked.bind_eq_ok.mp h
      cases h
  | front =>
      obtain ⟨_, -, h⟩ := Checked.bind_eq_ok.mp h
      obtain ⟨_, -, h⟩ := Checked.bind_eq_ok.mp h
      cases h
  | _ => cases h

/-- A woken waiter, before the places were renamed. -/
theorem map_eq_awakened {β γ : Type} {f : β → γ} (hf : Function.Injective f) {w : Waiter β} {b : β}
    (h : w.map f = .awakened (f b)) : w = .awakened b := by
  cases w with
  | awakened b' => rw [hf (Waiter.awakened.inj h)]
  | _ => cases h

/-- A waiter that is away, before the places were renamed. -/
theorem map_eq_away {β γ : Type} {f : β → γ} {w : Waiter β} (h : w.map f = .away) : w = .away := by
  cases w with
  | away => rfl
  | _ => cases h

/-- The proof outline of the queue's critical sections. -/
theorem outline : Outline code Entry (fun _ => Holds) (Refined (P := P) (C := C) (α := α)) where
  enter {m t place} hm haway hentry := by
    obtain ⟨hordered, q, hq, hdata, hconds⟩ := hm
    refine ⟨hordered, ?_⟩
    rw [hconds] at haway
    match t, place, hentry with
    | .inl p, .full x, _ => exact ⟨q, puts_of_away hq (map_eq_away (haway .notFull)) x, hdata, hconds⟩
    | .inr c, .empty, _ => exact ⟨q, takes_of_away hq (map_eq_away (haway .notEmpty)), hdata, hconds⟩
  resume {m t c place l data} hm _ hawakened hcode := by
    obtain ⟨hordered, q, hq, hdata, hconds⟩ := hm
    refine ⟨hordered, ?_⟩
    dsimp only
    rw [hconds] at hawakened ⊢
    rcases wait_cases hcode with ⟨rfl, x, rfl⟩ | ⟨rfl, rfl⟩
    · match t with
      | .inr c => cases hawakened
      | .inl p =>
          have hp : q.notFull p = .awakened x := map_eq_awakened (fun _ _ => Place.full.inj) hawakened
          exact ⟨_, puts_of_awakened hq hp, hdata, conds_leave_notFull p⟩
    · match t with
      | .inl p => cases hawakened
      | .inr c =>
          have hc : q.notEmpty c = .awakened () := map_eq_awakened (fun _ _ _ => rfl) hawakened
          exact ⟨_, takes_of_awakened hq hc, hdata, conds_leave_notEmpty c⟩
  next {within t x} hx := by
    cases t with
    | inl p => exact next_put hx
    | inr c => exact next_take hx
  wake {m c t} hm hwaiting := by
    obtain ⟨hordered, q, hq, hdata, hconds⟩ := hm
    rw [hconds] at hwaiting
    refine ⟨hordered, ?_⟩
    match c, t with
    | .notFull, .inl p =>
        have hp : (q.notFull p).isWaiting = true := (Waiter.isWaiting_map ..).symm.trans hwaiting
        refine ⟨_, hq.step (a := .wakeProducer p) hp rfl, hdata, ?_⟩
        dsimp only
        rw [hconds]
        exact conds_wake_notFull p
    | .notEmpty, .inr c =>
        have hc : (q.notEmpty c).isWaiting = true := (Waiter.isWaiting_map ..).symm.trans hwaiting
        refine ⟨_, hq.step (a := .wakeConsumer c) hc rfl, hdata, ?_⟩
        dsimp only
        rw [hconds]
        exact conds_wake_notEmpty c
    | .notFull, .inr _ => cases hwaiting
    | .notEmpty, .inl _ => cases hwaiting

/-- The refinement holds at the start. -/
theorem refined_of_init {m : State (P ⊕ C) Cond (Place α) (Data α)}
    (hm : (monitor code Entry fun d => ∃ maxSize, 1 ≤ maxSize ∧ d = ⟨maxSize, [], [], []⟩).init m) :
    Refined m := by
  obtain ⟨⟨maxSize, hsize, hdata⟩, hconds, -⟩ := hm
  refine ⟨?_, .new maxSize, .of_init ⟨maxSize, hsize, rfl⟩, hdata, ?_⟩
  · rw [hdata]
    exact ⟨Nat.zero_le _, rfl⟩
  · rw [hconds]
    funext c t
    cases c <;> cases t <;> rfl

/-- **The statements refine the steps.** For any numbers of producers and consumers and in every order of
their statements: no assertion fails; the queue is never longer than its capacity, and what was taken and what
is in the queue is what was put, in order, at every moment. While the mutex is free, the queue and its waiting
threads are a state of the queue whose steps are whole sections. -/
theorem statements_refine {g : Guarded (P ⊕ C) Cond (Place α) (Data α)}
    (hg : (statements P C α).Reachable g) :
    g.data.queue.length ≤ g.data.capacity ∧
    g.data.taken ++ g.data.queue = g.data.items ∧
    (g.lock.mutex = none → ∃ q, (boundedBlockingQueue P C α).Reachable q ∧
      g.data = q.data ∧ g.conds = conds q.notFull q.notEmpty) ∧
    (statements P C α).Safe g := by
  obtain ⟨hfree, -, -, hsafe⟩ := Guarded.of_outline outline (fun _ => refined_of_init) hg
  have hordered : Ordered g.data :=
    Guarded.of_outline_data outline (fun _ => refined_of_init) hg (fun _ => And.left) fun _ _ _ => And.left
  refine ⟨hordered.1, hordered.2, fun hmutex => ?_, hsafe⟩
  obtain ⟨within, -, hrefined⟩ := hfree hmutex
  exact hrefined

/-- A consumer waits, and a producer is about to give back the mutex. -/
theorem statements_refine_pushed : ∃ g, (statements Unit Bool Nat).Reachable g ∧
    g.pos (.inl ()) = .inside .done ∧ g.data.queue.length ≤ g.data.capacity ∧
    g.data.taken ++ g.data.queue = g.data.items := by
  have h0 : (statements Unit Bool Nat).Reachable ⟨.new, ⟨1, [], [], []⟩, fun _ => .idle, fun _ => .outside⟩ :=
    .of_init ⟨⟨1, Nat.le_refl 1, rfl⟩, rfl, rfl, rfl⟩
  have h1 := h0.step (a := Guarded.Step.call (Sum.inr true) Place.empty) ⟨rfl, trivial⟩ rfl
  have h2 := h1.step (a := Guarded.Step.acquire (.inr true)) ⟨rfl, .empty, rfl⟩ rfl
  have h3 := h2.step (a := Guarded.Step.assignHolder (.inr true)) ⟨.empty, rfl⟩ rfl
  have h4 := h3.step (a := Guarded.Step.stmt (.inr true) none) ⟨.empty, rfl, nofun⟩ rfl
  have h5 := h4.step (a := Guarded.Step.wait (.inr true)) ⟨.notEmpty, .empty, rfl⟩ rfl
  have h6 := h5.step (a := Guarded.Step.call (Sum.inl ()) (Place.full 7)) ⟨rfl, trivial⟩ rfl
  have h7 := h6.step (a := Guarded.Step.acquire (.inl ())) ⟨rfl, .full 7, rfl⟩ rfl
  have h8 := h7.step (a := Guarded.Step.assignHolder (.inl ())) ⟨.full 7, rfl⟩ rfl
  have h9 := h8.step (a := Guarded.Step.stmt (.inl ()) none) ⟨.full 7, rfl, nofun⟩ rfl
  have h10 := h9.step (a := Guarded.Step.stmt (.inl ()) none) ⟨.pushBack 7, rfl, nofun⟩ rfl
  have h11 := h10.step (a := Guarded.Step.stmt (.inl ()) (some (.inr true)))
    ⟨.notifyNotEmpty, rfl, by rintro c place h; cases h; rfl⟩ rfl
  obtain ⟨hlength, hfifo, -⟩ := statements_refine h11
  exact ⟨_, h11, rfl, hlength, hfifo⟩

end BoundedBlockingQueue

end Muduo
