import Muduo.Base.Mutex

/-! # `BlockingQueue`

The unbounded queue of `base/BlockingQueue.h`, statement by statement, under its `MutexLock` and with its
condition `notEmpty_`. -/

namespace Muduo

open Support Support.Monitor

/-- The data of a queue of items `α`. -/
structure BlockingQueue (α : Type) where
  /-- `queue_` -/
  queue : List α
  /-- The items put so far. -/
  items : List α
  /-- The items taken so far. -/
  taken : List α
  deriving DecidableEq, Repr

namespace BlockingQueue

/-- The statements of the queue's functions. -/
inductive Place (α : Type) where
  -- `put(x)`
  | pushBack (x : α)
  | notify
  -- `take()`
  | empty
  | front
  | popFront (front : α)
  /-- The guard gives back the mutex. -/
  | done
  deriving DecidableEq, Repr

variable {α : Type}

/-- An empty queue. -/
def new : BlockingQueue α := { queue := [], items := [], taken := [] }

/-- The bodies of `put` and `take`, statement by statement. -/
def code : Place α → BlockingQueue α → Checked (Stmt Unit (Place α) (BlockingQueue α))
  | .pushBack x, q => return .set .notify { q with queue := q.queue ++ [x], items := q.items ++ [x] }
  | .notify, _ => return .notify () .done
  -- `while (queue_.empty()) notEmpty_.wait();`
  | .empty, q => return if q.queue.isEmpty then .wait () .empty else .set .front q
  | .front, q => do
      assert (¬ q.queue.isEmpty) "!queue_.empty()"
      return .set (.popFront (← elementAt q.queue 0 "queue_.front()")) q
  | .popFront front, q => return .set .done { q with queue := q.queue.tail, taken := q.taken ++ [front] }
  | .done, _ => return .leave

/-- A call of `put` or of `take`. -/
def Entry : Place α → Prop
  | .pushBack _ => True
  | .empty => True
  | _ => False

end BlockingQueue

/-- The queue with its threads `T`, each of which may put and take. -/
def blockingQueue (T α : Type) [DecidableEq T] :
    Machine (Guarded T Unit (BlockingQueue.Place α) (BlockingQueue α))
      (Guarded.Step T Unit (BlockingQueue.Place α)) :=
  guarded BlockingQueue.code (fun _ => BlockingQueue.Entry) (· = .new)

namespace BlockingQueue

variable {T α : Type} [Fintype T] [DecidableEq T]

/-- While no thread has the mutex: nothing is lost or duplicated, and for every item some thread that waits
for one is awakened. -/
def Inv (m : State T Unit (Place α) (BlockingQueue α)) : Prop :=
  m.data.taken ++ m.data.queue = m.data.items ∧ (m.conds ()).Covered m.data.queue.length

/-- What holds before a statement. A thread that takes is to take one of the items itself, and a thread that
has put an item still has to tell. -/
def Before (place : Place α) (q : BlockingQueue α) (notEmpty : CondVar T (Place α)) : Prop :=
  match place with
  | .pushBack _ | .done => notEmpty.Covered q.queue.length
  | .notify | .empty => notEmpty.Covered (q.queue.length - 1)
  | .front => notEmpty.Covered (q.queue.length - 1) ∧ q.queue ≠ []
  | .popFront front => notEmpty.Covered (q.queue.length - 1) ∧ q.queue.head? = some front

/-- The items are in order and covered before every statement. -/
def Holds (x : Config T Unit (Place α) (BlockingQueue α)) : Prop :=
  x.data.taken ++ x.data.queue = x.data.items ∧ Before x.place x.data (x.conds ())

/-- A thread that goes on after its wait is no longer one of the awakened. -/
theorem covered_leave {conds : Conds T Unit (Place α)} {n : Nat} (h : (conds ()).Covered n) (t : T) :
    (conds.leave () t ()).Covered (n - 1) := by
  rw [Conds.leave_self]
  exact CondVar.Covered.leave_pred h t

/-- Each statement keeps its outline. -/
theorem next {within : T → Option Unit} {t : T} {x : Config T Unit (Place α) (BlockingQueue α)} (h : Holds x) :
    Outline.Next (fun _ _ => Holds) Inv within t x (code x.place x.data) := by
  obtain ⟨place, q, conds⟩ := x
  obtain ⟨hfifo, hbefore⟩ := h
  dsimp only at hfifo hbefore ⊢
  cases place with
  | pushBack y =>
      refine ⟨?_, ?_⟩
      · dsimp only
        rw [← List.append_assoc, hfifo]
      · simpa [Before] using hbefore
  | notify =>
      intro woken hwoken
      refine ⟨hfifo, ?_⟩
      have hnotify := CondVar.Covered.notify hbefore hwoken
      dsimp only [Before]
      rw [Conds.notify_self]
      exact hnotify.mono (by omega)
  | empty =>
      dsimp only [code]
      cases hqueue : q.queue with
      | nil =>
          refine ⟨hfifo, ?_⟩
          dsimp only
          rw [hqueue]
          exact .zero
      | cons front rest => exact ⟨hfifo, hbefore, hqueue ▸ List.cons_ne_nil _ _⟩
  | front =>
      obtain ⟨hcovered, hne⟩ := hbefore
      obtain ⟨front, rest, hqueue⟩ := List.exists_cons_of_ne_nil hne
      have hcode : code .front q = .ok (.set (.popFront front) q) := by
        simp [code, assert, elementAt, hqueue]
      rw [hcode]
      exact ⟨hfifo, hcovered, hqueue ▸ rfl⟩
  | popFront front =>
      obtain ⟨hcovered, hhead⟩ := hbefore
      obtain ⟨rest, hqueue⟩ := List.head?_eq_some_iff.mp hhead
      refine ⟨?_, ?_⟩
      · dsimp only
        rw [← hfifo, hqueue, List.append_assoc]
        rfl
      · dsimp only [Before]
        rw [List.length_tail]
        exact hcovered
  | done => exact ⟨hfifo, hbefore⟩

/-- The only wait is that of `take`. -/
theorem eq_empty_of_wait {l place : Place α} {q : BlockingQueue α} {c : Unit}
    (h : code l q = .ok (.wait c place)) : place = .empty := by
  cases l with
  | empty =>
      simp only [code, Checked.pure_eq_ok] at h
      split at h
      · cases h
        rfl
      · cases h
  | front =>
      obtain ⟨_, -, h⟩ := Checked.bind_eq_ok.mp h
      obtain ⟨_, -, h⟩ := Checked.bind_eq_ok.mp h
      cases h
  | _ => cases h

/-- The proof outline of the queue's critical sections. -/
theorem outline : Outline code (fun (_ : T) => Entry) (fun _ _ => Holds) (Inv (α := α)) where
  enter {m t place} hm _ hentry := by
    refine ⟨hm.1, ?_⟩
    cases place with
    | pushBack x => exact hm.2
    | empty => exact hm.2.mono (Nat.sub_le _ _)
    | _ => exact hentry.elim
  resume {m t c place l data} hm _ _ hcode := by
    rw [eq_empty_of_wait hcode]
    exact ⟨hm.1, covered_leave hm.2 t⟩
  next := next
  wake {m c t} hm _ := by
    refine ⟨hm.1, ?_⟩
    dsimp only
    rw [Conds.wake_self]
    exact hm.2.wake t

/-- **A queue without lost wakeups.** For any number of threads and in every order of their statements: what
was taken and what is in the queue is what was put, in order, at every moment; no assertion fails; and while
no thread has the mutex and some thread waits for an item, at least as many threads are awakened as there are
items. So a waiting thread has to wait only as long as the queue is empty or an awakened thread is about to
take. -/
theorem fifo_no_lost_wakeup {g : Guarded T Unit (Place α) (BlockingQueue α)}
    (hg : (blockingQueue T α).Reachable g) :
    g.data.taken ++ g.data.queue = g.data.items ∧
    (g.lock.mutex = none → (g.conds ()).SomeWaiting →
      g.data.queue.length ≤ (g.conds ()).awakened.card) ∧
    (blockingQueue T α).Safe g := by
  have hinit (m : State T Unit (Place α) (BlockingQueue α))
      (hm : (monitor code (fun _ => Entry) (· = .new)).init m) : Inv m := by
    obtain ⟨hdata, hconds, -⟩ := hm
    refine ⟨by rw [hdata]; rfl, ?_⟩
    rw [hconds]
    exact .idle
  obtain ⟨hfree, -, -, hsafe⟩ := Guarded.of_outline outline hinit hg
  refine ⟨?_, fun hmutex hwaiting => ?_, hsafe⟩
  · exact Guarded.of_outline_data outline hinit hg (P := fun q => q.taken ++ q.queue = q.items)
      (fun _ => And.left) fun _ _ _ => And.left
  · obtain ⟨within, hinv⟩ := hfree hmutex
    exact hinv.2 hwaiting

/-- A thread has pushed an item while another one waits. -/
theorem fifo_no_lost_wakeup_pushed : ∃ g, (blockingQueue Bool Nat).Reachable g ∧
    (g.conds ()).SomeWaiting ∧ g.data.queue = [7] ∧ g.data.taken ++ g.data.queue = g.data.items := by
  have h0 : (blockingQueue Bool Nat).Reachable ⟨.new, .new, fun _ => .idle, fun _ => .outside⟩ :=
    .of_init ⟨rfl, rfl, rfl, rfl⟩
  have h1 := h0.step (a := Guarded.Step.call true Place.empty) ⟨rfl, trivial⟩ rfl
  have h2 := h1.step (a := Guarded.Step.acquire true) ⟨rfl, .empty, rfl⟩ rfl
  have h3 := h2.step (a := Guarded.Step.assignHolder true) ⟨.empty, rfl⟩ rfl
  have h4 := h3.step (a := Guarded.Step.stmt true none) ⟨.empty, rfl, nofun⟩ rfl
  have h5 := h4.step (a := Guarded.Step.wait true) ⟨(), .empty, rfl⟩ rfl
  have h6 := h5.step (a := Guarded.Step.call false (Place.pushBack 7)) ⟨rfl, trivial⟩ rfl
  have h7 := h6.step (a := Guarded.Step.acquire false) ⟨rfl, .pushBack 7, rfl⟩ rfl
  have h8 := h7.step (a := Guarded.Step.assignHolder false) ⟨.pushBack 7, rfl⟩ rfl
  have h9 := h8.step (a := Guarded.Step.stmt false none) ⟨.pushBack 7, rfl, nofun⟩ rfl
  exact ⟨_, h9, ⟨true, rfl⟩, rfl, (fifo_no_lost_wakeup h9).1⟩

end BlockingQueue

end Muduo
