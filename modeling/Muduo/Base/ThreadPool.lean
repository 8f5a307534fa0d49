import Muduo.Support.CondVar
import Muduo.Support.Machine

/-! # `ThreadPool`

The pool of `base/ThreadPool.cpp` with a bounded queue of tasks, after `start()` has returned. Producers, and
tasks while they run, call `run()`; the workers are in `runInThread()`; one thread calls `stop()`. What a
thread does between acquiring the mutex and releasing it, or waiting, is one step, and `running_` is read
without the mutex at the head of the workers' loop. A notification wakes one thread if any waits; a thread
may also be woken spuriously.

`stop()` notifies the workers only, so a caller of `run()` that waits for room in the queue depends on a
worker that takes a task. -/

namespace Muduo

open Support

namespace ThreadPool

/-- Where a worker is in `runInThread()`. -/
inductive WorkerPc where
  | top -- at `while (running_)`
  | take -- in `take()`
  | inTask
  | returned
  deriving DecidableEq, Repr

/-- Where the thread that calls `stop()` is. -/
inductive StopPc where
  | notCalled
  | join
  | returned
  deriving DecidableEq, Repr

end ThreadPool

/-- A pool with the producers `P`, the workers `W` and tasks `F`. The callers of `run()` are the producers and
the workers, these in a task. -/
structure ThreadPool (P W F : Type) where
  maxQueueSize : Nat
  running : Bool
  queue : List F
  /-- A waiting caller of `run()` has its task with it. -/
  notFull : CondVar (P ⊕ W) F
  notEmpty : CondVar W Unit
  workers : W → ThreadPool.WorkerPc
  stopper : ThreadPool.StopPc

namespace ThreadPool

/-- The steps. The thread that a notification wakes is chosen by the system. -/
inductive Step (P W F : Type) where
  | run (k : P ⊕ W) (task : F) (woken : Option W)
  | runAwakened (k : P ⊕ W) (woken : Option W)
  | checkRunning (w : W)
  | take (w : W) (woken : Option (P ⊕ W))
  | takeAwakened (w : W) (woken : Option (P ⊕ W))
  | taskDone (w : W)
  | stop
  | joined
  -- spurious wakeups
  | wakeCaller (k : P ⊕ W)
  | wakeWorker (w : W)

variable {P W F : Type}

/-- A wakeup without a notification. -/
def Step.IsSpurious : Step P W F → Prop
  | .wakeCaller _ | .wakeWorker _ => True
  | _ => False

/-- The pool when `start()` has returned. -/
def started (maxQueueSize : Nat) : ThreadPool P W F :=
  { maxQueueSize
    running := true
    queue := []
    notFull := .idle
    notEmpty := .idle
    workers := fun _ => .top
    stopper := .notCalled }

variable (s : ThreadPool P W F)

/-- `ThreadPool::isFull`. -/
def isFull : Bool := s.maxQueueSize > 0 ∧ s.queue.length ≥ s.maxQueueSize

/-- A thread that can call `run()`: a producer, or a worker in a task. -/
def MayRun : P ⊕ W → Prop
  | .inl _ => True
  | .inr w => s.workers w = .inTask

/-- When a step is possible. -/
def Enabled : Step P W F → Prop
  | .run k _ woken =>
      s.notFull k = .away ∧ s.MayRun k ∧ (s.isFull = false → s.notEmpty.Notifies woken)
  | .runAwakened k woken =>
      (s.notFull k).isAwakened = true ∧ (s.isFull = false → s.notEmpty.Notifies woken)
  | .checkRunning w => s.workers w = .top
  | .take w woken =>
      s.workers w = .take ∧ s.notEmpty w = .away ∧ (s.queue ≠ [] → s.notFull.Notifies woken)
  | .takeAwakened w woken =>
      s.workers w = .take ∧ (s.notEmpty w).isAwakened = true ∧ (s.queue ≠ [] → s.notFull.Notifies woken)
  | .taskDone w => s.workers w = .inTask ∧ s.notFull (.inr w) = .away
  | .stop => s.stopper = .notCalled
  | .joined => s.stopper = .join ∧ ∀ w, s.workers w = .returned
  | .wakeCaller k => (s.notFull k).isWaiting = true
  | .wakeWorker w => (s.notEmpty w).isWaiting = true

variable [DecidableEq P] [DecidableEq W]

/-- The pool with a worker moved to another place. -/
def setWorker (w : W) (pc : WorkerPc) : ThreadPool P W F :=
  { s with workers := Function.update s.workers w pc }

/-- `run(task)`, from the test of `isFull()` to the wait or to the end. -/
def runLocked (k : P ⊕ W) (task : F) (woken : Option W) : Checked (ThreadPool P W F) :=
  if s.isFull then return { s with notFull := s.notFull.wait k task }
  else do
    assert (¬ s.isFull) "!isFull()"
    return { s with queue := s.queue ++ [task], notEmpty := s.notEmpty.notify woken }

/-- `take()`, from the test of `queue_.empty() && running_` to the wait or to the end. -/
def takeLocked (w : W) (woken : Option (P ⊕ W)) : ThreadPool P W F :=
  if s.queue.isEmpty ∧ s.running then { s with notEmpty := s.notEmpty.wait w () }
  else
    match s.queue with
    | _ :: rest =>
        { s with
          queue := rest
          notFull := if s.maxQueueSize > 0 then s.notFull.notify woken else s.notFull }.setWorker w .inTask
    | [] => s.setWorker w .top -- there is no task to call

/-- An awakened caller of `run()` has the mutex again. -/
def runAwakened (k : P ⊕ W) (woken : Option W) : Checked (ThreadPool P W F) :=
  match s.notFull k with
  | .awakened task => { s with notFull := s.notFull.leave k }.runLocked k task woken
  | _ => return s

/-- The region of `stop()`. -/
def stop : ThreadPool P W F :=
  { s with running := false, notEmpty := s.notEmpty.notifyAll, stopper := .join }

/-- What a step does, with the assertions of the source. -/
def exec : Step P W F → Checked (ThreadPool P W F)
  | .run k task woken => s.runLocked k task woken
  | .runAwakened k woken => s.runAwakened k woken
  | .checkRunning w => return s.setWorker w (if s.running then .take else .returned)
  | .take w woken => return s.takeLocked w woken
  | .takeAwakened w woken => return { s with notEmpty := s.notEmpty.leave w }.takeLocked w woken
  | .taskDone w => return s.setWorker w .top
  | .stop => return s.stop
  | .joined => return { s with stopper := .returned }
  | .wakeCaller k => return { s with notFull := s.notFull.wake k }
  | .wakeWorker w => return { s with notEmpty := s.notEmpty.wake w }

end ThreadPool

/-- The pool with its threads, of which at least one is a worker. -/
def threadPool (P W F : Type) [DecidableEq P] [DecidableEq W] :
    Machine (ThreadPool P W F) (ThreadPool.Step P W F) where
  init s := Nonempty W ∧ ∃ maxQueueSize, 0 < maxQueueSize ∧ s = .started maxQueueSize
  enabled := ThreadPool.Enabled
  exec s a := s.exec a

namespace ThreadPool

variable {P W F : Type} [DecidableEq P] [DecidableEq W]

/-- `stop()` has returned and `k` waits in `run()`, and will do so whatever the threads do, unless it is
woken spuriously. -/
def Stranded (s : ThreadPool P W F) (k : P ⊕ W) : Prop :=
  s.stopper = .returned ∧
    ∀ as t, ((threadPool P W F).restrict fun _ a => ¬ a.IsSpurious).Run s as t →
      (t.notFull k).isWaiting = true

variable {s t : ThreadPool P W F}

/-- `run()` waits if the queue is full, and otherwise only adds to the queue. -/
theorem runLocked_cases {k : P ⊕ W} {task : F} {woken : Option W} (ht : s.runLocked k task woken = .ok t) :
    (s.isFull = true ∧ t = { s with notFull := s.notFull.wait k task }) ∨
      (s.isFull = false ∧ ∃ queue notEmpty, t = { s with queue, notEmpty }) := by
  unfold runLocked at ht
  split at ht
  · next hfull =>
      cases ht
      exact .inl ⟨hfull, rfl⟩
  · next hfull =>
      obtain ⟨-, ht⟩ := Checked.assert_bind_eq_ok.mp ht
      cases ht
      exact .inr ⟨Bool.eq_false_of_not_eq_true hfull, _, _, rfl⟩

/-- The step does nothing, or an awakened caller goes on with its task. -/
theorem runAwakened_cases {k : P ⊕ W} {woken : Option W} (ht : s.runAwakened k woken = .ok t) :
    t = s ∨ ∃ task, { s with notFull := s.notFull.leave k }.runLocked k task woken = .ok t := by
  unfold runAwakened at ht
  split at ht
  · next task _ => exact .inr ⟨task, ht⟩
  · cases ht
    exact .inl rfl

/-- `take()` does nothing to the callers of `run()` but wake one of them. -/
theorem takeLocked_cases (w : W) (woken : Option (P ⊕ W)) :
    ∃ queue notFull notEmpty workers, s.takeLocked w woken = { s with queue, notFull, notEmpty, workers } ∧
      (notFull = s.notFull ∨ notFull = s.notFull.notify woken) := by
  unfold takeLocked
  split
  · exact ⟨_, _, _, _, rfl, .inl rfl⟩
  · split
    · refine ⟨_, _, _, _, rfl, ?_⟩
      split
      · exact .inr rfl
      · exact .inl rfl
    · exact ⟨_, _, _, _, rfl, .inl rfl⟩

/-! ## A caller of `run()` that is left behind -/

/-- All workers have returned, and `k` waits in `run()`. -/
structure Left (k : P ⊕ W) (s : ThreadPool P W F) : Prop where
  workers : ∀ w, s.workers w = .returned
  waiting : (s.notFull k).isWaiting = true

/-- Another caller's `run()` does not free the one left behind. -/
theorem Left.runLocked {k : P ⊕ W} (h : Left k s) {j : P ⊕ W} (hkj : k ≠ j) {task : F} {woken : Option W}
    (ht : s.runLocked j task woken = .ok t) : Left k t := by
  obtain ⟨hworkers, hwaiting⟩ := h
  rcases runLocked_cases ht with ⟨-, rfl⟩ | ⟨-, _, _, rfl⟩
  · refine ⟨hworkers, ?_⟩
    dsimp only
    rw [CondVar.wait_of_ne hkj]
    exact hwaiting
  · exact ⟨hworkers, hwaiting⟩

/-- Without a worker nobody notifies `notFull_`. -/
theorem Left.step {k : P ⊕ W} (h : Left k s) {a : Step P W F} (ha : s.Enabled a) (hspurious : ¬ a.IsSpurious)
    (ht : s.exec a = .ok t) : Left k t := by
  have hpc : ∀ {w : W} {pc : WorkerPc}, s.workers w = pc → pc = .returned := fun hw => hw ▸ h.workers _
  cases a with
  | run j task woken =>
      -- `k` is in a call already
      refine h.runLocked (fun hkj => ?_) ht
      have hwaiting := h.waiting
      rw [hkj, ha.1] at hwaiting
      cases hwaiting
  | runAwakened j woken =>
      have hkj : k ≠ j := by
        rintro rfl
        have hwaiting := h.waiting
        rw [Waiter.isWaiting_eq_false ha.1] at hwaiting
        cases hwaiting
      rcases runAwakened_cases ht with rfl | ⟨task, ht⟩
      · exact h
      · refine Left.runLocked (s := { s with notFull := s.notFull.leave j }) ⟨h.workers, ?_⟩ hkj ht
        dsimp only
        rw [CondVar.leave_of_ne hkj]
        exact h.waiting
  | checkRunning w => cases hpc ha
  | take w woken => cases hpc ha.1
  | takeAwakened w woken => cases hpc ha.1
  | taskDone w => cases hpc ha.1
  | stop | joined =>
      cases ht
      exact ⟨h.workers, h.waiting⟩
  | wakeCaller j => exact absurd trivial hspurious
  | wakeWorker w => exact absurd trivial hspurious

/-- `running_` and the workers, as `stop()` goes on. -/
structure StopInv (s : ThreadPool P W F) : Prop where
  running : s.running = true ↔ s.stopper = .notCalled
  joined : s.stopper = .returned → ∀ w, s.workers w = .returned

/-- `run` keeps what `stop()` has established. -/
theorem StopInv.runLocked (h : s.StopInv) {k : P ⊕ W} {task : F} {woken : Option W}
    (ht : s.runLocked k task woken = .ok t) : t.StopInv := by
  rcases runLocked_cases ht with ⟨-, rfl⟩ | ⟨-, _, _, rfl⟩
  · exact ⟨h.running, h.joined⟩
  · exact ⟨h.running, h.joined⟩

/-- Every step keeps what `stop()` has established. -/
theorem StopInv.step (h : s.StopInv) {a : Step P W F} (ha : s.Enabled a) (ht : s.exec a = .ok t) :
    t.StopInv := by
  -- a worker that makes a step has not been joined
  have hworker : ∀ {w : W} {pc : WorkerPc}, s.workers w = pc → pc ≠ .returned → s.stopper ≠ .returned :=
    fun hw hpc hret => hpc (hw.symm.trans (h.joined hret _))
  cases a with
  | run k task woken => exact h.runLocked ht
  | runAwakened k woken =>
      rcases runAwakened_cases ht with rfl | ⟨task, ht⟩
      · exact h
      · exact StopInv.runLocked (s := { s with notFull := s.notFull.leave k }) ⟨h.running, h.joined⟩ ht
  | checkRunning w =>
      cases ht
      exact ⟨h.running, (absurd · (hworker ha nofun))⟩
  | take w woken =>
      cases ht
      obtain ⟨_, _, _, _, htake, -⟩ := s.takeLocked_cases w woken
      rw [htake]
      exact ⟨h.running, (absurd · (hworker ha.1 nofun))⟩
  | takeAwakened w woken =>
      cases ht
      obtain ⟨_, _, _, _, htake, -⟩ :=
        takeLocked_cases (s := { s with notEmpty := s.notEmpty.leave w }) w woken
      rw [htake]
      exact ⟨h.running, (absurd · (hworker ha.1 nofun))⟩
  | taskDone w =>
      cases ht
      exact ⟨h.running, (absurd · (hworker ha.1 nofun))⟩
  | stop =>
      cases ht
      exact ⟨⟨nofun, nofun⟩, nofun⟩
  | joined =>
      cases ht
      refine ⟨⟨fun hrunning => ?_, nofun⟩, fun _ => ha.2⟩
      cases ha.1.symm.trans (h.running.mp hrunning)
  | wakeCaller k | wakeWorker w =>
      cases ht
      exact ⟨h.running, h.joined⟩

/-- What `stop()` establishes in every reachable state. -/
theorem StopInv.of_reachable (hs : (threadPool P W F).Reachable s) : s.StopInv := by
  refine Machine.Reachable.induction (P := StopInv) ?_ (fun _ _ _ h ha ht => h.step ha ht) hs
  rintro s ⟨-, maxQueueSize, -, rfl⟩
  exact ⟨iff_of_true rfl rfl, nofun⟩

/-- When `stop()` has returned, a caller of `run()` that waits is left behind. -/
theorem stranded_iff (hs : (threadPool P W F).Reachable s) (hret : s.stopper = .returned) (k : P ⊕ W) :
    s.Stranded k ↔ (s.notFull k).isWaiting = true := by
  constructor
  · intro h
    exact h.2 [] s (.nil s)
  · intro hwaiting
    refine ⟨hret, fun as t hrun => ?_⟩
    have hleft : Left k s := ⟨(StopInv.of_reachable hs).joined hret, hwaiting⟩
    refine (hrun.induction (P := Left k) ?_ hleft).waiting
    exact fun _ _ _ h ha ht => h.step ha.1 ha.2 ht

/-! ## When nobody is left behind -/

/-- Nobody waits for room in the queue when `stop()` is called, and no `run()` finds the queue full after
that. -/
def LeavesNobody (s : ThreadPool P W F) : Step P W F → Prop
  | .stop => ¬ s.notFull.SomeWaiting
  | .run _ _ _ | .runAwakened _ _ => s.running = true ∨ s.isFull = false
  | _ => True

/-- Once `running_` is cleared nobody waits for room. -/
def Served (s : ThreadPool P W F) : Prop := s.running = false → ¬ s.notFull.SomeWaiting

/-- `run()` lets nobody wait for room after `stop()`, if there is room. -/
theorem Served.runLocked (h : s.Served) (hroom : s.running = true ∨ s.isFull = false) {k : P ⊕ W} {task : F}
    {woken : Option W} (ht : s.runLocked k task woken = .ok t) : t.Served := by
  rcases runLocked_cases ht with ⟨hfull, rfl⟩ | ⟨-, _, _, rfl⟩
  · -- a caller waits, and then the pool is running
    intro hrunning
    rcases hroom with hroom | hroom
    · cases hroom.symm.trans hrunning
    · cases hfull.symm.trans hroom
  · exact h

/-- `take()` lets nobody begin to wait for room. -/
theorem Served.takeLocked (h : s.Served) (w : W) (woken : Option (P ⊕ W)) : (s.takeLocked w woken).Served := by
  obtain ⟨_, notFull, _, _, htake, hnotFull⟩ := s.takeLocked_cases w woken
  rw [htake]
  intro hrunning hwaiting
  refine h hrunning ?_
  rcases hnotFull with rfl | rfl
  · exact hwaiting
  · exact CondVar.someWaiting_of_notify hwaiting

/-- A step of the condition lets nobody begin to wait for room after `stop()`. -/
theorem Served.step (h : s.Served) {a : Step P W F} (hcond : s.LeavesNobody a) (ht : s.exec a = .ok t) :
    t.Served := by
  cases a with
  | run k task woken => exact h.runLocked hcond ht
  | runAwakened k woken =>
      rcases runAwakened_cases ht with rfl | ⟨task, ht⟩
      · exact h
      · refine Served.runLocked (s := { s with notFull := s.notFull.leave k }) ?_ hcond ht
        exact fun hrunning hwaiting => h hrunning (CondVar.someWaiting_of_leave hwaiting)
  | take w woken =>
      cases ht
      exact h.takeLocked w woken
  | takeAwakened w woken =>
      cases ht
      exact Served.takeLocked (s := { s with notEmpty := s.notEmpty.leave w }) h w woken
  | stop =>
      cases ht
      exact fun _ => hcond
  | wakeCaller k =>
      cases ht
      exact fun hrunning hwaiting => h hrunning (CondVar.someWaiting_of_wake hwaiting)
  | checkRunning w | taskDone w | joined | wakeWorker w =>
      cases ht
      exact h

end ThreadPool

section

variable {P W F : Type} [DecidableEq P] [DecidableEq W]

/-- **When `stop()` strands no caller of `run()`.** If nobody waits for room in the queue when `stop()` is
called and no `run()` finds the queue full after that, then nobody is ever left behind. In general, when
`stop()` has returned, exactly those who then wait on `notFull_` are left behind: no step of any thread can
notify them. -/
theorem stop_strands_nobody :
    (∀ s : ThreadPool P W F, ((threadPool P W F).restrict ThreadPool.LeavesNobody).Reachable s →
      ∀ k, ¬ s.Stranded k) ∧
    (∀ s : ThreadPool P W F, (threadPool P W F).Reachable s → s.stopper = .returned →
      ∀ k, s.Stranded k ↔ (s.notFull k).isWaiting = true) := by
  refine ⟨fun s hs k hstranded => ?_, fun s hs hret k => ThreadPool.stranded_iff hs hret k⟩
  have hserved : s.Served := by
    refine Machine.Reachable.induction (P := ThreadPool.Served) ?_ ?_ hs
    · rintro s ⟨-, maxQueueSize, -, rfl⟩ hrunning
      cases hrunning
    · exact fun _ _ _ h ha ht => h.step ha.2 ht
  have hreach : (threadPool P W F).Reachable s := hs.of_restrict
  have hrunning : s.running = false := by
    rw [← Bool.not_eq_true, (ThreadPool.StopInv.of_reachable hreach).running, hstranded.1]
    nofun
  exact hserved hrunning ⟨k, hstranded.2 [] s (.nil s)⟩

end

/-- A producer waits for room in a queue with one slot, is notified by the worker, and has put its task there
before `stop()` is called: nobody is stranded when `stop()` has returned. -/
theorem stop_strands_nobody_notified :
    ∃ s : ThreadPool Unit Unit Nat, s.stopper = .returned ∧ s.queue = [] ∧ ∀ k, ¬ s.Stranded k := by
  have hnobody {c : CondVar (Unit ⊕ Unit) Nat} (hinl : (c (.inl ())).isWaiting = false)
      (hinr : (c (.inr ())).isWaiting = false) : ¬ c.SomeWaiting := by
    rintro ⟨k | w, hk⟩
    · exact absurd hk (Bool.eq_false_iff.mp hinl)
    · exact absurd hk (Bool.eq_false_iff.mp hinr)
  have hstarted : ((threadPool Unit Unit Nat).restrict ThreadPool.LeavesNobody).Reachable (.started 1) :=
    .of_init ⟨⟨()⟩, 1, Nat.one_pos, rfl⟩
  have hqueued := hstarted.step (a := ThreadPool.Step.run (.inl ()) 1 none)
    ⟨⟨rfl, trivial, fun _ => CondVar.not_someWaiting_idle⟩, .inl rfl⟩ rfl
  have hwaiting := hqueued.step (a := ThreadPool.Step.run (.inl ()) 2 none)
    ⟨⟨rfl, trivial, nofun⟩, .inl rfl⟩ rfl
  have htaking := hwaiting.step (a := ThreadPool.Step.checkRunning ()) ⟨rfl, trivial⟩ rfl
  have hnotified := htaking.step (a := ThreadPool.Step.take () (some (.inl ())))
    ⟨⟨rfl, rfl, fun _ => rfl⟩, trivial⟩ rfl
  have hput := hnotified.step (a := ThreadPool.Step.runAwakened (.inl ()) none)
    ⟨⟨rfl, fun _ => CondVar.not_someWaiting_idle⟩, .inl rfl⟩ rfl
  have hdone := hput.step (a := ThreadPool.Step.taskDone ()) ⟨⟨rfl, rfl⟩, trivial⟩ rfl
  have htop := hdone.step (a := ThreadPool.Step.checkRunning ()) ⟨rfl, trivial⟩ rfl
  have htaken := htop.step (a := ThreadPool.Step.take () none)
    ⟨⟨rfl, rfl, fun _ => hnobody rfl rfl⟩, trivial⟩ rfl
  have hstop := htaken.step (a := ThreadPool.Step.stop) ⟨rfl, hnobody rfl rfl⟩ rfl
  have hlast := hstop.step (a := ThreadPool.Step.taskDone ()) ⟨⟨rfl, rfl⟩, trivial⟩ rfl
  have hworker := hlast.step (a := ThreadPool.Step.checkRunning ()) ⟨rfl, trivial⟩ rfl
  have hjoined := hworker.step (a := ThreadPool.Step.joined) ⟨⟨rfl, fun _ => rfl⟩, trivial⟩ rfl
  exact ⟨_, rfl, rfl, stop_strands_nobody.1 _ hjoined⟩

/-- A producer is stranded: the queue has one slot, the only worker is in a task when `stop()` is called, and
returns without another `take()`. -/
theorem stop_strands_producer :
    ∃ s : ThreadPool Unit Unit Nat, (threadPool Unit Unit Nat).Reachable s ∧ s.stopper = .returned ∧
      s.Stranded (.inl ()) := by
  have hstarted : (threadPool Unit Unit Nat).Reachable (.started 1) := .of_init ⟨⟨()⟩, 1, Nat.one_pos, rfl⟩
  have hqueued := hstarted.step (a := ThreadPool.Step.run (.inl ()) 1 none)
    ⟨rfl, trivial, fun _ => CondVar.not_someWaiting_idle⟩ rfl
  have htaking := hqueued.step (a := ThreadPool.Step.checkRunning ()) rfl rfl
  have hworking := htaking.step (a := ThreadPool.Step.take () none)
    ⟨rfl, rfl, fun _ => CondVar.not_someWaiting_idle⟩ rfl
  have hfull := hworking.step (a := ThreadPool.Step.run (.inl ()) 2 none)
    ⟨rfl, trivial, fun _ => CondVar.not_someWaiting_idle⟩ rfl
  have hwaiting := hfull.step (a := ThreadPool.Step.run (.inl ()) 3 none) ⟨rfl, trivial, nofun⟩ rfl
  have hstop := hwaiting.step (a := ThreadPool.Step.stop) rfl rfl
  have hdone := hstop.step (a := ThreadPool.Step.taskDone ()) ⟨rfl, rfl⟩ rfl
  have hworker := hdone.step (a := ThreadPool.Step.checkRunning ()) rfl rfl
  have hjoined := hworker.step (a := ThreadPool.Step.joined) ⟨rfl, fun _ => rfl⟩ rfl
  exact ⟨_, hjoined, rfl, (ThreadPool.stranded_iff hjoined rfl _).mpr rfl⟩

end Muduo
