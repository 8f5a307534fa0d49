import Muduo.Base.ThreadPool
import Mathlib.Data.Fintype.Sum

/-! # The tasks of a `ThreadPool`

The pool of `base/ThreadPool.cpp` with what has become of the tasks: those that `run()` has put into the queue,
and those that a worker has taken out and started. `stop()` does not wait for the queue to be empty, but a
worker that is in `take()` at that time may still start the task that it finds there. -/

namespace Muduo

open Support

/-- A pool with the tasks so far. -/
structure TaskLog (P W F : Type) where
  pool : ThreadPool P W F
  /-- The tasks put into the queue, in order. -/
  put : List F
  /-- The tasks that were taken, in order, each with its worker. -/
  started : List (W × F)
  /-- The workers that have taken a task after `stop()` was called, once for each task. -/
  late : List W

namespace TaskLog

variable {P W F : Type} (s : ThreadPool P W F)

/-- The task that a step puts into the queue. -/
def puts : ThreadPool.Step P W F → List F
  | .run _ task _ => if s.isFull then [] else [task]
  | .runAwakened k _ =>
      match s.notFull k with
      | .awakened task => if s.isFull then [] else [task]
      | _ => []
  | _ => []

/-- The task that a step takes out of the queue. -/
def takes : ThreadPool.Step P W F → List (W × F)
  | .take w _ | .takeAwakened w _ => s.queue.head?.toList.map (w, ·)
  | _ => []

variable [DecidableEq P] [DecidableEq W]

/-- A step of the pool, with its puts and takes noted. -/
def exec (s : TaskLog P W F) (a : ThreadPool.Step P W F) : Checked (TaskLog P W F) := do
  let pool ← s.pool.exec a
  return { pool
           put := s.put ++ puts s.pool a
           started := s.started ++ takes s.pool a
           late := s.late ++ if s.pool.running then [] else (takes s.pool a).map Prod.fst }

end TaskLog

/-- The pool and its tasks. -/
def taskLog (P W F : Type) [DecidableEq P] [DecidableEq W] :
    Machine (TaskLog P W F) (ThreadPool.Step P W F) where
  init s := (threadPool P W F).init s.pool ∧ s.put = [] ∧ s.started = [] ∧ s.late = []
  enabled s := s.pool.Enabled
  exec s a := s.exec a

namespace TaskLog

variable {P W F : Type} [DecidableEq P] [DecidableEq W] {s t : ThreadPool P W F}

/-- A step of the log is a step of the pool. -/
theorem exec_eq {s : TaskLog P W F} {a : ThreadPool.Step P W F} {pool : ThreadPool P W F}
    (hpool : s.pool.exec a = .ok pool) :
    s.exec a = .ok
      { pool
        put := s.put ++ puts s.pool a
        started := s.started ++ takes s.pool a
        late := s.late ++ if s.pool.running then [] else (takes s.pool a).map Prod.fst } := by
  rw [exec, hpool]
  rfl

/-! ## The queue -/

/-- `run()` waits when the queue is full, and otherwise puts its task behind the others. -/
theorem runLocked_queue {k : P ⊕ W} {task : F} {woken : Option W} (ht : s.runLocked k task woken = .ok t) :
    t.queue = s.queue ++ if s.isFull then [] else [task] := by
  unfold ThreadPool.runLocked at ht
  split at ht
  · next hfull =>
      cases ht
      rw [if_pos hfull, List.append_nil]
  · next hfull =>
      obtain ⟨-, ht⟩ := Checked.assert_bind_eq_ok.mp ht
      cases ht
      rw [if_neg hfull]

/-- The task taken is the first of the queue. -/
theorem takeLocked_queue (w : W) (woken : Option (P ⊕ W)) :
    s.queue.head?.toList ++ (s.takeLocked w woken).queue = s.queue := by
  unfold ThreadPool.takeLocked
  split
  · next hempty =>
      rw [List.isEmpty_iff.mp hempty.1]
      rfl
  · split
    · next hqueue =>
        rw [hqueue]
        rfl
    · next hqueue =>
        dsimp only [ThreadPool.setWorker]
        rw [hqueue]
        rfl

/-- A step takes from the front of the queue and puts at its end. -/
theorem exec_queue {a : ThreadPool.Step P W F} (ht : s.exec a = .ok t) :
    (takes s a).map Prod.snd ++ t.queue = s.queue ++ puts s a := by
  have htake (w : W) : (s.queue.head?.toList.map (w, ·)).map Prod.snd = s.queue.head?.toList := by
    rw [List.map_map]
    exact List.map_id' _
  cases a with
  | run k task woken => exact runLocked_queue ht
  | runAwakened k woken =>
      dsimp only [ThreadPool.exec, ThreadPool.runAwakened, puts, takes] at ht ⊢
      cases hk : s.notFull k with
      | awakened task =>
          simp only [hk] at ht ⊢
          exact runLocked_queue (s := { s with notFull := s.notFull.leave k }) ht
      | away | waiting _ =>
          simp only [hk] at ht ⊢
          cases ht
          exact (List.append_nil _).symm
  | take w woken =>
      cases ht
      dsimp only [takes, puts]
      rw [htake, List.append_nil]
      exact takeLocked_queue w woken
  | takeAwakened w woken =>
      cases ht
      dsimp only [takes, puts]
      rw [htake, List.append_nil]
      exact takeLocked_queue (s := { s with notEmpty := s.notEmpty.leave w }) w woken
  | _ =>
      cases ht
      exact (List.append_nil _).symm

/-! ## Wakeups -/

section Wakeups

variable [Fintype P] [Fintype W]

/-- For every task in the queue a worker that waits is awakened, and for every free place a caller of `run()`. -/
structure Supplied (s : ThreadPool P W F) : Prop where
  room : 0 < s.maxQueueSize ∧ s.queue.length ≤ s.maxQueueSize
  notEmpty : s.notEmpty.Covered s.queue.length
  notFull : s.notFull.Covered (s.maxQueueSize - s.queue.length)

/-- A caller of `run()` that is going to fill one of the free places itself. -/
theorem runLocked_supplied (hroom : 0 < s.maxQueueSize ∧ s.queue.length ≤ s.maxQueueSize)
    (hnotEmpty : s.notEmpty.Covered s.queue.length)
    (hnotFull : s.notFull.Covered (s.maxQueueSize - s.queue.length - 1)) (k : P ⊕ W) (task : F) {woken : Option W}
    (hwoken : s.isFull = false → s.notEmpty.Notifies woken) : (s.runLocked k task woken).Sat Supplied := by
  have hfull : s.isFull = true ↔ s.maxQueueSize ≤ s.queue.length := by
    rw [ThreadPool.isFull, decide_eq_true_iff]
    exact and_iff_right hroom.1
  unfold ThreadPool.runLocked
  split
  · next h =>
      refine .ok ⟨hroom, hnotEmpty, ?_⟩
      dsimp only
      rw [Nat.sub_eq_zero_of_le (hfull.mp h)]
      exact .zero
  · next h =>
      have hlt : s.queue.length < s.maxQueueSize := not_le.mp (mt hfull.mpr h)
      have hlength : (s.queue ++ [task]).length = s.queue.length + 1 := List.length_append
      refine .assert h (.ok ⟨⟨hroom.1, ?_⟩, ?_, ?_⟩)
      · dsimp only
        omega
      · dsimp only
        rw [hlength]
        exact hnotEmpty.notify (hwoken (Bool.eq_false_iff.mpr h))
      · dsimp only
        rw [hlength, ← Nat.sub_sub]
        exact hnotFull

/-- A worker that is going to take one of the tasks itself. -/
theorem takeLocked_supplied (hroom : 0 < s.maxQueueSize ∧ s.queue.length ≤ s.maxQueueSize)
    (hnotEmpty : s.notEmpty.Covered (s.queue.length - 1))
    (hnotFull : s.notFull.Covered (s.maxQueueSize - s.queue.length)) (w : W) {woken : Option (P ⊕ W)}
    (hwoken : s.queue ≠ [] → s.notFull.Notifies woken) : Supplied (s.takeLocked w woken) := by
  unfold ThreadPool.takeLocked
  split
  · next hempty =>
      refine ⟨hroom, ?_, hnotFull⟩
      dsimp only
      rw [List.isEmpty_iff.mp hempty.1]
      exact .zero
  · split
    · next x rest hqueue =>
        rw [hqueue, List.length_cons] at hroom hnotEmpty hnotFull
        refine ⟨⟨hroom.1, Nat.le_of_succ_le hroom.2⟩, hnotEmpty, ?_⟩
        dsimp only [ThreadPool.setWorker]
        rw [if_pos hroom.1]
        refine (hnotFull.notify (hwoken (hqueue ▸ List.cons_ne_nil _ _))).mono ?_
        omega
    · next hqueue =>
        refine ⟨hroom, ?_, hnotFull⟩
        dsimp only [ThreadPool.setWorker]
        rw [hqueue]
        exact .zero

/-- Every step keeps the awakened threads enough for the tasks. -/
theorem Supplied.step (h : Supplied s) {a : ThreadPool.Step P W F} (ha : s.Enabled a) :
    (s.exec a).Sat Supplied := by
  obtain ⟨hroom, hnotEmpty, hnotFull⟩ := h
  cases a with
  | run k task woken => exact runLocked_supplied hroom hnotEmpty (hnotFull.mono (Nat.sub_le _ _)) k task ha.2.2
  | runAwakened k woken =>
      dsimp only [ThreadPool.exec, ThreadPool.runAwakened]
      split
      · next task _ =>
          exact runLocked_supplied (s := { s with notFull := s.notFull.leave k }) hroom hnotEmpty
            (hnotFull.leave_pred k) k task ha.2
      · exact .ok ⟨hroom, hnotEmpty, hnotFull⟩
  | checkRunning w => exact .ok ⟨hroom, hnotEmpty, hnotFull⟩
  | take w woken => exact .ok (takeLocked_supplied hroom (hnotEmpty.mono (Nat.sub_le _ _)) hnotFull w ha.2.2)
  | takeAwakened w woken =>
      exact .ok (takeLocked_supplied (s := { s with notEmpty := s.notEmpty.leave w }) hroom (hnotEmpty.leave_pred w)
        hnotFull w ha.2.2)
  | taskDone w => exact .ok ⟨hroom, hnotEmpty, hnotFull⟩
  | stop =>
      refine .ok ⟨hroom, fun hwaiting => ?_, hnotFull⟩
      obtain ⟨w, hw⟩ := hwaiting
      cases (Waiter.isWaiting_wake _).symm.trans hw
  | joined => exact .ok ⟨hroom, hnotEmpty, hnotFull⟩
  | wakeCaller k => exact .ok ⟨hroom, hnotEmpty, hnotFull.wake k⟩
  | wakeWorker w => exact .ok ⟨hroom, hnotEmpty.wake w, hnotFull⟩

end Wakeups

/-! ## After `stop()` -/

/-- From `s` to `t` no worker comes to `take()` unless the pool is running, and who has taken a task is in `take()`
no more, unless the pool is running. -/
structure Stopping (s t : ThreadPool P W F) (taken : List (W × F)) : Prop where
  running : t.running = true → s.running = true
  enters : ∀ w, t.workers w = .take → s.workers w = .take ∨ s.running = true
  leaves : ∀ p ∈ taken, s.running = false → t.workers p.1 ≠ .take

omit [DecidableEq P] in
/-- A step of one worker. -/
theorem Stopping.of_update {taken : List (W × F)} {w : W} {pc : ThreadPool.WorkerPc} (hrunning : t.running = s.running)
    (hworkers : t.workers = Function.update s.workers w pc) (hpc : pc = .take → s.running = true)
    (htaken : ∀ p ∈ taken, p.1 = w) : Stopping s t taken := by
  refine ⟨fun h => hrunning ▸ h, fun w' hw' => ?_, fun p hp hstopped htake => ?_⟩
  · rw [hworkers] at hw'
    by_cases hne : w' = w
    · rw [hne, Function.update_self] at hw'
      exact .inr (hpc hw')
    · rw [Function.update_of_ne hne] at hw'
      exact .inl hw'
  · rw [hworkers, htaken p hp, Function.update_self] at htake
    cases hstopped.symm.trans (hpc htake)

omit [DecidableEq P] [DecidableEq W] in
/-- A step that changes no worker. -/
theorem Stopping.of_eq {taken : List (W × F)} (hrunning : t.running = s.running) (hworkers : t.workers = s.workers)
    (htaken : taken = [] ∨ s.running = true) : Stopping s t taken := by
  refine ⟨fun h => hrunning ▸ h, fun w hw => .inl (hworkers ▸ hw), fun p hp hstopped => ?_⟩
  rcases htaken with rfl | hrunning
  · cases hp
  · cases hstopped.symm.trans hrunning

/-- `run` takes no task. -/
theorem Stopping.runLocked {k : P ⊕ W} {task : F} {woken : Option W} (ht : s.runLocked k task woken = .ok t) :
    Stopping s t [] := by
  rcases ThreadPool.runLocked_cases ht with ⟨-, rfl⟩ | ⟨-, _, _, rfl⟩
  · exact .of_eq rfl rfl (.inl rfl)
  · exact .of_eq rfl rfl (.inl rfl)

/-- `take` takes the first task. -/
theorem Stopping.takeLocked (w : W) (woken : Option (P ⊕ W)) :
    Stopping s (s.takeLocked w woken) (s.queue.head?.toList.map (w, ·)) := by
  have htaken : ∀ p ∈ s.queue.head?.toList.map (w, ·), p.1 = w := by
    intro p hp
    obtain ⟨x, -, rfl⟩ := List.mem_map.mp hp
    rfl
  unfold ThreadPool.takeLocked
  split
  · next hempty => exact .of_eq rfl rfl (.inr hempty.2)
  · split
    · exact .of_update rfl rfl (by simp) htaken
    · exact .of_update rfl rfl (by simp) htaken

/-- What a step takes, and by whom. -/
theorem Stopping.exec {a : ThreadPool.Step P W F} (ht : s.exec a = .ok t) : Stopping s t (takes s a) := by
  cases a with
  | run k task woken => exact .runLocked ht
  | runAwakened k woken =>
      rcases ThreadPool.runAwakened_cases ht with rfl | ⟨task, ht⟩
      · exact .of_eq rfl rfl (.inl rfl)
      · obtain ⟨hrunning, henters, -⟩ := Stopping.runLocked ht
        exact ⟨hrunning, henters, nofun⟩
  | checkRunning w =>
      cases ht
      refine .of_update rfl rfl (fun hpc => ?_) nofun
      split at hpc
      · next hrunning => exact hrunning
      · cases hpc
  | take w woken =>
      cases ht
      exact .takeLocked w woken
  | takeAwakened w woken =>
      cases ht
      obtain ⟨hrunning, henters, hleaves⟩ := Stopping.takeLocked (s := { s with notEmpty := s.notEmpty.leave w }) w woken
      exact ⟨hrunning, henters, hleaves⟩
  | taskDone w =>
      cases ht
      exact .of_update rfl rfl nofun nofun
  | stop =>
      cases ht
      exact ⟨nofun, fun _ hw => .inl hw, nofun⟩
  | joined | wakeCaller _ | wakeWorker _ =>
      cases ht
      exact .of_eq rfl rfl (.inl rfl)

/-- Each worker has taken at most one task after `stop()` was called, and then it is not in `take()` again. -/
structure LateInv (s : TaskLog P W F) : Prop where
  running : s.pool.running = true → s.late = []
  workers : ∀ w ∈ s.late, s.pool.workers w ≠ .take
  nodup : s.late.Nodup

omit [DecidableEq P] [DecidableEq W] in
/-- A worker takes a task in `take()`, and only one. -/
theorem takes_cases (s : ThreadPool P W F) {a : ThreadPool.Step P W F} (ha : s.Enabled a) :
    takes s a = [] ∨ ∃ w x, s.workers w = .take ∧ takes s a = [(w, x)] := by
  have hhead {w : W} (hw : s.workers w = .take) : s.queue.head?.toList.map (w, ·) = [] ∨
      ∃ w' x, s.workers w' = .take ∧ s.queue.head?.toList.map (w, ·) = [(w', x)] := by
    cases s.queue with
    | nil => exact .inl rfl
    | cons x rest => exact .inr ⟨w, x, hw, rfl⟩
  cases a with
  | take w woken => exact hhead ha.1
  | takeAwakened w woken => exact hhead ha.1
  | _ => exact .inl rfl

/-- Every step keeps that a worker takes at most one task late. -/
theorem LateInv.step {s t : TaskLog P W F} (h : LateInv s) {a : ThreadPool.Step P W F} (ha : s.pool.Enabled a)
    (ht : s.exec a = .ok t) : LateInv t := by
  obtain ⟨pool, hpool, ht⟩ := Checked.bind_eq_ok.mp ht
  cases ht
  obtain ⟨hrunning, henters, hleaves⟩ := Stopping.exec hpool
  have hlate : ∀ w ∈ s.late, pool.workers w ≠ .take := by
    intro w hw htake
    rcases henters w htake with htake | hstill
    · exact h.workers w hw htake
    · rw [h.running hstill] at hw
      cases hw
  cases hstopped : s.pool.running with
  | true => exact ⟨fun _ => by simp [h.running hstopped], by simpa using hlate, by simpa using h.nodup⟩
  | false =>
      refine ⟨fun hstill => ?_, fun w hw => ?_, ?_⟩
      · cases hstopped.symm.trans (hrunning hstill)
      · rcases List.mem_append.mp hw with hw | hw
        · exact hlate w hw
        · obtain ⟨p, hp, rfl⟩ := List.mem_map.mp hw
          exact hleaves p hp hstopped
      · rcases takes_cases s.pool ha with htakes | ⟨w, x, hw, htakes⟩
        · simpa [htakes] using h.nodup
        · rw [htakes]
          refine List.nodup_append.mpr ⟨h.nodup, List.nodup_singleton w, fun w' hw' w'' hw'' heq => ?_⟩
          rw [List.mem_singleton.mp hw''] at heq
          exact h.workers w' hw' (heq ▸ hw)

/-! ## The result -/

variable [Fintype P] [Fintype W]

/-- What holds between any two steps. -/
structure Inv (s : TaskLog P W F) : Prop where
  order : s.started.map Prod.snd ++ s.pool.queue = s.put
  supplied : Supplied s.pool
  late : LateInv s
  stopping : s.pool.StopInv

/-- The invariant holds at the start. -/
theorem Inv.of_init {s : TaskLog P W F} (hs : (taskLog P W F).init s) : Inv s := by
  obtain ⟨pool, put, started, late⟩ := s
  obtain ⟨⟨hne, maxQueueSize, hpos, rfl⟩, rfl, rfl, rfl⟩ := hs
  refine ⟨rfl, ⟨⟨hpos, Nat.zero_le _⟩, .idle, .idle⟩, ⟨fun _ => rfl, nofun, List.nodup_nil⟩, ?_⟩
  exact .of_reachable (.of_init ⟨hne, maxQueueSize, hpos, rfl⟩)

/-- Every step keeps the invariant. -/
theorem Inv.step {s : TaskLog P W F} (h : Inv s) {a : ThreadPool.Step P W F} (ha : s.pool.Enabled a) :
    (s.exec a).Sat Inv := by
  obtain ⟨pool, hpool, hsupplied⟩ := h.supplied.step ha
  have ht := exec_eq hpool
  refine ⟨_, ht, ?_, hsupplied, h.late.step ha ht, h.stopping.step ha hpool⟩
  dsimp only
  rw [List.map_append, List.append_assoc, exec_queue hpool, ← List.append_assoc, h.order]

/-- **Every task is started once and in order.** For any numbers of producers and workers and in every order of
their steps: what has been started and what is in the queue are the tasks that `run()` has put there, in order, and
never more than `maxQueueSize_` wait. While a worker waits, as many workers are awakened as there are tasks, and
while a caller of `run()` waits, as many callers as there are free places. After `stop()` was called each worker
starts at most one more task, and once it has returned no task is started any more. -/
theorem tasks_started_in_order {s : TaskLog P W F} (hs : (taskLog P W F).Reachable s) :
    s.started.map Prod.snd ++ s.pool.queue = s.put ∧
    s.pool.queue.length ≤ s.pool.maxQueueSize ∧
    (s.pool.notEmpty.SomeWaiting → s.pool.queue.length ≤ s.pool.notEmpty.awakened.card) ∧
    (s.pool.notFull.SomeWaiting → s.pool.maxQueueSize - s.pool.queue.length ≤ s.pool.notFull.awakened.card) ∧
    s.late.Nodup ∧
    (s.pool.stopper = .returned → ∀ a, s.pool.Enabled a → takes s.pool a = []) ∧
    (taskLog P W F).Safe s := by
  obtain ⟨h, hsafe⟩ := Machine.invariant (fun _ => Inv.of_init) (fun _ _ h ha => h.step ha) hs
  refine ⟨h.order, h.supplied.room.2, h.supplied.notEmpty, h.supplied.notFull, h.late.nodup, ?_, hsafe⟩
  intro hreturned a ha
  rcases takes_cases s.pool ha with htakes | ⟨w, x, hw, -⟩
  · exact htakes
  · cases hw.symm.trans (h.stopping.joined hreturned w)

/-- A worker starts a task after `stop()` was called. -/
theorem tasks_started_in_order_late : ∃ s : TaskLog Unit Unit Nat, (taskLog Unit Unit Nat).Reachable s ∧
    s.late = [()] ∧ s.started.map Prod.snd ++ s.pool.queue = [1, 2] := by
  have h0 : (taskLog Unit Unit Nat).Reachable ⟨.started 2, [], [], []⟩ :=
    .of_init ⟨⟨⟨()⟩, 2, by decide, rfl⟩, rfl, rfl, rfl⟩
  have hnobody : ¬ CondVar.SomeWaiting (CondVar.idle : CondVar Unit Unit) := CondVar.not_someWaiting_idle
  have h1 := h0.step (a := ThreadPool.Step.run (Sum.inl ()) 1 none) ⟨rfl, trivial, fun _ => hnobody⟩ rfl
  have h2 := h1.step (a := ThreadPool.Step.run (Sum.inl ()) 2 none) ⟨rfl, trivial, fun _ => hnobody⟩ rfl
  have h3 := h2.step (a := ThreadPool.Step.checkRunning ()) rfl rfl
  have h4 := h3.step (a := ThreadPool.Step.stop) rfl rfl
  have h5 := h4.step (a := ThreadPool.Step.take () none) ⟨rfl, rfl, fun _ => CondVar.not_someWaiting_idle⟩ rfl
  exact ⟨_, h5, rfl, (tasks_started_in_order h5).1⟩

end TaskLog

end Muduo
