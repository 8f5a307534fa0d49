import Muduo.Net.EventLoopWakeup

/-! # The functors of an event loop over its whole life

`loop()` is left after a `quit()` and may be called again, and functors are queued before the first call
and between two calls as well, by other threads and by the loop thread itself. Over all of that no functor
is lost, repeated or overtaken, and one pass of `doPendingFunctors` runs what was pending when it began and
nothing else: `functors_once_in_order`. -/

namespace Muduo.Net

open Support

/-- What happens to an event loop: a step of `loop()` or of another thread, or something that the loop
thread does outside `loop()`. -/
inductive EventLoop.Action (T F : Type) where
  | loop
  | queueInLoop (cb : F)
  | step (a : EventLoop.Step T F)

namespace EventLoop

variable {T F : Type}

/-- `EventLoop()`. That `loop()` has not been called yet is as if it had returned. -/
def new : EventLoop T F :=
  { pc := .returned, quit := false, callingPendingFunctors := false, activeChannels := []
    pendingFunctors := [], functors := [], wakeupFd := 0, queueing := false
    threads := fun _ => .idle, pushed := [], called := [] }

/-- The head of `loop()`, up to its first test of `quit_`. -/
def loop (s : EventLoop T F) : EventLoop T F := { s with pc := .checkQuit, quit := false }

variable [DecidableEq T]

/-- When an action can happen: the two calls need the loop to be outside `loop()`. -/
def Allowed (s : EventLoop T F) : EventLoop.Action T F → Prop
  | .loop | .queueInLoop _ => s.pc = .returned
  | .step a => s.Enabled a

/-- What an action does. -/
def act (s : EventLoop T F) : EventLoop.Action T F → EventLoop T F
  | .loop => s.loop
  | .queueInLoop cb => (s.push cb).afterPush true
  | .step a => s.step a

end EventLoop

/-- An event loop from its constructor on. -/
def eventLoopLife (T F : Type) [DecidableEq T] : Machine (EventLoop T F) (EventLoop.Action T F) where
  init s := s = EventLoop.new
  enabled := EventLoop.Allowed
  exec s a := .ok (s.act a)

namespace EventLoop

variable {T F : Type} {s t : EventLoop T F}

/-! ## Nothing is lost or overtaken -/

/-- The order holds at the start. -/
theorem OrderInv.new : (new : EventLoop T F).OrderInv := ⟨rfl, nofun⟩

variable [DecidableEq T]

/-- Every action keeps the order. -/
theorem OrderInv.act (h : s.OrderInv) {a : EventLoop.Action T F} (ha : s.Allowed a) :
    (s.act a).OrderInv := by
  cases a with
  | loop => exact h.of_no_batch (h.no_batch ha nofun nofun) rfl rfl rfl rfl
  | queueInLoop cb => exact (h.push cb).afterPush true
  | step a => exact h.step ha

/-- The order holds over the loop's whole life. -/
theorem OrderInv.of_life (hs : (eventLoopLife T F).Reachable s) : s.OrderInv := by
  refine hs.induction (P := OrderInv) ?_ fun s a t h ha ht => ?_
  · rintro s rfl
    exact .new
  · cases ht
    exact h.act ha

/-! ## What a pass runs -/

/-- From `s` to `t` no batch has begun: what has been or is to be run is the same, and what has been
pushed is pending. -/
structure SameBatch (s t : EventLoop T F) : Prop where
  batch : t.called ++ t.functors = s.called ++ s.functors
  later : ∃ later, t.pushed = s.pushed ++ later ∧ t.pendingFunctors = s.pendingFunctors ++ later

omit [DecidableEq T] in
/-- A change of other members. -/
theorem SameBatch.of_eq (hcalled : t.called = s.called) (hfunctors : t.functors = s.functors)
    (hpending : t.pendingFunctors = s.pendingFunctors) (hpushed : t.pushed = s.pushed) :
    SameBatch s t where
  batch := by rw [hcalled, hfunctors]
  later := ⟨[], by rw [hpushed, List.append_nil], by rw [hpending, List.append_nil]⟩

omit [DecidableEq T] in
/-- One stretch after the other, without a batch between. -/
theorem SameBatch.trans {u : EventLoop T F} (h : SameBatch s t) (h' : SameBatch t u) :
    SameBatch s u := by
  obtain ⟨xs, hpushed, hpending⟩ := h.later
  obtain ⟨ys, hpushed', hpending'⟩ := h'.later
  refine ⟨h'.batch.trans h.batch, xs ++ ys, ?_, ?_⟩
  · rw [hpushed', hpushed, List.append_assoc]
  · rw [hpending', hpending, List.append_assoc]

omit [DecidableEq T] in
/-- A functor pushed waits for the next batch. -/
theorem SameBatch.push (s : EventLoop T F) (cb : F) : SameBatch s (s.push cb) := ⟨rfl, [cb], rfl, rfl⟩

omit [DecidableEq T] in
/-- Waking the loop begins no batch. -/
theorem SameBatch.afterPush (s : EventLoop T F) (isInLoopThread : Bool) :
    SameBatch s (s.afterPush isInLoopThread) := by
  unfold EventLoop.afterPush
  split <;> exact .of_eq rfl rfl rfl rfl

omit [DecidableEq T] in
/-- The next functor of the batch moves to those that have been called. -/
theorem SameBatch.nextFunctor (s : EventLoop T F) : SameBatch s s.nextFunctor := by
  unfold EventLoop.nextFunctor
  split
  · next functor rest hfunctors =>
      refine ⟨?_, [], (List.append_nil _).symm, (List.append_nil _).symm⟩
      show s.called ++ [functor] ++ rest = s.called ++ s.functors
      rw [hfunctors, List.append_assoc, List.singleton_append]
  · exact .of_eq rfl rfl rfl rfl

/-- Every step but the swap of the vectors leaves the batch as it is. -/
theorem SameBatch.step (s : EventLoop T F) {a : EventLoop.Step T F} (ha : a ≠ .swapFunctors) :
    SameBatch s (s.step a) := by
  cases a with
  | swapFunctors => exact absurd rfl ha
  | checkQuit =>
      show SameBatch s s.checkQuit
      unfold EventLoop.checkQuit
      split <;> exact .of_eq rfl rfl rfl rfl
  | nextChannel =>
      show SameBatch s s.nextChannel
      unfold EventLoop.nextChannel
      split <;> exact .of_eq rfl rfl rfl rfl
  | nextFunctor => exact .nextFunctor s
  | queueInLoop cb => exact (SameBatch.push s cb).trans (.of_eq rfl rfl rfl rfl)
  | queueInLoopReturns => exact (SameBatch.afterPush s true).trans (.of_eq rfl rfl rfl rfl)
  | threadQueueInLoop t cb => exact (SameBatch.push s cb).trans (.of_eq rfl rfl rfl rfl)
  | threadWakeup t =>
      show SameBatch s (s.threadWakeup t)
      unfold EventLoop.threadWakeup
      split
      · exact (SameBatch.afterPush s false).trans (.of_eq rfl rfl rfl rfl)
      · exact .of_eq rfl rfl rfl rfl
      · exact .of_eq rfl rfl rfl rfl
  | pollReturns _ | handlerReturns | eventsHandled | doPendingFunctors | functorReturns
  | functorsCalled | quit | threadQuit _ => exact .of_eq rfl rfl rfl rfl

/-- Only the swap begins a batch. -/
theorem SameBatch.act (s : EventLoop T F) {a : EventLoop.Action T F} (ha : a ≠ .step .swapFunctors) :
    SameBatch s (s.act a) := by
  cases a with
  | loop => exact .of_eq rfl rfl rfl rfl
  | queueInLoop cb => exact (SameBatch.push s cb).trans (.afterPush _ true)
  | step a => exact .step s fun heq => ha (by rw [heq])

/-- The event loop up to its next batch. -/
def untilSwap (T F : Type) [DecidableEq T] : Machine (EventLoop T F) (EventLoop.Action T F) :=
  (eventLoopLife T F).restrict fun _ a => a ≠ .step .swapFunctors

/-- A run without a swap begins no batch. -/
theorem SameBatch.of_run {as : List (EventLoop.Action T F)} (hrun : (untilSwap T F).Run s as t) :
    SameBatch s t := by
  refine hrun.induction (P := SameBatch s) (fun t a u h ha hu => ?_) (.of_eq rfl rfl rfl rfl)
  cases hu
  exact h.trans (.act t ha.2)

end EventLoop

/-- **Functors run once and in order.** At every moment of the life of an event loop the functors that
`doPendingFunctors` has run, those left of its batch and `pendingFunctors_` are the functors pushed so far,
in the order in which they were pushed. Until the next batch begins, what has been run together with what
is left to run stays the same, and what is pushed stays in `pendingFunctors_`: so nothing that is pushed
while a batch is run is run with it. -/
theorem functors_once_in_order {T F : Type} [DecidableEq T] {s : EventLoop T F}
    (hs : (eventLoopLife T F).Reachable s) :
    s.called ++ s.functors ++ s.pendingFunctors = s.pushed ∧
      ∀ as t, (EventLoop.untilSwap T F).Run s as t →
        t.called ++ t.functors = s.called ++ s.functors ∧
          ∃ later, t.pushed = s.pushed ++ later ∧
            t.pendingFunctors = s.pendingFunctors ++ later := by
  refine ⟨(EventLoop.OrderInv.of_life hs).order, fun as t hrun => ?_⟩
  have h := EventLoop.SameBatch.of_run hrun
  exact ⟨h.batch, h.later⟩

/-- The only functor of a batch is running. -/
def EventLoop.inBatch : EventLoop Unit Nat :=
  [.queueInLoop 1, .loop, .step .checkQuit, .step (.pollReturns []), .step .eventsHandled,
    .step .doPendingFunctors, .step .swapFunctors, .step .nextFunctor].foldl EventLoop.act EventLoop.new

/-- A run with one functor leads there. -/
theorem EventLoop.inBatch_reachable : (eventLoopLife Unit Nat).Reachable EventLoop.inBatch := by
  have hnew : (eventLoopLife Unit Nat).Reachable EventLoop.new := .of_init rfl
  have hqueued : (eventLoopLife Unit Nat).Reachable _ := hnew.step (a := .queueInLoop 1) rfl rfl
  have hloop : (eventLoopLife Unit Nat).Reachable _ := hqueued.step (a := .loop) rfl rfl
  have hpoll : (eventLoopLife Unit Nat).Reachable _ := hloop.step (a := .step .checkQuit) rfl rfl
  have hactive : (eventLoopLife Unit Nat).Reachable _ :=
    hpoll.step (a := .step (.pollReturns [])) ⟨rfl, nofun⟩ rfl
  have hhandled : (eventLoopLife Unit Nat).Reachable _ :=
    hactive.step (a := .step .eventsHandled) ⟨rfl, rfl⟩ rfl
  have hcalling : (eventLoopLife Unit Nat).Reachable _ :=
    hhandled.step (a := .step .doPendingFunctors) rfl rfl
  have hswapped : (eventLoopLife Unit Nat).Reachable _ := hcalling.step (a := .step .swapFunctors) rfl rfl
  exact hswapped.step (a := .step .nextFunctor) ⟨rfl, nofun⟩ rfl

/-- It queues another functor, which waits for the next batch. -/
theorem functors_once_in_order_inBatch :
    EventLoop.inBatch.pc = .inFunctor ∧
      (EventLoop.inBatch.act (.step (.queueInLoop 2))).called
        ++ (EventLoop.inBatch.act (.step (.queueInLoop 2))).functors = [1] ∧
      (EventLoop.inBatch.act (.step (.queueInLoop 2))).pendingFunctors = [2] :=
  ⟨rfl, ((functors_once_in_order EventLoop.inBatch_reachable).2 [.step (.queueInLoop 2)] _
    (.single ⟨⟨.inr rfl, rfl⟩, nofun⟩ rfl)).1, rfl⟩

end Muduo.Net
