import Muduo.Net.EventLoopFunctors

/-! # `net::EventLoopThread`

A thread that runs an event loop for its owner, `net/EventLoopThread.cpp`. The owner calls `startLoop`,
then `runInLoop` on the loop any number of times, and then the destructor, which asks the loop to quit and
joins the thread. The thread makes the loop in `threadFunc`, publishes it in `loop_`, and calls `loop()`.
Each critical section of `mutex_`, each access to `loop_` and to `quit_` and each operation on the eventfd
is one step; the loop itself takes the steps of `EventLoop`, with the owner as the one other thread.

`startLoop` returns as soon as `loop_` is published, and `loop()` begins by clearing `quit_`. So the
request to quit can come too early, and `destructor_stops_loop_iff` says when it does. -/

namespace Muduo.Net

open Support

/-- Where the thread is in `threadFunc()`. -/
inductive ThreadFuncPc where
  | notStarted
  | callback -- the loop exists, and `callback_` runs
  | beforeLoop -- `loop_` is published
  | loop
  | returned
  deriving DecidableEq, Repr

/-- Where the owner is. -/
inductive OwnerPc where
  | beforeStart
  | startLoop -- waiting for `loop_`
  | started -- the loop is in use
  | quit -- in the destructor, about to set `quit_`
  | wakeup -- in the destructor, before the `wakeup()` of `quit()`
  | join -- waiting in `thread_.join()`
  | destroyed
  deriving DecidableEq, Repr

/-- The thread, its loop, and the owner. -/
structure EventLoopThread (F : Type) where
  /-- Whether `loop_` is not null. -/
  published : Bool
  loop : EventLoop Unit F
  thread : ThreadFuncPc
  owner : OwnerPc

/-- The steps of the owner and of the thread. -/
inductive EventLoopThread.Step (F : Type) where
  | startThread
  | startLoopReturns
  | runInLoop (cb : F)
  | runInLoopReturns
  | destructor
  | quit
  | wakeup
  | joined
  -- the thread
  | queueInLoop (cb : F)
  | publish
  | enterLoop
  | inLoop (a : EventLoop.Step Unit F)
  | threadFuncReturns

/-- A step that the loop thread takes in `loop()`, other than a call of `quit()`. -/
def EventLoop.Step.IsLoops {T F : Type} : EventLoop.Step T F → Prop
  | .quit | .threadQueueInLoop _ _ | .threadQuit _ | .threadWakeup _ => False
  | _ => True

namespace EventLoopThread

variable {F : Type}

/-- The constructor. -/
def new : EventLoopThread F :=
  { published := false, loop := EventLoop.new, thread := .notStarted, owner := .beforeStart }

variable (s : EventLoopThread F)

/-- When a step is possible. Nobody but the destructor calls `quit()`. -/
def Enabled : EventLoopThread.Step F → Prop
  | .startThread => s.owner = .beforeStart
  | .startLoopReturns => s.owner = .startLoop ∧ s.published = true
  | .runInLoop cb => s.owner = .started ∧ s.loop.Enabled (.threadQueueInLoop () cb)
  | .runInLoopReturns => s.owner = .started ∧ s.loop.Enabled (.threadWakeup ())
  | .destructor => s.owner = .started ∧ s.loop.threads () = .idle
  | .quit => s.owner = .quit
  | .wakeup => s.owner = .wakeup
  | .joined => s.owner = .join ∧ s.thread = .returned
  | .queueInLoop _ | .publish => s.thread = .callback
  | .enterLoop => s.thread = .beforeLoop
  | .inLoop a => s.thread = .loop ∧ s.loop.Enabled a ∧ a.IsLoops
  | .threadFuncReturns => s.thread = .loop ∧ s.loop.pc = .returned

/-- What a step does. -/
def step : EventLoopThread.Step F → EventLoopThread F
  | .startThread => { s with thread := .callback, owner := .startLoop }
  | .startLoopReturns => { s with owner := .started }
  | .runInLoop cb => { s with loop := s.loop.step (.threadQueueInLoop () cb) }
  | .runInLoopReturns => { s with loop := s.loop.step (.threadWakeup ()) }
  | .destructor => { s with owner := if s.published then .quit else .destroyed }
  | .quit => { s with loop := s.loop.step (.threadQuit ()), owner := .wakeup }
  | .wakeup => { s with loop := s.loop.step (.threadWakeup ()), owner := .join }
  | .joined => { s with owner := .destroyed }
  | .queueInLoop cb => { s with loop := s.loop.act (.queueInLoop cb) }
  | .publish => { s with published := true, thread := .beforeLoop }
  | .enterLoop => { s with loop := s.loop.loop, thread := .loop }
  | .inLoop a => { s with loop := s.loop.step a }
  | .threadFuncReturns => { s with published := false, thread := .returned }

/-- The destructor waits for a loop that has not been asked to quit. -/
def Lost : Prop :=
  s.owner = .join ∧ s.thread = .loop ∧ s.loop.pc ≠ .returned ∧ s.loop.quit = false

end EventLoopThread

/-- An event loop thread and its owner. -/
def eventLoopThread (F : Type) : Machine (EventLoopThread F) (EventLoopThread.Step F) where
  init s := s = EventLoopThread.new
  enabled := EventLoopThread.Enabled
  exec s a := .ok (s.step a)

/-! ## What the loop does to `quit_` -/

namespace EventLoop

variable {T F : Type}

/-- Waking the loop asks nobody to quit. -/
theorem quit_afterPush (s : EventLoop T F) (isInLoopThread : Bool) :
    (s.afterPush isInLoopThread).quit = s.quit := by
  unfold afterPush
  split <;> rfl

/-- Waking the loop does not move it. -/
theorem pc_afterPush (s : EventLoop T F) (isInLoopThread : Bool) :
    (s.afterPush isInLoopThread).pc = s.pc := by
  unfold afterPush
  split <;> rfl

/-- A handler asks nobody to quit by itself. -/
theorem quit_nextChannel (s : EventLoop T F) : s.nextChannel.quit = s.quit := by
  unfold nextChannel
  split <;> rfl

/-- A functor asks nobody to quit by itself. -/
theorem quit_nextFunctor (s : EventLoop T F) : s.nextFunctor.quit = s.quit := by
  unfold nextFunctor
  split <;> rfl

/-- The test of `quit_` leaves it. -/
theorem quit_checkQuit (s : EventLoop T F) : s.checkQuit.quit = s.quit := by
  unfold checkQuit
  split <;> rfl

variable [DecidableEq T]

/-- Another thread's wakeup leaves `quit_`. -/
theorem quit_threadWakeup (s : EventLoop T F) (t : T) : (s.threadWakeup t).quit = s.quit := by
  unfold threadWakeup
  split
  · exact s.quit_afterPush false
  · rfl
  · rfl

/-- The loop thread leaves `quit_` alone, unless the user calls `quit()` there. -/
theorem quit_step (s : EventLoop T F) {a : EventLoop.Step T F} (ha : a.IsLoops) :
    (s.step a).quit = s.quit := by
  cases a with
  | checkQuit => exact s.quit_checkQuit
  | nextChannel => exact s.quit_nextChannel
  | nextFunctor => exact s.quit_nextFunctor
  | queueInLoopReturns => exact s.quit_afterPush true
  | quit | threadQueueInLoop _ _ | threadQuit _ | threadWakeup _ => exact ha.elim
  | pollReturns _ | handlerReturns | eventsHandled | doPendingFunctors | swapFunctors | functorReturns
  | functorsCalled | queueInLoop _ => rfl

/-- `loop()` goes on while `quit_` is not set. -/
theorem step_not_returned {s : EventLoop T F} {a : EventLoop.Step T F} (ha : a.IsLoops)
    (hquit : s.quit = false) (hpc : s.pc ≠ .returned) : (s.step a).pc ≠ .returned := by
  cases a with
  | checkQuit =>
      show s.checkQuit.pc ≠ _
      rw [checkQuit, hquit]
      exact nofun
  | nextChannel =>
      show s.nextChannel.pc ≠ _
      unfold nextChannel
      split
      · exact hpc
      · exact nofun
      · exact hpc
  | nextFunctor =>
      show s.nextFunctor.pc ≠ _
      unfold nextFunctor
      split
      · exact nofun
      · exact hpc
  | queueInLoopReturns =>
      show (s.afterPush true).pc ≠ _
      rw [pc_afterPush]
      exact hpc
  | queueInLoop _ => exact hpc
  | quit | threadQueueInLoop _ _ | threadQuit _ | threadWakeup _ => exact ha.elim
  | pollReturns _ | handlerReturns | eventsHandled | doPendingFunctors | swapFunctors | functorReturns
  | functorsCalled => exact nofun

end EventLoop

/-! ## When the request is lost -/

/-- The loop has been published, and may be gone already. -/
def ThreadFuncPc.hasPublished : ThreadFuncPc → Bool
  | .beforeLoop | .loop | .returned => true
  | .notStarted | .callback => false

/-- `startLoop` has returned. -/
def OwnerPc.hasStarted : OwnerPc → Bool
  | .beforeStart | .startLoop => false
  | _ => true

/-- The destructor has set `quit_`. -/
def OwnerPc.hasQuit : OwnerPc → Bool
  | .wakeup | .join | .destroyed => true
  | _ => false

namespace EventLoopThread

variable {F : Type} {s : EventLoopThread F}

/-- The owner uses the loop only after it has been published. -/
structure Inv (s : EventLoopThread F) : Prop where
  start : s.owner = .beforeStart → s.thread = .notStarted
  published : s.published = true → s.thread.hasPublished = true
  started : s.owner.hasStarted = true → s.thread.hasPublished = true

/-- The invariant holds at the start. -/
theorem Inv.new : (new : EventLoopThread F).Inv := ⟨fun _ => rfl, nofun, nofun⟩

/-- The owner goes on, with the loop published before. -/
theorem Inv.of_owner (h : s.Inv) (hpub : s.thread.hasPublished = true) (loop : EventLoop Unit F)
    {owner : OwnerPc} (howner : owner ≠ .beforeStart) : Inv { s with loop, owner } :=
  ⟨fun hstart => absurd hstart howner, h.published, fun _ => hpub⟩

/-- The thread goes on, and has published the loop. -/
theorem Inv.of_thread (h : s.Inv) (hthread : s.thread ≠ .notStarted) (published : Bool)
    (loop : EventLoop Unit F) {thread : ThreadFuncPc} (hpub : thread.hasPublished = true) :
    Inv { s with published, loop, thread } :=
  ⟨fun hstart => absurd (h.start hstart) hthread, fun _ => hpub, fun _ => hpub⟩

/-- Every step keeps the invariant. -/
theorem Inv.step (h : s.Inv) {a : EventLoopThread.Step F} (ha : s.Enabled a) : (s.step a).Inv := by
  cases a with
  | startThread =>
      have hthread := h.start ha
      refine ⟨nofun, fun hpub => ?_, nofun⟩
      -- nothing is published before the thread has started
      have hpub' := h.published hpub
      rw [hthread] at hpub'
      cases hpub'
  | startLoopReturns => exact h.of_owner (h.published ha.2) s.loop nofun
  | runInLoop cb => exact ⟨h.start, h.published, h.started⟩
  | runInLoopReturns => exact ⟨h.start, h.published, h.started⟩
  | destructor =>
      have hpub := h.started (by rw [ha.1]; rfl)
      refine h.of_owner hpub s.loop ?_
      split <;> exact nofun
  | quit =>
      have howner : s.owner = .quit := ha
      exact h.of_owner (h.started (by rw [howner]; rfl)) _ nofun
  | wakeup =>
      have howner : s.owner = .wakeup := ha
      exact h.of_owner (h.started (by rw [howner]; rfl)) _ nofun
  | joined => exact h.of_owner (h.started (by rw [ha.1]; rfl)) s.loop nofun
  | queueInLoop cb => exact ⟨h.start, h.published, h.started⟩
  | publish =>
      have hthread : s.thread = .callback := ha
      exact h.of_thread (by rw [hthread]; exact nofun) _ s.loop rfl
  | enterLoop =>
      have hthread : s.thread = .beforeLoop := ha
      exact h.of_thread (by rw [hthread]; exact nofun) s.published _ rfl
  | inLoop a => exact ⟨h.start, h.published, h.started⟩
  | threadFuncReturns => exact h.of_thread (by rw [ha.1]; exact nofun) _ s.loop rfl

/-- The invariant holds in every reachable state. -/
theorem Inv.of_reachable (hs : (eventLoopThread F).Reachable s) : s.Inv := by
  refine hs.induction (P := Inv) ?_ fun s a t h ha ht => ?_
  · rintro s rfl
    exact .new
  · cases ht
    exact h.step ha

/-- The destructor has set `quit_` after `loop()` cleared it. -/
structure Told (s : EventLoopThread F) : Prop where
  owner : s.owner.hasQuit = true
  thread : s.thread = .loop ∨ s.thread = .returned
  quit : s.loop.quit = true

/-- A request that was told is not lost. -/
theorem Told.not_lost (h : s.Told) : ¬ s.Lost := by
  rintro ⟨-, -, -, hquit⟩
  rw [h.quit] at hquit
  cases hquit

/-- Nobody clears `quit_` any more. -/
theorem Told.step (h : s.Told) {a : EventLoopThread.Step F} (ha : s.Enabled a) : (s.step a).Told := by
  obtain ⟨howner, hthread, hquit⟩ := h
  cases a with
  | startThread =>
      have ha' : s.owner = .beforeStart := ha
      rw [ha'] at howner
      cases howner
  | startLoopReturns | runInLoop _ | runInLoopReturns | destructor =>
      rw [ha.1] at howner
      cases howner
  | quit =>
      have ha' : s.owner = .quit := ha
      rw [ha'] at howner
      cases howner
  | wakeup => exact ⟨rfl, hthread, (s.loop.quit_threadWakeup ()).trans hquit⟩
  | joined => exact ⟨rfl, hthread, hquit⟩
  | queueInLoop _ | publish | enterLoop =>
      -- the thread has passed these
      have ha' : s.thread = _ := ha
      rw [ha'] at hthread
      rcases hthread with hthread | hthread <;> cases hthread
  | inLoop a => exact ⟨howner, hthread, (s.loop.quit_step ha.2.2).trans hquit⟩
  | threadFuncReturns => exact ⟨howner, .inr rfl, hquit⟩

/-- A request stays told. -/
theorem Told.run (h : s.Told) {as : List (EventLoopThread.Step F)} {t : EventLoopThread F}
    (hrun : (eventLoopThread F).Run s as t) : t.Told := by
  refine hrun.induction (P := Told) (fun s a t h ha ht => ?_) h
  cases ht
  exact h.step ha

/-- `quit_` is set while the thread is in `loop()`, or has left it. -/
theorem Told.of_quit (h : s.Inv) (howner : s.owner = .quit) (hthread : s.thread ≠ .beforeLoop) :
    (s.step .quit).Told := by
  refine ⟨rfl, ?_, rfl⟩
  have hpub := h.started (by rw [howner]; rfl)
  show s.thread = .loop ∨ s.thread = .returned
  cases hpc : s.thread with
  | loop => exact .inl rfl
  | returned => exact .inr rfl
  | beforeLoop => exact absurd hpc hthread
  | notStarted | callback =>
      rw [hpc] at hpub
      cases hpub

/-- A lost request stays lost: the loop runs for ever, and the destructor waits for ever. -/
theorem Lost.step (h : s.Lost) {a : EventLoopThread.Step F} (ha : s.Enabled a) : (s.step a).Lost := by
  obtain ⟨howner, hthread, hpc, hquit⟩ := h
  cases a with
  | startThread | quit | wakeup => cases howner.symm.trans ha
  | startLoopReturns | runInLoop _ | runInLoopReturns | destructor => cases howner.symm.trans ha.1
  | joined => cases hthread.symm.trans ha.2
  | queueInLoop _ | publish | enterLoop => cases hthread.symm.trans ha
  | inLoop a =>
      have hstays := EventLoop.step_not_returned ha.2.2 hquit hpc
      exact ⟨howner, hthread, hstays, (s.loop.quit_step ha.2.2).trans hquit⟩
  | threadFuncReturns => exact absurd ha.2 hpc

/-- The condition under which no request is lost. -/
def QuitsInLoop (s : EventLoopThread F) (a : EventLoopThread.Step F) : Prop :=
  a = .quit → s.thread ≠ .beforeLoop

/-- Under the condition a destructor that is in `quit()` or waits has told the loop. -/
structure TellsInv (s : EventLoopThread F) : Prop where
  inv : s.Inv
  told : s.owner = .wakeup ∨ s.owner = .join → s.Told

/-- Every step under the condition keeps the invariant. -/
theorem TellsInv.step (h : s.TellsInv) {a : EventLoopThread.Step F} (ha : s.Enabled a)
    (hcond : QuitsInLoop s a) : (s.step a).TellsInv := by
  refine ⟨h.inv.step ha, ?_⟩
  cases a with
  | quit => exact fun _ => .of_quit h.inv ha (hcond rfl)
  | startThread | startLoopReturns | joined => exact fun howner => by rcases howner with ho | ho <;> cases ho
  | destructor =>
      intro howner
      have howner' : (if s.published then OwnerPc.quit else .destroyed) = .wakeup ∨
          (if s.published then OwnerPc.quit else .destroyed) = .join := howner
      split at howner' <;> rcases howner' with ho | ho <;> cases ho
  | wakeup => exact fun _ => (h.told (.inl ha)).step ha
  | runInLoop _ | runInLoopReturns | queueInLoop _ | publish | enterLoop | inLoop _ | threadFuncReturns =>
      -- the owner stays where it is
      exact fun howner => (h.told howner).step ha

/-- Under the condition the invariant holds in every reachable state. -/
theorem TellsInv.of_reachable (hs : ((eventLoopThread F).restrict QuitsInLoop).Reachable s) :
    s.TellsInv := by
  refine hs.induction (P := TellsInv) ?_ fun s a t h ha ht => ?_
  · rintro s rfl
    exact ⟨.new, fun howner => by rcases howner with ho | ho <;> cases ho⟩
  · cases ht
    exact h.step ha.1 ha.2

/-- The thread enters `loop()` after the destructor has set `quit_`, and clears it. -/
theorem lost_of_beforeLoop (hthread : s.thread = .beforeLoop) :
    ∃ t, (eventLoopThread F).Run (s.step .quit) [.wakeup, .enterLoop] t ∧ t.Lost := by
  have hwakeup : (eventLoopThread F).Run (s.step .quit) [.wakeup] ((s.step .quit).step .wakeup) :=
    .single rfl rfl
  have henter : (eventLoopThread F).enabled ((s.step .quit).step .wakeup) .enterLoop := hthread
  exact ⟨_, .snoc hwakeup henter rfl, rfl, rfl, nofun, rfl⟩

end EventLoopThread

/-- **When the destructor stops the loop.** If the destructor sets `quit_` only after `loop()` has cleared
it, it never waits for a loop that has not been asked to quit. And at the moment it sets `quit_`: the
request cannot be lost any more exactly when the thread is not between publishing `loop_` and entering
`loop()`. -/
theorem destructor_stops_loop_iff {F : Type} :
    (∀ s, ((eventLoopThread F).restrict EventLoopThread.QuitsInLoop).Reachable s → ¬ s.Lost) ∧
      ∀ s, (eventLoopThread F).Reachable s → s.owner = .quit →
        ((∀ as t, (eventLoopThread F).Run (s.step .quit) as t → ¬ t.Lost) ↔
          s.thread ≠ .beforeLoop) := by
  refine ⟨fun s hs hlost => ?_, fun s hs howner => ⟨fun hnever hthread => ?_, fun hthread as t hrun => ?_⟩⟩
  · have htold := (EventLoopThread.TellsInv.of_reachable hs).told (.inr hlost.1)
    exact htold.not_lost hlost
  · obtain ⟨t, hrun, hlost⟩ := EventLoopThread.lost_of_beforeLoop hthread
    exact hnever _ t hrun hlost
  · have htold := EventLoopThread.Told.of_quit (.of_reachable hs) howner hthread
    exact (htold.run hrun).not_lost

/-- The owner goes straight from `startLoop` to the destructor. -/
def EventLoopThread.hurried : EventLoopThread Nat :=
  [.startThread, .publish, .startLoopReturns, .destructor].foldl EventLoopThread.step
    EventLoopThread.new

/-- The owner's hurry is a run of the code. -/
theorem EventLoopThread.hurried_reachable :
    (eventLoopThread Nat).Reachable EventLoopThread.hurried := by
  have hnew : (eventLoopThread Nat).Reachable EventLoopThread.new := .of_init rfl
  have hthread : (eventLoopThread Nat).Reachable _ := hnew.step (a := .startThread) rfl rfl
  have hpublish : (eventLoopThread Nat).Reachable _ := hthread.step (a := .publish) rfl rfl
  have hstarted : (eventLoopThread Nat).Reachable _ :=
    hpublish.step (a := .startLoopReturns) ⟨rfl, rfl⟩ rfl
  exact hstarted.step (a := .destructor) ⟨rfl, rfl⟩ rfl

/-- If the thread has entered `loop()` by then, the request is not lost. -/
theorem destructor_stops_loop_entered :
    (EventLoopThread.hurried.step .enterLoop).owner = .quit ∧
      ∀ as t, (eventLoopThread Nat).Run ((EventLoopThread.hurried.step .enterLoop).step .quit) as t →
        ¬ t.Lost :=
  ⟨rfl, (destructor_stops_loop_iff.2 _
    (EventLoopThread.hurried_reachable.step (a := .enterLoop) rfl rfl) rfl).mpr nofun⟩

/-- If it enters `loop()` only afterwards, the request is lost, and the destructor waits for ever. -/
theorem destructor_request_lost :
    ∃ s, (eventLoopThread Nat).Run EventLoopThread.hurried [.quit, .wakeup, .enterLoop] s ∧
      (eventLoopThread Nat).Reachable s ∧ s.Lost ∧
      ∀ as t, (eventLoopThread Nat).Run s as t → t.Lost := by
  obtain ⟨s, hrun, hlost⟩ := EventLoopThread.lost_of_beforeLoop (s := EventLoopThread.hurried) rfl
  have hquit : (eventLoopThread Nat).Run EventLoopThread.hurried [.quit]
      (EventLoopThread.hurried.step .quit) := .single rfl rfl
  have hall := hquit.trans hrun
  refine ⟨s, hall, EventLoopThread.hurried_reachable.run hall, hlost, fun as t hrun' => ?_⟩
  refine hrun'.induction (P := EventLoopThread.Lost) (fun s a t h ha ht => ?_) hlost
  cases ht
  exact h.step ha

end Muduo.Net
