import Muduo.Net.EventLoop

/-! # Wakeups and the order of functors in an event loop

Two invariants of every interleaving. `WakeInv` accounts for the wakeups: the thread that enqueues skips
its `wakeup()` only where `pendingFunctors_` is going to be emptied before the next `poll`, so
`poll_no_lost_wakeup` holds. `OrderInv` accounts for the functors themselves. -/

namespace Muduo.Net

open Support

/-! ## Wakeups -/

/-- `callingPendingFunctors_` is set here. -/
def LoopPc.isCalling : LoopPc → Bool
  | .swapFunctors | .callFunctors | .inFunctor => true
  | _ => false

/-- Since the eventfd was read for the last time, `pendingFunctors_` has been emptied. -/
def LoopPc.isSwapped : LoopPc → Bool
  | .callFunctors | .inFunctor | .checkQuit | .poll => true
  | _ => false

/-- The loop thread is in code of the user. -/
def LoopPc.isUserCode : LoopPc → Bool
  | .inHandler | .inFunctor => true
  | _ => false

namespace EventLoop

variable {T F : Type} {s : EventLoop T F} {pc : LoopPc}

/-- The eventfd is readable, or another thread in a `call` is going to make it so. -/
def Signalled (s : EventLoop T F) (call : ThreadPc) : Prop :=
  0 < s.wakeupFd ∨ ∃ t, s.threads t = call

/-- After `wakeup()` there is a signal. -/
theorem wakeup_pos (s : EventLoop T F) : 0 < s.wakeup.wakeupFd := by
  have hmax : 0 < kMaxEventfd := by decide
  unfold wakeup
  dsimp only
  split <;> omega

/-- What holds between any two steps: from the moment `pendingFunctors_` is emptied until `poll` returns,
a functor in it comes with a signal, and a request to quit that `while (!quit_)` has missed does too. -/
structure WakeInv (s : EventLoop T F) : Prop where
  calling : s.callingPendingFunctors = s.pc.isCalling
  queueing : s.queueing = true → s.pc = .inHandler ∨ s.pc = .inFunctor
  pending : s.pc.isSwapped = true → s.pendingFunctors ≠ [] →
    s.Signalled .queueInLoop ∨ s.queueing = true
  quit : s.pc = .poll → s.quit = true → s.Signalled .quit

/-- The invariant holds at the start. -/
theorem Starts.wakeInv (h : s.Starts) : s.WakeInv where
  calling := by rw [h.calling, h.pc]; rfl
  queueing hq := by rw [h.queueing] at hq; cases hq
  pending _ hne := .inl (h.pending hne)
  quit _ hquit := by rw [h.quit] at hquit; cases hquit

namespace WakeInv

/-- The loop thread is not in `queueInLoop` outside the code of the user. -/
theorem not_queueing (h : s.WakeInv) (hpc : s.pc = pc) (huser : pc.isUserCode = false) :
    s.queueing = false := by
  subst hpc
  cases hq : s.queueing with
  | false => rfl
  | true => rcases h.queueing hq with hpc | hpc <;> rw [hpc] at huser <;> cases huser

/-- Then a pending functor comes with a signal. -/
theorem signalled (h : s.WakeInv) (hq : s.queueing = false) (hpc : s.pc = pc)
    (hs : pc.isSwapped = true) (hne : s.pendingFunctors ≠ []) : s.Signalled .queueInLoop := by
  subst hpc
  rcases h.pending hs hne with hsignal | hqueueing
  · exact hsignal
  · rw [hq] at hqueueing
    cases hqueueing

/-- The invariant where the loop thread is not in `queueInLoop`. -/
theorem of_not_queueing (hq : s.queueing = false)
    (hcalling : s.callingPendingFunctors = s.pc.isCalling)
    (hpending : s.pc.isSwapped = true → s.pendingFunctors ≠ [] → s.Signalled .queueInLoop)
    (hquit : s.pc = .poll → s.quit = true → s.Signalled .quit) : s.WakeInv where
  calling := hcalling
  queueing hq' := by rw [hq] at hq'; cases hq'
  pending hs hne := .inl (hpending hs hne)
  quit := hquit

/-- With a signal pending nothing is missed. -/
theorem of_wakeup (hpos : 0 < s.wakeupFd) (hcalling : s.callingPendingFunctors = s.pc.isCalling)
    (hqueueing : s.queueing = true → s.pc = .inHandler ∨ s.pc = .inFunctor) : s.WakeInv :=
  ⟨hcalling, hqueueing, fun _ _ => .inl (.inl hpos), fun _ _ => .inl hpos⟩

/-- The loop thread leaves `queueInLoop`. In a functor it has signalled; in a handler it need not,
because `pendingFunctors_` is going to be emptied before the next `poll`. -/
theorem queueInLoopReturns (h : s.WakeInv) (hq : s.queueing = true) :
    ({ s.afterPush true with queueing := false } : EventLoop T F).WakeInv := by
  have hcalling := h.calling
  unfold afterPush
  split
  · exact of_wakeup s.wakeup_pos hcalling nofun
  · next hnot =>
      -- no wakeup, so `callingPendingFunctors_` is not set and this is a handler
      rcases h.queueing hq with hpc | hpc
      · refine of_not_queueing rfl hcalling (fun hs => ?_) fun hpoll => ?_
        · have hs' : s.pc.isSwapped = true := hs
          rw [hpc] at hs'
          cases hs'
        · cases hpc.symm.trans hpoll
      · rw [hpc] at hcalling
        exact absurd (.inr hcalling) hnot

end WakeInv

variable [DecidableEq T]

/-- A thread that starts a call does not take a signal away. -/
theorem Signalled.setThread {call : ThreadPc} (h : s.Signalled call) (hcall : call ≠ .idle) {t : T}
    (ht : s.threads t = .idle) (pc : ThreadPc) : (s.setThread t pc).Signalled call := by
  refine h.imp_right ?_
  rintro ⟨t', ht'⟩
  have hne : t' ≠ t := by
    rintro rfl
    exact hcall (ht'.symm.trans ht)
  refine ⟨t', ?_⟩
  show Function.update s.threads t pc t' = call
  rw [Function.update_of_ne hne, ht']

namespace WakeInv

/-- Another thread pushes a functor, and is going to signal it. -/
theorem threadQueueInLoop (h : s.WakeInv) {t : T} (ht : s.threads t = .idle) (cb : F) :
    ((s.push cb).setThread t .queueInLoop).WakeInv := by
  refine ⟨h.calling, h.queueing, fun _ _ => .inl (.inr ⟨t, Function.update_self ..⟩), fun hpc hq => ?_⟩
  have hsignal : (s.push cb).Signalled .quit := h.quit hpc hq
  exact hsignal.setThread (by decide) ht _

/-- Another thread asks the loop to quit, and is going to signal it. -/
theorem threadQuit (h : s.WakeInv) {t : T} (ht : s.threads t = .idle) :
    ({ s with quit := true }.setThread t .quit).WakeInv := by
  refine ⟨h.calling, h.queueing, fun hs hne => ?_, fun _ _ => .inr ⟨t, Function.update_self ..⟩⟩
  refine (h.pending hs hne).imp_left fun hsignal => ?_
  have hsignal' : { s with quit := true }.Signalled .queueInLoop := hsignal
  exact hsignal'.setThread (by decide) ht _

/-- Another thread's wakeup keeps the invariant. -/
theorem threadWakeup (h : s.WakeInv) {t : T} (ht : s.threads t ≠ .idle) :
    (s.threadWakeup t).WakeInv := by
  unfold EventLoop.threadWakeup
  split
  · exact of_wakeup s.wakeup_pos h.calling h.queueing
  · exact of_wakeup s.wakeup_pos h.calling h.queueing
  · next hidle => exact absurd hidle ht

/-- Every step keeps the invariant. -/
theorem step (h : s.WakeInv) {a : EventLoop.Step T F} (ha : s.Enabled a) : (s.step a).WakeInv := by
  have hcalling := h.calling
  -- first the loop thread, by where it is, and then the others
  cases a with
  | checkQuit =>
      have hpc : s.pc = .checkQuit := ha
      have hq := h.not_queueing hpc rfl
      rw [hpc] at hcalling
      show s.checkQuit.WakeInv
      unfold EventLoop.checkQuit
      split
      · exact of_not_queueing hq hcalling nofun nofun
      · next hquit =>
          -- `quit_` was read here, so whoever sets it from now on signals it
          exact of_not_queueing hq hcalling (fun _ hne => h.signalled hq hpc rfl hne)
            fun _ hquit' => absurd hquit' hquit
  | pollReturns active =>
      obtain ⟨hpc, -⟩ := ha
      have hq := h.not_queueing hpc rfl
      rw [hpc] at hcalling
      exact of_not_queueing hq hcalling nofun nofun
  | nextChannel =>
      obtain ⟨hpc, -⟩ := ha
      have hq := h.not_queueing hpc rfl
      show s.nextChannel.WakeInv
      unfold EventLoop.nextChannel
      split
      · -- the eventfd is read, but `pendingFunctors_` is going to be emptied before the next `poll`
        refine of_not_queueing hq hcalling (fun hs => ?_) fun hpoll => ?_
        · have hs' : s.pc.isSwapped = true := hs
          rw [hpc] at hs'
          cases hs'
        · cases hpc.symm.trans hpoll
      · rw [hpc] at hcalling
        exact of_not_queueing hq hcalling nofun nofun
      · exact h
  | handlerReturns =>
      obtain ⟨hpc, hq⟩ := ha
      rw [hpc] at hcalling
      exact of_not_queueing hq hcalling nofun nofun
  | eventsHandled =>
      obtain ⟨hpc, -⟩ := ha
      have hq := h.not_queueing hpc rfl
      rw [hpc] at hcalling
      exact of_not_queueing hq hcalling nofun nofun
  | doPendingFunctors =>
      have hpc : s.pc = .doPendingFunctors := ha
      have hq := h.not_queueing hpc rfl
      exact of_not_queueing hq rfl nofun nofun
  | swapFunctors =>
      have hpc : s.pc = .swapFunctors := ha
      have hq := h.not_queueing hpc rfl
      rw [hpc] at hcalling
      -- what other threads have pushed so far is taken out, with or without a signal
      exact of_not_queueing hq hcalling (fun _ hne => absurd rfl hne) nofun
  | nextFunctor =>
      obtain ⟨hpc, -⟩ := ha
      have hq := h.not_queueing hpc rfl
      rw [hpc] at hcalling
      show s.nextFunctor.WakeInv
      unfold EventLoop.nextFunctor
      split
      · exact of_not_queueing hq hcalling (fun _ hne => h.signalled hq hpc rfl hne) nofun
      · exact h
  | functorReturns =>
      obtain ⟨hpc, hq⟩ := ha
      rw [hpc] at hcalling
      exact of_not_queueing hq hcalling (fun _ hne => h.signalled hq hpc rfl hne) nofun
  | functorsCalled =>
      obtain ⟨hpc, -⟩ := ha
      have hq := h.not_queueing hpc rfl
      exact of_not_queueing hq rfl (fun _ hne => h.signalled hq hpc rfl hne) nofun
  | queueInLoop cb =>
      obtain ⟨hpc, -⟩ := ha
      -- the signal, if one is needed, comes with `queueInLoopReturns`
      refine ⟨hcalling, fun _ => hpc, fun _ _ => .inr rfl, fun hpoll => ?_⟩
      have hpoll' : s.pc = .poll := hpoll
      rw [hpoll'] at hpc
      rcases hpc with hpc | hpc <;> cases hpc
  | queueInLoopReturns => exact h.queueInLoopReturns ha
  | quit =>
      obtain ⟨hpc, -⟩ := ha
      refine ⟨hcalling, h.queueing, h.pending, fun hpoll => ?_⟩
      have hpoll' : s.pc = .poll := hpoll
      rw [hpoll'] at hpc
      rcases hpc with hpc | hpc <;> cases hpc
  | threadQueueInLoop t cb => exact h.threadQueueInLoop ha cb
  | threadQuit t => exact h.threadQuit ha
  | threadWakeup t => exact h.threadWakeup ha

/-- The invariant holds in every reachable state. -/
theorem of_reachable (hs : (eventLoop T F).Reachable s) : s.WakeInv := by
  refine hs.induction (P := WakeInv) (fun s hinit => Starts.wakeInv hinit) fun s a t h ha ht => ?_
  cases ht
  exact h.step ha

end WakeInv

end EventLoop

/-- **No lost wakeup.** When the loop thread is about to block in `poll` and a functor is pending, the
eventfd is readable, or another thread has pushed a functor and is going to make it so; and the same for
a request to quit. -/
theorem poll_no_lost_wakeup {T F : Type} [DecidableEq T] {s : EventLoop T F}
    (hs : (eventLoop T F).Reachable s) (hpoll : s.pc = .poll) :
    (s.pendingFunctors ≠ [] → 0 < s.wakeupFd ∨ ∃ t, s.threads t = .queueInLoop) ∧
      (s.quit = true → 0 < s.wakeupFd ∨ ∃ t, s.threads t = .quit) := by
  have h := EventLoop.WakeInv.of_reachable hs
  exact ⟨h.signalled (h.not_queueing hpoll rfl) hpoll rfl, h.quit hpoll⟩

/-- A loop with one thread beside it, at its start. -/
def EventLoop.started : EventLoop Unit Nat :=
  { pc := .checkQuit, quit := false, callingPendingFunctors := false, activeChannels := []
    pendingFunctors := [], functors := [], wakeupFd := 0, queueing := false
    threads := fun _ => .idle, pushed := [], called := [] }

/-- The loop is about to block, and the other thread has just pushed a functor. -/
def EventLoop.overtaken : EventLoop Unit Nat :=
  (EventLoop.started.step .checkQuit).step (.threadQueueInLoop () 0)

/-- The race is a run of the code. -/
theorem EventLoop.overtaken_reachable : (eventLoop Unit Nat).Reachable EventLoop.overtaken := by
  have hstart : (eventLoop Unit Nat).Reachable EventLoop.started :=
    .of_init ⟨rfl, rfl, rfl, rfl, rfl, rfl, rfl, nofun⟩
  have hpoll : (eventLoop Unit Nat).Reachable (EventLoop.started.step .checkQuit) :=
    hstart.step (a := .checkQuit) rfl rfl
  exact hpoll.step (a := .threadQueueInLoop () 0) rfl rfl

/-- The functor it has pushed is not lost. -/
theorem poll_no_lost_wakeup_overtaken :
    EventLoop.overtaken.pc = .poll ∧ EventLoop.overtaken.pendingFunctors = [0] ∧
      (0 < EventLoop.overtaken.wakeupFd ∨ ∃ t, EventLoop.overtaken.threads t = .queueInLoop) :=
  ⟨rfl, rfl, (poll_no_lost_wakeup EventLoop.overtaken_reachable rfl).1 nofun⟩

/-! ## The order of the functors -/

namespace EventLoop

variable {T F : Type} {s : EventLoop T F} {pc : LoopPc}

/-- The functors called, those left of the batch and those pending are the functors pushed, in order;
only a batch that is being called has functors left. -/
structure OrderInv (s : EventLoop T F) : Prop where
  order : s.called ++ s.functors ++ s.pendingFunctors = s.pushed
  batch : s.functors ≠ [] → s.pc = .callFunctors ∨ s.pc = .inFunctor

/-- The order holds at the start. -/
theorem Starts.orderInv (h : s.Starts) : s.OrderInv where
  order := by rw [h.called, h.functors, h.pushed]; rfl
  batch hne := absurd h.functors hne

/-- A push keeps the order. -/
theorem OrderInv.push (h : s.OrderInv) (cb : F) : (s.push cb).OrderInv where
  order := by
    show s.called ++ s.functors ++ (s.pendingFunctors ++ [cb]) = s.pushed ++ [cb]
    rw [← List.append_assoc, h.order]
  batch := h.batch

/-- Outside the loop over `functors` no functor is left. -/
theorem OrderInv.no_batch (h : s.OrderInv) (hpc : s.pc = pc) (hcall : pc ≠ .callFunctors)
    (hin : pc ≠ .inFunctor) : s.functors = [] := by
  subst hpc
  by_contra hne
  rcases h.batch hne with hpc | hpc
  · exact hcall hpc
  · exact hin hpc

/-- A step that leaves the functors alone. -/
theorem OrderInv.of_eq {s' : EventLoop T F} (h : s.OrderInv) (hcalled : s'.called = s.called)
    (hfunctors : s'.functors = s.functors) (hpending : s'.pendingFunctors = s.pendingFunctors)
    (hpushed : s'.pushed = s.pushed)
    (hbatch : s.functors ≠ [] → s'.pc = .callFunctors ∨ s'.pc = .inFunctor) : s'.OrderInv where
  order := by rw [hcalled, hfunctors, hpending, hpushed, h.order]
  batch hne := hbatch (hfunctors ▸ hne)

/-- The same where no functor is left. -/
theorem OrderInv.of_no_batch {s' : EventLoop T F} (h : s.OrderInv) (hnone : s.functors = [])
    (hcalled : s'.called = s.called) (hfunctors : s'.functors = s.functors)
    (hpending : s'.pendingFunctors = s.pendingFunctors) (hpushed : s'.pushed = s.pushed) :
    s'.OrderInv := h.of_eq hcalled hfunctors hpending hpushed fun hne => absurd hnone hne

/-- A wakeup keeps the order. -/
theorem OrderInv.wakeup (h : s.OrderInv) : s.wakeup.OrderInv := h.of_eq rfl rfl rfl rfl h.batch

/-- The end of `queueInLoop` keeps the order. -/
theorem OrderInv.afterPush (h : s.OrderInv) (isInLoopThread : Bool) :
    (s.afterPush isInLoopThread).OrderInv := by
  unfold EventLoop.afterPush
  split
  · exact h.wakeup
  · exact h

variable [DecidableEq T]

/-- A move of another thread keeps the order. -/
theorem OrderInv.setThread (h : s.OrderInv) (t : T) (pc : ThreadPc) : (s.setThread t pc).OrderInv :=
  h.of_eq rfl rfl rfl rfl h.batch

/-- Every step keeps the order. -/
theorem OrderInv.step (h : s.OrderInv) {a : EventLoop.Step T F} (ha : s.Enabled a) :
    (s.step a).OrderInv := by
  cases a with
  | checkQuit =>
      have hpc : s.pc = .checkQuit := ha
      have hnone := h.no_batch hpc nofun nofun
      show s.checkQuit.OrderInv
      unfold EventLoop.checkQuit
      split <;> exact h.of_no_batch hnone rfl rfl rfl rfl
  | pollReturns active =>
      obtain ⟨hpc, -⟩ := ha
      exact h.of_no_batch (h.no_batch hpc nofun nofun) rfl rfl rfl rfl
  | nextChannel =>
      obtain ⟨hpc, -⟩ := ha
      have hnone := h.no_batch hpc nofun nofun
      show s.nextChannel.OrderInv
      unfold EventLoop.nextChannel
      split
      · exact h.of_no_batch hnone rfl rfl rfl rfl
      · exact h.of_no_batch hnone rfl rfl rfl rfl
      · exact h
  | handlerReturns =>
      obtain ⟨hpc, -⟩ := ha
      exact h.of_no_batch (h.no_batch hpc nofun nofun) rfl rfl rfl rfl
  | eventsHandled =>
      obtain ⟨hpc, -⟩ := ha
      exact h.of_no_batch (h.no_batch hpc nofun nofun) rfl rfl rfl rfl
  | doPendingFunctors =>
      have hpc : s.pc = .doPendingFunctors := ha
      exact h.of_no_batch (h.no_batch hpc nofun nofun) rfl rfl rfl rfl
  | swapFunctors =>
      have hpc : s.pc = .swapFunctors := ha
      have hnone := h.no_batch hpc nofun nofun
      -- the last batch is done, and the pending functors become the next one
      have horder := h.order
      rw [hnone, List.append_nil] at horder
      refine ⟨?_, fun _ => .inl rfl⟩
      show s.called ++ s.pendingFunctors ++ [] = s.pushed
      rw [List.append_nil, horder]
  | nextFunctor =>
      show s.nextFunctor.OrderInv
      unfold EventLoop.nextFunctor
      split
      · next functor rest hfunctors =>
          have horder := h.order
          rw [hfunctors] at horder
          refine ⟨?_, fun _ => .inr rfl⟩
          show s.called ++ [functor] ++ rest ++ s.pendingFunctors = s.pushed
          rw [← horder, List.append_assoc s.called, List.singleton_append]
      · exact h
  | functorReturns => exact h.of_eq rfl rfl rfl rfl fun _ => .inl rfl
  | functorsCalled =>
      obtain ⟨-, hnone⟩ := ha
      exact h.of_no_batch hnone rfl rfl rfl rfl
  | queueInLoop cb => exact (h.push cb).of_eq rfl rfl rfl rfl h.batch
  | queueInLoopReturns =>
      have hafter := h.afterPush true
      exact hafter.of_eq rfl rfl rfl rfl hafter.batch
  | quit => exact h.of_eq rfl rfl rfl rfl h.batch
  | threadQueueInLoop t cb => exact (h.push cb).setThread t _
  | threadQuit t => exact h.of_eq rfl rfl rfl rfl h.batch
  | threadWakeup t =>
      show (s.threadWakeup t).OrderInv
      unfold EventLoop.threadWakeup
      split
      · exact (h.afterPush false).setThread t _
      · exact h.wakeup.setThread t _
      · exact h

/-- The order holds in every reachable state. -/
theorem OrderInv.of_reachable (hs : (eventLoop T F).Reachable s) : s.OrderInv := by
  refine hs.induction (P := OrderInv) (fun s hinit => Starts.orderInv hinit) fun s a t h ha ht => ?_
  cases ht
  exact h.step ha

end EventLoop

end Muduo.Net
