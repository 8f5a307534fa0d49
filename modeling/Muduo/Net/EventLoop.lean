import Muduo.Support.Machine
import Mathlib.Algebra.Order.Ring.Nat
import Mathlib.Logic.Function.Basic

/-! # `net::EventLoop`

The loop of `net/EventLoop.cpp` with the functors queued for it, as a machine whose steps are the atomic
actions of the loop thread and of any number of other threads. A critical section of `mutex_` is one step,
and so is each access to the atomic `quit_` and each operation on the eventfd `wakeupFd_`. In between, the
other threads can do anything: push a functor with `queueInLoop` (`runInLoop` of another thread is the
same), or call `quit`, and later issue the `wakeup` that belongs to it.

`eventHandling_`, `iteration_` and the channels other than the one of the eventfd do not take part: a
handler of another channel, and a functor, is code of the user that may call `queueInLoop` and `quit`. -/

namespace Muduo.Net

open Support

/-- The channels `poll` reports: the one of the eventfd, or another one. -/
inductive ActiveChannel where
  | wakeupChannel
  | other
  deriving DecidableEq, Repr

/-- Where the loop thread is in `loop()`. -/
inductive LoopPc where
  | checkQuit -- at `while (!quit_)`
  | poll -- about to call `poll`
  | handleEvents -- in the loop over `activeChannels_`, between two channels
  | inHandler
  | doPendingFunctors -- at its start
  | swapFunctors -- before its critical section
  | callFunctors -- in the loop over `functors`, between two functors
  | inFunctor
  | returned
  deriving DecidableEq, Repr

/-- What another thread is doing: nothing to this loop, or it is in a call between its first step and its
`wakeup`. -/
inductive ThreadPc where
  | idle
  | queueInLoop
  | quit
  deriving DecidableEq, Repr

/-- An event loop with the threads `T` around it and functors `F`. -/
structure EventLoop (T F : Type) where
  pc : LoopPc
  quit : Bool
  callingPendingFunctors : Bool
  /-- What is left of `activeChannels_` to be handled. -/
  activeChannels : List ActiveChannel
  pendingFunctors : List F
  /-- What is left of the local `functors` to be called. -/
  functors : List F
  /-- The counter of the eventfd. -/
  wakeupFd : Nat
  /-- Whether the loop thread is in `queueInLoop`, after its critical section. -/
  queueing : Bool
  threads : T → ThreadPc
  /-- The functors pushed so far. -/
  pushed : List F
  /-- The functors called so far by `doPendingFunctors`. -/
  called : List F

/-- The steps of the loop thread and of the other threads. -/
inductive EventLoop.Step (T F : Type) where
  | checkQuit
  | pollReturns (active : List ActiveChannel)
  | nextChannel
  | handlerReturns
  | eventsHandled
  | doPendingFunctors
  | swapFunctors
  | nextFunctor
  | functorReturns
  | functorsCalled
  -- what a handler or a functor may call
  | queueInLoop (cb : F)
  | queueInLoopReturns
  | quit
  -- what another thread may call, and the `wakeup()` that ends the call
  | threadQueueInLoop (t : T) (cb : F)
  | threadQuit (t : T)
  | threadWakeup (t : T)

namespace EventLoop

/-- The largest value of the counter of an eventfd. -/
def kMaxEventfd : Nat := 2 ^ 64 - 2

variable {T F : Type} [DecidableEq T] (s : EventLoop T F)

/-- `wakeup()`: the counter goes up, or is at its largest value and the write fails. -/
def wakeup : EventLoop T F :=
  { s with wakeupFd := if s.wakeupFd < kMaxEventfd then s.wakeupFd + 1 else s.wakeupFd }

/-- `handleRead()`: reading an eventfd clears its counter. -/
def handleRead : EventLoop T F := { s with wakeupFd := 0 }

/-- The critical section of `queueInLoop(cb)`. -/
def push (cb : F) : EventLoop T F :=
  { s with pendingFunctors := s.pendingFunctors ++ [cb], pushed := s.pushed ++ [cb] }

/-- The rest of `queueInLoop(cb)`. -/
def afterPush (isInLoopThread : Bool) : EventLoop T F :=
  if ¬ isInLoopThread ∨ s.callingPendingFunctors then s.wakeup else s

/-- The rest of `quit()`. -/
def afterQuit (isInLoopThread : Bool) : EventLoop T F := if ¬ isInLoopThread then s.wakeup else s

/-- The loop with another thread moved to another place. -/
def setThread (t : T) (pc : ThreadPc) : EventLoop T F :=
  { s with threads := Function.update s.threads t pc }

/-- The loop thread is in code of the user. -/
def InUserCode : Prop := (s.pc = .inHandler ∨ s.pc = .inFunctor) ∧ s.queueing = false

/-- When a step is possible. `poll` may return for many reasons, but reports the eventfd only when its
counter is positive. -/
def Enabled : EventLoop.Step T F → Prop
  | .checkQuit => s.pc = .checkQuit
  | .pollReturns active => s.pc = .poll ∧ (.wakeupChannel ∈ active → 0 < s.wakeupFd)
  | .nextChannel => s.pc = .handleEvents ∧ s.activeChannels ≠ []
  | .handlerReturns => s.pc = .inHandler ∧ s.queueing = false
  | .eventsHandled => s.pc = .handleEvents ∧ s.activeChannels = []
  | .doPendingFunctors => s.pc = .doPendingFunctors
  | .swapFunctors => s.pc = .swapFunctors
  | .nextFunctor => s.pc = .callFunctors ∧ s.functors ≠ []
  | .functorReturns => s.pc = .inFunctor ∧ s.queueing = false
  | .functorsCalled => s.pc = .callFunctors ∧ s.functors = []
  | .queueInLoop _ => s.InUserCode
  | .queueInLoopReturns => s.queueing = true
  | .quit => s.InUserCode
  | .threadQueueInLoop t _ => s.threads t = .idle
  | .threadQuit t => s.threads t = .idle
  | .threadWakeup t => s.threads t ≠ .idle

/-- `while (!quit_)`, and `activeChannels_.clear()`. -/
def checkQuit : EventLoop T F :=
  if s.quit then { s with pc := .returned } else { s with pc := .poll, activeChannels := [] }

/-- The next turn of the loop over `activeChannels_`. -/
def nextChannel : EventLoop T F :=
  match s.activeChannels with
  -- the loop's own channel, whose handler does nothing but read the eventfd
  | .wakeupChannel :: rest => { s.handleRead with activeChannels := rest }
  | .other :: rest => { s with pc := .inHandler, activeChannels := rest }
  | [] => s

/-- The next turn of the loop over the functors swapped out. -/
def nextFunctor : EventLoop T F :=
  match s.functors with
  | functor :: rest => { s with pc := .inFunctor, functors := rest, called := s.called ++ [functor] }
  | [] => s

/-- Another thread finishes the call it is in. -/
def threadWakeup (t : T) : EventLoop T F :=
  match s.threads t with
  | .queueInLoop => (s.afterPush false).setThread t .idle
  | .quit => (s.afterQuit false).setThread t .idle
  | .idle => s

/-- What a step does. -/
def step : EventLoop.Step T F → EventLoop T F
  | .checkQuit => s.checkQuit
  | .pollReturns active => { s with pc := .handleEvents, activeChannels := active }
  | .nextChannel => s.nextChannel
  | .handlerReturns => { s with pc := .handleEvents }
  | .eventsHandled => { s with pc := .doPendingFunctors }
  | .doPendingFunctors => { s with pc := .swapFunctors, callingPendingFunctors := true }
  -- `functors.swap(pendingFunctors_)`, with an empty `functors`
  | .swapFunctors => { s with pc := .callFunctors, functors := s.pendingFunctors, pendingFunctors := [] }
  | .nextFunctor => s.nextFunctor
  | .functorReturns => { s with pc := .callFunctors }
  | .functorsCalled => { s with pc := .checkQuit, callingPendingFunctors := false }
  | .queueInLoop cb => { s.push cb with queueing := true }
  | .queueInLoopReturns => { s.afterPush true with queueing := false }
  | .quit => { s with quit := true }.afterQuit true
  | .threadQueueInLoop t cb => (s.push cb).setThread t .queueInLoop
  | .threadQuit t => { s with quit := true }.setThread t .quit
  | .threadWakeup t => s.threadWakeup t

/-- `loop()` has just cleared `quit_`. What is pending was queued by other threads. -/
structure Starts : Prop where
  pc : s.pc = .checkQuit
  quit : s.quit = false
  calling : s.callingPendingFunctors = false
  queueing : s.queueing = false
  functors : s.functors = []
  pushed : s.pushed = s.pendingFunctors
  called : s.called = []
  pending : s.pendingFunctors ≠ [] → 0 < s.wakeupFd ∨ ∃ t, s.threads t = .queueInLoop

end EventLoop

/-- The event loop as a machine. -/
def eventLoop (T F : Type) [DecidableEq T] : Machine (EventLoop T F) (EventLoop.Step T F) where
  init := EventLoop.Starts
  enabled := EventLoop.Enabled
  exec s a := .ok (s.step a)

end Muduo.Net
