import Muduo.Net.TcpConnectionOutput
import Mathlib.Logic.Function.Basic

/-! # A `TcpConnection` and the threads around it

An established connection with the functor queue of its loop and any number of other threads that hold a
`TcpConnectionPtr`. A member function runs in the loop thread as one step, with the calls that user code makes
inside; user code in the loop thread may call on the connection at any other time too, and then the functors
of `runInLoop` are called at once.

A call of another thread is several steps, as the source has it: `send` tests `state_` and then queues its
functor; `shutdown` and `forceClose` test `state_`, then store `kDisconnecting` and then queue their functor
("FIXME: use compare and swap"). `startRead` and `stopRead` only queue. `forceCloseWithDelay` is left out. -/

namespace Muduo.Net

open Support TcpConnection

/-- The message that `sendInLoop` was entered with. -/
def Event.message : Event → Option (List Byte)
  | .sendInLoop message => some message
  | _ => none

/-- The functor that was queued. -/
def Event.functor : Event → Option Functor
  | .queued f => some f
  | _ => none

/-- The message of a queued `sendInLoop`. -/
def Functor.message : Functor → Option (List Byte)
  | .sendInLoop message => some message
  | _ => none

/-- Where another thread is in a call on the connection. -/
inductive UserThreadPc where
  | idle
  | storing (f : Functor) -- it has tested `state_` and is about to store `kDisconnecting`
  | queueing (f : Functor) -- it is about to queue the functor
  deriving DecidableEq, Repr

/-- The first step of a call of another thread: the test of `state_`, where there is one. -/
def TcpConnection.firstStep (c : TcpConnection) : UserCall → UserThreadPc
  | .send message _ => if c.state = .kConnected then .queueing (.sendInLoop message) else .idle
  | .shutdown => if c.state = .kConnected then .storing .shutdownInLoop else .idle
  | .forceClose =>
      if c.state = .kConnected ∨ c.state = .kDisconnecting then .storing .forceCloseInLoop else .idle
  | .forceCloseWithDelay => .idle
  | .startRead => .queueing .startReadInLoop
  | .stopRead => .queueing .stopReadInLoop

/-- A call in the loop thread is a callback of this one call. -/
theorem TcpConnection.runCallback_singleton (c : TcpConnection) (call : UserCall) :
    c.runCallback [call] = c.call true call := by
  rw [runCallback]
  cases c.call true call with
  | error _ => rfl
  | ok r => exact congrArg (fun evs => Except.ok (r.1, evs)) (List.append_nil r.2)

/-- A connection with its loop and the other threads `T`. -/
structure ThreadedConnection (T : Type) where
  conn : TcpConnection
  /-- `pendingFunctors_` of the loop, as far as they concern the connection. -/
  queue : List Functor
  threads : T → UserThreadPc
  /-- Whether `connectDestroyed` has run. -/
  destroyed : Bool
  /-- All that the connection did, in order. -/
  trace : List Event
  /-- The messages of the calls of `send` that found the connection `kConnected` and have queued their
  functor or returned. -/
  sent : List (List Byte)

/-- The steps; a `callback` is what the user's callback does on the way and a `res` the result of a system
call. -/
inductive ThreadedStep (T : Type) where
  /-- The loop runs the functor at the head of its queue. -/
  | runFunctor (callback : List UserCall) (res : WriteResult)
  | handleRead (res : Buffer.ReadResult) (callback : List UserCall) (unread : ByteQueue → ByteQueue)
  | handleWrite (res : WriteResult)
  | handleClose (callback : List UserCall)
  | connectDestroyed (callback : List UserCall)
  /-- A call of user code in the loop thread. -/
  | loopCall (call : UserCall)
  -- a call of another thread
  | call (t : T) (call : UserCall)
  | store (t : T)
  | queue (t : T)

namespace ThreadedConnection

variable {T : Type}

/-- The connection `c` when `connectEstablished` has called `connectionCallback_`. What the callback calls
comes after that. -/
def established (c : TcpConnection) : ThreadedConnection T :=
  { conn := { c with state := .kConnected, channel := c.channel.enableReading }
    queue := []
    threads := fun _ => .idle
    destroyed := false
    trace := [.connectionCallback .kConnected]
    sent := [] }

variable (s : ThreadedConnection T)

/-- A function has returned in the loop thread. If it ran the functor of a `send` of another thread, that
call has been counted before. -/
def after (ofFunctor : Bool) (r : Outcome) : ThreadedConnection T :=
  { s with
    conn := r.1
    trace := s.trace ++ r.2
    queue := s.queue ++ r.2.filterMap Event.functor
    sent := if ofFunctor then s.sent else s.sent ++ r.2.filterMap Event.message }

/-- The functor at the head of the queue. -/
def runFunctor (callback : List UserCall) (res : WriteResult) : Checked (ThreadedConnection T) :=
  match s.queue with
  | [] => return s -- nothing is pending
  | f :: queue => do
      let r ← s.conn.runFunctor callback res f
      return after { s with queue } f.message.isSome r

variable [DecidableEq T]

/-- The connection with a user thread moved to another place. -/
def setThread (t : T) (pc : UserThreadPc) : ThreadedConnection T :=
  { s with threads := Function.update s.threads t pc }

/-- `setState(kDisconnecting)` of another thread. -/
def store (t : T) : ThreadedConnection T :=
  match s.threads t with
  | .storing f => { s with conn := { s.conn with state := .kDisconnecting } }.setThread t (.queueing f)
  | _ => s

/-- `queueInLoop(f)` of another thread, with which its call returns. -/
def queueFunctor (t : T) : ThreadedConnection T :=
  match s.threads t with
  | .queueing f =>
      { s with queue := s.queue ++ [f], sent := s.sent ++ f.message.toList }.setThread t .idle
  | _ => s

/-- What holds of every thread, after one of them has made a step. -/
theorem setThread_forall {s : ThreadedConnection T} {P : UserThreadPc → Prop} (h : ∀ j, P (s.threads j))
    {k : T} {pc : UserThreadPc} (hpc : P pc) : ∀ j, P ((s.setThread k pc).threads j) := by
  intro j
  change P (Function.update s.threads k pc j)
  by_cases hjk : j = k
  · rw [hjk, Function.update_self]
    exact hpc
  · rw [Function.update_of_ne hjk]
    exact h j

/-- What a step does. -/
def exec : ThreadedStep T → Checked (ThreadedConnection T)
  | .runFunctor callback res => s.runFunctor callback res
  | .handleRead res callback unread => return s.after false (← s.conn.handleRead res callback unread)
  | .handleWrite res => return s.after false (← s.conn.handleWrite res)
  | .handleClose callback => return s.after false (← s.conn.handleClose callback)
  | .connectDestroyed callback =>
      return { s.after false (← s.conn.connectDestroyed callback) with destroyed := true }
  | .loopCall call => return s.after false (← s.conn.call true call)
  | .call t call => return s.setThread t (s.conn.firstStep call)
  | .store t => return s.store t
  | .queue t => return s.queueFunctor t

end ThreadedConnection

/-- No half-close is among the events. -/
def Event.Open (tr : List Event) : Prop := ∀ e ∈ tr, e.isShutdownWrite = false

/-- What a kernel may answer to a `write` of so many bytes. -/
abbrev Kernel := Nat → WriteResult → Prop

namespace ThreadedConnection

variable {T : Type} (K : Kernel) (s : ThreadedConnection T)

/-- The kernel takes at most what it is given, and until the half-close it answers as `K` says. -/
def WriteFits (len : Nat) (res : WriteResult) : Prop :=
  (∀ n, res = .ok n → n ≤ len) ∧ (Event.Open s.trace → K len res)

/-- What a call of user code may be, with the result of its `write`. -/
def CallFits : UserCall → Prop
  | .send message res => s.WriteFits K message.length res
  | .forceCloseWithDelay => False
  | _ => True

/-- When a step is possible. The poller may tell the channel of anything at any time: it watches a channel for
hangups even when the channel watches nothing, and it may tell of several events at once.
`connectDestroyed` runs once. -/
def Enabled : ThreadedStep T → Prop
  | .runFunctor callback res => (∀ call ∈ callback, s.CallFits K call) ∧
      ∀ message, s.queue.head? = some (.sendInLoop message) → s.WriteFits K message.length res
  | .handleRead _ callback _ => ∀ call ∈ callback, s.CallFits K call
  | .handleWrite res => s.WriteFits K s.conn.outputBuffer.content.length res
  | .handleClose callback => ∀ call ∈ callback, s.CallFits K call
  | .connectDestroyed callback => (∀ call ∈ callback, s.CallFits K call) ∧ s.destroyed = false
  | .loopCall call => s.CallFits K call
  | .call t call => s.threads t = .idle ∧ call ≠ .forceCloseWithDelay
  | .store t => ∃ f, s.threads t = .storing f
  | .queue t => ∃ f, s.threads t = .queueing f

end ThreadedConnection

/-- An established connection with its loop and the threads `T`, over the kernel `K`. -/
def threadedConnection (T : Type) [DecidableEq T] (K : Kernel) :
    Machine (ThreadedConnection T) (ThreadedStep T) where
  init s := ∃ c : TcpConnection, c.Fresh ∧ s = .established c
  enabled s a := s.Enabled K a
  exec s a := s.exec a

end Muduo.Net
