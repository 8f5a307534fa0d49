import Muduo.Support.Heap
import Muduo.Support.Machine
import Mathlib.Data.Finset.Sort
import Mathlib.Data.Prod.Lex

/-! # `net::TimerQueue`

The timers of one loop, `net/TimerQueue.cpp`, with the heap on which `Timer` objects live. A `Timer*` is
an address, and every use of one goes through the heap, so that a use after `delete` is an error of the
model like a failed assertion. `timers_` is a set ordered by expiration and address, `activeTimers_` a
set of addresses with sequence numbers.

`handleRead` calls user code in the middle: it is modelled by the step that extracts the expired
batch, one step for each `run()`, and the step that resets the batch. Between them any timers may be
added and cancelled. -/

namespace Muduo.Net

open Support

/-- Microseconds since the epoch. -/
abbrev Timestamp := Int

/-- An address of the heap. -/
abbrev Addr := Nat

/-- The largest value of a pointer, where no object can be. -/
def UINTPTR_MAX : Addr := 2 ^ 64 - 1

/-- A `Timer`. Its callback is not data of the model: what it does is the steps after `run`. -/
structure Timer where
  expiration : Timestamp
  /-- The microseconds that `addTime` adds for `interval_`. -/
  interval : Int
  /-- `interval_ > 0.0`. -/
  repeats : Bool
  sequence : Nat
  deriving DecidableEq, Repr

/-- `Timer::restart(now)`. -/
def Timer.restart (t : Timer) (now : Timestamp) : Timer :=
  if t.repeats then { t with expiration := now + t.interval }
  else { t with expiration := 0 }

/-- `TimerId`: the address of the timer and its sequence number. -/
structure TimerId where
  timer : Addr
  sequence : Nat
  deriving DecidableEq, Repr

/-- An element of `timers_`: when, and which timer. -/
abbrev Entry := Timestamp ×ₗ Addr

namespace Entry

/-- The entry of a timer that expires then. -/
def of (expiration : Timestamp) (timer : Addr) : Entry := toLex (expiration, timer)

/-- When the timer of the entry expires. -/
def expiration (e : Entry) : Timestamp := (ofLex e).1

/-- The timer of the entry. -/
def timer (e : Entry) : Addr := (ofLex e).2

end Entry

/-- An element of `activeTimers_`. -/
abbrev ActiveTimer := Addr × Nat

/-- What is noted of a run. -/
inductive TimerEvent where
  /-- `addTimerInLoop` has returned for this timer. -/
  | added (id : TimerId)
  | started (sequence : Nat) -- `run()` of the timer with this number
  | deleted (sequence : Nat) -- `delete` of the timer with this number
  | resetTimerfd (expiration : Timestamp)
  deriving DecidableEq, Repr

/-- The data members of `TimerQueue`, the heap of its timers, and what has been noted. -/
structure TimerQueue where
  heap : Heap Timer
  timers : Finset Entry
  activeTimers : Finset ActiveTimer
  callingExpiredTimers : Bool
  cancelingTimers : Finset ActiveTimer
  log : List TimerEvent

namespace TimerQueue

/-- The constructor. -/
def new : TimerQueue :=
  { heap := Heap.empty
    timers := ∅
    activeTimers := ∅
    callingExpiredTimers := false
    cancelingTimers := ∅
    log := [] }

variable (q : TimerQueue)

/-- The assertion with which most functions begin and end. -/
def assertSizes : Checked Unit :=
  assert (q.timers.card = q.activeTimers.card) "timers_.size() == activeTimers_.size()"

/-- An event added to the log. -/
def note (e : TimerEvent) : TimerQueue := { q with log := q.log ++ [e] }

/-- `*timers_.begin()`, if there is one. -/
def begin? : Option Entry := q.timers.sort.head?

/-- `insert(timer)`; tells whether the earliest expiration has changed. -/
def insert (timer : Addr) : Checked (TimerQueue × Bool) := do
  q.assertSizes
  let t ← q.heap.get timer
  let earliestChanged := match q.begin? with
    | none => true -- there was no timer
    | some first => t.expiration < first.expiration
  assert (Entry.of t.expiration timer ∉ q.timers) "result.second"
  assert ((timer, t.sequence) ∉ q.activeTimers) "result.second"
  let q := { q with
    timers := Insert.insert (Entry.of t.expiration timer) q.timers
    activeTimers := Insert.insert (timer, t.sequence) q.activeTimers }
  q.assertSizes
  return (q, earliestChanged)

/-- `TimerQueue::addTimerInLoop`. -/
def addTimerInLoop (timer : Addr) : Checked TimerQueue := do
  let (q, earliestChanged) ← q.insert timer
  let t ← q.heap.get timer
  let q := q.note (.added ⟨timer, t.sequence⟩)
  return if earliestChanged then q.note (.resetTimerfd t.expiration) else q

/-- `TimerQueue::cancelInLoop`. -/
def cancelInLoop (timerId : TimerId) : Checked TimerQueue := do
  q.assertSizes
  let timer : ActiveTimer := (timerId.timer, timerId.sequence)
  let q ←
    if timer ∈ q.activeTimers then do
      let t ← q.heap.get timer.1
      let n := if Entry.of t.expiration timer.1 ∈ q.timers then 1 else 0
      assert (n = 1) "n == 1"
      let heap ← q.heap.free timer.1 -- `delete it->first`
      pure ({ q with
        heap
        timers := q.timers.erase (Entry.of t.expiration timer.1)
        activeTimers := q.activeTimers.erase timer }.note (.deleted t.sequence))
    else if q.callingExpiredTimers then
      -- it may be in the batch that is running: `reset` must not restart it
      pure { q with cancelingTimers := Insert.insert timer q.cancelingTimers }
    else pure q
  q.assertSizes
  return q

/-- The loop of `getExpired` over `expired`: remove the timers from `activeTimers_`. -/
def eraseActive (q : TimerQueue) : List Entry → Checked TimerQueue
  | [] => return q
  | it :: expired => do
      let t ← q.heap.get it.timer
      let n := if (it.timer, t.sequence) ∈ q.activeTimers then 1 else 0
      assert (n = 1) "n == 1"
      eraseActive { q with activeTimers := q.activeTimers.erase (it.timer, t.sequence) } expired

/-- `getExpired(now)`: move out all expired timers. -/
def getExpired (now : Timestamp) : Checked (TimerQueue × List Entry) := do
  q.assertSizes
  let sentry := Entry.of now UINTPTR_MAX -- above every timer that is due at `now`
  -- `lower_bound` cuts the ordered set in two
  let expired := {e ∈ q.timers | e < sentry}.sort
  let rest := {e ∈ q.timers | sentry ≤ e}
  assert (rest.sort.head?.all fun e => now < e.expiration)
    "end == timers_.end() || now < end->first"
  let q ← eraseActive { q with timers := rest } expired
  q.assertSizes
  return (q, expired)

/-- The loop of `reset` over `expired`: restart what repeats and is not cancelled, delete the rest. -/
def restartAll (now : Timestamp) (q : TimerQueue) : List Entry → Checked TimerQueue
  | [] => return q
  | it :: expired => do
      let t ← q.heap.get it.timer
      if t.repeats ∧ (it.timer, t.sequence) ∉ q.cancelingTimers then
        -- the timer is changed in place, and it is in neither set meanwhile
        let (q, _) ← { q with heap := q.heap.set it.timer (t.restart now) }.insert it.timer
        restartAll now q expired
      else
        let heap ← q.heap.free it.timer
        restartAll now ({ q with heap }.note (.deleted t.sequence)) expired

/-- `reset(expired, now)`. -/
def reset (expired : List Entry) (now : Timestamp) : Checked TimerQueue := do
  let q ← q.restartAll now expired
  match q.begin? with
  | none => return q
  | some first =>
      let t ← q.heap.get first.timer
      -- `nextExpire.valid()`
      return if 0 < t.expiration then q.note (.resetTimerfd t.expiration) else q

/-- The numbers of the timers that have been deleted, in order. -/
def deleted : List Nat :=
  q.log.filterMap fun
    | .deleted n => some n
    | _ => none

end TimerQueue

/-! ## The machine -/

/-- A batch of expired timers that `handleRead` is working through. -/
structure Batch where
  now : Timestamp
  expired : List Entry
  /-- The part of `expired` whose `run()` has not been called. -/
  remaining : List Entry
  deriving DecidableEq

/-- The queue of one loop and the timers on their way to it. -/
structure TimerState where
  queue : TimerQueue
  /-- `Timer::s_numCreated_`. -/
  numCreated : Nat
  /-- The timers made by `addTimer` for which `addTimerInLoop` has not run. -/
  created : Finset Addr
  batch : Option Batch

/-- The steps that concern the queue. -/
inductive TimerStep where
  /-- `new Timer(cb, when, interval)` in `addTimer`, in any thread. -/
  | create (timer : Addr) (expiration : Timestamp) (interval : Int) (repeats : Bool)
  | addTimerInLoop (timer : Addr)
  | cancelInLoop (timerId : TimerId)
  /-- `handleRead` up to the first `run()`. -/
  | expire (now : Timestamp)
  /-- The next `run()` of `handleRead`. -/
  | run
  /-- The rest of `handleRead`, after the last `run()`. -/
  | reset

namespace TimerState

/-- No timer was created. -/
def new : TimerState :=
  { queue := TimerQueue.new, numCreated := 0, created := ∅, batch := none }

variable (s : TimerState)

/-- What may happen: `new` finds memory that is not in use, `addTimerInLoop` runs once for each timer,
and the parts of `handleRead` follow each other. -/
def Enabled : TimerStep → Prop
  | .create timer _ _ _ => s.queue.heap timer = none ∧ timer < UINTPTR_MAX
  | .addTimerInLoop timer => timer ∈ s.created
  | .cancelInLoop _ => True
  | .expire _ => s.batch = none
  | .run => ∃ b, s.batch = some b ∧ b.remaining ≠ []
  | .reset => ∃ b, s.batch = some b ∧ b.remaining = []

/-- What a step does, with the assertions of the source. -/
def exec : TimerStep → Checked TimerState
  | .create timer expiration interval repeats =>
      let t : Timer := { expiration, interval, repeats, sequence := s.numCreated + 1 }
      return { s with
        queue := { s.queue with heap := s.queue.heap.set timer t }
        numCreated := s.numCreated + 1
        created := Insert.insert timer s.created }
  | .addTimerInLoop timer => do
      let queue ← s.queue.addTimerInLoop timer
      return { s with queue, created := s.created.erase timer }
  | .cancelInLoop timerId => do
      let queue ← s.queue.cancelInLoop timerId
      return { s with queue }
  | .expire now => do
      let (queue, expired) ← s.queue.getExpired now
      return { s with
        queue := { queue with callingExpiredTimers := true, cancelingTimers := ∅ }
        batch := some { now, expired, remaining := expired } }
  | .run =>
      match s.batch with
      | some { now, expired, remaining := it :: remaining } => do
          let t ← s.queue.heap.get it.timer
          return { s with
            queue := s.queue.note (.started t.sequence)
            batch := some { now, expired, remaining } }
      | _ => return s
  | .reset =>
      match s.batch with
      | some b => do
          let queue ← { s.queue with callingExpiredTimers := false }.reset b.expired b.now
          return { s with queue, batch := none }
      | none => return s

end TimerState

/-- The timer queue of a loop with the threads that use it. -/
def timerQueue : Machine TimerState TimerStep where
  init s := s = TimerState.new
  enabled := TimerState.Enabled
  exec := TimerState.exec

end Muduo.Net
