import Muduo.Support.Checked
import Mathlib.Data.BitVec

/-! # `net::Channel`

The interest set of a file descriptor, `net/Channel.h`. `events` is the bit set that the pollers are
told about; the five operations below are the only ones that change it. -/

namespace Muduo.Net

open Support

/-- The data members of `Channel` that its operations read and write. -/
structure Channel where
  events : BitVec 32
  addedToLoop : Bool
  deriving DecidableEq, Repr

namespace Channel

/-- `Channel::kNoneEvent`. -/
def kNoneEvent : BitVec 32 := 0

/-- `POLLIN | POLLPRI`. -/
def kReadEvent : BitVec 32 := 3

/-- `POLLOUT`. -/
def kWriteEvent : BitVec 32 := 4

/-- The constructor. -/
def new : Channel := { events := 0, addedToLoop := false }

/-- `update()`: announce the events to the loop. -/
def update (c : Channel) : Channel := { c with addedToLoop := true }

/-- `Channel::enableReading`. -/
def enableReading (c : Channel) : Channel := update { c with events := c.events ||| kReadEvent }

/-- `Channel::disableReading`. -/
def disableReading (c : Channel) : Channel := update { c with events := c.events &&& ~~~kReadEvent }

/-- `Channel::enableWriting`. -/
def enableWriting (c : Channel) : Channel := update { c with events := c.events ||| kWriteEvent }

/-- `Channel::disableWriting`. -/
def disableWriting (c : Channel) : Channel :=
  update { c with events := c.events &&& ~~~kWriteEvent }

/-- `Channel::disableAll`. -/
def disableAll (c : Channel) : Channel := update { c with events := kNoneEvent }

/-- `Channel::isNoneEvent`. -/
def isNoneEvent (c : Channel) : Bool := c.events == kNoneEvent

/-- `Channel::isWriting`. -/
def isWriting (c : Channel) : Bool := c.events &&& kWriteEvent != 0

/-- `Channel::isReading`. -/
def isReading (c : Channel) : Bool := c.events &&& kReadEvent != 0

/-- `remove()`: the channel must not be watched any more. -/
def remove (c : Channel) : Checked Channel := do
  assert c.isNoneEvent "isNoneEvent()"
  return { c with addedToLoop := false }

end Channel

/-! ## Events -/

/-- The callbacks that can be set on a channel. -/
inductive ChannelCallback where
  | closeCallback
  | errorCallback
  | readCallback
  | writeCallback
  deriving DecidableEq, Repr

/-- The bits of `revents_`, from `poll.h`. -/
def POLLIN : BitVec 32 := 0x1

/-- Urgent data can be read. -/
def POLLPRI : BitVec 32 := 0x2

/-- The socket can be written. -/
def POLLOUT : BitVec 32 := 0x4

/-- An error is pending. -/
def POLLERR : BitVec 32 := 0x8

/-- Both directions are shut. -/
def POLLHUP : BitVec 32 := 0x10

/-- The descriptor is not open. -/
def POLLNVAL : BitVec 32 := 0x20

/-- The peer has shut its sending side. -/
def POLLRDHUP : BitVec 32 := 0x2000

namespace Channel

/-- `handleEventWithGuard(receiveTime)`: the callbacks that are called for `revents_`, in order. -/
def handleEventWithGuard (revents : BitVec 32) : List ChannelCallback :=
  (if revents &&& POLLHUP ≠ 0 ∧ revents &&& POLLIN = 0 then [.closeCallback] else []) ++
  (if revents &&& (POLLERR ||| POLLNVAL) ≠ 0 then [.errorCallback] else []) ++
  (if revents &&& (POLLIN ||| POLLPRI ||| POLLRDHUP) ≠ 0 then [.readCallback] else []) ++
  (if revents &&& POLLOUT ≠ 0 then [.writeCallback] else [])

/-- `isWriting` is bit 2. -/
theorem isWriting_eq (c : Channel) : c.isWriting = c.events.getLsbD 2 := by
  -- the write event is a single bit, so testing it against zero is reading that bit
  have hbit : kWriteEvent = BitVec.twoPow 32 2 := by decide
  rw [isWriting, hbit, BitVec.and_twoPow]
  cases c.events.getLsbD 2 <;> decide

variable (c : Channel)

@[simp] theorem isWriting_enableWriting : c.enableWriting.isWriting = true := by
  rw [isWriting_eq, enableWriting, update, BitVec.getLsbD_or]
  exact Bool.or_true _

@[simp] theorem isWriting_disableWriting : c.disableWriting.isWriting = false := by
  rw [isWriting_eq, disableWriting, update, BitVec.getLsbD_and]
  exact Bool.and_false _

@[simp] theorem isWriting_enableReading : c.enableReading.isWriting = c.isWriting := by
  rw [isWriting_eq, isWriting_eq, enableReading, update, BitVec.getLsbD_or]
  exact Bool.or_false _

@[simp] theorem isWriting_disableReading : c.disableReading.isWriting = c.isWriting := by
  rw [isWriting_eq, isWriting_eq, disableReading, update, BitVec.getLsbD_and]
  exact Bool.and_true _

@[simp] theorem isWriting_new : new.isWriting = false := by
  show (0#32 &&& kWriteEvent != 0) = false
  decide

/-- `isReading` is bit 0 or bit 1. -/
theorem isReading_eq : c.isReading = (c.events.getLsbD 0 || c.events.getLsbD 1) := by
  have hbits : kReadEvent = BitVec.twoPow 32 0 ||| BitVec.twoPow 32 1 := by decide
  have hsplit : c.events &&& kReadEvent
      = (c.events &&& BitVec.twoPow 32 0) ||| (c.events &&& BitVec.twoPow 32 1) := by
    rw [hbits, BitVec.and_or_distrib_left]
  rw [isReading, hsplit, BitVec.and_twoPow, BitVec.and_twoPow]
  cases c.events.getLsbD 0 <;> cases c.events.getLsbD 1 <;> decide

@[simp] theorem isReading_enableReading : c.enableReading.isReading = true := by
  rw [isReading_eq, enableReading, update, BitVec.getLsbD_or, BitVec.getLsbD_or]
  have hbit : kReadEvent.getLsbD 0 = true := by decide
  rw [hbit, Bool.or_true, Bool.true_or]

@[simp] theorem isReading_enableWriting : c.enableWriting.isReading = c.isReading := by
  have hbits : kWriteEvent.getLsbD 0 = false ∧ kWriteEvent.getLsbD 1 = false := by decide
  rw [isReading_eq, isReading_eq, enableWriting, update, BitVec.getLsbD_or, BitVec.getLsbD_or,
    hbits.1, hbits.2, Bool.or_false, Bool.or_false]

@[simp] theorem isReading_disableWriting : c.disableWriting.isReading = c.isReading := by
  have hbits : (~~~kWriteEvent).getLsbD 0 = true ∧ (~~~kWriteEvent).getLsbD 1 = true := by decide
  rw [isReading_eq, isReading_eq, disableWriting, update, BitVec.getLsbD_and, BitVec.getLsbD_and,
    hbits.1, hbits.2, Bool.and_true, Bool.and_true]

/-- A channel that watches for input watches something. -/
theorem isNoneEvent_of_isReading (h : c.isReading = true) : c.isNoneEvent = false := by
  rw [isNoneEvent, beq_eq_false_iff_ne]
  intro hnone
  rw [isReading, hnone] at h
  revert h
  decide

/-- A channel without events does not write. -/
theorem isWriting_of_isNoneEvent (h : c.isNoneEvent = true) : c.isWriting = false := by
  rw [isNoneEvent, beq_iff_eq] at h
  rw [isWriting, h]
  decide

@[simp] theorem isNoneEvent_disableAll : c.disableAll.isNoneEvent = true := rfl

end Channel

end Muduo.Net
