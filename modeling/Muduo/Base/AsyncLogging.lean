import Muduo.Base.FixedBuffer
import Muduo.Support.Machine

/-! # `AsyncLogging`

The asynchronous log of `base/AsyncLogging.cpp`. Any number of threads append lines to `currentBuffer_`; full
buffers wait in `buffers_`. The back end, `threadFunc`, collects the buffers, writes them and gives two of
them back for use. A critical section of `mutex_` is one step; the one of the back end is two if it waits
in between. A wait may end at any time, by the timeout, so the notifications have no part in the model. What
`LogFile` does with the text is not modelled.

A `unique_ptr` is an `Option`, and to dereference a null pointer is an error. -/

namespace Muduo

open Support

namespace AsyncLogging

/-- A buffer of log lines, `AsyncLogging::Buffer`. -/
abbrev Buffer := FixedBuffer kLargeBuffer

/-- A `unique_ptr` to a buffer; `none` is the null pointer. -/
abbrev BufferPtr := Option Buffer

/-- The buffer that a pointer points to. -/
def deref : BufferPtr → Checked Buffer
  | some b => .ok b
  | none => .error "null pointer"

/-- The text in a buffer. -/
def contents (p : BufferPtr) : List UInt8 := (p.map FixedBuffer.data).getD []

/-- A call of `output.append`: the contents of a buffer, or the notice about dropped ones. -/
inductive Output where
  | append (data : List UInt8)
  | notice (text : String)
  deriving DecidableEq, Repr

/-- Where the back end is in `threadFunc`. -/
inductive BackEndPc where
  | notStarted
  | top -- at `while (running_)`
  | lock -- before the critical section
  | wait -- in `cond_.waitForSeconds(flushInterval_)`
  | collected -- after the critical section
  | writing -- in the loop over `buffersToWrite`
  | returned
  deriving DecidableEq, Repr

/-- Where the thread that calls `stop()` is. -/
inductive StopPc where
  | notCalled
  | notify -- `running_` is cleared
  | join
  | returned
  deriving DecidableEq, Repr

end AsyncLogging

open AsyncLogging

/-- The log with the local variables of `threadFunc`. -/
structure AsyncLogging where
  running : Bool
  currentBuffer : BufferPtr
  nextBuffer : BufferPtr
  buffers : List BufferPtr
  -- the back end
  pc : BackEndPc
  newBuffer1 : BufferPtr
  newBuffer2 : BufferPtr
  buffersToWrite : List BufferPtr
  /-- What is left of `buffersToWrite` to be written. -/
  unwritten : List BufferPtr
  output : List Output
  stopper : StopPc
  /-- The lines appended so far. -/
  appended : List (List UInt8)
  /-- The texts of the buffers collected in each pass so far, before any of them is dropped. -/
  passes : List (List (List UInt8))

/-- The calls of the front end, and the places between which the back end is interrupted. -/
inductive AsyncLogging.Step where
  | append (logline : List UInt8)
  -- the back end
  | start
  | checkRunning
  | lock
  | wake
  | dropMessages (now : String)
  | writeBuffer
  | recycle
  -- the caller of `stop()`
  | stop
  | notify
  | joined

namespace AsyncLogging

/-- The constructor: three empty buffers, and the back end not started. -/
def new : AsyncLogging :=
  { running := false
    currentBuffer := some .new
    nextBuffer := some .new
    buffers := []
    pc := .notStarted
    newBuffer1 := some .new
    newBuffer2 := some .new
    buffersToWrite := []
    unwritten := []
    output := []
    stopper := .notCalled
    appended := []
    passes := [] }

variable (s : AsyncLogging)

/-- `append(logline, len)`. -/
def append (logline : List UInt8) : Checked AsyncLogging := do
  let appended := s.appended ++ [logline]
  let current ← deref s.currentBuffer
  if current.avail > logline.length then
    return { s with appended, currentBuffer := some (current.append logline) }
  else
    -- the spare buffer, or a new one
    let fresh := s.nextBuffer.getD .new
    return { s with
      appended
      buffers := s.buffers ++ [s.currentBuffer]
      currentBuffer := some (fresh.append logline)
      nextBuffer := none }

/-- The head of the loop of `threadFunc`. -/
def checkRunning : Checked AsyncLogging := do
  if s.running then
    assert (s.newBuffer1.any fun b => b.length = 0) "newBuffer1 && newBuffer1->length() == 0"
    assert (s.newBuffer2.any fun b => b.length = 0) "newBuffer2 && newBuffer2->length() == 0"
    assert s.buffersToWrite.isEmpty "buffersToWrite.empty()"
    return { s with pc := .lock }
  else
    return { s with pc := .returned }

/-- The critical section of `threadFunc`, from the end of the wait on. -/
def collect : AsyncLogging :=
  let collected := s.buffers ++ [s.currentBuffer]
  let s' := { s with
    pc := .collected
    currentBuffer := s.newBuffer1
    newBuffer1 := none
    -- `buffersToWrite.swap(buffers_)`
    buffersToWrite := collected
    buffers := s.buffersToWrite
    unwritten := collected }
  match s'.nextBuffer with
  | some _ => s'
  | none => { s' with nextBuffer := s'.newBuffer2, newBuffer2 := none }

/-- `if (buffers_.empty()) cond_.waitForSeconds(flushInterval_)`. -/
def lock : AsyncLogging := if s.buffers.isEmpty then { s with pc := .wait } else s.collect

/-- The text of the notice, in a buffer of 256 characters. -/
def droppedText (now : String) (n : Nat) : String :=
  String.ofList (("Dropped log messages at " ++ now ++ ", " ++ toString n ++ " larger buffers\n").toList.take 255)

/-- With more than 25 buffers all but two of them are dropped. -/
def dropMessages (now : String) : Checked AsyncLogging := do
  assert (¬ s.buffersToWrite.isEmpty) "!buffersToWrite.empty()"
  let passes := s.passes ++ [s.buffersToWrite.map contents]
  if s.buffersToWrite.length > 25 then
    return { s with
      pc := .writing
      passes
      output := s.output ++ [.notice (droppedText now (s.buffersToWrite.length - 2))]
      buffersToWrite := s.buffersToWrite.take 2
      unwritten := s.buffersToWrite.take 2 }
  else
    return { s with pc := .writing, passes }

/-- The next buffer is written. -/
def writeBuffer : Checked AsyncLogging :=
  match s.unwritten with
  | [] => return s
  | p :: rest => do
      let buffer ← deref p
      return { s with unwritten := rest, output := s.output ++ [.append buffer.data] }

/-- If `newBuffer` was given away, take the last one of the buffers instead. -/
def takeBack (newBuffer : BufferPtr) (buffers : List BufferPtr) :
    Checked (BufferPtr × List BufferPtr) :=
  match newBuffer with
  | some _ => return (newBuffer, buffers)
  | none => do
      assert (¬ buffers.isEmpty) "!buffersToWrite.empty()"
      let buffer ← deref (buffers.getLast?.getD none)
      return (some buffer.reset, buffers.dropLast)

/-- The end of a turn of the loop of `threadFunc`. -/
def recycle : Checked AsyncLogging := do
  let buffers := if s.buffersToWrite.length > 2 then s.buffersToWrite.take 2 else s.buffersToWrite
  let (newBuffer1, buffers) ← takeBack s.newBuffer1 buffers
  let (newBuffer2, _) ← takeBack s.newBuffer2 buffers
  return { s with pc := .top, newBuffer1, newBuffer2, buffersToWrite := [] }

/-- When a step is possible. -/
def Enabled : AsyncLogging.Step → Prop
  | .append _ => True
  | .start => s.pc = .notStarted
  | .checkRunning => s.pc = .top
  | .lock => s.pc = .lock
  | .wake => s.pc = .wait
  | .dropMessages _ => s.pc = .collected
  | .writeBuffer => s.pc = .writing ∧ s.unwritten ≠ []
  | .recycle => s.pc = .writing ∧ s.unwritten = []
  | .stop => s.pc ≠ .notStarted ∧ s.stopper = .notCalled
  | .notify => s.stopper = .notify
  | .joined => s.stopper = .join ∧ s.pc = .returned

/-- What a step does, with the assertions of the source. -/
def exec : AsyncLogging.Step → Checked AsyncLogging
  | .append logline => s.append logline
  | .start => return { s with running := true, pc := .top }
  | .checkRunning => s.checkRunning
  | .lock => return s.lock
  | .wake => return s.collect
  | .dropMessages now => s.dropMessages now
  | .writeBuffer => s.writeBuffer
  | .recycle => s.recycle
  | .stop => return { s with running := false, stopper := .notify }
  | .notify => return { s with stopper := .join }
  | .joined => return { s with stopper := .returned }

end AsyncLogging

/-- The log, the threads that append to it and the one that stops it. -/
def asyncLogging : Machine AsyncLogging AsyncLogging.Step where
  init s := s = AsyncLogging.new
  enabled := AsyncLogging.Enabled
  exec := AsyncLogging.exec

end Muduo
