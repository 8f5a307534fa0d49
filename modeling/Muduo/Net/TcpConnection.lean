import Muduo.Net.ByteQueue
import Muduo.Net.Channel

/-! # `net::TcpConnection`

The life of one connection in its loop thread, `net/TcpConnection.cpp`. What a member function does to
the object is its result state; what it does to the world outside is a list of `Event`s, in order: the
bytes the kernel took, the half-close, the functors it queued, the callbacks it ran. The results of
the system calls are arguments, and so is what the user's callbacks do: a callback is the list of
calls it makes on the connection. -/

namespace Muduo.Net

open Support

/-- The states of a connection. -/
inductive StateE where
  | kDisconnected
  | kConnecting -- accepted, not yet established in its loop
  | kConnected
  | kDisconnecting -- established, with a close requested
  deriving DecidableEq, Repr

/-- The error numbers that the code tells apart. -/
inductive Errno where
  | EWOULDBLOCK
  | EPIPE
  | ECONNRESET
  | other (n : Nat)
  deriving DecidableEq, Repr

/-- The result of a `write`: an error, or how many bytes the kernel took. -/
abbrev WriteResult := Except Errno Nat

/-- A functor that a connection hands to its loop. -/
inductive Functor where
  | sendInLoop (message : List Byte)
  | shutdownInLoop
  | forceCloseInLoop
  | writeComplete -- `writeCompleteCallback_(conn)`
  | highWaterMark (size : Nat) -- `highWaterMarkCallback_(conn, size)`
  | startReadInLoop
  | stopReadInLoop
  deriving DecidableEq, Repr

/-- What a member function does outside the object. -/
inductive Event where
  /-- `sendInLoop` was entered with this message. -/
  | sendInLoop (message : List Byte)
  /-- The kernel took these bytes from a `write`. -/
  | written (bytes : List Byte)
  /-- `socket_->shutdownWrite()`, in this state and with these bytes left in `outputBuffer_`. -/
  | shutdownWrite (state : StateE) (pending : List Byte)
  /-- `loop_->queueInLoop(f)`, or `loop_->runInLoop(f)` from another thread. -/
  | queued (f : Functor)
  /-- `loop_->runAfter(seconds, forceClose)`. -/
  | runAfterForceClose
  /-- `connectionCallback_(conn)`, called in this state. -/
  | connectionCallback (state : StateE)
  | messageCallback
  | closeCallback
  deriving DecidableEq, Repr

/-- The data members of `TcpConnection` that its functions use. -/
structure TcpConnection where
  state : StateE
  reading : Bool
  channel : Channel
  -- whether the callbacks are set
  writeCompleteCallback : Bool
  highWaterMarkCallback : Bool
  highWaterMark : Nat
  inputBuffer : ByteQueue
  outputBuffer : ByteQueue

/-- A call that user code makes on a connection. -/
inductive UserCall where
  /-- `send(message)`, with the result of the `write` it may issue. -/
  | send (message : List Byte) (res : WriteResult)
  | shutdown
  | forceClose
  | forceCloseWithDelay
  | startRead
  | stopRead
  deriving DecidableEq, Repr

namespace TcpConnection

/-- A connection with what its last function did. -/
abbrev Outcome := TcpConnection × List Event

/-- The constructor: a connection that is not yet established. -/
def new (writeCompleteCallback highWaterMarkCallback : Bool) : TcpConnection :=
  { state := .kConnecting
    reading := true
    channel := Channel.new
    writeCompleteCallback
    highWaterMarkCallback
    highWaterMark := 64 * 1024 * 1024
    inputBuffer := ByteQueue.new
    outputBuffer := ByteQueue.new }

variable (c : TcpConnection)

/-- The head of `sendInLoop`: if nothing is in the output queue, try writing directly. Returns how many
bytes were written, whether the connection is broken, and what happened. -/
def directWrite (data : List Byte) (res : WriteResult) : Nat × Bool × List Event :=
  if ¬ c.channel.isWriting ∧ c.outputBuffer.readableBytes = 0 then
    match res with
    | .ok nwrote =>
        let remaining := data.length - nwrote
        (nwrote, false, .written (data.take nwrote) ::
          if remaining = 0 ∧ c.writeCompleteCallback then [.queued .writeComplete] else [])
    | .error errno =>
        -- any error but `EWOULDBLOCK` is logged, these two mean a broken connection
        (0, errno = .EPIPE ∨ errno = .ECONNRESET, [])
  else (0, false, [])

/-- The tail of `sendInLoop`: put what was not written into `outputBuffer_` and watch for room. -/
def bufferRemaining (data : List Byte) (nwrote : Nat) : Outcome :=
  let remaining := data.length - nwrote
  let oldLen := c.outputBuffer.readableBytes
  let events : List Event :=
    if oldLen + remaining ≥ c.highWaterMark ∧ oldLen < c.highWaterMark ∧ c.highWaterMarkCallback then
      [.queued (.highWaterMark (oldLen + remaining))]
    else []
  -- now there is something to send when the socket has room again
  let channel := if c.channel.isWriting then c.channel else c.channel.enableWriting
  ({ c with outputBuffer := c.outputBuffer.append (data.drop nwrote), channel }, events)

/-- `sendInLoop(data, len)`; `res` is the result of the `write`, if one is issued. -/
def sendInLoop (data : List Byte) (res : WriteResult) : Checked Outcome := do
  if c.state = .kDisconnected then
    return (c, [.sendInLoop data]) -- "disconnected, give up writing"
  else
    let (nwrote, faultError, events) := c.directWrite data res
    let remaining := data.length - nwrote
    assert (remaining ≤ data.length) "remaining <= len"
    if ¬ faultError ∧ remaining > 0 then
      let (c', queued) := c.bufferRemaining data nwrote
      return (c', .sendInLoop data :: events ++ queued)
    else
      return (c, .sendInLoop data :: events)

/-- Half-close the socket, unless output is still waiting for room. -/
def shutdownInLoop : Outcome :=
  (c, if c.channel.isWriting then [] else [.shutdownWrite c.state c.outputBuffer.content])

/-- `handleWrite()`; `res` is the result of the `write`. -/
def handleWrite (res : WriteResult) : Checked Outcome := do
  if c.channel.isWriting then
    match res with
    | .ok (n + 1) =>
        let sent := Event.written (c.outputBuffer.content.take (n + 1))
        let outputBuffer ← c.outputBuffer.retrieve (n + 1)
        let c := { c with outputBuffer }
        if outputBuffer.readableBytes = 0 then
          -- all is sent: stop watching, and make up for a `shutdown()` that had to wait
          let c := { c with channel := c.channel.disableWriting }
          let complete : List Event :=
            if c.writeCompleteCallback then [.queued .writeComplete] else []
          if c.state = .kDisconnecting then
            let (c, events) := c.shutdownInLoop
            return (c, sent :: complete ++ events)
          else
            return (c, sent :: complete)
        else
          return (c, [sent])
    | _ => return (c, []) -- an error, or nothing written, is logged and tried again
  else
    return (c, []) -- "is down, no more writing"

/-- `TcpConnection::forceClose`. -/
def forceClose : Outcome :=
  if c.state = .kConnected ∨ c.state = .kDisconnecting then
    ({ c with state := .kDisconnecting }, [.queued .forceCloseInLoop])
  else (c, [])

/-- `forceCloseWithDelay(seconds)`. -/
def forceCloseWithDelay : Outcome :=
  if c.state = .kConnected ∨ c.state = .kDisconnecting then
    ({ c with state := .kDisconnecting }, [.runAfterForceClose])
  else (c, [])

/-- `TcpConnection::startReadInLoop`. -/
def startReadInLoop : TcpConnection :=
  if ¬ c.reading ∨ ¬ c.channel.isReading then
    { c with channel := c.channel.enableReading, reading := true }
  else c

/-- `TcpConnection::stopReadInLoop`. -/
def stopReadInLoop : TcpConnection :=
  if c.reading ∨ c.channel.isReading then
    { c with channel := c.channel.disableReading, reading := false }
  else c

/-- `send(message)`, in the loop thread or in another one. -/
def send (inLoop : Bool) (message : List Byte) (res : WriteResult) : Checked Outcome :=
  if c.state = .kConnected then
    if inLoop then c.sendInLoop message res
    else return (c, [.queued (.sendInLoop message)])
  else return (c, [])

/-- `shutdown()`, in the loop thread or in another one. -/
def shutdown (inLoop : Bool) : Outcome :=
  if c.state = .kConnected then
    let c := { c with state := .kDisconnecting }
    if inLoop then c.shutdownInLoop else (c, [.queued .shutdownInLoop])
  else (c, [])

/-- A call of user code. It goes through `runInLoop` where the source does, which calls the functor at
once in the loop thread and queues it elsewhere. -/
def call (inLoop : Bool) : UserCall → Checked Outcome
  | .send message res => c.send inLoop message res
  | .shutdown => return c.shutdown inLoop
  | .forceClose => return c.forceClose
  | .forceCloseWithDelay => return c.forceCloseWithDelay
  | .startRead =>
      return if inLoop then (c.startReadInLoop, []) else (c, [.queued .startReadInLoop])
  | .stopRead =>
      return if inLoop then (c.stopReadInLoop, []) else (c, [.queued .stopReadInLoop])

/-- The calls a callback makes, one after the other. -/
def runCallback (c : TcpConnection) : List UserCall → Checked Outcome
  | [] => return (c, [])
  | call :: calls => do
      let (c, events) ← c.call true call
      let (c, events') ← runCallback c calls
      return (c, events ++ events')

/-- `connectEstablished()`; `callback` is what `connectionCallback_` does. -/
def connectEstablished (callback : List UserCall) : Checked Outcome := do
  assert (c.state = .kConnecting) "state_ == kConnecting"
  let c := { c with state := .kConnected, channel := c.channel.enableReading }
  let (c', events) ← c.runCallback callback
  return (c', .connectionCallback c.state :: events)

/-- `connectDestroyed()`; `callback` is what `connectionCallback_` does, if it is called. -/
def connectDestroyed (callback : List UserCall) : Checked Outcome := do
  if c.state = .kConnected then
    let c := { c with state := .kDisconnected, channel := c.channel.disableAll }
    let (c', events) ← c.runCallback callback
    -- the callback has run by now, and may have touched the channel again
    let channel ← c'.channel.remove
    return ({ c' with channel }, .connectionCallback c.state :: events)
  else
    let channel ← c.channel.remove
    return ({ c with channel }, [])

/-- `handleClose()`; `callback` is what `connectionCallback_` does. -/
def handleClose (callback : List UserCall) : Checked Outcome := do
  assert (c.state = .kConnected ∨ c.state = .kDisconnecting)
    "state_ == kConnected || state_ == kDisconnecting"
  -- the descriptor stays open until the object is destroyed
  let c := { c with state := .kDisconnected, channel := c.channel.disableAll }
  let (c', events) ← c.runCallback callback
  return (c', .connectionCallback c.state :: events ++ [.closeCallback])

/-- `forceCloseInLoop()`: as if 0 bytes were received in `handleRead`. -/
def forceCloseInLoop (callback : List UserCall) : Checked Outcome :=
  if c.state = .kConnected ∨ c.state = .kDisconnecting then c.handleClose callback
  else return (c, [])

/-- `handleRead(receiveTime)`: read what has arrived and hand it to `messageCallback_`, which keeps
`unread` of the input; an end of file closes, an error is only logged. -/
def handleRead (res : Buffer.ReadResult) (callback : List UserCall)
    (unread : ByteQueue → ByteQueue) : Checked Outcome :=
  match res with
  | .ok [] => c.handleClose callback
  | .ok data => do
      let c := { c with inputBuffer := c.inputBuffer.readFd data }
      let (c', events) ← c.runCallback callback
      return ({ c' with inputBuffer := unread c'.inputBuffer }, .messageCallback :: events)
  | .error _ => return (c, [])

/-- Run a functor that was queued in the loop; `callback` is what a user callback on the way does and
`res` the result of a `write`. -/
def runFunctor (callback : List UserCall) (res : WriteResult) : Functor → Checked Outcome
  | .sendInLoop message => c.sendInLoop message res
  | .shutdownInLoop => return c.shutdownInLoop
  | .forceCloseInLoop => c.forceCloseInLoop callback
  | .writeComplete | .highWaterMark _ => c.runCallback callback
  | .startReadInLoop => return (c.startReadInLoop, [])
  | .stopReadInLoop => return (c.stopReadInLoop, [])

end TcpConnection

end Muduo.Net
