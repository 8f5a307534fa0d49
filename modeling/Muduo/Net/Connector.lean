import Muduo.Net.Channel
import Muduo.Support.Machine

/-! # `net::Connector`

The client side of the making of a connection, `net/Connector.cpp`: a socket is created, its `connect` is
started, and a channel waits until it is writable or in error; when the attempt fails, the socket is closed
and a timer is started for the next one. As for a connection, what a member function does outside the object
is a list of events. Sockets are named by the order in which they are created, so that a number is never used
for two of them. -/

namespace Muduo.Net

open Support

/-! ## The member functions -/

/-- The outcomes of `sockets::connect` that the code tells apart. -/
inductive ConnectErrno where
  | success
  | EINPROGRESS
  | EINTR
  | EISCONN
  | EAGAIN
  | EADDRINUSE
  | EADDRNOTAVAIL
  | ECONNREFUSED
  | ENETUNREACH
  | EACCES
  | EPERM
  | EAFNOSUPPORT
  | EALREADY
  | EBADF
  | EFAULT
  | ENOTSOCK
  | other (n : Nat)
  deriving DecidableEq, Repr

/-- A functor that a connector hands to its loop. -/
inductive ConnectorFunctor where
  | stopInLoop
  | resetChannel
  deriving DecidableEq, Repr

/-- What a member function does outside the object. -/
inductive ConnectorEvent where
  /-- `sockets::createNonblockingOrDie` returned this socket. -/
  | socket (sockfd : Nat)
  /-- `sockets::close(sockfd)`. -/
  | close (sockfd : Nat)
  /-- `newConnectionCallback_(sockfd)`. -/
  | newConnection (sockfd : Nat)
  /-- `loop_->queueInLoop(f)`. -/
  | queued (f : ConnectorFunctor)
  /-- `loop_->runAfter(delayMs / 1000.0, startInLoop)`. -/
  | runAfter (delayMs : Nat)
  deriving DecidableEq, Repr

namespace Connector

/-- The states of a connector. -/
inductive States where
  | kDisconnected
  | kConnecting
  | kConnected
  deriving DecidableEq, Repr

/-- `Connector::kMaxRetryDelayMs`. -/
def kMaxRetryDelayMs : Nat := 30 * 1000

/-- `Connector::kInitRetryDelayMs`. -/
def kInitRetryDelayMs : Nat := 500

/-- A channel with its descriptor. -/
structure FdChannel where
  fd : Nat
  channel : Channel
  deriving DecidableEq, Repr

end Connector

open Connector in
/-- The data members of `Connector`, with the number of sockets created so far. -/
structure Connector where
  connect_ : Bool
  state : States
  channel : Option FdChannel
  retryDelayMs : Nat
  sockets : Nat
  deriving DecidableEq, Repr

namespace Connector

/-- A connector with what its last function did. -/
abbrev Outcome := Connector × List ConnectorEvent

/-- The constructor. -/
def new : Connector :=
  { connect_ := false
    state := .kDisconnected
    channel := none
    retryDelayMs := kInitRetryDelayMs
    sockets := 0 }

variable (c : Connector)

/-- `retry(sockfd)`: close the socket, and try again later if the connector is still to connect. -/
def retry (sockfd : Nat) : Outcome :=
  let c := { c with state := .kDisconnected }
  if c.connect_ then
    ({ c with retryDelayMs := min (c.retryDelayMs * 2) kMaxRetryDelayMs },
      [.close sockfd, .runAfter c.retryDelayMs])
  else (c, [.close sockfd])

/-- `connecting(sockfd)`: wait until the socket is writable. -/
def connecting (sockfd : Nat) : Checked Connector := do
  let c := { c with state := .kConnecting }
  assert (c.channel = none) "!channel_"
  return { c with channel := some ⟨sockfd, Channel.new.enableWriting⟩ }

/-- `connect()`; `savedErrno` is the result of `sockets::connect`. -/
def connect (savedErrno : ConnectErrno) : Checked Outcome := do
  let sockfd := c.sockets
  let c := { c with sockets := sockfd + 1 }
  match savedErrno with
  | .success | .EINPROGRESS | .EINTR | .EISCONN =>
      let c ← c.connecting sockfd
      return (c, [.socket sockfd])
  | .EAGAIN | .EADDRINUSE | .EADDRNOTAVAIL | .ECONNREFUSED | .ENETUNREACH =>
      let (c, events) := c.retry sockfd
      return (c, .socket sockfd :: events)
  | .EACCES | .EPERM | .EAFNOSUPPORT | .EALREADY | .EBADF | .EFAULT | .ENOTSOCK | .other _ =>
      return (c, [.socket sockfd, .close sockfd])

/-- `Connector::startInLoop`. -/
def startInLoop (savedErrno : ConnectErrno) : Checked Outcome := do
  assert (c.state = .kDisconnected) "state_ == kDisconnected"
  if c.connect_ then c.connect savedErrno
  else return (c, []) -- "do not connect"

/-- `start()` in the loop thread. -/
def start (savedErrno : ConnectErrno) : Checked Outcome :=
  startInLoop { c with connect_ := true } savedErrno

/-- `Connector::stop`. -/
def stop : Outcome := ({ c with connect_ := false }, [.queued .stopInLoop])

/-- `removeAndResetChannel()`: the channel is removed from the poller now and destroyed later, because this
may be called from one of its callbacks. -/
def removeAndResetChannel : Checked (Connector × Nat × List ConnectorEvent) :=
  match c.channel with
  | none => .error "channel_" -- a null pointer would be used
  | some channel => do
      let removed ← channel.channel.disableAll.remove
      return ({ c with channel := some { channel with channel := removed } }, channel.fd,
        [.queued .resetChannel])

/-- `Connector::stopInLoop`. -/
def stopInLoop : Checked Outcome := do
  if c.state = .kConnecting then
    let c := { c with state := .kDisconnected }
    let (c, sockfd, events) ← c.removeAndResetChannel
    let (c, events') := c.retry sockfd -- only closes the socket, unless `start` was called since
    return (c, events ++ events')
  else return (c, [])

/-- `resetChannel()`, with the assertion of `~Channel`. -/
def resetChannel : Checked Connector :=
  match c.channel with
  | none => return c
  | some channel => do
      assert (channel.channel.addedToLoop = false) "!addedToLoop_"
      return { c with channel := none }

/-- `Connector::restart`. -/
def restart (savedErrno : ConnectErrno) : Checked Outcome :=
  startInLoop
    { c with state := .kDisconnected, retryDelayMs := kInitRetryDelayMs, connect_ := true } savedErrno

/-- `handleWrite()`, where `getSocketError` returns `err` and `isSelfConnect` returns `selfConnect`. -/
def handleWrite (err : Nat) (selfConnect : Bool) : Checked Outcome := do
  if c.state = .kConnecting then
    let (c, sockfd, events) ← c.removeAndResetChannel
    if err ≠ 0 then
      let (c, events') := c.retry sockfd
      return (c, events ++ events')
    else if selfConnect then
      let (c, events') := c.retry sockfd
      return (c, events ++ events')
    else
      let c := { c with state := .kConnected }
      if c.connect_ then return (c, events ++ [.newConnection sockfd])
      else return (c, events ++ [.close sockfd])
  else
    assert (c.state = .kDisconnected) "state_ == kDisconnected"
    return (c, [])

/-- `Connector::handleError`. -/
def handleError : Checked Outcome := do
  if c.state = .kConnecting then
    let (c, sockfd, events) ← c.removeAndResetChannel
    let (c, events') := c.retry sockfd
    return (c, events ++ events')
  else return (c, [])

/-- A callback of the channel; only two are set. -/
def callback (err : Nat) (selfConnect : Bool) : ChannelCallback → Checked Outcome
  | .errorCallback => c.handleError
  | .writeCallback => c.handleWrite err selfConnect
  | .closeCallback | .readCallback => return (c, [])

/-- The callbacks of one pass, one after the other. -/
def runCallbacks (c : Connector) (err : Nat) (selfConnect : Bool) :
    List ChannelCallback → Checked Outcome
  | [] => return (c, [])
  | callback :: callbacks => do
      let (c, events) ← c.callback err selfConnect callback
      let (c, events') ← runCallbacks c err selfConnect callbacks
      return (c, events ++ events')

/-- `channel_->handleEvent()`, with what the callbacks will find out about the socket. -/
def handleEvent (revents : BitVec 32) (err : Nat) (selfConnect : Bool) : Checked Outcome :=
  c.runCallbacks err selfConnect (Channel.handleEventWithGuard revents)

end Connector

end Muduo.Net
