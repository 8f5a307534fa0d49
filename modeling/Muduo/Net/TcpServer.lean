import Muduo.Net.TcpConnectionState
import Muduo.Support.Machine
import Muduo.Support.Mailboxes
import Mathlib.Algebra.Order.Ring.Nat
import Mathlib.Data.Finmap

/-! # `net::TcpServer`

A server with the loops of its thread pool and all the connections it accepts, `net/TcpServer.cpp`. Each
loop is a process with a queue of functors, and a connection goes from one to the other: `newConnection`
runs in the base loop and has the connection established in its I/O loop, `handleClose` runs there and has
it removed in the base loop, and `removeConnectionInLoop` has it destroyed in the I/O loop again. Without
pool threads the I/O loop is the base loop, and `runInLoop` calls what it would queue otherwise.

A `TcpConnectionPtr` is the number of the connection in the order of the accepts. For each connection
the state keeps which functions of its life were executed. -/

namespace Muduo.Net

open Support TcpConnection

/-- An `EventLoop` of the server. -/
inductive LoopId where
  | base -- `loop_`
  | pool (i : Nat) -- `loops_[i]` of the thread pool
  deriving DecidableEq, Repr

/-- What a server is made with. -/
structure TcpServer where
  /-- `name_`. -/
  name : List Char
  /-- The address it listens at, as `inet_ntop` writes it. -/
  ip : List Char
  /-- `INET6_ADDRSTRLEN` is 46, with the null character. -/
  ip_length : ip.length ≤ 45
  port : Fin 65536
  /-- The size of `loops_` in the thread pool. -/
  numThreads : Nat

/-- What was executed for a connection. -/
inductive Milestone where
  | connectEstablished
  | handleEvent -- of its channel
  | handleClose
  | removeConnectionInLoop
  | connectDestroyed
  deriving DecidableEq, Repr

/-- A connection of the server. -/
structure ServedConnection where
  /-- `loop_`, the I/O loop. -/
  loop : LoopId
  /-- `name_`. -/
  name : List Char
  conn : TcpConnection
  /-- What was executed for it, in order. -/
  history : List Milestone

/-- A functor in the queue of a loop. -/
inductive ServerFunctor where
  | connectEstablished (id : Nat)
  | conn (id : Nat) (f : Functor)
  | removeConnectionInLoop (id : Nat)
  | connectDestroyed (id : Nat)
  deriving DecidableEq, Repr

/-- The data members of `TcpServer` that change, with its connections and the queues of the loops. -/
structure ServerState where
  nextConnId : Nat
  /-- `next_` of the thread pool. -/
  next : Nat
  connections : Finmap fun _ : List Char => Nat
  conns : List ServedConnection
  /-- `pendingFunctors_` of each loop. -/
  queues : Mailboxes LoopId ServerFunctor

/-- What the system calls return and the user's callbacks do in one event of a channel. -/
structure IoResults where
  read : Buffer.ReadResult
  write : List Byte → WriteResult
  /-- The calls of `messageCallback_` or `connectionCallback_`. -/
  callback : List UserCall
  /-- What `messageCallback_` leaves in the input buffer. -/
  unread : ByteQueue → ByteQueue

namespace TcpServer

variable (server : TcpServer)

/-- `ipPort_`, from `InetAddress::toIpPort()`. -/
def ipPort : List Char := server.ip ++ ':' :: Nat.toDigits 10 server.port

/-- The name that `newConnection` makes: `snprintf` into 64 characters, after `name_`. -/
def connName (nextConnId : Nat) : List Char :=
  let buf := ('-' :: server.ipPort ++ '#' :: Nat.toDigits 10 nextConnId).take 63
  server.name ++ buf

/-- `EventLoopThreadPool::getNextLoop()`, with the value that `next_` gets. -/
def getNextLoop (next : Nat) : LoopId × Nat :=
  if server.numThreads = 0 then (.base, next)
  else (.pool next, if next + 1 ≥ server.numThreads then 0 else next + 1)

end TcpServer

/-- Note a milestone in the connection's history. -/
def ServedConnection.note (c : ServedConnection) (m : Milestone) : ServedConnection :=
  { c with history := c.history ++ [m] }

/-- Whether a functor of a connection asserts that it runs in the loop of the connection. -/
def Functor.assertsInLoopThread : Functor → Bool
  | .writeComplete | .highWaterMark _ => false -- a callback of the user
  | _ => true

namespace ServerState

/-- A server before its first connection. -/
def new : ServerState :=
  { nextConnId := 1, next := 0, connections := ∅, conns := [], queues := Mailboxes.empty }

variable (s : ServerState)

/-- The object that a `TcpConnectionPtr` points to. -/
def get (id : Nat) : Checked ServedConnection :=
  match s.conns[id]? with
  | some c => .ok c
  | none => .error "no such connection"

/-- One connection changed. -/
def update (id : Nat) (f : ServedConnection → ServedConnection) : ServerState :=
  { s with conns := s.conns.modify id f }

/-- `loop->queueInLoop(f)`. -/
def queueInLoop (loop : LoopId) (f : ServerFunctor) : ServerState :=
  { s with queues := s.queues.post loop f }

/-- `removeConnectionInLoop(conn)`, in the thread of the loop `current`. -/
def removeConnectionInLoop (current : LoopId) (id : Nat) : Checked ServerState := do
  assert (current = .base) "loop_->assertInLoopThread()"
  let c ← s.get id
  let n := if c.name ∈ s.connections then 1 else 0
  assert (n = 1) "n == 1"
  let s := { s with connections := s.connections.erase c.name }
  let s := s.update id (·.note .removeConnectionInLoop)
  -- never at once: the channel may be in the middle of its `handleEvent`
  return s.queueInLoop c.loop (.connectDestroyed id)

/-- `removeConnection(conn)`, with `runInLoop` written out. -/
def removeConnection (current : LoopId) (id : Nat) : Checked ServerState :=
  if current = .base then s.removeConnectionInLoop current id
  else return s.queueInLoop .base (.removeConnectionInLoop id)

/-- What an event of a connection in the loop `loop` does to the loops and the server. -/
def absorb (loop : LoopId) (id : Nat) (s : ServerState) : Event → Checked ServerState
  | .queued f => return s.queueInLoop loop (.conn id f)
  -- `closeCallback_` is the last call of `handleClose`, and is called nowhere else
  | .closeCallback => (s.update id (·.note .handleClose)).removeConnection loop id
  -- the socket, the user, or a timer for a `forceClose` that the user could call just as well
  | _ => return s

/-- A function of a connection has returned in the loop `loop`. -/
def after (loop : LoopId) (id : Nat) (r : Outcome) : Checked ServerState :=
  r.2.foldlM (absorb loop id) (s.update id fun c => { c with conn := r.1 })

/-- Call a function of a connection, in the thread of its I/O loop. -/
def call (id : Nat) (f : TcpConnection → Checked Outcome) : Checked ServerState := do
  let c ← s.get id
  s.after c.loop id (← f c.conn)

/-- `TcpConnection::connectEstablished()`. -/
def connectEstablished (current : LoopId) (id : Nat) (callback : List UserCall) :
    Checked ServerState := do
  let c ← s.get id
  assert (current = c.loop) "loop_->assertInLoopThread()"
  (s.update id (·.note .connectEstablished)).call id (·.connectEstablished callback)

/-- `TcpConnection::connectDestroyed()`. -/
def connectDestroyed (current : LoopId) (id : Nat) (callback : List UserCall) :
    Checked ServerState := do
  let c ← s.get id
  assert (current = c.loop) "loop_->assertInLoopThread()"
  (s.update id (·.note .connectDestroyed)).call id (·.connectDestroyed callback)

/-- `newConnection(sockfd, peerAddr)`, in the base loop. -/
def newConnection (server : TcpServer) (writeComplete highWaterMark : Bool)
    (callback : List UserCall) : Checked ServerState :=
  let (ioLoop, next) := server.getNextLoop s.next
  let connName := server.connName s.nextConnId
  let id := s.conns.length
  let c : ServedConnection :=
    { loop := ioLoop
      name := connName
      conn := TcpConnection.new writeComplete highWaterMark
      history := [] }
  let s := { s with
    nextConnId := s.nextConnId + 1
    next
    connections := s.connections.insert connName id
    conns := s.conns ++ [c] }
  -- `runInLoop`
  if ioLoop = .base then s.connectEstablished .base id callback
  else return s.queueInLoop ioLoop (.connectEstablished id)

/-- A functor that a connection had queued, in the thread of the loop `current`. -/
def runConnFunctor (current : LoopId) (id : Nat) (callback : List UserCall) (res : WriteResult)
    (f : Functor) : Checked ServerState := do
  let c ← s.get id
  assert (f.assertsInLoopThread → current = c.loop) "loop_->assertInLoopThread()"
  s.call id (·.runFunctor callback res f)

/-- The callbacks that a connection sets on its channel. -/
def handleCallback (id : Nat) (io : IoResults) (s : ServerState) :
    ChannelCallback → Checked ServerState
  | .readCallback => s.call id (·.handleRead io.read io.callback io.unread)
  | .writeCallback => s.call id fun c => c.handleWrite (io.write c.outputBuffer.content)
  | .closeCallback => s.call id (·.handleClose io.callback)
  | .errorCallback => return s -- `handleError()` only logs

/-- `Channel::handleEvent(receiveTime)` of a connection. -/
def handleEvent (id : Nat) (revents : BitVec 32) (io : IoResults) : Checked ServerState :=
  (Channel.handleEventWithGuard revents).foldlM (handleCallback id io)
    (s.update id (·.note .handleEvent))

/-- The loop `loop` runs the functor at the head of its queue. -/
def runFunctor (loop : LoopId) (callback : List UserCall) (res : WriteResult) :
    Checked ServerState :=
  let rest := { s with queues := s.queues.pop loop }
  match s.queues loop with
  | [] => return s -- nothing is pending
  | .connectEstablished id :: _ => rest.connectEstablished loop id callback
  | .conn id f :: _ => rest.runConnFunctor loop id callback res f
  | .removeConnectionInLoop id :: _ => rest.removeConnectionInLoop loop id
  | .connectDestroyed id :: _ => rest.connectDestroyed loop id callback

end ServerState

/-! ## The machine -/

/-- What can happen next. -/
inductive ServerStep where
  /-- The acceptor calls `newConnection`, in the base loop. -/
  | accept (writeComplete highWaterMark : Bool) (callback : List UserCall)
  | runFunctor (loop : LoopId) (callback : List UserCall) (res : WriteResult)
  | handleEvent (id : Nat) (revents : BitVec 32) (io : IoResults)
  /-- A call of the user on a connection, in its I/O loop. -/
  | userCall (id : Nat) (call : UserCall)

/-- What the kernel and the user do in an event: a hang-up that is reported without `POLLIN` comes without
the other bits of input too, a `write` takes at most what it is given, and user code calls neither
`startRead` nor `stopRead`. -/
structure IoResults.Admissible (io : IoResults) (revents : BitVec 32) : Prop where
  hangUp : revents &&& POLLHUP ≠ 0 → revents &&& POLLIN = 0 →
    revents &&& (POLLIN ||| POLLPRI ||| POLLRDHUP) = 0
  write : ∀ bytes n, io.write bytes = .ok n → n ≤ bytes.length
  callback : ∀ call ∈ io.callback, LifeCall call

namespace ServerState

/-- What may happen. `nextConnId_` is an `int` that has not overflown, and a poller reports an event of a
channel only while the channel is watched, so none after its `disableAll`. -/
def Enabled (s : ServerState) : ServerStep → Prop
  | .accept _ _ callback => s.nextConnId < 2 ^ 31 ∧ ∀ call ∈ callback, LifeCall call
  | .runFunctor _ callback _ => ∀ call ∈ callback, LifeCall call
  | .handleEvent id revents io =>
      (∃ c, s.conns[id]? = some c ∧ c.conn.channel.isNoneEvent = false) ∧ io.Admissible revents
  | .userCall id call => id < s.conns.length ∧ LifeCall call

/-- What a step does. -/
def exec (server : TcpServer) (s : ServerState) : ServerStep → Checked ServerState
  | .accept writeComplete highWaterMark callback =>
      s.newConnection server writeComplete highWaterMark callback
  | .runFunctor loop callback res => s.runFunctor loop callback res
  | .handleEvent id revents io => s.handleEvent id revents io
  | .userCall id call => s.call id (·.call true call)

end ServerState

/-- A server with its base loop, the loops of its pool and its connections. -/
def tcpServer (server : TcpServer) : Machine ServerState ServerStep where
  init s := s = ServerState.new
  enabled := ServerState.Enabled
  exec := ServerState.exec server

end Muduo.Net
