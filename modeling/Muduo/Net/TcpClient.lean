import Muduo.Net.ConnectorSockets
import Muduo.Net.TcpConnection

/-! # `net::TcpClient`

A `TcpClient` with its `Connector`, in the loop thread, `net/TcpClient.cpp`. The loop is modelled as far as
it decides the order of things: `poll` fixes which channels get an event in this round, timers fire among
these events, and the functors queued up to then are run after them, first come first served. Of a connection
that was made only its `state_` is kept; the connections are named by `nextConnId_`. -/

namespace Muduo.Net

open Support

/-- A functor in the loop of a client. -/
inductive ClientFunctor where
  | connector (f : ConnectorFunctor)
  | forceCloseInLoop (conn : Nat)
  | connectDestroyed (conn : Nat)
  deriving DecidableEq, Repr

/-- The data members of `TcpClient`. -/
structure TcpClient where
  connector : Connector
  retry : Bool
  connect_ : Bool
  nextConnId : Nat
  connection : Option Nat

/-- A client with its loop. -/
structure ClientLoop extends TcpClient where
  /-- `state_` of the connections. -/
  states : Nat → StateE
  /-- The timers of the connector that have not fired. -/
  timers : Nat
  /-- Whether the loop is handling events, or running functors. -/
  eventHandling : Bool
  /-- Whether the channel of the connector has an event in this round that is not handled yet. -/
  activeConnector : Bool
  /-- The connections with such an event. -/
  activeConnections : List Nat
  pendingFunctors : List ClientFunctor
  /-- What is left of the functors that the loop is running. -/
  functors : List ClientFunctor
  /-- The sockets that the connector has closed, and those that it has handed over. -/
  closed : List Nat
  handed : List Nat

/-- What can happen next; a `savedErrno` is the result of a `connect` on the way. -/
inductive ClientStep where
  -- calls of the user, in any callback
  | connect (savedErrno : ConnectErrno)
  | disconnect
  | stop
  | enableRetry
  | forceClose (conn : Nat)
  -- the loop
  | poll (connector : Bool) (connections : List Nat)
  | connectorEvent (revents : BitVec 32) (err : Nat) (selfConnect : Bool)
  /-- A connection reads the end of its stream. -/
  | connectionEvent (conn : Nat) (savedErrno : ConnectErrno)
  | timer (savedErrno : ConnectErrno)
  | doPendingFunctors
  | runFunctor (savedErrno : ConnectErrno)

namespace ClientLoop

/-- A client that has just been made, in a loop that is about to poll. -/
def new : ClientLoop :=
  { connector := Connector.new
    retry := false
    connect_ := true
    nextConnId := 1
    connection := none
    states := fun _ => .kConnecting
    timers := 0
    eventHandling := false
    activeConnector := false
    activeConnections := []
    pendingFunctors := []
    functors := []
    closed := []
    handed := [] }

variable (s : ClientLoop)

/-- A functor queued in the loop. -/
def queueInLoop (f : ClientFunctor) : ClientLoop := { s with pendingFunctors := s.pendingFunctors ++ [f] }

/-- The state of a connection set. -/
def setState (conn : Nat) (state : StateE) : ClientLoop :=
  { s with states := Function.update s.states conn state }

/-- A connection is established and not closed. -/
def Open (conn : Nat) : Prop := s.states conn = .kConnected ∨ s.states conn = .kDisconnecting

/-- An open connection can be told by computation. -/
instance (conn : Nat) : Decidable (s.Open conn) := inferInstanceAs (Decidable (_ ∨ _))

/-- `newConnection(sockfd)`, with `connectEstablished()`. -/
def newConnection : ClientLoop :=
  let conn := s.nextConnId
  setState { s with nextConnId := conn + 1, connection := some conn } conn .kConnected

/-- What an event of the connector does outside of it. -/
def absorb (s : ClientLoop) : ConnectorEvent → ClientLoop
  | .socket _ => s
  | .close sockfd => { s with closed := s.closed ++ [sockfd] }
  | .newConnection sockfd => newConnection { s with handed := s.handed ++ [sockfd] }
  | .queued f => s.queueInLoop (.connector f)
  | .runAfter _ => { s with timers := s.timers + 1 }

/-- A function of the connector has returned. -/
def after (s : ClientLoop) (r : Connector.Outcome) : ClientLoop :=
  r.2.foldl absorb { s with connector := r.1 }

/-- `TcpClient::connect`. -/
def connect (savedErrno : ConnectErrno) : Checked ClientLoop := do
  return after { s with connect_ := true } (← s.connector.start savedErrno)

/-- `TcpClient::disconnect`. -/
def disconnect : ClientLoop :=
  let s := { s with connect_ := false }
  match s.connection with
  | none => s
  | some conn => -- `shutdown()`
      if s.states conn = .kConnected then s.setState conn .kDisconnecting else s

/-- `TcpClient::stop`. -/
def stop : ClientLoop := after { s with connect_ := false } s.connector.stop

/-- `removeConnection(conn)`. -/
def removeConnection (conn : Nat) (savedErrno : ConnectErrno) : Checked ClientLoop := do
  assert (s.connection = some conn) "connection_ == conn"
  let s := queueInLoop { s with connection := none } (.connectDestroyed conn)
  if s.retry ∧ s.connect_ then
    return s.after (← s.connector.restart savedErrno)
  else return s

/-- `TcpConnection::forceClose()`. -/
def forceClose (conn : Nat) : ClientLoop :=
  if s.Open conn then (s.setState conn .kDisconnecting).queueInLoop (.forceCloseInLoop conn) else s

/-- `TcpConnection::handleClose()`. -/
def handleClose (conn : Nat) (savedErrno : ConnectErrno) : Checked ClientLoop := do
  assert (s.Open conn) "state_ == kConnected || state_ == kDisconnecting"
  (s.setState conn .kDisconnected).removeConnection conn savedErrno

/-- Run a functor. -/
def runFunctor (savedErrno : ConnectErrno) : ClientFunctor → Checked ClientLoop
  | .connector .stopInLoop => do return s.after (← s.connector.stopInLoop)
  | .connector .resetChannel => do return { s with connector := ← s.connector.resetChannel }
  | .forceCloseInLoop conn => if s.Open conn then s.handleClose conn savedErrno else return s
  | .connectDestroyed conn =>
      return if s.states conn = .kConnected then s.setState conn .kDisconnected else s

/-- What a step does. -/
def exec : ClientStep → Checked ClientLoop
  | .connect savedErrno => s.connect savedErrno
  | .disconnect => return s.disconnect
  | .stop => return s.stop
  | .enableRetry => return { s with retry := true }
  | .forceClose conn => return s.forceClose conn
  | .poll connector connections =>
      return { s with
        eventHandling := true, activeConnector := connector, activeConnections := connections }
  | .connectorEvent revents err selfConnect => do
      return after { s with activeConnector := false }
        (← s.connector.handleEvent revents err selfConnect)
  | .connectionEvent conn savedErrno =>
      handleClose { s with activeConnections := s.activeConnections.filter (· ≠ conn) } conn savedErrno
  | .timer savedErrno => do
      return after { s with timers := s.timers - 1 } (← s.connector.startInLoop savedErrno)
  | .doPendingFunctors =>
      return { s with
        eventHandling := false, activeConnector := false, activeConnections := []
        functors := s.pendingFunctors, pendingFunctors := [] }
  | .runFunctor savedErrno =>
      match s.functors with
      | [] => return s
      | f :: functors => runFunctor { s with functors } savedErrno f

/-- What may happen. Only channels in the poller get events: the one of the connector while it is there,
and the ones of open connections. -/
def Enabled : ClientStep → Prop
  | .connect _ | .disconnect | .stop | .enableRetry | .forceClose _ => True
  | .poll connector connections =>
      s.eventHandling = false ∧ s.functors = [] ∧
        (connector = true → s.connector.attempt ≠ none) ∧ ∀ conn ∈ connections, s.Open conn
  | .connectorEvent _ _ _ => s.eventHandling = true ∧ s.activeConnector = true
  | .connectionEvent conn _ => s.eventHandling = true ∧ conn ∈ s.activeConnections
  | .timer _ => s.eventHandling = true ∧ 0 < s.timers
  | .doPendingFunctors => s.eventHandling = true
  | .runFunctor _ => s.eventHandling = false ∧ s.functors ≠ []

/-- A `resetChannel` is queued. -/
def ResetPending : Prop := .connector .resetChannel ∈ s.functors ++ s.pendingFunctors

/-- What keeps the attempts apart: `connect()` is called when the connector is disconnected and has neither
a timer set nor a `resetChannel` queued, and no timer fires while a `resetChannel` is queued. -/
def Careful : ClientStep → Prop
  | .connect _ => s.connector.state = .kDisconnected ∧ s.timers = 0 ∧ ¬ s.ResetPending
  | .timer _ => ¬ s.ResetPending
  | _ => True

/-- A socket that was created, and was neither closed nor handed over. -/
def InProgress (sockfd : Nat) : Prop :=
  sockfd < s.connector.sockets ∧ sockfd ∉ s.closed ∧ sockfd ∉ s.handed

end ClientLoop

/-- A client from its construction on. -/
def tcpClient : Machine ClientLoop ClientStep where
  init s := s = ClientLoop.new
  enabled := ClientLoop.Enabled
  exec := ClientLoop.exec

end Muduo.Net
