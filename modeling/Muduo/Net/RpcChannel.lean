import Muduo.Net.RpcProto
import Muduo.Support.Machine
import Mathlib.Data.Finmap

/-! # `net::RpcChannel`

The RPC channel of `net/protorpc/RpcChannel.cpp`, and the system of two of them at the ends of a
connection. A call is made in three steps, between which other threads can do anything: the number is
taken from the atomic counter, the call is registered under `mutex_`, and the request is sent. A response
is dealt with in two: the call is taken out of `outstandings_` under `mutex_`, and its closure is run.

A request or a response object is known by its serialized bytes; the object that a caller passes for the
response is either left alone or parsed from such bytes. That `onRpcMessage` is called for the connection
the channel belongs to is part of the system. -/

namespace Muduo.Net

open Support

/-- A response, with a result or an error code. -/
def RpcMessage.IsResponse (message : RpcMessage) : Prop :=
  message.type = .RESPONSE ∧ (message.response.isSome ∨ message.error.isSome)

/-- A service: its methods by name, each with the requests it can parse. -/
abbrev RpcService := String → Option (List Byte → Bool)

/-- `OutstandingCall`, of the call `call`: whether the caller has passed a response object and a
closure. -/
structure OutstandingCall (C : Type) where
  call : C
  response : Bool
  done : Bool

/-- The data members of `RpcChannel`. -/
structure RpcChannel (C : Type) where
  id : Int
  outstandings : Finmap fun _ : Int => OutstandingCall C
  services : Option (String → Option RpcService)

/-- A method of a service at work on a request. -/
structure RpcInvocation where
  id : Int
  service : String
  method : String
  request : List Byte
  deriving DecidableEq, Repr

/-- What is left to be done after `onRpcMessage` has looked at a message. -/
inductive RpcEffect (C : Type) where
  | none
  /-- Deal with the response to a call, parsed from `response` if there is one. -/
  | finish (out : OutstandingCall C) (response : Option (List Byte))
  | invoke (invocation : RpcInvocation) -- `service->CallMethod(...)`
  | reply (message : RpcMessage) -- `codec_.send(conn_, response)`

namespace RpcChannel

variable {C : Type} (ch : RpcChannel C)

/-- `id_.incrementAndGet()`, on 64 bits. -/
def incrementAndGet : RpcChannel C :=
  { ch with id := wrapInt 8 (ch.id + 1) }

/-- `outstandings_[id] = out`. -/
def insertCall (id : Int) (out : OutstandingCall C) : RpcChannel C :=
  { ch with outstandings := ch.outstandings.insert id out }

/-- The method that a request asks for, and whether it can parse the request. -/
def findMethod (message : RpcMessage) : RpcErrorCode :=
  match ch.services with
  | some services =>
      match services message.service with
      | some service =>
          match service message.method with
          | some parseFromString =>
              if parseFromString message.request then .NO_ERROR else .INVALID_REQUEST
          | none => .NO_METHOD
      | none => .NO_SERVICE
  | none => .NO_SERVICE

/-- `onRpcMessage(conn, message, receiveTime)`. -/
def onRpcMessage (message : RpcMessage) : Checked (RpcChannel C × RpcEffect C) :=
  match message.type with
  | .RESPONSE => do
      assert (message.response.isSome ∨ message.error.isSome)
        "message.has_response() || message.has_error()"
      match ch.outstandings.lookup message.id with
      | some out =>
          return ({ ch with outstandings := ch.outstandings.erase message.id },
            .finish out message.response)
      | none => return (ch, .none) -- `out` stays empty, and nothing follows
  | .REQUEST =>
      let error := ch.findMethod message
      if error = .NO_ERROR then
        return (ch, .invoke ⟨message.id, message.service, message.method, message.request⟩)
      else return (ch, .reply { type := .RESPONSE, id := message.id, error := some error })
  | .ERROR => return (ch, .none)

end RpcChannel

/-- What `doneCallback(response, id)` sends. -/
def doneCallback (response : List Byte) (id : Int) : RpcMessage :=
  { type := .RESPONSE, id, response := some response }

/-! ## Two ends of a connection -/

/-- The arguments of a `CallMethod`; the response object and the closure may be missing. -/
structure RpcCall where
  service : String
  method : String
  request : List Byte
  response : Bool
  done : Bool

/-- What `CallMethod` sends for a call with the number `id`. -/
def RpcCall.message (call : RpcCall) (id : Int) : RpcMessage :=
  { type := .REQUEST, id, service := call.service, method := call.method, request := call.request }

/-- The work that a call with the number `id` asks for. -/
def RpcCall.invocation (call : RpcCall) (id : Int) : RpcInvocation :=
  ⟨id, call.service, call.method, call.request⟩

/-- How far a `CallMethod` has come. -/
inductive CallPc where
  | idle
  | numbered (id : Int)
  | registered (id : Int) -- in `outstandings_`
  | sent (id : Int)
  deriving DecidableEq, Repr

/-- The number of a call, once it has one. -/
def CallPc.id : CallPc → Option Int
  | .idle => none
  | .numbered i | .registered i | .sent i => some i

/-- The number of a call that has been issued. -/
def CallPc.issued : CallPc → Option Int
  | .registered i | .sent i => some i
  | _ => none

/-- A client and a server, the messages between them in the order they were sent, and the work of the
services. The calls are `C`. -/
structure RpcSystem (C : Type) where
  client : RpcChannel C
  server : RpcChannel C
  calls : C → CallPc
  toServer : List RpcMessage
  toClient : List RpcMessage
  /-- The response the client is dealing with, its call taken out of `outstandings_`. -/
  finishing : Option (OutstandingCall C × Option (List Byte))
  invocations : List RpcInvocation
  results : List (RpcInvocation × List Byte)
  /-- The numbers that the server has answered with an error code. -/
  refused : List (Int × RpcErrorCode)
  /-- The calls for which a response was processed since they were issued. -/
  processed : C → Bool
  /-- The closures that were run, with what the response object was parsed from. -/
  ran : List (C × Option (List Byte))

/-- The steps of the system. -/
inductive RpcStep (C : Type) where
  -- the three steps of `CallMethod`
  | number (c : C)
  | register (c : C)
  | send (c : C)
  -- the server handles the next message, and a method runs its `done` closure
  | serve
  | complete (invocation : RpcInvocation) (result : List Byte)
  /-- One more response is sent for a number that has been answered. -/
  | duplicate (message : RpcMessage)
  | receive
  /-- The client handles a response with a number that no call has. -/
  | receiveUnknown (message : RpcMessage)
  | runDone

namespace RpcSystem

variable {C : Type} [DecidableEq C] (call : C → RpcCall) (s : RpcSystem C)

/-- What `CallMethod` registers for a call. -/
def outstanding (c : C) : OutstandingCall C := ⟨c, (call c).response, (call c).done⟩

/-- The system with a call moved to another place. -/
def setCall (c : C) (pc : CallPc) : RpcSystem C :=
  { s with calls := Function.update s.calls c pc }

/-- The call takes the next number. -/
def number (c : C) : RpcSystem C :=
  { s with client := s.client.incrementAndGet }.setCall c (.numbered s.client.incrementAndGet.id)

/-- The call is put into `outstandings_`. -/
def register (c : C) : RpcSystem C :=
  match s.calls c with
  | .numbered id =>
      { s with client := s.client.insertCall id (outstanding call c) }.setCall c (.registered id)
  | _ => s

/-- The request leaves for the server. -/
def send (c : C) : RpcSystem C :=
  match s.calls c with
  | .registered id => { s with toServer := s.toServer ++ [(call c).message id] }.setCall c (.sent id)
  | _ => s

/-- The server takes the next message of its stream. -/
def serve : Checked (RpcSystem C) :=
  match s.toServer with
  | message :: rest => do
      let (server, effect) ← s.server.onRpcMessage message
      let s := { s with server, toServer := rest }
      match effect with
      | .invoke invocation => return { s with invocations := s.invocations ++ [invocation] }
      | .reply reply =>
          return { s with
            toClient := s.toClient ++ [reply]
            refused := s.refused ++ (reply.error.map fun error => (reply.id, error)).toList }
      -- the server makes no calls itself
      | .finish _ _ | .none => return s
  | [] => return s

/-- The service runs the `done` callback of an invocation. -/
def complete (invocation : RpcInvocation) (result : List Byte) : RpcSystem C :=
  { s with
    invocations := s.invocations.erase invocation
    results := s.results ++ [(invocation, result)]
    toClient := s.toClient ++ [doneCallback result invocation.id] }

/-- The client handles a message. -/
def handle (message : RpcMessage) : Checked (RpcSystem C) := do
  let (client, effect) ← s.client.onRpcMessage message
  let processed := fun c => s.processed c ||
    (message.type = .RESPONSE ∧ (s.calls c).issued = some message.id : Bool)
  match effect with
  | .finish out response => return { s with client, processed, finishing := some (out, response) }
  -- the client gets no requests
  | .invoke _ | .reply _ | .none => return { s with client, processed }

/-- The client runs the closure of the call it has just completed. -/
def runDone : RpcSystem C :=
  match s.finishing with
  | some (out, response) =>
      { s with
        finishing := none
        -- the closure is only reached when there is a response object
        ran := if out.response ∧ out.done then s.ran ++ [(out.call, response)] else s.ran }
  | none => s

/-- The server has sent a response with this number. -/
def Answered (id : Int) : Prop := (∃ p ∈ s.results, p.1.id = id) ∨ ∃ p ∈ s.refused, p.1 = id

/-- When a step is possible. There are fewer than `2 ^ 63` calls. -/
def Enabled : RpcStep C → Prop
  | .number c => s.calls c = .idle ∧ s.client.id + 1 < 2 ^ 63
  | .register c => ∃ i, s.calls c = .numbered i
  | .send c => ∃ i, s.calls c = .registered i
  | .serve => s.toServer ≠ []
  | .complete invocation _ => invocation ∈ s.invocations
  | .duplicate message => message.IsResponse ∧ s.Answered message.id
  | .receive => s.finishing = none ∧ s.toClient ≠ []
  | .receiveUnknown message =>
      s.finishing = none ∧ message.IsResponse ∧ ∀ c, (s.calls c).id ≠ some message.id
  | .runDone => s.finishing ≠ none

/-- What a step does. -/
def exec : RpcStep C → Checked (RpcSystem C)
  | .number c => return s.number c
  | .register c => return s.register call c
  | .send c => return s.send call c
  | .serve => s.serve
  | .complete invocation result => return s.complete invocation result
  | .duplicate message => return { s with toClient := s.toClient ++ [message] }
  | .receive =>
      match s.toClient with
      | message :: rest => { s with toClient := rest }.handle message
      | [] => return s
  | .receiveUnknown message => s.handle message
  | .runDone => return s.runDone

/-- Nothing was called and nothing is on the way. -/
structure Starts : Prop where
  id : s.client.id = 0
  outstandings : s.client.outstandings = ∅
  calls : ∀ c, s.calls c = .idle
  toServer : s.toServer = []
  toClient : s.toClient = []
  finishing : s.finishing = none
  invocations : s.invocations = []
  results : s.results = []
  refused : s.refused = []
  processed : ∀ c, s.processed c = false
  ran : s.ran = []

end RpcSystem

/-- The system as a machine. -/
def rpcSystem {C : Type} [DecidableEq C] (call : C → RpcCall) : Machine (RpcSystem C) (RpcStep C) where
  init := RpcSystem.Starts
  enabled := RpcSystem.Enabled
  exec := RpcSystem.exec call

end Muduo.Net
