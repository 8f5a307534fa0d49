import Muduo.Net.ConnectionBytes
import Muduo.Net.HttpPipeline
import Muduo.Net.HttpResponseFrames

/-! # Requests and responses on a connection that stays open

A `TcpConnection` whose message callback is `HttpServer::onMessage`, and a client that sends one request after the
other. The segments are cut in any way, but none has bytes of two requests. The kernel takes as much of a response as
it likes, and the loop sends the rest when there is room. `http_answers` says that every request that has arrived
completely is answered, in order, and that the client can tell the responses apart. -/

namespace Muduo.Net

open Support TcpConnection Event

/-- The response that `onRequest` sends. -/
def HttpServer.response (httpCallback : HttpCallback) (req : HttpRequest) : HttpResponse :=
  let connection := req.getHeader (ascii "Connection".toList)
  let close := connection = ascii "close".toList ∨
    (req.version = .kHttp10 ∧ connection ≠ ascii "Keep-Alive".toList)
  httpCallback req (HttpResponse.new close)

/-- The bytes of the response to a request. -/
def HttpServer.responseBytes (httpCallback : HttpCallback) (req : HttpRequest) : List Byte :=
  ((HttpServer.response httpCallback req).appendToBuffer ByteQueue.new).content

/-- A server's end of a connection, and how far the client is. -/
structure HttpExchange where
  conn : TcpConnection
  /-- All that the connection did, in order. -/
  trace : List Event
  session : HttpSession
  /-- The requests that have arrived completely. -/
  sent : List HttpRequestText
  toSend : List HttpRequestText
  /-- What has arrived of the first request in `toSend`. -/
  part : List Byte

/-- What happens to the connection of an exchange. -/
inductive HttpExchangeStep where
  /-- A segment arrives; `writes` gives the results of the `write`s in the message callback. -/
  | segment (data : List Byte) (receiveTime : Int) (writes : List Byte → WriteResult)
  | handleWrite (res : WriteResult)

namespace HttpExchange

variable (httpCallback : HttpCallback) (s : HttpExchange)

/-- A connection when `connectEstablished` has called `connectionCallback_`. -/
def start (c : TcpConnection) (requests : List HttpRequestText) : HttpExchange :=
  { conn := { c with state := .kConnected, channel := c.channel.enableReading }
    trace := [.connectionCallback .kConnected]
    session := .new
    sent := []
    toSend := requests
    part := [] }

/-- What the client has sent when the segment has arrived. -/
def advance (data : List Byte) : List HttpRequestText × List HttpRequestText × List Byte :=
  match s.toSend with
  | [] => (s.sent, [], s.part)
  | r :: toSend =>
      if s.part ++ data = r.bytes then (s.sent ++ [r], toSend, []) else (s.sent, r :: toSend, s.part ++ data)

/-- What a step does: the server's callbacks, with the connection sending their answers. -/
def exec : HttpExchangeStep → Checked HttpExchange
  | .segment data receiveTime writes => do
      let session ← HttpSession.deliver { s.session with inputBuffer := s.conn.inputBuffer }
        ⟨data, receiveTime, httpCallback⟩
      -- the calls that `onMessage` has made
      let calls := session.calls.drop s.session.calls.length
      let (conn, events) ← s.conn.handleRead (.ok data) (calls.flatMap (HttpCall.userCalls writes))
        fun _ => session.inputBuffer
      let (sent, toSend, part) := s.advance data
      return { conn, trace := s.trace ++ events, session, sent, toSend, part }
  | .handleWrite res => do
      let (conn, events) ← s.conn.handleWrite res
      return { s with conn, trace := s.trace ++ events }

/-- A segment has bytes of one request, and the kernel takes at most what it is given. -/
def Enabled : HttpExchangeStep → Prop
  | .segment data _ writes => data ≠ [] ∧ (∃ r rest, s.toSend = r :: rest ∧ s.part ++ data <+: r.bytes) ∧
      ∀ message, WriteOk message.length (writes message)
  | .handleWrite res => WriteOk s.conn.outputBuffer.content.length res

end HttpExchange

/-- The connection stays open after the request, and the client can tell where the response ends. -/
def HttpRequestText.Answerable (httpCallback : HttpCallback) (r : HttpRequestText) : Prop :=
  ∀ req : HttpRequest, req.untimed = r.request → (HttpServer.response httpCallback req).Delimited

/-- The exchange over a fresh connection, for requests that all get an answer. -/
def httpExchange (httpCallback : HttpCallback) : Machine HttpExchange HttpExchangeStep where
  init s := ∃ (c : TcpConnection) (requests : List HttpRequestText), c.Fresh ∧ c.inputBuffer = ByteQueue.new ∧
    (∀ r ∈ requests, r.Answerable httpCallback) ∧ s = .start c requests
  enabled := HttpExchange.Enabled
  exec := HttpExchange.exec httpCallback

/-! ## What one segment does -/

/-- A response that leaves the connection open is one callback and one send. -/
theorem HttpServer.onRequest_eq {httpCallback : HttpCallback} {req : HttpRequest}
    (h : (HttpServer.response httpCallback req).Delimited) :
    HttpServer.onRequest httpCallback req =
      [.httpCallback req, .send (HttpServer.responseBytes httpCallback req)] := by
  have hstays : (HttpServer.response httpCallback req).closeConnection = false := h.stays
  unfold HttpServer.response at hstays
  simp only [HttpServer.onRequest, hstays, Bool.false_eq_true, if_false, List.append_nil]
  rfl

namespace Event

/-- The bytes passed on are the messages one after the other. -/
theorem passed_eq_flatten (tr : List Event) : passed tr = (messages tr).flatten := by
  induction tr with
  | nil => rfl
  | cons e tr ih =>
      rw [passed_cons, ih]
      cases e <;> rfl

/-- What is neither passed on nor half-closed. -/
theorem passed_of_isChatter {evs : List Event} (h : ∀ e ∈ evs, e.isChatter = true) : passed evs = [] := by
  have hnone : messages evs = [] := List.filterMap_eq_nil_iff.mpr fun e he => message_of_isChatter (h e he)
  rw [passed_eq_flatten, hnone]
  rfl

end Event

namespace TcpConnection

variable {c : TcpConnection} {r : Outcome}

/-- The message callback sends some messages, one after the other. -/
theorem runCallback_sends {messages : List (List Byte)} {writes : List Byte → WriteResult}
    (hstate : c.state = .kConnected)
    (hr : c.runCallback (messages.map fun message => .send message (writes message)) = .ok r) :
    r.1.state = .kConnected ∧ passed r.2 = messages.flatten := by
  induction messages generalizing c r with
  | nil =>
      cases hr
      exact ⟨hstate, rfl⟩
  | cons message messages ih =>
      obtain ⟨first, hfirst, hr⟩ := Checked.bind_eq_ok.mp hr
      obtain ⟨rest, hrest, hr⟩ := Checked.bind_eq_ok.mp hr
      cases hr
      rw [TcpConnection.call, send, if_pos hstate] at hfirst
      obtain ⟨hsame, evs, hevs, hchatter⟩ := sendInLoop_events hfirst
      obtain ⟨hrest, hpassed⟩ := ih (hsame.trans hstate) hrest
      refine ⟨hrest, ?_⟩
      rw [passed_append, hevs, passed_cons, passed_of_isChatter hchatter, hpassed, List.append_nil]
      rfl

/-- `handleRead` with a callback that sends some messages. -/
theorem handleRead_sends {tr : List Event} (h : OutputInv c tr) (hstate : c.state = .kConnected) {data : List Byte}
    (hdata : data ≠ []) (messages : List (List Byte)) {writes : List Byte → WriteResult}
    (hwrites : ∀ message, WriteOk message.length (writes message)) (unread : ByteQueue → ByteQueue) :
    (c.handleRead (.ok data) (messages.map fun message => .send message (writes message)) unread).Sat fun r =>
      r.1.state = .kConnected ∧ OutputInv r.1 (tr ++ r.2) ∧ passed r.2 = messages.flatten ∧
        ∃ q, r.1.inputBuffer = unread q := by
  have hcalls : ∀ call ∈ messages.map fun message => UserCall.send message (writes message), CallOk call := by
    intro call hcall
    obtain ⟨message, -, rfl⟩ := List.mem_map.mp hcall
    exact hwrites message
  have hsat : (c.handleRead (.ok data) (messages.map fun message => .send message (writes message)) unread).Sat
      fun r => OutputInv r.1 (tr ++ r.2) :=
    handleRead_inv h hcalls fun heq => absurd (Except.ok.inj heq) hdata
  obtain ⟨r, hr, hinv⟩ := hsat
  refine ⟨r, hr, ?_⟩
  cases data with
  | nil => exact absurd rfl hdata
  | cons b data =>
      obtain ⟨inner, hinner, hr⟩ := Checked.bind_eq_ok.mp hr
      cases hr
      obtain ⟨hsame, hpassed⟩ :=
        runCallback_sends (c := { c with inputBuffer := c.inputBuffer.readFd (b :: data) }) hstate hinner
      refine ⟨hsame, hinv, ?_, _, rfl⟩
      rw [passed_cons, hpassed]
      rfl

/-- `handleWrite` passes nothing on. -/
theorem handleWrite_passed {res : WriteResult} (hstate : c.state = .kConnected) (hr : c.handleWrite res = .ok r) :
    passed r.2 = [] := by
  unfold handleWrite at hr
  split at hr
  · cases res with
    | error errno =>
        cases hr
        rfl
    | ok n =>
        cases n with
        | zero =>
            cases hr
            rfl
        | succ n =>
            obtain ⟨out, -, hr⟩ := Checked.bind_eq_ok.mp hr
            dsimp only at hr
            split at hr
            · rw [if_neg (by rw [hstate]; decide)] at hr
              cases hr
              exact (write_events _ _).2.1
            · cases hr
              rfl
  · cases hr
    rfl

/-- `handleWrite` on an open connection keeps the stream and passes nothing on. -/
theorem handleWrite_sat {tr : List Event} (h : OutputInv c tr) (hstate : c.state = .kConnected) {res : WriteResult}
    (hres : WriteOk c.outputBuffer.content.length res) :
    (c.handleWrite res).Sat fun r => r.1.state = .kConnected ∧ OutputInv r.1 (tr ++ r.2) ∧ passed r.2 = [] ∧
      r.1.inputBuffer = c.inputBuffer := by
  obtain ⟨r, hr, hinv⟩ := handleWrite_inv h hres
  have hquiet : c.Quiet := by
    intro hc
    rw [hstate] at hc
    cases hc
  have hmild : Mild False c r := handleWrite_mild (fun h => h.elim) hquiet hr
  exact ⟨r, hr, (handleWrite_talks hr).state.trans hstate, hinv, handleWrite_passed hstate hr, hmild.input⟩

end TcpConnection

/-- The calls on the connection by which some requests are answered. -/
theorem HttpServer.userCalls_onRequest {httpCallback : HttpCallback} (writes : List Byte → WriteResult)
    {reqs : List HttpRequest} (h : ∀ req ∈ reqs, (HttpServer.response httpCallback req).Delimited) :
    (reqs.flatMap (HttpServer.onRequest httpCallback)).flatMap (HttpCall.userCalls writes) =
      (reqs.map (HttpServer.responseBytes httpCallback)).map fun message => .send message (writes message) := by
  induction reqs with
  | nil => rfl
  | cons req reqs ih =>
      rw [List.forall_mem_cons] at h
      rw [List.flatMap_cons, List.flatMap_append, ih h.2, HttpServer.onRequest_eq h.1]
      rfl

/-- The client takes the first response, and goes on behind it. -/
theorem HttpResponse.Delimited.takeResponses_append {response : HttpResponse} (h : response.Delimited)
    (rest : List Byte) :
    takeResponses ((response.appendToBuffer ByteQueue.new).content ++ rest) =
      (takeResponses rest).map (response.body :: ·) := by
  have hpos := List.length_pos_iff.mpr h.content_ne_nil
  have hlt : rest.length < ((response.appendToBuffer ByteQueue.new).content ++ rest).length := by
    rw [List.length_append]
    omega
  rw [takeResponses, if_neg (by simp [h.content_ne_nil]), h.takeResponse_append]
  exact if_pos hlt

/-- The responses can be read back from their bytes. -/
theorem HttpServer.takeResponses_responseBytes {httpCallback : HttpCallback} {reqs : List HttpRequest}
    (h : ∀ req ∈ reqs, (HttpServer.response httpCallback req).Delimited) :
    takeResponses (reqs.flatMap (HttpServer.responseBytes httpCallback)) =
      some (reqs.map fun req => (HttpServer.response httpCallback req).body) := by
  induction reqs with
  | nil =>
      rw [takeResponses]
      rfl
  | cons req reqs ih =>
      rw [List.forall_mem_cons] at h
      rw [List.flatMap_cons, HttpServer.responseBytes, h.1.takeResponses_append, ih h.2]
      rfl

/-! ## Runs -/

namespace HttpExchange

variable {httpCallback : HttpCallback} {s : HttpExchange}

/-- What holds between two steps. -/
structure Inv (httpCallback : HttpCallback) (s : HttpExchange) : Prop where
  state : s.conn.state = .kConnected
  buffer : s.conn.inputBuffer = s.session.inputBuffer
  output : OutputInv s.conn s.trace
  passed : passed s.trace = s.session.dispatched.flatMap (HttpServer.responseBytes httpCallback)
  reader : ∃ a, s.session.Follows a ∧ a.Waits (s.toSend.map HttpRequestText.frame) s.part ∧
    a.outputs = s.sent.map fun r => r.frame.output
  answerable : ∀ r ∈ s.sent ++ s.toSend, r.Answerable httpCallback

/-- The parser is where the client is. -/
theorem read_advance {data : List Byte} {r : HttpRequestText} {rest : List HttpRequestText}
    (htoSend : s.toSend = r :: rest) (hdata : s.part ++ data <+: r.bytes) {a : Consumer.Reader HttpContext Byte Bool}
    (hwaits : a.Waits (s.toSend.map HttpRequestText.frame) s.part)
    (houtputs : a.outputs = s.sent.map fun r => r.frame.output) :
    ∃ a', (HttpContext.requestConsumer 0).read HttpContext.new a data = .ok a' ∧
      a'.Waits ((s.advance data).2.1.map HttpRequestText.frame) (s.advance data).2.2 ∧
      a'.outputs = (s.advance data).1.map fun r => r.frame.output := by
  have hstream : s.part ++ data <+: ((r.frame :: rest.map HttpRequestText.frame).map Consumer.Frame.data).flatten :=
    hdata.trans (List.prefix_append ..)
  rw [htoSend, List.map_cons] at hwaits
  simp only [advance, htoSend]
  by_cases hall : s.part ++ data = r.bytes
  · have hle : r.frame.data.length ≤ s.part.length + data.length := by
      rw [← List.length_append, hall]
      exact le_refl _
    obtain ⟨a', zs, hread, hout, hnext, hzs⟩ := hwaits.read_of_le hstream hle
    have hnil : zs = [] := by
      rw [hall] at hzs
      exact List.append_right_eq_self.mp hzs.symm
    rw [if_pos hall]
    refine ⟨a', hread, hnil ▸ hnext, ?_⟩
    rw [hout, houtputs, List.map_append]
    rfl
  · have hlt : s.part.length + data.length < r.frame.data.length := by
      rw [← List.length_append]
      exact lt_of_le_of_ne hdata.length_le fun hlength => hall (hdata.eq_of_length hlength)
    obtain ⟨a', hread, hout, hnext⟩ := hwaits.read_of_lt hstream hlt
    rw [if_neg hall]
    exact ⟨a', hread, hnext, hout.trans houtputs⟩

/-- The requests among the calls of a segment. -/
theorem dispatched_of_calls {session session' : HttpSession} {reqs : List HttpRequest}
    (hcalls : session'.calls = session.calls ++ reqs.flatMap (HttpServer.onRequest httpCallback)) :
    session'.dispatched = session.dispatched ++ reqs := by
  have hreqs : (reqs.flatMap (HttpServer.onRequest httpCallback)).filterMap HttpCall.request? = reqs := by
    rw [List.filterMap_flatMap]
    simp only [HttpSession.filterMap_onRequest]
    exact List.flatMap_singleton' reqs
  rw [HttpSession.dispatched, hcalls, List.filterMap_append, hreqs]
  rfl

/-- A segment arrives. -/
theorem Inv.segment (h : Inv httpCallback s) {data : List Byte} {receiveTime : Int}
    {writes : List Byte → WriteResult} (ha : s.Enabled (.segment data receiveTime writes)) :
    (s.exec httpCallback (.segment data receiveTime writes)).Sat (Inv httpCallback) := by
  obtain ⟨hdata, ⟨r, rest, htoSend, hpart⟩, hwrites⟩ := ha
  obtain ⟨a, hfollows, hwaits, houtputs⟩ := h.reader
  obtain ⟨a', hread, hwaits', houtputs'⟩ := read_advance htoSend hpart hwaits houtputs
  have hall : (s.advance data).1 ++ (s.advance data).2.1 = s.sent ++ s.toSend := by
    simp only [advance, htoSend]
    split <;> simp
  have haccepted : ∀ o ∈ a'.outputs, o.2 = true := by
    intro o ho
    rw [houtputs'] at ho
    obtain ⟨r, -, rfl⟩ := List.mem_map.mp ho
    rfl
  obtain ⟨session, hdeliver, hfollows', reqs, hcalls⟩ :=
    hfollows.deliver ⟨data, receiveTime, httpCallback⟩ hread haccepted
  have hdispatched := dispatched_of_calls hcalls
  -- what is dispatched is what the client has sent, so it is answered as it should
  have hdelimited : ∀ req ∈ reqs, (HttpServer.response httpCallback req).Delimited := by
    intro req hreq
    have hmem : req.untimed ∈ session.dispatched.map HttpRequest.untimed := by
      rw [hdispatched]
      exact List.mem_map_of_mem (List.mem_append_right _ hreq)
    rw [hfollows'.dispatched, houtputs', List.map_map] at hmem
    obtain ⟨r, hr, heq⟩ := List.mem_map.mp hmem
    refine h.answerable r ?_ req heq.symm
    rw [← hall]
    exact List.mem_append_left _ hr
  have hsame : { s.session with inputBuffer := s.conn.inputBuffer } = s.session := by
    rw [h.buffer]
  have hnew : session.calls.drop s.session.calls.length = reqs.flatMap (HttpServer.onRequest httpCallback) := by
    rw [hcalls, List.drop_left]
  simp only [exec, hsame, hdeliver, Checked.ok_bind, hnew, HttpServer.userCalls_onRequest writes hdelimited]
  refine (handleRead_sends h.output h.state hdata _ hwrites _).bind ?_
  rintro ⟨conn, events⟩ ⟨hstate, houtput, hpassed, q, hbuffer⟩
  refine .ok ⟨hstate, hbuffer, houtput, ?_, ⟨a', hfollows', hwaits', houtputs'⟩, ?_⟩
  · rw [passed_append, h.passed, hpassed, hdispatched, List.flatMap_append]
    rfl
  · rw [hall]
    exact h.answerable

/-- Every step keeps the invariant, and no assertion fails. -/
theorem Inv.step (h : Inv httpCallback s) (a : HttpExchangeStep) (ha : s.Enabled a) :
    (s.exec httpCallback a).Sat (Inv httpCallback) := by
  cases a with
  | segment data receiveTime writes => exact h.segment ha
  | handleWrite res =>
      refine (handleWrite_sat h.output h.state ha).bind ?_
      rintro ⟨conn, events⟩ ⟨hstate, houtput, hpassed, hbuffer⟩
      refine .ok ⟨hstate, hbuffer.trans h.buffer, houtput, ?_, h.reader, h.answerable⟩
      rw [passed_append, hpassed, List.append_nil]
      exact h.passed

/-- The invariant holds in every reachable state, and no step fails. -/
theorem Inv.of_reachable (hs : (httpExchange httpCallback).Reachable s) :
    Inv httpCallback s ∧ (httpExchange httpCallback).Safe s := by
  refine Machine.invariant ?_ (fun s a h ha => h.step a ha) hs
  rintro _ ⟨c, requests, hfresh, hinput, hanswerable, rfl⟩
  have hnone : ∀ call ∈ ([] : List UserCall), CallOk call := by simp
  have hstart : c.connectEstablished [] = .ok ((start c requests).conn, (start c requests).trace) := by
    rw [connectEstablished, assert_pos hfresh.state]
    rfl
  refine ⟨rfl, hinput, ?_, rfl, ⟨_, HttpSession.follows_new, ⟨List.nil_prefix, fun zs => rfl⟩, rfl⟩, hanswerable⟩
  exact (connectEstablished_inv hnone hfresh.state hfresh.output hfresh.channel).of_eq_ok hstart

end HttpExchange

open HttpExchange in
/-- **Every request is answered.** Take a client that sends requests one after the other, all of which leave the
connection open, in segments that are cut in any way but have bytes of one request only. In every run, whatever the
kernel takes at a time: no assertion fails; the requests that have arrived completely have been dispatched, in order
and each once; what was passed to the connection are the responses to them, in order; what the kernel has taken and
what is in `outputBuffer_` is that; and once nothing waits to be written, the client finds the bodies of all these
responses in what it has got, and nothing else. -/
theorem http_answers {httpCallback : HttpCallback} {s : HttpExchange}
    (hs : (httpExchange httpCallback).Reachable s) :
    s.session.dispatched.map HttpRequest.untimed = s.sent.map HttpRequestText.request ∧
    passed s.trace = s.session.dispatched.flatMap (HttpServer.responseBytes httpCallback) ∧
    accepted s.trace ++ s.conn.outputBuffer.content = passed s.trace ∧
    (s.conn.channel.isWriting = false → takeResponses (accepted s.trace) =
      some (s.session.dispatched.map fun req => (HttpServer.response httpCallback req).body)) ∧
    (httpExchange httpCallback).Safe s := by
  obtain ⟨h, hsafe⟩ := Inv.of_reachable hs
  obtain ⟨a, hfollows, -, houtputs⟩ := h.reader
  have hopen : s.conn.state ≠ .kDisconnected := by
    rw [h.state]
    decide
  have hdispatched : s.session.dispatched.map HttpRequest.untimed = s.sent.map HttpRequestText.request := by
    rw [hfollows.dispatched, houtputs, List.map_map]
    rfl
  refine ⟨hdispatched, h.passed, h.output.stream hopen, fun hw => ?_, hsafe⟩
  have hdelimited : ∀ req ∈ s.session.dispatched, (HttpServer.response httpCallback req).Delimited := by
    intro req hreq
    have hmem := List.mem_map_of_mem (f := HttpRequest.untimed) hreq
    rw [hdispatched] at hmem
    obtain ⟨r, hr, heq⟩ := List.mem_map.mp hmem
    exact h.answerable r (List.mem_append_left _ hr) req heq.symm
  rw [(h.output.drained hopen hw).2, h.passed]
  exact HttpServer.takeResponses_responseBytes hdelimited

/-- The simplest answer is one that the client can take. -/
theorem HttpRequestText.getRoot_answerable :
    HttpRequestText.getRoot.Answerable (HttpSegment.answered []).httpCallback := by
  intro req hreq
  have hheader (field : List Byte) : req.getHeader field = [] := by
    rw [show req.getHeader field = req.untimed.getHeader field from rfl, hreq]
    simp [HttpRequest.getHeader, HttpRequestText.request, HttpRequestText.getRoot, HttpRequest.new]
  have hversion : req.version = .kHttp11 := by
    rw [show req.version = req.untimed.version from rfl, hreq]
    rfl
  have hresponse : HttpServer.response (HttpSegment.answered []).httpCallback req =
      { HttpResponse.new false with statusCode := .k200Ok } := by
    simp [HttpServer.response, HttpSegment.answered, hheader, hversion, ascii]
  rw [hresponse]
  exact ⟨rfl, List.forall_mem_nil _, List.forall_mem_nil _, by decide⟩

/-- One request arrives in one segment. -/
theorem http_answers_root :
    ∃ s, (httpExchange (HttpSegment.answered []).httpCallback).Reachable s ∧
      s.session.dispatched.map HttpRequest.untimed = [HttpRequestText.getRoot.request] := by
  have hfresh : (TcpConnection.new false false).Fresh := ⟨rfl, rfl, ByteQueue.content_new⟩
  have hinit : (httpExchange (HttpSegment.answered []).httpCallback).Reachable
      (.start (TcpConnection.new false false) [.getRoot]) :=
    .of_init ⟨_, _, hfresh, rfl, List.forall_mem_singleton.mpr HttpRequestText.getRoot_answerable, rfl⟩
  have henabled : (httpExchange (HttpSegment.answered []).httpCallback).enabled
      (.start (TcpConnection.new false false) [.getRoot])
      (.segment HttpRequestText.getRoot.bytes 0 fun message => .ok message.length) :=
    ⟨HttpRequestText.getRoot.frame.data_ne_nil, ⟨_, _, rfl, List.prefix_refl _⟩, fun message => le_refl _⟩
  obtain ⟨t, ht⟩ := (http_answers hinit).2.2.2.2 _ henabled
  have hsent : t.sent = [.getRoot] := by
    obtain ⟨session, -, ht⟩ := Checked.bind_eq_ok.mp ht
    obtain ⟨r, -, ht⟩ := Checked.bind_eq_ok.mp ht
    cases ht
    rfl
  refine ⟨t, hinit.step henabled ht, ?_⟩
  rw [(http_answers (hinit.step henabled ht)).1, hsent]
  rfl

end Muduo.Net
