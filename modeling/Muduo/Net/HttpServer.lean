import Muduo.Net.HttpParse
import Muduo.Net.TcpConnectionState
import Muduo.Support.Machine

/-! # `net::HttpServer`

A connection of `net/http/HttpServer.cpp` with the parser bound to it. The bytes that arrive are handed
to `onMessage` one segment after the other, until the peer closes its side: `shutdown()` closes only the
server's half (`answer_keeps_reading`), so segments also arrive after a request has been answered with an
error. A bad request line stays in the buffer and in the parser, and the next segment makes the parser
read it again; `onMessage_returns_iff` says when that fails the assertion of `setMethod`. -/

namespace Muduo.Net

open Support

/-! ## The response -/

/-- `HttpResponse::HttpStatusCode`. -/
inductive HttpResponse.HttpStatusCode where
  | kUnknown
  | k200Ok
  | k301MovedPermanently
  | k400BadRequest
  | k404NotFound
  deriving DecidableEq, Repr

/-- The value of a status code. -/
def HttpResponse.HttpStatusCode.toNat : HttpStatusCode → Nat
  | .kUnknown => 0
  | .k200Ok => 200
  | .k301MovedPermanently => 301
  | .k400BadRequest => 400
  | .k404NotFound => 404

/-- `HttpResponse`; `headers_` is a map in the order of its keys. -/
structure HttpResponse where
  headers : List (List Byte × List Byte)
  statusCode : HttpResponse.HttpStatusCode
  statusMessage : List Byte
  closeConnection : Bool
  body : List Byte

namespace HttpResponse

/-- The constructor. -/
def new (close : Bool) : HttpResponse :=
  { headers := [], statusCode := .kUnknown, statusMessage := [], closeConnection := close, body := [] }

/-- `headers_[key] = value`, in the ordered map. -/
def insertHeader (key value : List Byte) : List (List Byte × List Byte) → List (List Byte × List Byte)
  | [] => [(key, value)]
  | (k, v) :: rest =>
      if key = k then (key, value) :: rest
      else if key < k then (key, value) :: (k, v) :: rest
      else (k, v) :: insertHeader key value rest

/-- `HttpResponse::addHeader`. -/
def addHeader (r : HttpResponse) (key value : List Byte) : HttpResponse :=
  { r with headers := insertHeader key value r.headers }

/-- `snprintf(buf, sizeof buf, format, n)` into 32 characters, for a format with one number. -/
def snprintf (before : List Char) (n : Nat) (after : List Char) : List Byte :=
  ascii ((before ++ Nat.toDigits 10 n ++ after).take 31) -- and a null character

/-- The lines that say how the connection goes on. -/
def connectionLines (r : HttpResponse) : List Byte :=
  if r.closeConnection then ascii "Connection: close\r\n".toList
  else snprintf "Content-Length: ".toList r.body.length "\r\n".toList
    ++ ascii "Connection: Keep-Alive\r\n".toList

/-- `HttpResponse::appendToBuffer`. -/
def appendToBuffer (r : HttpResponse) (output : ByteQueue) : ByteQueue :=
  let output := output.append (snprintf "HTTP/1.1 ".toList r.statusCode.toNat " ".toList)
  let output := output.append r.statusMessage
  let output := output.append kCRLF
  let output := output.append r.connectionLines
  let output := r.headers.foldl
    (fun output header =>
      (((output.append header.1).append (ascii ": ".toList)).append header.2).append kCRLF) output
  let output := output.append kCRLF
  output.append r.body

end HttpResponse

/-- `httpCallback_`: the user fills in the response to a request. -/
abbrev HttpCallback := HttpRequest → HttpResponse → HttpResponse

/-- `detail::defaultHttpCallback`. -/
def defaultHttpCallback : HttpCallback := fun _ resp =>
  { resp with
    statusCode := .k404NotFound
    statusMessage := ascii "Not Found".toList
    closeConnection := true }

/-! ## The server's side of a connection -/

/-- What the server does on a connection. -/
inductive HttpCall where
  | httpCallback (request : HttpRequest)
  | send (message : List Byte)
  | shutdown

/-- A connection with its parser, and what the server has done on it so far. -/
structure HttpSession where
  context : HttpContext
  inputBuffer : ByteQueue
  calls : List HttpCall

/-- The answer to a bad request. -/
def badRequest : List Byte := ascii "HTTP/1.1 400 Bad Request\r\n\r\n".toList

/-- `HttpServer::onRequest`: the response sent, and `shutdown()` if it closes. -/
def HttpServer.onRequest (httpCallback : HttpCallback) (req : HttpRequest) : List HttpCall :=
  let connection := req.getHeader (ascii "Connection".toList)
  let close := connection = ascii "close".toList ∨
    (req.version = .kHttp10 ∧ connection ≠ ascii "Keep-Alive".toList)
  let response := httpCallback req (HttpResponse.new close)
  let buf := response.appendToBuffer ByteQueue.new
  [.httpCallback req, .send buf.content] ++ if response.closeConnection then [.shutdown] else []

/-- A segment that arrives, with the callback that answers the request it may complete. -/
structure HttpSegment where
  data : List Byte
  receiveTime : Int
  httpCallback : HttpCallback

namespace HttpSession

/-- `onConnection(conn)`, when the connection is up. -/
def new : HttpSession := { context := HttpContext.new, inputBuffer := ByteQueue.new, calls := [] }

/-- `onMessage(conn, buf, receiveTime)`. -/
def onMessage (httpCallback : HttpCallback) (receiveTime : Int) (s : HttpSession) :
    Checked HttpSession := do
  let (ok, context, inputBuffer) ← s.context.parseRequest s.inputBuffer receiveTime
  -- a refused request is answered, but the context is not reset and the line not consumed
  let calls := if ok then s.calls else s.calls ++ [.send badRequest, .shutdown]
  if context.gotAll then
    return { context := context.reset, inputBuffer,
             calls := calls ++ HttpServer.onRequest httpCallback context.request }
  else return { context, inputBuffer, calls }

/-- A segment arrives and is handed to the server. -/
def deliver (s : HttpSession) (segment : HttpSegment) : Checked HttpSession :=
  onMessage segment.httpCallback segment.receiveTime
    { s with inputBuffer := s.inputBuffer.readFd segment.data }

end HttpSession

/-- A connection on which segments arrive, none of them empty. -/
def httpSession : Machine HttpSession HttpSegment where
  init s := s = HttpSession.new
  enabled _ segment := segment.data ≠ []
  exec := HttpSession.deliver

/-! ## Answering keeps the connection open for reading -/

/-- The calls on the connection; `writes` gives the results of the `write`s they may issue. -/
def HttpCall.userCalls (writes : List Byte → WriteResult) : HttpCall → List UserCall
  | .httpCallback _ => []
  | .send message => [.send message (writes message)]
  | .shutdown => [.shutdown]

/-- Whatever the server does in answer to a segment, the connection is read from as before and is not
closed. -/
theorem answer_keeps_reading (conn : TcpConnection) (writes : List Byte → WriteResult)
    (calls : List HttpCall) (b : Byte) (data : List Byte) (unread : ByteQueue → ByteQueue) :
    (conn.handleRead (.ok (b :: data)) (calls.flatMap (HttpCall.userCalls writes)) unread).Sat
      fun r => r.1.channel.isReading = conn.channel.isReading ∧
        (conn.state ≠ .kDisconnected → r.1.state ≠ .kDisconnected) := by
  have hcalls : ∀ call ∈ calls.flatMap (HttpCall.userCalls writes), TcpConnection.LifeCall call := by
    intro call hmem
    obtain ⟨httpCall, -, hmem⟩ := List.mem_flatMap.mp hmem
    cases httpCall with
    | httpCallback request => cases hmem
    | send message =>
        obtain rfl := List.mem_singleton.mp hmem
        trivial
    | shutdown =>
        obtain rfl := List.mem_singleton.mp hmem
        trivial
  refine (conn.handleRead_calm b data hcalls unread).mono fun r hr => ⟨hr.reading, fun hopen => ?_⟩
  rcases hr.state with hsame | ⟨-, hclosing⟩
  · rwa [hsame]
  · rw [hclosing]
    exact nofun

/-! ## Sessions -/

namespace HttpSession

open HttpContext

/-- A request line was refused after its method had been stored. -/
def Rejected (s : HttpSession) : Prop :=
  s.context.state = .kExpectRequestLine ∧ s.context.request.method ≠ .kInvalid

/-- A session that was turned away can be told by computation. -/
instance (s : HttpSession) : Decidable s.Rejected := inferInstanceAs (Decidable (_ ∧ _))

/-- Between two segments the parser is fresh, or it has refused the line at the front of the buffer. -/
def Stands (s : HttpSession) : Prop :=
  s.context.Fresh ∨ s.Rejected ∧ StartsWithMethod s.inputBuffer.content

/-- A new session stands. -/
theorem stands_new : new.Stands := .inl fresh_new

/-- A fresh session is not rejected. -/
theorem not_rejected_of_fresh {s : HttpSession} (h : s.context.Fresh) : ¬ s.Rejected := by
  rintro ⟨hstate, hmethod⟩
  rcases h with ⟨-, hinvalid⟩ | hheaders
  · exact hmethod hinvalid
  · rw [hstate] at hheaders
    cases hheaders

/-- A fresh parser deals with any segment. -/
theorem deliver_sat {s : HttpSession} (h : s.context.Fresh) (segment : HttpSegment) :
    (s.deliver segment).Sat Stands := by
  refine (parseRequest_sat segment.receiveTime h _).bind fun r hr => ?_
  obtain ⟨ok, context, inputBuffer⟩ := r
  dsimp only
  by_cases hgot : context.gotAll = true
  · rw [if_pos hgot]
    exact .ok (.inl fresh_new) -- `reset()` after the request
  · rw [if_neg hgot]
    refine .ok ?_
    cases ok with
    | true =>
        rw [Settled, progress, if_pos ⟨rfl, hgot⟩] at hr
        exact .inl hr
    | false =>
        obtain ⟨hstate, hline⟩ := hr
        by_cases hmethod : context.request.method = .kInvalid
        · exact .inl (.inl ⟨hstate, hmethod⟩)
        · exact .inr ⟨⟨hstate, hmethod⟩, hline hmethod⟩

/-- After a refused line, any segment fails the assertion of `setMethod`. -/
theorem deliver_rejected {s : HttpSession} (h : s.Rejected)
    (hline : StartsWithMethod s.inputBuffer.content) (segment : HttpSegment) :
    s.deliver segment = .error "method_ == kInvalid" := by
  -- the segment comes behind the line, so the parser meets that line first
  have hline' : StartsWithMethod (s.inputBuffer.readFd segment.data).content := by
    rw [ByteQueue.content_readFd]
    exact hline.append segment.data
  rw [deliver, onMessage, parseRequest_error segment.receiveTime h.1 h.2 hline']
  rfl

/-- Every reachable session is between two segments. -/
theorem stands_of_reachable {s : HttpSession} (hs : httpSession.Reachable s) : s.Stands := by
  refine hs.induction (fun s hinit => ?_) fun s segment t h _ ht => ?_
  · cases hinit
    exact stands_new
  · rcases h with hfresh | ⟨hrejected, hline⟩
    · exact (deliver_sat hfresh segment).of_eq_ok ht
    · -- from there no call returns
      have herror : s.deliver segment = .ok t := ht
      rw [deliver_rejected hrejected hline] at herror
      cases herror

/-- Whatever has arrived, the parser can be called. -/
theorem ready_of_reachable {s : HttpSession} (hs : httpSession.Reachable s) : s.context.Ready := by
  rcases stands_of_reachable hs with hfresh | ⟨hrejected, -⟩
  · exact hfresh.ready
  · exact .inl hrejected.1

end HttpSession

/-- **The parser comes to an end where it is used.** Whatever segments have arrived, the next call of
`parseRequest` is entered before a request line or among the headers. From there the loop ends on every
buffer, with a result or with the assertion of `setMethod`, and needs no more turns than there are bytes;
every turn after which it goes on stays in these states and has taken at least two bytes. In the other
two states a turn would go on with what it was given, for ever. -/
theorem parseRequest_terminates :
    (∀ s, httpSession.Reachable s → s.context.state = .kExpectRequestLine ∨
      s.context.state = .kExpectHeaders) ∧
    (∀ (receiveTime : Int) (c : HttpContext) (buf : ByteQueue),
      c.state = .kExpectRequestLine ∨ c.state = .kExpectHeaders →
      ((∃ r, c.parseRequest buf receiveTime = .ok r) ∨
        c.parseRequest buf receiveTime = .error "method_ == kInvalid") ∧
      (∀ n, buf.readableBytes < n →
        loop (HttpContext.parseTurn receiveTime) n (c, buf) = c.parseRequest buf receiveTime) ∧
      ∀ c' buf', HttpContext.parseTurn receiveTime (c, buf) = .ok (.inl (c', buf')) →
        (c'.state = .kExpectRequestLine ∨ c'.state = .kExpectHeaders) ∧
          buf'.readableBytes + 2 ≤ buf.readableBytes) ∧
    ∀ (receiveTime : Int) (c : HttpContext) (buf : ByteQueue),
      ¬ (c.state = .kExpectRequestLine ∨ c.state = .kExpectHeaders) →
      HttpContext.parseTurn receiveTime (c, buf) = .ok (.inl (c, buf)) := by
  refine ⟨fun s hs => HttpSession.ready_of_reachable hs, fun receiveTime c buf hc => ⟨?_, ?_, ?_⟩,
    fun receiveTime c buf hc => HttpContext.parseTurn_of_not_ready receiveTime hc buf⟩
  · exact HttpContext.parseRequest_ends receiveTime hc buf
  · exact fun n hn => HttpContext.parseRequest_bound receiveTime hc buf hn
  · exact fun c' buf' hturn => ⟨HttpContext.parseTurn_ready receiveTime (c, buf) (c', buf') hc hturn,
      HttpContext.parseTurn_takes receiveTime (c, buf) (c', buf') hc hturn⟩

/-- The first segment of a request, which ends within a header line. -/
def HttpSegment.requestHead : HttpSegment :=
  { data := ascii "GET / HTTP/1.1\r\nHost: a".toList, receiveTime := 0, httpCallback := defaultHttpCallback }

/-- The rest of the request. -/
def HttpSegment.requestRest : HttpSegment :=
  { data := ascii "\r\nAccept: b\r\n\r\n".toList, receiveTime := 0, httpCallback := defaultHttpCallback }

/-- What the parser has made of the first segment. -/
def HttpContext.headersExpected : HttpContext :=
  { state := .kExpectHeaders
    request := { HttpRequest.new with method := .kGet, version := .kHttp11, path := ascii ['/'] } }

/-- The request line is taken, and the header line waits for its end. -/
theorem deliver_requestHead :
    ∃ s, HttpSession.new.deliver .requestHead = .ok s ∧ s.context = .headersExpected ∧
      s.inputBuffer.content = ascii "Host: a".toList := by
  have hcontent : (ByteQueue.new.readFd HttpSegment.requestHead.data).content
      = HttpSegment.requestHead.data := by
    rw [ByteQueue.content_readFd, ByteQueue.content_new, List.nil_append]
  have hrun : (HttpContext.requestConsumer 0).run HttpContext.new HttpSegment.requestHead.data
      = .ok ⟨.headersExpected, ascii "Host: a".toList, none⟩ := rfl
  rw [← hcontent, HttpContext.parseRequest_eq 0 (.inl rfl)] at hrun
  cases hparse : HttpContext.new.parseRequest (ByteQueue.new.readFd HttpSegment.requestHead.data) 0 with
  | error e =>
      rw [hparse] at hrun
      cases hrun
  | ok r =>
      obtain ⟨ok, c, buf⟩ := r
      rw [hparse] at hrun
      have hprogress := Except.ok.inj hrun
      rw [HttpContext.progress, Consumer.Progress.mk.injEq] at hprogress
      obtain ⟨rfl, hbuf, hresult⟩ := hprogress
      have hok : ok = true := by
        cases ok with
        | true => rfl
        | false => simp at hresult
      refine ⟨⟨.headersExpected, buf, []⟩, ?_, rfl, hbuf⟩
      rw [hok] at hparse
      show HttpContext.new.parseRequest (ByteQueue.new.readFd HttpSegment.requestHead.data) 0 >>= _ = _
      rw [hparse]
      rfl

/-- A request line has been taken, a header line has arrived in part, and now the rest of the headers arrives:
the next call of the parser ends, and its first turn goes on with one line less. -/
theorem parseRequest_terminates_headers :
    ∃ (s : HttpSession) (buf : ByteQueue) (c' : HttpContext) (buf' : ByteQueue),
      httpSession.Run HttpSession.new [.requestHead] s ∧ s.context.state = .kExpectHeaders ∧
      buf = s.inputBuffer.readFd HttpSegment.requestRest.data ∧
      buf.content = ascii "Host: a\r\nAccept: b\r\n\r\n".toList ∧
      HttpContext.parseTurn 0 (s.context, buf) = .ok (.inl (c', buf')) ∧
      (c'.state = .kExpectRequestLine ∨ c'.state = .kExpectHeaders) ∧
      buf'.readableBytes + 2 ≤ buf.readableBytes ∧
      ((∃ r, s.context.parseRequest buf 0 = .ok r) ∨
        s.context.parseRequest buf 0 = .error "method_ == kInvalid") := by
  obtain ⟨hready, hends, -⟩ := parseRequest_terminates
  obtain ⟨s, hs, hcontext, hcontent⟩ := deliver_requestHead
  have hrun : httpSession.Run HttpSession.new [.requestHead] s := .single nofun hs
  have hstate : s.context.state = .kExpectHeaders := by
    rw [hcontext]
    rfl
  have hall : (s.inputBuffer.readFd HttpSegment.requestRest.data).content
      = ascii "Host: a\r\nAccept: b\r\n\r\n".toList := by
    rw [ByteQueue.content_readFd, hcontent]
    rfl
  obtain ⟨hterm, -, hturn⟩ := hends 0 s.context (s.inputBuffer.readFd HttpSegment.requestRest.data)
    (hready s ((Machine.Reachable.of_init rfl).run hrun))
  -- the line `Host: a` is complete now
  obtain ⟨c₁, hline⟩ : ∃ c₁, (HttpContext.requestConsumer 0).body
      (s.context, ascii "Host: a\r\nAccept: b\r\n\r\n".toList)
        = .ok (.inl (c₁, ascii "Accept: b\r\n\r\n".toList)) := by
    rw [hcontext]
    exact ⟨_, rfl⟩
  have hbody := HttpContext.parseTurn_headers 0 (s.inputBuffer.readFd HttpSegment.requestRest.data) hstate
  rw [hall, hline] at hbody
  cases hnext : HttpContext.parseTurn 0 (s.context, s.inputBuffer.readFd HttpSegment.requestRest.data) with
  | error e =>
      rw [hnext] at hbody
      cases hbody
  | ok next =>
      rw [hnext] at hbody
      obtain ⟨c', buf'⟩ | r := next
      · obtain ⟨hstate', htaken⟩ := hturn c' buf' hnext
        exact ⟨s, _, c', buf', hrun, hstate, rfl, hall, hnext, hstate', htaken, hterm⟩
      · cases hbody

/-- **When a peer can fail the server's assertion.** Whatever segments have arrived, the next one is
dealt with unless the parser has refused a request line after storing its method; then it fails the
assertion of `setMethod`. -/
theorem onMessage_returns_iff {s : HttpSession} (hs : httpSession.Reachable s)
    (segment : HttpSegment) :
    ((∃ t, s.deliver segment = .ok t) ↔ ¬ s.Rejected) ∧
      (s.Rejected → s.deliver segment = .error "method_ == kInvalid") := by
  rcases HttpSession.stands_of_reachable hs with hfresh | ⟨hrejected, hline⟩
  · obtain ⟨t, ht, -⟩ := HttpSession.deliver_sat hfresh segment
    have hnot := HttpSession.not_rejected_of_fresh hfresh
    exact ⟨iff_of_true ⟨t, ht⟩ hnot, fun h => absurd h hnot⟩
  · have herror := HttpSession.deliver_rejected hrejected hline segment
    refine ⟨iff_of_false ?_ fun hnot => hnot hrejected, fun _ => herror⟩
    rintro ⟨t, ht⟩
    rw [herror] at ht
    cases ht

/-- The first segment of a session is dealt with. -/
theorem onMessage_returns_first :
    ∃ t, HttpSession.new.deliver ⟨ascii "GET / HTTP/1.1\r\n\r\n".toList, 0, defaultHttpCallback⟩ = .ok t :=
  (onMessage_returns_iff (.of_init rfl) _).1.mpr
    (HttpSession.not_rejected_of_fresh HttpContext.fresh_new)

/-- A request line without a version. -/
def HttpSegment.noVersion : HttpSegment :=
  { data := ascii "GET /\r\n".toList, receiveTime := 0, httpCallback := defaultHttpCallback }

/-- It is refused after its method has been stored. -/
theorem deliver_noVersion :
    HttpSession.new.deliver .noVersion = .ok
      { context := { HttpContext.new with request := { HttpRequest.new with method := .kGet } }
        inputBuffer := ByteQueue.new.readFd HttpSegment.noVersion.data
        calls := [.send badRequest, .shutdown] } := by
  have hcontent : (ByteQueue.new.readFd HttpSegment.noVersion.data).content
      = HttpSegment.noVersion.data := by
    rw [ByteQueue.content_readFd, ByteQueue.content_new]
    rfl
  have hsearch : search kCRLF HttpSegment.noVersion.data = some 5 := by decide
  have hturn : HttpContext.parseTurn 0
        (HttpContext.new, ByteQueue.new.readFd HttpSegment.noVersion.data)
      = .ok (.inr (false, { HttpContext.new with request := { HttpRequest.new with method := .kGet } },
          ByteQueue.new.readFd HttpSegment.noVersion.data)) := by
    simp only [HttpContext.parseTurn, HttpContext.new, ByteQueue.findCRLF, ByteQueue.peekBytes, hcontent,
      hsearch]
    rfl
  have hparse : HttpContext.new.parseRequest (ByteQueue.new.readFd HttpSegment.noVersion.data) 0
      = .ok (false, { HttpContext.new with request := { HttpRequest.new with method := .kGet } },
          ByteQueue.new.readFd HttpSegment.noVersion.data) := loop_of_inr hturn _
  show HttpContext.new.parseRequest (ByteQueue.new.readFd HttpSegment.noVersion.data) 0 >>= _ = _
  rw [hparse]
  rfl

/-- A peer sends a request line without a version, is answered with an error, and sends one more byte. -/
theorem onMessage_after_badRequest_fails :
    ∃ s, httpSession.Run HttpSession.new [.noVersion] s ∧ s.calls = [.send badRequest, .shutdown] ∧
      s.deliver { HttpSegment.noVersion with data := ascii ['x'] } = .error "method_ == kInvalid" := by
  refine ⟨_, .single nofun deliver_noVersion, rfl, ?_⟩
  refine HttpSession.deliver_rejected ⟨rfl, by decide⟩ ⟨5, ?_, ?_⟩ _
  · rw [ByteQueue.content_readFd, ByteQueue.content_new]
    decide
  · rw [ByteQueue.content_readFd, ByteQueue.content_new]
    decide

end Muduo.Net
