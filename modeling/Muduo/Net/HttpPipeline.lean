import Muduo.Net.HttpServer
import Muduo.Support.Frames

/-! # Pipelined requests

A peer may send its next request before the last one is answered. The bytes of the requests then arrive
one behind the other, cut into segments anyhow, and `onMessage` parses at most one request for each
segment. Here requests are given by the text that is sent for them, the parser is shown to read such a
text as one frame, and `httpServer_pipeline_iff` says for which segments all requests are dispatched. -/

namespace Muduo.Net

open Support

/-! ## The text of a request -/

/-- The name of a method in the request line. -/
def HttpRequest.Method.name : HttpRequest.Method → List Byte
  | .kInvalid => []
  | .kGet => ascii ['G', 'E', 'T']
  | .kPost => ascii ['P', 'O', 'S', 'T']
  | .kHead => ascii ['H', 'E', 'A', 'D']
  | .kPut => ascii ['P', 'U', 'T']
  | .kDelete => ascii ['D', 'E', 'L', 'E', 'T', 'E']

/-- The text of a version in the request line. -/
def HttpRequest.Version.text : HttpRequest.Version → List Byte
  | .kUnknown => []
  | .kHttp10 => ascii ['H', 'T', 'T', 'P', '/', '1', '.', '0']
  | .kHttp11 => ascii ['H', 'T', 'T', 'P', '/', '1', '.', '1']

/-- A header line: a field, a colon, and the text of the value. -/
structure HttpHeaderText where
  field : List Byte
  text : List Byte
  field_noColon : 58 ∉ field
  line_noBreak : ¬ kCRLF <:+: field ++ 58 :: text

/-- The header's line, without its line break. -/
def HttpHeaderText.line (h : HttpHeaderText) : List Byte := h.field ++ 58 :: h.text

/-- The method, the target and the version, with a space between them. -/
def requestLine (method : HttpRequest.Method) (path query : List Byte)
    (version : HttpRequest.Version) : List Byte :=
  method.name ++ 32 :: (path ++ query ++ 32 :: version.text)

/-- A well-formed request without a body. -/
structure HttpRequestText where
  method : HttpRequest.Method
  path : List Byte
  /-- Empty, or the part of the target that begins with the question mark. -/
  query : List Byte
  version : HttpRequest.Version
  headers : List HttpHeaderText
  method_known : method ≠ .kInvalid
  version_known : version ≠ .kUnknown
  path_ok : 32 ∉ path ∧ 63 ∉ path
  query_ok : 32 ∉ query ∧ (query = [] ∨ query.head? = some 63)
  line_noBreak : ¬ kCRLF <:+: requestLine method path query version

namespace HttpRequestText

variable (r : HttpRequestText)

/-- The request line, without its line break. -/
def line : List Byte := requestLine r.method r.path r.query r.version

/-- What is sent behind the request line. -/
def headerBytes (hs : List HttpHeaderText) : List Byte :=
  hs.flatMap (fun h => h.line ++ kCRLF) ++ kCRLF

/-- What is sent for the request. -/
def bytes : List Byte := r.line ++ (kCRLF ++ headerBytes r.headers)

/-- The request as the server's user is to see it, but for the time. -/
def request : HttpRequest :=
  r.headers.foldl (fun req h => req.addHeader h.field h.text)
    { HttpRequest.new with
      method := r.method, path := r.path, query := r.query, version := r.version }

end HttpRequestText

/-! ## The parser reads it -/

namespace HttpContext

variable {c c' : HttpContext} {line rest : List Byte} {receiveTime : Int}

/-- A complete line is decided about. -/
theorem verdict_line (hc : c.Ready) (hline : ¬ kCRLF <:+: line) (rest : List Byte) :
    c.verdict receiveTime (line ++ (kCRLF ++ rest)) = c.lineVerdict receiveTime line line.length := by
  have hsearch : search kCRLF (line ++ (kCRLF ++ rest)) = some line.length :=
    search_pair (by decide) hline rest
  rw [verdict, if_pos hc, hsearch]
  dsimp only
  rw [List.take_left]

/-- What comes after a line. -/
theorem drop_line (line rest : List Byte) :
    (line ++ (kCRLF ++ rest)).drop (line.length + 2) = rest := by
  rw [← List.append_assoc]
  exact List.drop_left' (by simp [kCRLF, ascii])

/-- A line that is taken. -/
theorem run_of_take (hc : c.Ready) (hline : ¬ kCRLF <:+: line)
    (h : c.lineVerdict receiveTime line line.length = .ok (.take (line.length + 2) c'))
    (rest : List Byte) :
    (requestConsumer receiveTime).run c (line ++ (kCRLF ++ rest))
      = (requestConsumer receiveTime).run c' rest := by
  have hstep : (requestConsumer receiveTime).step c (line ++ (kCRLF ++ rest))
      = .ok (.take (line.length + 2) c') := (verdict_line hc hline rest).trans h
  rw [Consumer.run_eq, hstep, Checked.ok_bind]
  dsimp only
  rw [drop_line]

/-- The header of a request. -/
theorem run_headerBytes (hs : List HttpHeaderText) (req : HttpRequest) :
    (requestConsumer receiveTime).run ⟨.kExpectHeaders, req⟩ (HttpRequestText.headerBytes hs)
      = .ok ⟨⟨.kGotAll, hs.foldl (fun req h => req.addHeader h.field h.text) req⟩, [], some true⟩ := by
  induction hs generalizing req with
  | nil =>
      -- the empty line has no colon
      rw [Consumer.run_eq]
      rfl
  | cons h hs ih =>
      have hcolon : ∀ b ∈ h.field, decide (b ≠ 58) = true := fun b hb => by
        rw [decide_eq_true_eq]
        rintro rfl
        exact h.field_noColon hb
      have hverdict : lineVerdict receiveTime ⟨.kExpectHeaders, req⟩ h.line h.line.length
          = .ok (.take (h.line.length + 2) ⟨.kExpectHeaders, req.addHeader h.field h.text⟩) := by
        simp only [lineVerdict, HttpHeaderText.line]
        rw [List.dropWhile_append_of_pos hcolon, List.takeWhile_append_of_pos hcolon]
        simp
      have hbytes : HttpRequestText.headerBytes (h :: hs)
          = h.line ++ (kCRLF ++ HttpRequestText.headerBytes hs) := by
        simp [HttpRequestText.headerBytes]
      rw [hbytes]
      exact (run_of_take (.inr rfl) h.line_noBreak hverdict _).trans (ih _)

/-- The words of a request line are found again. -/
theorem processRequestLine_line (r : HttpRequestText) :
    new.processRequestLine r.line = .ok ({ HttpRequest.new with
      method := r.method, path := r.path, query := r.query, version := r.version }, true) := by
  have hmethod : ∀ b ∈ r.method.name, decide (b ≠ 32) = true := by
    cases r.method <;> simp [HttpRequest.Method.name, ascii]
  have htarget : ∀ b ∈ r.path ++ r.query, decide (b ≠ 32) = true := fun b hb => by
    rw [decide_eq_true_eq]
    rintro rfl
    rcases List.mem_append.mp hb with hb | hb
    · exact r.path_ok.1 hb
    · exact r.query_ok.1 hb
  have hofName : HttpRequest.Method.ofName r.method.name = r.method := by
    cases hm : r.method <;> decide
  have hset : HttpRequest.new.setMethod r.method.name
      = .ok ({ HttpRequest.new with method := r.method }, true) := by
    have hinvalid : HttpRequest.new.method = .kInvalid := rfl
    rw [HttpRequest.setMethod, assert_pos hinvalid]
    simp [hofName, r.method_known]
  have hprocess : processTarget { HttpRequest.new with method := r.method } (r.path ++ r.query)
      = { HttpRequest.new with method := r.method, path := r.path, query := r.query } := by
    have hpath : ∀ b ∈ r.path, decide (b ≠ 63) = true := fun b hb => by
      rw [decide_eq_true_eq]
      rintro rfl
      exact r.path_ok.2 hb
    unfold processTarget
    rw [List.takeWhile_append_of_pos hpath, List.dropWhile_append_of_pos hpath]
    rcases r.query_ok.2 with hquery | hquery
    · simp [hquery, HttpRequest.new]
    · obtain ⟨q, hq⟩ := List.head?_eq_some_iff.mp hquery
      simp [hq]
  have hversion : processVersion
        { HttpRequest.new with method := r.method, path := r.path, query := r.query } r.version.text
      = ({ HttpRequest.new with
          method := r.method, path := r.path, query := r.query, version := r.version }, true) := by
    cases hv : r.version with
    | kUnknown => exact absurd hv r.version_known
    | kHttp10 => rfl
    | kHttp11 => rfl
  simp only [processRequestLine, HttpRequestText.line, requestLine]
  rw [List.dropWhile_append_of_pos hmethod, List.takeWhile_append_of_pos hmethod]
  simp only [List.dropWhile_cons, ne_eq, not_true_eq_false, decide_false, Bool.false_eq_true, if_false,
    List.takeWhile_cons, List.append_nil]
  have hcontext : new.request = HttpRequest.new := rfl
  rw [hcontext, hset, Checked.ok_bind]
  dsimp only
  rw [if_pos rfl, List.dropWhile_append_of_pos htarget, List.takeWhile_append_of_pos htarget]
  simp [hprocess, hversion]

/-- The request line of a request is taken. -/
theorem run_requestLine (r : HttpRequestText) (rest : List Byte) :
    (requestConsumer 0).run new (r.line ++ (kCRLF ++ rest))
      = (requestConsumer 0).run ⟨.kExpectHeaders, { HttpRequest.new with
          method := r.method, path := r.path, query := r.query, version := r.version }⟩ rest := by
  have hverdict : lineVerdict 0 new r.line r.line.length
      = .ok (.take (r.line.length + 2) ⟨.kExpectHeaders, { HttpRequest.new with
          method := r.method, path := r.path, query := r.query, version := r.version }⟩) := by
    simp only [lineVerdict, new]
    have hline := processRequestLine_line r
    rw [new] at hline
    rw [hline]
    rfl
  exact run_of_take (.inl rfl) r.line_noBreak hverdict rest

/-- The text of a request is a frame for the parser. -/
theorem run_bytes (r : HttpRequestText) :
    (requestConsumer 0).run new r.bytes = .ok ⟨⟨.kGotAll, r.request⟩, [], some true⟩ :=
  (run_requestLine r _).trans (run_headerBytes r.headers _)

end HttpContext

/-- The frame of a request. -/
def HttpRequestText.frame (r : HttpRequestText) :
    (HttpContext.requestConsumer 0).Frame HttpContext.new where
  data := r.bytes
  state := ⟨.kGotAll, r.request⟩
  result := true
  data_ne_nil := by simp [HttpRequestText.bytes, kCRLF, ascii]
  run_data := HttpContext.run_bytes r

/-! ## The time of a request -/

/-- The request without its time of arrival. -/
def HttpRequest.untimed (req : HttpRequest) : HttpRequest := { req with receiveTime := 0 }

namespace HttpContext

/-- The parser, but for the time of its request. -/
def untimed (c : HttpContext) : HttpContext := { c with request := c.request.untimed }

/-- The target does not depend on the time. -/
theorem processTarget_untimed (req : HttpRequest) (target : List Byte) :
    processTarget req.untimed target = (processTarget req target).untimed := by
  unfold processTarget
  dsimp only
  split <;> rfl

/-- The version does not depend on the time. -/
theorem processVersion_untimed (req : HttpRequest) (version : List Byte) :
    processVersion req.untimed version
      = ((processVersion req version).1.untimed, (processVersion req version).2) := by
  unfold processVersion
  split
  · split
    · rfl
    · split <;> rfl
  · rfl

/-- The request line does not depend on the time. -/
theorem processRequestLine_untimed (c : HttpContext) (line : List Byte) :
    c.untimed.processRequestLine line
      = (c.processRequestLine line).map fun r => (r.1.untimed, r.2) := by
  unfold processRequestLine
  cases line.dropWhile (· ≠ 32) with
  | nil => rfl
  | cons b start =>
      have hset : c.untimed.request.setMethod (line.takeWhile (· ≠ 32))
          = (c.request.setMethod (line.takeWhile (· ≠ 32))).map fun r => (r.1.untimed, r.2) := by
        unfold HttpRequest.setMethod
        by_cases hmethod : c.request.method = .kInvalid
        · rw [assert_pos hmethod, assert_pos (p := c.untimed.request.method = .kInvalid) hmethod]
          rfl
        · rw [assert_neg hmethod, assert_neg (p := c.untimed.request.method = .kInvalid) hmethod]
          rfl
      dsimp only
      rw [hset]
      cases c.request.setMethod (line.takeWhile (· ≠ 32)) with
      | error e => rfl
      | ok r =>
          obtain ⟨req, known⟩ := r
          cases known with
          | false => rfl
          | true =>
              simp only [Except.map, Checked.ok_bind, if_true]
              cases start.dropWhile (· ≠ 32) with
              | nil => rfl
              | cons b version =>
                  dsimp only
                  rw [processTarget_untimed, processVersion_untimed]
                  rfl

/-- No line depends on the time. -/
theorem lineVerdict_untimed (receiveTime : Int) (c : HttpContext) (line : List Byte) (crlf : Nat) :
    c.untimed.lineVerdict 0 line crlf
      = (c.lineVerdict receiveTime line crlf).map (Verdict.map untimed) := by
  have hstate : c.untimed.state = c.state := rfl
  unfold lineVerdict
  rw [hstate]
  cases c.state with
  | kExpectRequestLine =>
      dsimp only
      rw [processRequestLine_untimed]
      cases c.processRequestLine line with
      | error e => rfl
      | ok r =>
          obtain ⟨req, ok⟩ := r
          cases ok <;> rfl
  | kExpectHeaders =>
      dsimp only
      cases line.dropWhile (· ≠ 58) <;> rfl
  | kExpectBody => rfl
  | kGotAll => rfl

/-- The parser does not look at the time, which it only passes on. -/
theorem run_untimed (receiveTime : Int) (c : HttpContext) (xs : List Byte) :
    (requestConsumer 0).run c.untimed xs
      = ((requestConsumer receiveTime).run c xs).map (Consumer.Progress.map untimed) := by
  refine Consumer.run_map (fun c xs => ?_) c xs
  show c.untimed.verdict 0 xs = (c.verdict receiveTime xs).map (Verdict.map untimed)
  unfold verdict
  by_cases hready : c.Ready
  · have hready' : c.untimed.Ready := hready
    rw [if_pos hready, if_pos hready']
    cases search kCRLF xs with
    | none => rfl
    | some crlf => exact lineVerdict_untimed receiveTime c _ crlf
  · have hready' : ¬ c.untimed.Ready := hready
    rw [if_neg hready, if_neg hready']
    rfl

end HttpContext

/-! ## Sessions read requests -/

/-- The request that is dispatched by a call. -/
def HttpCall.request? : HttpCall → Option HttpRequest
  | .httpCallback req => some req
  | _ => none

namespace HttpSession

/-- The requests for which `httpCallback_` was invoked, in order. -/
def dispatched (s : HttpSession) : List HttpRequest := s.calls.filterMap HttpCall.request?

/-- `onRequest` invokes the callback once. -/
theorem filterMap_onRequest (httpCallback : HttpCallback) (req : HttpRequest) :
    (HttpServer.onRequest httpCallback req).filterMap HttpCall.request? = [req] := by
  simp only [HttpServer.onRequest, List.filterMap_append]
  split <;> rfl

/-- A session is where a reader of requests is, but for the times of the requests. -/
structure Follows (s : HttpSession) (a : Consumer.Reader HttpContext Byte Bool) : Prop where
  context : s.context.untimed = a.state
  fresh : s.context.Fresh
  buffer : s.inputBuffer.content = a.rest
  dispatched : s.dispatched.map HttpRequest.untimed = a.outputs.map fun o => o.1.request

variable {s : HttpSession} {a a' : Consumer.Reader HttpContext Byte Bool}

/-- A new session follows a new reader. -/
theorem follows_new : new.Follows ⟨HttpContext.new, [], []⟩ :=
  ⟨rfl, HttpContext.fresh_new, ByteQueue.content_new, rfl⟩

/-- A segment is a piece for the reader, as long as no request is refused, and the requests that it completes are
answered. -/
theorem Follows.deliver (h : s.Follows a) (segment : HttpSegment)
    (hread : (HttpContext.requestConsumer 0).read HttpContext.new a segment.data = .ok a')
    (haccepted : ∀ o ∈ a'.outputs, o.2 = true) :
    ∃ s', s.deliver segment = .ok s' ∧ s'.Follows a' ∧
      ∃ reqs : List HttpRequest, s'.calls = s.calls ++ reqs.flatMap (HttpServer.onRequest segment.httpCallback) := by
  obtain ⟨⟨ok, context, inputBuffer⟩, hparse, hsettled⟩ :=
    HttpContext.parseRequest_sat segment.receiveTime h.fresh (s.inputBuffer.readFd segment.data)
  have hrun := HttpContext.parseRequest_eq segment.receiveTime h.fresh.ready
    (s.inputBuffer.readFd segment.data)
  have huntimed := HttpContext.run_untimed segment.receiveTime s.context
    (s.inputBuffer.readFd segment.data).content
  rw [hrun, hparse, ByteQueue.content_readFd, h.buffer, h.context] at huntimed
  rw [Consumer.read, huntimed] at hread
  rw [HttpSession.deliver, onMessage, hparse]
  by_cases hgoes : ok = true ∧ ¬ context.gotAll = true
  · -- the request is not complete
    simp only [HttpContext.Settled, HttpContext.progress, if_pos hgoes] at hsettled
    simp only [Except.map, HttpContext.progress, if_pos hgoes, Consumer.Progress.map,
      Checked.ok_bind, Checked.pure_eq_ok] at hread
    cases hread
    refine ⟨⟨context, inputBuffer, s.calls⟩, ?_, ⟨rfl, hsettled, rfl, h.dispatched⟩, [], by simp⟩
    simp [hgoes.1, hgoes.2]
  · simp only [Except.map, HttpContext.progress, if_neg hgoes, Consumer.Progress.map,
      Checked.ok_bind, Checked.pure_eq_ok] at hread
    cases hread
    obtain rfl : ok = true := haccepted (context.untimed, ok) (by simp)
    have hgot : context.gotAll = true := by
      by_contra hnot
      exact hgoes ⟨rfl, hnot⟩
    refine ⟨⟨context.reset, inputBuffer,
      s.calls ++ HttpServer.onRequest segment.httpCallback context.request⟩, ?_,
      ⟨rfl, HttpContext.fresh_new, rfl, ?_⟩, [context.request], by simp⟩
    · simp [hgot]
    · rw [HttpSession.dispatched, List.filterMap_append, filterMap_onRequest, List.map_append,
        List.map_append, ← h.dispatched]
      rfl

/-- Segments are pieces for the reader. -/
theorem Follows.run (h : s.Follows a) {segs : List HttpSegment} (hsegs : ∀ seg ∈ segs, seg.data ≠ [])
    (hread : (HttpContext.requestConsumer 0).readAll HttpContext.new a (segs.map HttpSegment.data)
      = .ok a')
    (haccepted : ∀ o ∈ a'.outputs, o.2 = true) :
    ∃ s', httpSession.Run s segs s' ∧ s'.Follows a' := by
  induction segs generalizing s a with
  | nil =>
      cases hread
      exact ⟨s, .nil s, h⟩
  | cons seg segs ih =>
      rw [List.forall_mem_cons] at hsegs
      obtain ⟨a₁, hread₁, hread⟩ := Checked.bind_eq_ok.mp hread
      have hpre := Consumer.outputs_prefix_of_readAll hread
      obtain ⟨s₁, hdeliver, h₁, -⟩ :=
        h.deliver seg hread₁ fun o ho => haccepted o (hpre.subset ho)
      obtain ⟨s', hrun, h'⟩ := ih h₁ hsegs.2 hread
      have hfirst : httpSession.Run s [seg] s₁ := .single (a := seg) hsegs.1 hdeliver
      exact ⟨s', hfirst.trans hrun, h'⟩

end HttpSession

/-- How many of the requests are dispatched when they arrive in the segments. -/
def numDispatched (rs : List HttpRequestText) (segs : List HttpSegment) : Nat :=
  served (rs.map fun r => r.bytes.length) 0 (segs.map fun seg => seg.data.length)

/-- The first requests are dispatched, in order. -/
theorem dispatched_eq_take {rs : List HttpRequestText} {segs : List HttpSegment}
    (hsegs : ∀ seg ∈ segs, seg.data ≠ [])
    (hstream : (segs.map HttpSegment.data).flatten = (rs.map HttpRequestText.bytes).flatten) :
    ∃ s, httpSession.Run HttpSession.new segs s ∧ s.dispatched.map HttpRequest.untimed
      = (rs.map HttpRequestText.request).take (numDispatched rs segs) := by
  have hdata : (rs.map HttpRequestText.frame).map Consumer.Frame.data
      = rs.map HttpRequestText.bytes := by
    rw [List.map_map]
    rfl
  have hstart : Consumer.Reader.Waits ⟨HttpContext.new, [], []⟩ (rs.map HttpRequestText.frame) [] :=
    ⟨List.nil_prefix, fun zs => rfl⟩
  have hpieces : ∀ xs ∈ segs.map HttpSegment.data, xs ≠ [] := by
    rwa [List.forall_mem_map]
  obtain ⟨a', hread, houtputs⟩ := hstart.readAll_eq hpieces (by
    rw [hdata, List.nil_append, hstream])
  have haccepted : ∀ o ∈ a'.outputs, o.2 = true := by
    intro o ho
    rw [houtputs, List.nil_append] at ho
    obtain ⟨f, hf, rfl⟩ := List.mem_map.mp ho
    obtain ⟨r, -, rfl⟩ := List.mem_map.mp (List.mem_of_mem_take hf)
    rfl
  obtain ⟨s, hrun, hs⟩ := HttpSession.follows_new.run hsegs hread haccepted
  refine ⟨s, hrun, ?_⟩
  rw [hs.dispatched, houtputs, List.nil_append, List.map_map, List.map_map, List.map_map,
    ← List.map_take, List.map_map, ← List.map_take]
  rfl

/-- Behind each segment, and at the start, there are enough others for the requests that are not
complete by then. -/
def KeepsUp (rs : List HttpRequestText) (segs : List HttpSegment) : Prop :=
  ∀ k ≤ segs.length, rs.length ≤
    completed (rs.map fun r => r.bytes.length) ((segs.take k).map fun seg => seg.data.length).sum
      + (segs.length - k)

/-- Whether the segments keep up with the requests can be told by computation. -/
instance (rs : List HttpRequestText) (segs : List HttpSegment) : Decidable (KeepsUp rs segs) :=
  inferInstanceAs (Decidable (∀ k ≤ segs.length, _))

/-- No more requests are dispatched than there are. -/
theorem numDispatched_le_length (rs : List HttpRequestText) (segs : List HttpSegment) :
    numDispatched rs segs ≤ rs.length :=
  (served_le_length _ _ _).trans_eq (List.length_map _)

/-- All are dispatched when the segments keep up. -/
theorem numDispatched_eq_length_iff (rs : List HttpRequestText) (segs : List HttpSegment) :
    numDispatched rs segs = rs.length ↔ KeepsUp rs segs := by
  have hnone : completed (rs.map fun r => r.bytes.length) 0 = 0 := by
    cases rs with
    | nil => rfl
    | cons r rs => exact completed_of_lt _ (List.length_pos_iff.mpr r.frame.data_ne_nil)
  have hcount := served_eq_length_iff (rs.map fun r => r.bytes.length) 0
    (segs.map fun seg => seg.data.length)
  simp only [List.length_map, Nat.zero_add, ← List.map_take] at hcount
  rw [numDispatched, hcount]
  constructor
  · rintro ⟨hlen, hall⟩ k hk
    cases k with
    | zero => simpa [hnone] using hlen
    | succ k => exact hall k hk
  · intro h
    refine ⟨by simpa [hnone] using h 0 (Nat.zero_le _), fun k hk => h (k + 1) hk⟩

/-- **Pipelined requests.** The bytes of well-formed requests are delivered in segments, cut in any
way. Then no assertion fails and the first of the requests are dispatched in order, each once; and all
of them are exactly if the segments keep up with them. -/
theorem httpServer_pipeline_iff {rs : List HttpRequestText} {segs : List HttpSegment}
    (hsegs : ∀ seg ∈ segs, seg.data ≠ [])
    (hstream : (segs.map HttpSegment.data).flatten = (rs.map HttpRequestText.bytes).flatten) :
    ∃ s, httpSession.Run HttpSession.new segs s ∧
      s.dispatched.map HttpRequest.untimed <+: rs.map HttpRequestText.request ∧
      (s.dispatched.map HttpRequest.untimed = rs.map HttpRequestText.request ↔ KeepsUp rs segs) := by
  obtain ⟨s, hrun, hs⟩ := dispatched_eq_take hsegs hstream
  refine ⟨s, hrun, ?_, ?_⟩
  · rw [hs]
    exact List.take_prefix _ _
  · rw [← numDispatched_eq_length_iff, hs, List.take_eq_self_iff, List.length_map]
    exact ⟨fun hle => (numDispatched_le_length rs segs).antisymm hle, fun heq => heq.ge⟩

/-- `GET / HTTP/1.1`, without a header. -/
def HttpRequestText.getRoot : HttpRequestText where
  method := .kGet
  path := ascii ['/']
  query := []
  version := .kHttp11
  headers := []
  method_known := by decide
  version_known := by decide
  path_ok := by decide
  query_ok := by decide
  line_noBreak := by decide

/-- A segment whose requests are answered in the simplest way. -/
def HttpSegment.answered (data : List Byte) : HttpSegment :=
  { data, receiveTime := 0, httpCallback := fun _ response => { response with statusCode := .k200Ok } }

/-- Two requests that arrive in a segment each are both dispatched. -/
theorem httpServer_pipeline_separate :
    ∃ s, httpSession.Run HttpSession.new
        [.answered HttpRequestText.getRoot.bytes, .answered HttpRequestText.getRoot.bytes] s ∧
      s.dispatched.map HttpRequest.untimed
        = [HttpRequestText.getRoot.request, HttpRequestText.getRoot.request] := by
  have hstream : ([.answered HttpRequestText.getRoot.bytes,
        .answered HttpRequestText.getRoot.bytes].map HttpSegment.data).flatten
      = ([.getRoot, .getRoot].map HttpRequestText.bytes).flatten := rfl
  obtain ⟨s, hrun, -, hiff⟩ := httpServer_pipeline_iff (by decide) hstream
  exact ⟨s, hrun, hiff.mpr (by decide)⟩

/-- Two requests that arrive in one segment: the connection is kept alive, but only the first of them
is dispatched. -/
theorem httpServer_pipeline_together :
    (∀ call ∈ HttpServer.onRequest (HttpSegment.answered []).httpCallback
        HttpRequestText.getRoot.request, call ≠ .shutdown) ∧
      ∃ s, httpSession.Run HttpSession.new
          [.answered (HttpRequestText.getRoot.bytes ++ HttpRequestText.getRoot.bytes)] s ∧
        s.dispatched.map HttpRequest.untimed = [HttpRequestText.getRoot.request] := by
  constructor
  · have hheader : ∀ field, HttpRequestText.getRoot.request.getHeader field = [] := by
      simp [HttpRequest.getHeader, HttpRequestText.request, HttpRequestText.getRoot, HttpRequest.new]
    have hversion : HttpRequestText.getRoot.request.version = .kHttp11 := rfl
    simp [HttpServer.onRequest, hheader, hversion, HttpSegment.answered, HttpResponse.new, ascii]
  · have hstream : ([.answered (HttpRequestText.getRoot.bytes ++ HttpRequestText.getRoot.bytes)].map
        HttpSegment.data).flatten
          = ([.getRoot, .getRoot].map HttpRequestText.bytes).flatten := rfl
    obtain ⟨s, hrun, hs⟩ := dispatched_eq_take (by decide) hstream
    exact ⟨s, hrun, hs⟩

end Muduo.Net
