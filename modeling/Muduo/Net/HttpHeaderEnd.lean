import Muduo.Net.HttpPipeline
import Muduo.Support.Lines

/-! # Where the header section of a request ends

`parseRequest` takes a request line, then lines that it records as headers, and then a line at which it
stops and reports the request as complete. `gotAll_lines` says which lines it took in any number of calls.
The line at which it stops is the first one without a colon, and need not be empty;
`headerSection_ends_empty_iff` says for which streams it is. -/

namespace Muduo.Net

open Support

/-- The headers after `line` has been recorded: the field is what stands before the first colon. -/
def HttpRequest.recordLine (headers : Finmap fun _ : List Byte => List Byte) (line : List Byte) :
    Finmap fun _ : List Byte => List Byte :=
  ({ HttpRequest.new with headers }.addHeader (line.takeWhile (· ≠ 58))
    (line.dropWhile (· ≠ 58)).tail).headers

/-- A request line and the lines of a header section, each of them with a colon. -/
structure HeaderSection where
  requestLine : List Byte
  fields : List (List Byte)
  isLine : ∀ l ∈ requestLine :: fields, IsLine kCRLF l
  colon : ∀ l ∈ fields, 58 ∈ l

namespace HeaderSection

variable (h : HeaderSection)

/-- What is sent for it. -/
def bytes : List Byte := joinLines kCRLF (h.requestLine :: h.fields)

/-- The headers that it records. -/
def headers : Finmap fun _ : List Byte => List Byte := h.fields.foldl HttpRequest.recordLine ∅

/-- One more line with a colon. -/
def concat (line : List Byte) (hline : IsLine kCRLF line) (hcolon : 58 ∈ line) : HeaderSection where
  requestLine := h.requestLine
  fields := h.fields ++ [line]
  isLine l hl := by
    rw [← List.cons_append, List.mem_append, List.mem_singleton] at hl
    rcases hl with hl | rfl
    · exact h.isLine l hl
    · exact hline
  colon l hl := by
    rw [List.mem_append, List.mem_singleton] at hl
    rcases hl with hl | rfl
    · exact h.colon l hl
    · exact hcolon

/-- A section without fields. -/
def ofLine (line : List Byte) (hline : IsLine kCRLF line) : HeaderSection where
  requestLine := line
  fields := []
  isLine l hl := by
    rw [List.mem_singleton] at hl
    rw [hl]
    exact hline
  colon := nofun

variable {h}

/-- The bytes of one more line. -/
theorem bytes_concat {line : List Byte} (hline : IsLine kCRLF line) (hcolon : 58 ∈ line) :
    (h.concat line hline hcolon).bytes = h.bytes ++ (line ++ kCRLF) := by
  simp [bytes, concat]

/-- The headers of one more line. -/
theorem headers_concat {line : List Byte} (hline : IsLine kCRLF line) (hcolon : 58 ∈ line) :
    (h.concat line hline hcolon).headers = HttpRequest.recordLine h.headers line := by
  simp [headers, concat]

/-- Two sections at the front of one stream, each followed by a line without a colon, are the same. -/
theorem unique {h' : HeaderSection} {last last' rest rest' : List Byte}
    (hlast : IsLine kCRLF last ∧ 58 ∉ last) (hlast' : IsLine kCRLF last' ∧ 58 ∉ last')
    (heq : h.bytes ++ (last ++ kCRLF) ++ rest = h'.bytes ++ (last' ++ kCRLF) ++ rest') :
    h = h' ∧ last = last' ∧ rest = rest' := by
  have hfields : ∀ h : HeaderSection, ∀ l ∈ h.fields, IsLine kCRLF l ∧ 58 ∈ l := fun h l hl =>
    ⟨h.isLine l (List.mem_cons_of_mem _ hl), h.colon l hl⟩
  have hfirst := h.isLine h.requestLine (List.mem_cons_self ..)
  have hfirst' := h'.isLine h'.requestLine (List.mem_cons_self ..)
  have hbytes : ∀ (h : HeaderSection) (last rest : List Byte),
      h.bytes ++ (last ++ kCRLF) ++ rest
        = h.requestLine ++ kCRLF ++ (joinLines kCRLF (h.fields ++ [last]) ++ rest) := by
    intro h last rest
    simp [bytes]
  rw [hbytes, hbytes] at heq
  obtain ⟨hline, heq⟩ := hfirst.append_inj hfirst' heq
  obtain ⟨hsame, hlasts, hrests⟩ := joinLines_inj (hfields h) hlast (hfields h') hlast' heq
  refine ⟨?_, hlasts, hrests⟩
  cases h
  cases h'
  cases hline
  cases hsame
  rfl

end HeaderSection

/-! ## What the parser takes -/

namespace HttpContext

/-- The lines that a parser that goes on has taken. -/
def TookLines (c : HttpContext) (taken : List Byte) : Prop :=
  (c.state = .kExpectRequestLine ∧ taken = [] ∧ c.request.headers = ∅) ∨
    (c.state = .kExpectHeaders ∧
      ∃ h : HeaderSection, taken = h.bytes ∧ c.request.headers = h.headers)

/-- The lines that a parser has taken when it is done. -/
def TookAll (c : HttpContext) (taken : List Byte) (_ : Bool) : Prop :=
  c.state = .kGotAll → ∃ (h : HeaderSection) (last : List Byte), IsLine kCRLF last ∧ 58 ∉ last ∧
    taken = h.bytes ++ (last ++ kCRLF) ∧ c.request.headers = h.headers

/-- The request target leaves the headers. -/
theorem headers_processTarget (req : HttpRequest) (target : List Byte) :
    (processTarget req target).headers = req.headers := by
  unfold processTarget
  dsimp only
  split <;> rfl

/-- The version leaves the headers. -/
theorem headers_processVersion (req : HttpRequest) (version : List Byte) :
    (processVersion req version).1.headers = req.headers := by
  unfold processVersion
  split
  · split
    · rfl
    · split <;> rfl
  · rfl

/-- The request line is no header. -/
theorem headers_processRequestLine {c : HttpContext} {line : List Byte} {r : HttpRequest × Bool}
    (h : c.processRequestLine line = .ok r) : r.1.headers = c.request.headers := by
  unfold processRequestLine at h
  split at h
  · cases h
    rfl
  · obtain ⟨⟨req, known⟩, hset, h⟩ := Checked.bind_eq_ok.mp h
    obtain ⟨-, hset⟩ := Checked.assert_bind_eq_ok.mp hset
    cases hset
    dsimp only at h
    split at h
    · split at h
      · cases h
        rfl
      · cases h
        rw [headers_processVersion, headers_processTarget]
    · cases h
      rfl

/-- A line is taken with its end. -/
theorem take_line {xs : List Byte} {crlf : Nat} (h : search kCRLF xs = some crlf) :
    xs.take (crlf + 2) = xs.take crlf ++ kCRLF := by
  have hle := search_le h
  have hlen : (xs.take crlf ++ kCRLF).length = crlf + 2 := by
    rw [List.length_append, List.length_take_of_le (by omega)]
    rfl
  conv_lhs => rw [search_spec h]
  rw [List.take_append_of_le_length hlen.ge, ← hlen, List.take_length]

/-- A line has a colon if a search for one does not reach its end. -/
theorem colon_mem {line rest : List Byte} {b : Byte} (h : line.dropWhile (· ≠ 58) = b :: rest) :
    58 ∈ line := by
  by_contra hnot
  have hall : ∀ b ∈ line, decide (b ≠ 58) = true := fun b hb => by
    rw [decide_eq_true_eq]
    rintro rfl
    exact hnot hb
  rw [List.dropWhile_eq_nil_iff.mpr hall] at h
  cases h

/-- A line that is skipped whole has no colon. -/
theorem colon_not_mem {line : List Byte} (h : line.dropWhile (· ≠ 58) = []) : 58 ∉ line := by
  intro hmem
  have hall := List.dropWhile_eq_nil_iff.mp h 58 hmem
  revert hall
  decide

/-- A decision other than to wait is about the first line. -/
theorem lineVerdict_of_step {receiveTime : Int} {c : HttpContext} {xs : List Byte}
    {v : Verdict HttpContext Bool} (hc : c.Ready)
    (h : (requestConsumer receiveTime).step c xs = .ok v) (hv : v ≠ .wait) :
    ∃ crlf, search kCRLF xs = some crlf ∧ c.lineVerdict receiveTime (xs.take crlf) crlf = .ok v := by
  have hverdict : c.verdict receiveTime xs = .ok v := h
  have hne : c.verdict receiveTime xs ≠ .ok .wait := by
    rw [hverdict]
    exact fun heq => hv (Except.ok.inj heq)
  obtain ⟨crlf, hsearch, heq⟩ := verdict_of_ne_wait hc hne
  exact ⟨crlf, hsearch, heq.symm.trans hverdict⟩

/-- The decisions of the parser, with the lines they are about. -/
theorem requestConsumer_accounts (receiveTime : Int) :
    (requestConsumer receiveTime).Accounts TookLines TookAll where
  take c past xs n c' hc h := by
    have hready : c.Ready := hc.imp And.left And.left
    obtain ⟨crlf, hsearch, h'⟩ := lineVerdict_of_step hready h nofun
    have hline := isLine_of_search hsearch
    unfold lineVerdict at h'
    rcases hc with ⟨hstate, rfl, hheaders⟩ | ⟨hstate, sect, rfl, hheaders⟩
    · rw [hstate] at h'
      obtain ⟨⟨req, ok⟩, hprocess, h'⟩ := Checked.bind_eq_ok.mp h'
      dsimp only at h'
      split at h' <;> cases h'
      refine .inr ⟨rfl, .ofLine _ hline, ?_, ?_⟩
      · rw [take_line hsearch]
        simp [HeaderSection.bytes, HeaderSection.ofLine]
      · exact (headers_processRequestLine hprocess).trans hheaders
    · rw [hstate] at h'
      dsimp only at h'
      split at h' <;> cases h'
      next b rest hcolon =>
        refine .inr ⟨rfl, sect.concat _ hline (colon_mem hcolon), ?_, ?_⟩
        · rw [take_line hsearch, HeaderSection.bytes_concat]
        · rw [HeaderSection.headers_concat, HttpRequest.recordLine, hcolon, ← hheaders]
          rfl
  stop c past xs n c' ok hc h := by
    have hready : c.Ready := hc.imp And.left And.left
    obtain ⟨crlf, hsearch, h'⟩ := lineVerdict_of_step hready h nofun
    unfold lineVerdict at h'
    rcases hc with ⟨hstate, rfl, hheaders⟩ | ⟨hstate, sect, rfl, hheaders⟩
    · rw [hstate] at h'
      obtain ⟨⟨req, known⟩, -, h'⟩ := Checked.bind_eq_ok.mp h'
      dsimp only at h'
      split at h' <;> cases h'
      exact nofun
    · rw [hstate] at h'
      dsimp only at h'
      split at h' <;> cases h'
      next hcolon =>
        intro _
        refine ⟨sect, xs.take crlf, isLine_of_search hsearch, colon_not_mem hcolon, ?_, hheaders⟩
        rw [take_line hsearch]

end HttpContext

/-! ## Any number of calls -/

namespace HttpFeed

/-- Segments arrive, each at a time of its own. -/
def calls (f : HttpFeed) : List (Int × List Byte) → Checked HttpFeed
  | [] => return f
  | (receiveTime, data) :: rest => do
      let f ← f.segment receiveTime data
      calls f rest

/-- What the parser has taken of the bytes that have arrived. -/
def Took (f : HttpFeed) (received : List Byte) : Prop :=
  ∃ taken, received = taken ++ f.buffer.content ∧
    Consumer.Reads HttpContext.TookLines HttpContext.TookAll f.progress taken

/-- At the start nothing was taken. -/
theorem took_new : new.Took [] := by
  refine ⟨[], ?_, fun _ => .inl ⟨rfl, rfl, rfl⟩, ?_⟩
  · rw [List.nil_append]
    exact ByteQueue.content_new.symm
  · rw [progress_new]
    exact nofun

/-- One segment. -/
theorem segment_took {f f' : HttpFeed} {received data : List Byte} {receiveTime : Int}
    (hvalid : f.Valid) (hf : f.Took received) (h : f.segment receiveTime data = .ok f') :
    f'.Took (received ++ data) := by
  obtain ⟨taken, rfl, hreads⟩ := hf
  have hfeed := segment_eq receiveTime hvalid data
  rw [h] at hfeed
  obtain ⟨taken', htaken, hreads'⟩ :=
    (HttpContext.requestConsumer_accounts receiveTime).feed hreads hfeed
  exact ⟨taken', htaken, hreads'⟩

/-- Calls take what arrives. -/
theorem calls_took {segs : List (Int × List Byte)} {f f' : HttpFeed} {received : List Byte}
    (hvalid : f.Valid) (hf : f.Took received) (h : f.calls segs = .ok f') :
    f'.Took (received ++ (segs.map Prod.snd).flatten) := by
  induction segs generalizing f received with
  | nil =>
      cases h
      simpa using hf
  | cons seg segs ih =>
      obtain ⟨f₁, hsegment, hcalls⟩ := Checked.bind_eq_ok.mp h
      have hvalid₁ := (segment_sat seg.1 hvalid seg.2).of_eq_ok hsegment
      have htook := ih hvalid₁ (segment_took hvalid hf hsegment) hcalls
      simpa using htook

end HttpFeed

/-- **What a complete request is made of.** When the parser has got all, it has taken a request line,
lines with a colon, each recorded as a header, and one line without a colon. -/
theorem gotAll_lines {segs : List (Int × List Byte)} {f : HttpFeed}
    (hf : HttpFeed.new.calls segs = .ok f) (hall : f.context.gotAll = true) :
    ∃ (h : HeaderSection) (last : List Byte), IsLine kCRLF last ∧ 58 ∉ last ∧
      (segs.map Prod.snd).flatten = h.bytes ++ (last ++ kCRLF) ++ f.buffer.content ∧
      f.context.request.headers = h.headers := by
  obtain ⟨taken, hreceived, hreads⟩ := HttpFeed.calls_took HttpFeed.valid_new HttpFeed.took_new hf
  rw [List.nil_append] at hreceived
  have hresult : f.progress.result = some f.ok := by
    rw [HttpFeed.progress_result, if_neg fun hand => hand.2 hall]
  have hstate : f.context.state = .kGotAll := of_decide_eq_true hall
  obtain ⟨h, last, hline, hcolon, rfl, hheaders⟩ := hreads.stopped f.ok hresult hstate
  exact ⟨h, last, hline, hcolon, hreceived, hheaders⟩

/-- A stream whose first line without a colon, after the request line, is empty. -/
def EndsEmpty (stream : List Byte) : Prop :=
  ∃ (h : HeaderSection) (rest : List Byte), stream = h.bytes ++ kCRLF ++ rest

/-- The parser has taken a request line, lines that it has all recorded as headers, and an empty line. -/
def HttpFeed.EndedEmpty (f : HttpFeed) (stream : List Byte) : Prop :=
  ∃ h : HeaderSection, stream = h.bytes ++ kCRLF ++ f.buffer.content ∧
    f.context.request.headers = h.headers

/-- **When the header section ends at an empty line.** Whenever the parser has got all of a request, in
any number of calls, the last line it took is empty and all lines before it, but for the request line, have
been recorded as headers, exactly if the first line without a colon is empty. -/
theorem headerSection_ends_empty_iff {segs : List (Int × List Byte)} {f : HttpFeed}
    (hf : HttpFeed.new.calls segs = .ok f) (hall : f.context.gotAll = true) :
    f.EndedEmpty (segs.map Prod.snd).flatten ↔ EndsEmpty (segs.map Prod.snd).flatten := by
  obtain ⟨h, last, hline, hcolon, hstream, hheaders⟩ := gotAll_lines hf hall
  have hempty : IsLine kCRLF [] ∧ 58 ∉ ([] : List Byte) := ⟨by decide, List.not_mem_nil⟩
  constructor
  · rintro ⟨h', hstream', -⟩
    exact ⟨h', _, hstream'⟩
  · rintro ⟨h', rest, hstream'⟩
    -- both are cuts of the stream at its first line without a colon
    have heq : h.bytes ++ (last ++ kCRLF) ++ f.buffer.content = h'.bytes ++ ([] ++ kCRLF) ++ rest :=
      hstream.symm.trans hstream'
    obtain ⟨rfl, rfl, rfl⟩ := HeaderSection.unique ⟨hline, hcolon⟩ hempty heq
    exact ⟨h, hstream, hheaders⟩

/-- Calls at one time are segments. -/
theorem HttpFeed.calls_map (receiveTime : Int) (f : HttpFeed) (pieces : List (List Byte)) :
    f.calls (pieces.map (Prod.mk receiveTime)) = f.segments receiveTime pieces := by
  induction pieces generalizing f with
  | nil => rfl
  | cons data rest ih =>
      rw [List.map_cons, calls, segments]
      exact congrArg _ (funext ih)

/-- Segments that make the parser stop, in one call or in more. -/
theorem HttpFeed.calls_of_run {data stream rest : List Byte} {pieces : List (List Byte)} {c : HttpContext}
    {ok : Bool} (hstream : (data :: pieces).flatten = stream)
    (h : (HttpContext.requestConsumer 0).run HttpContext.new stream = .ok ⟨c, rest, some ok⟩) :
    ∃ f, HttpFeed.new.calls ((data :: pieces).map (Prod.mk 0)) = .ok f ∧ f.context = c ∧
      f.buffer.content = rest := by
  obtain ⟨f, hf, -⟩ := HttpFeed.segments_sat 0 HttpFeed.valid_new (data :: pieces)
  have hfeed := HttpFeed.segments_eq 0 HttpFeed.valid_new (data :: pieces)
  rw [hf, HttpFeed.progress_new, Consumer.feedAll_eq, hstream] at hfeed
  have hprogress : f.progress = ⟨c, rest, some ok⟩ := (Except.ok.inj (h.symm.trans hfeed)).symm
  refine ⟨f, ?_, congrArg Consumer.Progress.state hprogress, congrArg Consumer.Progress.rest hprogress⟩
  rw [HttpFeed.calls_map, hf]

/-- `GET / HTTP/1.1` with two header lines. -/
def HttpRequestText.getHost : HttpRequestText :=
  { getRoot with
    headers :=
      [⟨ascii ['H', 'o', 's', 't'], ascii [' ', 'a'], by decide, by decide⟩,
        ⟨ascii ['A', 'c', 'c', 'e', 'p', 't'], ascii [' ', '*'], by decide, by decide⟩] }

/-- The lines of the request before the empty one. -/
def HeaderSection.getHost : HeaderSection where
  requestLine := HttpRequestText.getHost.line
  fields := HttpRequestText.getHost.headers.map HttpHeaderText.line
  isLine := by decide
  colon := by decide

/-- A request with two header lines that arrives in two segments, the second of which begins in the middle
of the first header line. -/
theorem headerSection_ends_empty_getHost :
    ∃ f, HttpFeed.new.calls [(0, HttpRequestText.getHost.bytes.take 20),
        (0, HttpRequestText.getHost.bytes.drop 20)] = .ok f ∧
      f.EndedEmpty HttpRequestText.getHost.bytes ∧
      f.context.request.headers = HeaderSection.getHost.headers := by
  have hbytes : ([HttpRequestText.getHost.bytes.take 20,
      HttpRequestText.getHost.bytes.drop 20] : List (List Byte)).flatten = HttpRequestText.getHost.bytes := by
    simp
  obtain ⟨f, hf, hcontext, -⟩ := HttpFeed.calls_of_run hbytes (HttpContext.run_bytes .getHost)
  have hall : f.context.gotAll = true := by
    rw [hcontext]
    rfl
  have hends := (headerSection_ends_empty_iff hf hall).mpr ⟨.getHost, [], by decide⟩
  refine ⟨f, hf, ?_, ?_⟩
  · simpa using hends
  · rw [hcontext]
    rfl

/-- A line without a colon ends the header section, whatever it is. -/
theorem HttpContext.run_of_noColon (req : HttpRequest) {line : List Byte}
    (hline : ¬ kCRLF <:+: line) (hcolon : 58 ∉ line) (rest : List Byte) :
    (requestConsumer 0).run ⟨.kExpectHeaders, req⟩ (line ++ (kCRLF ++ rest))
      = .ok ⟨⟨.kGotAll, req⟩, rest, some true⟩ := by
  have hnone : line.dropWhile (· ≠ 58) = [] := by
    rw [List.dropWhile_eq_nil_iff]
    intro b hb
    rw [decide_eq_true_eq]
    rintro rfl
    exact hcolon hb
  have hstep : (requestConsumer 0).step ⟨.kExpectHeaders, req⟩ (line ++ (kCRLF ++ rest))
      = .ok (.stop (line.length + 2) ⟨.kGotAll, req⟩ true) := by
    have hready : Ready ⟨.kExpectHeaders, req⟩ := .inr rfl
    refine (verdict_line hready hline rest).trans ?_
    simp only [lineVerdict, hnone]
    rfl
  rw [Consumer.run_eq, hstep, Checked.ok_bind]
  dsimp only
  rw [drop_line]
  rfl

/-- A request line, a line without a colon that is not empty, and a request: the parser gets a request,
and takes what stands behind that line for the next one. -/
theorem headerSection_ends_at_word :
    ∃ f, HttpFeed.new.calls [(0, HttpRequestText.getRoot.line ++ (kCRLF ++
        (ascii ['w', 'o', 'r', 'd'] ++ (kCRLF ++ HttpRequestText.getRoot.bytes))))] = .ok f ∧
      f.context.gotAll = true ∧ f.buffer.content = HttpRequestText.getRoot.bytes ∧
      ¬ f.EndedEmpty (HttpRequestText.getRoot.line ++ (kCRLF ++
        (ascii ['w', 'o', 'r', 'd'] ++ (kCRLF ++ HttpRequestText.getRoot.bytes)))) := by
  have hbreak : ¬ kCRLF <:+: ascii ['w', 'o', 'r', 'd'] := by decide
  have hcolon : 58 ∉ ascii ['w', 'o', 'r', 'd'] := by decide
  have hrun := (HttpContext.run_requestLine .getRoot _).trans
    (HttpContext.run_of_noColon _ hbreak hcolon HttpRequestText.getRoot.bytes)
  obtain ⟨f, hf, hcontext, hbuffer⟩ := HttpFeed.calls_of_run List.flatten_singleton hrun
  have hgot : f.context.gotAll = true := by
    rw [hcontext]
    rfl
  refine ⟨f, hf, hgot, hbuffer, ?_⟩
  rintro ⟨h, hstream, -⟩
  -- the stream begins with the request line and the word, which is not the empty line
  have hword : HttpRequestText.getRoot.line ++ (kCRLF ++
        (ascii ['w', 'o', 'r', 'd'] ++ (kCRLF ++ HttpRequestText.getRoot.bytes)))
      = (HeaderSection.ofLine HttpRequestText.getRoot.line (by decide)).bytes
        ++ (ascii ['w', 'o', 'r', 'd'] ++ kCRLF) ++ HttpRequestText.getRoot.bytes := by
    simp [HeaderSection.bytes, HeaderSection.ofLine]
  have hisLine : IsLine kCRLF (ascii ['w', 'o', 'r', 'd']) := by decide
  have hempty : IsLine kCRLF [] ∧ 58 ∉ ([] : List Byte) := ⟨by decide, List.not_mem_nil⟩
  have hsame := HeaderSection.unique ⟨hisLine, hcolon⟩ hempty (hword.symm.trans hstream)
  cases hsame.2.1

end Muduo.Net
