import Muduo.Net.HttpContext
import Muduo.Support.Incremental

/-! # The HTTP parser as a consumer of lines

`parseRequest` decides about one line at a time, and about a line only when its end has arrived. So it is
a `Consumer` of the bytes in the buffer (`requestConsumer`), and how the bytes are cut into segments does
not matter: `parseRequest_segmentation`. -/

namespace Muduo.Net

open Support

namespace HttpContext

/-! ## The consumer -/

/-- What the parser decides about a complete line, whose end is at `crlf`. -/
def lineVerdict (receiveTime : Int) (c : HttpContext) (line : List Byte) (crlf : Nat) :
    Checked (Verdict HttpContext Bool) :=
  match c.state with
  | .kExpectRequestLine => do
      let (request, ok) ← c.processRequestLine line
      if ok then
        return .take (crlf + 2) { state := .kExpectHeaders, request := { request with receiveTime } }
      else return .stop 0 { c with request } false -- nothing is taken of a refused line
  | .kExpectHeaders =>
      match line.dropWhile (· ≠ 58) with
      | _ :: rest =>
          return .take (crlf + 2)
            { c with request := c.request.addHeader (line.takeWhile (· ≠ 58)) rest }
      | [] => return .stop (crlf + 2) { c with state := .kGotAll } true
  | .kExpectBody | .kGotAll => .error "the loop does not end"

/-- The states in which the parser can be called. -/
def Ready (c : HttpContext) : Prop := c.state = .kExpectRequestLine ∨ c.state = .kExpectHeaders

/-- A context between two calls can be told by computation. -/
instance (c : HttpContext) : Decidable c.Ready := inferInstanceAs (Decidable (_ ∨ _))

/-- What the parser decides about the bytes in the buffer. -/
def verdict (receiveTime : Int) (c : HttpContext) (xs : List Byte) :
    Checked (Verdict HttpContext Bool) :=
  if c.Ready then
    match search kCRLF xs with
    | some crlf => c.lineVerdict receiveTime (xs.take crlf) crlf
    | none => return .wait
  else .error "the loop does not end"

/-- A decision about a line takes the line and its end, or nothing. -/
theorem lineVerdict_le {receiveTime : Int} {c : HttpContext} {line : List Byte} {crlf : Nat}
    {v : Verdict HttpContext Bool} (h : c.lineVerdict receiveTime line crlf = .ok v) :
    (∃ c', v = .take (crlf + 2) c') ∨ ∃ n c' r, n ≤ crlf + 2 ∧ v = .stop n c' r := by
  unfold lineVerdict at h
  split at h -- the request line, a header line, and the two states without an end
  · obtain ⟨⟨request, ok⟩, -, h⟩ := Checked.bind_eq_ok.mp h
    dsimp only at h
    split at h <;> cases h
    · exact .inl ⟨_, rfl⟩
    · exact .inr ⟨0, _, _, Nat.zero_le _, rfl⟩
  · split at h <;> cases h
    · exact .inl ⟨_, rfl⟩
    · exact .inr ⟨_, _, _, Nat.le_refl _, rfl⟩
  · cases h
  · cases h

/-- A decision other than to wait is about the first line. -/
theorem verdict_of_ne_wait {receiveTime : Int} {c : HttpContext} {xs : List Byte}
    (hc : c.Ready) (h : c.verdict receiveTime xs ≠ .ok .wait) :
    ∃ crlf, search kCRLF xs = some crlf ∧
      c.verdict receiveTime xs = c.lineVerdict receiveTime (xs.take crlf) crlf := by
  unfold verdict at h ⊢
  rw [if_pos hc] at h ⊢
  cases hsearch : search kCRLF xs with
  | none =>
      rw [hsearch] at h
      exact absurd rfl h
  | some crlf => exact ⟨crlf, rfl, rfl⟩

/-- A line that is complete stays complete. -/
theorem verdict_append {receiveTime : Int} {c : HttpContext} {xs : List Byte} {crlf : Nat}
    (hc : c.Ready) (hsearch : search kCRLF xs = some crlf) (ys : List Byte) :
    c.verdict receiveTime (xs ++ ys) = c.lineVerdict receiveTime (xs.take crlf) crlf := by
  have hle := search_le hsearch
  rw [verdict, if_pos hc, search_append hsearch ys]
  dsimp only
  rw [List.take_append_of_le_length (by omega)]

/-- After a line has been taken, headers are expected. -/
theorem verdict_take_state {receiveTime : Int} {c c' : HttpContext} {xs : List Byte} {n : Nat}
    (h : c.verdict receiveTime xs = .ok (.take n c')) : c'.state = .kExpectHeaders := by
  by_cases hc : c.Ready
  · obtain ⟨crlf, -, heq⟩ := verdict_of_ne_wait hc (by rw [h]; exact nofun)
    rw [heq] at h
    unfold lineVerdict at h
    split at h
    · obtain ⟨⟨request, ok⟩, -, h⟩ := Checked.bind_eq_ok.mp h
      dsimp only at h
      split at h <;> cases h
      rfl
    · next hstate =>
        split at h <;> cases h
        exact hstate
    · cases h
    · cases h
  · rw [verdict, if_neg hc] at h
    cases h

/-- The parser as a consumer. -/
def requestConsumer (receiveTime : Int) : Consumer HttpContext Byte Bool where
  step := verdict receiveTime
  stable c xs ys h := by
    by_cases hc : c.Ready
    · obtain ⟨crlf, hsearch, heq⟩ := verdict_of_ne_wait hc h
      rw [heq, verdict_append hc hsearch]
    · rw [verdict, verdict, if_neg hc, if_neg hc]
  take_le c xs n c' h := by
    by_cases hc : c.Ready
    · obtain ⟨crlf, hsearch, heq⟩ := verdict_of_ne_wait hc (by rw [h]; exact nofun)
      have hle := search_le hsearch
      rw [heq] at h
      rcases lineVerdict_le h with ⟨c'', hv⟩ | ⟨n', c'', r, -, hv⟩ <;> cases hv
      have hlen : kCRLF.length = 2 := rfl
      omega
    · rw [verdict, if_neg hc] at h
      cases h
  stop_le c xs n c' r h := by
    by_cases hc : c.Ready
    · obtain ⟨crlf, hsearch, heq⟩ := verdict_of_ne_wait hc (by rw [h]; exact nofun)
      have hle := search_le hsearch
      rw [heq] at h
      rcases lineVerdict_le h with ⟨c'', hv⟩ | ⟨n', c'', r, hn, hv⟩ <;> cases hv
      have hlen : kCRLF.length = 2 := rfl
      omega
    · rw [verdict, if_neg hc] at h
      cases h

/-! ## The loop is the consumer -/

/-- Where the parser is when `parseRequest` has returned. -/
def progress : Bool × Parse → Consumer.Progress HttpContext Byte Bool
  | (ok, c, buf) => ⟨c, buf.content, if ok ∧ ¬ c.gotAll then none else some ok⟩

/-- The line and its end can be taken from the buffer. -/
theorem retrieveUntil_crlf {buf : ByteQueue} {crlf : Nat} (h : search kCRLF buf.content = some crlf) :
    ∃ buf', buf.retrieveUntil (crlf + 2) = .ok buf' ∧ buf'.content = buf.content.drop (crlf + 2) :=
  buf.retrieveUntil_sat (search_le h)

/-- A turn on the request line. -/
theorem parseTurn_requestLine (receiveTime : Int) {c : HttpContext} (buf : ByteQueue)
    (hstate : c.state = .kExpectRequestLine) :
    (requestConsumer receiveTime).body (c, buf.content)
      = (parseTurn receiveTime (c, buf)).map (Sum.map (fun a => (a.1, a.2.content)) progress) := by
  have hready : c.Ready := .inl hstate
  have hgotAll : c.gotAll = false := by simp [gotAll, hstate]
  simp only [Consumer.body, requestConsumer, verdict, if_pos hready, parseTurn, hstate,
    ByteQueue.findCRLF, ByteQueue.peekBytes, lineVerdict]
  cases hsearch : search kCRLF buf.content with
  | none => simp [Except.map, progress, hgotAll]
  | some crlf =>
      dsimp only
      cases c.processRequestLine (buf.content.take crlf) with
      | error e => rfl
      | ok r =>
          obtain ⟨request, ok⟩ := r
          cases ok with
          | true =>
              obtain ⟨buf', hbuf', hcontent⟩ := retrieveUntil_crlf hsearch
              simp [hbuf', hcontent, Except.map]
          | false => simp [Except.map, progress] -- the line stays in the buffer on both sides

/-- A turn in the headers is a turn of the consumer. -/
theorem parseTurn_headers (receiveTime : Int) {c : HttpContext} (buf : ByteQueue)
    (hstate : c.state = .kExpectHeaders) :
    (requestConsumer receiveTime).body (c, buf.content)
      = (parseTurn receiveTime (c, buf)).map (Sum.map (fun a => (a.1, a.2.content)) progress) := by
  have hready : c.Ready := .inr hstate
  have hgotAll : c.gotAll = false := by simp [gotAll, hstate]
  simp only [Consumer.body, requestConsumer, verdict, if_pos hready, parseTurn, hstate,
    ByteQueue.findCRLF, ByteQueue.peekBytes, lineVerdict]
  cases hsearch : search kCRLF buf.content with
  | none => simp [Except.map, progress, hgotAll]
  | some crlf =>
      obtain ⟨buf', hbuf', hcontent⟩ := retrieveUntil_crlf hsearch
      dsimp only
      cases (buf.content.take crlf).dropWhile (· ≠ 58) with
      | nil => simp [hbuf', hcontent, Except.map, progress, gotAll]
      | cons b rest => simp [hbuf', hcontent, Except.map]

/-- Every turn is a turn of the consumer. -/
theorem parseTurn_eq (receiveTime : Int) (a : Parse) (ha : a.1.Ready) :
    (requestConsumer receiveTime).body (a.1, a.2.content)
      = (parseTurn receiveTime a).map (Sum.map (fun a => (a.1, a.2.content)) progress) := by
  obtain ⟨c, buf⟩ := a
  rcases ha with hstate | hstate
  · exact parseTurn_requestLine receiveTime buf hstate
  · exact parseTurn_headers receiveTime buf hstate

/-- A turn leaves the parser callable. -/
theorem parseTurn_ready (receiveTime : Int) (a a' : Parse) (ha : a.1.Ready)
    (h : parseTurn receiveTime a = .ok (.inl a')) : a'.1.Ready := by
  have hbody := parseTurn_eq receiveTime a ha
  rw [h] at hbody
  obtain ⟨n, hstep, -⟩ := (requestConsumer receiveTime).body_inl hbody
  exact .inr (verdict_take_state hstep)

/-- `parseRequest` is the run of the consumer on the bytes in the buffer. -/
theorem parseRequest_eq (receiveTime : Int) {c : HttpContext} (hc : c.Ready) (buf : ByteQueue) :
    (requestConsumer receiveTime).run c buf.content
      = (c.parseRequest buf receiveTime).map progress := by
  unfold Consumer.run parseRequest
  rw [ByteQueue.readableBytes_eq]
  exact loop_map (f := fun a : Parse => (a.1, a.2.content)) (I := fun a => a.1.Ready)
    (parseTurn_eq receiveTime) (parseTurn_ready receiveTime) _ (a := (c, buf)) hc

/-- A turn after which the loop goes on has taken a line with its end. -/
theorem parseTurn_takes (receiveTime : Int) (a a' : Parse) (ha : a.1.Ready)
    (h : parseTurn receiveTime a = .ok (.inl a')) : a'.2.readableBytes + 2 ≤ a.2.readableBytes := by
  have hbody := parseTurn_eq receiveTime a ha
  rw [h] at hbody
  obtain ⟨n, hstep, hrest⟩ := (requestConsumer receiveTime).body_inl hbody
  have hverdict : a.1.verdict receiveTime a.2.content = .ok (.take n a'.1) := hstep
  obtain ⟨crlf, hsearch, hline⟩ := verdict_of_ne_wait ha (by rw [hverdict]; exact nofun)
  have hle := search_le hsearch
  rw [hverdict] at hline
  have hcontent : a'.2.content = a.2.content.drop n := hrest
  rcases lineVerdict_le hline.symm with ⟨c', hv⟩ | ⟨n', c', r, -, hv⟩ <;> cases hv
  rw [ByteQueue.readableBytes_eq, ByteQueue.readableBytes_eq, hcontent, List.length_drop]
  have hlen : kCRLF.length = 2 := rfl
  omega

/-- The bound in the definition of `parseRequest` is no restriction: with any larger one the loop returns
the same. -/
theorem parseRequest_bound (receiveTime : Int) {c : HttpContext} (hc : c.Ready) (buf : ByteQueue)
    {n : Nat} (hn : buf.readableBytes < n) :
    loop (parseTurn receiveTime) n (c, buf) = c.parseRequest buf receiveTime := by
  refine loop_of_measure (I := fun a => a.1.Ready) (fun a => a.2.readableBytes)
    (fun a a' ha h => ⟨parseTurn_ready receiveTime a a' ha h, ?_⟩) hc hn (Nat.lt_succ_self _)
  have htaken := parseTurn_takes receiveTime a a' ha h
  omega

/-- No bytes, no change. -/
theorem run_nil (receiveTime : Int) {c : HttpContext} (hc : c.Ready) :
    (requestConsumer receiveTime).run c [] = .ok ⟨c, [], none⟩ := by
  have hwait : (requestConsumer receiveTime).step c [] = .ok .wait := if_pos hc
  rw [Consumer.run_eq, hwait]
  rfl

/-! ## No assertion fails from a fresh context -/

/-- The parser is ready and has no method yet when it needs one. -/
def Fresh (c : HttpContext) : Prop :=
  c.state = .kExpectRequestLine ∧ c.request.method = .kInvalid ∨ c.state = .kExpectHeaders

/-- A fresh context can be called. -/
theorem Fresh.ready {c : HttpContext} (h : c.Fresh) : c.Ready := h.imp_left And.left

/-- A new context is fresh. -/
theorem fresh_new : new.Fresh := .inl ⟨rfl, rfl⟩

/-- The input starts with a complete line that has a space in it, so that the parser takes a method
from it. -/
def StartsWithMethod (xs : List Byte) : Prop :=
  ∃ crlf, search kCRLF xs = some crlf ∧ (xs.take crlf).dropWhile (· ≠ 32) ≠ []

/-- More input does not change the first line. -/
theorem StartsWithMethod.append {xs : List Byte} (h : StartsWithMethod xs) (ys : List Byte) :
    StartsWithMethod (xs ++ ys) := by
  obtain ⟨crlf, hsearch, hspace⟩ := h
  have hle := search_le hsearch
  refine ⟨crlf, search_append hsearch ys, ?_⟩
  rwa [List.take_append_of_le_length (by omega)]

/-- Where the parser can be when it returns from a fresh context. After a bad request line the line is
still in the buffer, and its method may have been stored. -/
def Settled (p : Consumer.Progress HttpContext Byte Bool) : Prop :=
  match p.result with
  | none => p.state.Fresh
  | some true => p.state.state = .kGotAll
  | some false =>
      p.state.state = .kExpectRequestLine ∧
        (p.state.request.method ≠ .kInvalid → StartsWithMethod p.rest)

/-- A request line is processed without a failing assertion when no method is set; only a line with a
space in it sets one. -/
theorem processRequestLine_sat {c : HttpContext} (h : c.request.method = .kInvalid)
    (line : List Byte) :
    (c.processRequestLine line).Sat fun r =>
      r.1.method ≠ .kInvalid → line.dropWhile (· ≠ 32) ≠ [] := by
  unfold processRequestLine
  split
  · exact .ok fun hne => absurd h hne
  · next hspace =>
      refine Checked.Sat.bind (P := fun _ => True) ?_ fun r _ => ?_
      · exact Checked.Sat.assert h (.ok trivial)
      · rw [hspace]
        obtain ⟨request, known⟩ := r
        dsimp only
        split
        · split <;> exact .ok fun _ => nofun
        · exact .ok fun _ => nofun

/-- With a method already set, a line with a space in it fails the assertion of `setMethod`. -/
theorem processRequestLine_error {c : HttpContext} (h : c.request.method ≠ .kInvalid)
    {line : List Byte} (hline : line.dropWhile (· ≠ 32) ≠ []) :
    c.processRequestLine line = .error "method_ == kInvalid" := by
  unfold processRequestLine
  split
  · next hnil => exact absurd hnil hline
  · rw [HttpRequest.setMethod, assert_neg h]
    rfl

/-- The parser decides without a failing assertion. -/
theorem verdict_sat (receiveTime : Int) {c : HttpContext} (hc : c.Fresh) (xs : List Byte) :
    (c.verdict receiveTime xs).Sat fun v =>
      ∀ n c' r, v = .stop n c' r → Settled ⟨c', xs.drop n, some r⟩ := by
  unfold verdict
  rw [if_pos hc.ready]
  cases hsearch : search kCRLF xs with
  | none => exact .ok fun _ _ _ hstop => by cases hstop
  | some crlf =>
      dsimp only
      unfold lineVerdict
      rcases hc with ⟨hstate, hmethod⟩ | hstate
      · rw [hstate]
        refine (processRequestLine_sat hmethod _).bind fun r hr => ?_
        dsimp only
        split
        · exact .ok fun _ _ _ hstop => by cases hstop
        · -- refused: if a method was stored, the line it came from is still at the front
          refine .ok ?_
          rintro n c' r ⟨⟩
          exact ⟨rfl, fun hne => ⟨crlf, hsearch, hr hne⟩⟩
      · rw [hstate]
        dsimp only
        split
        · exact .ok fun _ _ _ hstop => by cases hstop
        · refine .ok ?_
          rintro n c' r ⟨⟩
          rfl

/-- A fresh parser consumes any bytes without a failing assertion. -/
theorem run_sat (receiveTime : Int) {c : HttpContext} (hc : c.Fresh) (xs : List Byte) :
    ((requestConsumer receiveTime).run c xs).Sat Settled := by
  -- every line that is taken leaves the parser fresh, with fewer bytes to go
  refine loop_sat (I := fun a => a.1.Fresh) (fun a => a.2.length) (fun a ha => ?_) hc
    (Nat.lt_succ_self _)
  obtain ⟨v, hv, hstop⟩ := verdict_sat receiveTime ha a.2
  have hstep : (requestConsumer receiveTime).step a.1 a.2 = .ok v := hv
  unfold Consumer.body
  rw [hstep]
  cases v with
  | wait => exact .ok ha
  | stop n c' r => exact .ok (hstop n c' r rfl)
  | take n c' =>
      obtain ⟨hpos, hle⟩ := (requestConsumer receiveTime).take_le _ _ _ _ hstep
      refine .ok ⟨.inr (verdict_take_state hv), ?_⟩
      rw [List.length_drop]
      omega

/-- `parseRequest` from a fresh context returns, whatever is in the buffer. -/
theorem parseRequest_sat (receiveTime : Int) {c : HttpContext} (hc : c.Fresh) (buf : ByteQueue) :
    (c.parseRequest buf receiveTime).Sat fun r => Settled (progress r) := by
  obtain ⟨p, hp, hsettled⟩ := run_sat receiveTime hc buf.content
  rw [parseRequest_eq receiveTime hc.ready] at hp
  cases hparse : c.parseRequest buf receiveTime with
  | error e =>
      rw [hparse] at hp
      cases hp
  | ok r =>
      rw [hparse] at hp
      cases hp
      exact .ok hsettled

/-- `parseRequest` fails the assertion of `setMethod` when it finds a method set before the request
line, and takes one from the line. -/
theorem parseRequest_error (receiveTime : Int) {c : HttpContext}
    (hstate : c.state = .kExpectRequestLine) (hmethod : c.request.method ≠ .kInvalid)
    {buf : ByteQueue} (hbuf : StartsWithMethod buf.content) :
    c.parseRequest buf receiveTime = .error "method_ == kInvalid" := by
  obtain ⟨crlf, hsearch, hline⟩ := hbuf
  -- the first turn fails already
  have hturn : parseTurn receiveTime (c, buf) = .error "method_ == kInvalid" := by
    simp only [parseTurn, hstate, ByteQueue.findCRLF, hsearch]
    rw [ByteQueue.peekBytes, processRequestLine_error hmethod hline]
    rfl
  exact loop_of_error hturn _

/-- With a method set before the request line, a buffer from which no method can be taken changes
nothing. -/
theorem parseTurn_of_not_method (receiveTime : Int) {c : HttpContext}
    (hstate : c.state = .kExpectRequestLine) {buf : ByteQueue}
    (hbuf : ¬ StartsWithMethod buf.content) :
    ∃ ok, parseTurn receiveTime (c, buf) = .ok (.inr (ok, c, buf)) := by
  obtain ⟨state, request⟩ := c
  cases hstate
  simp only [parseTurn, ByteQueue.findCRLF, ByteQueue.peekBytes]
  cases hsearch : search kCRLF buf.content with
  | none => exact ⟨true, rfl⟩
  | some crlf =>
      have hspace : (buf.content.take crlf).dropWhile (· ≠ 32) = [] := by
        by_contra hne
        exact hbuf ⟨crlf, hsearch, hne⟩
      refine ⟨false, ?_⟩
      simp only [processRequestLine, hspace]
      rfl

/-- In the states in which it can be called `parseRequest` comes to an end: it returns, or it fails the
assertion of `setMethod`. -/
theorem parseRequest_ends (receiveTime : Int) {c : HttpContext} (hc : c.Ready) (buf : ByteQueue) :
    (∃ r, c.parseRequest buf receiveTime = .ok r) ∨
      c.parseRequest buf receiveTime = .error "method_ == kInvalid" := by
  by_cases hfresh : c.Fresh
  · obtain ⟨r, hr, -⟩ := parseRequest_sat receiveTime hfresh buf
    exact .inl ⟨r, hr⟩
  · -- a parser that is ready and not fresh has a method before the request line
    obtain ⟨hstate, hmethod⟩ : c.state = .kExpectRequestLine ∧ c.request.method ≠ .kInvalid := by
      rcases hc with hstate | hstate
      · exact ⟨hstate, fun hinvalid => hfresh (.inl ⟨hstate, hinvalid⟩)⟩
      · exact absurd (.inr hstate) hfresh
    by_cases hbuf : StartsWithMethod buf.content
    · exact .inr (parseRequest_error receiveTime hstate hmethod hbuf)
    · obtain ⟨ok, hturn⟩ := parseTurn_of_not_method receiveTime hstate hbuf
      exact .inl ⟨_, loop_of_inr hturn _⟩

/-- In the other states every turn goes on with what it was given. -/
theorem parseTurn_of_not_ready (receiveTime : Int) {c : HttpContext} (hc : ¬ c.Ready)
    (buf : ByteQueue) : parseTurn receiveTime (c, buf) = .ok (.inl (c, buf)) := by
  have hstate : c.state = .kExpectBody ∨ c.state = .kGotAll := by
    cases hstate : c.state with
    | kExpectRequestLine => exact absurd (.inl hstate) hc
    | kExpectHeaders => exact absurd (.inr hstate) hc
    | kExpectBody => exact .inl rfl
    | kGotAll => exact .inr rfl
  rcases hstate with hstate | hstate
  · simp only [parseTurn, hstate]
    rfl
  · simp only [parseTurn, hstate]
    rfl

end HttpContext

/-! ## Segments -/

/-- A parser with its buffer, as segments arrive; `ok` is the result of the last call. -/
structure HttpFeed where
  context : HttpContext
  buffer : ByteQueue
  ok : Bool

namespace HttpFeed

/-- A fresh context and an empty buffer. -/
def new : HttpFeed := { context := HttpContext.new, buffer := ByteQueue.new, ok := true }

/-- A segment arrives. `parseRequest` is called until it has returned false or the request is
complete. -/
def segment (receiveTime : Int) (f : HttpFeed) (data : List Byte) : Checked HttpFeed :=
  let buffer := f.buffer.append data
  if f.ok ∧ ¬ f.context.gotAll then do
    let (ok, context, buffer) ← f.context.parseRequest buffer receiveTime
    return { context, buffer, ok }
  else return { f with buffer }

/-- Segments arrive one after the other. -/
def segments (receiveTime : Int) (f : HttpFeed) : List (List Byte) → Checked HttpFeed
  | [] => return f
  | data :: rest => do
      let f ← f.segment receiveTime data
      segments receiveTime f rest

/-- What the feed has consumed and what is left. -/
def progress (f : HttpFeed) : Consumer.Progress HttpContext Byte Bool :=
  HttpContext.progress (f.ok, f.context, f.buffer)

/-- As long as the parser is called, it is fresh. -/
def Valid (f : HttpFeed) : Prop := f.progress.result = none → f.context.Fresh

/-- The parser is called exactly while the consumer has not stopped. -/
theorem progress_result (f : HttpFeed) :
    f.progress.result = if f.ok ∧ ¬ f.context.gotAll then none else some f.ok := rfl

/-- A segment is a piece for the consumer. -/
theorem segment_eq (receiveTime : Int) {f : HttpFeed} (hf : f.Valid) (data : List Byte) :
    (HttpContext.requestConsumer receiveTime).feed f.progress data
      = (f.segment receiveTime data).map progress := by
  have hresult := f.progress_result
  unfold segment Consumer.feed
  by_cases hcall : f.ok ∧ ¬ f.context.gotAll
  · rw [if_pos hcall] at hresult ⊢
    rw [hresult]
    have hrun := HttpContext.parseRequest_eq receiveTime (hf hresult).ready (f.buffer.append data)
    rw [ByteQueue.content_append] at hrun
    refine hrun.trans ?_
    cases f.context.parseRequest (f.buffer.append data) receiveTime with
    | error e => rfl
    | ok r => rfl
  · -- the parser is not called any more, and the bytes pile up
    rw [if_neg hcall] at hresult ⊢
    rw [hresult]
    show Except.ok _ = Except.ok _
    simp only [progress, HttpContext.progress, ByteQueue.content_append, if_neg hcall]

/-- A segment is dealt with without a failing assertion. -/
theorem segment_sat (receiveTime : Int) {f : HttpFeed} (hf : f.Valid) (data : List Byte) :
    (f.segment receiveTime data).Sat Valid := by
  unfold segment
  by_cases hcall : f.ok ∧ ¬ f.context.gotAll
  · rw [if_pos hcall]
    have hfresh : f.context.Fresh := hf (by rw [progress_result, if_pos hcall])
    refine (HttpContext.parseRequest_sat receiveTime hfresh _).bind fun r hr => .ok fun hnone => ?_
    unfold HttpContext.Settled at hr
    rw [show (HttpContext.progress r).result = none from hnone] at hr
    exact hr
  · rw [if_neg hcall]
    refine .ok fun hnone => ?_
    rw [progress_result, if_neg hcall] at hnone
    cases hnone

/-- The segments are the pieces given to the consumer. -/
theorem segments_eq (receiveTime : Int) {f : HttpFeed} (hf : f.Valid) (pieces : List (List Byte)) :
    (HttpContext.requestConsumer receiveTime).feedAll f.progress pieces
      = (f.segments receiveTime pieces).map progress := by
  induction pieces generalizing f with
  | nil => rfl
  | cons data rest ih =>
      obtain ⟨f', hf', hvalid⟩ := segment_sat receiveTime hf data
      rw [Consumer.feedAll, segments, segment_eq receiveTime hf, hf']
      exact ih hvalid

/-- A new feed has consumed nothing. -/
theorem progress_new : new.progress = ⟨HttpContext.new, [], none⟩ := by
  show (⟨HttpContext.new, ByteQueue.new.content, none⟩ : Consumer.Progress HttpContext Byte Bool) = _
  rw [ByteQueue.content_new]

/-- A new feed is valid. -/
theorem valid_new : new.Valid := fun _ => HttpContext.fresh_new

/-- Segments are dealt with without a failing assertion. -/
theorem segments_sat (receiveTime : Int) {f : HttpFeed} (hf : f.Valid) (pieces : List (List Byte)) :
    (f.segments receiveTime pieces).Sat Valid := by
  induction pieces generalizing f with
  | nil => exact .ok hf
  | cons data rest ih => exact (segment_sat receiveTime hf data).bind fun f' hf' => ih hf'

end HttpFeed

/-- **Segmentation independence.** However the bytes are cut into segments, a fresh parser passes all its
assertions, returns from every call, and ends in the same state, with the same request, the same result
and the same unread bytes as when all the bytes arrive at once. -/
theorem parseRequest_segmentation (receiveTime : Int) (pieces : List (List Byte)) :
    ∃ f g, HttpFeed.new.segments receiveTime pieces = .ok f ∧
      HttpFeed.new.segment receiveTime pieces.flatten = .ok g ∧
      f.context = g.context ∧ f.ok = g.ok ∧ f.buffer.content = g.buffer.content := by
  obtain ⟨f, hf, -⟩ := HttpFeed.segments_sat receiveTime HttpFeed.valid_new pieces
  obtain ⟨g, hg, -⟩ := HttpFeed.segment_sat receiveTime HttpFeed.valid_new pieces.flatten
  have hall := HttpFeed.segments_eq receiveTime HttpFeed.valid_new pieces
  have hone := HttpFeed.segment_eq receiveTime HttpFeed.valid_new pieces.flatten
  rw [hf] at hall
  rw [hg] at hone
  -- no segments at all and one empty segment come to the same
  have hsettled : (HttpContext.requestConsumer receiveTime).feed HttpFeed.new.progress []
      = .ok HttpFeed.new.progress := by
    rw [HttpFeed.progress_new]
    exact HttpContext.run_nil receiveTime (.inl rfl)
  have hsame : f.progress = g.progress := by
    rw [Consumer.feedAll_of_settled _ hsettled, hone] at hall
    exact (Except.ok.inj hall).symm
  refine ⟨f, g, hf, hg, congrArg Consumer.Progress.state hsame, ?_,
    congrArg Consumer.Progress.rest hsame⟩
  have hresult := congrArg Consumer.Progress.result hsame
  rw [HttpFeed.progress_result, HttpFeed.progress_result] at hresult
  revert hresult
  cases f.ok <;> cases g.ok <;> simp

end Muduo.Net
