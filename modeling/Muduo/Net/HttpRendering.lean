import Muduo.Net.HttpPipeline

/-! # Reading a request back

A request is rendered as text from its parts: the method, the target, the version, and headers with
blanks around their values. `parseRequest_render` says that the parser, called once on a buffer that holds
such a text and anything behind it, finds the parts again and takes the text alone. -/

namespace Muduo.Net

open Support

/-- A header with the blanks around its value. -/
structure HeaderSource where
  name : List Byte
  value : List Byte
  before : List Byte
  after : List Byte
  name_ok : 58 ∉ name ∧ ¬ kCRLF <:+: name
  value_noBreak : ¬ kCRLF <:+: value
  value_trimmed : (∀ b, value.head? = some b → isspace b = false) ∧
    ∀ b, value.getLast? = some b → isspace b = false
  before_blank : ∀ b ∈ before, b = 32 ∨ b = 9
  after_blank : ∀ b ∈ after, b = 32 ∨ b = 9

/-- The parts of a request. -/
structure RequestSource where
  method : HttpRequest.Method
  path : List Byte
  query : List Byte
  version : HttpRequest.Version
  headers : List HeaderSource
  method_known : method ≠ .kInvalid
  version_known : version ≠ .kUnknown
  path_ok : 32 ∉ path ∧ 63 ∉ path ∧ ¬ kCRLF <:+: path
  query_ok : (query = [] ∨ query.head? = some 63) ∧ 32 ∉ query ∧ ¬ kCRLF <:+: query
  names_nodup : (headers.map (·.name)).Nodup

/-- A header line with its end. -/
def HeaderSource.render (h : HeaderSource) : List Byte :=
  h.name ++ 58 :: (h.before ++ (h.value ++ h.after)) ++ kCRLF

/-- The text of a request. -/
def RequestSource.render (r : RequestSource) : List Byte :=
  requestLine r.method r.path r.query r.version ++
    (kCRLF ++ (r.headers.flatMap HeaderSource.render ++ kCRLF))

/-! ## Lines without a break -/

/-- Two texts without a break have none together when the second one does not begin with a line feed. -/
theorem noBreak_append {xs ys : List Byte} (hxs : ¬ kCRLF <:+: xs) (hys : ¬ kCRLF <:+: ys)
    (hhead : ys.head? ≠ some 10) : ¬ kCRLF <:+: xs ++ ys :=
  pair_not_infix_append hxs hys (.inr hhead)

/-- A byte before a text without break. -/
theorem noBreak_cons {b : Byte} {ys : List Byte} (hb : b ≠ 13) (hys : ¬ kCRLF <:+: ys) :
    ¬ kCRLF <:+: b :: ys := by
  have hsingle : ¬ kCRLF <:+: [b] := fun hin => absurd hin.length_le (by simp [kCRLF, ascii])
  refine pair_not_infix_append hsingle hys (.inl ?_)
  rw [List.getLast?_singleton]
  exact fun heq => hb (Option.some.inj heq)

/-- Blanks before a text without break. -/
theorem noBreak_blanks_append {blanks ys : List Byte} (hblank : ∀ b ∈ blanks, b = 32 ∨ b = 9)
    (hys : ¬ kCRLF <:+: ys) : ¬ kCRLF <:+: blanks ++ ys := by
  induction blanks with
  | nil => exact hys
  | cons b blanks ih =>
      refine noBreak_cons ?_ (ih fun b' hb' => hblank b' (List.mem_cons_of_mem _ hb'))
      rintro rfl
      rcases hblank 13 List.mem_cons_self with h | h <;> cases h

namespace HeaderSource

variable (h : HeaderSource)

/-- The blanks behind a value do not begin with a line feed. -/
theorem head_after : h.after.head? ≠ some 10 := by
  intro heq
  rcases h.after_blank 10 (List.mem_of_head? heq) with hb | hb <;> cases hb

/-- A header line has no break. -/
theorem line_noBreak : ¬ kCRLF <:+: h.name ++ 58 :: (h.before ++ (h.value ++ h.after)) := by
  have hafter : ¬ kCRLF <:+: h.after := by
    have hnil : ¬ kCRLF <:+: [] := by simp [kCRLF, ascii]
    have hblanks := noBreak_blanks_append h.after_blank hnil
    rwa [List.append_nil] at hblanks
  have hvalue : ¬ kCRLF <:+: h.value ++ h.after := noBreak_append h.value_noBreak hafter h.head_after
  refine noBreak_append h.name_ok.2 (noBreak_cons (by decide) ?_) (by simp)
  exact noBreak_blanks_append h.before_blank hvalue

/-- The header line, as the parser sees it. -/
def toText : HttpHeaderText where
  field := h.name
  text := h.before ++ (h.value ++ h.after)
  field_noColon := h.name_ok.1
  line_noBreak := h.line_noBreak

/-- A blank is a space of the C locale. -/
theorem isspace_of_blank {b : Byte} (hb : b = 32 ∨ b = 9) : isspace b = true := by
  rcases hb with rfl | rfl <;> decide

/-- The value is found again between its blanks. -/
theorem trim_text : (h.toText.text.dropWhile isspace).rdropWhile isspace = h.value := by
  have hbefore : ∀ b ∈ h.before, isspace b = true := fun b hb => isspace_of_blank (h.before_blank b hb)
  have hafter : ∀ b ∈ h.after, isspace b = true := fun b hb => isspace_of_blank (h.after_blank b hb)
  show ((h.before ++ (h.value ++ h.after)).dropWhile isspace).rdropWhile isspace = h.value
  rw [List.dropWhile_append_of_pos hbefore]
  rcases hvalue : h.value with - | ⟨v, vs⟩
  · -- an empty value leaves blanks only
    rw [List.nil_append, List.dropWhile_eq_nil_iff.mpr hafter, List.rdropWhile_nil]
  · have hhead : ¬ isspace v = true := by
      rw [h.value_trimmed.1 v (by rw [hvalue]; rfl)]
      exact Bool.false_ne_true
    have hlast : (v :: vs).rdropWhile isspace = v :: vs := by
      rw [List.rdropWhile_eq_self_iff]
      intro hne
      rw [h.value_trimmed.2 _ (by rw [hvalue]; exact List.getLast?_eq_some_getLast hne)]
      exact Bool.false_ne_true
    have hreverse : ∀ b ∈ h.after.reverse, isspace b = true := fun b hb => hafter b (by simpa using hb)
    rw [List.cons_append, List.dropWhile_cons_of_neg hhead, ← List.cons_append, List.rdropWhile,
      List.reverse_append, List.dropWhile_append_of_pos hreverse]
    exact hlast

end HeaderSource

namespace RequestSource

variable (r : RequestSource)

/-- The target, the version and the spaces around it have no break. -/
theorem line_noBreak : ¬ kCRLF <:+: requestLine r.method r.path r.query r.version := by
  have hmethod : ¬ kCRLF <:+: r.method.name := by cases r.method <;> decide
  have hversion : ¬ kCRLF <:+: r.version.text := by cases r.version <;> decide
  have htarget : ¬ kCRLF <:+: r.path ++ r.query := by
    refine noBreak_append r.path_ok.2.2 r.query_ok.2.2 ?_
    rcases r.query_ok.1 with hquery | hquery <;> simp [hquery]
  refine noBreak_append hmethod (noBreak_cons (by decide) ?_) (by simp)
  exact noBreak_append htarget (noBreak_cons (by decide) hversion) (by simp)

/-- The request, as the parser sees it. -/
def toText : HttpRequestText where
  method := r.method
  path := r.path
  query := r.query
  version := r.version
  headers := r.headers.map HeaderSource.toText
  method_known := r.method_known
  version_known := r.version_known
  path_ok := ⟨r.path_ok.1, r.path_ok.2.1⟩
  query_ok := ⟨r.query_ok.2.1, r.query_ok.1⟩
  line_noBreak := r.line_noBreak

/-- The text has the bytes of the rendering. -/
theorem bytes_toText : r.toText.bytes = r.render := by
  have hheaders : ∀ hs : List HeaderSource,
      (hs.map HeaderSource.toText).flatMap (fun h => h.line ++ kCRLF)
        = hs.flatMap HeaderSource.render := by
    intro hs
    rw [List.flatMap_map]
    rfl
  show requestLine r.method r.path r.query r.version ++
    (kCRLF ++ ((r.headers.map HeaderSource.toText).flatMap (fun h => h.line ++ kCRLF) ++ kCRLF)) = _
  rw [hheaders]
  rfl

end RequestSource

/-! ## The header map -/

namespace HttpRequest

/-- Adding headers changes the map only. -/
theorem foldl_addHeader_eq (hs : List HttpHeaderText) (req : HttpRequest) :
    ∃ headers, hs.foldl (fun req h => req.addHeader h.field h.text) req = { req with headers } := by
  induction hs generalizing req with
  | nil => exact ⟨req.headers, rfl⟩
  | cons h hs ih => exact ih (req.addHeader h.field h.text)

/-- Headers with different names are all found in the map, besides what was there. -/
theorem lookup_foldl_addHeader (hs : List HeaderSource) (hnodup : (hs.map (·.name)).Nodup)
    (req : HttpRequest) (field : List Byte) :
    ((hs.map HeaderSource.toText).foldl (fun req h => req.addHeader h.field h.text) req).headers.lookup
        field
      = ((hs.find? (·.name = field)).map (·.value)).or (req.headers.lookup field) := by
  induction hs generalizing req with
  | nil => rfl
  | cons h hs ih =>
      obtain ⟨hfirst, hrest⟩ := List.nodup_cons.mp hnodup
      rw [List.map_cons, List.foldl_cons, ih hrest]
      have hinsert : (req.addHeader h.toText.field h.toText.text).headers
          = req.headers.insert h.name h.value := by
        rw [HttpRequest.addHeader, h.trim_text]
        rfl
      rw [hinsert]
      by_cases hfield : h.name = field
      · -- no later header has this name
        have hnone : hs.find? (·.name = field) = none := by
          rw [List.find?_eq_none]
          intro h' hmem hname
          rw [decide_eq_true_eq] at hname
          exact hfirst (List.mem_map.mpr ⟨h', hmem, hname.trans hfield.symm⟩)
        rw [hnone, List.find?_cons_of_pos (by simpa using hfield), ← hfield, Finmap.lookup_insert]
        rfl
      · rw [List.find?_cons_of_neg (by simpa using hfield),
          Finmap.lookup_insert_of_ne _ (Ne.symm hfield)]

end HttpRequest

/-! ## The parser -/

/-- The parser reads a rendered request and leaves what comes behind it, whatever the time. -/
theorem HttpContext.run_render (receiveTime : Int) (r : RequestSource) (rest : List Byte) :
    ∃ c : HttpContext, (requestConsumer receiveTime).run new (r.render ++ rest)
        = .ok ⟨c, rest, some true⟩ ∧ c.untimed = ⟨.kGotAll, r.toText.request⟩ := by
  have hrun := r.toText.frame.run_append rest
  have huntimed := run_untimed receiveTime new (r.render ++ rest)
  have hdata : r.toText.frame.data = r.render := r.bytes_toText
  have hnew : new.untimed = new := rfl
  rw [hdata] at hrun
  rw [hnew, hrun] at huntimed
  cases htimed : (requestConsumer receiveTime).run new (r.render ++ rest) with
  | error e =>
      rw [htimed] at huntimed
      cases huntimed
  | ok p =>
      rw [htimed] at huntimed
      obtain ⟨c, rest', result⟩ := p
      injection huntimed with hp
      injection hp with hc hrest hresult
      refine ⟨c, ?_, hc.symm⟩
      dsimp only at hrest hresult
      rw [hrest, ← hresult]
      rfl

/-- **Parsing inverts rendering.** Called once on a buffer that was empty and holds the text of a request
and anything behind it, a new parser returns true with the whole request: its method, version, path, query
and headers are the ones that were rendered, and what came behind the text is left in the buffer. -/
theorem parseRequest_render (r : RequestSource) (rest : List Byte) (receiveTime : Int)
    (buf : ByteQueue) (hbuf : buf.content = []) :
    ∃ c buf', HttpContext.new.parseRequest (buf.append (r.render ++ rest)) receiveTime
        = .ok (true, c, buf') ∧
      c.gotAll = true ∧ c.request.method = r.method ∧ c.request.version = r.version ∧
      c.request.path = r.path ∧ c.request.query = r.query ∧
      (∀ field, c.request.headers.lookup field
        = (r.headers.find? (·.name = field)).map (·.value)) ∧
      buf'.content = rest := by
  obtain ⟨c, hrun, hc⟩ := HttpContext.run_render receiveTime r rest
  have hcontent : (buf.append (r.render ++ rest)).content = r.render ++ rest := by
    rw [ByteQueue.content_append, hbuf, List.nil_append]
  have hparse := HttpContext.parseRequest_eq receiveTime HttpContext.fresh_new.ready
    (buf.append (r.render ++ rest))
  rw [hcontent, hrun] at hparse
  cases hcall : HttpContext.new.parseRequest (buf.append (r.render ++ rest)) receiveTime with
  | error e =>
      rw [hcall] at hparse
      cases hparse
  | ok p =>
      obtain ⟨ok, c', buf'⟩ := p
      rw [hcall] at hparse
      injection hparse with hp
      injection hp with hstate hrest hresult
      subst hstate
      have hgot : c.state = .kGotAll := congrArg HttpContext.state hc
      have hgotAll : c.gotAll = true := by simp [HttpContext.gotAll, hgot]
      rw [if_neg fun hand => hand.2 hgotAll] at hresult
      have hrequest : c.request.untimed = r.toText.request := congrArg HttpContext.request hc
      obtain ⟨headers, hfields⟩ := HttpRequest.foldl_addHeader_eq r.toText.headers
        { HttpRequest.new with
          method := r.method, path := r.path, query := r.query, version := r.version }
      have hparts : c.request.untimed = _ := hrequest.trans hfields
      refine ⟨c, buf', by rw [← Option.some.inj hresult], hgotAll, ?_, ?_, ?_, ?_, fun field => ?_,
        hrest.symm⟩
      · exact congrArg HttpRequest.method hparts
      · exact congrArg HttpRequest.version hparts
      · exact congrArg HttpRequest.path hparts
      · exact congrArg HttpRequest.query hparts
      · have hheaders : c.request.untimed.headers = r.toText.request.headers := by rw [hrequest]
        show c.request.untimed.headers.lookup field = _
        rw [hheaders]
        refine (HttpRequest.lookup_foldl_addHeader r.headers r.names_nodup _ field).trans ?_
        exact Option.or_none

/-- A request with a header that has two blanks before its value, with a byte of the next request
behind it. -/
theorem parseRequest_render_header :
    ∃ c buf', HttpContext.new.parseRequest
        (ByteQueue.new.append (ascii "GET /a?b HTTP/1.1\r\nHost: \tx\r\n\r\nP".toList)) 0
        = .ok (true, c, buf') ∧
      c.request.query = ascii "?b".toList ∧
      c.request.headers.lookup (ascii "Host".toList) = some (ascii "x".toList) ∧
      buf'.content = ascii "P".toList := by
  have hblank : ∀ b ∈ ascii " \t".toList, b = 32 ∨ b = 9 := by
    have htext : ascii " \t".toList = [32, 9] := rfl
    intro b hb
    rw [htext] at hb
    simpa using hb
  let header : HeaderSource :=
    { name := ascii "Host".toList, value := ascii "x".toList, before := ascii " \t".toList, after := []
      name_ok := by decide
      value_noBreak := by decide
      value_trimmed := ⟨by rintro b ⟨⟩; decide, by rintro b ⟨⟩; decide⟩
      before_blank := hblank
      after_blank := nofun }
  let source : RequestSource :=
    { method := .kGet, path := ascii "/a".toList, query := ascii "?b".toList, version := .kHttp11
      headers := [header]
      method_known := nofun
      version_known := nofun
      path_ok := by decide
      query_ok := by decide
      names_nodup := List.nodup_singleton _ }
  obtain ⟨c, buf', hparse, -, -, -, -, hquery, hheaders, hrest⟩ :=
    parseRequest_render source (ascii "P".toList) 0 ByteQueue.new ByteQueue.content_new
  exact ⟨c, buf', hparse, hquery, hheaders _, hrest⟩

end Muduo.Net
