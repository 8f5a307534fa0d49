import Muduo.Net.HttpServer
import Muduo.Support.Decimal
import Muduo.Support.Lines

/-! # Responses on a connection that stays open

`HttpResponse::appendToBuffer` of `net/http/HttpResponse.cpp`, for the peer that has to find where each
response ends. A response of a connection that stays open is a block of lines, the second of which gives the
length of the body, an empty line and the body (`content_appendToBuffer`). The peer looks for the first empty
line and reads the length (`takeResponse`), so whatever the bodies hold, it takes one response after the
other (`takeResponses_content`). -/

namespace Muduo.Net

open Support

/-! ## The peer -/

/-- The field before the length. -/
def contentLengthField : List Byte := ascii "Content-Length: ".toList

/-- The value of the first line that begins with `Content-Length: `. -/
def contentLength (head : List Byte) : Option Nat := do
  let line ← (splitLines 13 10 head).find? (contentLengthField.isPrefixOf ·)
  readDecimal (line.drop contentLengthField.length)

/-- The body of the first response, and what is behind it. -/
def takeResponse (stream : List Byte) : Option (List Byte × List Byte) := do
  let i ← search (kCRLF ++ kCRLF) stream
  let n ← contentLength (stream.take i)
  let rest := stream.drop (i + 4)
  if n ≤ rest.length then some (rest.take n, rest.drop n) else none

/-- The bodies of the responses of which the stream consists. -/
def takeResponses (stream : List Byte) : Option (List (List Byte)) :=
  if stream = [] then some []
  else
    match takeResponse stream with
    | none => none
    | some (body, rest) =>
        -- the empty line has been taken, so something is gone
        if rest.length < stream.length then (takeResponses rest).map (body :: ·) else none
termination_by stream.length
decreasing_by assumption

/-! ## The response -/

namespace HttpResponse

/-- A text that fits is not cut. -/
theorem snprintf_eq {before after : List Char} {n : Nat}
    (h : before.length + (decimal n).length + after.length < 32) :
    snprintf before n after = ascii before ++ (decimal n ++ ascii after) := by
  have hlen : (before ++ Nat.toDigits 10 n ++ after).length ≤ 31 := by
    rw [decimal, List.length_map] at h
    rw [List.length_append, List.length_append]
    omega
  rw [snprintf, List.take_of_length_le hlen, ascii, List.map_append, List.map_append, List.append_assoc]
  rfl

/-- The line of a header field. -/
def headerLine (header : List Byte × List Byte) : List Byte :=
  header.1 ++ (ascii ": ".toList ++ header.2)

variable (r : HttpResponse)

/-- The first line of the response. -/
def statusLine : List Byte :=
  ascii "HTTP/1.1 ".toList ++ (decimal r.statusCode.toNat ++ (ascii " ".toList ++ r.statusMessage))

/-- The lines behind the status line, on a connection that stays open. -/
def fieldLines : List (List Byte) :=
  (contentLengthField ++ decimal r.body.length) :: ascii "Connection: Keep-Alive".toList
    :: r.headers.map headerLine

/-- The header lines, one after the other. -/
theorem content_headers (headers : List (List Byte × List Byte)) (output : ByteQueue) :
    (headers.foldl (fun output header =>
      (((output.append header.1).append (ascii ": ".toList)).append header.2).append kCRLF)
        output).content = output.content ++ joinLines kCRLF (headers.map headerLine) := by
  induction headers generalizing output with
  | nil => simp
  | cons header headers ih =>
      rw [List.foldl_cons, ih]
      simp [headerLine]

/-- What the peer gets of a response on a connection that stays open. -/
theorem content_appendToBuffer (hopen : r.closeConnection = false) (hbody : r.body.length < 2 ^ 31)
    (output : ByteQueue) : (r.appendToBuffer output).content
      = output.content ++ (unlines kCRLF r.statusLine r.fieldLines ++ (kCRLF ++ kCRLF) ++ r.body) := by
  have hstatus : (decimal r.statusCode.toNat).length ≤ 3 := by cases r.statusCode <;> decide
  have hlength : (decimal r.body.length).length ≤ 10 :=
    (length_decimal_le_iff (by decide)).mpr (hbody.trans (by decide))
  have hline : snprintf "HTTP/1.1 ".toList r.statusCode.toNat " ".toList
      = ascii "HTTP/1.1 ".toList ++ (decimal r.statusCode.toNat ++ ascii " ".toList) := by
    refine snprintf_eq ?_
    have hfixed : "HTTP/1.1 ".toList.length = 9 ∧ " ".toList.length = 1 := by decide
    omega
  have hlines : r.connectionLines = joinLines kCRLF [contentLengthField ++ decimal r.body.length,
      ascii "Connection: Keep-Alive".toList] := by
    have hfixed : "Content-Length: ".toList.length = 16 ∧ "\r\n".toList.length = 2 := by decide
    have hkeep : ascii "Connection: Keep-Alive\r\n".toList
      = ascii "Connection: Keep-Alive".toList ++ kCRLF := rfl
    have hcrlf : ascii "\r\n".toList = kCRLF := rfl
    rw [connectionLines, hopen, if_neg Bool.false_ne_true, snprintf_eq (by omega), hkeep, hcrlf]
    simp [contentLengthField]
  rw [← List.append_assoc (unlines _ _ _), unlines_append, appendToBuffer, hline, hlines]
  simp only [ByteQueue.content_append, content_headers]
  simp [fieldLines, statusLine]

/-- The response can be told from what comes behind it: the connection stays open, and no string that is
part of a line has a break. -/
structure Delimited : Prop where
  stays : r.closeConnection = false
  statusMessage : ∀ b ∈ r.statusMessage, b ≠ 13 ∧ b ≠ 10
  headers : ∀ header ∈ r.headers, (∀ b ∈ header.1, b ≠ 13 ∧ b ≠ 10) ∧ ∀ b ∈ header.2, b ≠ 13 ∧ b ≠ 10
  body : r.body.length < 2 ^ 31

variable {r}

/-- A number has no carriage return. -/
theorem cr_not_mem_decimal (n : Nat) : 13 ∉ decimal n := fun h =>
  absurd (digit_of_mem_decimal h).1 (by decide)

namespace Delimited

/-- The status line of a delimited response has no carriage return. -/
theorem cr_not_mem_statusLine (h : r.Delimited) : 13 ∉ r.statusLine := by
  have hversion : 13 ∉ ascii "HTTP/1.1 ".toList := by decide
  have hblank : 13 ∉ ascii " ".toList := by decide
  have hmessage : 13 ∉ r.statusMessage := fun hb => (h.statusMessage 13 hb).1 rfl
  simp only [statusLine, List.mem_append, not_or]
  exact ⟨hversion, cr_not_mem_decimal _, hblank, hmessage⟩

/-- The fields of a delimited response have no carriage return. -/
theorem cr_not_mem_fieldLines (h : r.Delimited) : ∀ l ∈ r.fieldLines, 13 ∉ l ∧ l ≠ [] := by
  have hfield : 13 ∉ contentLengthField := by decide
  have hkeep : 13 ∉ ascii "Connection: Keep-Alive".toList := by decide
  have hcolon : 13 ∉ ascii ": ".toList := by decide
  intro l hl
  rw [fieldLines, List.mem_cons, List.mem_cons] at hl
  rcases hl with rfl | rfl | hl
  · refine ⟨?_, List.cons_ne_nil _ _⟩
    rw [List.mem_append, not_or]
    exact ⟨hfield, cr_not_mem_decimal _⟩
  · exact ⟨hkeep, List.cons_ne_nil _ _⟩
  · obtain ⟨header, hheader, rfl⟩ := List.mem_map.mp hl
    obtain ⟨hname, hvalue⟩ := h.headers header hheader
    constructor
    · simp only [headerLine, List.mem_append, not_or]
      exact ⟨fun hb => (hname 13 hb).1 rfl, hcolon, fun hb => (hvalue 13 hb).1 rfl⟩
    · rw [headerLine]
      exact List.append_ne_nil_of_right_ne_nil _ (List.cons_ne_nil _ _)

/-- The length is read from the second line, whatever the header fields are. -/
theorem contentLength_head (h : r.Delimited) :
    contentLength (unlines kCRLF r.statusLine r.fieldLines) = some r.body.length := by
  have hsplit : splitLines 13 10 (unlines kCRLF r.statusLine r.fieldLines)
      = r.statusLine :: r.fieldLines :=
    splitLines_unlines h.cr_not_mem_statusLine fun l hl => (h.cr_not_mem_fieldLines l hl).1
  have hstatus : contentLengthField.isPrefixOf r.statusLine = false := rfl
  have hfield : contentLengthField.isPrefixOf (contentLengthField ++ decimal r.body.length) = true :=
    List.isPrefixOf_iff_prefix.mpr (List.prefix_append _ _)
  rw [contentLength, hsplit, List.find?_cons_of_neg (by rw [hstatus]; exact Bool.false_ne_true), fieldLines,
    List.find?_cons_of_pos hfield]
  change readDecimal _ = _
  rw [List.drop_left, readDecimal_decimal]

/-- The peer takes a response, whatever comes behind it. -/
theorem takeResponse_append (h : r.Delimited) (rest : List Byte) :
    takeResponse ((r.appendToBuffer ByteQueue.new).content ++ rest) = some (r.body, rest) := by
  obtain ⟨head, hhead⟩ : ∃ head, unlines kCRLF r.statusLine r.fieldLines = head := ⟨_, rfl⟩
  have hline : IsLine (kCRLF ++ kCRLF) head := by
    rw [← hhead]
    exact isLine_unlines (by decide) h.cr_not_mem_statusLine h.cr_not_mem_fieldLines
  have hlength := h.contentLength_head
  have hstream : (r.appendToBuffer ByteQueue.new).content ++ rest
      = head ++ (kCRLF ++ kCRLF) ++ (r.body ++ rest) := by
    rw [r.content_appendToBuffer h.stays h.body, ByteQueue.content_new, List.nil_append, hhead,
      List.append_assoc]
  have htake : (head ++ (kCRLF ++ kCRLF) ++ (r.body ++ rest)).take head.length = head := by
    rw [List.append_assoc, List.take_left]
  have hdrop : (head ++ (kCRLF ++ kCRLF) ++ (r.body ++ rest)).drop (head.length + 4) = r.body ++ rest :=
    List.drop_left' List.length_append
  rw [hhead] at hlength
  rw [takeResponse, hstream, hline.search, Option.bind_eq_bind, Option.bind_some, htake, hlength,
    Option.bind_some, hdrop]
  simp

/-- Some bytes of a response are always taken. -/
theorem content_ne_nil (h : r.Delimited) : (r.appendToBuffer ByteQueue.new).content ≠ [] := by
  intro hnil
  have htake := h.takeResponse_append []
  rw [hnil] at htake
  cases htake

end Delimited

/-- **The peer finds every response.** The responses to the requests on a connection that stays open are
taken one after the other from what was sent, and nothing is left. -/
theorem takeResponses_content {responses : List HttpResponse} (h : ∀ r ∈ responses, r.Delimited) :
    takeResponses (responses.flatMap fun r => (r.appendToBuffer ByteQueue.new).content)
      = some (responses.map (·.body)) := by
  induction responses with
  | nil =>
      rw [takeResponses]
      rfl
  | cons r responses ih =>
      rw [List.forall_mem_cons] at h
      have hne := h.1.content_ne_nil
      have hlt : (responses.flatMap fun r => (r.appendToBuffer ByteQueue.new).content).length
          < ((r.appendToBuffer ByteQueue.new).content
            ++ responses.flatMap fun r => (r.appendToBuffer ByteQueue.new).content).length := by
        rw [List.length_append]
        have := List.length_pos_iff.mpr hne
        omega
      rw [List.flatMap_cons, takeResponses, if_neg (by simp [hne]), h.1.takeResponse_append]
      simp only
      rw [if_pos hlt, ih h.2]
      rfl

/-- An empty body, and one that looks like the end of a head. -/
theorem takeResponses_content_two :
    takeResponses ([{ HttpResponse.new false with statusCode := .k200Ok },
        { HttpResponse.new false with statusCode := .k404NotFound, body := kCRLF ++ kCRLF }].flatMap
          fun r => (r.appendToBuffer ByteQueue.new).content)
      = some [[], kCRLF ++ kCRLF] :=
  have hnone : ∀ b ∈ ([] : List Byte), b ≠ 13 ∧ b ≠ 10 := fun b hb => absurd hb List.not_mem_nil
  have hheaders : ∀ header ∈ ([] : List (List Byte × List Byte)),
      (∀ b ∈ header.1, b ≠ 13 ∧ b ≠ 10) ∧ ∀ b ∈ header.2, b ≠ 13 ∧ b ≠ 10 :=
    fun header hheader => absurd hheader List.not_mem_nil
  takeResponses_content (List.forall_mem_cons.mpr ⟨⟨rfl, hnone, hheaders, by decide⟩,
    List.forall_mem_singleton.mpr ⟨rfl, hnone, hheaders, by decide⟩⟩)

end HttpResponse

end Muduo.Net
