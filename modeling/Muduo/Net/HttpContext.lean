import Muduo.Net.ByteQueue
import Muduo.Support.Loop
import Muduo.Support.Search
import Mathlib.Data.Finmap
import Mathlib.Data.List.DropRight

/-! # `net::HttpContext`

The HTTP request parser of `net/http/HttpContext.cpp` and the request it fills in, `net/http/HttpRequest.h`.
Strings are lists of bytes, and a range `[start, end)` of the source is the list of its bytes. The
`while` loop of `parseRequest` is a `loop` whose turns are `parseTurn`; its bound is one more than the
bytes that are there, which is enough because every turn that goes on takes a line from the buffer. In
the states `kExpectBody` and `kGotAll` the source loops for ever, and so does the model. -/

namespace Muduo.Net

open Support

/-- The bytes of a text in ASCII. -/
def ascii (text : List Char) : List Byte := text.map fun c => c.toNat.toUInt8

/-- `Buffer::kCRLF`. -/
def kCRLF : List Byte := ascii ['\r', '\n']

/-- `isspace`, in the `C` locale. -/
def isspace (b : Byte) : Bool := b = 32 ∨ 9 ≤ b ∧ b ≤ 13

namespace ByteQueue

/-- `findCRLF()`, as an offset from `peek()`. -/
def findCRLF (q : ByteQueue) : Option Nat := search kCRLF q.content

end ByteQueue

/-! ## The request -/

/-- `HttpRequest::Method`. -/
inductive HttpRequest.Method where
  | kInvalid
  | kGet
  | kPost
  | kHead
  | kPut
  | kDelete
  deriving DecidableEq, Repr

/-- `HttpRequest::Version`. -/
inductive HttpRequest.Version where
  | kUnknown
  | kHttp10
  | kHttp11
  deriving DecidableEq, Repr

/-- `HttpRequest`; `headers_` is a map from field names to values. -/
structure HttpRequest where
  method : HttpRequest.Method
  version : HttpRequest.Version
  path : List Byte
  query : List Byte
  receiveTime : Int
  headers : Finmap fun _ : List Byte => List Byte

namespace HttpRequest

/-- The constructor. -/
def new : HttpRequest :=
  { method := .kInvalid
    version := .kUnknown
    path := []
    query := []
    receiveTime := 0
    headers := ∅ }

/-- The method with the name `m`. -/
def Method.ofName (m : List Byte) : Method :=
  if m = ascii ['G', 'E', 'T'] then .kGet
  else if m = ascii ['P', 'O', 'S', 'T'] then .kPost
  else if m = ascii ['H', 'E', 'A', 'D'] then .kHead
  else if m = ascii ['P', 'U', 'T'] then .kPut
  else if m = ascii ['D', 'E', 'L', 'E', 'T', 'E'] then .kDelete
  else .kInvalid

variable (r : HttpRequest)

/-- `setMethod(start, end)`; tells whether the method is known. -/
def setMethod (m : List Byte) : Checked (HttpRequest × Bool) := do
  assert (r.method = .kInvalid) "method_ == kInvalid"
  let method := Method.ofName m
  -- the member is written whether or not the caller goes on to accept the line
  return ({ r with method }, method ≠ .kInvalid)

/-- `addHeader(start, colon, end)`, of the line that `colon` cuts into `field` and `rest`. -/
def addHeader (field rest : List Byte) : HttpRequest :=
  let value := (rest.dropWhile isspace).rdropWhile isspace
  { r with headers := r.headers.insert field value }

/-- `HttpRequest::getHeader`: the empty string for a field that is absent. -/
def getHeader (field : List Byte) : List Byte := (r.headers.lookup field).getD []

end HttpRequest

/-! ## The parser -/

/-- `HttpContext::HttpRequestParseState`. -/
inductive HttpContext.HttpRequestParseState where
  | kExpectRequestLine
  | kExpectHeaders
  | kExpectBody
  | kGotAll
  deriving DecidableEq, Repr

/-- `HttpContext`. -/
structure HttpContext where
  state : HttpContext.HttpRequestParseState
  request : HttpRequest

namespace HttpContext

/-- The constructor. -/
def new : HttpContext := { state := .kExpectRequestLine, request := HttpRequest.new }

variable (c : HttpContext)

/-- `HttpContext::gotAll`. -/
def gotAll : Bool := c.state = .kGotAll

/-- `reset()`: nothing of the former request is kept. -/
def reset (_ : HttpContext) : HttpContext :=
  { state := .kExpectRequestLine, request := HttpRequest.new }

/-- The last part of a request line, `HTTP/1.0` or `HTTP/1.1`. -/
def processVersion (r : HttpRequest) (version : List Byte) : HttpRequest × Bool :=
  if version.length = 8 ∧ version.take 7 = ascii ['H', 'T', 'T', 'P', '/', '1', '.'] then
    if version.drop 7 = ascii ['1'] then ({ r with version := .kHttp11 }, true)
    else if version.drop 7 = ascii ['0'] then ({ r with version := .kHttp10 }, true)
    else (r, false)
  else (r, false)

/-- The middle part of a request line, the path and, from the question mark on, the query. -/
def processTarget (r : HttpRequest) (target : List Byte) : HttpRequest :=
  let path := target.takeWhile (· ≠ 63)
  let query := target.dropWhile (· ≠ 63)
  if query ≠ [] then { r with path, query }
  else { r with path } -- without a question mark `query_` keeps what it had

/-- `processRequestLine(begin, end)`; tells whether the line is a request line. -/
def processRequestLine (line : List Byte) : Checked (HttpRequest × Bool) :=
  -- `std::find(start, end, ' ')` cuts a word off
  match line.dropWhile (· ≠ 32) with
  | [] => return (c.request, false)
  | _ :: start => do
      let (request, known) ← c.request.setMethod (line.takeWhile (· ≠ 32))
      if known then
        match start.dropWhile (· ≠ 32) with
        | [] => return (request, false)
        | _ :: version => return processVersion (processTarget request (start.takeWhile (· ≠ 32))) version
      else return (request, false)

/-- What `parseRequest` works on. -/
abbrev Parse := HttpContext × ByteQueue

/-- A turn of the loop in `parseRequest`: go on, or return `ok`. -/
def parseTurn (receiveTime : Int) : Parse → Checked (Parse ⊕ Bool × Parse)
  | (c, buf) =>
      match c.state with
      | .kExpectRequestLine =>
          match buf.findCRLF with
          | some crlf => do
              let (request, ok) ← c.processRequestLine (buf.peekBytes crlf)
              if ok then
                let buf ← buf.retrieveUntil (crlf + 2)
                return .inl ({ state := .kExpectHeaders, request := { request with receiveTime } }, buf)
              else
                -- the line stays in the buffer
                return .inr (false, { c with request }, buf)
          | none => return .inr (true, c, buf)
      | .kExpectHeaders =>
          match buf.findCRLF with
          | some crlf => do
              let line := buf.peekBytes crlf
              match line.dropWhile (· ≠ 58) with
              | _ :: rest => do
                  let request := c.request.addHeader (line.takeWhile (· ≠ 58)) rest
                  let buf ← buf.retrieveUntil (crlf + 2)
                  return .inl ({ c with request }, buf)
              | [] => do
                  -- a line without a colon, which need not be empty, ends the header
                  let buf ← buf.retrieveUntil (crlf + 2)
                  return .inr (true, { c with state := .kGotAll }, buf)
          | none => return .inr (true, c, buf)
      | .kExpectBody | .kGotAll => return .inl (c, buf) -- no branch of the source sets `hasMore`

/-- `parseRequest(buf, receiveTime)`. -/
def parseRequest (buf : ByteQueue) (receiveTime : Int) : Checked (Bool × Parse) :=
  loop (parseTurn receiveTime) (buf.readableBytes + 1) (c, buf)

end HttpContext

end Muduo.Net
