import Muduo.Net.BufferInt
import Muduo.Support.Loop

/-! # `net::ProtobufCodecLite`

The codec of `net/protobuf/ProtobufCodecLite.cpp`. On the wire a message is

```
size      4-byte  M+N+4
tag       M-byte
payload   N-byte
checksum  4-byte  adler32 of tag+payload
```

with the two numbers in network byte order. What the codec uses of the protobuf and zlib libraries is a
parameter, with the laws it relies on (`CodecLibrary`). The lengths the source keeps in an `int` are
natural numbers here; where the source converts the size of a buffer to an `int`, the conversion is
checked. -/

namespace Muduo.Net

open Support

/-- The protobuf messages of one type that have all their required fields, and the checksum. -/
structure CodecLibrary (Msg : Type) where
  byteSize : Msg → Nat
  serialize : Msg → List Byte
  parseFromArray : List Byte → Option Msg
  /-- `adler32`, from a start value. -/
  adler32 : Nat → List Byte → Nat
  length_serialize : ∀ m, (serialize m).length = byteSize m
  parse_serialize : ∀ m, parseFromArray (serialize m) = some m

/-- `ErrorCode`, without `kNoError`. -/
inductive ErrorCode where
  | kInvalidLength
  | kCheckSumError
  | kInvalidNameLen
  | kUnknownMessageType
  | kParseError
  deriving DecidableEq, Repr

/-- The callbacks a codec makes. -/
inductive CodecEvent (Msg : Type) where
  | rawCb (frame : List Byte)
  | messageCallback (message : Msg)
  | errorCallback (errorCode : ErrorCode)

/-- The data members of `ProtobufCodecLite` that decide what it does. -/
structure ProtobufCodecLite (Msg : Type) where
  library : CodecLibrary Msg
  tag : List Byte
  /-- The raw callback, if there is one; it tells whether to go on with a frame. -/
  rawCb : Option (List Byte → Bool)

namespace ProtobufCodecLite

/-- `ProtobufCodecLite::kHeaderLen`. -/
def kHeaderLen : Nat := 4

/-- `ProtobufCodecLite::kChecksumLen`. -/
def kChecksumLen : Nat := 4

/-- `ProtobufCodecLite::kMaxMessageLen`. -/
def kMaxMessageLen : Nat := 64 * 1024 * 1024

variable {Msg : Type} (codec : ProtobufCodecLite Msg)

/-- The smallest length a frame can have. -/
def kMinMessageLen : Nat := codec.tag.length + kChecksumLen

/-- `checksum(buf, len)`; `static_cast<int32_t>` wraps. -/
def checksum (bytes : List Byte) : Int := wrapInt 4 (codec.library.adler32 1 bytes)

/-! ## Sending -/

/-- `serializeToBuffer(message, buf)`; returns the number of bytes it has written. -/
def serializeToBuffer (message : Msg) (buf : Buffer) : Checked (Nat × Buffer) := do
  let byteSize := codec.library.byteSize message
  let buf ← buf.ensureWritableBytes (byteSize + kChecksumLen)
  let bytes := codec.library.serialize message
  let buf := buf.storeAtBeginWrite bytes -- the library writes past the content
  assert (bytes.length = byteSize) "ByteSizeConsistencyError"
  let buf ← buf.hasWritten byteSize
  return (byteSize, buf)

/-- `fillEmptyBuffer(buf, message)`. -/
def fillEmptyBuffer (buf : Buffer) (message : Msg) : Checked Buffer := do
  assert (buf.readableBytes = 0) "buf->readableBytes() == 0"
  let buf ← buf.append codec.tag
  let (byteSize, buf) ← codec.serializeToBuffer message buf
  assert (buf.readableBytes < 2 ^ 31) "static_cast<int>(buf->readableBytes())"
  let checkSum := codec.checksum buf.content
  let buf ← buf.appendInt32 checkSum
  assert (buf.readableBytes = codec.tag.length + byteSize + kChecksumLen)
    "buf->readableBytes() == tag_.size() + byte_size + kChecksumLen"
  buf.prepend (sockets.hostOrder.store 4 (sockets.hostToNetwork32 buf.readableBytes))

/-- `send(conn, message)` for one message after the other: the bytes handed to the connection. -/
def sendAll : List Msg → Checked (List Byte)
  | [] => return []
  | message :: messages => do
      let buf ← Buffer.new Buffer.kInitialSize
      let buf ← codec.fillEmptyBuffer buf message
      let rest ← sendAll messages
      return buf.content ++ rest

/-! ## Receiving -/

/-- `asInt32(buf)`. -/
def asInt32 (buf : List Byte) : Int := sockets.networkToHost32 (sockets.hostOrder.load (buf.take 4))

/-- `validateChecksum(buf, len)`, of the `len` bytes of a frame behind its header. -/
def validateChecksum (buf : List Byte) : Bool :=
  let len := buf.length
  let expectedCheckSum := asInt32 (buf.drop (len - kChecksumLen))
  let checkSum := codec.checksum (buf.take (len - kChecksumLen))
  checkSum = expectedCheckSum

/-- `parse(buf, len, message)`. -/
def parse (buf : List Byte) : Except ErrorCode Msg :=
  if codec.validateChecksum buf then
    if buf.take codec.tag.length = codec.tag then
      let dataLen := buf.length - kChecksumLen - codec.tag.length
      match codec.library.parseFromArray ((buf.drop codec.tag.length).take dataLen) with
      | some message => .ok message
      | none => .error .kParseError
    else .error .kUnknownMessageType
  else .error .kCheckSumError

/-- Call `rawCb_`, if there is one; tells whether to go on with the frame. -/
def callRaw (frame : List Byte) : List (CodecEvent Msg) × Bool :=
  match codec.rawCb with
  | some rawCb => ([.rawCb frame], rawCb frame)
  | none => ([], true)

/-- A receiver: its buffer and the callbacks made so far. -/
structure Receiver (Msg : Type) where
  inputBuffer : ByteQueue
  events : List (CodecEvent Msg)

/-- A turn of the loop in `onMessage`: go on, or leave the loop, possibly with an error. -/
def onMessageTurn : Receiver Msg → Checked (Receiver Msg ⊕ Receiver Msg × Option ErrorCode)
  | ⟨buf, events⟩ =>
      if codec.kMinMessageLen + kHeaderLen ≤ buf.readableBytes then do
        let len ← buf.peekInt32
        if len > kMaxMessageLen ∨ len < codec.kMinMessageLen then
          -- the frame stays in the buffer, here and below: the next segment meets the error again
          return .inr (⟨buf, events ++ [.errorCallback .kInvalidLength]⟩, some .kInvalidLength)
        else if kHeaderLen + len.toNat ≤ buf.readableBytes then
          let frame := buf.peekBytes (kHeaderLen + len.toNat)
          let (raw, goOn) := codec.callRaw frame
          if goOn then
            match codec.parse (frame.drop kHeaderLen) with
            | .ok message => do
                let buf ← buf.retrieve (kHeaderLen + len.toNat)
                return .inl ⟨buf, events ++ raw ++ [.messageCallback message]⟩
            | .error errorCode =>
                return .inr (⟨buf, events ++ raw ++ [.errorCallback errorCode]⟩, some errorCode)
          else do
            -- `rawCb_` has dealt with the frame
            let buf ← buf.retrieve (kHeaderLen + len.toNat)
            return .inl ⟨buf, events ++ raw⟩
        else return .inr (⟨buf, events⟩, none) -- the frame is not complete
      else return .inr (⟨buf, events⟩, none)

/-- `onMessage(conn, buf, receiveTime)`. -/
def onMessage (r : Receiver Msg) : Checked (Receiver Msg) := do
  let (r, _) ← loop codec.onMessageTurn (r.inputBuffer.readableBytes + 1) r
  return r

/-- A segment arrives and is handed to the codec. -/
def receive (r : Receiver Msg) (data : List Byte) : Checked (Receiver Msg) :=
  codec.onMessage { r with inputBuffer := r.inputBuffer.readFd data }

/-- Segments arrive one after the other. -/
def receiveAll (r : Receiver Msg) : List (List Byte) → Checked (Receiver Msg)
  | [] => return r
  | data :: rest => do
      let r ← codec.receive r data
      receiveAll r rest

end ProtobufCodecLite

end Muduo.Net
