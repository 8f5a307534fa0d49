import Muduo.Support.Checked
import Muduo.Support.Memory
import Mathlib.Algebra.Order.Ring.Nat

/-! # `net::Buffer`

The byte buffer of `net/Buffer.h` and `net/Buffer.cpp`: a vector with a reader and a writer index.

```
+-------------------+------------------+------------------+
| prependable bytes |  readable bytes  |  writable bytes  |
|                   |     (CONTENT)    |                  |
+-------------------+------------------+------------------+
0      <=      readerIndex   <=   writerIndex    <=     size
```

Every `assert` of the source is an assertion of the model under its own text. Pointers into the
vector are indices into it, and `size_t` is `Nat`: the sums below are the ones the code computes as
long as none of them reaches `2 ^ 64`. The one narrowing conversion of the class, the `int` length of
`toStringPiece`, is kept. -/

namespace Muduo.Net

open Support

/-- A byte (`char` of the source). -/
abbrev Byte := UInt8

/-- The data members of `Buffer`. -/
structure Buffer where
  buffer : List Byte
  readerIndex : Nat
  writerIndex : Nat
  deriving DecidableEq, Repr

namespace Buffer

/-- The bytes kept free in front of the content. -/
def kCheapPrepend : Nat := 8

/-- The initial data space. -/
def kInitialSize : Nat := 1024

/-- The size of the stack buffer `extrabuf` of `readFd`. -/
def kExtrabufSize : Nat := 65536

variable (b : Buffer)

/-- `Buffer::readableBytes`. -/
def readableBytes : Nat := b.writerIndex - b.readerIndex

/-- `Buffer::writableBytes`. -/
def writableBytes : Nat := b.buffer.length - b.writerIndex

/-- `Buffer::prependableBytes`. -/
def prependableBytes : Nat := b.readerIndex

/-- The index of the first readable byte. -/
def peek : Nat := b.readerIndex

/-- The index one past the last readable byte. -/
def beginWrite : Nat := b.writerIndex

/-- The readable bytes. -/
def content : List Byte := slice b.buffer b.peek b.beginWrite

/-- `Buffer(initialSize)`. -/
def new (initialSize : Nat) : Checked Buffer := do
  let b : Buffer :=
    { buffer := List.replicate (kCheapPrepend + initialSize) 0
      readerIndex := kCheapPrepend
      writerIndex := kCheapPrepend }
  assert (b.readableBytes = 0) "readableBytes() == 0"
  assert (b.writableBytes = initialSize) "writableBytes() == initialSize"
  assert (b.prependableBytes = kCheapPrepend) "prependableBytes() == kCheapPrepend"
  return b

/-- Drop the whole content. -/
def retrieveAll : Buffer :=
  { b with readerIndex := kCheapPrepend, writerIndex := kCheapPrepend }

/-- Drop the first `len` readable bytes. -/
def retrieve (len : Nat) : Checked Buffer := do
  assert (len ≤ b.readableBytes) "len <= readableBytes()"
  if len < b.readableBytes then
    return { b with readerIndex := b.readerIndex + len }
  else
    -- an emptied buffer starts again behind the reserved bytes
    return b.retrieveAll

/-- Drop the readable bytes before the position `last`. -/
def retrieveUntil (last : Nat) : Checked Buffer := do
  assert (b.peek ≤ last) "peek() <= end"
  assert (last ≤ b.beginWrite) "end <= beginWrite()"
  b.retrieve (last - b.peek)

/-- Take the first `len` readable bytes out as a string. -/
def retrieveAsString (len : Nat) : Checked (List Byte × Buffer) := do
  assert (len ≤ b.readableBytes) "len <= readableBytes()"
  let result := slice b.buffer b.peek (b.peek + len)
  let b' ← b.retrieve len
  return (result, b')

/-- Take the whole content out as a string. -/
def retrieveAllAsString : Checked (List Byte × Buffer) := b.retrieveAsString b.readableBytes

/-- Make room for `len` more bytes: grow the vector, or move the content down to `kCheapPrepend`. -/
def makeSpace (len : Nat) : Checked Buffer := do
  if b.writableBytes + b.prependableBytes < len + kCheapPrepend then
    -- even with the bytes in front there is not enough room
    return { b with buffer := resize b.buffer (b.writerIndex + len) 0 }
  else
    -- move the readable bytes to the front
    assert (kCheapPrepend < b.readerIndex) "kCheapPrepend < readerIndex_"
    let readable := b.readableBytes
    let b' : Buffer :=
      { buffer := overwrite b.buffer kCheapPrepend (slice b.buffer b.readerIndex b.writerIndex)
        readerIndex := kCheapPrepend
        writerIndex := kCheapPrepend + readable }
    assert (readable = b'.readableBytes) "readable == readableBytes()"
    return b'

/-- Make sure that `len` bytes can be written. -/
def ensureWritableBytes (len : Nat) : Checked Buffer := do
  let b' ← if b.writableBytes < len then b.makeSpace len else pure b
  assert (b'.writableBytes ≥ len) "writableBytes() >= len"
  return b'

/-- Count `len` bytes stored at `beginWrite()` as content. -/
def hasWritten (len : Nat) : Checked Buffer := do
  assert (len ≤ b.writableBytes) "len <= writableBytes()"
  return { b with writerIndex := b.writerIndex + len }

/-- Take the last `len` readable bytes back. -/
def unwrite (len : Nat) : Checked Buffer := do
  assert (len ≤ b.readableBytes) "len <= readableBytes()"
  return { b with writerIndex := b.writerIndex - len }

/-- Store `data` at `beginWrite()`, as a caller does before `hasWritten`. -/
def storeAtBeginWrite (data : List Byte) : Buffer :=
  { b with buffer := overwrite b.buffer b.beginWrite data }

/-- Add `data` behind the content. -/
def append (data : List Byte) : Checked Buffer := do
  let b' ← b.ensureWritableBytes data.length
  (b'.storeAtBeginWrite data).hasWritten data.length

/-- Add `data` in front of the content. -/
def prepend (data : List Byte) : Checked Buffer := do
  assert (data.length ≤ b.prependableBytes) "len <= prependableBytes()"
  let readerIndex := b.readerIndex - data.length
  return { b with buffer := overwrite b.buffer readerIndex data, readerIndex }

/-- `toStringPiece()`: the content as a `StringPiece`, whose length is an `int`. The conversion is
checked: past `2 ^ 31` the piece would no longer describe the content. -/
def toStringPiece : Checked (List Byte) := do
  assert (b.readableBytes < 2 ^ 31) "static_cast<int>(readableBytes())"
  return b.content

/-- Replace the buffer by one that holds the content and `reserve` more bytes. -/
def shrink (reserve : Nat) : Checked Buffer := do
  let other ← new kInitialSize
  let other ← other.ensureWritableBytes (b.readableBytes + reserve)
  let piece ← b.toStringPiece
  other.append piece

/-- What `readv` reports to `readFd`: an `errno`, or the bytes it received. -/
abbrev ReadResult := Except Int (List Byte)

/-- The room `readFd` offers to `readv`: the writable bytes, and `extrabuf` when they are few. -/
def readvRoom : Nat :=
  b.writableBytes + if b.writableBytes < kExtrabufSize then kExtrabufSize else 0

/-- `readFd`: read into the writable bytes and, past them, into `extrabuf`, which is then appended.
The kernel fills the two blocks in order. Returns the result of `readv` and the saved `errno`. -/
def readFd (res : ReadResult) : Checked (Int × Option Int × Buffer) := do
  let writable := b.writableBytes
  match res with
  | .error errno => return (-1, some errno, b)
  | .ok data =>
    -- the kernel has stored what fits at `begin() + writerIndex_`
    let b' := b.storeAtBeginWrite (data.take writable)
    if data.length ≤ writable then
      return (data.length, none, { b' with writerIndex := b'.writerIndex + data.length })
    else
      -- the vector is full, and the rest is in `extrabuf`
      let b'' := { b' with writerIndex := b'.buffer.length }
      let extrabuf := data.drop writable
      let b''' ← b''.append extrabuf
      return (data.length, none, b''')

end Buffer

/-- `swap(rhs)`: exchange the data members of two buffers. -/
def Buffer.swap (b rhs : Buffer) : Buffer × Buffer :=
  ({ buffer := rhs.buffer, readerIndex := rhs.readerIndex, writerIndex := rhs.writerIndex },
   { buffer := b.buffer, readerIndex := b.readerIndex, writerIndex := b.writerIndex })

end Muduo.Net
