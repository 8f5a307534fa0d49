import Muduo.Net.ByteQueue
import Muduo.Support.BigEndian

/-! # Integers in `net::Buffer`

The functions of `net/Buffer.h` that append, peek, read and prepend integers in network byte order, and the
conversions of `net/Endian.h` that they call. They are two families, with the number of bytes and the name of
the integer type as parameters; an `intN_t` of the source is an `Int`. The functions for an `int8_t` convert
nothing, which for a single byte is the same (`appendInt8_eq`). -/

namespace Muduo.Net

open Support

namespace sockets

/-- The byte order of the host, which is an x86-64. -/
def hostOrder : ByteOrder := .little

/-- From the byte order of the host to that of the network. -/
def hostToNetwork (width : Nat) (host : Int) : Int := hostOrder.exchange width host

/-- From the byte order of the network to that of the host. -/
def networkToHost (width : Nat) (net : Int) : Int := hostOrder.exchange width net

/-- `sockets::hostToNetwork64`. -/
def hostToNetwork64 (host64 : Int) : Int := hostToNetwork 8 host64

/-- `sockets::hostToNetwork32`. -/
def hostToNetwork32 (host32 : Int) : Int := hostToNetwork 4 host32

/-- `sockets::hostToNetwork16`. -/
def hostToNetwork16 (host16 : Int) : Int := hostToNetwork 2 host16

/-- `sockets::networkToHost64`. -/
def networkToHost64 (net64 : Int) : Int := networkToHost 8 net64

/-- `sockets::networkToHost32`. -/
def networkToHost32 (net32 : Int) : Int := networkToHost 4 net32

/-- `sockets::networkToHost16`. -/
def networkToHost16 (net16 : Int) : Int := networkToHost 2 net16

/-- What is in memory after `hostToNetwork`: the bytes of the integer, the most significant first. -/
theorem store_hostToNetwork (width : Nat) (x : Int) :
    hostOrder.store width (hostToNetwork width x) = intToBytes width x := hostOrder.store_exchange width x

/-- What `networkToHost` makes of bytes in memory, the most significant first. -/
theorem networkToHost_load {width : Nat} {bytes : List Byte} (h : bytes.length = width) :
    networkToHost width (hostOrder.load bytes) = intOfBytes bytes := hostOrder.exchange_load h

end sockets

open sockets

namespace Buffer

variable (b : Buffer)

/-- Append an integer of `width` bytes. -/
def appendInt (width : Nat) (x : Int) : Checked Buffer :=
  b.append (hostOrder.store width (hostToNetwork width x))

/-- Look at an integer of `width` bytes, whose type is `type`. -/
def peekInt (width : Nat) (type : String) : Checked Int := do
  assert (width ≤ b.readableBytes) ("readableBytes() >= sizeof(" ++ type ++ ")")
  return networkToHost width (hostOrder.load (slice b.buffer b.peek (b.peek + width)))

/-- Take an integer of `width` bytes out, after it was looked at by `peek`. -/
def readIntBy (peek : Checked Int) (width : Nat) : Checked (Int × Buffer) := do
  let result ← peek -- its assert guards the `retrieve` as well
  let b' ← b.retrieve width
  return (result, b')

/-- Take an integer of `width` bytes out. -/
def readInt (width : Nat) (type : String) : Checked (Int × Buffer) :=
  b.readIntBy (b.peekInt width type) width

/-- Put an integer of `width` bytes in front of the content. -/
def prependInt (width : Nat) (x : Int) : Checked Buffer :=
  b.prepend (hostOrder.store width (hostToNetwork width x))

/-- `Buffer::appendInt64`. -/
def appendInt64 (x : Int) : Checked Buffer := b.appendInt 8 x

/-- `Buffer::appendInt32`. -/
def appendInt32 (x : Int) : Checked Buffer := b.appendInt 4 x

/-- `Buffer::appendInt16`. -/
def appendInt16 (x : Int) : Checked Buffer := b.appendInt 2 x

/-- `Buffer::appendInt8`, which converts nothing. -/
def appendInt8 (x : Int) : Checked Buffer := b.append (hostOrder.store 1 x)

/-- `Buffer::peekInt64`. -/
def peekInt64 : Checked Int := b.peekInt 8 "int64_t"

/-- `Buffer::peekInt32`. -/
def peekInt32 : Checked Int := b.peekInt 4 "int32_t"

/-- `Buffer::peekInt16`. -/
def peekInt16 : Checked Int := b.peekInt 2 "int16_t"

/-- `Buffer::peekInt8`, which converts nothing. -/
def peekInt8 : Checked Int := do
  assert (1 ≤ b.readableBytes) "readableBytes() >= sizeof(int8_t)"
  return hostOrder.load (slice b.buffer b.peek (b.peek + 1))

/-- `Buffer::readInt64`. -/
def readInt64 : Checked (Int × Buffer) := b.readInt 8 "int64_t"

/-- `Buffer::readInt32`. -/
def readInt32 : Checked (Int × Buffer) := b.readInt 4 "int32_t"

/-- `Buffer::readInt16`. -/
def readInt16 : Checked (Int × Buffer) := b.readInt 2 "int16_t"

/-- `Buffer::readInt8`. -/
def readInt8 : Checked (Int × Buffer) := b.readIntBy b.peekInt8 1

/-- `Buffer::prependInt64`. -/
def prependInt64 (x : Int) : Checked Buffer := b.prependInt 8 x

/-- `Buffer::prependInt32`. -/
def prependInt32 (x : Int) : Checked Buffer := b.prependInt 4 x

/-- `Buffer::prependInt16`. -/
def prependInt16 (x : Int) : Checked Buffer := b.prependInt 2 x

/-- `Buffer::prependInt8`, which converts nothing. -/
def prependInt8 (x : Int) : Checked Buffer := b.prepend (hostOrder.store 1 x)

variable {b} {c : List Byte}

/-- A byte is stored as it is. -/
theorem store_one (x : Int) : hostOrder.store 1 x = intToBytes 1 x :=
  hostOrder.arrange_of_length_le (length_intToBytes 1 x).le

/-- `appendInt8` needs no conversion. -/
theorem appendInt8_eq (x : Int) : b.appendInt8 x = b.appendInt 1 x := by
  rw [appendInt8, appendInt, store_hostToNetwork, store_one]

/-- `prependInt8` needs no conversion. -/
theorem prependInt8_eq (x : Int) : b.prependInt8 x = b.prependInt 1 x := by
  rw [prependInt8, prependInt, store_hostToNetwork, store_one]

/-- The bytes that `peekInt` copies are the first of the content. -/
theorem slice_peek (h : b.Represents c) {width : Nat} (hwidth : width ≤ b.readableBytes) :
    slice b.buffer b.peek (b.peek + width) = c.take width := by
  rw [← h.content_eq, content, take_slice]
  simp only [readableBytes, peek, beginWrite] at hwidth ⊢
  have := h.wf.reader_le_writer
  omega

/-- `peekInt` reads the first bytes of the content. -/
theorem peekInt_eq (h : b.Represents c) {width : Nat} (hwidth : width ≤ c.length) (type : String) :
    b.peekInt width type = .ok (intOfBytes (c.take width)) := by
  have hle : width ≤ b.readableBytes := h.length_eq ▸ hwidth
  rw [peekInt, assert_pos hle, slice_peek h hle, networkToHost_load (List.length_take_of_le hwidth)]
  rfl

/-- `peekInt8` needs no conversion. -/
theorem peekInt8_eq (h : b.Represents c) : b.peekInt8 = b.peekInt 1 "int8_t" := by
  rw [peekInt8, peekInt]
  by_cases hle : 1 ≤ b.readableBytes
  · have hone : (c.take 1).length = 1 := List.length_take_of_le (h.length_eq.symm ▸ hle)
    rw [assert_pos hle, assert_pos hle, slice_peek h hle, networkToHost_load hone, ByteOrder.load,
      hostOrder.arrange_of_length_le hone.le]
  · rw [assert_neg hle, assert_neg hle]
    rfl

/-- `readInt8` needs no conversion. -/
theorem readInt8_eq (h : b.Represents c) : b.readInt8 = b.readInt 1 "int8_t" := by
  rw [readInt8, peekInt8_eq h, readInt]

/-- `appendInt` adds the bytes of the integer. -/
theorem appendInt_sat (h : b.Represents c) (width : Nat) (x : Int) :
    (b.appendInt width x).Sat fun b' => b'.Represents (c ++ intToBytes width x) := by
  rw [appendInt, store_hostToNetwork]
  exact (append_sat h _).mono fun _ hb => hb.represents

/-- `prependInt` puts the bytes of the integer in front. -/
theorem prependInt_sat (h : b.Represents c) {width : Nat} (hwidth : width ≤ b.prependableBytes)
    (x : Int) : (b.prependInt width x).Sat fun b' => b'.Represents (intToBytes width x ++ c) := by
  rw [prependInt, store_hostToNetwork]
  exact prepend_sat h (by simpa using hwidth)

/-- An integer at the front of the content is seen. -/
theorem peekInt_front {width : Nat} {x : Int} (h : b.Represents (intToBytes width x ++ c))
    (hx : FitsInt width x) (type : String) : b.peekInt width type = .ok x := by
  rw [peekInt_eq h (by simp), List.take_append_of_le_length (by simp), List.take_of_length_le (by simp),
    intOfBytes_intToBytes hx]

/-- An integer at the front of the content is taken out. -/
theorem readInt_front {width : Nat} {x : Int} (h : b.Represents (intToBytes width x ++ c))
    (hx : FitsInt width x) (type : String) :
    (b.readInt width type).Sat fun r => r.1 = x ∧ r.2.Represents c := by
  have hwidth : width ≤ (intToBytes width x ++ c).length := by simp
  have hretrieve := retrieve_sat h hwidth
  rw [List.drop_append_of_le_length (by simp), List.drop_of_length_le (by simp),
    List.nil_append] at hretrieve
  rw [readInt, readIntBy, peekInt_front h hx]
  exact hretrieve.bind fun _ hb => .ok ⟨rfl, hb⟩

end Buffer

/-- `peekInt32()` on the content of a buffer. -/
def ByteQueue.peekInt32 (q : ByteQueue) : Checked Int := q.buffer.peekInt32

/-- It reads the first four bytes. -/
theorem ByteQueue.peekInt32_eq (q : ByteQueue) (h : 4 ≤ q.content.length) :
    q.peekInt32 = .ok (intOfBytes (q.content.take 4)) := Buffer.peekInt_eq q.represents h _

end Muduo.Net
