import Muduo.Net.BufferSpec

/-! # Buffers that carry their invariant

`ByteQueue` is a `Buffer` together with its index invariant, so that a buffer with indices out of
order cannot be built. Its operations are the ones of `Buffer`; an operation that cannot fail an
assert is total, the others fail exactly the assert at their head. The `content` lemmas are all that
the components above a buffer need to know of it. -/

namespace Muduo.Net

open Support

/-- A buffer with its index invariant. -/
structure ByteQueue where
  buffer : Buffer
  wf : buffer.WF

namespace ByteQueue

/-- The readable bytes. -/
def content (q : ByteQueue) : List Byte := q.buffer.content

/-- The number of bytes in the queue. -/
def readableBytes (q : ByteQueue) : Nat := q.buffer.readableBytes

/-- The bytes `[peek(), peek() + n)`. -/
def peekBytes (q : ByteQueue) (n : Nat) : List Byte := q.content.take n

/-- A queue represents its content. -/
theorem represents (q : ByteQueue) : q.buffer.Represents q.content := ⟨q.wf, rfl⟩

@[simp] theorem readableBytes_eq (q : ByteQueue) : q.readableBytes = q.content.length :=
  q.wf.length_content.symm

/-- A buffer that comes out of an operation, with its invariant. -/
def ofSat {x : Checked Buffer} {c : List Byte} (h : x.Sat fun b => b.Represents c) : ByteQueue :=
  ⟨h.get, h.get_spec.wf⟩

/-- The content of a checked buffer. -/
theorem content_ofSat {x : Checked Buffer} {c : List Byte} (h : x.Sat fun b => b.Represents c) :
    (ofSat h).content = c := h.get_spec.content_eq

/-- A checked buffer is the buffer of its queue. -/
theorem buffer_ofSat {x : Checked Buffer} {c : List Byte} (h : x.Sat fun b => b.Represents c) :
    x = .ok (ofSat h).buffer := h.eq_get

/-- A new buffer represents nothing. -/
theorem new_represents (initialSize : Nat) :
    (Buffer.new initialSize).Sat fun b => b.Represents [] :=
  (Buffer.new_sat initialSize).mono fun _ h => h.1

/-- `Buffer()`, with the default initial size. -/
def new : ByteQueue := ofSat (new_represents Buffer.kInitialSize)

@[simp] theorem content_new : new.content = [] := content_ofSat _

/-- A new buffer has the reserved bytes and the initial size. -/
theorem length_new : new.buffer.buffer.length = Buffer.kCheapPrepend + Buffer.kInitialSize := by
  obtain ⟨b, hb, hrep, hreader, hwritable⟩ := Buffer.new_sat Buffer.kInitialSize
  have hnew : b = new.buffer :=
    Except.ok.inj (hb.symm.trans (buffer_ofSat (new_represents Buffer.kInitialSize)))
  have hempty : b.readableBytes = 0 := hrep.length_eq.symm
  have hread := hrep.wf.reader_le_writer
  have hwriter := hrep.wf.writer_le_size
  unfold Buffer.readableBytes at hempty
  unfold Buffer.prependableBytes at hreader
  unfold Buffer.writableBytes at hwritable
  rw [← hnew]
  omega

/-- `append()` appends the bytes. -/
theorem append_represents (q : ByteQueue) (data : List Byte) :
    (q.buffer.append data).Sat fun b => b.Represents (q.content ++ data) :=
  (Buffer.append_sat q.represents data).mono fun _ h => h.represents

/-- Bytes appended at the end. -/
def append (q : ByteQueue) (data : List Byte) : ByteQueue := ofSat (q.append_represents data)

/-- `append` is the operation of `Buffer`. -/
theorem buffer_append (q : ByteQueue) (data : List Byte) :
    q.buffer.append data = .ok (q.append data).buffer := buffer_ofSat _

@[simp] theorem content_append (q : ByteQueue) (data : List Byte) :
    (q.append data).content = q.content ++ data := content_ofSat _

/-- What `readFd` leaves in the buffer when the kernel delivers `data`. -/
theorem readFd_represents (q : ByteQueue) (data : List Byte) :
    Checked.Sat ((q.buffer.readFd (.ok data)).map fun r => r.2.2)
      fun b => b.Represents (q.content ++ data) := by
  obtain ⟨r, hr, -, -, hrep⟩ := Buffer.readFd_ok_sat q.represents data
  rw [hr]
  exact .ok hrep

/-- `readFd(fd, &savedErrno)`, when the kernel delivers `data`. -/
def readFd (q : ByteQueue) (data : List Byte) : ByteQueue := ofSat (q.readFd_represents data)

/-- `readFd` is the operation of `Buffer`, and returns the number of bytes. -/
theorem buffer_readFd (q : ByteQueue) (data : List Byte) :
    q.buffer.readFd (.ok data) = .ok (data.length, none, (q.readFd data).buffer) := by
  obtain ⟨⟨n, errno, b⟩, hr, rfl, rfl, -⟩ := Buffer.readFd_ok_sat q.represents data
  have hbuffer : (q.buffer.readFd (.ok data)).map (fun r => r.2.2) = .ok (q.readFd data).buffer :=
    buffer_ofSat (q.readFd_represents data)
  rw [hr] at hbuffer ⊢
  cases hbuffer
  rfl

@[simp] theorem content_readFd (q : ByteQueue) (data : List Byte) :
    (q.readFd data).content = q.content ++ data := content_ofSat _

/-- The queue emptied. -/
def retrieveAll (q : ByteQueue) : ByteQueue :=
  ⟨q.buffer.retrieveAll, (Buffer.retrieveAll_represents q.wf).wf⟩

/-- `retrieve(len)`: fails the assert at its head or pops `len` bytes at the front. -/
def retrieve (q : ByteQueue) (len : Nat) : Checked ByteQueue :=
  if h : len ≤ q.content.length then .ok (ofSat (Buffer.retrieve_sat q.represents h))
  else .error "len <= readableBytes()"

/-- `retrieve` is the operation of `Buffer`. -/
theorem buffer_retrieve (q : ByteQueue) (len : Nat) :
    q.buffer.retrieve len = (q.retrieve len).map ByteQueue.buffer := by
  unfold retrieve
  by_cases h : len ≤ q.content.length
  · rw [dif_pos h]
    exact buffer_ofSat _
  · rw [dif_neg h, Buffer.retrieve, assert_neg]
    · rfl
    · rwa [← q.represents.length_eq]

/-- `retrieve()` drops the bytes. -/
theorem retrieve_sat (q : ByteQueue) {len : Nat} (h : len ≤ q.content.length) :
    (q.retrieve len).Sat fun q' => q'.content = q.content.drop len := by
  rw [retrieve, dif_pos h]
  exact .ok (content_ofSat _)

/-- `retrieveUntil(peek() + n)`: fails an assert at its head or pops `n` bytes at the front. -/
def retrieveUntil (q : ByteQueue) (n : Nat) : Checked ByteQueue :=
  if n ≤ q.content.length then q.retrieve n else .error "end <= beginWrite()"

/-- `retrieveUntil` is the operation of `Buffer`. -/
theorem buffer_retrieveUntil (q : ByteQueue) (n : Nat) :
    q.buffer.retrieveUntil (q.buffer.peek + n) = (q.retrieveUntil n).map ByteQueue.buffer := by
  have hread := q.wf.reader_le_writer
  have hlen : q.content.length = q.buffer.writerIndex - q.buffer.readerIndex :=
    q.represents.length_eq
  rw [Buffer.retrieveUntil, assert_pos (Nat.le_add_right _ _), Checked.ok_bind,
    Nat.add_sub_cancel_left, retrieveUntil]
  by_cases h : n ≤ q.content.length
  · rw [if_pos h, assert_pos]
    · exact q.buffer_retrieve n
    · simp only [Buffer.peek, Buffer.beginWrite]
      omega
  · rw [if_neg h, assert_neg]
    · rfl
    · simp only [Buffer.peek, Buffer.beginWrite]
      omega

/-- `retrieveUntil()` drops the bytes before the end. -/
theorem retrieveUntil_sat (q : ByteQueue) {n : Nat} (h : n ≤ q.content.length) :
    (q.retrieveUntil n).Sat fun q' => q'.content = q.content.drop n := by
  rw [retrieveUntil, if_pos h]
  exact q.retrieve_sat h

end ByteQueue

end Muduo.Net
