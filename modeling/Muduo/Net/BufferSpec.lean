import Muduo.Net.Buffer
import Mathlib.Order.Basic
import Mathlib.Data.Nat.Basic

/-! # The representation of a byte sequence by a `Buffer`

`b.Represents c` says that the indices of `b` are in order and that its readable slice is the byte
sequence `c`. Each operation is specified once, as a total-correctness statement about the sequence
it represents: which bytes are pushed or popped at which end, and that no assertion on the way fails.
`ByteQueue` packages a buffer with this invariant; its operations need no side conditions but the
ones the asserts of the source state. -/

namespace Muduo.Net

open Support

namespace Buffer

/-- The index invariant of `Buffer`. -/
structure WF (b : Buffer) : Prop where
  reader_le_writer : b.readerIndex ≤ b.writerIndex
  writer_le_size : b.writerIndex ≤ b.buffer.length
  /-- The vector has room for the reserved bytes in front. -/
  cheap_le_size : kCheapPrepend ≤ b.buffer.length

/-- The buffer is well formed and its readable slice is `c`. -/
structure Represents (b : Buffer) (c : List Byte) : Prop where
  wf : b.WF
  content_eq : b.content = c

variable {b : Buffer} {c : List Byte}

/-- A well-formed buffer represents its content. -/
theorem WF.represents (h : b.WF) : b.Represents b.content := ⟨h, rfl⟩

/-- The content is as long as the readable part. -/
theorem WF.length_content (h : b.WF) : b.content.length = b.readableBytes :=
  length_slice _ _ _ h.writer_le_size

/-- The bytes represented are as many as the readable ones. -/
theorem Represents.length_eq (h : b.Represents c) : c.length = b.readableBytes := by
  rw [← h.content_eq]
  exact h.wf.length_content

/-- A fresh buffer is empty, with `kCheapPrepend` bytes reserved in front. -/
theorem new_sat (initialSize : Nat) :
    (new initialSize).Sat fun b =>
      b.Represents [] ∧ b.prependableBytes = kCheapPrepend ∧ b.writableBytes = initialSize := by
  have hsize : kCheapPrepend + initialSize - kCheapPrepend = initialSize :=
    Nat.add_sub_cancel_left ..
  refine Checked.Sat.assert (Nat.sub_self _) (Checked.Sat.assert ?_ (Checked.Sat.assert rfl ?_))
  · simp only [writableBytes, List.length_replicate, hsize]
  · refine .ok ⟨⟨⟨le_rfl, ?_, ?_⟩, ?_⟩, rfl, ?_⟩
    · simp only [List.length_replicate, Nat.le_add_right]
    · simp only [List.length_replicate, Nat.le_add_right]
    · simp only [content, slice, peek, beginWrite, Nat.sub_self, List.take_zero]
    · simp only [writableBytes, List.length_replicate, hsize]

/-- A buffer after `retrieveAll()` represents nothing. -/
theorem retrieveAll_represents (h : b.WF) : b.retrieveAll.Represents [] := by
  refine ⟨⟨le_rfl, h.cheap_le_size, h.cheap_le_size⟩, ?_⟩
  simp only [content, slice, retrieveAll, peek, beginWrite, Nat.sub_self, List.take_zero]

/-- `retrieve len` pops `len` bytes at the front. -/
theorem retrieve_sat (h : b.Represents c) {len : Nat} (hlen : len ≤ c.length) :
    (b.retrieve len).Sat fun b' => b'.Represents (c.drop len) := by
  have hle : len ≤ b.readableBytes := h.length_eq ▸ hlen
  refine Checked.Sat.assert hle ?_
  by_cases hlt : len < b.readableBytes
  · rw [if_pos hlt]
    refine .ok ⟨⟨?_, h.wf.writer_le_size, h.wf.cheap_le_size⟩, ?_⟩
    · simp only [readableBytes] at hlt ⊢
      omega
    · rw [← h.content_eq, content, content, drop_slice]
      rfl
  · -- everything is retrieved, and both indices go back to `kCheapPrepend`
    rw [if_neg hlt]
    have hall : c.drop len = [] := by
      rw [List.drop_eq_nil_iff, h.length_eq]
      omega
    rw [hall]
    exact .ok (retrieveAll_represents h.wf)

/-- `retrieveUntil last` pops the bytes before the position `last`. -/
theorem retrieveUntil_sat (h : b.Represents c) {last : Nat} (hpeek : b.peek ≤ last)
    (hlast : last ≤ b.beginWrite) :
    (b.retrieveUntil last).Sat fun b' => b'.Represents (c.drop (last - b.peek)) := by
  refine Checked.Sat.assert hpeek (Checked.Sat.assert hlast (retrieve_sat h ?_))
  rw [h.length_eq]
  exact Nat.sub_le_sub_right hlast _

/-- `retrieveAsString len` pops `len` bytes at the front and returns them. -/
theorem retrieveAsString_sat (h : b.Represents c) {len : Nat} (hlen : len ≤ c.length) :
    (b.retrieveAsString len).Sat fun r =>
      r.1 = c.take len ∧ r.2.Represents (c.drop len) := by
  have hle : len ≤ b.readableBytes := h.length_eq ▸ hlen
  refine Checked.Sat.assert hle ((retrieve_sat h hlen).bind fun b' hb' => .ok ⟨?_, hb'⟩)
  rw [← h.content_eq, content, take_slice]
  simp only [peek, beginWrite, readableBytes] at hle ⊢
  have := h.wf.reader_le_writer
  omega

/-- `hasWritten len` pushes the `len` bytes that stand behind the content. -/
theorem hasWritten_sat (h : b.Represents c) {len : Nat} (hlen : len ≤ b.writableBytes) :
    (b.hasWritten len).Sat fun b' =>
      b'.Represents (c ++ slice b.buffer b.writerIndex (b.writerIndex + len)) := by
  have hsize := h.wf.writer_le_size
  have hread := h.wf.reader_le_writer
  refine Checked.Sat.assert hlen (.ok ⟨⟨?_, ?_, h.wf.cheap_le_size⟩, ?_⟩)
  · exact hread.trans (Nat.le_add_right _ _)
  · simp only [writableBytes] at hlen ⊢
    omega
  · rw [← h.content_eq]
    exact (slice_append_slice _ hread (Nat.le_add_right _ _)).symm

/-- `hasWritten()` leaves the reader where it was. -/
theorem hasWritten_reader {b' : Buffer} {len : Nat} (h : b.hasWritten len = .ok b') :
    b'.readerIndex = b.readerIndex := by
  obtain ⟨-, -, h⟩ := Checked.bind_eq_ok.mp h
  cases h
  rfl

/-- Bytes stored at `beginWrite()` do not change what the buffer represents. -/
theorem storeAtBeginWrite_represents (h : b.Represents c) {data : List Byte}
    (hlen : data.length ≤ b.writableBytes) : (b.storeAtBeginWrite data).Represents c := by
  have hsize := h.wf.writer_le_size
  have hfit : b.writerIndex + data.length ≤ b.buffer.length := by
    simp only [writableBytes] at hlen
    omega
  have hlength := length_overwrite b.buffer b.writerIndex data hfit
  refine ⟨⟨h.wf.reader_le_writer, ?_, ?_⟩, ?_⟩
  · exact hsize.trans hlength.ge
  · exact h.wf.cheap_le_size.trans hlength.ge
  · rw [← h.content_eq]
    exact slice_overwrite_of_le _ _ le_rfl hsize

/-- Storing `data` at `beginWrite()` and counting its first `len` bytes pushes them at the back. -/
theorem store_hasWritten_sat (h : b.Represents c) {data : List Byte} {len : Nat}
    (hdata : data.length ≤ b.writableBytes) (hlen : len ≤ data.length) :
    ((b.storeAtBeginWrite data).hasWritten len).Sat fun b' =>
      b'.Represents (c ++ data.take len) := by
  have hsize := h.wf.writer_le_size
  have hfit : b.writerIndex + data.length ≤ b.buffer.length := by
    simp only [writableBytes] at hdata
    omega
  have hwritable : (b.storeAtBeginWrite data).writableBytes = b.writableBytes := by
    simp only [writableBytes, storeAtBeginWrite, beginWrite, length_overwrite _ _ _ hfit]
  refine (hasWritten_sat (storeAtBeginWrite_represents h hdata)
    (hwritable.symm ▸ hlen.trans hdata)).mono fun b' hb' => ?_
  have hstored : slice (overwrite b.buffer b.writerIndex data) b.writerIndex
      (b.writerIndex + len) = data.take len := by
    rw [← take_slice _ (Nat.add_le_add_left hlen _), slice_overwrite_self _ _ hfit]
  rw [← hstored]
  exact hb'

/-- `unwrite len` pops `len` bytes at the back. -/
theorem unwrite_sat (h : b.Represents c) {len : Nat} (hlen : len ≤ c.length) :
    (b.unwrite len).Sat fun b' => b'.Represents (c.take (c.length - len)) := by
  have hle : len ≤ b.readableBytes := h.length_eq ▸ hlen
  have hsize := h.wf.writer_le_size
  refine Checked.Sat.assert hle (.ok ⟨⟨?_, ?_, h.wf.cheap_le_size⟩, ?_⟩)
  · simp only [readableBytes] at hle ⊢
    have := h.wf.reader_le_writer
    omega
  · exact (Nat.sub_le _ _).trans hsize
  · have hread := h.wf.reader_le_writer
    rw [h.length_eq, ← h.content_eq, content, content, take_slice]
    · simp only [peek, beginWrite, readableBytes] at hle ⊢
      congr 1
      omega
    · simp only [peek, beginWrite, readableBytes] at hle ⊢
      omega

/-- `prepend data` pushes `data` at the front. -/
theorem prepend_sat (h : b.Represents c) {data : List Byte}
    (hlen : data.length ≤ b.prependableBytes) :
    (b.prepend data).Sat fun b' => b'.Represents (data ++ c) := by
  have hsize := h.wf.writer_le_size
  have hread := h.wf.reader_le_writer
  have hreader : b.readerIndex - data.length + data.length = b.readerIndex :=
    Nat.sub_add_cancel hlen
  have hlength : (overwrite b.buffer (b.readerIndex - data.length) data).length = b.buffer.length :=
    length_overwrite _ _ _ (by omega)
  refine Checked.Sat.assert hlen (.ok ⟨⟨?_, ?_, ?_⟩, ?_⟩)
  · exact (Nat.sub_le _ _).trans hread
  · exact hsize.trans hlength.ge
  · exact h.wf.cheap_le_size.trans hlength.ge
  · rw [← h.content_eq]
    refine (slice_overwrite_front _ _ (by rw [hreader]; exact hread) hsize).trans ?_
    rw [hreader]
    rfl

/-- What making space does: the content stays, `len` bytes become writable, the reader stays where it was
or moves to `kCheapPrepend`, and the vector grows by no more than `len`. -/
structure MadeSpace (b : Buffer) (c : List Byte) (len : Nat) (b' : Buffer) : Prop where
  represents : b'.Represents c
  room : len ≤ b'.writableBytes
  reader : b'.readerIndex = b.readerIndex ∨ b'.readerIndex = kCheapPrepend
  length : b'.buffer.length ≤ b.buffer.length + len

/-- `makeSpace len`, called as `ensureWritableBytes` calls it, makes room for `len` bytes. Its own
assert holds: the bytes in front exceed `kCheapPrepend` because the writable ones do not suffice. -/
theorem makeSpace_sat (h : b.Represents c) {len : Nat} (hlen : b.writableBytes < len) :
    (b.makeSpace len).Sat (b.MadeSpace c len) := by
  have hsize := h.wf.writer_le_size
  have hread := h.wf.reader_le_writer
  have hcheap := h.wf.cheap_le_size
  unfold makeSpace
  by_cases hgrow : b.writableBytes + b.prependableBytes < len + kCheapPrepend
  · -- grow the vector at its end
    rw [if_pos hgrow]
    simp only [writableBytes] at hlen
    refine .ok ⟨⟨⟨hread, ?_, ?_⟩, ?_⟩, ?_, .inl rfl, ?_⟩
    · rw [length_resize]
      exact Nat.le_add_right _ _
    · rw [length_resize]
      omega
    · rw [← h.content_eq]
      exact slice_resize _ _ hsize (Nat.le_add_right _ _)
    · simp only [writableBytes, length_resize]
      omega
    · rw [length_resize]
      exact Nat.add_le_add_right hsize len
  · -- move the content down
    rw [if_neg hgrow]
    -- the assert: all the room together suffices, the writable bytes alone do not
    have hfront : kCheapPrepend < b.readerIndex := by
      simp only [prependableBytes] at hgrow
      omega
    have hmoved : (slice b.buffer b.readerIndex b.writerIndex).length = b.readableBytes :=
      length_slice _ _ _ hsize
    have hfit : kCheapPrepend + (slice b.buffer b.readerIndex b.writerIndex).length
        ≤ b.buffer.length := by
      rw [hmoved, readableBytes]
      omega
    have hlength := length_overwrite b.buffer kCheapPrepend _ hfit
    refine Checked.Sat.assert hfront
      (Checked.Sat.assert ?_ (.ok ⟨⟨⟨?_, ?_, ?_⟩, ?_⟩, ?_, .inr rfl, ?_⟩))
    · exact (Nat.add_sub_cancel_left _ _).symm
    · exact Nat.le_add_right _ _
    · rw [hlength, ← hmoved]
      exact hfit
    · exact hcheap.trans hlength.ge
    · rw [← h.content_eq]
      have hself := slice_overwrite_self b.buffer _ hfit
      rw [hmoved] at hself
      exact hself
    · simp only [writableBytes, hlength, readableBytes, prependableBytes] at hgrow ⊢
      omega
    · exact hlength.le.trans (Nat.le_add_right _ _)

/-- `ensureWritableBytes len` changes nothing but the room for writing. -/
theorem ensureWritableBytes_sat (h : b.Represents c) (len : Nat) :
    (b.ensureWritableBytes len).Sat (b.MadeSpace c len) := by
  unfold ensureWritableBytes
  by_cases hlen : b.writableBytes < len
  · rw [if_pos hlen]
    exact (makeSpace_sat h hlen).bind fun b' hb' => Checked.Sat.assert hb'.room (.ok hb')
  · rw [if_neg hlen]
    have hroom : len ≤ b.writableBytes := Nat.le_of_not_lt hlen
    -- nothing to do
    exact Checked.Sat.assert hroom (.ok ⟨h, hroom, .inl rfl, Nat.le_add_right _ _⟩)

/-- What `append data` does: `data` is pushed at the back, and the content starts where it did or at
`kCheapPrepend`. -/
structure Appended (b : Buffer) (c : List Byte) (data : List Byte) (b' : Buffer) : Prop where
  represents : b'.Represents (c ++ data)
  reader : b'.readerIndex = b.readerIndex ∨ b'.readerIndex = kCheapPrepend

/-- `append()` appends the bytes to the content. -/
theorem append_sat (h : b.Represents c) (data : List Byte) :
    (b.append data).Sat (b.Appended c data) := by
  refine (ensureWritableBytes_sat h data.length).bind fun b' hb' => ?_
  obtain ⟨b'', hb'', hrep⟩ := store_hasWritten_sat hb'.represents hb'.room (Nat.le_refl data.length)
  rw [List.take_length] at hrep
  refine ⟨b'', hb'', hrep, ?_⟩
  have hreader : b''.readerIndex = (b'.storeAtBeginWrite data).readerIndex := hasWritten_reader hb''
  rw [hreader]
  exact hb'.reader

/-- `shrink reserve` keeps the content. -/
theorem shrink_sat (h : b.Represents c) (reserve : Nat) (hint : c.length < 2 ^ 31) :
    (b.shrink reserve).Sat fun b' => b'.Represents c := by
  refine (new_sat kInitialSize).bind fun other hother => ?_
  refine (ensureWritableBytes_sat hother.1 _).bind fun other' hother' => ?_
  refine Checked.Sat.bind (P := fun piece => piece = c)
    (Checked.Sat.assert (h.length_eq ▸ hint) (.ok h.content_eq)) fun piece hpiece => ?_
  subst hpiece
  exact (append_sat hother'.represents piece).mono fun b' hb' => hb'.represents

/-- `readFd` pushes what the kernel delivered at the back, whether or not it spilled to `extrabuf`. -/
theorem readFd_ok_sat (h : b.Represents c) (data : List Byte) :
    (b.readFd (.ok data)).Sat fun r =>
      r.1 = data.length ∧ r.2.1 = none ∧ r.2.2.Represents (c ++ data) := by
  have hsize := h.wf.writer_le_size
  have hread := h.wf.reader_le_writer
  by_cases hfit : data.length ≤ b.writableBytes
  · -- nothing went to `extrabuf`: this is `hasWritten` without its assert
    have htake : data.take b.writableBytes = data := List.take_of_length_le hfit
    obtain ⟨b', hb', hrep⟩ := store_hasWritten_sat h hfit (Nat.le_refl data.length)
    rw [List.take_length] at hrep
    simp only [readFd, htake, if_pos hfit]
    refine .ok ⟨rfl, rfl, ?_⟩
    obtain ⟨-, -, h₂⟩ := Checked.bind_eq_ok.mp hb'
    cases h₂
    exact hrep
  · have hlen : (data.take b.writableBytes).length = b.writableBytes :=
      List.length_take_of_le (Nat.le_of_not_le hfit)
    obtain ⟨b', hb', hrep⟩ := store_hasWritten_sat h hlen.le (Nat.le_refl _)
    rw [List.take_length] at hrep
    have hfull : b'.Represents (c ++ data.take b.writableBytes) := hrep
    simp only [readFd, if_neg hfit]
    -- the first block is full, so the writer has reached the end of the vector
    have hb'' : { b.storeAtBeginWrite (data.take b.writableBytes) with
        writerIndex := (b.storeAtBeginWrite (data.take b.writableBytes)).buffer.length } = b' := by
      obtain ⟨-, -, h₂⟩ := Checked.bind_eq_ok.mp hb'
      cases h₂
      have hlength : (overwrite b.buffer b.writerIndex (data.take b.writableBytes)).length
          = b.buffer.length :=
        length_overwrite _ _ _ (by rw [hlen, writableBytes]; omega)
      simp only [storeAtBeginWrite, beginWrite, hlength, hlen, Buffer.mk.injEq, true_and]
      rw [writableBytes]
      omega
    rw [hb'']
    refine (append_sat hfull (data.drop b.writableBytes)).bind fun b''' hb''' => .ok ⟨rfl, rfl, ?_⟩
    have hjoin := hb'''.represents
    rw [List.append_assoc, List.take_append_drop] at hjoin
    exact hjoin

/-- A failed `readv` leaves the buffer as it was. -/
theorem readFd_error_sat (h : b.Represents c) (errno : Int) :
    (b.readFd (.error errno)).Sat fun r => r.1 = -1 ∧ r.2.1 = some errno ∧ r.2.2.Represents c :=
  .ok ⟨rfl, rfl, h⟩

end Buffer

end Muduo.Net
