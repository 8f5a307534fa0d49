import Muduo.Net.BufferSpec
import Muduo.Support.Machine

/-! # `Buffer` refines a byte deque

A `Store` is any family of buffers together with the strings their callers have taken out so far;
`BufferOp` is a call of a public operation on one of them (`swap` takes two). The abstract side,
`Deques`, is a family of byte sequences with pushes and pops at both ends. `bufferStore_refines` says
that along every run of calls made under their own asserts the two sides agree, that the indices stay
in order and that no assert inside the class fails. -/

namespace Muduo.Net

open Support

variable {ι : Type} [DecidableEq ι]

/-- A call of an operation of `Buffer`. Data and counts are what the caller passes; for `readFd` it is
what the kernel delivers. -/
inductive BufferOp (ι : Type) where
  | append (i : ι) (data : List Byte)
  | prepend (i : ι) (data : List Byte)
  | retrieve (i : ι) (len : Nat)
  /-- `retrieveUntil(peek() + n)`. -/
  | retrieveUntil (i : ι) (n : Nat)
  | retrieveAll (i : ι)
  | retrieveAsString (i : ι) (len : Nat)
  | unwrite (i : ι) (len : Nat)
  | ensureWritableBytes (i : ι) (len : Nat)
  /-- `hasWritten(len)` after `data` was stored at `beginWrite()`. -/
  | hasWritten (i : ι) (data : List Byte) (len : Nat)
  | shrink (i : ι) (reserve : Nat)
  | swap (i j : ι)
  | readFd (i : ι) (res : Buffer.ReadResult)

/-- A family of buffers, and the strings handed to callers so far. -/
structure Store (ι : Type) where
  bufs : ι → Buffer
  /-- The results of `retrieveAsString`, in call order. -/
  taken : List (List Byte)

namespace Store

/-- Replace one buffer. -/
def set (s : Store ι) (i : ι) (b : Buffer) : Store ι := { s with bufs := Function.update s.bufs i b }

/-- The precondition of a call: what the assert at its head states and, for `readFd`, that the kernel
delivers no more than it was offered room for. -/
def Pre (s : Store ι) : BufferOp ι → Prop
  | .append _ _ => True
  | .prepend i data => data.length ≤ (s.bufs i).prependableBytes
  | .retrieve i len => len ≤ (s.bufs i).readableBytes
  | .retrieveUntil i n => (s.bufs i).peek + n ≤ (s.bufs i).beginWrite
  | .retrieveAll _ => True
  | .retrieveAsString i len => len ≤ (s.bufs i).readableBytes
  | .unwrite i len => len ≤ (s.bufs i).readableBytes
  | .ensureWritableBytes _ _ => True
  | .hasWritten i data len => data.length ≤ (s.bufs i).writableBytes ∧ len ≤ data.length
  | .shrink i _ => (s.bufs i).readableBytes < 2 ^ 31
  | .swap _ _ => True
  | .readFd i res => ∀ data, res = .ok data → data.length ≤ (s.bufs i).readvRoom

/-- Perform a call. -/
def exec (s : Store ι) : BufferOp ι → Checked (Store ι)
  | .append i data => do return s.set i (← (s.bufs i).append data)
  | .prepend i data => do return s.set i (← (s.bufs i).prepend data)
  | .retrieve i len => do return s.set i (← (s.bufs i).retrieve len)
  | .retrieveUntil i n => do return s.set i (← (s.bufs i).retrieveUntil ((s.bufs i).peek + n))
  | .retrieveAll i => return s.set i (s.bufs i).retrieveAll
  | .retrieveAsString i len => do
      let (result, b) ← (s.bufs i).retrieveAsString len
      return { s.set i b with taken := s.taken ++ [result] }
  | .unwrite i len => do return s.set i (← (s.bufs i).unwrite len)
  | .ensureWritableBytes i len => do return s.set i (← (s.bufs i).ensureWritableBytes len)
  | .hasWritten i data len => do
      return s.set i (← ((s.bufs i).storeAtBeginWrite data).hasWritten len)
  | .shrink i reserve => do return s.set i (← (s.bufs i).shrink reserve)
  | .swap i j =>
      let (bi, bj) := (s.bufs i).swap (s.bufs j)
      return (s.set i bi).set j bj
  | .readFd i res => do
      let (_, _, b) ← (s.bufs i).readFd res
      return s.set i b

end Store

/-- The machine of all runs of calls on a family of buffers, each made by `Buffer(initialSize)`. -/
def bufferStore (ι : Type) [DecidableEq ι] : Machine (Store ι) (BufferOp ι) where
  init s := (∀ i, ∃ initialSize, Buffer.new initialSize = .ok (s.bufs i)) ∧ s.taken = []
  enabled := Store.Pre
  exec := Store.exec

/-! ## The abstract side -/

/-- A family of byte deques, and the strings taken out of them. -/
structure Deques (ι : Type) where
  deque : ι → List Byte
  taken : List (List Byte)

namespace Deques

/-- All deques empty. -/
def empty : Deques ι := ⟨fun _ => [], []⟩

/-- Replace one deque. -/
def set (d : Deques ι) (i : ι) (c : List Byte) : Deques ι :=
  { d with deque := Function.update d.deque i c }

/-- What a call means for the deques: pushes at the back or the front, pops at the front or the
back, an exchange, or nothing. -/
def next (d : Deques ι) : BufferOp ι → Deques ι
  | .append i data => d.set i (d.deque i ++ data)
  | .prepend i data => d.set i (data ++ d.deque i)
  | .retrieve i len => d.set i ((d.deque i).drop len)
  | .retrieveUntil i n => d.set i ((d.deque i).drop n)
  | .retrieveAll i => d.set i []
  | .retrieveAsString i len =>
      { d.set i ((d.deque i).drop len) with taken := d.taken ++ [(d.deque i).take len] }
  | .unwrite i len => d.set i ((d.deque i).take ((d.deque i).length - len))
  | .ensureWritableBytes _ _ => d
  | .hasWritten i data len => d.set i (d.deque i ++ data.take len)
  | .shrink _ _ => d
  | .swap i j => (d.set i (d.deque j)).set j (d.deque i)
  | .readFd i (.ok data) => d.set i (d.deque i ++ data)
  | .readFd _ (.error _) => d

end Deques

/-- Every buffer of the store represents the deque of the same name, and the same strings were taken
out on both sides. -/
structure Store.Represents (s : Store ι) (d : Deques ι) : Prop where
  bufs : ∀ i, (s.bufs i).Represents (d.deque i)
  taken : s.taken = d.taken

namespace Store.Represents

variable {s : Store ι} {d : Deques ι}

/-- Updating one buffer and the deque of the same name keeps the two sides in step. -/
theorem set (h : s.Represents d) (i : ι) {b : Buffer} {c : List Byte} (hb : b.Represents c) :
    (s.set i b).Represents (d.set i c) := by
  refine ⟨fun k => ?_, h.taken⟩
  by_cases hk : k = i
  · subst hk
    simpa only [Store.set, Deques.set, Function.update_self] using hb
  · simpa only [Store.set, Deques.set, Function.update_of_ne hk] using h.bufs k

/-- Updating one buffer to one that represents the same deque keeps the two sides in step. -/
theorem set_same (h : s.Represents d) (i : ι) {b : Buffer} (hb : b.Represents (d.deque i)) :
    (s.set i b).Represents d := by
  have hset := h.set i hb
  rwa [Deques.set, Function.update_eq_self] at hset

/-- A call that changes one buffer, from the specification of its operation. -/
theorem sat_set (h : s.Represents d) (i : ι) {x : Checked Buffer} {c : List Byte}
    (hx : x.Sat fun b => b.Represents c) :
    (do return s.set i (← x) : Checked (Store ι)).Sat fun s' => s'.Represents (d.set i c) :=
  hx.bind fun _ hb => .ok (h.set i hb)

omit [DecidableEq ι] in
/-- The buffers of a represented store hold as many bytes as their deques. -/
theorem length_eq (h : s.Represents d) (i : ι) : (d.deque i).length = (s.bufs i).readableBytes :=
  (h.bufs i).length_eq

/-- **One call.** Under its precondition a call passes every assert and moves the two sides
together. -/
theorem exec (h : s.Represents d) (op : BufferOp ι) (hpre : s.Pre op) :
    (s.exec op).Sat fun s' => s'.Represents (d.next op) := by
  cases op with
  | append i data =>
      exact h.sat_set i ((Buffer.append_sat (h.bufs i) data).mono fun _ hb => hb.represents)
  | prepend i data => exact h.sat_set i (Buffer.prepend_sat (h.bufs i) hpre)
  | retrieve i len =>
      exact h.sat_set i (Buffer.retrieve_sat (h.bufs i) ((h.length_eq i).symm ▸ hpre))
  | retrieveUntil i n =>
      have hrun := Buffer.retrieveUntil_sat (h.bufs i) (Nat.le_add_right _ _) hpre
      rw [Nat.add_sub_cancel_left] at hrun
      exact h.sat_set i hrun
  | retrieveAll i => exact .ok (h.set i (Buffer.retrieveAll_represents (h.bufs i).wf))
  | retrieveAsString i len =>
      refine (Buffer.retrieveAsString_sat (h.bufs i) ((h.length_eq i).symm ▸ hpre)).bind
        fun r hr => .ok ⟨(h.set i hr.2).bufs, ?_⟩
      show s.taken ++ [r.1] = d.taken ++ [(d.deque i).take len]
      rw [hr.1, h.taken]
  | unwrite i len =>
      exact h.sat_set i (Buffer.unwrite_sat (h.bufs i) ((h.length_eq i).symm ▸ hpre))
  | ensureWritableBytes i len =>
      exact (Buffer.ensureWritableBytes_sat (h.bufs i) len).bind fun _ hb =>
        .ok (h.set_same i hb.represents)
  | hasWritten i data len =>
      exact h.sat_set i (Buffer.store_hasWritten_sat (h.bufs i) hpre.1 hpre.2)
  | shrink i reserve =>
      exact (Buffer.shrink_sat (h.bufs i) reserve ((h.length_eq i).symm ▸ hpre)).bind fun _ hb =>
        .ok (h.set_same i hb)
  | swap i j =>
      -- also right for `i = j`, where the second update undoes the first
      exact .ok ((h.set i (h.bufs j)).set j (h.bufs i))
  | readFd i res =>
      cases res with
      | error errno =>
          exact (Buffer.readFd_error_sat (h.bufs i) errno).bind fun _ hr =>
            .ok (h.set_same i hr.2.2)
      | ok data =>
          exact (Buffer.readFd_ok_sat (h.bufs i) data).bind fun _ hr => .ok (h.set i hr.2.2)

/-- Freshly constructed buffers represent empty deques. -/
theorem of_init (h : (bufferStore ι).init s) : s.Represents Deques.empty := by
  refine ⟨fun i => ?_, h.2⟩
  obtain ⟨initialSize, hnew⟩ := h.1 i
  exact ((Buffer.new_sat initialSize).of_eq_ok hnew).1

end Store.Represents

/-- **`Buffer` refines a byte deque.** After any run of calls, each made under the precondition its
own assert states, the indices of every buffer are in order and inside the vector, the readable slice
of every buffer is the content of the deque after the same calls, the strings taken out are the ones
popped from the deques, and no assert of the next call can fail. -/
theorem bufferStore_refines {s₀ s : Store ι} {ops : List (BufferOp ι)}
    (hinit : (bufferStore ι).init s₀) (hrun : (bufferStore ι).Run s₀ ops s) :
    (∀ i, (s.bufs i).readerIndex ≤ (s.bufs i).writerIndex ∧
      (s.bufs i).writerIndex ≤ (s.bufs i).buffer.length ∧
      Buffer.kCheapPrepend ≤ (s.bufs i).buffer.length) ∧
    (∀ i, slice (s.bufs i).buffer (s.bufs i).readerIndex (s.bufs i).writerIndex
      = (ops.foldl Deques.next Deques.empty).deque i) ∧
    s.taken = (ops.foldl Deques.next Deques.empty).taken ∧
    (bufferStore ι).Safe s ∧ ∀ initialSize, ∃ b, Buffer.new initialSize = .ok b := by
  -- by induction on the run, with `Represents` as the relation
  have hrep : s.Represents (ops.foldl Deques.next Deques.empty) :=
    hrun.sim (R := Store.Represents) (fun _ _ op h hpre => h.exec op hpre)
      (Store.Represents.of_init hinit)
  refine ⟨fun i => ?_, fun i => (hrep.bufs i).content_eq, hrep.taken, fun op hpre => ?_, ?_⟩
  · have hwf := (hrep.bufs i).wf
    exact ⟨hwf.reader_le_writer, hwf.writer_le_size, hwf.cheap_le_size⟩
  · obtain ⟨s', hs', -⟩ := hrep.exec op hpre
    exact ⟨s', hs'⟩
  · intro initialSize
    obtain ⟨b, hb, -⟩ := Buffer.new_sat initialSize
    exact ⟨b, hb⟩

/-- The refinement on a run that uses both ends: a push at the back, then one at the front. -/
theorem bufferStore_refines_append_prepend :
    ∃ s : Store Unit,
      (bufferStore Unit).Run ⟨fun _ => ⟨List.replicate 8 0, 8, 8⟩, []⟩
        [.append () [7], .prepend () [9]] s ∧
      slice (s.bufs ()).buffer (s.bufs ()).readerIndex (s.bufs ()).writerIndex = [9, 7] := by
  have hinit : (bufferStore Unit).init ⟨fun _ => ⟨List.replicate 8 0, 8, 8⟩, []⟩ :=
    ⟨fun _ => ⟨0, rfl⟩, rfl⟩
  have happend : (bufferStore Unit).Run ⟨fun _ => ⟨List.replicate 8 0, 8, 8⟩, []⟩ [.append () [7]]
      ⟨fun _ => ⟨[0, 0, 0, 0, 0, 0, 0, 0, 7], 8, 9⟩, []⟩ := .snoc (.nil _) trivial rfl
  have hrun : (bufferStore Unit).Run ⟨fun _ => ⟨List.replicate 8 0, 8, 8⟩, []⟩
      [.append () [7], .prepend () [9]] ⟨fun _ => ⟨[0, 0, 0, 0, 0, 0, 0, 9, 7], 7, 9⟩, []⟩ :=
    .snoc happend (show [(9 : Byte)].length ≤ 8 by decide) rfl
  exact ⟨_, hrun, (bufferStore_refines hinit hrun).2.1 ()⟩

end Muduo.Net
