import Muduo.Net.ByteQueue
import Muduo.Support.Machine
import Mathlib.Algebra.Order.Ring.Nat
import Mathlib.Tactic.Common

/-! # `net::ZlibOutputStream`

The compressing stream of `net/ZlibStream.h`. Of `deflate` only what the class relies on is modelled: what
it takes from `next_in`, what it puts at `next_out` and what it returns are arguments. `next_in` is the
bytes from where it points to the end of what it was set to, or `none` for `NULL`; it and `avail_in` outlive
the call that sets them. `zlibOutput` is the machine of all calls on one stream, with the bytes that callers
have given to it and those that `deflate` was fed; the loops of `write` and `finish` are steps of their own.
`zlib_feeds_given_iff` says which calls keep the two together. -/

namespace Muduo.Net

open Support

/-- The result of a function of zlib. -/
inductive ZCode where
  | Z_OK
  | Z_STREAM_END
  | error (code : Int)
  deriving DecidableEq, Repr

/-- What a call of `deflate` does. -/
structure Deflated where
  /-- How much of the input it takes. -/
  consumed : Nat
  /-- What it writes to the output. -/
  produced : List Byte
  code : ZCode

/-- `ZlibOutputStream` with the part of its `z_stream` that it uses. -/
structure ZlibOutputStream where
  output : Buffer
  nextIn : Option (List Byte)
  availIn : Nat
  zerror : ZCode
  bufferSize : Nat

namespace ZlibOutputStream

variable (z : ZlibOutputStream)

/-- The constructor; `zerror` is the result of `deflateInit`. -/
def new (output : Buffer) (zerror : ZCode) : ZlibOutputStream :=
  { output, nextIn := none, availIn := 0, zerror, bufferSize := 1024 }

/-- Set `next_in` and `avail_in` to some bytes. A size is converted to a number of 32 bits. -/
def offer (bytes : List Byte) : ZlibOutputStream :=
  { z with nextIn := some bytes, availIn := bytes.length % 2 ^ 32 }

/-- `zerror_ = compress(flush)`; also returns the bytes that `deflate` was fed. -/
def compress (r : Deflated) : Checked (ZlibOutputStream × List Byte) := do
  let output ← z.output.ensureWritableBytes z.bufferSize
  let availOut := output.writableBytes % 2 ^ 32
  -- `deflate` moves both ends and writes to the output
  let fed := (z.nextIn.getD []).take r.consumed
  let output := output.storeAtBeginWrite r.produced
  let output ← output.hasWritten (output.writableBytes - (availOut - r.produced.length))
  let bufferSize :=
    if output.writableBytes = 0 ∧ z.bufferSize < 65536 then z.bufferSize * 2 else z.bufferSize
  return ({ output
            nextIn := z.nextIn.map (·.drop r.consumed)
            availIn := z.availIn - r.consumed
            zerror := r.code
            bufferSize }, fed)

/-- What is assumed of `deflate`: it takes no more than there is and writes no more than fits. -/
def Bounded (r : Deflated) : Prop :=
  r.consumed ≤ z.availIn ∧ ∀ output, z.output.ensureWritableBytes z.bufferSize = .ok output →
    r.produced.length ≤ output.writableBytes % 2 ^ 32

/-- `write(StringPiece)` up to its loop. -/
def writeBegin (buf : List Byte) : Checked ZlibOutputStream := do
  assert (z.nextIn = none ∧ z.availIn = 0) "zstream_.next_in == NULL && zstream_.avail_in == 0"
  return z.offer buf

/-- `write(StringPiece)` after its loop. -/
def writeEnd : Checked ZlibOutputStream := do
  if z.availIn = 0 then
    assert (z.nextIn.getD [] = []) "zstream_.next_in == buf.end()"
    return { z with nextIn := none }
  else return z

/-- `compress`, if there is anything to compress. -/
def compressSome (r : Deflated) : Checked (ZlibOutputStream × List Byte) :=
  if z.availIn > 0 then z.compress r else return (z, [])

/-- `write(Buffer*)` of a stream without an error; `r` is what `deflate` does, if it is called. Also
returns the bytes that `deflate` was fed, and the buffer. -/
def writeBuffer (input : ByteQueue) (r : Deflated) :
    Checked (ZlibOutputStream × List Byte × ByteQueue) := do
  let (z, fed) ← (z.offer input.content).compressSome r
  let input ← input.retrieve (input.readableBytes - z.availIn)
  return (z, fed, input)

end ZlibOutputStream

/-- Where a thread is in the functions of a stream. -/
inductive ZlibPc where
  | idle
  | writing -- in the loop of `write(StringPiece)`
  | finishing -- in the loop of `finish()`
  deriving DecidableEq, Repr

/-- A stream in use. -/
structure ZlibSession where
  stream : ZlibOutputStream
  pc : ZlibPc
  /-- What `deflate` was fed. -/
  fed : List Byte
  /-- The arguments of `write(StringPiece)` and what `write(Buffer*)` has taken from its arguments. -/
  given : List Byte
  /-- `write(Buffer*)` has been called, without an error before. -/
  wroteBuffer : Bool
  /-- `finish()` has gone through. -/
  finished : Bool

/-- A call of a function of a stream, or a turn of its loop. -/
inductive ZlibStep where
  | write (buf : List Byte)
  | writeTurn (r : Deflated)
  | writeEnd
  | writeBuffer (input : ByteQueue) (r : Deflated)
  | finish
  | finishTurn (r : Deflated)
  /-- `deflateEnd`, whose result is only passed on. -/
  | finishEnd

namespace ZlibSession

variable (s : ZlibSession)

/-- Calls are made one after the other, the loops run while their conditions hold, and `deflate` does what
is assumed of it. The size of a `StringPiece` is an `int`. -/
def Enabled : ZlibStep → Prop
  | .write buf => s.pc = .idle ∧ buf.length < 2 ^ 31
  | .writeTurn r => s.pc = .writing ∧ (s.stream.availIn > 0 ∧ s.stream.zerror = .Z_OK) ∧
      s.stream.Bounded r
  | .writeEnd => s.pc = .writing ∧ ¬ (s.stream.availIn > 0 ∧ s.stream.zerror = .Z_OK)
  | .writeBuffer input r => s.pc = .idle ∧ (s.stream.offer input.content).Bounded r
  | .finish => s.pc = .idle
  | .finishTurn r => s.pc = .finishing ∧ s.stream.zerror = .Z_OK ∧ s.stream.Bounded r
  | .finishEnd => s.pc = .finishing ∧ s.stream.zerror ≠ .Z_OK

/-- A turn of a loop. -/
def turn (r : Deflated) : Checked ZlibSession := do
  let (stream, fed) ← s.stream.compress r
  return { s with stream, fed := s.fed ++ fed }

/-- What a step does. -/
def exec : ZlibStep → Checked ZlibSession
  | .write buf =>
      if s.stream.zerror ≠ .Z_OK then return s
      else do
        let stream ← s.stream.writeBegin buf
        return { s with stream, pc := .writing, given := s.given ++ buf }
  | .writeTurn r => s.turn r
  | .writeEnd => do
      let stream ← s.stream.writeEnd
      return { s with stream, pc := .idle }
  | .writeBuffer input r =>
      if s.stream.zerror ≠ .Z_OK then return s
      else do
        let (stream, fed, input') ← s.stream.writeBuffer input r
        let removed := input.content.take (input.readableBytes - input'.readableBytes)
        return { s with
          stream, fed := s.fed ++ fed, given := s.given ++ removed, wroteBuffer := true }
  | .finish => if s.stream.zerror ≠ .Z_OK then return s else return { s with pc := .finishing }
  | .finishTurn r => s.turn r
  | .finishEnd =>
      return { s with
        stream := { s.stream with zerror := .Z_STREAM_END }, pc := .idle, finished := true }

end ZlibSession

/-- All calls on a stream. -/
def zlibOutput : Machine ZlibSession ZlibStep where
  init s := ∃ output zerror, output.WF ∧ s =
    { stream := ZlibOutputStream.new output zerror, pc := .idle, fed := [], given := [],
      wroteBuffer := false, finished := false }
  enabled := ZlibSession.Enabled
  exec := ZlibSession.exec

/-! ## One call of `deflate` -/

namespace ZlibOutputStream

variable {z : ZlibOutputStream} {r : Deflated}

/-- How much larger the output and `bufferSize_` can become in a call. -/
structure Grown (z z' : ZlibOutputStream) : Prop where
  length : z'.output.buffer.length ≤ z.output.buffer.length + z.bufferSize
  le : z.bufferSize ≤ z'.bufferSize
  le_double : z'.bufferSize ≤ 2 * z.bufferSize

/-- What `compress` does to the input; the output keeps its invariant. -/
structure Compressed (z : ZlibOutputStream) (r : Deflated) (z' : ZlibOutputStream) (fed : List Byte) :
    Prop where
  wf : z'.output.WF
  grown : z.Grown z'
  nextIn : z'.nextIn = z.nextIn.map (·.drop r.consumed)
  availIn : z'.availIn = z.availIn - r.consumed
  zerror : z'.zerror = r.code
  fed : fed = (z.nextIn.getD []).take r.consumed

/-- What `compress` does to the input and the output. -/
theorem compress_sat (hwf : z.output.WF) (hr : z.Bounded r) :
    (z.compress r).Sat fun p => z.Compressed r p.1 p.2 := by
  obtain ⟨output, houtput, hspace⟩ := Buffer.ensureWritableBytes_sat hwf.represents z.bufferSize
  have hproduced := hr.2 output houtput
  have hle := Nat.mod_le output.writableBytes (2 ^ 32)
  have hstore := Buffer.storeAtBeginWrite_represents hspace.represents (hproduced.trans hle)
  have hfit : output.writerIndex + r.produced.length ≤ output.buffer.length := by
    have hsize := hspace.represents.wf.writer_le_size
    have hroom := hproduced.trans hle
    unfold Buffer.writableBytes at hroom
    omega
  have hlength : (output.storeAtBeginWrite r.produced).buffer.length ≤ z.output.buffer.length + z.bufferSize :=
    (length_overwrite _ _ _ hfit).le.trans hspace.length
  rw [compress, houtput, Checked.ok_bind]
  dsimp only
  obtain ⟨output', houtput', hrep⟩ := Buffer.hasWritten_sat hstore
    (Nat.sub_le _ (output.writableBytes % 2 ^ 32 - r.produced.length))
  rw [houtput', Checked.ok_bind]
  obtain ⟨-, houtput'⟩ := Checked.assert_bind_eq_ok.mp houtput'
  cases houtput'
  refine .ok ⟨hrep.wf, ⟨hlength, ?_, ?_⟩, rfl, rfl, rfl, rfl⟩
  · dsimp only
    split <;> omega
  · dsimp only
    split <;> omega

/-- `deflate` may write as much as `bufferSize_`, when that is a number of 32 bits together with the output. -/
theorem bounded_of_small (hwf : z.output.WF) (hsmall : z.output.buffer.length + z.bufferSize < 2 ^ 32)
    (hconsumed : r.consumed ≤ z.availIn) (hproduced : r.produced.length ≤ z.bufferSize) : z.Bounded r := by
  refine ⟨hconsumed, fun output houtput => ?_⟩
  have hspace := (Buffer.ensureWritableBytes_sat hwf.represents z.bufferSize).of_eq_ok houtput
  have hroom := hspace.room
  have hlength := hspace.length
  have hwritable : output.writableBytes ≤ output.buffer.length := Nat.sub_le _ _
  rw [Nat.mod_eq_of_lt (by omega)]
  omega

/-- The output is big enough for nothing to be written to it. -/
theorem bounded_nothing (hconsumed : r.consumed ≤ z.availIn) (hproduced : r.produced = []) :
    z.Bounded r := by
  refine ⟨hconsumed, fun output _ => ?_⟩
  rw [hproduced]
  exact Nat.zero_le _

/-- Feeding takes from the front of what is left. -/
theorem Compressed.split {z' : ZlibOutputStream} {fed rest : List Byte} (h : z.Compressed r z' fed)
    (hnext : z.nextIn = some rest) : ∃ rest', z'.nextIn = some rest' ∧ fed ++ rest' = rest ∧
      rest' = rest.drop r.consumed := by
  refine ⟨rest.drop r.consumed, ?_, ?_, rfl⟩
  · rw [h.nextIn, hnext]
    rfl
  · rw [h.fed, hnext]
    exact List.take_append_drop _ _

/-- With no input there is nothing to take. -/
theorem Compressed.nothing {z' : ZlibOutputStream} {fed : List Byte} (h : z.Compressed r z' fed)
    (hr : z.Bounded r) (havail : z.availIn = 0) : fed = [] ∧ z'.availIn = 0 := by
  have hconsumed : r.consumed = 0 := Nat.eq_zero_of_le_zero (havail ▸ hr.1)
  constructor
  · rw [h.fed, hconsumed, List.take_zero]
  · rw [h.availIn, havail, Nat.zero_sub]

/-- What `write(Buffer*)` does: all but `avail_in` is removed. -/
structure WroteBuffer (z : ZlibOutputStream) (input : ByteQueue) (r : Deflated) (z' : ZlibOutputStream)
    (fed : List Byte) (input' : ByteQueue) : Prop where
  wf : z'.output.WF
  grown : z.Grown z'
  le : r.consumed ≤ input.content.length % 2 ^ 32
  nextIn : z'.nextIn = some (input.content.drop r.consumed)
  availIn : z'.availIn = input.content.length % 2 ^ 32 - r.consumed
  zerror : z'.zerror = z.zerror ∨ z'.zerror = r.code
  fed : fed = input.content.take r.consumed
  input : input'.content = input.content.drop (input.content.length - z'.availIn)

/-- One call of `deflate` takes what it consumed and keeps the output well-formed. -/
theorem compressSome_sat (hwf : z.output.WF) (hr : z.Bounded r) :
    (z.compressSome r).Sat fun p => p.1.output.WF ∧ z.Grown p.1 ∧
      p.1.nextIn = z.nextIn.map (·.drop r.consumed) ∧
      p.1.availIn = z.availIn - r.consumed ∧ (p.1.zerror = z.zerror ∨ p.1.zerror = r.code) ∧
      p.2 = (z.nextIn.getD []).take r.consumed := by
  unfold compressSome
  split
  case isTrue =>
    refine (compress_sat hwf hr).mono fun p hp => ?_
    exact ⟨hp.wf, hp.grown, hp.nextIn, hp.availIn, .inr hp.zerror, hp.fed⟩
  case isFalse hnone =>
    have hconsumed : r.consumed = 0 := Nat.eq_zero_of_le_zero (hr.1.trans (Nat.le_of_not_gt hnone))
    refine .ok ⟨hwf, ⟨Nat.le_add_right _ _, le_rfl, by dsimp only; omega⟩, ?_, ?_, .inl rfl, ?_⟩
    · rw [hconsumed]
      exact Option.map_id'.symm
    · rw [hconsumed]
      rfl
    · rw [hconsumed]
      rfl

/-- What `write(Buffer*)` does. -/
theorem writeBuffer_sat (hwf : z.output.WF) {input : ByteQueue}
    (hr : (z.offer input.content).Bounded r) :
    (z.writeBuffer input r).Sat fun p => z.WroteBuffer input r p.1 p.2.1 p.2.2 := by
  refine (compressSome_sat (z := z.offer input.content) hwf hr).bind fun p hp => ?_
  obtain ⟨hwf', hgrown, hnext, havail, hzerror, hfed⟩ := hp
  refine (input.retrieve_sat ?_).bind fun input' hinput => ?_
  · rw [input.readableBytes_eq]
    exact Nat.sub_le _ _
  · rw [input.readableBytes_eq] at hinput
    exact .ok ⟨hwf', ⟨hgrown.length, hgrown.le, hgrown.le_double⟩, hr.1, hnext, havail, hzerror, hfed, hinput⟩

/-- What is removed is what `deflate` was fed, if the size of the buffer is a number of 32 bits. -/
theorem WroteBuffer.split_iff {input input' : ByteQueue} {z' : ZlibOutputStream}
    {fed : List Byte} (h : z.WroteBuffer input r z' fed input') :
    input.content = fed ++ input'.content ↔ input.content.length < 2 ^ 32 := by
  have hle := h.le
  have hmod := Nat.mod_le input.content.length (2 ^ 32)
  rw [h.fed, h.input, h.availIn]
  constructor
  · intro hsplit
    -- the lengths tell how many bytes were removed
    have hlength := congrArg List.length hsplit
    rw [List.length_append, List.length_take, List.length_drop] at hlength
    have hlt := Nat.mod_lt input.content.length (Nat.two_pow_pos 32)
    omega
  · intro hlt
    have hn : input.content.length - (input.content.length % 2 ^ 32 - r.consumed) = r.consumed := by
      rw [Nat.mod_eq_of_lt hlt] at hle ⊢
      omega
    rw [hn, List.take_append_drop]

/-- The bytes taken are those fed to `deflate`. -/
theorem WroteBuffer.removed_eq {input input' : ByteQueue} {z' : ZlibOutputStream} {fed : List Byte}
    (h : z.WroteBuffer input r z' fed input') (hlt : input.content.length < 2 ^ 32) :
    input.content.take (input.readableBytes - input'.readableBytes) = fed := by
  have hsplit := h.split_iff.mpr hlt
  rw [input.readableBytes_eq, input'.readableBytes_eq, hsplit, List.length_append,
    Nat.add_sub_cancel, List.take_left]

end ZlibOutputStream

/-! ## What a step does -/

namespace ZlibSession

variable {s t : ZlibSession}

/-- What the steps of the machine do, by the conditions that the code checks. -/
inductive Moves (s : ZlibSession) : ZlibStep → ZlibSession → Prop where
  | write (buf : List Byte) : s.stream.zerror = .Z_OK → s.stream.nextIn = none → s.stream.availIn = 0 →
      Moves s (.write buf)
        { s with stream := s.stream.offer buf, pc := .writing, given := s.given ++ buf }
  | writeTurn (r : Deflated) {z : ZlibOutputStream} {fed : List Byte} : s.stream.Compressed r z fed →
      Moves s (.writeTurn r) { s with stream := z, fed := s.fed ++ fed }
  | writeEnd : s.stream.availIn = 0 → s.stream.nextIn.getD [] = [] →
      Moves s .writeEnd { s with stream := { s.stream with nextIn := none }, pc := .idle }
  | writeEndLeft : s.stream.availIn ≠ 0 → Moves s .writeEnd { s with pc := .idle }
  | writeBuffer (input : ByteQueue) (r : Deflated) {z : ZlibOutputStream} {fed : List Byte}
      {input' : ByteQueue} : s.stream.zerror = .Z_OK → s.stream.WroteBuffer input r z fed input' →
      Moves s (.writeBuffer input r)
        { s with
          stream := z, fed := s.fed ++ fed
          given := s.given ++ input.content.take (input.readableBytes - input'.readableBytes)
          wroteBuffer := true }
  | finish : s.stream.zerror = .Z_OK → Moves s .finish { s with pc := .finishing }
  | finishTurn (r : Deflated) {z : ZlibOutputStream} {fed : List Byte} : s.stream.Compressed r z fed →
      Moves s (.finishTurn r) { s with stream := z, fed := s.fed ++ fed }
  | finishEnd : Moves s .finishEnd
      { s with stream := { s.stream with zerror := .Z_STREAM_END }, pc := .idle, finished := true }
  | failed (a : ZlibStep) : s.stream.zerror ≠ .Z_OK → Moves s a s

/-- A turn of the loop compresses. -/
theorem turn_sat {r : Deflated} (hwf : s.stream.output.WF) (hr : s.stream.Bounded r) :
    (s.turn r).Sat fun t => ∃ z fed, s.stream.Compressed r z fed ∧
      t = { s with stream := z, fed := s.fed ++ fed } :=
  (ZlibOutputStream.compress_sat hwf hr).bind fun p hp => .ok ⟨p.1, p.2, hp, rfl⟩

/-- The asserts of `write(StringPiece)`; no other function has one that can fail. -/
def Asserts (s : ZlibSession) : ZlibStep → Prop
  | .write _ => s.stream.zerror = .Z_OK → s.stream.nextIn = none ∧ s.stream.availIn = 0
  | .writeEnd => s.stream.availIn = 0 → s.stream.nextIn.getD [] = []
  | _ => True

/-- Every step that keeps to the assertions succeeds. -/
theorem exec_sat {a : ZlibStep} (hwf : s.stream.output.WF) (ha : s.Enabled a) (hasserts : s.Asserts a) :
    (s.exec a).Sat fun t => s.Moves a t := by
  cases a with
  | write buf =>
      by_cases hok : s.stream.zerror = .Z_OK
      · obtain ⟨hnext, havail⟩ := hasserts hok
        rw [exec, if_neg (not_not_intro hok), ZlibOutputStream.writeBegin, assert_pos ⟨hnext, havail⟩]
        exact .ok (.write buf hok hnext havail)
      · rw [exec, if_pos hok]
        exact .ok (.failed _ hok)
  | writeTurn r =>
      refine (turn_sat hwf ha.2.2).mono fun t ht => ?_
      obtain ⟨z, fed, hz, rfl⟩ := ht
      exact .writeTurn r hz
  | writeEnd =>
      rw [exec, ZlibOutputStream.writeEnd]
      by_cases havail : s.stream.availIn = 0
      · rw [if_pos havail, assert_pos (hasserts havail)]
        exact .ok (.writeEnd havail (hasserts havail))
      · rw [if_neg havail]
        exact .ok (.writeEndLeft havail)
  | writeBuffer input r =>
      by_cases hok : s.stream.zerror = .Z_OK
      · rw [exec, if_neg (not_not_intro hok)]
        refine (ZlibOutputStream.writeBuffer_sat hwf ha.2).bind fun p hp => ?_
        exact .ok (.writeBuffer input r hok hp)
      · rw [exec, if_pos hok]
        exact .ok (.failed _ hok)
  | finish =>
      by_cases hok : s.stream.zerror = .Z_OK
      · rw [exec, if_neg (not_not_intro hok)]
        exact .ok (.finish hok)
      · rw [exec, if_pos hok]
        exact .ok (.failed _ hok)
  | finishTurn r =>
      refine (turn_sat hwf ha.2.2).mono fun t ht => ?_
      obtain ⟨z, fed, hz, rfl⟩ := ht
      exact .finishTurn r hz
  | finishEnd => exact .ok .finishEnd

/-- A step that goes through has passed its asserts. -/
theorem asserts_of_exec {a : ZlibStep} (ht : s.exec a = .ok t) : s.Asserts a := by
  cases a with
  | write buf =>
      intro hok
      rw [exec, if_neg (not_not_intro hok), ZlibOutputStream.writeBegin] at ht
      by_contra hnot
      rw [assert_neg hnot] at ht
      cases ht
  | writeEnd =>
      intro havail
      rw [exec, ZlibOutputStream.writeEnd, if_pos havail] at ht
      by_contra hnot
      rw [assert_neg hnot] at ht
      cases ht
  | _ => exact trivial

/-- Every step that succeeds is one of these. -/
theorem moves_of_exec {a : ZlibStep} (hwf : s.stream.output.WF) (ha : s.Enabled a)
    (ht : s.exec a = .ok t) : s.Moves a t :=
  (exec_sat hwf ha (asserts_of_exec ht)).of_eq_ok ht

/-! ## Every run -/

/-- What holds of `next_in` in every state. -/
structure Inv (s : ZlibSession) : Prop where
  wf : s.stream.output.WF
  avail : s.stream.availIn ≤ (s.stream.nextIn.getD []).length
  writing : s.pc = .writing → s.wroteBuffer = false ∧
    ∃ rest, s.stream.nextIn = some rest ∧ s.stream.availIn = rest.length
  /-- `write(StringPiece)` resets `next_in`, -/
  clean : s.pc = .idle → s.stream.zerror = .Z_OK → s.wroteBuffer = false →
    s.stream.nextIn = none ∧ s.stream.availIn = 0
  /-- and `write(Buffer*)` leaves it pointing into its argument. -/
  wrote : s.wroteBuffer = true → s.stream.nextIn ≠ none

/-- A turn keeps the invariant. -/
theorem Inv.turn {r : Deflated} {z : ZlibOutputStream} {fed : List Byte} (h : s.Inv)
    (hz : s.stream.Compressed r z fed) (hbusy : s.pc ≠ .idle) :
    Inv { s with stream := z, fed := s.fed ++ fed } where
  wf := hz.wf
  avail := by
    have havail := h.avail
    cases hnext : s.stream.nextIn with
    | none =>
        rw [hnext] at havail
        exact (congrArg (· ≤ _) hz.availIn).mpr ((Nat.sub_le _ _).trans (havail.trans (Nat.zero_le _)))
    | some rest =>
        rw [hnext, Option.getD_some] at havail
        obtain ⟨rest', hrest', -, rfl⟩ := hz.split hnext
        change z.availIn ≤ (z.nextIn.getD []).length
        rw [hrest', hz.availIn, Option.getD_some, List.length_drop]
        exact Nat.sub_le_sub_right havail _
  writing := by
    intro hpc
    obtain ⟨hwrote, rest, hnext, havail⟩ := h.writing hpc
    obtain ⟨rest', hrest', -, rfl⟩ := hz.split hnext
    refine ⟨hwrote, _, hrest', ?_⟩
    rw [List.length_drop, ← havail]
    exact hz.availIn
  clean := fun hpc => absurd hpc hbusy
  wrote := by
    intro hwrote hnone
    refine h.wrote hwrote ?_
    rwa [hz.nextIn, Option.map_eq_none_iff] at hnone

/-- Every step keeps the invariant. -/
theorem Inv.moves {a : ZlibStep} (h : s.Inv) (ha : s.Enabled a) (hmoves : s.Moves a t) : t.Inv := by
  cases hmoves with
  | write buf hok hnext havail =>
      have hlength : buf.length % 2 ^ 32 = buf.length := by
        refine Nat.mod_eq_of_lt (ha.2.trans ?_)
        decide
      have hwrote : s.wroteBuffer = false := by
        by_contra hne
        exact h.wrote (by simpa using hne) hnext
      exact
        { wf := h.wf
          avail := hlength.le
          writing := fun _ => ⟨hwrote, buf, rfl, hlength⟩
          clean := nofun
          wrote := fun _ => nofun }
  | writeTurn r hz => exact h.turn hz (ha.1.trans_ne nofun)
  | writeEnd havail hnext =>
      have hwrote := (h.writing ha.1).1
      exact
        { wf := h.wf
          avail := havail.le
          writing := nofun
          clean := fun _ _ _ => ⟨rfl, havail⟩
          wrote := fun hne => absurd (hwrote.symm.trans hne) nofun }
  | writeEndLeft havail =>
      -- the loop has ended with an error
      have herror : s.stream.zerror ≠ .Z_OK := fun hok => ha.2 ⟨Nat.pos_of_ne_zero havail, hok⟩
      exact
        { wf := h.wf
          avail := h.avail
          writing := nofun
          clean := fun _ hok => absurd hok herror
          wrote := h.wrote }
  | @writeBuffer input r z fed input' hok hz =>
      have hidle : s.pc ≠ .writing := ha.1.trans_ne nofun
      refine { wf := hz.wf, avail := ?_, writing := fun hpc => absurd hpc hidle, clean := ?_, wrote := ?_ }
      · change z.availIn ≤ (z.nextIn.getD []).length
        rw [hz.availIn, hz.nextIn, Option.getD_some, List.length_drop]
        exact Nat.sub_le_sub_right (Nat.mod_le _ _) _
      · exact fun _ _ => nofun
      · intro _ hnone
        exact Option.some_ne_none _ (hz.nextIn.symm.trans hnone)
  | finish hok => exact { wf := h.wf, avail := h.avail, writing := nofun, clean := nofun, wrote := h.wrote }
  | finishTurn r hz => exact h.turn hz (ha.1.trans_ne nofun)
  | finishEnd =>
      exact { wf := h.wf, avail := h.avail, writing := nofun, clean := fun _ => nofun, wrote := h.wrote }
  | failed => exact h

/-- The invariant holds in every reachable state. -/
theorem Inv.of_reachable (hs : zlibOutput.Reachable s) : s.Inv := by
  refine hs.induction ?_ ?_
  · rintro _ ⟨output, zerror, hwf, rfl⟩
    exact
      { wf := hwf, avail := Nat.le_refl _, writing := nofun, clean := fun _ _ _ => ⟨rfl, rfl⟩
        wrote := nofun }
  · intro s a t h ha ht
    exact h.moves ha (moves_of_exec h.wf ha ht)

/-! ## Runs that keep to the conditions -/

/-- The calls that are in order for a stream without an error: no `write(StringPiece)` after a
`write(Buffer*)`, no buffer with a size of more than 32 bits, and no `finish()` after a `write(Buffer*)`
that has left bytes behind. -/
def Orderly (s : ZlibSession) : ZlibStep → Prop
  | .write _ => s.stream.zerror = .Z_OK → s.wroteBuffer = false
  | .writeBuffer input _ => s.stream.zerror = .Z_OK → input.content.length < 2 ^ 32
  | .finish => s.stream.zerror = .Z_OK → s.stream.availIn = 0
  | _ => True

/-- The bytes given to the stream are those that `deflate` was fed and those that it is going to be fed in
the call that is under way. -/
structure Fed (s : ZlibSession) : Prop where
  idle : s.pc = .idle → s.stream.zerror = .Z_OK → s.fed = s.given
  writing : s.pc = .writing → s.given = s.fed ++ s.stream.nextIn.getD []
  finishing : s.pc = .finishing → s.fed = s.given ∧ s.stream.availIn = 0
  finished : s.finished = true → s.fed = s.given ∧ s.stream.zerror ≠ .Z_OK ∧ s.pc = .idle

/-- While a call is under way the stream is not finished. -/
theorem Fed.not_finished (h : s.Fed) (hbusy : s.pc ≠ .idle) : s.finished ≠ true :=
  fun hfinished => hbusy (h.finished hfinished).2.2

/-- Every orderly step keeps the account of the bytes. -/
theorem Fed.moves {a : ZlibStep} (h : s.Fed) (hinv : s.Inv) (ha : s.Enabled a) (horder : s.Orderly a)
    (hmoves : s.Moves a t) : t.Fed := by
  cases hmoves with
  | write buf hok hnext havail =>
      refine { idle := nofun, writing := fun _ => ?_, finishing := nofun, finished := fun hfinished => ?_ }
      · exact congrArg (· ++ buf) (h.idle ha.1 hok).symm
      · exact absurd hok (h.finished hfinished).2.1
  | @writeTurn r z fed hz =>
      have hbusy : s.pc ≠ .idle := ha.1.trans_ne nofun
      refine { idle := fun hpc => absurd hpc hbusy, writing := fun _ => ?_, finishing := ?_,
               finished := fun hfinished => absurd hfinished (h.not_finished hbusy) }
      · obtain ⟨-, rest, hnext, -⟩ := hinv.writing ha.1
        obtain ⟨rest', hrest', hsplit, -⟩ := hz.split hnext
        change s.given = (s.fed ++ fed) ++ z.nextIn.getD []
        rw [h.writing ha.1, hnext, hrest', Option.getD_some, Option.getD_some, List.append_assoc, hsplit]
      · intro hpc
        exact absurd (ha.1.symm.trans hpc) nofun
  | writeEnd havail hnext =>
      have hbusy : s.pc ≠ .idle := ha.1.trans_ne nofun
      refine { idle := fun _ _ => ?_, writing := nofun, finishing := nofun,
               finished := fun hfinished => absurd hfinished (h.not_finished hbusy) }
      have hgiven := h.writing ha.1
      rw [hnext, List.append_nil] at hgiven
      exact hgiven.symm
  | writeEndLeft havail =>
      have hbusy : s.pc ≠ .idle := ha.1.trans_ne nofun
      exact
        { idle := fun _ hok => absurd ⟨Nat.pos_of_ne_zero havail, hok⟩ ha.2
          writing := nofun
          finishing := nofun
          finished := fun hfinished => absurd hfinished (h.not_finished hbusy) }
  | @writeBuffer input r z fed input' hok hz =>
      refine { idle := fun _ _ => ?_, writing := ?_, finishing := ?_, finished := ?_ }
      · change s.fed ++ fed = s.given ++ _
        rw [hz.removed_eq (horder hok), h.idle ha.1 hok]
      · intro hpc
        exact absurd (ha.1.symm.trans hpc) nofun
      · intro hpc
        exact absurd (ha.1.symm.trans hpc) nofun
      · intro hfinished
        exact absurd hok (h.finished hfinished).2.1
  | finish hok =>
      exact
        { idle := nofun
          writing := nofun
          finishing := fun _ => ⟨h.idle ha hok, horder hok⟩
          finished := fun hfinished => absurd hok (h.finished hfinished).2.1 }
  | @finishTurn r z fed hz =>
      have hbusy : s.pc ≠ .idle := ha.1.trans_ne nofun
      obtain ⟨hfed, havail⟩ := h.finishing ha.1
      obtain ⟨rfl, hzero⟩ := hz.nothing ha.2.2 havail
      refine { idle := fun hpc => absurd hpc hbusy, writing := ?_, finishing := fun _ => ⟨?_, hzero⟩,
               finished := fun hfinished => absurd hfinished (h.not_finished hbusy) }
      · intro hpc
        exact absurd (ha.1.symm.trans hpc) nofun
      · exact (List.append_nil _).trans hfed
  | finishEnd =>
      exact
        { idle := fun _ => nofun
          writing := nofun
          finishing := nofun
          finished := fun _ => ⟨(h.finishing ha.1).1, nofun, rfl⟩ }
  | failed => exact h

/-- No assert fails as long as the calls are in order. -/
theorem Inv.asserts {a : ZlibStep} (h : s.Inv) (ha : s.Enabled a) (horder : s.Orderly a) :
    s.Asserts a := by
  cases a with
  | write buf => exact fun hok => h.clean ha.1 hok (horder hok)
  | writeEnd =>
      intro havail
      obtain ⟨-, rest, hnext, hrest⟩ := h.writing ha.1
      rw [hnext, Option.getD_some]
      exact List.eq_nil_of_length_eq_zero (hrest.symm.trans havail)
  | _ => exact trivial

/-- In an orderly run the invariants hold and no assertion fails. -/
theorem Fed.of_reachable (hs : (zlibOutput.restrict Orderly).Reachable s) :
    (s.Inv ∧ s.Fed) ∧ (zlibOutput.restrict Orderly).Safe s := by
  refine Machine.invariant (P := fun s => s.Inv ∧ s.Fed) ?_ ?_ hs
  · rintro s ⟨output, zerror, hwf, rfl⟩
    refine ⟨Inv.of_reachable (.of_init ⟨output, zerror, hwf, rfl⟩), ?_⟩
    exact { idle := fun _ _ => rfl, writing := nofun, finishing := nofun, finished := nofun }
  · rintro s a ⟨hinv, hfed⟩ ⟨ha, horder⟩
    refine (exec_sat hinv.wf ha (hinv.asserts ha horder)).mono fun t hmoves => ?_
    exact ⟨hinv.moves ha hmoves, hfed.moves hinv ha horder hmoves⟩

/-! ## The conditions are needed -/

/-- After `write(Buffer*)` the assert of `write(StringPiece)` fails. -/
theorem Inv.write_iff (h : s.Inv) (hidle : s.pc = .idle) (hok : s.stream.zerror = .Z_OK) {buf : List Byte}
    (hbuf : buf.length < 2 ^ 31) : (∃ t, s.exec (.write buf) = .ok t) ↔ s.wroteBuffer = false := by
  constructor
  · rintro ⟨t, ht⟩
    have hnone := (asserts_of_exec ht hok).1
    by_contra hwrote
    exact h.wrote (by simpa using hwrote) hnone
  · intro hwrote
    obtain ⟨t, ht, -⟩ := exec_sat h.wf (a := .write buf) ⟨hidle, hbuf⟩ fun _ => h.clean hidle hok hwrote
    exact ⟨t, ht⟩

/-- The steps of `finish()`. -/
def Finishing (_ : ZlibSession) : ZlibStep → Prop
  | .finish => True
  | .finishTurn _ => True
  | .finishEnd => True
  | _ => False

/-- With nothing left, `finish()` feeds `deflate` nothing. -/
theorem Inv.fed_of_finishing (h : s.Inv) (havail : s.stream.availIn = 0) {as : List ZlibStep}
    (hrun : (zlibOutput.restrict Finishing).Run s as t) : t.fed = s.fed := by
  have hboth : t.Inv ∧ t.stream.availIn = 0 ∧ t.fed = s.fed := by
    refine hrun.induction (P := fun t => t.Inv ∧ t.stream.availIn = 0 ∧ t.fed = s.fed) ?_
      ⟨h, havail, rfl⟩
    rintro u a v ⟨hinv, hzero, hfed⟩ ⟨ha, hfinishing⟩ hv
    have hmoves := moves_of_exec hinv.wf ha hv
    refine ⟨hinv.moves ha hmoves, ?_⟩
    cases hmoves with
    | @finishTurn r z fed hz =>
        obtain ⟨rfl, hzero'⟩ := hz.nothing ha.2.2 hzero
        exact ⟨hzero', (List.append_nil _).trans hfed⟩
    | finish => exact ⟨hzero, hfed⟩
    | finishEnd => exact ⟨hzero, hfed⟩
    | failed => exact ⟨hzero, hfed⟩
    | write => exact hfinishing.elim
    | writeTurn => exact hfinishing.elim
    | writeEnd => exact hfinishing.elim
    | writeEndLeft => exact hfinishing.elim
    | writeBuffer => exact hfinishing.elim
  exact hboth.2.2

/-- `finish()` feeds `deflate` what `next_in` has been left pointing to. -/
theorem Inv.finish_feeds (h : s.Inv) (hidle : s.pc = .idle) (hok : s.stream.zerror = .Z_OK)
    (havail : s.stream.availIn ≠ 0) : ∃ as t, (zlibOutput.restrict Finishing).Run s as t ∧
      t.finished = true ∧ t.given = s.given ∧ t.fed = s.fed ++ (s.stream.nextIn.getD []).take 1 := by
  -- `deflate` takes one byte and says that it is done
  let r : Deflated := ⟨1, [], .Z_STREAM_END⟩
  let u : ZlibSession := { s with pc := .finishing }
  have hr : u.stream.Bounded r :=
    ZlibOutputStream.bounded_nothing (Nat.one_le_iff_ne_zero.mpr havail) rfl
  have hu : s.exec .finish = .ok u := by
    rw [exec, if_neg (not_not_intro hok)]
    rfl
  obtain ⟨v, hv, z, fed, hz, rfl⟩ := turn_sat (s := u) h.wf hr
  have herror : z.zerror ≠ .Z_OK := hz.zerror.trans_ne nofun
  have hfinish : (zlibOutput.restrict Finishing).enabled s .finish := ⟨hidle, trivial⟩
  have hturn : (zlibOutput.restrict Finishing).enabled u (.finishTurn r) := ⟨⟨rfl, hok, hr⟩, trivial⟩
  have hend : (zlibOutput.restrict Finishing).enabled { u with stream := z, fed := u.fed ++ fed }
      .finishEnd := ⟨⟨rfl, herror⟩, trivial⟩
  have hrun := ((Machine.Run.single hfinish hu).snoc hturn hv).snoc hend rfl
  exact ⟨_, _, hrun, rfl, rfl, congrArg (s.fed ++ ·) hz.fed⟩

/-- `finish()` feeds nothing more exactly when no input is left. -/
theorem Inv.finish_iff (h : s.Inv) (hidle : s.pc = .idle) (hok : s.stream.zerror = .Z_OK) :
    (∀ as t, (zlibOutput.restrict Finishing).Run s as t → t.finished = true → t.fed = s.fed) ↔
      s.stream.availIn = 0 := by
  constructor
  · intro hkeeps
    by_contra havail
    obtain ⟨as, t, hrun, hfinished, -, hfed⟩ := h.finish_feeds hidle hok havail
    rw [hkeeps as t hrun hfinished] at hfed
    -- the byte that was taken is there
    have hlength := congrArg List.length hfed
    rw [List.length_append, List.length_take] at hlength
    have hle := h.avail
    omega
  · intro havail as t hrun _
    exact h.fed_of_finishing havail hrun

end ZlibSession

open ZlibSession in
/-- **What `deflate` is fed.** On every run whose calls are in order no assert fails, `write(Buffer*)`
removes from its argument exactly what `deflate` takes, and `deflate` has been fed exactly what was given to
the stream, between calls as long as there is no error and when `finish()` has gone through. In a state
between calls and without an error each of the conditions is needed: `write(StringPiece)` succeeds only if
`write(Buffer*)` was not called, `write(Buffer*)` removes what is taken only from a buffer whose size is a
number of 32 bits, and `finish()` feeds no more bytes only if none were left. -/
theorem zlib_feeds_given_iff (s : ZlibSession) :
    ((zlibOutput.restrict Orderly).Reachable s →
      (zlibOutput.restrict Orderly).Safe s ∧
      (s.pc = .idle → s.stream.zerror = .Z_OK → s.fed = s.given) ∧
      (s.finished = true → s.fed = s.given)) ∧
    (zlibOutput.Reachable s → s.pc = .idle → s.stream.zerror = .Z_OK →
      (∀ buf, buf.length < 2 ^ 31 →
        ((∃ t, s.exec (.write buf) = .ok t) ↔ s.wroteBuffer = false)) ∧
      (∀ input r, s.Enabled (.writeBuffer input r) →
        ∃ z fed input', s.stream.writeBuffer input r = .ok (z, fed, input') ∧
          (input.content = fed ++ input'.content ↔ input.content.length < 2 ^ 32)) ∧
      ((∀ as t, (zlibOutput.restrict Finishing).Run s as t → t.finished = true → t.fed = s.fed) ↔
        s.stream.availIn = 0)) := by
  constructor
  · intro hs
    obtain ⟨⟨-, hfed⟩, hsafe⟩ := Fed.of_reachable hs
    exact ⟨hsafe, hfed.idle, fun hfinished => (hfed.finished hfinished).1⟩
  · intro hs hidle hok
    have h := Inv.of_reachable hs
    refine ⟨fun buf hbuf => h.write_iff hidle hok hbuf, ?_, h.finish_iff hidle hok⟩
    intro input r ha
    obtain ⟨⟨z, fed, input'⟩, hexec, hz⟩ := ZlibOutputStream.writeBuffer_sat h.wf ha.2
    exact ⟨z, fed, input', hexec, hz.split_iff⟩

namespace ZlibSession

variable {s : ZlibSession}

/-- A stream that has just been made. -/
def fresh : ZlibSession :=
  { stream := .new ByteQueue.new.buffer .Z_OK, pc := .idle, fed := [], given := [], wroteBuffer := false
    finished := false }

/-- A new stream is initial. -/
theorem init_fresh : zlibOutput.init fresh := ⟨_, _, ByteQueue.new.wf, rfl⟩

/-- `write(Buffer*)` of a buffer of which `deflate` takes the first `n` bytes. -/
theorem exists_writeBuffer (hwf : s.stream.output.WF) (hidle : s.pc = .idle)
    (hok : s.stream.zerror = .Z_OK) (input : ByteQueue) (n : Nat) (hn : n ≤ input.content.length)
    (hlt : input.content.length < 2 ^ 32) :
    ∃ r t, s.Enabled (.writeBuffer input r) ∧ s.exec (.writeBuffer input r) = .ok t ∧
      (t.pc = .idle ∧ t.finished = s.finished ∧ t.stream.zerror = .Z_OK) ∧
      t.fed = s.fed ++ input.content.take n ∧ t.given = s.given ++ input.content.take n ∧
      t.stream.nextIn = some (input.content.drop n) ∧ t.stream.availIn = input.content.length - n ∧
      t.stream.output.WF ∧ s.stream.Grown t.stream := by
  have hmod : input.content.length % 2 ^ 32 = input.content.length := Nat.mod_eq_of_lt hlt
  let r : Deflated := ⟨n, [], .Z_OK⟩
  have hr : (s.stream.offer input.content).Bounded r :=
    ZlibOutputStream.bounded_nothing (hn.trans hmod.ge) rfl
  obtain ⟨⟨z, fed, input'⟩, hexec, hz⟩ := ZlibOutputStream.writeBuffer_sat hwf hr
  let removed := input.content.take (input.readableBytes - input'.readableBytes)
  let t : ZlibSession :=
    { s with stream := z, fed := s.fed ++ fed, given := s.given ++ removed, wroteBuffer := true }
  have ht : s.exec (.writeBuffer input r) = .ok t := by
    rw [exec, if_neg (not_not_intro hok), hexec]
    rfl
  have hremoved : removed = fed := hz.removed_eq hlt
  refine ⟨r, t, ⟨hidle, hr⟩, ht, ⟨hidle, rfl, ?_⟩, congrArg (s.fed ++ ·) hz.fed, ?_, hz.nextIn, ?_, hz.wf,
    hz.grown⟩
  · exact hz.zerror.elim (·.trans hok) id
  · exact congrArg (s.given ++ ·) (hremoved.trans hz.fed)
  · rw [← hmod]
    exact hz.availIn

end ZlibSession

open ZlibSession in
/-- The three bytes `xyz` go through a stream: the first one by `write(StringPiece)`, the others by
`write(Buffer*)`, and `finish()` ends what `deflate` has made of them. -/
theorem zlib_feeds_given_both : ∃ s, (zlibOutput.restrict Orderly).Reachable s ∧ s.finished = true ∧
    s.given = [120, 121, 122] ∧ s.fed = s.given ∧ (zlibOutput.restrict Orderly).Safe s := by
  obtain ⟨output, hwf, hlength⟩ : ∃ output : Buffer, output.WF ∧ output.buffer.length = 1032 :=
    ⟨ByteQueue.new.buffer, ByteQueue.new.wf, ByteQueue.length_new⟩
  have h0 : (zlibOutput.restrict Orderly).Reachable _ := .of_init ⟨output, .Z_OK, hwf, rfl⟩
  let z₀ := (ZlibOutputStream.new output .Z_OK).offer [120]
  have h1 : (zlibOutput.restrict Orderly).Reachable ⟨z₀, .writing, [], [120], false, false⟩ :=
    h0.step (a := ZlibStep.write [120]) ⟨⟨rfl, by decide⟩, fun _ => rfl⟩ rfl
  -- the header of the compressed data comes out at once
  have hr₁ : z₀.Bounded ⟨1, [120, 156], .Z_OK⟩ := ZlibOutputStream.bounded_of_small hwf
    (by change output.buffer.length + 1024 < 2 ^ 32; omega) le_rfl (by change 2 ≤ 1024; omega)
  obtain ⟨t₁, ht₁, z₁, fed₁, hz₁, rfl⟩ := turn_sat (s := ⟨z₀, .writing, [], [120], false, false⟩) hwf hr₁
  have h2 := h1.step (a := ZlibStep.writeTurn _) ⟨⟨rfl, ⟨Nat.one_pos, rfl⟩, hr₁⟩, trivial⟩ ht₁
  obtain ⟨rest, hrest, -, rfl⟩ := hz₁.split rfl
  have havail₁ : z₁.availIn = 0 := hz₁.availIn
  have hwritten : z₁.writeEnd = .ok { z₁ with nextIn := none } := by
    rw [ZlibOutputStream.writeEnd, if_pos havail₁, hrest]
    rfl
  have h3 : (zlibOutput.restrict Orderly).Reachable
      ⟨{ z₁ with nextIn := none }, .idle, fed₁, [120], false, false⟩ :=
    h2.step (a := ZlibStep.writeEnd) ⟨⟨rfl, fun h => absurd havail₁ h.1.ne'⟩, trivial⟩
      (by change (z₁.writeEnd >>= _) = _; rw [hwritten]; rfl)
  obtain ⟨r₂, t₂, ha₂, ht₂, ⟨hidle₂, -, hok₂⟩, -, hgiven₂, -, havail₂, hwf₂, hgrown₂⟩ := exists_writeBuffer
    (s := ⟨{ z₁ with nextIn := none }, .idle, fed₁, [120], false, false⟩) hz₁.wf rfl hz₁.zerror
    (ByteQueue.new.append [121, 122]) 2 (by simp) (by simp)
  have h4 := h3.step (a := ZlibStep.writeBuffer _ r₂) ⟨ha₂, fun _ => by simp⟩ ht₂
  have hfinish : t₂.exec .finish = .ok { t₂ with pc := .finishing } := by
    rw [exec, if_neg (not_not_intro hok₂)]
    rfl
  have h5 := h4.step (a := ZlibStep.finish) ⟨hidle₂, fun _ => by rw [havail₂]; simp⟩ hfinish
  -- and the compressed bytes with their checksum at the end
  have hr₃ : t₂.stream.Bounded ⟨0, [171, 168, 172, 2, 0, 2, 215, 1, 108], .Z_STREAM_END⟩ := by
    have hlength₁ : z₁.output.buffer.length ≤ output.buffer.length + 1024 := hz₁.grown.length
    have hle₁ : 1024 ≤ z₁.bufferSize := hz₁.grown.le
    have hdouble₁ : z₁.bufferSize ≤ 2 * 1024 := hz₁.grown.le_double
    have hlength₂ : t₂.stream.output.buffer.length ≤ z₁.output.buffer.length + z₁.bufferSize := hgrown₂.length
    have hle₂ : z₁.bufferSize ≤ t₂.stream.bufferSize := hgrown₂.le
    have hdouble₂ : t₂.stream.bufferSize ≤ 2 * z₁.bufferSize := hgrown₂.le_double
    refine ZlibOutputStream.bounded_of_small hwf₂ (by omega) (Nat.zero_le _) ?_
    change 9 ≤ _
    omega
  obtain ⟨t₃, ht₃, z₃, fed₃, hz₃, rfl⟩ := turn_sat (s := { t₂ with pc := .finishing }) hwf₂ hr₃
  have hended : z₃.zerror ≠ .Z_OK := by
    rw [hz₃.zerror]
    exact nofun
  have h6 := h5.step (a := ZlibStep.finishTurn _) ⟨⟨rfl, hok₂, hr₃⟩, trivial⟩ ht₃
  have h7 := h6.step (a := ZlibStep.finishEnd) ⟨⟨rfl, hended⟩, trivial⟩ rfl
  obtain ⟨hsafe, -, hfinished⟩ := (zlib_feeds_given_iff _).1 h7
  rw [ByteQueue.content_append, ByteQueue.content_new] at hgiven₂
  exact ⟨_, h7, rfl, hgiven₂, hfinished rfl, hsafe⟩

open ZlibSession in
/-- After a `write(Buffer*)` that `deflate` has taken all of, the assert of `write(StringPiece)` fails.
After one that it has taken the first of two bytes of, `finish()` feeds it the second byte, which is still
in the caller's buffer. -/
theorem zlib_left_pointing :
    (∃ s, zlibOutput.Reachable s ∧ s.pc = .idle ∧ s.stream.zerror = .Z_OK ∧ s.given = [120] ∧
      s.stream.availIn = 0 ∧
      s.exec (.write [121]) = .error "zstream_.next_in == NULL && zstream_.avail_in == 0") ∧
    ∃ s t as, zlibOutput.Reachable s ∧ s.pc = .idle ∧ s.stream.zerror = .Z_OK ∧ zlibOutput.Run s as t ∧
      t.finished = true ∧ t.given = [120] ∧ t.fed = [120, 121] := by
  have hfresh : zlibOutput.Reachable fresh := .of_init init_fresh
  have hwf := (Inv.of_reachable hfresh).wf
  constructor
  · obtain ⟨r, s, ha, hs, ⟨hidle, -, hok⟩, -, hgiven, hnext, havail, -⟩ := exists_writeBuffer
      (s := fresh) hwf rfl rfl (ByteQueue.new.append [120]) 1 (by simp) (by simp)
    rw [ByteQueue.content_append, ByteQueue.content_new] at hgiven hnext havail
    have hreach := hfresh.step (a := ZlibStep.writeBuffer _ r) ha hs
    refine ⟨s, hreach, hidle, hok, hgiven, havail, ?_⟩
    rw [exec, if_neg (not_not_intro hok), ZlibOutputStream.writeBegin, assert_neg]
    · rfl
    · rw [hnext]
      exact nofun
  · obtain ⟨r, s, ha, hs, ⟨hidle, -, hok⟩, hfed, hgiven, hnext, havail, -⟩ := exists_writeBuffer
      (s := fresh) hwf rfl rfl (ByteQueue.new.append [120, 121]) 1 (by simp) (by simp)
    rw [ByteQueue.content_append, ByteQueue.content_new] at hfed hgiven hnext havail
    have hreach := hfresh.step (a := ZlibStep.writeBuffer _ r) ha hs
    obtain ⟨as, t, hrun, hfinished, hsame, hfeeds⟩ :=
      (Inv.of_reachable hreach).finish_feeds hidle hok (havail.trans_ne nofun)
    refine ⟨s, t, as, hreach, hidle, hok, hrun.of_restrict, hfinished, hsame.trans hgiven, ?_⟩
    rw [hfeeds, hfed, hnext]
    rfl

end Muduo.Net
