import Muduo.Net.BufferInt
import Muduo.Support.Machine

/-! # The integer codec of `Buffer`

A buffer that carries integers among other bytes: callers append plain bytes and integers of four
types, take plain bytes out and read integers. `IntQueue` follows what the content is made of, and
`intQueue` is the machine of all runs in which no plain `retrieve` cuts an integer and every `readIntN`
meets an integer of its type. `intQueue_codec` says that the integers come out as they went in. -/

namespace Muduo.Net

open Support

/-- The types of the integers a buffer can carry. -/
inductive IntType where
  | int8
  | int16
  | int32
  | int64
  deriving DecidableEq, Repr

/-- `sizeof`. -/
def IntType.width : IntType → Nat
  | .int8 => 1
  | .int16 => 2
  | .int32 => 4
  | .int64 => 8

/-- A value of one of the types. -/
structure TypedInt where
  type : IntType
  value : Int
  fits : FitsInt type.width value

/-- The bytes that stand for a value: two's complement, most significant byte first. -/
def TypedInt.bytes (v : TypedInt) : List Byte := intToBytes v.type.width v.value

namespace Buffer

variable (b : Buffer)

/-- The `appendIntN` of a type. -/
def appendIntN (type : IntType) (x : Int) : Checked Buffer :=
  match type with
  | .int8 => b.appendInt8 x
  | .int16 => b.appendInt16 x
  | .int32 => b.appendInt32 x
  | .int64 => b.appendInt64 x

/-- The `peekIntN` of a type. -/
def peekIntN : IntType → Checked Int
  | .int8 => b.peekInt8
  | .int16 => b.peekInt16
  | .int32 => b.peekInt32
  | .int64 => b.peekInt64

/-- The `readIntN` of a type. -/
def readIntN : IntType → Checked (Int × Buffer)
  | .int8 => b.readInt8
  | .int16 => b.readInt16
  | .int32 => b.readInt32
  | .int64 => b.readInt64

/-- The `prependIntN` of a type. -/
def prependIntN (type : IntType) (x : Int) : Checked Buffer :=
  match type with
  | .int8 => b.prependInt8 x
  | .int16 => b.prependInt16 x
  | .int32 => b.prependInt32 x
  | .int64 => b.prependInt64 x

variable {b} {c : List Byte}

/-- Every `appendIntN` adds the bytes of the integer. -/
theorem appendIntN_sat (h : b.Represents c) (v : TypedInt) :
    (b.appendIntN v.type v.value).Sat fun b' => b'.Represents (c ++ v.bytes) := by
  obtain ⟨type, x, _⟩ := v
  cases type with
  | int8 =>
      change (b.appendInt8 x).Sat _
      rw [appendInt8_eq]
      exact appendInt_sat h 1 x
  | _ => exact appendInt_sat h _ x

/-- Every `prependIntN` puts the bytes of the integer in front. -/
theorem prependIntN_sat (h : b.Represents c) {v : TypedInt}
    (hroom : v.type.width ≤ b.prependableBytes) :
    (b.prependIntN v.type v.value).Sat fun b' => b'.Represents (v.bytes ++ c) := by
  obtain ⟨type, x, _⟩ := v
  cases type with
  | int8 =>
      change (b.prependInt8 x).Sat _
      rw [prependInt8_eq]
      exact prependInt_sat h hroom x
  | _ => exact prependInt_sat h hroom x

/-- Every `peekIntN` sees an integer of its type at the front. -/
theorem peekIntN_front {v : TypedInt} (h : b.Represents (v.bytes ++ c)) :
    b.peekIntN v.type = .ok v.value := by
  obtain ⟨type, x, hx⟩ := v
  cases type with
  | int8 => exact (peekInt8_eq h).trans (peekInt_front h hx _)
  | _ => exact peekInt_front h hx _

/-- Every `readIntN` takes an integer of its type out. -/
theorem readIntN_front {v : TypedInt} (h : b.Represents (v.bytes ++ c)) :
    (b.readIntN v.type).Sat fun r => r.1 = v.value ∧ r.2.Represents c := by
  obtain ⟨type, x, hx⟩ := v
  cases type with
  | int8 =>
      change b.readInt8.Sat _
      rw [readInt8_eq h]
      exact readInt_front h hx _
  | _ => exact readInt_front h hx _

end Buffer

/-! ## The machine -/

/-- A buffer with the integers in it. -/
structure IntQueue where
  buffer : Buffer
  /-- What the content is made of, from its front: plain bytes, and values appended as integers. -/
  items : List (Byte ⊕ TypedInt)
  /-- The values appended as integers, in call order. -/
  appended : List TypedInt
  /-- The results of the `readIntN` calls with their types, in call order. -/
  results : List (IntType × Int)

/-- A call on a buffer that carries integers. -/
inductive IntOp where
  | append (data : List Byte)
  | appendInt (v : TypedInt)
  | retrieve (len : Nat)
  | readInt (type : IntType)

namespace IntQueue

/-- The bytes of one item. -/
def itemBytes : Byte ⊕ TypedInt → List Byte
  | .inl byte => [byte]
  | .inr v => v.bytes

/-- The bytes of the items. -/
def encode (items : List (Byte ⊕ TypedInt)) : List Byte := items.flatMap itemBytes

/-- The integers among the items. -/
def integers (items : List (Byte ⊕ TypedInt)) : List TypedInt := items.filterMap Sum.getRight?

/-- What a `readIntN` that returns a value reports. -/
def result (v : TypedInt) : IntType × Int := (v.type, v.value)

/-- A `retrieve` takes plain bytes only, and a `readIntN` is called where an integer of its type
begins. -/
def Enabled (s : IntQueue) : IntOp → Prop
  | .append _ => True
  | .appendInt _ => True
  | .retrieve len => ∃ (data : List Byte) (rest : List (Byte ⊕ TypedInt)),
      s.items = data.map .inl ++ rest ∧ data.length = len
  | .readInt type => ∃ v rest, s.items = .inr v :: rest ∧ v.type = type

/-- What an operation does to the buffer and to the items it stands for. -/
def exec (s : IntQueue) : IntOp → Checked IntQueue
  | .append data => do
      let buffer ← s.buffer.append data
      return { s with buffer, items := s.items ++ data.map .inl }
  | .appendInt v => do
      let buffer ← s.buffer.appendIntN v.type v.value
      return { s with buffer, items := s.items ++ [.inr v], appended := s.appended ++ [v] }
  | .retrieve len => do
      let buffer ← s.buffer.retrieve len
      return { s with buffer, items := s.items.drop len }
  | .readInt type => do
      let (x, buffer) ← s.buffer.readIntN type
      return { s with buffer, items := s.items.tail, results := s.results ++ [(type, x)] }

end IntQueue

/-- All runs of such calls, from any buffer with its indices in order. -/
def intQueue : Machine IntQueue IntOp where
  init s := s.buffer.WF ∧ s.items = s.buffer.content.map .inl ∧ s.appended = [] ∧ s.results = []
  enabled := IntQueue.Enabled
  exec := IntQueue.exec

namespace IntQueue

@[simp] theorem encode_append (items items' : List (Byte ⊕ TypedInt)) :
    encode (items ++ items') = encode items ++ encode items' := List.flatMap_append

@[simp] theorem encode_map_inl (data : List Byte) : encode (data.map .inl) = data := by
  induction data with
  | nil => rfl
  | cons byte data ih =>
      show [byte] ++ encode (data.map .inl) = byte :: data
      rw [ih]
      rfl

@[simp] theorem encode_inr_cons (v : TypedInt) (items : List (Byte ⊕ TypedInt)) :
    encode (.inr v :: items) = v.bytes ++ encode items := rfl

@[simp] theorem integers_append (items items' : List (Byte ⊕ TypedInt)) :
    integers (items ++ items') = integers items ++ integers items' := List.filterMap_append

@[simp] theorem integers_map_inl (data : List Byte) : integers (data.map .inl) = [] := by
  induction data with
  | nil => rfl
  | cons _ _ ih => exact ih

/-- The content is made of the items, and the integers are read in the order they were appended. -/
structure Inv (s : IntQueue) : Prop where
  represents : s.buffer.Represents (encode s.items)
  results_eq : s.results ++ (integers s.items).map result = s.appended.map result

/-- The invariant holds at the start. -/
theorem Inv.of_init {s : IntQueue} (h : intQueue.init s) : s.Inv := by
  obtain ⟨hwf, hitems, happended, hresults⟩ := h
  refine ⟨?_, ?_⟩
  · rw [hitems, encode_map_inl]
    exact hwf.represents
  · rw [hitems, happended, hresults, integers_map_inl]
    rfl

/-- **One call.** -/
theorem Inv.exec {s : IntQueue} (h : s.Inv) (op : IntOp) (hop : s.Enabled op) :
    (s.exec op).Sat Inv := by
  have hresults := h.results_eq
  cases op with
  | append data =>
      refine (Buffer.append_sat h.represents data).bind fun b hb => .ok ⟨?_, ?_⟩
      · show b.Represents (encode (s.items ++ data.map .inl))
        rw [encode_append, encode_map_inl]
        exact hb.represents
      · show s.results ++ (integers (s.items ++ data.map .inl)).map result = _
        rwa [integers_append, integers_map_inl, List.append_nil]
  | appendInt v =>
      refine (Buffer.appendIntN_sat h.represents v).bind fun b hb => .ok ⟨?_, ?_⟩
      · show b.Represents (encode (s.items ++ [.inr v]))
        rw [encode_append, encode_inr_cons]
        simpa [encode] using hb
      · show s.results ++ (integers (s.items ++ [.inr v])).map result = (s.appended ++ [v]).map result
        rw [integers_append, List.map_append, List.map_append, ← List.append_assoc, hresults]
        rfl
  | retrieve len =>
      obtain ⟨data, rest, hitems, rfl⟩ := hop
      have hdrop : s.items.drop data.length = rest := by
        rw [hitems, List.drop_left' (List.length_map _)]
      have hrep := h.represents
      rw [hitems, encode_append, encode_map_inl] at hrep
      refine (Buffer.retrieve_sat hrep (by simp)).bind fun b hb => .ok ⟨?_, ?_⟩
      · show b.Represents (encode (s.items.drop data.length))
        rw [hdrop]
        rwa [List.drop_left] at hb
      · show s.results ++ (integers (s.items.drop data.length)).map result = _
        rw [hdrop]
        rwa [hitems, integers_append, integers_map_inl, List.nil_append] at hresults
  | readInt type =>
      obtain ⟨v, rest, hitems, rfl⟩ := hop
      have hrep := h.represents
      rw [hitems, encode_inr_cons] at hrep
      refine (Buffer.readIntN_front hrep).bind fun r hr => .ok ⟨?_, ?_⟩
      · show r.2.Represents (encode s.items.tail)
        rw [hitems]
        exact hr.2
      · show s.results ++ [(v.type, r.1)] ++ (integers s.items.tail).map result = _
        rw [hr.1, ← hresults, hitems, List.append_assoc]
        rfl

end IntQueue

/-- **The integer codec.** Along every run the content consists of the plain bytes and the integers
appended and not yet taken out, the integers read are the first ones appended with their types, and no
assert can fail; a value takes the bytes of its type in two's complement, most significant first; and a
value put in front, where there is room, is seen there with the former content behind it. -/
theorem intQueue_codec :
    (∀ s, intQueue.Reachable s →
      s.buffer.content = IntQueue.encode s.items ∧
      s.results ++ (IntQueue.integers s.items).map IntQueue.result = s.appended.map IntQueue.result ∧
      intQueue.Safe s) ∧
    (∀ v : TypedInt, v.bytes.length = v.type.width ∧
      ∀ i < v.type.width, v.bytes[i]? = some (UInt8.ofNat
        ((v.value % 256 ^ v.type.width).toNat / 256 ^ (v.type.width - 1 - i)))) ∧
    ∀ (b : Buffer) (v : TypedInt), b.WF → v.type.width ≤ b.prependableBytes →
      ∃ b', b.prependIntN v.type v.value = .ok b' ∧ b'.peekIntN v.type = .ok v.value ∧
        b'.content = v.bytes ++ b.content := by
  refine ⟨fun s hs => ?_, fun v => ⟨length_intToBytes _ _, fun i hi => getElem?_toBigEndian hi _⟩,
    fun b v hb hroom => ?_⟩
  · obtain ⟨hinv, hsafe⟩ := Machine.invariant (fun _ => IntQueue.Inv.of_init)
      (fun _ op h hop => IntQueue.Inv.exec h op hop) hs
    exact ⟨hinv.represents.content_eq, hinv.results_eq, hsafe⟩
  · obtain ⟨b', hb', hrep⟩ := Buffer.prependIntN_sat hb.represents hroom
    exact ⟨b', hb', Buffer.peekIntN_front hrep, hrep.content_eq⟩

/-- The codec on a negative `int16_t` that goes into a buffer after a plain byte and comes out again. -/
theorem intQueue_codec_int16 :
    ∃ s, intQueue.Reachable s ∧ s.results = [(.int16, -2)] ∧ s.items = [] ∧ s.buffer.content = [] := by
  have hinit : intQueue.Reachable ⟨⟨[0, 0, 0, 0, 0, 0, 0, 0, 7], 8, 9⟩, [.inl 7], [], []⟩ :=
    .of_init ⟨⟨by decide, by decide, by decide⟩, rfl, rfl, rfl⟩
  have hvalue : FitsInt IntType.int16.width (-2) := by constructor <;> decide
  have hexec : IntQueue.exec ⟨⟨[0, 0, 0, 0, 0, 0, 0, 0, 7], 8, 9⟩, [.inl 7], [], []⟩
      (.appendInt ⟨.int16, -2, hvalue⟩) = .ok ⟨⟨[0, 0, 0, 0, 0, 0, 0, 0, 7, 255, 254], 8, 11⟩,
      [.inl 7, .inr ⟨.int16, -2, hvalue⟩], [⟨.int16, -2, hvalue⟩], []⟩ := by
    have hbytes : intToBytes 2 (-2) = [255, 254] := by decide
    simp only [IntQueue.exec, Buffer.appendIntN, Buffer.appendInt16, Buffer.appendInt,
      sockets.store_hostToNetwork, hbytes]
    rfl
  have happend : intQueue.Reachable ⟨⟨[0, 0, 0, 0, 0, 0, 0, 0, 7, 255, 254], 8, 11⟩,
      [.inl 7, .inr ⟨.int16, -2, hvalue⟩], [⟨.int16, -2, hvalue⟩], []⟩ :=
    hinit.step (a := .appendInt ⟨.int16, -2, hvalue⟩) trivial hexec
  have hretrieve : intQueue.Reachable ⟨⟨[0, 0, 0, 0, 0, 0, 0, 0, 7, 255, 254], 9, 11⟩,
      [.inr ⟨.int16, -2, hvalue⟩], [⟨.int16, -2, hvalue⟩], []⟩ :=
    happend.step (a := .retrieve 1) ⟨[7], _, rfl, rfl⟩ rfl
  have hexec' : IntQueue.exec ⟨⟨[0, 0, 0, 0, 0, 0, 0, 0, 7, 255, 254], 9, 11⟩,
      [.inr ⟨.int16, -2, hvalue⟩], [⟨.int16, -2, hvalue⟩], []⟩ (.readInt .int16)
      = .ok ⟨⟨[0, 0, 0, 0, 0, 0, 0, 0, 7, 255, 254], 8, 8⟩, [], [⟨.int16, -2, hvalue⟩],
        [(.int16, -2)]⟩ := by
    have hpeek : Buffer.peekInt16 ⟨[0, 0, 0, 0, 0, 0, 0, 0, 7, 255, 254], 9, 11⟩ = .ok (-2) := by decide
    simp only [IntQueue.exec, Buffer.readIntN, Buffer.readInt16, Buffer.readInt]
    rw [← Buffer.peekInt16, hpeek]
    rfl
  have hread := hretrieve.step (a := IntOp.readInt .int16) ⟨_, _, rfl, rfl⟩ hexec'
  exact ⟨_, hread, rfl, rfl, (intQueue_codec.1 _ hread).1⟩

end Muduo.Net
