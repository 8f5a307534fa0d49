import Muduo.Net.ProtobufCodecLite
import Muduo.Support.Protobuf

/-! # `RpcMessage` of `rpc.proto`

The message that RPC channels exchange, what the protobuf library makes of it (`rpcLibrary`), and `RpcCodec`,
the codec for it. -/

namespace Muduo.Net

open Support

/-- `MessageType`. -/
inductive RpcMessageType where
  | REQUEST
  | RESPONSE
  | ERROR
  deriving DecidableEq, Repr

/-- `ErrorCode`. -/
inductive RpcErrorCode where
  | NO_ERROR
  | WRONG_PROTO
  | NO_SERVICE
  | NO_METHOD
  | INVALID_REQUEST
  | INVALID_RESPONSE
  | TIMEOUT
  deriving DecidableEq, Repr

/-- `RpcMessage`. Of the first three optional fields, one that is empty is taken as not set. -/
structure RpcMessage where
  type : RpcMessageType
  id : Int
  service : String := ""
  method : String := ""
  request : List Byte := []
  response : Option (List Byte) := none
  error : Option RpcErrorCode := none
  deriving DecidableEq, Repr

/-! ## The object of the protobuf library -/

/-- What fits after a conversion. -/
theorem fitsInt_wrapInt (x : Int) : FitsInt 8 (wrapInt 8 x) := by
  rw [← intOfBytes_intToBytes_wrap]
  have hne : intToBytes 8 x ≠ [] := List.ne_nil_of_length_pos (by rw [length_intToBytes]; decide)
  have hfits := fitsInt_intOfBytes hne
  rwa [length_intToBytes] at hfits

/-- What the protobuf object for an `RpcMessage` can hold: `id` is a `fixed64`. -/
abbrev RpcObject := { message : RpcMessage // FitsInt 8 message.id }

/-- The object that is filled with `set_type`, `set_id` and so on. -/
def RpcMessage.object (message : RpcMessage) : RpcObject :=
  ⟨{ message with id := wrapInt 8 message.id }, fitsInt_wrapInt _⟩

/-- A message whose number fits is kept by its object. -/
theorem RpcMessage.object_val {message : RpcMessage} (h : FitsInt 8 message.id) :
    message.object.val = message := by
  show { message with id := wrapInt 8 message.id } = message
  rw [wrapInt_of_fits h]

/-! ## Its bytes -/

/-- The number of a `MessageType`. -/
def RpcMessageType.number : RpcMessageType → Nat
  | .REQUEST => 1
  | .RESPONSE => 2
  | .ERROR => 3

/-- The `MessageType` with a number, if there is one. -/
def RpcMessageType.ofNumber : Nat → Option RpcMessageType
  | 1 => some .REQUEST
  | 2 => some .RESPONSE
  | 3 => some .ERROR
  | _ => none

/-- A `MessageType` is known by its number. -/
theorem RpcMessageType.ofNumber_number (type : RpcMessageType) : ofNumber type.number = some type := by
  cases type <;> rfl

/-- The number of an `ErrorCode`. -/
def RpcErrorCode.number : RpcErrorCode → Nat
  | .NO_ERROR => 0
  | .WRONG_PROTO => 1
  | .NO_SERVICE => 2
  | .NO_METHOD => 3
  | .INVALID_REQUEST => 4
  | .INVALID_RESPONSE => 5
  | .TIMEOUT => 6

/-- The `ErrorCode` with a number, if there is one. -/
def RpcErrorCode.ofNumber : Nat → Option RpcErrorCode
  | 0 => some .NO_ERROR
  | 1 => some .WRONG_PROTO
  | 2 => some .NO_SERVICE
  | 3 => some .NO_METHOD
  | 4 => some .INVALID_REQUEST
  | 5 => some .INVALID_RESPONSE
  | 6 => some .TIMEOUT
  | _ => none

/-- An `ErrorCode` is known by its number. -/
theorem RpcErrorCode.ofNumber_number (error : RpcErrorCode) : ofNumber error.number = some error := by
  cases error <;> rfl

namespace RpcMessage

/-- A text, if it is not empty. -/
def textField (data : List Byte) : Option WireValue := if data = [] then none else some (.bytes data)

/-- The bytes of a text that is not set, or is. -/
def textOf (value : Option WireValue) : List Byte :=
  match value with
  | some (.bytes data) => data
  | _ => []

/-- A text is no number. -/
theorem textField_ne_fixed64 (data : List Byte) (x : Int) : textField data ≠ some (.fixed64 x) := by
  unfold textField
  split <;> simp

/-- A text is found again, an empty one by its absence. -/
theorem textOf_textField (data : List Byte) : textOf (textField data) = data := by
  unfold textField
  split
  · next h => exact h.symm
  · rfl

/-- The fields of the message, with their numbers. -/
def fields (message : RpcMessage) : List (Nat × Option WireValue) :=
  [(1, some (.varint message.type.number)),
    (2, some (.fixed64 message.id)),
    (3, textField message.service.toUTF8.data.toList),
    (4, textField message.method.toUTF8.data.toList),
    (5, textField message.request),
    (6, message.response.map .bytes),
    (7, message.error.map fun error => .varint error.number)]

/-- The message with some fields; the first two are required, and unknown ones are left alone. -/
def ofFields (fields : List WireField) : Option RpcMessage := do
  let .varint type ← fieldValue 1 fields | none
  let type ← RpcMessageType.ofNumber type
  let .fixed64 id ← fieldValue 2 fields | none
  let service ← String.fromUTF8? ⟨⟨textOf (fieldValue 3 fields)⟩⟩
  let method ← String.fromUTF8? ⟨⟨textOf (fieldValue 4 fields)⟩⟩
  let response := match fieldValue 6 fields with
    | some (.bytes data) => some data
    | _ => none
  let error := match fieldValue 7 fields with
    | some (.varint n) => RpcErrorCode.ofNumber n
    | _ => none
  return { type, id, service, method, request := textOf (fieldValue 5 fields), response, error }

/-- A string is found again in its bytes. -/
theorem fromUTF8_toUTF8 (s : String) : String.fromUTF8? ⟨⟨s.toUTF8.data.toList⟩⟩ = some s :=
  dif_pos s.isValidUTF8

/-- What stands in a field of the message is found there. -/
theorem fieldValue_fields (message : RpcMessage) {number : Nat} {value : Option WireValue}
    (h : (number, value) ∈ message.fields) : fieldValue number (presentFields message.fields) = value := by
  refine fieldValue_presentFields ?_ h
  change [1, 2, 3, 4, 5, 6, 7].Nodup
  decide

/-- The fields of a message make the message. -/
theorem ofFields_fields (message : RpcMessage) : ofFields (presentFields message.fields) = some message := by
  have h1 := message.fieldValue_fields (.head _)
  have h2 := message.fieldValue_fields (.tail _ (.head _))
  have h3 := message.fieldValue_fields (.tail _ (.tail _ (.head _)))
  have h4 := message.fieldValue_fields (.tail _ (.tail _ (.tail _ (.head _))))
  have h5 := message.fieldValue_fields (.tail _ (.tail _ (.tail _ (.tail _ (.head _)))))
  have h6 := message.fieldValue_fields (.tail _ (.tail _ (.tail _ (.tail _ (.tail _ (.head _))))))
  have h7 := message.fieldValue_fields (.tail _ (.tail _ (.tail _ (.tail _ (.tail _ (.tail _ (.head _)))))))
  have hfields : ofFields (presentFields message.fields) = some
      { message with
        response := match message.response.map WireValue.bytes with
          | some (.bytes data) => some data
          | _ => none
        error := match message.error.map fun error => WireValue.varint error.number with
          | some (.varint n) => RpcErrorCode.ofNumber n
          | _ => none } := by
    simp only [ofFields, h1, h2, h3, h4, h5, h6, h7, textOf_textField, fromUTF8_toUTF8,
      RpcMessageType.ofNumber_number, Option.bind_eq_bind, Option.bind_some]
    rfl
  rw [hfields]
  obtain ⟨type, id, service, method, request, response, error⟩ := message
  cases response <;> cases error <;> simp [RpcErrorCode.ofNumber_number]

/-- The fields can be written, if the number fits. -/
theorem fits_fields {message : RpcMessage} (h : FitsInt 8 message.id) :
    ∀ f ∈ presentFields message.fields, f.value.Fits := by
  intro f hf
  obtain ⟨⟨number, value⟩, hmem, hset⟩ := List.mem_filterMap.mp hf
  obtain ⟨v, rfl, rfl⟩ := Option.map_eq_some_iff.mp hset
  cases v with
  | fixed64 x =>
      -- this is the number of the message
      have htext : ∀ data, some (.fixed64 x) ≠ textField data := fun data => (textField_ne_fixed64 data x).symm
      have hx : number = 2 ∧ x = message.id := by simpa [fields, htext] using hmem
      exact hx.2 ▸ h
  | varint n => trivial
  | bytes data => trivial

end RpcMessage

/-- `adler32` of zlib: two sums modulo 65521, from those in `start`. -/
def adler32 (start : Nat) (bytes : List Byte) : Nat :=
  let (a, b) := bytes.foldl
    (fun (a, b) byte => ((a + byte.toNat) % 65521, (b + a + byte.toNat) % 65521))
    (start % 65536, start / 65536)
  b * 65536 + a

/-- The protobuf and zlib libraries, for `RpcMessage`. -/
def rpcLibrary : CodecLibrary RpcObject where
  byteSize o := (writeFields (presentFields o.val.fields)).length
  serialize o := writeFields (presentFields o.val.fields)
  parseFromArray bytes := ((readFields bytes).bind RpcMessage.ofFields).map RpcMessage.object
  adler32 := adler32
  length_serialize _ := rfl
  parse_serialize o := by
    rw [readFields_writeFields (RpcMessage.fits_fields o.property), Option.bind_some,
      RpcMessage.ofFields_fields, Option.map_some]
    exact congrArg some (Subtype.ext (RpcMessage.object_val o.property))

/-- `RpcCodec`, with the tag "RPC0". -/
def rpcCodec (library : CodecLibrary RpcObject) : ProtobufCodecLite RpcObject :=
  { library, tag := [82, 80, 67, 48], rawCb := none }

/-- The request with the number 2 that `RpcCodec_test.cpp` sends. -/
def testRequest : RpcObject := RpcMessage.object { type := .REQUEST, id := 2 }

-- the payload and the checksum are those of the test
example : rpcLibrary.serialize testRequest = [0x08, 0x01, 0x11, 0x02, 0, 0, 0, 0, 0, 0, 0] := by decide
example : adler32 1 ([82, 80, 67, 48] ++ rpcLibrary.serialize testRequest) = 0x0fef0132 := by decide

end Muduo.Net
