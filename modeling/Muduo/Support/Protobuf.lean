import Muduo.Support.BigEndian

/-! # The wire format of protobuf

A message is written as a list of fields, each of which is a number and a value. In front of the value stands a
key, a number in base 128 that tells the number of the field and the kind of the value. `readFields` reads back
what `writeFields` has written. Numbers, 64-bit words and texts are here; 32-bit words and groups are not. -/

namespace Support

/-! ## Numbers in base 128 -/

/-- The digits of `n` in base 128, the low ones first; the top bit is set in all but the last. There are at most
as many as the first argument says. -/
def varintDigits : Nat → Nat → List UInt8
  | 0, _ => []
  | fuel + 1, n =>
      if n < 128 then [UInt8.ofNat n] else UInt8.ofNat (n % 128 + 128) :: varintDigits fuel (n / 128)

/-- `n` as a varint. -/
def varint (n : Nat) : List UInt8 := varintDigits (n + 1) n

/-- The varint at the front, and what follows it. -/
def readVarint : List UInt8 → Option (Nat × List UInt8)
  | [] => none
  | b :: rest =>
      if b.toNat < 128 then some (b.toNat, rest)
      else (readVarint rest).map fun (n, rest) => (b.toNat - 128 + 128 * n, rest)

/-- Enough digits are read back as the number. -/
theorem readVarint_varintDigits {fuel n : Nat} (h : n < fuel) (rest : List UInt8) :
    readVarint (varintDigits fuel n ++ rest) = some (n, rest) := by
  induction fuel generalizing n with
  | zero => omega
  | succ fuel ih =>
      rw [varintDigits]
      split
      · next hsmall =>
          have hbyte : (UInt8.ofNat n).toNat = n := by
            rw [UInt8.toNat_ofNat']
            omega
          rw [List.singleton_append, readVarint, hbyte, if_pos hsmall]
      · next hlarge =>
          have hbyte : (UInt8.ofNat (n % 128 + 128)).toNat = n % 128 + 128 := by
            rw [UInt8.toNat_ofNat']
            omega
          have hrest : readVarint (varintDigits fuel (n / 128) ++ rest) = some (n / 128, rest) := ih (by omega)
          rw [List.cons_append, readVarint, hbyte, if_neg (by omega), hrest, Option.map_some]
          dsimp only
          rw [Nat.add_sub_cancel, Nat.mod_add_div]

/-- A varint is read back, whatever follows it. -/
theorem readVarint_varint (n : Nat) (rest : List UInt8) : readVarint (varint n ++ rest) = some (n, rest) :=
  readVarint_varintDigits (Nat.lt_succ_self n) rest

/-- A varint is not empty. -/
theorem varint_ne_nil (n : Nat) : varint n ≠ [] := by
  rw [varint, varintDigits]
  split
  · exact List.cons_ne_nil _ _
  · exact List.cons_ne_nil _ _

/-! ## Fields -/

/-- The value of a field. -/
inductive WireValue where
  | varint (n : Nat)
  | fixed64 (x : Int)
  | bytes (data : List UInt8)
  deriving DecidableEq, Repr

/-- A field of a message. -/
structure WireField where
  number : Nat
  value : WireValue
  deriving DecidableEq, Repr

namespace WireValue

/-- The kind of a value, as the key of its field tells it. -/
def wireType : WireValue → Nat
  | .varint _ => 0
  | .fixed64 _ => 1
  | .bytes _ => 2

/-- The bytes of a value; a 64-bit word is written with its low byte first. -/
def write : WireValue → List UInt8
  | .varint n => Support.varint n
  | .fixed64 x => (intToBytes 8 x).reverse
  | .bytes data => Support.varint data.length ++ data

/-- The values that can be written. -/
def Fits : WireValue → Prop
  | .fixed64 x => FitsInt 8 x
  | _ => True

/-- A value of a given kind at the front, and what follows it. -/
def read (wireType : Nat) (bytes : List UInt8) : Option (WireValue × List UInt8) :=
  match wireType with
  | 0 => (readVarint bytes).map fun (n, rest) => (.varint n, rest)
  | 1 =>
      if bytes.length < 8 then none
      else some (.fixed64 (intOfBytes (bytes.take 8).reverse), bytes.drop 8)
  | 2 =>
      (readVarint bytes).bind fun (n, rest) =>
        if rest.length < n then none else some (.bytes (rest.take n), rest.drop n)
  | _ => none

/-- A value is read back, whatever follows it. -/
theorem read_write {v : WireValue} (h : v.Fits) (rest : List UInt8) :
    read v.wireType (v.write ++ rest) = some (v, rest) := by
  cases v with
  | varint n => rw [wireType, write, read, readVarint_varint, Option.map_some]
  | fixed64 x =>
      have hlen : (intToBytes 8 x).reverse.length = 8 := by simp
      have hnot : ¬ ((intToBytes 8 x).reverse ++ rest).length < 8 := by
        rw [List.length_append, hlen]
        omega
      rw [wireType, write, read, if_neg hnot, List.take_left' hlen, List.drop_left' hlen, List.reverse_reverse,
        intOfBytes_intToBytes h]
  | bytes data =>
      have hnot : ¬ (data ++ rest).length < data.length := by
        rw [List.length_append]
        omega
      rw [wireType, write, read, List.append_assoc, readVarint_varint, Option.bind_some]
      dsimp only
      rw [if_neg hnot, List.take_left, List.drop_left]

end WireValue

namespace WireField

/-- The bytes of a field. -/
def write (f : WireField) : List UInt8 := varint (f.number * 8 + f.value.wireType) ++ f.value.write

/-- The field at the front, and what follows it. -/
def read (bytes : List UInt8) : Option (WireField × List UInt8) := do
  let (key, rest) ← readVarint bytes
  let (value, rest) ← WireValue.read (key % 8) rest
  return (⟨key / 8, value⟩, rest)

/-- A field is read back, whatever follows it. -/
theorem read_write {f : WireField} (h : f.value.Fits) (rest : List UInt8) :
    read (f.write ++ rest) = some (f, rest) := by
  have htype : f.value.wireType < 8 := by
    cases f.value <;> simp [WireValue.wireType]
  have hmod : (f.number * 8 + f.value.wireType) % 8 = f.value.wireType := by omega
  have hdiv : (f.number * 8 + f.value.wireType) / 8 = f.number := by omega
  have hread := WireValue.read_write h rest
  simp [read, write, readVarint_varint, hmod, hdiv, hread]

/-- A field takes at least one byte. -/
theorem length_write_pos (f : WireField) : 0 < f.write.length := by
  rw [write, List.length_append]
  have := List.length_pos_iff.mpr (varint_ne_nil (f.number * 8 + f.value.wireType))
  omega

end WireField

/-- The bytes of a message with the given fields. -/
def writeFields (fields : List WireField) : List UInt8 := fields.flatMap WireField.write

/-- The fields of a message, at most as many as the first argument says. -/
def readFieldsUpTo : Nat → List UInt8 → Option (List WireField)
  | _, [] => some []
  | 0, _ :: _ => none
  | fuel + 1, b :: bytes => do
      let (field, rest) ← WireField.read (b :: bytes)
      let fields ← readFieldsUpTo fuel rest
      return field :: fields

/-- The fields of a message. -/
def readFields (bytes : List UInt8) : Option (List WireField) := readFieldsUpTo bytes.length bytes

/-- Fields are read back if there are not too many. -/
theorem readFieldsUpTo_writeFields {fuel : Nat} {fields : List WireField} (hfuel : fields.length ≤ fuel)
    (h : ∀ f ∈ fields, f.value.Fits) : readFieldsUpTo fuel (writeFields fields) = some fields := by
  induction fields generalizing fuel with
  | nil => cases fuel <;> rfl
  | cons f fields ih =>
      obtain ⟨hf, h⟩ := List.forall_mem_cons.mp h
      have hread := WireField.read_write hf (writeFields fields)
      cases fuel with
      | zero => cases hfuel
      | succ fuel =>
          rw [writeFields, List.flatMap_cons]
          change readFieldsUpTo (fuel + 1) (f.write ++ writeFields fields) = _
          cases hbytes : f.write ++ writeFields fields with
          | nil =>
              have hpos := f.length_write_pos
              rw [(List.append_eq_nil_iff.mp hbytes).1] at hpos
              cases hpos
          | cons b bytes =>
              rw [hbytes] at hread
              simp [readFieldsUpTo, hread, ih (Nat.le_of_succ_le_succ hfuel) h]

/-- **Round trip.** The fields of a message are read back. -/
theorem readFields_writeFields {fields : List WireField} (h : ∀ f ∈ fields, f.value.Fits) :
    readFields (writeFields fields) = some fields := by
  refine readFieldsUpTo_writeFields ?_ h
  clear h
  induction fields with
  | nil => exact Nat.le_refl _
  | cons f fields ih =>
      have hpos := f.length_write_pos
      have hlen : (writeFields (f :: fields)).length = f.write.length + (writeFields fields).length := by
        rw [writeFields, List.flatMap_cons, List.length_append, writeFields]
      rw [hlen, List.length_cons]
      omega

/-! ## Messages with optional fields -/

/-- The fields that are set. -/
def presentFields (fields : List (Nat × Option WireValue)) : List WireField :=
  fields.filterMap fun (number, value) => value.map (WireField.mk number)

/-- The value of a field. If it occurs more than once, the last one counts. -/
def fieldValue (number : Nat) (fields : List WireField) : Option WireValue :=
  (fields.filter fun f => f.number = number).getLast?.map WireField.value

/-- A field that is not there is not set. -/
theorem filter_presentFields_eq_nil {number : Nat} {fields : List (Nat × Option WireValue)}
    (h : number ∉ fields.map Prod.fst) : (presentFields fields).filter (fun f => f.number = number) = [] := by
  rw [List.filter_eq_nil_iff]
  intro f hf hnumber
  obtain ⟨⟨k, v⟩, hmem, hset⟩ := List.mem_filterMap.mp hf
  obtain ⟨w, -, rfl⟩ := Option.map_eq_some_iff.mp hset
  exact h (of_decide_eq_true hnumber ▸ List.mem_map_of_mem hmem)

/-- What was set is found. -/
theorem fieldValue_presentFields {number : Nat} {value : Option WireValue}
    {fields : List (Nat × Option WireValue)}
    (hnodup : (fields.map Prod.fst).Nodup) (h : (number, value) ∈ fields) :
    fieldValue number (presentFields fields) = value := by
  induction fields with
  | nil => cases h
  | cons field fields ih =>
      rw [List.map_cons, List.nodup_cons] at hnodup
      rcases List.mem_cons.mp h with rfl | h
      · have hrest := filter_presentFields_eq_nil hnodup.1
        cases value with
        | none => exact congrArg (fun l => (List.getLast? l).map WireField.value) hrest
        | some v =>
            have hfirst : (presentFields ((number, some v) :: fields)).filter (fun f => f.number = number)
                = [⟨number, v⟩] := by
              rw [presentFields, List.filterMap_cons]
              simp only [Option.map_some]
              rw [List.filter_cons_of_pos (by simp)]
              exact congrArg _ hrest
            rw [fieldValue, hfirst]
            rfl
      · have hne : field.1 ≠ number := fun heq => hnodup.1 (heq ▸ List.mem_map_of_mem h)
        have hskip : (presentFields (field :: fields)).filter (fun f => f.number = number)
            = (presentFields fields).filter (fun f => f.number = number) := by
          obtain ⟨k, _ | v⟩ := field
          · rfl
          · rw [presentFields, List.filterMap_cons]
            simp only [Option.map_some]
            rw [List.filter_cons_of_neg (by simpa using hne)]
            rfl
        rw [fieldValue, hskip]
        exact ih hnodup.2 h

end Support
