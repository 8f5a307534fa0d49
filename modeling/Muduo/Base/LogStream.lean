import Muduo.Base.FixedBuffer
import Muduo.Support.Decimal
import Muduo.Support.IntegerType
import Mathlib.Tactic.IntervalCases

/-! # `LogStream`

The stream of `base/LogStream.cpp`: what is inserted goes to a `FixedBuffer<kSmallBuffer>`, texts by
`append` and numbers by writing to `current()` when there is room for any of them. `convert` and
`convertHex` are the loops that write the digits of a number backwards; the digits of a negative number are
looked up from its negative remainders, so `convert` never negates a value and never leaves its type
(`convert_eq`), and what is written is read back as the number (`convert_canonical`). `insert_sat` says what
an insertion does: the whole text of the item, or nothing. So a stream holds the texts of the items for
which there was room at their turn (`insertAll_kept`). -/

namespace Muduo

open Support

/-! ## Numbers -/

/-- `digits`. -/
def digits : List UInt8 :=
  [57, 56, 55, 54, 53, 52, 51, 50, 49, 48, 49, 50, 51, 52, 53, 54, 55, 56, 57]

/-- `zero[lsd]`, where `zero` points to the place 9 of `digits`. -/
def zero (lsd : Int) : Checked UInt8 := do
  assert (0 ≤ 9 + lsd) "zero[lsd]"
  elementAt digits (9 + lsd).toNat "zero[lsd]"

/-- A division by ten comes nearer to zero. -/
theorem natAbs_tdiv_lt {i : Int} (h : i.tdiv 10 ≠ 0) : (i.tdiv 10).natAbs < i.natAbs := by
  have hdiv : (i.tdiv 10).natAbs = i.natAbs / 10 := Int.natAbs_tdiv i 10
  omega

/-- The loop of `convert` for values of type `T`; `/` and `%` round towards zero, and what they give must be
in the type. -/
def convertLoop (T : IntegerType) (i : Int) : Checked (List UInt8) := do
  assert (T.Has (i.tmod 10)) "i % 10"
  assert (T.Has (i.tdiv 10)) "i /= 10"
  let c ← zero (i.tmod 10)
  if _h : i.tdiv 10 ≠ 0 then
    let cs ← convertLoop T (i.tdiv 10)
    return c :: cs
  else return [c]
  termination_by i.natAbs
  decreasing_by exact natAbs_tdiv_lt _h

/-- `convert<T>(buf, value)`: the characters that it leaves in `buf`, before the `\0`. -/
def convert (T : IntegerType) (value : Int) : Checked (List UInt8) := do
  let cs ← convertLoop T value
  return (if value < 0 then cs ++ [45] else cs).reverse

/-- `digitsHex`. -/
def digitsHex : List UInt8 := [48, 49, 50, 51, 52, 53, 54, 55, 56, 57, 65, 66, 67, 68, 69, 70]

/-- The loop of `convertHex`. -/
def convertHexLoop (i : Nat) : Checked (List UInt8) := do
  let c ← elementAt digitsHex (i % 16) "digitsHex[lsd]"
  if _h : i / 16 ≠ 0 then
    let cs ← convertHexLoop (i / 16)
    return c :: cs
  else return [c]
  termination_by i
  decreasing_by omega

/-- `convertHex(buf, value)`. -/
def convertHex (value : Nat) : Checked (List UInt8) := do
  let cs ← convertHexLoop value
  return cs.reverse

/-- The digit of a remainder, of either sign. -/
theorem zero_eq {lsd : Int} (h : lsd.natAbs < 10) :
    zero lsd = .ok (UInt8.ofNat lsd.natAbs.digitChar.toNat) := by
  have hlow : -9 ≤ lsd := by omega
  have hhigh : lsd ≤ 9 := by omega
  interval_cases lsd <;> rfl

/-- The loop never leaves the type, and writes the digits from the last to the first. -/
theorem convertLoop_eq {T : IntegerType} {i : Int} (hi : T.Has i) :
    convertLoop T i = .ok (decimal i.natAbs).reverse := by
  have hdigit : zero (i.tmod 10) = .ok (UInt8.ofNat (i.natAbs % 10).digitChar.toNat) := by
    have hmod : (i.tmod 10).natAbs = i.natAbs % 10 := Int.natAbs_tmod i 10
    rw [zero_eq (by omega), hmod]
  have hdiv : (i.tdiv 10).natAbs = i.natAbs / 10 := Int.natAbs_tdiv i 10
  have hquotient : T.Has (i.tdiv 10) := hi.tdiv 10
  have hremainder : T.Has (i.tmod 10) := hi.tmod 10
  rw [convertLoop, assert_pos hremainder, Checked.ok_bind, assert_pos hquotient, Checked.ok_bind, hdigit,
    Checked.ok_bind]
  by_cases h : i.tdiv 10 = 0
  · have hlt : i.natAbs < 10 := by omega
    rw [dif_neg (not_not_intro h), decimal, map_toDigits_of_lt hlt, Nat.mod_eq_of_lt hlt]
    rfl
  · -- the digits that the rest of the loop writes stand before this one
    have hle : 10 ≤ i.natAbs := by omega
    rw [dif_pos h, convertLoop_eq hquotient, Checked.ok_bind, hdiv, decimal, decimal,
      map_toDigits_of_le (by decide) hle, List.reverse_append]
    rfl
  termination_by i.natAbs
  decreasing_by exact natAbs_tdiv_lt h

/-- `convert` writes the number in base 10. -/
theorem convert_eq {T : IntegerType} {value : Int} (h : T.Has value) :
    convert T value = .ok (decimalInt value) := by
  rw [convert, convertLoop_eq h, Checked.ok_bind, decimalInt]
  split
  · rw [List.reverse_append, List.reverse_reverse]
    rfl
  · rw [List.reverse_reverse]
    rfl

/-- The digit of a remainder, in upper case. -/
theorem digitsHex_eq {lsd : Nat} (h : lsd < 16) {text : String} :
    elementAt digitsHex lsd text = .ok (UInt8.ofNat lsd.digitChar.toUpper.toNat) := by
  interval_cases lsd <;> rfl

/-- The digits of a pointer, last first. -/
theorem convertHexLoop_eq (i : Nat) : convertHexLoop i = .ok (hexadecimal i).reverse := by
  rw [convertHexLoop, digitsHex_eq (Nat.mod_lt i (by decide)), Checked.ok_bind]
  by_cases h : i / 16 = 0
  · have hlt : i < 16 := by omega
    rw [dif_neg (not_not_intro h), hexadecimal, map_toDigits_of_lt hlt, Nat.mod_eq_of_lt hlt]
    rfl
  · have hle : 16 ≤ i := by omega
    rw [dif_pos h, convertHexLoop_eq (i / 16), Checked.ok_bind, hexadecimal, hexadecimal,
      map_toDigits_of_le (by decide) hle, List.reverse_append]
    rfl
  termination_by i

/-- `convertHex` writes the number in base 16. -/
theorem convertHex_eq (value : Nat) : convertHex value = .ok (hexadecimal value) := by
  rw [convertHex, convertHexLoop_eq, Checked.ok_bind, List.reverse_reverse]
  rfl

/-- The longest texts are those of the smallest and of the largest 64-bit integer. -/
theorem length_decimalInt_of_has {T : IntegerType} {value : Int} (h : T.Has value) :
    (decimalInt value).length + 1 ≤ 21 := by
  obtain ⟨hmin, -⟩ := T.min_bounds
  obtain ⟨-, hmax⟩ := T.max_bounds
  obtain ⟨hlo, hhi⟩ := h
  rw [decimalInt_eq, List.length_append]
  split
  case isTrue hneg =>
    have hdigits : (decimal value.natAbs).length ≤ 19 :=
      (length_decimal_le_iff (by decide)).mpr (by omega)
    simp only [List.length_singleton]
    omega
  case isFalse =>
    have hdigits : (decimal value.natAbs).length ≤ 20 :=
      (length_decimal_le_iff (by decide)).mpr (by omega)
    simp only [List.length_nil]
    omega

/-- **Numbers are written exactly.** For every value of every integer type, `convert` writes a sign if the
value is negative and its digits without leading zeros, into at most 21 bytes with the `\0`; no turn of the
loop leaves the type or looks up a digit outside the table. `convertHex` writes the digits of every 64-bit
value. Both texts are read back as the value. -/
theorem convert_canonical :
    (∀ (T : IntegerType) (value : Int), T.Has value → ∃ digits text,
      convert T value = .ok text ∧ text = (if value < 0 then [45] else []) ++ digits ∧
      Canonical decimalDigit digits ∧ readDecimalInt text = some value ∧ text.length + 1 ≤ 21) ∧
    (∀ value : UInt64, ∃ text, convertHex value.toNat = .ok text ∧ Canonical hexadecimalDigit text ∧
      readHexadecimal text = some value.toNat) := by
  constructor
  · intro T value h
    exact ⟨decimal value.natAbs, decimalInt value, convert_eq h, decimalInt_eq value,
      canonical_decimal _, readDecimalInt_decimalInt value, length_decimalInt_of_has h⟩
  · intro value
    exact ⟨hexadecimal value.toNat, convertHex_eq _, canonical_hexadecimal _,
      readHexadecimal_hexadecimal _⟩

/-- The smallest 64-bit integer. -/
theorem convert_canonical_min :
    ∃ digits text, convert .long (-2 ^ 63) = .ok text ∧
      text = (if (-2 ^ 63 : Int) < 0 then [45] else []) ++ digits ∧ Canonical decimalDigit digits ∧
      readDecimalInt text = some (-2 ^ 63) ∧ text.length + 1 ≤ 21 :=
  convert_canonical.1 .long (-2 ^ 63) (by decide)

/-! ## Insertions -/

/-- `LogStream`; its buffer is all there is to it. -/
abbrev LogStream : Type := FixedBuffer kSmallBuffer

/-- What can be inserted: an argument of one of the operators, or of `append`. -/
inductive LogItem where
  | bool (v : Bool)
  | short (v : Int16)
  | unsignedShort (v : UInt16)
  | int (v : Int32)
  | unsignedInt (v : UInt32)
  | long (v : Int64)
  | unsignedLong (v : UInt64)
  | longLong (v : Int64)
  | unsignedLongLong (v : UInt64)
  | pointer (p : UInt64)
  /-- A number with the text that `snprintf` makes of it by `%.12g`, of less than 32 characters. -/
  | double (text : List UInt8) (h : text.length < 32)
  | char (v : UInt8)
  /-- A `const char*`, which may be `NULL`. -/
  | cString (str : Option (List UInt8))
  /-- A `string`, a `StringPiece`, a `Buffer`, or the arguments of `append`. -/
  | string (v : List UInt8)

namespace LogStream

variable (s : LogStream)

/-- `LogStream::kMaxNumericSize`. -/
def kMaxNumericSize : Nat := 32

/-- Write the text of a number, if there is room for any. -/
def writeNumber (text : Checked (List UInt8)) : Checked LogStream :=
  if s.avail ≥ kMaxNumericSize then do s.write (← text) else return s

/-- `formatInteger<T>(v)`. -/
def formatInteger (T : IntegerType) (v : Int) : Checked LogStream := s.writeNumber (convert T v)

/-- `operator<<` and `append`. -/
def insert : LogItem → Checked LogStream
  | .bool v => return s.append [if v then 49 else 48]
  | .short v => s.formatInteger .int v.toInt32.toInt
  | .unsignedShort v => s.formatInteger .unsignedInt v.toUInt32.toNat
  | .int v => s.formatInteger .int v.toInt
  | .unsignedInt v => s.formatInteger .unsignedInt v.toNat
  | .long v => s.formatInteger .long v.toInt
  | .unsignedLong v => s.formatInteger .unsignedLong v.toNat
  | .longLong v => s.formatInteger .longLong v.toInt
  | .unsignedLongLong v => s.formatInteger .unsignedLongLong v.toNat
  | .pointer p => s.writeNumber do return [48, 120] ++ (← convertHex p.toNat)
  | .double text _ => s.writeNumber (return text)
  | .char v => return s.append [v]
  | .cString (some str) => return s.append str
  | .cString none => return s.append [40, 110, 117, 108, 108, 41] -- (null)
  | .string v => return s.append v

end LogStream

namespace LogItem

/-- Whether an item is written as a number. -/
def Numeric : LogItem → Prop
  | .bool _ | .char _ | .cString _ | .string _ => False
  | _ => True

/-- Which items are numbers can be told by computation. -/
instance : DecidablePred Numeric := fun item => by cases item <;> unfold Numeric <;> infer_instance

/-- The full text of an item. -/
def text : LogItem → List UInt8
  | .bool v => [if v then 49 else 48]
  | .short v => decimalInt v.toInt32.toInt
  | .unsignedShort v => decimalInt v.toUInt32.toNat
  | .int v => decimalInt v.toInt
  | .unsignedInt v => decimalInt v.toNat
  | .long v => decimalInt v.toInt
  | .unsignedLong v => decimalInt v.toNat
  | .longLong v => decimalInt v.toInt
  | .unsignedLongLong v => decimalInt v.toNat
  | .pointer p => [48, 120] ++ hexadecimal p.toNat
  | .double text _ => text
  | .char v => [v]
  | .cString (some str) => str
  | .cString none => [40, 110, 117, 108, 108, 41]
  | .string v => v

/-- Whether `room` characters are enough for an item: any number needs the most that one may have. -/
def Fits (item : LogItem) (room : Nat) : Prop :=
  if item.Numeric then LogStream.kMaxNumericSize ≤ room else item.text.length < room

/-- Whether an item fits is decided by a comparison. -/
instance (item : LogItem) (room : Nat) : Decidable (item.Fits room) := by
  unfold Fits
  infer_instance

/-- The text of an integer is shorter than the room that is asked for. -/
theorem length_decimalInt_lt {T : IntegerType} {v : Int} (h : T.Has v) :
    (decimalInt v).length < LogStream.kMaxNumericSize :=
  Nat.lt_of_lt_of_le (length_decimalInt_of_has h) (by decide)

/-- The text of a number is shorter than the room that is asked for. -/
theorem length_text_of_numeric {item : LogItem} (h : item.Numeric) :
    item.text.length < LogStream.kMaxNumericSize := by
  cases item with
  | bool v => exact h.elim
  | short v => exact length_decimalInt_lt (IntegerType.has_int _)
  | unsignedShort v => exact length_decimalInt_lt (IntegerType.has_unsignedInt _)
  | int v => exact length_decimalInt_lt (IntegerType.has_int v)
  | unsignedInt v => exact length_decimalInt_lt (IntegerType.has_unsignedInt v)
  | long v => exact length_decimalInt_lt (IntegerType.has_long v)
  | unsignedLong v => exact length_decimalInt_lt (IntegerType.has_unsignedLong v)
  | longLong v => exact length_decimalInt_lt (IntegerType.has_long v)
  | unsignedLongLong v => exact length_decimalInt_lt (IntegerType.has_unsignedLong v)
  | pointer p =>
      have hlength : (hexadecimal p.toNat).length ≤ 16 :=
        (length_hexadecimal_le_iff (by decide)).mpr p.toNat_lt
      rw [text, List.length_append, LogStream.kMaxNumericSize]
      exact Nat.lt_of_le_of_lt (Nat.add_le_add_left hlength 2) (by decide)
  | double text hlt => exact hlt
  | char v => exact h.elim
  | cString str => exact h.elim
  | string v => exact h.elim

/-- An item that there is room for leaves some. -/
theorem Fits.length_lt {item : LogItem} {room : Nat} (h : item.Fits room) : item.text.length < room := by
  unfold Fits at h
  split at h
  case isTrue hnumeric => exact (length_text_of_numeric hnumeric).trans_le h
  case isFalse => exact h

end LogItem

namespace LogStream

variable {s : LogStream} {item : LogItem}

/-- A number is formatted where it fits. -/
theorem insert_of_numeric (h : item.Numeric) : s.insert item = s.writeNumber (.ok item.text) := by
  cases item with
  | pointer p =>
      rw [insert, convertHex_eq]
      rfl
  | double text hlt => rfl
  | bool v => exact h.elim
  | char v => exact h.elim
  | cString str => exact h.elim
  | string v => exact h.elim
  | short v => exact congrArg s.writeNumber (convert_eq (IntegerType.has_int _))
  | unsignedShort v => exact congrArg s.writeNumber (convert_eq (IntegerType.has_unsignedInt _))
  | int v => exact congrArg s.writeNumber (convert_eq (IntegerType.has_int v))
  | unsignedInt v => exact congrArg s.writeNumber (convert_eq (IntegerType.has_unsignedInt v))
  | long v => exact congrArg s.writeNumber (convert_eq (IntegerType.has_long v))
  | unsignedLong v => exact congrArg s.writeNumber (convert_eq (IntegerType.has_unsignedLong v))
  | longLong v => exact congrArg s.writeNumber (convert_eq (IntegerType.has_long v))
  | unsignedLongLong v => exact congrArg s.writeNumber (convert_eq (IntegerType.has_unsignedLong v))

/-- A text is appended. -/
theorem insert_of_not_numeric (h : ¬ item.Numeric) : s.insert item = .ok (s.append item.text) := by
  cases item with
  | bool v => rfl
  | char v => rfl
  | cString str => cases str <;> rfl
  | string v => rfl
  | _ => exact absurd trivial h

/-- **An insertion** appends the whole text of the item if there is room for it, and nothing otherwise. -/
theorem insert_sat (s : LogStream) (item : LogItem) : (s.insert item).Sat fun t =>
    t.data = if item.Fits s.avail then s.data ++ item.text else s.data := by
  by_cases hnumeric : item.Numeric
  · rw [insert_of_numeric hnumeric, writeNumber]
    by_cases hroom : s.avail ≥ kMaxNumericSize
    · have hfits : item.Fits s.avail := by rwa [LogItem.Fits, if_pos hnumeric]
      rw [if_pos hroom, if_pos hfits]
      exact FixedBuffer.write_sat hfits.length_lt
    · have hfits : ¬ item.Fits s.avail := by rwa [LogItem.Fits, if_pos hnumeric]
      rw [if_neg hroom, if_neg hfits]
      exact .ok rfl
  · rw [insert_of_not_numeric hnumeric]
    by_cases hroom : item.text.length < s.avail
    · have hfits : item.Fits s.avail := by rwa [LogItem.Fits, if_neg hnumeric]
      rw [if_pos hfits]
      exact .ok (FixedBuffer.data_append hroom)
    · have hfits : ¬ item.Fits s.avail := by rwa [LogItem.Fits, if_neg hnumeric]
      rw [if_neg hfits, FixedBuffer.append_of_le (Nat.le_of_not_lt hroom)]
      exact .ok rfl

/-- There always is room for one more character. -/
theorem insert_avail (item : LogItem) (hs : 0 < s.avail) : (s.insert item).Sat fun t => 0 < t.avail := by
  refine (s.insert_sat item).mono fun t ht => ?_
  split at ht
  case isTrue hfits =>
    have hlt := hfits.length_lt
    rw [FixedBuffer.avail, FixedBuffer.length] at hlt ⊢
    rw [ht, List.length_append]
    omega
  case isFalse =>
    rwa [FixedBuffer.avail, FixedBuffer.length, ht]

/-- Insert one item after the other. -/
def insertAll (s : LogStream) (items : List LogItem) : Checked LogStream := items.foldlM insert s

/-- Nothing inserted. -/
theorem insertAll_nil : s.insertAll [] = .ok s := rfl

/-- The first item, then the others. -/
theorem insertAll_cons (items : List LogItem) :
    s.insertAll (item :: items) = s.insert item >>= fun t => insertAll t items := List.foldlM_cons

/-- A text, then the others. -/
theorem insertAll_cons_of_not_numeric (h : ¬ item.Numeric) (items : List LogItem) :
    s.insertAll (item :: items) = insertAll (s.append item.text) items := by
  rw [insertAll_cons, insert_of_not_numeric h, Checked.ok_bind]

/-- Inserting leaves one byte free. -/
theorem insertAll_avail (items : List LogItem) (hs : 0 < s.avail) :
    (s.insertAll items).Sat fun t => 0 < t.avail :=
  .foldlM (fun _ item _ h => insert_avail item h) hs

/-- The items that are kept, each if there is room for it at its turn. -/
def kept (room : Nat) : List LogItem → List LogItem
  | [] => []
  | item :: items =>
      if item.Fits room then item :: kept (room - item.text.length) items else kept room items

/-- The items that were kept, in their order. -/
theorem kept_sublist (room : Nat) (items : List LogItem) : (kept room items).Sublist items := by
  induction items generalizing room with
  | nil => exact List.Sublist.slnil
  | cons item items ih =>
      rw [kept]
      split
      · exact (ih _).cons_cons item
      · exact (ih room).cons item

/-- What a stream holds in the end. -/
theorem insertAll_sat (s : LogStream) (items : List LogItem) : (s.insertAll items).Sat fun t =>
    t.data = s.data ++ (kept s.avail items).flatMap LogItem.text := by
  induction items generalizing s with
  | nil => exact .ok (List.append_nil s.data).symm
  | cons item items ih =>
      rw [insertAll_cons]
      refine (s.insert_sat item).bind fun t ht => (ih t).mono fun u hu => ?_
      by_cases hfits : item.Fits s.avail
      · rw [if_pos hfits] at ht
        have hroom : t.avail = s.avail - item.text.length := by
          rw [FixedBuffer.avail, FixedBuffer.avail, FixedBuffer.length, FixedBuffer.length, ht,
            List.length_append, Nat.sub_add_eq]
        rw [hu, kept, if_pos hfits, ht, hroom, List.flatMap_cons, List.append_assoc]
      · rw [if_neg hfits] at ht
        have hroom : t.avail = s.avail := by
          rw [FixedBuffer.avail, FixedBuffer.avail, FixedBuffer.length, FixedBuffer.length, ht]
        rw [hu, kept, if_neg hfits, ht, hroom]

/-- **Insertions are atomic and bounded.** Whatever is inserted one after the other into an empty stream,
nothing is written outside the array, one character of it stays free, and the stream holds the full texts
of the items that were kept, in order. The item that comes next is kept if there is room for it, and
changes nothing otherwise. -/
theorem insertAll_kept (items : List LogItem) :
    ∃ s, insertAll FixedBuffer.new items = .ok s ∧ s.length ≤ kSmallBuffer - 1 ∧
      (kept kSmallBuffer items).Sublist items ∧
      s.data = (kept kSmallBuffer items).flatMap LogItem.text ∧
      ∀ item, ∃ t, s.insert item = .ok t ∧
        t.data = if item.Fits s.avail then s.data ++ item.text else s.data := by
  obtain ⟨s, hs, hdata⟩ := insertAll_sat FixedBuffer.new items
  have havail := (insertAll_avail items (s := FixedBuffer.new) (by decide)).of_eq_ok hs
  refine ⟨s, hs, ?_, kept_sublist kSmallBuffer items, hdata, fun item => s.insert_sat item⟩
  have hsum := FixedBuffer.length_add_avail (b := s)
  omega

end LogStream

end Muduo
