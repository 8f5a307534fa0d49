import Muduo.Support.Checked

/-! # `detail::FixedBuffer`

The buffer of `base/LogStream.h`: an array of `SIZE` characters that is filled from the front. A text is
appended whole or not at all. -/

namespace Muduo

open Support

/-- `detail::kSmallBuffer`. -/
def kSmallBuffer : Nat := 4000

/-- `detail::kLargeBuffer`. -/
def kLargeBuffer : Nat := 4000 * 1000

/-- `FixedBuffer<SIZE>`; the data are the characters from `data_` to `cur_`. -/
structure FixedBuffer (SIZE : Nat) where
  data : List UInt8
  fits : data.length ≤ SIZE

namespace FixedBuffer

variable {SIZE : Nat}

/-- An empty buffer. -/
def new : FixedBuffer SIZE := ⟨[], Nat.zero_le _⟩

variable (b : FixedBuffer SIZE)

/-- `FixedBuffer::length`. -/
def length : Nat := b.data.length

/-- `FixedBuffer::avail`: the bytes still free. -/
def avail : Nat := SIZE - b.length

/-- `append(buf, len)`. -/
def append (buf : List UInt8) : FixedBuffer SIZE :=
  if h : b.avail > buf.length then
    ⟨b.data ++ buf, by
      have hfits := b.fits
      rw [avail, length] at h
      rw [List.length_append]
      omega⟩
  else b -- there is no partial append

/-- Write a text and the `\0` after it to `current()`, and `add` the length of the text. The array must have
room for them. -/
def write (text : List UInt8) : Checked (FixedBuffer SIZE) :=
  if h : text.length < b.avail then
    .ok ⟨b.data ++ text, by
      rw [avail, length] at h
      rw [List.length_append]
      omega⟩
  else .error "current()"

/-- `reset()`: the characters need not be cleared. -/
def reset (_ : FixedBuffer SIZE) : FixedBuffer SIZE := new

variable {b}

/-- A text that fits is appended. -/
theorem data_append {buf : List UInt8} (h : b.avail > buf.length) :
    (b.append buf).data = b.data ++ buf := by
  rw [append, dif_pos h]

/-- A text that does not fit is dropped. -/
theorem append_of_le {buf : List UInt8} (h : b.avail ≤ buf.length) : b.append buf = b := by
  rw [append, dif_neg (Nat.not_lt.mpr h)]

/-- The free bytes are what the length leaves. -/
theorem length_add_avail : b.length + b.avail = SIZE := Nat.add_sub_cancel' b.fits

/-- A buffer with some room keeps some. -/
theorem avail_append_pos (buf : List UInt8) (hb : 0 < b.avail) : 0 < (b.append buf).avail := by
  by_cases h : b.avail > buf.length
  · rw [avail, length, data_append h, List.length_append]
    rw [avail, length] at h
    omega
  · rwa [append_of_le (Nat.le_of_not_lt h)]

/-- A text written where it fits. -/
theorem write_sat {text : List UInt8} (h : text.length < b.avail) :
    (b.write text).Sat fun c => c.data = b.data ++ text := by
  rw [write, dif_pos h]
  exact .ok rfl

/-- An empty buffer is free. -/
theorem avail_new : (new : FixedBuffer SIZE).avail = SIZE := Nat.sub_zero SIZE

end FixedBuffer

end Muduo
