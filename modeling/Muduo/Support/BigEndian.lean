import Mathlib.Algebra.Order.Ring.Nat
import Mathlib.Tactic.Common
import Mathlib.Tactic.Positivity
import Mathlib.Tactic.Ring
import Mathlib.Tactic.Zify

/-! # Integers in network byte order

`toBigEndian w n` are the `w` bytes of `n`, most significant first, and `ofBigEndian` reads them back.
Signed integers are written in two's complement: `intToBytes w x` and `intOfBytes`, which are inverse on
the integers that fit into `w` bytes (`intOfBytes_intToBytes`). A machine of any byte order writes them by
converting an integer before it is stored, and reads them by converting what was loaded
(`ByteOrder.store_exchange`, `ByteOrder.exchange_load`). -/

namespace Support

/-- The `w` bytes of `n`, most significant first. -/
def toBigEndian : Nat → Nat → List UInt8
  | 0, _ => []
  | w + 1, n => toBigEndian w (n / 256) ++ [UInt8.ofNat n]

/-- The number with the given bytes, most significant first. -/
def ofBigEndian (bytes : List UInt8) : Nat := bytes.foldl (fun n b => n * 256 + b.toNat) 0

@[simp] theorem length_toBigEndian (w n : Nat) : (toBigEndian w n).length = w := by
  induction w generalizing n with
  | zero => rfl
  | succ w ih => rw [toBigEndian, List.length_append, ih, List.length_singleton]

/-- The byte at place `i` from the front. -/
theorem getElem?_toBigEndian {w i : Nat} (hi : i < w) (n : Nat) :
    (toBigEndian w n)[i]? = some (UInt8.ofNat (n / 256 ^ (w - 1 - i))) := by
  induction w generalizing n with
  | zero => omega
  | succ w ih =>
      by_cases hlast : i = w
      · subst hlast
        rw [toBigEndian, List.getElem?_append_right (by simp), length_toBigEndian, Nat.sub_self,
          Nat.add_sub_cancel, Nat.sub_self, pow_zero, Nat.div_one]
        rfl
      · have hlt : i < w := by omega
        have hexp : w + 1 - 1 - i = w - 1 - i + 1 := by omega
        rw [toBigEndian, List.getElem?_append_left (by simpa using hlt), ih hlt, hexp, pow_succ',
          Nat.div_div_eq_div_mul]

/-- The value of one byte more. -/
theorem ofBigEndian_concat (bytes : List UInt8) (b : UInt8) :
    ofBigEndian (bytes ++ [b]) = ofBigEndian bytes * 256 + b.toNat := by
  rw [ofBigEndian, List.foldl_append]
  rfl

/-- Reading back what was written gives the number up to the bytes that did not fit. -/
theorem ofBigEndian_toBigEndian (w n : Nat) : ofBigEndian (toBigEndian w n) = n % 256 ^ w := by
  induction w generalizing n with
  | zero =>
      rw [pow_zero, Nat.mod_one]
      rfl
  | succ w ih =>
      -- the last byte is `n % 256`, the others are those of `n / 256`
      have hbyte : (UInt8.ofNat n).toNat = n % 256 := UInt8.toNat_ofNat'
      rw [toBigEndian, ofBigEndian_concat, ih, hbyte, pow_succ', Nat.mod_mul]
      ring

/-- The value fits the bytes. -/
theorem ofBigEndian_lt (bytes : List UInt8) : ofBigEndian bytes < 256 ^ bytes.length := by
  induction bytes using List.reverseRecOn with
  | nil => exact Nat.one_pos
  | append_singleton bytes b ih =>
      have hb : b.toNat < 256 := b.toNat_lt
      rw [ofBigEndian_concat, List.length_append, List.length_singleton, pow_succ]
      omega

/-- Writing what was read gives the bytes. -/
theorem toBigEndian_ofBigEndian (bytes : List UInt8) :
    toBigEndian bytes.length (ofBigEndian bytes) = bytes := by
  induction bytes using List.reverseRecOn with
  | nil => rfl
  | append_singleton bytes b ih =>
      have hb : b.toNat < 256 := b.toNat_lt
      have hdiv : (ofBigEndian bytes * 256 + b.toNat) / 256 = ofBigEndian bytes := by omega
      have hlast : UInt8.ofNat (ofBigEndian bytes * 256 + b.toNat) = b := by
        apply UInt8.toNat_inj.mp
        rw [UInt8.toNat_ofNat']
        omega
      rw [ofBigEndian_concat, List.length_append, List.length_singleton, toBigEndian, hdiv, ih, hlast]

/-- The integer of `w` bytes that a conversion of `x` gives. -/
def wrapInt (w : Nat) (x : Int) : Int := x.bmod (256 ^ w)

/-- Wrapping twice is wrapping. -/
theorem wrapInt_wrapInt (w : Nat) (x : Int) : wrapInt w (wrapInt w x) = wrapInt w x := Int.bmod_bmod

/-- The `w` bytes of `x` in two's complement, most significant first. -/
def intToBytes (w : Nat) (x : Int) : List UInt8 := toBigEndian w (x % 256 ^ w).toNat

/-- The integer with the given bytes in two's complement, most significant first. -/
def intOfBytes (bytes : List UInt8) : Int := wrapInt bytes.length (ofBigEndian bytes)

@[simp] theorem length_intToBytes (w : Nat) (x : Int) : (intToBytes w x).length = w :=
  length_toBigEndian _ _

/-- The integers of `w` bytes. -/
def FitsInt (w : Nat) (x : Int) : Prop := -(256 ^ w / 2) ≤ x ∧ x < 256 ^ w / 2

/-- Whether an integer has a width is decided by its bounds. -/
instance (w : Nat) (x : Int) : Decidable (FitsInt w x) := inferInstanceAs (Decidable (_ ∧ _))

/-- Writing an integer converts it. -/
theorem intOfBytes_intToBytes_wrap (w : Nat) (x : Int) :
    intOfBytes (intToBytes w x) = wrapInt w x := by
  have hpos : (0 : Int) < 256 ^ w := by positivity
  have hnonneg : 0 ≤ x % 256 ^ w := Int.emod_nonneg _ hpos.ne'
  -- the remainder fits into `w` bytes, so writing it loses nothing
  have hlt : (x % 256 ^ w).toNat < 256 ^ w := by
    have := Int.emod_lt_of_pos x hpos
    zify
    rwa [Int.toNat_of_nonneg hnonneg]
  rw [intOfBytes, length_intToBytes, intToBytes, ofBigEndian_toBigEndian, Nat.mod_eq_of_lt hlt,
    Int.toNat_of_nonneg hnonneg]
  have hcast : (256 : Int) ^ w = ((256 ^ w : Nat) : Int) := by push_cast; rfl
  rw [wrapInt, hcast, Int.emod_bmod, wrapInt]

/-- An integer that fits is kept by a conversion. -/
theorem wrapInt_of_fits {w : Nat} {x : Int} (h : FitsInt w x) : wrapInt w x = x := by
  obtain ⟨hlow, hhigh⟩ := h
  have hcast : (256 : Int) ^ w = ((256 ^ w : Nat) : Int) := by push_cast; rfl
  rw [hcast] at hlow hhigh
  exact Int.bmod_eq_of_le (by omega) (by omega)

/-- **Round trip.** An integer that fits is read back. -/
theorem intOfBytes_intToBytes {w : Nat} {x : Int} (h : FitsInt w x) :
    intOfBytes (intToBytes w x) = x := by
  rw [intOfBytes_intToBytes_wrap, wrapInt_of_fits h]

/-- **Round trip.** The bytes of the integer that was read from some are those. -/
theorem intToBytes_intOfBytes (bytes : List UInt8) :
    intToBytes bytes.length (intOfBytes bytes) = bytes := by
  have hcast : (256 : Int) ^ bytes.length = ((256 ^ bytes.length : Nat) : Int) := by push_cast; rfl
  rw [intToBytes, intOfBytes, wrapInt, hcast, Int.bmod_emod, ← Int.natCast_mod, Int.toNat_natCast,
    Nat.mod_eq_of_lt (ofBigEndian_lt bytes), toBigEndian_ofBigEndian]

/-- An integer that was read from some bytes fits into them. -/
theorem fitsInt_intOfBytes {bytes : List UInt8} (h : bytes ≠ []) :
    FitsInt bytes.length (intOfBytes bytes) := by
  have hcast : (256 : Int) ^ bytes.length = ((256 ^ bytes.length : Nat) : Int) := by push_cast; rfl
  have hpos : 0 < 256 ^ bytes.length := by positivity
  have heven : 256 ^ bytes.length % 2 = 0 := by
    obtain ⟨n, hn⟩ := Nat.exists_eq_succ_of_ne_zero (List.length_pos_iff.mpr h).ne'
    rw [hn, pow_succ]
    omega
  have hlow := Int.le_bmod (x := (ofBigEndian bytes : Int)) hpos
  have hhigh := Int.bmod_lt (x := (ofBigEndian bytes : Int)) hpos
  rw [FitsInt, intOfBytes, wrapInt, hcast]
  omega

/-! ## Byte orders -/

/-- The order of the bytes of an integer in memory. -/
inductive ByteOrder where
  | little
  | big

namespace ByteOrder

variable (order : ByteOrder)

/-- Bytes that are given with the most significant first, as they stand in memory, and back. -/
def arrange : ByteOrder → List UInt8 → List UInt8
  | .little, bytes => bytes.reverse
  | .big, bytes => bytes

/-- What is in memory for an integer of `w` bytes. -/
def store (w : Nat) (x : Int) : List UInt8 := order.arrange (intToBytes w x)

/-- The integer in memory. -/
def load (bytes : List UInt8) : Int := intOfBytes (order.arrange bytes)

/-- The conversion of an integer of `w` bytes to the order with the most significant byte first, and back:
on a machine of the other order the bytes are exchanged. -/
def exchange (w : Nat) (x : Int) : Int := intOfBytes (order.arrange (intToBytes w x))

@[simp] theorem length_arrange (bytes : List UInt8) : (order.arrange bytes).length = bytes.length := by
  cases order with
  | little => exact List.length_reverse
  | big => rfl

@[simp] theorem arrange_arrange (bytes : List UInt8) : order.arrange (order.arrange bytes) = bytes := by
  cases order with
  | little => exact List.reverse_reverse bytes
  | big => rfl

/-- A single byte stands alone in any order. -/
theorem arrange_of_length_le {bytes : List UInt8} (h : bytes.length ≤ 1) : order.arrange bytes = bytes := by
  cases order with
  | little =>
      cases bytes with
      | nil => rfl
      | cons b bytes =>
          have hnil : bytes = [] := List.eq_nil_of_length_eq_zero (by simpa using h)
          rw [hnil]
          rfl
  | big => rfl

/-- An integer that was converted is stored with the most significant byte first. -/
theorem store_exchange (w : Nat) (x : Int) : order.store w (order.exchange w x) = intToBytes w x := by
  have hbytes := intToBytes_intOfBytes (order.arrange (intToBytes w x))
  rw [length_arrange, length_intToBytes] at hbytes
  rw [store, exchange, hbytes, arrange_arrange]

/-- An integer that is loaded and converted is read with the most significant byte first. -/
theorem exchange_load {w : Nat} {bytes : List UInt8} (h : bytes.length = w) :
    order.exchange w (order.load bytes) = intOfBytes bytes := by
  have hbytes := intToBytes_intOfBytes (order.arrange bytes)
  rw [length_arrange, h] at hbytes
  rw [exchange, load, hbytes, arrange_arrange]

end ByteOrder

end Support
