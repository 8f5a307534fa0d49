import Mathlib.Algebra.Order.Ring.Nat
import Mathlib.Tactic.Common

/-! # Numbers as text

`decimal n` and `hexadecimal n` are the characters of a number in base 10 and 16, without leading zeros,
and `decimalInt` those of an integer. `readDecimal`, `readHexadecimal` and `readDecimalInt` read them back.
`formatInt` is the conversion `%d` of `printf`, with a width and a choice of what it is filled with. -/

namespace Support

section Digits

variable {b n : Nat} {byte : Char → UInt8}

/-- The digits of a number below the base. -/
theorem map_toDigits_of_lt (h : n < b) : (Nat.toDigits b n).map byte = [byte n.digitChar] := by
  rw [Nat.toDigits_of_lt_base h, List.map_singleton]

/-- The last digit of any other number is its remainder. -/
theorem map_toDigits_of_le (hb : 1 < b) (h : b ≤ n) :
    (Nat.toDigits b n).map byte = (Nat.toDigits b (n / b)).map byte ++ [byte (n % b).digitChar] := by
  rw [Nat.toDigits_of_base_le hb h, List.map_append, List.map_singleton]

/-- The first digit of a number is not zero. -/
theorem toDigits_eq_cons (hb : 1 < b) (hn : 0 < n) :
    ∃ d ds, 0 < d ∧ d < b ∧ Nat.toDigits b n = d.digitChar :: ds := by
  induction n using Nat.strong_induction_on with
  | h n ih =>
      by_cases hlt : n < b
      · exact ⟨n, [], hn, hlt, Nat.toDigits_of_lt_base hlt⟩
      · have hle : b ≤ n := Nat.not_lt.mp hlt
        obtain ⟨d, ds, hd, hdb, hdigits⟩ :=
          ih (n / b) (Nat.div_lt_self hn hb) (Nat.div_pos hle (Nat.lt_of_succ_lt hb))
        refine ⟨d, ds ++ [(n % b).digitChar], hd, hdb, ?_⟩
        rw [Nat.toDigits_of_base_le hb hle, hdigits, List.cons_append]

/-- The digits of a number are those of numbers below the base. -/
theorem exists_of_mem_toDigits (hb : 1 < b) {c : Char} (h : c ∈ Nat.toDigits b n) :
    ∃ d < b, c = d.digitChar := by
  induction n using Nat.strong_induction_on with
  | h n ih =>
      by_cases hlt : n < b
      · rw [Nat.toDigits_of_lt_base hlt, List.mem_singleton] at h
        exact ⟨n, hlt, h⟩
      · have hle : b ≤ n := Nat.not_lt.mp hlt
        rw [Nat.toDigits_of_base_le hb hle, List.mem_append, List.mem_singleton] at h
        rcases h with h | h
        · exact ih (n / b) (Nat.div_lt_self (by omega) hb) h
        · exact ⟨n % b, Nat.mod_lt n (by omega), h⟩

/-- Read on from `a`, most significant digit first. -/
def readFrom (b : Nat) (value : UInt8 → Option Nat) (a : Nat) (text : List UInt8) : Option Nat :=
  text.foldlM (fun n c => (value c).map (b * n + ·)) a

/-- The number with the given digits, of which there is at least one. -/
def readDigits (b : Nat) (value : UInt8 → Option Nat) (text : List UInt8) : Option Nat :=
  if text = [] then none else readFrom b value 0 text

/-- Reading two parts, one after the other. -/
theorem readFrom_append {value : UInt8 → Option Nat} (a : Nat) (xs ys : List UInt8) :
    readFrom b value a (xs ++ ys) = (readFrom b value a xs).bind (readFrom b value · ys) :=
  List.foldlM_append

/-- Digits are read back where each is. -/
theorem readFrom_toDigits (hb : 1 < b) {value : UInt8 → Option Nat}
    (hvalue : ∀ d < b, value (byte d.digitChar) = some d) (a n : Nat) :
    readFrom b value a ((Nat.toDigits b n).map byte)
      = some (b ^ ((Nat.toDigits b n).map byte).length * a + n) := by
  induction n using Nat.strong_induction_on with
  | h n ih =>
      by_cases hlt : n < b
      · rw [map_toDigits_of_lt hlt]
        simp [readFrom, hvalue n hlt]
      · have hle : b ≤ n := Nat.not_lt.mp hlt
        have hpos : 0 < n := by omega
        have hlast : b * (n / b) + n % b = n := Nat.div_add_mod n b
        rw [map_toDigits_of_le hb hle, readFrom_append, ih (n / b) (Nat.div_lt_self hpos hb)]
        simp only [readFrom, Option.bind_some, List.foldlM_cons, List.foldlM_nil,
          hvalue (n % b) (Nat.mod_lt n (by omega)), Option.map_some, List.length_append,
          List.length_singleton, Nat.pow_succ, Option.bind_eq_bind, Option.pure_def, Option.some.injEq]
        rw [Nat.mul_add, Nat.add_assoc, hlast, ← Nat.mul_assoc, Nat.mul_comm b]

/-- Digits are read back. -/
theorem readDigits_toDigits (hb : 1 < b) {value : UInt8 → Option Nat}
    (hvalue : ∀ d < b, value (byte d.digitChar) = some d) (n : Nat) :
    readDigits b value ((Nat.toDigits b n).map byte) = some n := by
  have hne : (Nat.toDigits b n).map byte ≠ [] := by
    rw [Ne, List.map_eq_nil_iff]
    exact Nat.toDigits_ne_nil
  rw [readDigits, if_neg hne, readFrom_toDigits hb hvalue, Nat.mul_zero, Nat.zero_add]

/-- A text of digits, at least one, without leading zeros. -/
structure Canonical (value : UInt8 → Option Nat) (text : List UInt8) : Prop where
  ne_nil : text ≠ []
  digit : ∀ c ∈ text, (value c).isSome
  leading : text.head? = some 48 → text = [48]

/-- The digits of a number have no superfluous zero. -/
theorem canonical_toDigits (hb : 1 < b) {value : UInt8 → Option Nat}
    (hvalue : ∀ d < b, value (byte d.digitChar) = some d) (hzero : byte '0' = 48) (n : Nat) :
    Canonical value ((Nat.toDigits b n).map byte) where
  ne_nil := by
    rw [Ne, List.map_eq_nil_iff]
    exact Nat.toDigits_ne_nil
  digit c hc := by
    obtain ⟨d, hd, rfl⟩ := List.mem_map.mp hc
    obtain ⟨d, hlt, rfl⟩ := exists_of_mem_toDigits hb hd
    rw [hvalue d hlt]
    rfl
  leading hhead := by
    rcases Nat.eq_zero_or_pos n with rfl | hn
    · rw [Nat.toDigits_zero, List.map_singleton, hzero]
    · -- the first digit would have to be zero
      obtain ⟨d, ds, hd, hlt, hdigits⟩ := toDigits_eq_cons hb hn
      rw [hdigits, List.map_cons, List.head?_cons, Option.some.injEq] at hhead
      have hd0 := hvalue 0 (by omega)
      rw [show Nat.digitChar 0 = '0' from rfl, hzero, ← hhead, hvalue d hlt] at hd0
      cases hd0
      omega

end Digits

/-- The characters of `n` in base 10. -/
def decimal (n : Nat) : List UInt8 := (Nat.toDigits 10 n).map fun c => UInt8.ofNat c.toNat

/-- How long the digits are. -/
theorem length_decimal_le_iff {n k : Nat} (hk : 0 < k) : (decimal n).length ≤ k ↔ n < 10 ^ k := by
  rw [decimal, List.length_map, Nat.length_toDigits_le_iff (by decide) hk]

/-- A larger number is not shorter. -/
theorem length_decimal_mono {n m : Nat} (h : n ≤ m) : (decimal n).length ≤ (decimal m).length := by
  have hpos : 0 < (decimal m).length := by
    rw [decimal, List.length_map]
    exact List.length_pos_iff.mpr Nat.toDigits_ne_nil
  have hlt : m < 10 ^ (decimal m).length := (length_decimal_le_iff hpos).mp (Nat.le_refl _)
  exact (length_decimal_le_iff hpos).mpr (Nat.lt_of_le_of_lt h hlt)

/-- There are only digits. -/
theorem digit_of_mem_decimal {n : Nat} {c : UInt8} (h : c ∈ decimal n) : 48 ≤ c ∧ c ≤ 57 := by
  obtain ⟨d, hd, rfl⟩ := List.mem_map.mp h
  have hdigit := Nat.isDigit_of_mem_toDigits (by decide) (by decide) hd
  rw [Char.isDigit, Bool.and_eq_true, decide_eq_true_iff, decide_eq_true_iff] at hdigit
  have hlo : 48 ≤ d.toNat := UInt32.le_iff_toNat_le.mp hdigit.1
  have hhi : d.toNat ≤ 57 := UInt32.le_iff_toNat_le.mp hdigit.2
  have hbyte : (UInt8.ofNat d.toNat).toNat = d.toNat := by
    rw [UInt8.toNat_ofNat']
    omega
  rw [UInt8.le_iff_toNat_le, UInt8.le_iff_toNat_le, hbyte]
  exact ⟨hlo, hhi⟩

/-- The value of a decimal digit. -/
def decimalDigit (c : UInt8) : Option Nat := if 48 ≤ c ∧ c ≤ 57 then some (c.toNat - 48) else none

/-- The number with the given decimal digits. -/
def readDecimal (text : List UInt8) : Option Nat := readDigits 10 decimalDigit text

/-- Decimal digits are read back. -/
theorem readDecimal_decimal (n : Nat) : readDecimal (decimal n) = some n :=
  readDigits_toDigits (by decide) (by decide) n

/-- Decimal digits are canonical. -/
theorem canonical_decimal (n : Nat) : Canonical decimalDigit (decimal n) :=
  canonical_toDigits (by decide) (by decide) rfl n

/-- The characters of `n` in base 16, in upper case. -/
def hexadecimal (n : Nat) : List UInt8 := (Nat.toDigits 16 n).map fun c => UInt8.ofNat c.toUpper.toNat

/-- How long the hexadecimal digits are. -/
theorem length_hexadecimal_le_iff {n k : Nat} (hk : 0 < k) : (hexadecimal n).length ≤ k ↔ n < 16 ^ k := by
  rw [hexadecimal, List.length_map, Nat.length_toDigits_le_iff (by decide) hk]

/-- The value of a hexadecimal digit in upper case. -/
def hexadecimalDigit (c : UInt8) : Option Nat :=
  if 65 ≤ c ∧ c ≤ 70 then some (c.toNat - 55) else decimalDigit c

/-- The number with the given hexadecimal digits. -/
def readHexadecimal (text : List UInt8) : Option Nat := readDigits 16 hexadecimalDigit text

/-- Hexadecimal digits are read back. -/
theorem readHexadecimal_hexadecimal (n : Nat) : readHexadecimal (hexadecimal n) = some n :=
  readDigits_toDigits (by decide) (by decide) n

/-- Hexadecimal digits are canonical. -/
theorem canonical_hexadecimal (n : Nat) : Canonical hexadecimalDigit (hexadecimal n) :=
  canonical_toDigits (by decide) (by decide) rfl n

/-- The characters of `x` in base 10, with its sign. -/
def decimalInt (x : Int) : List UInt8 := if x < 0 then 45 :: decimal x.natAbs else decimal x.natAbs

/-- The digits of a signed number. -/
theorem decimalInt_eq (x : Int) :
    decimalInt x = (if x < 0 then [45] else []) ++ decimal x.natAbs := by
  unfold decimalInt
  split
  · rfl
  · rfl

/-- The digits of a number that is not negative. -/
theorem decimalInt_of_nonneg {x : Int} (h : 0 ≤ x) : decimalInt x = decimal x.natAbs :=
  if_neg (Int.not_lt.mpr h)

/-- The integer with the given sign and decimal digits. -/
def readDecimalInt (text : List UInt8) : Option Int :=
  if text.head? = some 45 then (readDecimal text.tail).map fun n : Nat => -(n : Int)
  else (readDecimal text).map fun n : Nat => (n : Int)

/-- A signed number is read back. -/
theorem readDecimalInt_decimalInt (x : Int) : readDecimalInt (decimalInt x) = some x := by
  unfold decimalInt
  split
  case isTrue hneg =>
    rw [readDecimalInt, if_pos List.head?_cons, List.tail_cons, readDecimal_decimal, Option.map_some]
    congr 1
    omega
  case isFalse hnonneg =>
    have hhead : (decimal x.natAbs).head? ≠ some 45 := fun hhead =>
      absurd (digit_of_mem_decimal (List.mem_of_head? hhead)).1 (by decide)
    rw [readDecimalInt, if_neg hhead, readDecimal_decimal, Option.map_some]
    congr 1
    omega

/-- How long a signed number is. -/
theorem length_decimalInt_le {x : Int} {k : Nat} (hk : 0 < k) (h : x.natAbs < 10 ^ k) :
    (decimalInt x).length ≤ k + 1 := by
  have hlength : (decimal x.natAbs).length ≤ k := (length_decimal_le_iff hk).mpr h
  unfold decimalInt
  split
  · rw [List.length_cons]
    omega
  · omega

/-- The conversion `%d` with a width, filled with zeros after the sign or with blanks before it. -/
def formatInt (zeros : Bool) (width : Nat) (x : Int) : List UInt8 :=
  let fill := width - (decimalInt x).length
  if zeros then
    (if x < 0 then [45] else []) ++ (List.replicate fill 48 ++ decimal x.natAbs)
  else List.replicate fill 32 ++ decimalInt x

/-- How long a padded number is. -/
theorem length_formatInt (zeros : Bool) (width : Nat) (x : Int) :
    (formatInt zeros width x).length = max width (decimalInt x).length := by
  cases zeros with
  | true =>
      have hsign : (decimalInt x).length = (if x < 0 then [45] else [] : List UInt8).length +
          (decimal x.natAbs).length := by
        rw [decimalInt_eq, List.length_append]
      simp only [formatInt, if_pos, List.length_append, List.length_replicate]
      omega
  | false =>
      simp only [formatInt, Bool.false_eq_true, if_false, List.length_append, List.length_replicate]
      omega

/-- A number that is not negative and has no more digits than the width fills it exactly. -/
theorem length_formatInt_of_lt (zeros : Bool) {width : Nat} {x : Int} (hwidth : 0 < width) (h : 0 ≤ x)
    (hlt : x.natAbs < 10 ^ width) : (formatInt zeros width x).length = width := by
  have hle : (decimal x.natAbs).length ≤ width := (length_decimal_le_iff hwidth).mpr hlt
  rw [length_formatInt, decimalInt_of_nonneg h, Nat.max_eq_left hle]

/-- The digits of a number that is filled up with zeros, read on from `a`. -/
theorem readFrom_formatInt {width n : Nat} (hwidth : 0 < width) (hlt : n < 10 ^ width) (a : Nat) :
    readFrom 10 decimalDigit a (formatInt true width n) = some (10 ^ width * a + n) := by
  have hlen : (decimal n).length ≤ width := (length_decimal_le_iff hwidth).mpr hlt
  have hzeros : ∀ k, readFrom 10 decimalDigit a (List.replicate k 48) = some (10 ^ k * a) := by
    intro k
    induction k generalizing a with
    | zero => simp [readFrom]
    | succ k ih =>
        have hzero : decimalDigit 48 = some 0 := rfl
        have hfirst : readFrom 10 decimalDigit a (48 :: List.replicate k 48)
            = readFrom 10 decimalDigit (10 * a) (List.replicate k 48) := by
          simp [readFrom, hzero]
        rw [List.replicate_succ, hfirst, ih, Nat.pow_succ, Nat.mul_assoc]
  have htext : formatInt true width n
      = List.replicate (width - (decimal n).length) 48 ++ decimal n := by
    rw [formatInt, if_pos rfl, if_neg (by omega), decimalInt_of_nonneg (by omega)]
    rfl
  rw [htext, readFrom_append, hzeros, Option.bind_some]
  refine (readFrom_toDigits (by decide) (by decide) _ n).trans ?_
  change some (10 ^ (decimal n).length * _ + n) = _
  rw [← Nat.mul_assoc, ← Nat.pow_add, Nat.add_sub_cancel' hlen]

end Support
