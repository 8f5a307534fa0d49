import Mathlib.Algebra.Order.Field.Rat
import Mathlib.Tactic.FieldSimp
import Mathlib.Tactic.Linarith
import Mathlib.Tactic.Positivity
import Mathlib.Tactic.Ring
import Muduo.Support.Decimal
import Muduo.Support.Rounding

/-! # Numbers in units

A number is shown as a multiple of some unit, with a fixed number of decimals and a suffix for the unit.
`Format.text` is the text, with the quotient rounded as `printf` rounds it, and `readQuantity` reads from a
text which quantity it shows. A `Scale` chooses the format by the size of the number. What makes it a good one
is checked at its limits only: at each limit the last number of one format is not shown as more than the
first of the next, and is not too long. Then larger numbers are never shown as less (`Scale.value_mono`) and
no text is too long (`Scale.length_text_le`). -/

namespace Support

/-! ## Quantities -/

/-- `mantissa / 10 ^ decimals` times a unit. -/
structure Quantity where
  mantissa : Nat
  decimals : Nat
  unit : Nat
  deriving DecidableEq, Repr

namespace Quantity

/-- The number that the digits and the unit stand for. -/
def value (q : Quantity) : ℚ := q.mantissa * q.unit / 10 ^ q.decimals

/-- One unit of the last digit. -/
def lastDigit (q : Quantity) : ℚ := q.unit / 10 ^ q.decimals

/-- Comparing two quantities without fractions. -/
def Le (q q' : Quantity) : Prop :=
  q.mantissa * q.unit * 10 ^ q'.decimals ≤ q'.mantissa * q'.unit * 10 ^ q.decimals

/-- Quantities are compared by computation. -/
instance (q q' : Quantity) : Decidable (q.Le q') := inferInstanceAs (Decidable (_ ≤ _))

/-- Quantities are compared by their values. -/
theorem value_le_iff {q q' : Quantity} : q.value ≤ q'.value ↔ q.Le q' := by
  unfold value Le
  rw [div_le_div_iff₀ (by positivity) (by positivity)]
  exact_mod_cast Iff.rfl

end Quantity

/-! ## Texts -/

/-- `mantissa / 10 ^ decimals`, with all its decimals. -/
def fixedText (decimals mantissa : Nat) : List UInt8 :=
  if decimals = 0 then decimal mantissa
  else decimal (mantissa / 10 ^ decimals) ++ 46 :: formatInt true decimals (mantissa % 10 ^ decimals : Nat)

/-- More digits, longer texts. -/
theorem length_fixedText_mono (decimals : Nat) {n m : Nat} (h : n ≤ m) :
    (fixedText decimals n).length ≤ (fixedText decimals m).length := by
  unfold fixedText
  split
  case isTrue => exact length_decimal_mono h
  case isFalse hpos =>
    have hpos' : 0 < decimals := Nat.pos_of_ne_zero hpos
    have hfraction : ∀ k, (formatInt true decimals (k % 10 ^ decimals : Nat)).length = decimals := fun k =>
      length_formatInt_of_lt true hpos' (by omega) (Nat.mod_lt k (Nat.pow_pos (by decide)))
    have hwhole := length_decimal_mono (Nat.div_le_div_right (c := 10 ^ decimals) h)
    rw [List.length_append, List.length_append, List.length_cons, List.length_cons, hfraction, hfraction]
    omega

/-- Whether the character is a digit. -/
def isDigit (c : UInt8) : Bool := (decimalDigit c).isSome

/-- The quantity that a text shows: digits, perhaps a point and more digits, and the name of a unit. -/
def readQuantity (units : List UInt8 → Option Nat) (text : List UInt8) : Option Quantity := do
  let whole := text.takeWhile isDigit
  let rest := text.dropWhile isDigit
  let point := rest.head? = some 46
  let fraction := if point then rest.tail.takeWhile isDigit else []
  let suffix := if point then rest.tail.dropWhile isDigit else rest
  let mantissa ← readDecimal (whole ++ fraction)
  let unit ← units suffix
  return ⟨mantissa, fraction.length, unit⟩

/-- Decimal text is made of digits. -/
theorem isDigit_of_mem_decimal {n : Nat} : ∀ c ∈ decimal n, isDigit c = true :=
  (canonical_decimal n).digit

/-- Padded text is made of digits. -/
theorem isDigit_of_mem_formatInt {width n : Nat} : ∀ c ∈ formatInt true width n, isDigit c = true := by
  intro c hc
  rw [formatInt, if_pos rfl, if_neg (by omega), List.nil_append, List.mem_append] at hc
  rcases hc with hc | hc
  · rw [(List.mem_replicate.mp hc).2]
    rfl
  · exact isDigit_of_mem_decimal c hc

/-- A suffix can be told from the digits and the point before it. -/
def IsSuffix (suffix : List UInt8) : Prop := ∀ c ∈ suffix.head?, isDigit c = false ∧ c ≠ 46

/-- A suffix can be told by computation. -/
instance (suffix : List UInt8) : Decidable (IsSuffix suffix) :=
  inferInstanceAs (Decidable (∀ c ∈ suffix.head?, _))

/-- Digits end where something else begins. -/
theorem takeWhile_digits {digits rest : List UInt8} (hdigits : ∀ c ∈ digits, isDigit c = true)
    (hrest : ∀ c ∈ rest.head?, isDigit c = false) : (digits ++ rest).takeWhile isDigit = digits := by
  rw [List.takeWhile_append_of_pos hdigits]
  cases rest with
  | nil => simp
  | cons c rest => rw [List.takeWhile_cons_of_neg (by simp [hrest c rfl]), List.append_nil]

/-- Digits are dropped up to the next character. -/
theorem dropWhile_digits {digits rest : List UInt8} (hdigits : ∀ c ∈ digits, isDigit c = true)
    (hrest : ∀ c ∈ rest.head?, isDigit c = false) : (digits ++ rest).dropWhile isDigit = rest := by
  rw [List.dropWhile_append_of_pos hdigits]
  cases rest with
  | nil => rfl
  | cons c rest => rw [List.dropWhile_cons_of_neg (by simp [hrest c rfl])]

/-- A text shows the quantity it was made from. -/
theorem readQuantity_fixedText {units : List UInt8 → Option Nat} {suffix : List UInt8} {unit : Nat}
    (hunit : units suffix = some unit) (hsuffix : IsSuffix suffix) (decimals mantissa : Nat) :
    readQuantity units (fixedText decimals mantissa ++ suffix) = some ⟨mantissa, decimals, unit⟩ := by
  have hend : ∀ c ∈ suffix.head?, isDigit c = false := fun c hc => (hsuffix c hc).1
  unfold fixedText
  split
  case isTrue hzero =>
    have hpoint : suffix.head? ≠ some 46 := fun h => (hsuffix 46 h).2 rfl
    unfold readQuantity
    simp only
    rw [takeWhile_digits isDigit_of_mem_decimal hend, dropWhile_digits isDigit_of_mem_decimal hend,
      if_neg hpoint, if_neg hpoint, List.append_nil, readDecimal_decimal, hunit, hzero]
    rfl
  case isFalse hpos =>
    obtain ⟨fraction, hfraction⟩ : ∃ fraction,
      formatInt true decimals (mantissa % 10 ^ decimals : Nat) = fraction := ⟨_, rfl⟩
    have hdigits : ∀ c ∈ fraction, isDigit c = true := by
      rw [← hfraction]
      exact isDigit_of_mem_formatInt
    have hmod : mantissa % 10 ^ decimals < 10 ^ decimals := Nat.mod_lt _ (Nat.pow_pos (by decide))
    have hlength : fraction.length = decimals := by
      rw [← hfraction]
      exact length_formatInt_of_lt true (Nat.pos_of_ne_zero hpos) (by omega) hmod
    have hread : readDecimal (decimal (mantissa / 10 ^ decimals) ++ fraction) = some mantissa := by
      have hne : decimal (mantissa / 10 ^ decimals) ++ fraction ≠ [] :=
        List.append_ne_nil_of_left_ne_nil (canonical_decimal _).ne_nil _
      have hwhole := readDecimal_decimal (mantissa / 10 ^ decimals)
      rw [readDecimal, readDigits, if_neg (canonical_decimal _).ne_nil] at hwhole
      rw [readDecimal, readDigits, if_neg hne, readFrom_append, hwhole, Option.bind_some, ← hfraction,
        readFrom_formatInt (Nat.pos_of_ne_zero hpos) hmod, Nat.div_add_mod]
    have hpoint : ∀ c ∈ (46 :: (fraction ++ suffix)).head?, isDigit c = false := by
      intro c hc
      cases hc
      rfl
    rw [hfraction, List.append_assoc, List.cons_append]
    unfold readQuantity
    simp only
    rw [takeWhile_digits isDigit_of_mem_decimal hpoint, dropWhile_digits isDigit_of_mem_decimal hpoint,
      if_pos List.head?_cons, if_pos List.head?_cons, List.tail_cons, takeWhile_digits hdigits hend,
      dropWhile_digits hdigits hend, hread, hunit, hlength]
    rfl

/-! ## Formats -/

/-- How a number is shown: `"%.Nf"` of its quotient by the unit, and the suffix. -/
structure Format where
  decimals : Nat
  unit : Nat
  suffix : List UInt8
  deriving DecidableEq, Repr

namespace Format

variable (f : Format)

/-- What is shown of `n`. -/
def quantity (n : Nat) : Quantity := ⟨roundDiv (n * 10 ^ f.decimals) f.unit, f.decimals, f.unit⟩

/-- The text of a number in this format. -/
def text (n : Nat) : List UInt8 := fixedText f.decimals (f.quantity n).mantissa ++ f.suffix

variable {f}

/-- The number is at most half a unit of the last digit away. -/
theorem abs_value_sub_le (hunit : 0 < f.unit) (n : Nat) :
    |(f.quantity n).value - n| ≤ (f.quantity n).lastDigit / 2 := by
  obtain ⟨hlo, hhi⟩ := roundDiv_bounds hunit (n * 10 ^ f.decimals)
  have hlo' : (2 : ℚ) * (n * 10 ^ f.decimals)
      ≤ 2 * (f.unit * (f.quantity n).mantissa) + f.unit := by exact_mod_cast hlo
  have hhi' : (2 : ℚ) * (f.unit * (f.quantity n).mantissa)
      ≤ 2 * (n * 10 ^ f.decimals) + f.unit := by exact_mod_cast hhi
  have hpow : (0 : ℚ) < 10 ^ f.decimals := by positivity
  have hdiff : (f.quantity n).value - n
      = (f.unit * (f.quantity n).mantissa - n * 10 ^ f.decimals) / 10 ^ f.decimals := by
    have hvalue : (f.quantity n).value = (f.quantity n).mantissa * f.unit / 10 ^ f.decimals := rfl
    rw [hvalue, sub_div, mul_div_cancel_right₀ _ hpow.ne', mul_comm (f.unit : ℚ)]
  have hnear : |(f.unit * (f.quantity n).mantissa : ℚ) - n * 10 ^ f.decimals| ≤ f.unit / 2 := by
    rw [abs_le]
    constructor
    · linarith
    · linarith
  calc |(f.quantity n).value - n|
      = |(f.unit * (f.quantity n).mantissa : ℚ) - n * 10 ^ f.decimals| / 10 ^ f.decimals := by
        rw [hdiff, abs_div, abs_of_pos hpow]
    _ ≤ f.unit / 2 / 10 ^ f.decimals := div_le_div_of_nonneg_right hnear hpow.le
    _ = (f.quantity n).lastDigit / 2 := div_right_comm _ _ _

/-- A larger number is shown as no less. -/
theorem value_mono {n m : Nat} (h : n ≤ m) : (f.quantity n).value ≤ (f.quantity m).value := by
  rw [Quantity.value_le_iff]
  exact Nat.mul_le_mul_right _ (Nat.mul_le_mul_right _ (roundDiv_mono _ (Nat.mul_le_mul_right _ h)))

/-- A larger number has no shorter text. -/
theorem length_text_mono {n m : Nat} (h : n ≤ m) : (f.text n).length ≤ (f.text m).length := by
  rw [text, text, List.length_append, List.length_append]
  exact Nat.add_le_add_right
    (length_fixedText_mono _ (roundDiv_mono _ (Nat.mul_le_mul_right _ h))) _

/-- The unit has its name, and numbers up to `n` have texts of at most `width` characters. -/
structure Sound (units : List UInt8 → Option Nat) (width n : Nat) (f : Format) : Prop where
  unit_pos : 0 < f.unit
  suffix : IsSuffix f.suffix
  named : units f.suffix = some f.unit
  length_le : (f.text n).length ≤ width

/-- The soundness of a format at a number is decidable. -/
instance (units : List UInt8 → Option Nat) (width n : Nat) (f : Format) :
    Decidable (f.Sound units width n) :=
  decidable_of_iff
    (0 < f.unit ∧ IsSuffix f.suffix ∧ units f.suffix = some f.unit ∧ (f.text n).length ≤ width)
    ⟨fun ⟨h1, h2, h3, h4⟩ => ⟨h1, h2, h3, h4⟩, fun ⟨h1, h2, h3, h4⟩ => ⟨h1, h2, h3, h4⟩⟩

end Format

/-! ## Scales -/

/-- The format of the first row whose limit is above `n`. -/
def pick (last : Format) : List (Nat × Format) → Nat → Format
  | [], _ => last
  | (limit, f) :: rows, n => if n < limit then f else pick last rows n

/-- Across each limit nothing is shown as less. -/
def Steps (last : Format) : List (Nat × Format) → Prop
  | [] => True
  | (limit, f) :: rows =>
      (f.quantity (limit - 1)).Le ((pick last rows limit).quantity limit) ∧ Steps last rows

/-- The steps of a table are decidable. -/
instance decidableSteps (last : Format) : (rows : List (Nat × Format)) → Decidable (Steps last rows)
  | [] => inferInstanceAs (Decidable True)
  | (_, _) :: rows =>
      have := decidableSteps last rows
      inferInstanceAs (Decidable (_ ∧ _))

/-- Formats for the numbers below `bound`, in texts of at most `width` characters. -/
structure Scale (units : List UInt8 → Option Nat) (width bound : Nat) where
  rows : List (Nat × Format)
  last : Format
  steps : Steps last rows
  sound : ∀ row ∈ rows ++ [(bound, last)], row.2.Sound units width (row.1 - 1)

/-- Along the rows of a scale larger numbers are not shown as less. -/
theorem value_pick_mono {last : Format} {rows : List (Nat × Format)} (h : Steps last rows) {n m : Nat}
    (hnm : n ≤ m) : ((pick last rows n).quantity n).value ≤ ((pick last rows m).quantity m).value := by
  induction rows generalizing n with
  | nil => exact Format.value_mono hnm
  | cons row rows ih =>
      obtain ⟨limit, f⟩ := row
      obtain ⟨hstep, hsteps⟩ := h
      rw [pick, pick]
      by_cases hm : m < limit
      · rw [if_pos hm, if_pos (by omega)]
        exact Format.value_mono hnm
      · rw [if_neg hm]
        by_cases hn : n < limit
        · -- over the limit between them
          rw [if_pos hn]
          calc (f.quantity n).value ≤ (f.quantity (limit - 1)).value := Format.value_mono (by omega)
            _ ≤ ((pick last rows limit).quantity limit).value := Quantity.value_le_iff.mpr hstep
            _ ≤ ((pick last rows m).quantity m).value := ih hsteps (by omega)
        · rw [if_neg hn]
          exact ih hsteps hnm

/-- The row of a number. -/
theorem exists_row (last : Format) (rows : List (Nat × Format)) {n bound : Nat} (h : n < bound) :
    ∃ limit, n < limit ∧ (limit, pick last rows n) ∈ rows ++ [(bound, last)] := by
  induction rows with
  | nil => exact ⟨bound, h, List.mem_singleton.mpr rfl⟩
  | cons row rows ih =>
      obtain ⟨limit, f⟩ := row
      rw [pick]
      split
      case isTrue hlt => exact ⟨limit, hlt, List.mem_cons_self ..⟩
      case isFalse =>
        obtain ⟨limit', hlt, hmem⟩ := ih
        exact ⟨limit', hlt, List.mem_cons_of_mem _ hmem⟩

namespace Scale

variable {units : List UInt8 → Option Nat} {width bound : Nat} (s : Scale units width bound)

/-- What is shown of `n`. -/
def quantity (n : Nat) : Quantity := (pick s.last s.rows n).quantity n

/-- The text of a number in the format that the scale picks. -/
def text (n : Nat) : List UInt8 := (pick s.last s.rows n).text n

/-- A larger number is shown as no less. -/
theorem value_mono {n m : Nat} (h : n ≤ m) : (s.quantity n).value ≤ (s.quantity m).value :=
  value_pick_mono s.steps h

variable {n : Nat} (hn : n < bound)

include hn

/-- The format picked is sound. -/
theorem sound_pick : (pick s.last s.rows n).Sound units width n := by
  obtain ⟨limit, hlt, hmem⟩ := exists_row s.last s.rows hn
  obtain ⟨hunit, hsuffix, hnamed, hlength⟩ := s.sound _ hmem
  exact ⟨hunit, hsuffix, hnamed, (Format.length_text_mono (by omega)).trans hlength⟩

/-- The text has at most the width. -/
theorem length_text_le : (s.text n).length ≤ width := (s.sound_pick hn).length_le

/-- The text is read back as the quantity. -/
theorem readQuantity_text : readQuantity units (s.text n) = some (s.quantity n) :=
  readQuantity_fixedText (s.sound_pick hn).named (s.sound_pick hn).suffix _ _

/-- The quantity is off by half a last digit at most. -/
theorem abs_value_sub_le : |(s.quantity n).value - n| ≤ (s.quantity n).lastDigit / 2 :=
  Format.abs_value_sub_le (s.sound_pick hn).unit_pos n

end Scale

end Support
