import Muduo.Support.Scale

/-! # `formatSI` and `formatIEC`

The two functions of `base/LogStream.cpp` that show a number in five or six characters. Each quotient and its
rendering by `"%.Nf"` is the exact quotient, rounded to the nearest with ties to even. The limits of
`formatSI` are integers. `formatIEC` compares doubles: the number is rounded to 53 bits, and the limits are
products of a power of two and the doubles of `9.995`, `99.95` and `1023.5`, so they are exact. Each of these
comparisons holds up to some integer (`pickDouble_eq`), and both functions are scales
(`formatSizes_shown`). -/

namespace Muduo

open Support

/-! ## `formatSI` -/

/-- The branches of `formatSI` from the second on. -/
def siRows : List (Nat × Format) :=
  [(9995, ⟨2, 10 ^ 3, [107]⟩), (99950, ⟨1, 10 ^ 3, [107]⟩), (999500, ⟨0, 10 ^ 3, [107]⟩),
    (9995000, ⟨2, 10 ^ 6, [77]⟩), (99950000, ⟨1, 10 ^ 6, [77]⟩), (999500000, ⟨0, 10 ^ 6, [77]⟩),
    (9995000000, ⟨2, 10 ^ 9, [71]⟩), (99950000000, ⟨1, 10 ^ 9, [71]⟩), (999500000000, ⟨0, 10 ^ 9, [71]⟩),
    (9995000000000, ⟨2, 10 ^ 12, [84]⟩), (99950000000000, ⟨1, 10 ^ 12, [84]⟩),
    (999500000000000, ⟨0, 10 ^ 12, [84]⟩), (9995000000000000, ⟨2, 10 ^ 15, [80]⟩),
    (99950000000000000, ⟨1, 10 ^ 15, [80]⟩), (999500000000000000, ⟨0, 10 ^ 15, [80]⟩)]

/-- The last branch. -/
def siLast : Format := ⟨2, 10 ^ 18, [69]⟩

/-- `formatSI`: at most five characters with a decimal unit. -/
def formatSI (s : Int) : List UInt8 :=
  if s < 1000 then decimalInt s else (pick siLast siRows s.toNat).text s.toNat

/-- The units of `formatSI`: none, `k`, `M`, `G`, `T`, `P` and `E`. -/
def siUnits (suffix : List UInt8) : Option Nat :=
  List.lookup suffix [([], 1), ([107], 10 ^ 3), ([77], 10 ^ 6), ([71], 10 ^ 9), ([84], 10 ^ 12),
    ([80], 10 ^ 15), ([69], 10 ^ 18)]

/-- An integer as it is. -/
def integer : Format := ⟨0, 1, []⟩

/-- A number without a unit is its decimal digits. -/
theorem integer_text (n : Nat) : integer.text n = decimal n := by
  have hround : roundDiv (n * 10 ^ 0) 1 = n := by
    rw [pow_zero]
    exact roundDiv_mul (by decide) n
  rw [Format.text, Format.quantity, integer, fixedText, if_pos rfl, hround, List.append_nil]

/-- The table of `formatSI` is a sound scale of width five. -/
def siScale : Scale siUnits 5 (2 ^ 63) where
  rows := (1000, integer) :: siRows
  last := siLast
  steps := by decide +kernel
  sound := by decide +kernel

/-- For the numbers that are not negative, `formatSI` follows the scale. -/
theorem formatSI_eq (n : Nat) : formatSI n = siScale.text n := by
  unfold formatSI
  split
  case isTrue hlt =>
    have hrow : pick siScale.last siScale.rows n = integer := if_pos (by omega)
    rw [Scale.text, hrow, integer_text]
    exact decimalInt_of_nonneg (Int.natCast_nonneg n)
  case isFalse hge =>
    have hrow : pick siScale.last siScale.rows n = pick siLast siRows n := if_neg (by omega)
    rw [Scale.text, hrow, Int.toNat_natCast]

/-! ## `formatIEC` -/

/-- A double that is not negative, as a fraction. -/
structure Double where
  num : Nat
  den : Nat
  deriving DecidableEq, Repr

namespace Double

/-- The double nearest to `9.995`. -/
def d9_995 : Double := ⟨5626684784446013, 2 ^ 49⟩

/-- The double nearest to `99.95`. -/
def d99_95 : Double := ⟨7033355980557517, 2 ^ 46⟩

/-- The limit `1023.5`. -/
def d1023_5 : Double := ⟨2047, 2⟩

/-- The product with a power of two is exact. -/
def scaled (unit : Nat) (d : Double) : Double := ⟨unit * d.num, d.den⟩

end Double

-- the doubles from `8` to `16` are `2 ^ -49` apart, those from `64` to `128` are `2 ^ -46` apart
example : 2 * (9995 * 2 ^ 49 - 5626684784446013 * 1000) < 1000 ∧ 5626684784446013 * 1000 < 9995 * 2 ^ 49 := by
  decide

example : 2 * (7033355980557517 * 100 - 9995 * 2 ^ 46) < 100 ∧ 9995 * 2 ^ 46 < 7033355980557517 * 100 := by
  decide

/-- `static_cast<double>(n) < limit`. -/
def below (limit : Double) (n : Nat) : Prop := roundBits 53 n * limit.den < limit.num

/-- A number can be compared with a limit by computation. -/
instance (limit : Double) (n : Nat) : Decidable (below limit n) := inferInstanceAs (Decidable (_ < _))

/-- The format of the first branch whose limit is above the double of `n`. -/
def pickDouble (last : Format) : List (Double × Format) → Nat → Format
  | [], _ => last
  | (limit, f) :: rows, n => if below limit n then f else pickDouble last rows n

/-- The unit `Ki` of `formatIEC`. -/
def Ki : Nat := 1024

/-- The unit `Mi`. -/
def Mi : Nat := Ki * 1024

/-- The unit `Gi`. -/
def Gi : Nat := Mi * 1024

/-- The unit `Ti`. -/
def Ti : Nat := Gi * 1024

/-- The unit `Pi`. -/
def Pi : Nat := Ti * 1024

/-- The unit `Ei`. -/
def Ei : Nat := Pi * 1024

/-- The branches of `formatIEC` from the second on. -/
def iecRows : List (Double × Format) :=
  [(.scaled Ki .d9_995, ⟨2, Ki, [75, 105]⟩), (.scaled Ki .d99_95, ⟨1, Ki, [75, 105]⟩),
    (.scaled Ki .d1023_5, ⟨0, Ki, [75, 105]⟩),
    (.scaled Mi .d9_995, ⟨2, Mi, [77, 105]⟩), (.scaled Mi .d99_95, ⟨1, Mi, [77, 105]⟩),
    (.scaled Mi .d1023_5, ⟨0, Mi, [77, 105]⟩),
    (.scaled Gi .d9_995, ⟨2, Gi, [71, 105]⟩), (.scaled Gi .d99_95, ⟨1, Gi, [71, 105]⟩),
    (.scaled Gi .d1023_5, ⟨0, Gi, [71, 105]⟩),
    (.scaled Ti .d9_995, ⟨2, Ti, [84, 105]⟩), (.scaled Ti .d99_95, ⟨1, Ti, [84, 105]⟩),
    (.scaled Ti .d1023_5, ⟨0, Ti, [84, 105]⟩),
    (.scaled Pi .d9_995, ⟨2, Pi, [80, 105]⟩), (.scaled Pi .d99_95, ⟨1, Pi, [80, 105]⟩),
    (.scaled Pi .d1023_5, ⟨0, Pi, [80, 105]⟩),
    (.scaled Ei .d9_995, ⟨2, Ei, [69, 105]⟩)]

/-- The last branch, for which no 64-bit integer is large enough. -/
def iecLast : Format := ⟨1, Ei, [69, 105]⟩

/-- A negative number is less than `Ki`, too. -/
def formatIEC (s : Int) : List UInt8 :=
  if s < 0 ∨ below ⟨Ki, 1⟩ s.toNat then decimalInt s
  else (pickDouble iecLast iecRows s.toNat).text s.toNat

/-- The units of `formatIEC`: none, `Ki`, `Mi`, `Gi`, `Ti`, `Pi` and `Ei`. -/
def iecUnits (suffix : List UInt8) : Option Nat :=
  List.lookup suffix [([], 1), ([75, 105], Ki), ([77, 105], Mi), ([71, 105], Gi), ([84, 105], Ti),
    ([80, 105], Pi), ([69, 105], Ei)]

/-- An integer limit says the same as a double. -/
def Crosses (limit : Double) (t : Nat) : Prop := below limit (t - 1) ∧ ¬ below limit t ∧ 0 < t

/-- Where a limit is crossed can be told by computation. -/
instance (limit : Double) (t : Nat) : Decidable (Crosses limit t) := inferInstanceAs (Decidable (_ ∧ _))

/-- The integer limit says the same for every number. -/
theorem Crosses.below_iff {limit : Double} {t : Nat} (h : Crosses limit t) (n : Nat) :
    below limit n ↔ n < t := by
  obtain ⟨hbelow, habove, hpos⟩ := h
  obtain ⟨t, rfl⟩ : ∃ k, t = k + 1 := ⟨t - 1, by omega⟩
  have hmono : Monotone fun n => roundBits 53 n * limit.den := fun n m hnm =>
    Nat.mul_le_mul_right _ (roundBits_mono (by decide) hnm)
  exact lt_iff_of_monotone hmono hbelow (Nat.not_lt.mp habove) n

/-- The rows with their limits as integers. -/
def withLimits (rows : List (Double × Format)) (limits : List Nat) : List (Nat × Format) :=
  rows.zipWith (fun row t => (t, row.2)) limits

/-- Comparing doubles picks the same format as comparing integers. -/
theorem pickDouble_eq (last : Format) {rows : List (Double × Format)} {limits : List Nat}
    (hlen : rows.length = limits.length) (hcross : ∀ p ∈ rows.zip limits, Crosses p.1.1 p.2) (n : Nat) :
    pickDouble last rows n = pick last (withLimits rows limits) n := by
  induction rows generalizing limits with
  | nil => rfl
  | cons row rows ih =>
      obtain ⟨limit, f⟩ := row
      cases limits with
      | nil => cases hlen
      | cons t limits =>
          rw [List.zip_cons_cons, List.forall_mem_cons] at hcross
          have htail := ih (Nat.succ.inj hlen) hcross.2
          simp only [withLimits, List.zipWith_cons_cons, pickDouble, pick, hcross.1.below_iff, htail]

/-- The first integers whose doubles are not below the limits. -/
def iecLimits : List Nat :=
  [10235, 102349, 1048064, 10480518, 104805172, 1073217536, 10732049531, 107320495309, 1098974756864,
    10989618719622, 109896187196212, 1125350151028736, 11253369568892026, 112533695688920265,
    1152358554653425600, 11523450438545433601]

/-- The table of `formatIEC` is a sound scale of width six. -/
def iecScale : Scale iecUnits 6 (2 ^ 63) where
  rows := (Ki, integer) :: withLimits iecRows iecLimits
  last := iecLast
  steps := by decide +kernel
  sound := by decide +kernel

/-- Each integer limit says the same as the double of the source. -/
theorem iecLimits_cross : ∀ p ∈ iecRows.zip iecLimits, Crosses p.1.1 p.2 := by decide +kernel

/-- For the numbers that are not negative, `formatIEC` follows the scale. -/
theorem formatIEC_eq (n : Nat) : formatIEC n = iecScale.text n := by
  have hfirst : Crosses ⟨Ki, 1⟩ Ki := by decide +kernel
  unfold formatIEC
  simp only [Int.toNat_natCast, hfirst.below_iff]
  split
  case isTrue hlt =>
    have hrow : pick iecScale.last iecScale.rows n = integer := if_pos (by omega)
    rw [Scale.text, hrow, integer_text]
    exact decimalInt_of_nonneg (Int.natCast_nonneg n)
  case isFalse hge =>
    have hrow : pick iecScale.last iecScale.rows n = pick iecLast (withLimits iecRows iecLimits) n :=
      if_neg (by omega)
    rw [Scale.text, hrow, pickDouble_eq iecLast rfl iecLimits_cross]

/-! ## What is shown -/

/-- A way to show the 64-bit integers that are not negative in a number of characters. -/
structure ShowsSizes (format : Int → List UInt8) (units : List UInt8 → Option Nat) (width : Nat) :
    Prop where
  length_le : ∀ n, 0 ≤ n → n < 2 ^ 63 → (format n).length ≤ width
  near : ∀ n, 0 ≤ n → n < 2 ^ 63 →
    ∃ q, readQuantity units (format n) = some q ∧ |q.value - n| ≤ q.lastDigit / 2
  mono : ∀ n m, 0 ≤ n → n ≤ m → m < 2 ^ 63 → ∀ q q', readQuantity units (format n) = some q →
    readQuantity units (format m) = some q' → q.value ≤ q'.value

/-- A function that follows a scale. -/
theorem showsSizes_of_scale {format : Int → List UInt8} {units : List UInt8 → Option Nat} {width : Nat}
    (s : Scale units width (2 ^ 63)) (h : ∀ n : Nat, format n = s.text n) :
    ShowsSizes format units width where
  length_le n h0 hlt := by
    obtain ⟨n, rfl⟩ := Int.eq_ofNat_of_zero_le h0
    rw [h]
    exact s.length_text_le (by omega)
  near n h0 hlt := by
    obtain ⟨n, rfl⟩ := Int.eq_ofNat_of_zero_le h0
    have hn : n < 2 ^ 63 := by omega
    refine ⟨s.quantity n, by rw [h, s.readQuantity_text hn], ?_⟩
    exact_mod_cast s.abs_value_sub_le hn
  mono n m h0 hnm hlt q q' hq hq' := by
    obtain ⟨n, rfl⟩ := Int.eq_ofNat_of_zero_le h0
    obtain ⟨m, rfl⟩ := Int.eq_ofNat_of_zero_le (h0.trans hnm)
    rw [h, s.readQuantity_text (by omega)] at hq hq'
    cases hq
    cases hq'
    exact s.value_mono (by omega)

/-- **Sizes are shown well.** `formatSI` needs at most five characters and `formatIEC` at most six, what they
show is at most half a unit of the last digit away from the number, and a larger number is never shown as
less. -/
theorem formatSizes_shown : ShowsSizes formatSI siUnits 5 ∧ ShowsSizes formatIEC iecUnits 6 :=
  ⟨showsSizes_of_scale siScale formatSI_eq, showsSizes_of_scale iecScale formatIEC_eq⟩

/-- The last number in kilobytes and the first in megabytes. -/
theorem formatSizes_shown_megabyte :
    (formatSI 999500).length ≤ 5 ∧ (formatIEC 1048064).length ≤ 6 ∧
      ∀ q q', readQuantity siUnits (formatSI 999499) = some q →
        readQuantity siUnits (formatSI 999500) = some q' → q.value ≤ q'.value :=
  ⟨formatSizes_shown.1.length_le 999500 (by decide) (by decide),
    formatSizes_shown.2.length_le 1048064 (by decide) (by decide),
    formatSizes_shown.1.mono 999499 999500 (by decide) (by decide) (by decide)⟩

end Muduo
