import Mathlib.Algebra.Order.Ring.Nat

/-! # Integer types

A signed or unsigned integer type of up to 64 bits, with the integers that are its values. Division that
rounds towards zero never leaves the type (`Has.tdiv`, `Has.tmod`), unlike the negation of a value. The
types of C are those of a machine on which a `long` has 64 bits. -/

namespace Support

/-- A signed or unsigned integer type of up to 64 bits. -/
structure IntegerType where
  signed : Bool
  bits : Nat
  bits_pos : 0 < bits
  bits_le : bits ≤ 64

namespace IntegerType

/-- `int`. -/
def int : IntegerType := ⟨true, 32, by decide, by decide⟩

/-- `unsigned int`. -/
def unsignedInt : IntegerType := ⟨false, 32, by decide, by decide⟩

/-- `long`. -/
def long : IntegerType := ⟨true, 64, by decide, by decide⟩

/-- `unsigned long`. -/
def unsignedLong : IntegerType := ⟨false, 64, by decide, by decide⟩

/-- `long long`. -/
def longLong : IntegerType := ⟨true, 64, by decide, by decide⟩

/-- `unsigned long long`. -/
def unsignedLongLong : IntegerType := ⟨false, 64, by decide, by decide⟩

variable (T : IntegerType)

/-- The smallest value. -/
def min : Int := if T.signed then -(2 ^ (T.bits - 1) : Nat) else 0

/-- The largest value. -/
def max : Int := if T.signed then (2 ^ (T.bits - 1) : Nat) - 1 else (2 ^ T.bits : Nat) - 1

/-- The values of the type. -/
def Has (value : Int) : Prop := T.min ≤ value ∧ value ≤ T.max

/-- Whether an integer is a value of the type is decided by the bounds. -/
instance (value : Int) : Decidable (T.Has value) := inferInstanceAs (Decidable (_ ∧ _))

/-- The smallest value is at most zero and has at most 64 bits. -/
theorem min_bounds : -2 ^ 63 ≤ T.min ∧ T.min ≤ 0 := by
  have hbits := T.bits_le
  have hpos : 0 < 2 ^ (T.bits - 1) := Nat.two_pow_pos _
  have hpow : 2 ^ (T.bits - 1) ≤ 2 ^ 63 := Nat.pow_le_pow_right (by decide) (by omega)
  unfold min
  split <;> omega

/-- The largest value is not negative and has at most 64 bits. -/
theorem max_bounds : 0 ≤ T.max ∧ T.max < 2 ^ 64 := by
  have hpos : 0 < 2 ^ (T.bits - 1) := Nat.two_pow_pos _
  have hpos' : 0 < 2 ^ T.bits := Nat.two_pow_pos _
  have hpow : 2 ^ T.bits ≤ 2 ^ 64 := Nat.pow_le_pow_right (by decide) T.bits_le
  have hpow' : 2 ^ (T.bits - 1) ≤ 2 ^ T.bits := Nat.pow_le_pow_right (by decide) (Nat.sub_le _ _)
  unfold max
  split <;> omega

variable {T} {value : Int}

/-- A value between another and zero is in the type. -/
theorem Has.of_between {x : Int} (h : T.Has value) (hpos : 0 ≤ value → 0 ≤ x ∧ x ≤ value)
    (hneg : value ≤ 0 → value ≤ x ∧ x ≤ 0) : T.Has x := by
  obtain ⟨hlo, hhi⟩ := h
  obtain ⟨-, hmin⟩ := T.min_bounds
  obtain ⟨hmax, -⟩ := T.max_bounds
  rcases Int.le_total 0 value with hv | hv
  · have := hpos hv
    exact ⟨by omega, by omega⟩
  · have := hneg hv
    exact ⟨by omega, by omega⟩

/-- A quotient is between the dividend and zero. -/
theorem Has.tdiv (h : T.Has value) (d : Nat) : T.Has (value.tdiv d) := by
  refine h.of_between (fun hpos => ?_) fun hneg => ?_
  · exact ⟨Int.tdiv_nonneg hpos (Int.natCast_nonneg d), Int.tdiv_le_self _ hpos⟩
  · have hopp : value.tdiv d = -((-value).tdiv d) := by rw [Int.neg_tdiv, Int.neg_neg]
    have hnonneg := Int.tdiv_nonneg (Int.neg_nonneg.mpr hneg) (Int.natCast_nonneg d)
    have hle := Int.tdiv_le_self (d : Int) (Int.neg_nonneg.mpr hneg)
    omega

/-- So is a remainder. -/
theorem Has.tmod (h : T.Has value) (d : Nat) : T.Has (value.tmod d) := by
  have hle : (value.tmod d).natAbs ≤ value.natAbs := by
    rw [Int.natAbs_tmod]
    exact Nat.mod_le _ _
  refine h.of_between (fun hpos => ?_) fun hneg => ?_
  · have hnonneg := Int.tmod_nonneg (d : Int) hpos
    omega
  · have hopp : value.tmod d = -((-value).tmod d) := by rw [Int.neg_tmod, Int.neg_neg]
    have hnonneg := Int.tmod_nonneg (d : Int) (Int.neg_nonneg.mpr hneg)
    omega

/-- The values of `int`. -/
theorem has_int (v : Int32) : int.Has v.toInt := by
  have hlow := v.le_toInt
  have hhigh := v.toInt_lt
  change -(2 ^ 31 : Nat) ≤ v.toInt ∧ v.toInt ≤ (2 ^ 31 : Nat) - 1
  omega

/-- The values of `unsigned int`. -/
theorem has_unsignedInt (v : UInt32) : unsignedInt.Has v.toNat := by
  have hhigh := v.toNat_lt
  change (0 : Int) ≤ v.toNat ∧ (v.toNat : Int) ≤ (2 ^ 32 : Nat) - 1
  omega

/-- The values of `long`, which are those of `long long`. -/
theorem has_long (v : Int64) : long.Has v.toInt := by
  have hlow := v.le_toInt
  have hhigh := v.toInt_lt
  change -(2 ^ 63 : Nat) ≤ v.toInt ∧ v.toInt ≤ (2 ^ 63 : Nat) - 1
  omega

/-- The values of `unsigned long`, which are those of `unsigned long long`. -/
theorem has_unsignedLong (v : UInt64) : unsignedLong.Has v.toNat := by
  have hhigh := v.toNat_lt
  change (0 : Int) ≤ v.toNat ∧ (v.toNat : Int) ≤ (2 ^ 64 : Nat) - 1
  omega

end IntegerType

end Support
