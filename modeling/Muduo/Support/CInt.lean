import Muduo.Support.Checked

/-! # Arithmetic on `int`

The operations of C++ on 32-bit signed integers. An operation whose exact result is no `int` has no
defined result, so it is a fault here, as is a division by zero; division truncates towards zero. Where the
results stay in range the operations are those of `ℤ` (`add_eq` to `mod_eq`, and `add_bind` to `div_bind`
inside of a computation), and a result that is there was in range (`result_eq_ok`). -/

namespace Support

namespace CInt

/-- The values of an `int`. -/
def InRange (x : Int) : Prop := -2147483648 ≤ x ∧ x ≤ 2147483647

/-- Membership in the range of `int` can be told by computation. -/
instance (x : Int) : Decidable (InRange x) := inferInstanceAs (Decidable (_ ∧ _))

/-- The result of an operation, given the exact one. -/
def result (x : Int) : Checked Int := do
  assert (InRange x) "signed integer overflow"
  return x

/-- The conversion of a wider integer, which keeps its lowest 32 bits. -/
def cast (x : Int) : Int := x.bmod 4294967296

/-- Addition of `int`s; overflow is undefined. -/
def add (x y : Int) : Checked Int := result (x + y)

/-- Subtraction of `int`s. -/
def sub (x y : Int) : Checked Int := result (x - y)

/-- Multiplication of `int`s. -/
def mul (x y : Int) : Checked Int := result (x * y)

/-- Division of `int`s, towards zero. -/
def div (x y : Int) : Checked Int := do
  assert (y ≠ 0) "division by zero"
  result (x.tdiv y)

/-- Remainder of `int`s, with the sign of the dividend. -/
def mod (x y : Int) : Checked Int := do
  assert (y ≠ 0) "division by zero"
  result (x.tmod y)

/-- When a result is defined. -/
theorem result_eq_ok {x z : Int} : result x = .ok z ↔ z = x ∧ InRange x := by
  rw [result, Checked.assert_bind_eq_ok, Checked.pure_eq_ok, Except.ok.injEq, and_comm, eq_comm]

/-- A result within range is defined. -/
theorem result_eq {x : Int} (hlo : -2147483648 ≤ x) (hhi : x ≤ 2147483647) : result x = .ok x :=
  result_eq_ok.mpr ⟨rfl, hlo, hhi⟩

variable {x y z : Int}

/-- A number within range is its own cast. -/
theorem cast_eq (hlo : -2147483648 ≤ x) (hhi : x ≤ 2147483647) : cast x = x :=
  Int.bmod_eq_of_le (by omega) (by omega)

/-- Addition within range. -/
theorem add_eq (hlo : -2147483648 ≤ x + y) (hhi : x + y ≤ 2147483647) : add x y = .ok (x + y) :=
  result_eq hlo hhi

/-- Subtraction within range. -/
theorem sub_eq (hlo : -2147483648 ≤ x - y) (hhi : x - y ≤ 2147483647) : sub x y = .ok (x - y) :=
  result_eq hlo hhi

/-- Multiplication within range. -/
theorem mul_eq (hlo : -2147483648 ≤ x * y) (hhi : x * y ≤ 2147483647) : mul x y = .ok (x * y) :=
  result_eq hlo hhi

/-- Nothing is lost by the division of a number that is not negative, and it rounds down. -/
theorem div_eq (hx : 0 ≤ x) (hhi : x ≤ 2147483647) (hy : 0 < y) : div x y = .ok (x / y) := by
  have hle : x / y ≤ x := Int.ediv_le_self y hx
  have hnonneg : 0 ≤ x / y := Int.ediv_nonneg hx (Int.le_of_lt hy)
  rw [div, assert_pos (Int.ne_of_gt hy), Checked.ok_bind, Int.tdiv_eq_ediv_of_nonneg hx]
  exact result_eq (by omega) (by omega)

/-- The remainder of numbers that are not negative. -/
theorem mod_eq (hx : 0 ≤ x) (hy : 0 < y) (hhi : y ≤ 2147483647) : mod x y = .ok (x % y) := by
  have hlt : x % y < y := Int.emod_lt_of_pos x hy
  have hnonneg : 0 ≤ x % y := Int.emod_nonneg x (Int.ne_of_gt hy)
  rw [mod, assert_pos (Int.ne_of_gt hy), Checked.ok_bind, Int.tmod_eq_emod_of_nonneg hx]
  exact result_eq (by omega) (by omega)

/-- When an addition is defined. -/
theorem add_eq_ok : add x y = .ok z ↔ z = x + y ∧ InRange (x + y) := result_eq_ok

/-- When a subtraction is defined. -/
theorem sub_eq_ok : sub x y = .ok z ↔ z = x - y ∧ InRange (x - y) := result_eq_ok

/-- When a multiplication is defined. -/
theorem mul_eq_ok : mul x y = .ok z ↔ z = x * y ∧ InRange (x * y) := result_eq_ok

/-- When a division is defined. -/
theorem div_eq_ok : div x y = .ok z ↔ y ≠ 0 ∧ z = x.tdiv y ∧ InRange (x.tdiv y) := by
  rw [div, Checked.assert_bind_eq_ok, result_eq_ok]

/-! ## One step of a computation -/

variable {β : Type} {f : Int → Checked β}

/-- Addition within range, before what follows. -/
theorem add_bind (hlo : -2147483648 ≤ x + y) (hhi : x + y ≤ 2147483647) :
    (add x y >>= f) = f (x + y) := by
  rw [add_eq hlo hhi, Checked.ok_bind]

/-- Subtraction within range, before what follows. -/
theorem sub_bind (hlo : -2147483648 ≤ x - y) (hhi : x - y ≤ 2147483647) :
    (sub x y >>= f) = f (x - y) := by
  rw [sub_eq hlo hhi, Checked.ok_bind]

/-- Multiplication within range, before what follows. -/
theorem mul_bind (hlo : -2147483648 ≤ x * y) (hhi : x * y ≤ 2147483647) :
    (mul x y >>= f) = f (x * y) := by
  rw [mul_eq hlo hhi, Checked.ok_bind]

/-- Division of numbers that are not negative, before what follows. -/
theorem div_bind (hx : 0 ≤ x) (hhi : x ≤ 2147483647) (hy : 0 < y) : (div x y >>= f) = f (x / y) := by
  rw [div_eq hx hhi hy, Checked.ok_bind]

end CInt

end Support
