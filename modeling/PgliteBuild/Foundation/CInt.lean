import Mathlib.Algebra.Order.Group.Unbundled.Int
import Mathlib.Tactic.Common

/-! # Conversions between 32-bit C integers

The value an `int` holds after storing `x`, and the value of an `int` converted to `size_t`, both on
a target where the two types have 32 bits. -/

namespace CInt

/-- The value of a 32-bit `int` into which `x` is stored. -/
def toInt32 (x : ℤ) : ℤ := x.bmod 4294967296

/-- The value of `x` converted to a 32-bit `size_t`. -/
def toSizeT (x : ℤ) : ℕ := (x % 4294967296).toNat

/-- A value that an `int` can hold is stored unchanged. -/
theorem toInt32_of_range {x : ℤ} (hlo : -2147483648 ≤ x) (hhi : x < 2147483648) : toInt32 x = x := by
  unfold toInt32
  rw [Int.bmod_def]
  split_ifs <;> omega

/-- A sum wraps as its first part does. -/
@[simp] theorem toInt32_toInt32_add (x y : ℤ) : toInt32 (toInt32 x + y) = toInt32 (x + y) :=
  Int.bmod_add_bmod

/-- A natural number below 2^32 is converted unchanged. -/
@[simp] theorem toSizeT_natCast {n : ℕ} (h : n < 4294967296) : toSizeT n = n := by
  unfold toSizeT
  omega

end CInt
