import Mathlib

/-!
# Machine words

The values of the C types `unsigned int` and `int`, as numbers.
-/

namespace CommonDrivers

variable {n : ℕ}

/-- A value of type `unsigned int`. -/
def u32 (x : ℤ) : ℕ := (x % 2 ^ 32).toNat

/-- The value of an `unsigned int` as an `int`. -/
def i32 (x : ℕ) : ℤ := if x < 2 ^ 31 then x else x - 2 ^ 32

theorem u32_natCast (h : n < 2 ^ 32) : u32 n = n := by
  rw [u32]
  omega

theorem u32_le_toNat {x : ℤ} (h : 0 ≤ x) : u32 x ≤ x.toNat := by
  rw [u32]
  omega

theorem i32_of_lt (h : n < 2 ^ 31) : i32 n = n := if_pos h

theorem i32_toNat_le (n : ℕ) : (i32 n).toNat ≤ n := by
  rw [i32]
  split <;> omega

end CommonDrivers
