import Mathlib

/-!
# Bit fields

Masks, shifts and ors of natural numbers as arithmetic: a field is cut out of a word by a remainder
and put beside another by a sum.
-/

namespace CommonDrivers

open Nat

variable {a b i m n : ℕ}

/-- A mask of the `n` low bits. -/
theorem and_mask (x n : ℕ) (hm : m + 1 = 2 ^ n) : x &&& m = x % 2 ^ n := by
  rw [← and_two_pow_sub_one_eq_mod, ← hm, Nat.add_sub_cancel]

/-- A field of `n` bits is cut out and shifted down. -/
theorem and_shiftRight (x i n : ℕ) (hm : m >>> i + 1 = 2 ^ n) :
    (x &&& m) >>> i = x / 2 ^ i % 2 ^ n := by
  rw [shiftRight_and_distrib, and_mask _ n hm, shiftRight_eq_div_pow]

/-- A field above the `i` low bits, and one in them. -/
theorem shiftLeft_or (a : ℕ) (h : b < 2 ^ i) : a <<< i ||| b = a * 2 ^ i + b := by
  rw [← shiftLeft_add_eq_or_of_lt h, shiftLeft_eq]

theorem or_shiftLeft (a : ℕ) (h : b < 2 ^ i) : b ||| a <<< i = a * 2 ^ i + b := by
  rw [Nat.or_comm, shiftLeft_or a h]

end CommonDrivers
