/-
Masks and shifts of naturals read as arithmetic. Field layouts are written with masks, shifts and bitwise or; their
round trips are linear arithmetic once a mask is a remainder, a right shift a quotient, and the bitwise or of two
disjoint fields a sum.
-/
import Mathlib.Tactic

namespace OcuduRan.Bits

theorem and_mask (x k : ℕ) : x &&& (2 ^ k - 1) = x % 2 ^ k := Nat.and_two_pow_sub_one_eq_mod x k

@[simp] theorem and_0x03 (x : ℕ) : x &&& 0x03 = x % 4 := and_mask x 2

@[simp] theorem and_0x07 (x : ℕ) : x &&& 0x07 = x % 8 := and_mask x 3

@[simp] theorem and_0x0f (x : ℕ) : x &&& 0x0f = x % 16 := and_mask x 4

@[simp] theorem and_0xff (x : ℕ) : x &&& 0xff = x % 256 := and_mask x 8

/-- a field above a shorter one: or is a sum -/
theorem shl_or {y k : ℕ} (x : ℕ) (h : y < 2 ^ k) : x <<< k ||| y = x * 2 ^ k + y := by
  rw [← Nat.shiftLeft_add_eq_or_of_lt h, Nat.shiftLeft_eq]

/-- a mask of `k` ones at bit `j` selects the bits from `j` on -/
theorem and_shr (x j k : ℕ) : (x &&& ((2 ^ k - 1) <<< j)) >>> j = x / 2 ^ j % 2 ^ k := by
  rw [Nat.shiftRight_and_distrib, Nat.shiftLeft_shiftRight, and_mask, Nat.shiftRight_eq_div_pow]

/-- shifting into a masked field keeps the low bits -/
theorem shl_and (x j k : ℕ) : (x <<< j) &&& ((2 ^ k - 1) <<< j) = (x % 2 ^ k) <<< j := by
  rw [← Nat.shiftLeft_and_distrib, and_mask]

/-- a 16-bit value from its two bytes -/
theorem two_bytes {x : ℕ} (h : x < 2 ^ 16) : (x >>> 8 % 256) <<< 8 ||| x % 256 = x := by
  rw [shl_or _ (by omega), Nat.shiftRight_eq_div_pow]
  omega

end OcuduRan.Bits
