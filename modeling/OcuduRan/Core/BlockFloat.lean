/-
Two's complement codes and blocks of integers that share an exponent.

A number fits in `w` bits exactly if its magnitude (`-x - 1` for a negative one) is below 2^(w-1), and a right shift of
the number is a right shift of its magnitude. So the smallest exponent at which every number of a block fits depends
only on the size in bits of the greatest magnitude: `isLeast_exponent`. The code of a number in `w` bits is its residue;
`signed_code` reads it back.
-/
import Mathlib.Data.Nat.Size
import Mathlib.Tactic.Positivity
import Mathlib.Tactic.Ring

namespace OcuduRan.BlockFloat

open Nat

variable {w e k m : ℕ} {x : ℤ}

/-! ## Magnitudes -/

/-- `x` is in the range of `w` bits with sign -/
def Fits (w : ℕ) (x : ℤ) : Prop := -2 ^ (w - 1) ≤ x ∧ x < 2 ^ (w - 1)

instance (w : ℕ) (x : ℤ) : Decidable (Fits w x) := inferInstanceAs (Decidable (_ ∧ _))

/-- the bits of a number without its sign -/
def magnitude : ℤ → ℕ
  | .ofNat n => n
  | .negSucc n => n

theorem magnitude_of_nonneg (h : 0 ≤ x) : (magnitude x : ℤ) = x := by
  obtain ⟨n, rfl⟩ := Int.eq_ofNat_of_zero_le h
  rfl

theorem magnitude_of_neg (h : x < 0) : (magnitude x : ℤ) = -x - 1 := by
  obtain ⟨n, rfl⟩ := Int.eq_negSucc_of_lt_zero h
  simp only [magnitude, Int.negSucc_eq]
  omega

theorem fits_iff : Fits w x ↔ magnitude x < 2 ^ (w - 1) := by
  have hcast : ((2 ^ (w - 1) : ℕ) : ℤ) = 2 ^ (w - 1) := by push_cast; rfl
  unfold Fits
  rw [← hcast]
  rcases lt_or_ge x 0 with h | h
  · have := magnitude_of_neg h
    omega
  · have := magnitude_of_nonneg h
    omega

theorem magnitude_shiftRight (x : ℤ) (e : ℕ) : magnitude (x >>> e) = magnitude x / 2 ^ e := by
  cases x with
  | ofNat n => exact shiftRight_eq_div_pow n e
  | negSucc n => exact Nat.shiftRight_eq_div_pow n e

theorem fits_shiftRight_iff : Fits w (x >>> e) ↔ magnitude x < 2 ^ (w - 1 + e) := by
  rw [fits_iff, magnitude_shiftRight, Nat.div_lt_iff_lt_mul (Nat.two_pow_pos e), Nat.pow_add]

/-- the smallest common exponent of a block -/
theorem isLeast_exponent {xs : List ℤ} {M : ℕ} (hle : ∀ x ∈ xs, magnitude x ≤ M) (hmem : ∃ x ∈ xs, magnitude x = M) :
    IsLeast {e : ℕ | ∀ x ∈ xs, Fits w (x >>> e)} (size M - (w - 1)) := by
  constructor
  · intro x hx
    rw [fits_shiftRight_iff]
    exact lt_of_le_of_lt (hle x hx) (size_le.1 (by omega))
  · intro e he
    obtain ⟨x, hx, rfl⟩ := hmem
    have := size_le.2 (fits_shiftRight_iff.1 (he x hx))
    omega

/-! ## Codes -/

/-- the bit pattern of `x` in `w` bits -/
def code (w : ℕ) (x : ℤ) : ℕ := (x % 2 ^ w).toNat

theorem code_cast (w : ℕ) (x : ℤ) : (code w x : ℤ) = x % 2 ^ w :=
  Int.toNat_of_nonneg (Int.emod_nonneg x (by positivity))

theorem code_lt (w : ℕ) (x : ℤ) : code w x < 2 ^ w := by
  have h : (code w x : ℤ) < 2 ^ w := by
    rw [code_cast]
    exact Int.emod_lt_of_pos x (by positivity)
  exact_mod_cast h

/-- the low bits of a code -/
theorem code_mod (h : k ≤ w) (x : ℤ) : code w x % 2 ^ k = code k x := by
  have hcast : ((code w x % 2 ^ k : ℕ) : ℤ) = (code k x : ℤ) := by
    push_cast
    rw [code_cast, code_cast, Int.emod_emod_of_dvd x (pow_dvd_pow 2 h)]
  exact_mod_cast hcast

/-- the high bits of a code -/
theorem code_shiftRight (x : ℤ) (m k : ℕ) : code (m + k) x >>> k = code m (x >>> k) := by
  have hq : x = code (m + k) x + 2 ^ k * (2 ^ m * (x / 2 ^ (m + k))) := by
    rw [code_cast]
    conv_lhs => rw [← Int.emod_add_mul_ediv x (2 ^ (m + k))]
    ring
  have hcast : ((code (m + k) x >>> k : ℕ) : ℤ) = (code m (x >>> k) : ℤ) := by
    rw [code_cast, Int.shiftRight_eq_div_pow, shiftRight_eq_div_pow]
    conv_rhs => rw [hq]
    push_cast
    rw [Int.add_mul_ediv_left _ _ (by positivity), Int.add_mul_emod_self_left, Int.emod_eq_of_lt]
    · positivity
    · have : code (m + k) x / 2 ^ k < 2 ^ m := by
        apply Nat.div_lt_of_lt_mul
        rw [← Nat.pow_add, Nat.add_comm k m]
        exact code_lt _ _
      exact_mod_cast this
  exact_mod_cast hcast

theorem code_code (h : k ≤ w) (x : ℤ) : code w (code k x) = code k x := by
  have hlt : code k x < 2 ^ w := lt_of_lt_of_le (code_lt k x) (Nat.pow_le_pow_right (by norm_num) h)
  have hcast : (code w (code k x) : ℤ) = (code k x : ℤ) := by
    rw [code_cast]
    exact Int.emod_eq_of_lt (by positivity) (by exact_mod_cast hlt)
  exact_mod_cast hcast

/-- the number with a code -/
def signed (w : ℕ) (v : ℕ) : ℤ := Int.bmod v (2 ^ w)

theorem signed_code_eq_bmod (w : ℕ) (x : ℤ) : signed w (code w x) = Int.bmod x (2 ^ w) := by
  unfold signed
  rw [code_cast]
  exact Int.emod_bmod x (2 ^ w)

theorem signed_code (hw : 0 < w) (h : Fits w x) : signed w (code w x) = x := by
  obtain ⟨k, rfl⟩ := Nat.exists_eq_add_of_lt hw
  obtain ⟨hlo, hhi⟩ := h
  simp only [Nat.zero_add, Nat.add_sub_cancel] at hlo hhi ⊢
  rw [signed_code_eq_bmod]
  have hpow : ((2 ^ (k + 1) : ℕ) : ℤ) = 2 * 2 ^ k := by push_cast; ring
  apply Int.bmod_eq_of_le <;> omega

/-- flipping the sign bit and subtracting it -/
theorem xor_sub_sign {a : ℕ} (h : a < 2 ^ (k + 1)) : ((a ^^^ 2 ^ k : ℕ) : ℤ) - 2 ^ k = signed (k + 1) a := by
  have hpos : 0 < 2 ^ k := Nat.two_pow_pos k
  have hcast : ((2 ^ k : ℕ) : ℤ) = 2 ^ k := by push_cast; rfl
  have hdiv : (a ^^^ 2 ^ k) / 2 ^ k = a / 2 ^ k ^^^ 1 := by
    rw [Nat.xor_div_two_pow, Nat.div_self hpos]
  have hmod : (a ^^^ 2 ^ k) % 2 ^ k = a % 2 ^ k := by
    rw [xor_mod_two_pow, mod_self, xor_zero]
  have hsplit := div_add_mod (a ^^^ 2 ^ k) (2 ^ k)
  rw [hdiv, hmod] at hsplit
  unfold signed
  rcases lt_or_ge a (2 ^ k) with hlt | hge
  · rw [div_eq_of_lt hlt, mod_eq_of_lt hlt] at hsplit
    rw [Int.bmod_eq_of_le (by omega) (by omega), ← hsplit]
    push_cast
    simp
  · have hone : a / 2 ^ k = 1 := by
      apply Nat.div_eq_of_lt_le <;> omega
    have hlow : a % 2 ^ k = a - 2 ^ k := by
      rw [mod_eq_sub_mod hge, mod_eq_of_lt (by omega)]
    rw [hone, hlow] at hsplit
    have hb := Int.bmod_eq_of_le (n := (a : ℤ) - (2 ^ (k + 1) : ℕ)) (m := 2 ^ (k + 1)) (by omega) (by omega)
    rw [Int.sub_bmod_right] at hb
    rw [hb, ← hsplit]
    simp only [Nat.xor_self, Nat.mul_zero, Nat.zero_add]
    omega

end OcuduRan.BlockFloat
