/-
Sequence numbers modulo a power of two, read through a window base.

The entities compare sequence numbers only after subtracting a base modulo the SN space, in 32-bit unsigned
arithmetic: `(x - base) % mod` with `mod` a divisor of 2^32. `modBase` is that expression. The lemmas translate it to
unbounded absolute indices: when `x` stands for the index `a` and the base for the index `b`, `modBase` is `a - b` for
an index at or after the base, and `a + mod - b` for one before it. Every window proof goes through these two facts.
-/
import Mathlib.Tactic

namespace OcuduRan.ModWindow

open Nat

/-- subtraction of 32-bit unsigned integers -/
def sub32 (x y : ℕ) : ℕ := (x + 2 ^ 32 - y) % 2 ^ 32

/-- `(x - base) % mod` on 32-bit unsigned integers -/
def modBase (mod base x : ℕ) : ℕ := sub32 x base % mod

variable {m x β a b : ℕ}

theorem modBase_lt (hm : 0 < m) : modBase m β x < m := mod_lt _ hm

section

variable (hm : m ∣ 2 ^ 32)
include hm

section

variable (hβ : β ≤ 2 ^ 32) (hx : x % m = a % m) (hb : β % m = b % m)
include hβ hx hb

/-- the wrapped difference is congruent to the difference of the represented indices -/
theorem modBase_add_modEq : modBase m β x + b ≡ a [MOD m] := by
  have h1 : modBase m β x ≡ x + 2 ^ 32 - β [MOD m] := by
    unfold modBase sub32 Nat.ModEq
    rw [mod_mod, mod_mod_of_dvd _ hm]
  have h2 : x + 2 ^ 32 - β + β ≡ x [MOD m] := by
    rw [Nat.sub_add_cancel (by omega)]
    simpa using (Nat.ModEq.refl x).add ((modEq_zero_iff_dvd).2 hm)
  have h3 : modBase m β x + b ≡ x + 2 ^ 32 - β + β [MOD m] := h1.add (show b ≡ β [MOD m] from hb.symm)
  exact (h3.trans h2).trans hx

/-- an index at or after the base is at distance `a - b` -/
theorem modBase_of_le (hba : b ≤ a) (hlt : a < b + m) : modBase m β x = a - b := by
  have hpos : 0 < m := by omega
  have h := modBase_add_modEq hm hβ hx hb
  rw [show a = a - b + b by omega] at h
  have h' : modBase m β x ≡ a - b [MOD m] := Nat.ModEq.add_right_cancel' b h
  exact Nat.ModEq.eq_of_lt_of_lt h' (modBase_lt hpos) (by omega)

/-- an index before the base wraps around the sequence number space -/
theorem modBase_of_lt (hab : a < b) (hle : b ≤ a + m) : modBase m β x = a + m - b := by
  have hx' : x % m = (a + m) % m := by simpa using hx
  exact modBase_of_le hm hβ hx' hb hle (by omega)

end

/-- the wrapped difference is the only number below `m` that leads from the base to `x` -/
theorem modBase_unique {k : ℕ} (hβ : β ≤ 2 ^ 32) (hk : k < m) (h : (k + β) % m = x % m) : modBase m β x = k := by
  have h1 : modBase m β x + β ≡ x [MOD m] := modBase_add_modEq hm hβ rfl rfl
  have h2 : modBase m β x ≡ k [MOD m] := Nat.ModEq.add_right_cancel' β (h1.trans h.symm)
  exact Nat.ModEq.eq_of_lt_of_lt h2 (modBase_lt (by omega)) hk

theorem modBase_add_base (hβ : β ≤ 2 ^ 32) : (modBase m β x + β) % m = x % m :=
  modBase_add_modEq hm hβ rfl rfl

theorem modBase_mod (hβ : β ≤ 2 ^ 32) (hpos : 0 < m) : modBase m β (x % m) = modBase m β x :=
  modBase_unique hm hβ (modBase_lt hpos) (by rw [modBase_add_base hm hβ, mod_mod])

/-- moving on by `i` without wrapping around the base -/
theorem modBase_add {i : ℕ} (hβ : β ≤ 2 ^ 32) (h : modBase m β x + i < m) :
    modBase m β (x + i) = modBase m β x + i := by
  refine modBase_unique hm hβ h ?_
  rw [add_right_comm, add_mod, modBase_add_base hm hβ, ← add_mod]

theorem modBase_self (hβ : β ≤ 2 ^ 32) (hpos : 0 < m) : modBase m β β = 0 :=
  modBase_unique hm hβ hpos (by simp)

/-- SNs of the space are told apart by their distance from the base -/
theorem modBase_inj {y : ℕ} (hβ : β ≤ 2 ^ 32) (hx : x < m) (hy : y < m) (h : modBase m β x = modBase m β y) :
    x = y := by
  have h1 := modBase_add_base (x := x) hm hβ
  have h2 := modBase_add_base (x := y) hm hβ
  rw [h, h2, mod_eq_of_lt hx, mod_eq_of_lt hy] at h1
  exact h1.symm

/-- distances from another base, in terms of those from `β` -/
theorem modBase_rebase {α : ℕ} (hβ : β ≤ 2 ^ 32) (hα : α ≤ 2 ^ 32) (hpos : 0 < m) :
    modBase m α x = if modBase m β α ≤ modBase m β x then modBase m β x - modBase m β α
      else modBase m β x + m - modBase m β α := by
  have hlx : modBase m β x < m := modBase_lt hpos
  have hlα : modBase m β α < m := modBase_lt hpos
  -- both x and the other base are their distance behind β
  have hx : x % m = (modBase m β x + β) % m := (modBase_add_base hm hβ).symm
  have ha : α % m = (modBase m β α + β) % m := (modBase_add_base hm hβ).symm
  split_ifs with h
  · rw [modBase_of_le hm hα hx ha (by omega) (by omega)]
    omega
  · rw [modBase_of_lt hm hα hx ha (by omega) (by omega)]
    omega

end

/-- two indices less than `m` apart with the same residue are the same index -/
theorem eq_of_mod_eq (hmod : a % m = b % m) (h1 : a < b + m) (h2 : b < a + m) : a = b := by
  rcases le_total a b with h | h
  · have hd : m ∣ b - a := (modEq_iff_dvd' h).1 hmod
    have := eq_zero_of_dvd_of_lt hd (by omega)
    omega
  · have hd : m ∣ a - b := (modEq_iff_dvd' h).1 hmod.symm
    have := eq_zero_of_dvd_of_lt hd (by omega)
    omega

end OcuduRan.ModWindow
