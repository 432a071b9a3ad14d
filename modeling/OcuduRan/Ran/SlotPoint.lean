/-
Slot points (include/ocudu/ran/slot_point.h): slots counted modulo a hyper system frame of 1024 frames.

`SlotPoint.at` is the slot point of a slot counted without end. Sums of slot points are sums of slots (`at_add`), and
the comparison agrees with the order of two slots less than half a hyper system frame apart (`at_lt`), the ambiguity
range that the source documents.
-/
import Mathlib.Tactic

namespace OcuduRan.Ran

/-- index of a subcarrier spacing, NOF_NUMEROLOGIES of them -/
abbrev Numerology := Fin 5

def nofSlotsPerSubframe (μ : Numerology) : ℕ := 2 ^ μ.val

/-- NOF_SUBFRAMES_PER_FRAME subframes a frame, NOF_SFNS frames -/
def nofSlotsPerHyperSystemFrame (μ : Numerology) : ℕ := nofSlotsPerSubframe μ * 10 * 1024

/-- valid slot point of one numerology; the invalid slot point is the `none` of an `Option` -/
structure SlotPoint (μ : Numerology) where
  count : ℕ
  inRange : count < nofSlotsPerHyperSystemFrame μ
deriving DecidableEq

theorem frame_pos (μ : Numerology) : 0 < nofSlotsPerHyperSystemFrame μ := by
  simp [nofSlotsPerHyperSystemFrame, nofSlotsPerSubframe]

theorem slotsPerSubframe_le (μ : Numerology) : nofSlotsPerSubframe μ ≤ 16 := by
  fin_cases μ <;> decide

theorem frame_eq (μ : Numerology) : nofSlotsPerHyperSystemFrame μ = 10240 * nofSlotsPerSubframe μ := by
  rw [nofSlotsPerHyperSystemFrame]
  ring

namespace SlotPoint

variable {μ : Numerology}

/-- operator< -/
def lt (a b : SlotPoint μ) : Bool :=
  let v : ℤ := b.count - a.count
  if v > 0 then v < (nofSlotsPerHyperSystemFrame μ / 2 : ℕ) else v < -((nofSlotsPerHyperSystemFrame μ / 2 : ℕ) : ℤ)

/-- operator+= with an unsigned jump -/
def add (a : SlotPoint μ) (jump : ℕ) : SlotPoint μ :=
  ⟨(a.count + jump) % 2 ^ 32 % nofSlotsPerHyperSystemFrame μ, Nat.mod_lt _ (frame_pos μ)⟩

/-- slot point of a slot -/
def «at» (μ : Numerology) (t : ℤ) : SlotPoint μ where
  count := (t % nofSlotsPerHyperSystemFrame μ).toNat
  inRange := by
    have := frame_pos μ
    have := Int.emod_lt_of_pos t (show (0 : ℤ) < nofSlotsPerHyperSystemFrame μ by exact_mod_cast frame_pos μ)
    omega

theorem at_count (t : ℤ) : ((SlotPoint.at μ t).count : ℤ) = t % nofSlotsPerHyperSystemFrame μ := by
  refine Int.toNat_of_nonneg (Int.emod_nonneg _ ?_)
  exact_mod_cast (frame_pos μ).ne'

@[ext] theorem ext {a b : SlotPoint μ} (h : (a.count : ℤ) = b.count) : a = b := by
  obtain ⟨x, hx⟩ := a
  obtain ⟨y, hy⟩ := b
  obtain rfl : x = y := by exact_mod_cast h
  rfl

theorem at_add (t : ℤ) {jump : ℕ} (h : jump < 2 ^ 31) : (SlotPoint.at μ t).add jump = SlotPoint.at μ (t + jump) := by
  have hlt := (SlotPoint.at μ t).inRange
  have hle := slotsPerSubframe_le μ
  have hsum : ((SlotPoint.at μ t).count + jump) % 2 ^ 32 = (SlotPoint.at μ t).count + jump := by
    rw [frame_eq] at hlt
    omega
  ext
  simp only [add, hsum]
  push_cast
  rw [at_count, at_count, Int.emod_add_emod]

/-- slots less than half a hyper system frame apart are compared as they are -/
theorem at_lt {t u : ℤ} (h : |t - u| < (nofSlotsPerHyperSystemFrame μ / 2 : ℕ)) :
    (SlotPoint.at μ t).lt (SlotPoint.at μ u) = true ↔ t < u := by
  have hpos := frame_pos μ
  have heven : nofSlotsPerHyperSystemFrame μ % 2 = 0 := by rw [frame_eq]; omega
  obtain ⟨H, hH⟩ : ∃ H, H = nofSlotsPerHyperSystemFrame μ := ⟨_, rfl⟩
  have ht := Int.emod_add_mul_ediv t H
  have hu := Int.emod_add_mul_ediv u H
  have ht0 := Int.emod_nonneg t (b := H) (by omega)
  have ht1 := Int.emod_lt_of_pos t (b := H) (by omega)
  have hu0 := Int.emod_nonneg u (b := H) (by omega)
  have hu1 := Int.emod_lt_of_pos u (b := H) (by omega)
  rw [← hH] at h hpos heven
  rw [abs_lt] at h
  -- the quotients differ by at most one
  obtain ⟨k, hk⟩ : ∃ k, u / H = t / H + k := ⟨u / H - t / H, by ring⟩
  rw [hk, mul_add] at hu
  have hk1 : k < 2 := lt_of_mul_lt_mul_left (show (H : ℤ) * k < H * 2 by omega) (by omega)
  have hk2 : -2 < k := lt_of_mul_lt_mul_left (show (H : ℤ) * -2 < H * k by omega) (by omega)
  simp only [lt, at_count, ← hH]
  obtain rfl | rfl | rfl : k = -1 ∨ k = 0 ∨ k = 1 := by omega
  all_goals split_ifs <;> simp only [decide_eq_true_eq] <;> omega

/-- slots less than a hyper system frame apart have different slot points -/
theorem at_inj {t u : ℤ} (h : |t - u| < nofSlotsPerHyperSystemFrame μ) (heq : SlotPoint.at μ t = SlotPoint.at μ u) :
    t = u := by
  have hmod : t % nofSlotsPerHyperSystemFrame μ = u % nofSlotsPerHyperSystemFrame μ := by
    rw [← at_count, ← at_count, heq]
  have hzero := Int.eq_zero_of_abs_lt_dvd (Int.ModEq.dvd (show u ≡ t [ZMOD _] from hmod.symm)) h
  omega

end SlotPoint

end OcuduRan.Ran
