/-
A two-row block interleaver over bundles of positions.

`size` positions are cut into `count` bundles: the first and the last bundle may be shorter, every other bundle has
`other` positions. The bundles are written row by row into two rows and read column by column: bundle j goes to bundle
`interleave count j`, except that the first and the last bundle stay where they are, so that every bundle meets one of
its own width. `spread` carries a map of bundles to a map of positions.

Results: `backward_forward` and `forward_backward` (the two maps of positions are inverse to each other on
[0, size)) and `backward_lt_backward` (the way back is increasing on the positions of either row, so that the image of
an interval is made of two order-convex pieces).
-/
import Mathlib.Tactic

namespace OcuduRan.Core

open Nat

/-- how `size` positions are cut into bundles -/
structure Bundles where
  count : ℕ
  first : ℕ
  other : ℕ
  last : ℕ
  two_le : 2 ≤ count
  first_pos : 0 < first
  first_le : first ≤ other
  last_pos : 0 < last
  last_le : last ≤ other

namespace Bundles

variable (B : Bundles)

def size : ℕ := B.first + (B.count - 2) * B.other + B.last

/-- the first position of bundle j -/
def start (j : ℕ) : ℕ := if j = 0 then 0 else B.first + (j - 1) * B.other

def width (j : ℕ) : ℕ := if j = 0 then B.first else if j + 1 = B.count then B.last else B.other

/-- the bundle a position is in -/
def bundleOf (i : ℕ) : ℕ := if i < B.first then 0 else (i - B.first) / B.other + 1

/-- every position moves with its bundle -/
def spread (π : ℕ → ℕ) (i : ℕ) : ℕ := B.start (π (B.bundleOf i)) + (i - B.start (B.bundleOf i))

variable {B : Bundles} {i j k o p q : ℕ}

@[simp] theorem start_zero : B.start 0 = 0 := rfl

@[simp] theorem start_succ : B.start (j + 1) = B.first + j * B.other := by simp [start]

@[simp] theorem width_zero : B.width 0 = B.first := rfl

theorem other_pos : 0 < B.other := lt_of_lt_of_le B.first_pos B.first_le

theorem width_le_other (j : ℕ) : B.width j ≤ B.other := by
  unfold width
  split_ifs
  · exact B.first_le
  · exact B.last_le
  · exact le_rfl

theorem start_last : B.start (B.count - 1) = B.first + (B.count - 2) * B.other := by
  have h2 := B.two_le
  have hcount : B.count - 1 = (B.count - 2) + 1 := by omega
  rw [hcount, start_succ]

theorem width_last : B.width (B.count - 1) = B.last := by
  have h2 := B.two_le
  rw [width, if_neg (by omega), if_pos (by omega)]

theorem start_last_add_last : B.start (B.count - 1) + B.last = B.size := by rw [start_last, size]

theorem count_le_size : B.count ≤ B.size := by
  have hmul : B.count - 2 ≤ (B.count - 2) * B.other := Nat.le_mul_of_pos_right _ other_pos
  have hfirst := B.first_pos
  have hlast := B.last_pos
  unfold size
  omega

theorem start_mono (h : j ≤ k) : B.start j ≤ B.start k := by
  rcases j with - | j
  · exact zero_le _
  · rcases k with - | k
    · omega
    · simpa using mul_le_mul_right B.other (le_of_succ_le_succ h)

/-- a bundle ends before the next one starts -/
theorem start_add_width_le (j : ℕ) : B.start j + B.width j ≤ B.start (j + 1) := by
  rcases j with - | j
  · simp
  · have hw := B.width_le_other (j + 1)
    simp only [start_succ, add_mul, one_mul]
    omega

theorem start_add_lt_start (ho : o < B.width j) (h : j < k) : B.start j + o < B.start k := by
  have hnext := B.start_add_width_le j
  have hmono : B.start (j + 1) ≤ B.start k := start_mono h
  omega

theorem start_add_lt_size (hj : j < B.count) (ho : o < B.width j) : B.start j + o < B.size := by
  rw [← start_last_add_last]
  rcases lt_or_ge j (B.count - 1) with h | h
  · have := B.start_add_lt_start ho h
    omega
  · obtain rfl : j = B.count - 1 := by omega
    rw [width_last] at ho
    omega

theorem start_add_width_le_size (hj : j < B.count) : B.start j + B.width j ≤ B.size := by
  have hpos : 0 < B.width j := by
    unfold width
    split_ifs
    · exact B.first_pos
    · exact B.last_pos
    · exact other_pos
  have := start_add_lt_size hj (sub_lt hpos one_pos)
  omega

theorem bundleOf_start_add (ho : o < B.width j) : B.bundleOf (B.start j + o) = j := by
  rcases j with - | j
  · rw [width_zero] at ho
    simp [bundleOf, ho]
  · have hlt : o < B.other := lt_of_lt_of_le ho (B.width_le_other _)
    have hsub : B.start (j + 1) + o - B.first = o + B.other * j := by
      rw [start_succ, mul_comm]
      omega
    rw [bundleOf, if_neg (by rw [start_succ]; omega), hsub, add_mul_div_left _ _ other_pos,
      div_eq_of_lt hlt, zero_add]

/-- every position is at some offset in some bundle -/
theorem exists_offset (h : i < B.size) : ∃ j < B.count, ∃ o < B.width j, i = B.start j + o := by
  have h2 := B.two_le
  rcases lt_or_ge i B.first with hi | hi
  · exact ⟨0, by omega, i, hi, by simp⟩
  rcases lt_or_ge i (B.start (B.count - 1)) with hlast | hlast
  · -- a bundle in the middle: divide what follows the first bundle by the width
    set j := (i - B.first) / B.other with hj
    have hdiv : B.other * j + (i - B.first) % B.other = i - B.first := div_add_mod _ _
    have hmod : (i - B.first) % B.other < B.other := mod_lt _ other_pos
    have hjlt : j < B.count - 2 := by
      rw [start_last] at hlast
      have hlt : i - B.first < B.other * (B.count - 2) := by
        rw [mul_comm]
        omega
      exact Nat.div_lt_of_lt_mul hlt
    refine ⟨j + 1, by omega, (i - B.first) % B.other, ?_, ?_⟩
    · have hne : j + 1 + 1 ≠ B.count := by omega
      rwa [width, if_neg (succ_ne_zero j), if_neg hne]
    · rw [start_succ, mul_comm]
      omega
  · refine ⟨B.count - 1, by omega, i - B.start (B.count - 1), ?_, by omega⟩
    rw [width_last]
    rw [← start_last_add_last] at h
    omega

theorem spread_start_add (π : ℕ → ℕ) (ho : o < B.width j) : B.spread π (B.start j + o) = B.start (π j) + o := by
  rw [spread, bundleOf_start_add ho, Nat.add_sub_cancel_left]

end Bundles

/-! ### The permutation of the bundles -/

/-- where bundle j of `count` goes: row j % 2, column j / 2 of two rows; the last bundle stays -/
def interleave (count j : ℕ) : ℕ := if j + 1 = count then j else j % 2 * (count / 2) + j / 2

def deinterleave (count p : ℕ) : ℕ :=
  if p + 1 = count then p else if p < count / 2 then 2 * p else 2 * (p - count / 2) + 1

variable {n j p q : ℕ}

/-- the row taken apart: even bundles go to the first half, odd ones to the second -/
theorem interleave_cases (hj : j < n) : (j + 1 = n ∧ interleave n j = j) ∨
      (j + 1 < n ∧ j % 2 = 0 ∧ interleave n j = j / 2) ∨ (j + 1 < n ∧ j % 2 = 1 ∧ interleave n j = n / 2 + j / 2) := by
  unfold interleave
  split_ifs with h
  · exact .inl ⟨h, rfl⟩
  · rcases mod_two_eq_zero_or_one j with he | ho
    · exact .inr (.inl ⟨by omega, he, by rw [he]; omega⟩)
    · exact .inr (.inr ⟨by omega, ho, by rw [ho]; omega⟩)

theorem interleave_lt (hj : j < n) : interleave n j < n := by
  rcases interleave_cases hj with ⟨-, h⟩ | ⟨hlt, -, h⟩ | ⟨hlt, ho, h⟩ <;> omega

theorem deinterleave_lt (hp : p < n) : deinterleave n p < n := by
  unfold deinterleave
  split_ifs <;> omega

theorem deinterleave_interleave (hj : j < n) : deinterleave n (interleave n j) = j := by
  unfold deinterleave
  rcases interleave_cases hj with ⟨hl, h⟩ | ⟨hlt, he, h⟩ | ⟨hlt, ho, h⟩ <;> rw [h]
  · rw [if_pos hl]
  · rw [if_neg (by omega), if_pos (by omega)]
    omega
  · split_ifs <;> omega

theorem interleave_deinterleave (hp : p < n) : interleave n (deinterleave n p) = p := by
  have hlt := deinterleave_lt hp
  rcases interleave_cases hlt with ⟨hl, h⟩ | ⟨hl, he, h⟩ | ⟨hl, ho, h⟩ <;> rw [h] <;> unfold deinterleave at * <;>
    split_ifs at * <;> omega

/-- the way back is increasing within a row; the last bundle belongs to the second one -/
theorem deinterleave_lt_deinterleave (hpq : p < q) (hq : q < n) (hrow : q < n / 2 ∨ n / 2 ≤ p) :
    deinterleave n p < deinterleave n q := by
  unfold deinterleave
  split_ifs <;> omega

namespace Bundles

variable (B : Bundles)

def forward : ℕ → ℕ := B.spread (interleave B.count)

def backward : ℕ → ℕ := B.spread (deinterleave B.count)

/-- the first position of the second row -/
def middle : ℕ := B.start (B.count / 2)

variable {B : Bundles} {i j o p q x y z a b : ℕ}

theorem interleave_zero : interleave B.count 0 = 0 := by
  simp [interleave]

theorem deinterleave_zero : deinterleave B.count 0 = 0 := by
  have h2 := B.two_le
  unfold deinterleave
  split_ifs <;> omega

/-- a permutation that keeps the two ends in place keeps widths -/
theorem width_eq (π : ℕ → ℕ) (hinj : ∀ x < B.count, ∀ y < B.count, π x = π y → x = y) (hzero : π 0 = 0)
    (hlast : π (B.count - 1) = B.count - 1) (hj : j < B.count) : B.width (π j) = B.width j := by
  have hz : π j = 0 ↔ j = 0 := by
    constructor
    · intro h
      exact hinj j hj 0 (by omega) (h.trans hzero.symm)
    · rintro rfl
      exact hzero
  have hl : π j + 1 = B.count ↔ j + 1 = B.count := by
    constructor
    · intro h
      have hjl := hinj j hj (B.count - 1) (by omega) (by rw [hlast]; omega)
      omega
    · intro h
      obtain rfl : j = B.count - 1 := by omega
      rw [hlast]
      omega
  simp [width, hz, hl]

theorem width_interleave (hj : j < B.count) : B.width (interleave B.count j) = B.width j := by
  refine width_eq _ (fun x hx y hy h => ?_) interleave_zero (if_pos (by omega)) hj
  rw [← deinterleave_interleave hx, h, deinterleave_interleave hy]

theorem width_deinterleave (hj : j < B.count) : B.width (deinterleave B.count j) = B.width j := by
  refine width_eq _ (fun x hx y hy h => ?_) deinterleave_zero (if_pos (by omega)) hj
  rw [← interleave_deinterleave hx, h, interleave_deinterleave hy]

theorem forward_start_add (ho : o < B.width j) :
    B.forward (B.start j + o) = B.start (interleave B.count j) + o := spread_start_add _ ho

theorem backward_start_add (ho : o < B.width j) :
    B.backward (B.start j + o) = B.start (deinterleave B.count j) + o := spread_start_add _ ho

theorem forward_zero : B.forward 0 = 0 := by
  have hpos : 0 < B.width 0 := B.first_pos
  simpa [interleave_zero] using forward_start_add hpos

theorem forward_lt (hi : i < B.size) : B.forward i < B.size := by
  obtain ⟨j, hj, o, ho, rfl⟩ := exists_offset hi
  rw [forward_start_add ho]
  exact start_add_lt_size (interleave_lt hj) (by rwa [width_interleave hj])

theorem backward_lt (hi : i < B.size) : B.backward i < B.size := by
  obtain ⟨j, hj, o, ho, rfl⟩ := exists_offset hi
  rw [backward_start_add ho]
  exact start_add_lt_size (deinterleave_lt hj) (by rwa [width_deinterleave hj])

theorem backward_forward (hi : i < B.size) : B.backward (B.forward i) = i := by
  obtain ⟨j, hj, o, ho, rfl⟩ := exists_offset hi
  rw [forward_start_add ho, backward_start_add (by rwa [width_interleave hj]), deinterleave_interleave hj]

theorem forward_backward (hi : i < B.size) : B.forward (B.backward i) = i := by
  obtain ⟨j, hj, o, ho, rfl⟩ := exists_offset hi
  rw [backward_start_add ho, forward_start_add (by rwa [width_deinterleave hj]), interleave_deinterleave hj]

/-- the way back is increasing on the positions of either row -/
theorem backward_lt_backward (hpq : p < q) (hq : q < B.size) (hrow : q < B.middle ∨ B.middle ≤ p) :
    B.backward p < B.backward q := by
  obtain ⟨j, hj, o, ho, rfl⟩ := exists_offset (hpq.trans hq)
  obtain ⟨k, hk, u, hu, rfl⟩ := exists_offset hq
  rw [backward_start_add ho, backward_start_add hu]
  rcases lt_trichotomy j k with hjk | rfl | hjk
  · -- different bundles of one row
    have hrow' : k < B.count / 2 ∨ B.count / 2 ≤ j := by
      by_contra hcon
      obtain ⟨hk2, hj2⟩ := not_or.1 hcon
      have hjm : B.start j + o < B.middle := start_add_lt_start ho (not_le.1 hj2)
      have hkm : B.middle ≤ B.start k := start_mono (not_lt.1 hk2)
      omega
    have hlt := deinterleave_lt_deinterleave hjk hk hrow'
    have := start_add_lt_start (by rwa [width_deinterleave hj]) hlt
    omega
  · omega
  · have := start_add_lt_start hu hjk
    omega

/-- within a row, what comes from an interval is order-convex -/
theorem backward_mem_of_between (hxy : x < y) (hyz : y < z) (hz : z < B.size) (hrow : z < B.middle ∨ B.middle ≤ x)
    (hx : a ≤ B.backward x) (hzb : B.backward z < b) : a ≤ B.backward y ∧ B.backward y < b := by
  have h1 := backward_lt_backward hxy (hyz.trans hz) (by omega)
  have h2 := backward_lt_backward hyz hz (by omega)
  omega

end Bundles

end OcuduRan.Core
