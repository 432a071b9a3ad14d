/-
Bytes in memory, as a function on positions: `seg` reads consecutive bytes, `store` overwrites them.
-/
import Mathlib.Tactic

namespace OcuduRan

open List

/-- `len` bytes from position `off` on -/
def seg (mem : ℕ → UInt8) (off len : ℕ) : List UInt8 := (range' off len).map mem

/-- the bytes `bs` written at position `pos` -/
def store (mem : ℕ → UInt8) (pos : ℕ) (bs : List UInt8) (i : ℕ) : UInt8 :=
  if pos ≤ i ∧ i < pos + bs.length then bs.getD (i - pos) 0 else mem i

variable (mem : ℕ → UInt8) {off len pos : ℕ} {bs : List UInt8}

@[simp] theorem length_seg (off len : ℕ) : (seg mem off len).length = len := by simp [seg]

theorem seg_add (off a b : ℕ) : seg mem off (a + b) = seg mem off a ++ seg mem (off + a) b := by
  unfold seg
  rw [← map_append, range'_append_1]

theorem getElem?_seg (off len i : ℕ) : (seg mem off len)[i]? = if i < len then some (mem (off + i)) else none := by
  unfold seg
  rw [getElem?_map]
  split_ifs with h
  · rw [getElem?_range' h]
    simp
  · rw [getElem?_eq_none (by simpa using h)]
    rfl

theorem seg_store_self (pos : ℕ) (bs : List UInt8) : seg (store mem pos bs) pos bs.length = bs := by
  refine ext_getElem? fun i => ?_
  rw [getElem?_seg]
  split_ifs with h
  · rw [store, if_pos ⟨Nat.le_add_right _ _, Nat.add_lt_add_left h pos⟩, Nat.add_sub_cancel_left,
      getD_eq_getElem?_getD, getElem?_eq_getElem h, Option.getD_some]
  · rw [getElem?_eq_none (not_lt.1 h)]

theorem seg_congr {mem' : ℕ → UInt8} (h : ∀ i, off ≤ i → i < off + len → mem' i = mem i) :
    seg mem' off len = seg mem off len := by
  refine ext_getElem? fun i => ?_
  rw [getElem?_seg, getElem?_seg]
  split_ifs with hi
  · rw [h (off + i) (Nat.le_add_right _ _) (Nat.add_lt_add_left hi off)]
  · rfl

/-- bytes before the written ones stay -/
theorem seg_store_before (h : off + len ≤ pos) : seg (store mem pos bs) off len = seg mem off len := by
  refine seg_congr mem fun i _ hi => ?_
  rw [store, if_neg (by omega)]

/-- bytes behind the written ones stay -/
theorem seg_store_after (h : pos + bs.length ≤ off) : seg (store mem pos bs) off len = seg mem off len := by
  refine seg_congr mem fun i hi _ => ?_
  rw [store, if_neg (by omega)]

end OcuduRan
