/-
In-order release of the numbers `start, .., start + n - 1` that arrive in any order.

The frontier is the first number that has not arrived. An arrival at the frontier moves it over the numbers that were
waiting behind it; any other arrival leaves it where it is. So each arrival releases an interval, possibly empty, and
the intervals of all arrivals are one behind the other (`range'_append_released`).
-/
import Mathlib.Tactic

namespace OcuduRan.Frontier

open List

variable {start n x m : ℕ} {xs : List ℕ}

/-- the first number from `start` on that is not in `xs`, among `n` of them -/
def frontier (start n : ℕ) (xs : List ℕ) : ℕ := ((range' start n).find? (· ∉ xs)).getD (start + n)

theorem frontier_spec (start n : ℕ) (xs : List ℕ) : start ≤ frontier start n xs ∧ frontier start n xs ≤ start + n ∧
      (∀ i, start ≤ i → i < frontier start n xs → i ∈ xs) ∧
      (frontier start n xs < start + n → frontier start n xs ∉ xs) := by
  unfold frontier
  cases h : (range' start n).find? (· ∉ xs) with
  | none =>
    rw [find?_eq_none] at h
    refine ⟨by simp, by simp, fun i hi hlt => ?_, by simp⟩
    simpa using h i (mem_range'_1.2 ⟨hi, hlt⟩)
  | some f =>
    have hmem := mem_range'_1.1 (mem_of_find?_eq_some h)
    have hout := find?_some h
    rw [find?_range'_eq_some] at h
    refine ⟨hmem.1, hmem.2.le, fun i hi hlt => ?_, fun _ => by simpa using hout⟩
    simpa using h.2.2 i hi hlt

theorem le_frontier (start n : ℕ) (xs : List ℕ) : start ≤ frontier start n xs := (frontier_spec start n xs).1

theorem frontier_le (start n : ℕ) (xs : List ℕ) : frontier start n xs ≤ start + n := (frontier_spec start n xs).2.1

theorem mem_of_lt_frontier (hs : start ≤ x) (h : x < frontier start n xs) : x ∈ xs :=
  (frontier_spec start n xs).2.2.1 x hs h

theorem frontier_not_mem (h : frontier start n xs < start + n) : frontier start n xs ∉ xs :=
  (frontier_spec start n xs).2.2.2 h

theorem frontier_eq (hs : start ≤ m) (hm : m ≤ start + n) (hall : ∀ i, start ≤ i → i < m → i ∈ xs)
    (hout : m < start + n → m ∉ xs) : frontier start n xs = m := by
  apply le_antisymm
  · by_contra hlt
    exact hout (by have := frontier_le start n xs; omega) (mem_of_lt_frontier hs (not_le.1 hlt))
  · by_contra hlt
    exact frontier_not_mem (by omega) (hall _ (le_frontier start n xs) (not_le.1 hlt))

@[simp] theorem frontier_nil (start n : ℕ) : frontier start n [] = start :=
  frontier_eq le_rfl (Nat.le_add_right _ _) (by omega) (by simp)

/-- everything has arrived exactly if the frontier is at the end -/
theorem frontier_eq_stop_iff : frontier start n xs = start + n ↔ ∀ i, start ≤ i → i < start + n → i ∈ xs := by
  constructor
  · intro h i hi hlt
    exact mem_of_lt_frontier hi (h ▸ hlt)
  · intro h
    exact frontier_eq (Nat.le_add_right _ _) le_rfl h (by omega)

/-- an arrival elsewhere leaves the frontier -/
theorem frontier_cons_of_ne (h : x ≠ frontier start n xs) : frontier start n (x :: xs) = frontier start n xs := by
  refine frontier_eq (le_frontier start n xs) (frontier_le start n xs) (fun i hi hlt => ?_) fun hlt hmem => ?_
  · exact mem_cons_of_mem _ (mem_of_lt_frontier hi hlt)
  · rcases mem_cons.1 hmem with heq | hmem
    · exact h heq.symm
    · exact frontier_not_mem hlt hmem

theorem frontier_le_cons (start n x : ℕ) (xs : List ℕ) : frontier start n xs ≤ frontier start n (x :: xs) := by
  by_contra hlt
  have hle := frontier_le start n xs
  have hbefore : frontier start n (x :: xs) < start + n := by omega
  refine frontier_not_mem hbefore (mem_cons_of_mem _ ?_)
  exact mem_of_lt_frontier (le_frontier _ _ _) (not_le.1 hlt)

/-- the numbers an arrival releases -/
def released (start n x : ℕ) (xs : List ℕ) : List ℕ :=
  range' (frontier start n xs) (frontier start n (x :: xs) - frontier start n xs)

theorem range'_append_released (start n x : ℕ) (xs : List ℕ) :
    range' start (frontier start n xs - start) ++ released start n x xs =
      range' start (frontier start n (x :: xs) - start) := by
  have h1 := le_frontier start n xs
  have h2 := frontier_le_cons start n x xs
  unfold released
  conv_lhs => rw [show frontier start n xs = start + (frontier start n xs - start) by omega]
  rw [show start + (frontier start n xs - start) - start = frontier start n xs - start by omega, range'_append_1]
  congr 1
  omega

theorem released_of_ne (h : x ≠ frontier start n xs) : released start n x xs = [] := by
  unfold released
  rw [frontier_cons_of_ne h, Nat.sub_self]
  rfl

end OcuduRan.Frontier
