/-
Numbering the non-empty intervals of [0, n).

An interval is a start and a length, `1 ≤ length` and `start + length ≤ n`. The intervals of one length make a row of a
table with n columns; rows of length up to n/2 + 1 stay where they are, the longer ones are turned by half a turn and
fill the free ends of the short ones' rows. `place` is the cell of an interval and `interval` the interval of a cell;
cells are then numbered row by row. The table has n(n+1)/2 cells, all of them used:
- `interval_place` / `place_interval`: the two are inverse to each other between intervals and cells of the table;
- `cell_iff`: the cells of the table are those whose number is below n(n+1)/2.
-/
import Mathlib.Tactic

namespace OcuduRan.IntervalCode

/-- a non-empty interval (start, length) inside [0, n) -/
def Inside (n : ℕ) (p : ℕ × ℕ) : Prop := 1 ≤ p.2 ∧ p.1 + p.2 ≤ n

/-- a cell (row, column) of the folded table: all rows below the middle one, and half of that if n is even -/
def Cell (n : ℕ) (c : ℕ × ℕ) : Prop := c.2 < n ∧ (2 * c.1 < n ∨ 2 * c.1 = n ∧ 2 * c.2 < n)

/-- the cell of an interval -/
def place (n : ℕ) (p : ℕ × ℕ) : ℕ × ℕ := if p.2 - 1 ≤ n / 2 then (p.2 - 1, p.1) else (n - p.2 + 1, n - 1 - p.1)

/-- the interval of a cell -/
def interval (n : ℕ) (c : ℕ × ℕ) : ℕ × ℕ := if c.1 + 1 + c.2 ≤ n then (c.2, c.1 + 1) else (n - 1 - c.2, n - c.1 + 1)

/-- the number of a cell, counted row by row -/
def number (n : ℕ) (c : ℕ × ℕ) : ℕ := n * c.1 + c.2

variable {n : ℕ} {p c : ℕ × ℕ}

theorem cell_place (h : Inside n p) : Cell n (place n p) := by
  obtain ⟨hl, hs⟩ := h
  unfold place Cell
  split_ifs <;> simp only <;> omega

theorem inside_interval (h : Cell n c) : Inside n (interval n c) := by
  obtain ⟨hc, hr⟩ := h
  unfold interval Inside
  split_ifs <;> simp only <;> omega

theorem interval_place (h : Inside n p) : interval n (place n p) = p := by
  obtain ⟨s, l⟩ := p
  obtain ⟨hl, hs⟩ := h
  simp only at hl hs
  -- a turned row never passes the test of an unturned one: row + 1 + column is n + 1 or more
  by_cases hh : l - 1 ≤ n / 2
  · simp only [place, interval, if_pos hh]
    rw [if_pos (by omega)]
    exact Prod.ext rfl (by simp only; omega)
  · simp only [place, interval, if_neg hh]
    rw [if_neg (by omega)]
    exact Prod.ext (by simp only; omega) (by simp only; omega)

theorem place_interval (h : Cell n c) : place n (interval n c) = c := by
  obtain ⟨row, col⟩ := c
  obtain ⟨hc, hr⟩ := h
  simp only at hc hr
  by_cases hh : row + 1 + col ≤ n
  · simp only [place, interval, if_pos hh]
    rw [if_pos (by omega)]
    exact Prod.ext (by simp only; omega) rfl
  · simp only [place, interval, if_neg hh]
    rw [if_neg (by omega)]
    exact Prod.ext (by simp only; omega) (by simp only; omega)

theorem two_mul_triangle : 2 * (n * (n + 1) / 2) = n * (n + 1) :=
  Nat.mul_div_cancel' (Nat.even_mul_succ_self n).two_dvd

/-- the cells of the table are numbered up to n(n+1)/2 -/
theorem cell_iff (hc : c.2 < n) : Cell n c ↔ number n c < n * (n + 1) / 2 := by
  obtain ⟨row, col⟩ := c
  simp only at hc
  have htri := two_mul_triangle (n := n)
  unfold Cell number
  simp only [hc, true_and]
  constructor
  · rintro (hr | ⟨hr, hcol⟩)
    · nlinarith
    · nlinarith
  · intro h
    rcases Nat.lt_trichotomy (2 * row) n with hr | hr | hr
    · exact .inl hr
    · exact .inr ⟨hr, by nlinarith⟩
    · nlinarith

theorem number_div (hc : c.2 < n) : number n c / n = c.1 := by
  unfold number
  rw [Nat.mul_add_div (by omega), Nat.div_eq_of_lt hc, Nat.add_zero]

theorem number_mod (hc : c.2 < n) : number n c % n = c.2 := by
  unfold number
  rw [Nat.mul_add_mod, Nat.mod_eq_of_lt hc]

theorem number_div_mod (v : ℕ) : number n (v / n, v % n) = v := Nat.div_add_mod v n

/-- a number below n(n+1)/2 is the number of a cell -/
theorem cell_of_lt {v : ℕ} (hn : 1 ≤ n) (hv : v < n * (n + 1) / 2) : Cell n (v / n, v % n) := by
  rw [cell_iff (Nat.mod_lt _ hn), number_div_mod]
  exact hv

end OcuduRan.IntervalCode
