/-
Identifiers handed out from a counter that wraps around: the counter is advanced until it meets a value that is not in
use. The search loop has no bound of its own, so the question is when it ends.

`search next free fuel x` is `while (true) { x = next(x); if (free(x)) return x; }` given up after `fuel` rounds.
Results:
- `search_eq_some`: what it returns is free and lies on the orbit of `x`.
- `search_isSome_iff`: it returns within `fuel` rounds exactly when one of the first `fuel` successors is free.
- `search_forever`: once it has come back to where it started without a result, no number of rounds gives one.
- `search_wrapNext`, `search_wrapNext_none`: for a counter over `0 .. last` one turn around is enough, and the search
  fails exactly when every value is in use.
-/
import Mathlib

namespace OcuduRan.CounterSearch

open Nat

variable {α : Type}

/-- the search loop, given up after `fuel` rounds -/
def search (next : α → α) (free : α → Bool) : ℕ → α → Option α
  | 0, _ => none
  | fuel + 1, x => if free (next x) then some (next x) else search next free fuel (next x)

variable {next : α → α} {free : α → Bool} {fuel : ℕ} {x y : α}

theorem search_eq_some (h : search next free fuel x = some y) : free y = true ∧ ∃ k, y = next^[k + 1] x := by
  induction fuel generalizing x with
  | zero => cases h
  | succ fuel ih =>
    unfold search at h
    split_ifs at h with hfree
    · simp only [Option.some.injEq] at h
      subst h
      exact ⟨hfree, 0, rfl⟩
    · obtain ⟨hy, k, hk⟩ := ih h
      exact ⟨hy, k + 1, hk⟩

theorem search_isSome_iff (next : α → α) (free : α → Bool) (fuel : ℕ) (x : α) :
    (search next free fuel x).isSome ↔ ∃ k < fuel, free (next^[k + 1] x) = true := by
  induction fuel generalizing x with
  | zero => simp [search]
  | succ fuel ih =>
    unfold search
    split_ifs with hfree
    · simp only [Option.isSome_some, true_iff]
      exact ⟨0, fuel.succ_pos, hfree⟩
    · rw [ih (next x)]
      constructor
      · rintro ⟨k, hk, h⟩
        exact ⟨k + 1, by omega, h⟩
      · rintro ⟨k, hk, h⟩
        cases k with
        | zero => exact absurd h hfree
        | succ k => exact ⟨k, by omega, h⟩

/-- a search that has gone round once without a result never returns -/
theorem search_forever {p : ℕ} (hp : 0 < p) (hround : next^[p] x = x) (h : search next free p x = none) (fuel : ℕ) :
    search next free fuel x = none := by
  rw [← Option.not_isSome_iff_eq_none, search_isSome_iff] at h ⊢
  rintro ⟨k, -, hk⟩
  apply h
  -- the successor found in round `k` was already met in round `k mod p`
  have hmul : next^[p * (k / p)] x = x := by
    rw [Function.iterate_mul]
    exact Function.iterate_fixed hround _
  have hsplit : k + 1 = (k % p + 1) + p * (k / p) := by
    have := mod_add_div k p
    omega
  have hiter : next^[k + 1] x = next^[k % p + 1] x := by
    rw [hsplit, Function.iterate_add_apply, hmul]
  exact ⟨k % p, mod_lt k hp, hiter ▸ hk⟩

/-! ## Counters over `0 .. last` -/

/-- the successor in `0 .. last`, back to 0 after `last` -/
def wrapNext (last x : ℕ) : ℕ := if x = last then 0 else x + 1

theorem wrapNext_le {last x : ℕ} (h : x ≤ last) : wrapNext last x ≤ last := by
  unfold wrapNext
  split_ifs with hx
  · exact last.zero_le
  · omega

theorem iterate_wrapNext {last x : ℕ} (h : x ≤ last) (k : ℕ) : (wrapNext last)^[k] x = (x + k) % (last + 1) := by
  induction k with
  | zero => simp [mod_eq_of_lt (lt_succ_of_le h)]
  | succ k ih =>
    rw [Function.iterate_succ_apply', ih, wrapNext, ← add_assoc, add_mod_eq_ite (m := x + k)]
    have hlt : (x + k) % (last + 1) < last + 1 := mod_lt (x + k) (succ_pos last)
    rcases last.eq_zero_or_pos with h0 | h0
    · subst h0
      simp [mod_one]
    · rw [mod_eq_of_lt (show 1 < last + 1 by omega)]
      split_ifs <;> omega

/-- one turn around the counter -/
theorem iterate_wrapNext_round {last x : ℕ} (h : x ≤ last) : (wrapNext last)^[last + 1] x = x := by
  rw [iterate_wrapNext h, add_mod_right, mod_eq_of_lt (lt_succ_of_le h)]

/-- every value comes up within one turn -/
theorem exists_iterate_wrapNext {last x y : ℕ} (hx : x ≤ last) (hy : y ≤ last) :
    ∃ k < last + 1, (wrapNext last)^[k + 1] x = y := by
  refine ⟨(y + last - x) % (last + 1), mod_lt _ last.succ_pos, ?_⟩
  rw [iterate_wrapNext hx]
  have hround : x + ((y + last - x) % (last + 1) + 1) ≡ x + ((y + last - x) + 1) [MOD last + 1] :=
    ((mod_modEq _ _).add_right 1).add_left x
  calc (x + ((y + last - x) % (last + 1) + 1)) % (last + 1) = (x + ((y + last - x) + 1)) % (last + 1) := hround
    _ = (y + (last + 1)) % (last + 1) := by congr 1; omega
    _ = y := by rw [add_mod_right, mod_eq_of_lt (lt_succ_of_le hy)]

variable {free : ℕ → Bool} {last x y : ℕ}

theorem iterate_wrapNext_le (h : x ≤ last) (k : ℕ) : (wrapNext last)^[k] x ≤ last := by
  rw [iterate_wrapNext h]
  exact le_of_lt_succ (mod_lt _ last.succ_pos)

theorem search_wrapNext (hx : x ≤ last) (h : search (wrapNext last) free fuel x = some y) :
    free y = true ∧ y ≤ last := by
  obtain ⟨hy, k, hk⟩ := search_eq_some h
  exact ⟨hy, hk ▸ iterate_wrapNext_le hx (k + 1)⟩

/-- one turn finds a free value unless every value is in use -/
theorem search_wrapNext_none (hx : x ≤ last) (h : search (wrapNext last) free (last + 1) x = none) (hy : y ≤ last) :
    free y = false := by
  rw [← Option.not_isSome_iff_eq_none, search_isSome_iff] at h
  obtain ⟨k, hk, rfl⟩ := exists_iterate_wrapNext hx hy
  exact Bool.eq_false_iff.2 fun hfree => h ⟨k, hk, hfree⟩

end OcuduRan.CounterSearch
