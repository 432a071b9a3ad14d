/-
A string cut into consecutive records. `At pos r next` says that the record `r` starts at position `pos` and that the
next one would start at `next`; `Records At pos rs stop` that the records `rs` fill the string from `pos` to `stop`.
When a position determines its record, two cuts from the same position agree as far as both go (`Records.append_eq`).
-/
import Mathlib.Tactic

namespace OcuduRan

variable {ρ : Type} {At : ℕ → ρ → ℕ → Prop} {pos stop stop' : ℕ} {rs rs' : List ρ}

inductive Records (At : ℕ → ρ → ℕ → Prop) : ℕ → List ρ → ℕ → Prop
  | nil (pos : ℕ) : Records At pos [] pos
  | cons {pos next stop : ℕ} {r : ρ} {rs : List ρ} (hr : At pos r next) (hrs : Records At next rs stop) :
    Records At pos (r :: rs) stop

namespace Records

section

variable (hdet : ∀ pos r r' next next', At pos r next → At pos r' next' → r = r' ∧ next = next')
include hdet

/-- of two cuts the longer one continues the shorter one -/
theorem append_eq (h : Records At pos rs stop) (h' : Records At pos rs' stop') (hlen : rs.length ≤ rs'.length) :
    ∃ tail, rs' = rs ++ tail ∧ Records At stop tail stop' := by
  induction h generalizing rs' with
  | nil pos => exact ⟨rs', rfl, h'⟩
  | cons hr hrs ih =>
    cases h' with
    | nil => exact absurd hlen (by simp)
    | cons hr' hrs' =>
      obtain ⟨rfl, rfl⟩ := hdet _ _ _ _ _ hr hr'
      obtain ⟨tail, rfl, htail⟩ := ih hrs' (by simpa using hlen)
      exact ⟨tail, rfl, htail⟩

/-- two cuts up to a position behind which there is no record are the same -/
theorem eq_of_stop
    (hend : ∀ r next, ¬At stop r next) (h : Records At pos rs stop) (h' : Records At pos rs' stop) : rs' = rs := by
  have hnil : ∀ tail stop', Records At stop tail stop' → tail = [] := by
    intro tail stop' ht
    cases ht with
    | nil => rfl
    | cons hr _ => exact absurd hr (hend _ _)
  rcases le_total rs.length rs'.length with hlen | hlen
  · obtain ⟨tail, rfl, htail⟩ := append_eq hdet h h' hlen
    rw [hnil tail _ htail, List.append_nil]
  · obtain ⟨tail, rfl, htail⟩ := append_eq hdet h' h hlen
    rw [hnil tail _ htail, List.append_nil]

end

end Records

end OcuduRan
