/-
Loops that may end early with an error: `foldlM` over a list in `Except`. A loop whose rounds all succeed succeeds, and
leaves what the rounds have built up.
-/
import Mathlib.Tactic

namespace OcuduRan.ExceptFold

open List

variable {ε α β : Type}

@[simp] theorem ok_bind {γ : Type} (a : α) (f : α → Except ε γ) : (Except.ok a >>= f) = f a := rfl

@[simp] theorem error_bind {γ : Type} (e : ε) (f : α → Except ε γ) : (Except.error e >>= f) = .error e := rfl

variable {f : β → α → Except ε β} {l : List α} {b : β}

/-- a loop whose rounds succeed succeeds; `I done b` is what the rounds for `done` leave -/
theorem foldlM_ok {I : List α → β → Prop} (hstep : ∀ done a rest b, l = done ++ a :: rest → I done b →
    ∃ b', f b a = .ok b' ∧ I (done ++ [a]) b') (hb : I [] b) : ∃ b', l.foldlM f b = .ok b' ∧ I l b' := by
  have hrest : ∀ rest done b, l = done ++ rest → I done b → ∃ b', rest.foldlM f b = .ok b' ∧ I l b' := by
    intro rest
    induction rest with
    | nil =>
      intro done b hl hI
      rw [append_nil] at hl
      exact ⟨b, rfl, hl ▸ hI⟩
    | cons a rest ih =>
      intro done b hl hI
      obtain ⟨b1, h1, hI1⟩ := hstep done a rest b hl hI
      obtain ⟨b', h', hI'⟩ := ih (done ++ [a]) b1 (by rw [hl, append_assoc]; rfl) hI1
      exact ⟨b', by rw [foldlM_cons, h1]; exact h', hI'⟩
  exact hrest l [] b rfl hb

/-- a map in `Option` whose elements all have a value has one -/
theorem mapM_of_forall {g : α → Option β} {R : α → β → Prop} (vs : List α) (h : ∀ v ∈ vs, ∃ c, g v = some c ∧ R v c) :
    ∃ cs, vs.mapM g = some cs ∧ List.Forall₂ R vs cs := by
  induction vs with
  | nil => exact ⟨[], rfl, .nil⟩
  | cons v vs ih =>
    obtain ⟨c, hc, hR⟩ := h v (mem_cons_self ..)
    obtain ⟨cs, hcs, hRs⟩ := ih fun w hw => h w (mem_cons_of_mem _ hw)
    exact ⟨c :: cs, by simp [mapM_cons, hc, hcs], .cons hR hRs⟩

end OcuduRan.ExceptFold
