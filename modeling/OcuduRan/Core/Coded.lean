/-
Calls that change a state and return a value or an error code. The state survives an error: what a failed call has
written or consumed stays written or consumed. `>>=` is the early return on an error code; `ignore` drops the code of a
call whose result nobody looks at. A failed assertion ends the program and cannot be dropped.
-/
import Mathlib.Tactic

namespace OcuduRan

/-- why a call ended early -/
inductive Fault (ε : Type) where
  | code (e : ε)
  | assertion
deriving DecidableEq, Repr

/-- a call on a state `σ` -/
def Coded (ε σ α : Type) : Type := σ → Except (Fault ε) α × σ

namespace Coded

variable {ε σ α β : Type}

instance : Monad (Coded ε σ) where
  pure a := fun s => (.ok a, s)
  bind x f := fun s =>
    match x s with
    | (.ok a, s') => f a s'
    | (.error e, s') => (.error e, s')

/-- return an error code -/
def fail (e : ε) : Coded ε σ α := fun s => (.error (.code e), s)

/-- end the program unless the condition holds -/
def assert (p : Prop) [Decidable p] : Coded ε σ Unit := fun s => if p then (.ok (), s) else (.error .assertion, s)

/-- a call that is only made under a condition -/
def when (c : Bool) (x : Coded ε σ Unit) : Coded ε σ Unit := if c then x else pure ()

/-- change the state -/
def modify (f : σ → σ) : Coded ε σ Unit := fun s => (.ok (), f s)

/-- a call whose error code is not looked at -/
def ignore (dflt : α) (x : Coded ε σ α) : Coded ε σ α := fun s =>
  match x s with
  | (.error (.code _), s') => (.ok dflt, s')
  | res => res

/-- one call after the other over a list -/
def forEach (f : α → Coded ε σ Unit) : List α → Coded ε σ Unit
  | [] => pure ()
  | a :: as => do f a; forEach f as

/-- the results of `n` calls, in order -/
def times (x : Coded ε σ α) : ℕ → Coded ε σ (List α)
  | 0 => pure []
  | n + 1 => do
    let a ← x
    let as ← times x n
    pure (a :: as)

variable {x : Coded ε σ α} {f : α → Coded ε σ β} {s s' s'' : σ} {a : α} {b : β} {e : Fault ε}

@[simp] theorem pure_apply (a : α) (s : σ) : (pure a : Coded ε σ α) s = (.ok a, s) := rfl

@[simp] theorem fail_apply (e : ε) (s : σ) : (fail e : Coded ε σ α) s = (.error (.code e), s) := rfl

@[simp] theorem modify_apply (g : σ → σ) (s : σ) : (modify g : Coded ε σ Unit) s = (.ok (), g s) := rfl

theorem assert_of {p : Prop} [Decidable p] (h : p) (s : σ) : (assert p : Coded ε σ Unit) s = (.ok (), s) := if_pos h

theorem bind_of_ok (h : x s = (.ok a, s')) : (x >>= f) s = f a s' := by
  show (match x s with | (.ok a, s') => f a s' | (.error e, s') => (.error e, s')) = _
  rw [h]

theorem bind_of_error (h : x s = (.error e, s')) : (x >>= f) s = (.error e, s') := by
  show (match x s with | (.ok a, s') => f a s' | (.error e, s') => (.error e, s')) = _
  rw [h]

theorem bind_congr (h : x s = x s') : (x >>= f) s = (x >>= f) s' := by
  show (match x s with | (.ok a, t) => f a t | (.error e, t) => (.error e, t)) = _
  rw [h]
  rfl

theorem times_succ {n : ℕ} {as : List α} {s'' : σ} (hx : x s = (.ok a, s')) (hxs : times x n s' = (.ok as, s'')) :
    times x (n + 1) s = (.ok (a :: as), s'') :=
  (bind_of_ok hx).trans ((bind_of_ok hxs).trans rfl)

/-- a sequence succeeds when both calls do -/
theorem bind_eq_ok : (x >>= f) s = (.ok b, s'') ↔ ∃ a s', x s = (.ok a, s') ∧ f a s' = (.ok b, s'') := by
  constructor
  · intro h
    rcases hx : x s with ⟨_ | a, s'⟩
    · rw [bind_of_error hx] at h
      cases h
    · rw [bind_of_ok hx] at h
      exact ⟨a, s', rfl, h⟩
  · rintro ⟨a, s', hx, hf⟩
    rw [bind_of_ok hx, hf]

theorem ignore_of_ok {dflt : α} (h : x s = (.ok a, s')) : ignore dflt x s = (.ok a, s') := by
  unfold ignore
  rw [h]

theorem ignore_of_code {dflt : α} {c : ε} (h : x s = (.error (.code c), s')) : ignore dflt x s = (.ok dflt, s') := by
  unfold ignore
  rw [h]

/-- what every step keeps, a sequence keeps -/
theorem bind_inv {I : σ → Prop} (hx : ∀ s, I s → I (x s).2) (hf : ∀ a s, I s → I (f a s).2) (hs : I s) :
    I ((x >>= f) s).2 := by
  have hx' := hx s hs
  rcases h : x s with ⟨_ | a, s'⟩
  · rw [bind_of_error h]
    rw [h] at hx'
    exact hx'
  · rw [bind_of_ok h]
    rw [h] at hx'
    exact hf a s' hx'

end Coded

end OcuduRan
