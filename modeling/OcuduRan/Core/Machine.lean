/-
Runs of a deterministic step function over a list of operations, and the induction every safety proof of this
development uses: an invariant that holds initially and is preserved by every legal step holds after every run of
legal steps. An operation carries the choices of the environment (grant sizes, losses, allocation outcomes), so that
"for every interleaving" is "for every list of operations". `Always` is the same for every state on the way.
-/
import Mathlib.Tactic

namespace OcuduRan.Machine

variable {σ ω : Type} {step : σ → ω → σ} {I : σ → Prop} {P : σ → ω → Prop}

/-- the state after the operations `ops`, in order -/
def run (step : σ → ω → σ) (s : σ) (ops : List ω) : σ := ops.foldl step s

@[simp] theorem run_nil (step : σ → ω → σ) (s : σ) : run step s [] = s := rfl

@[simp] theorem run_cons (step : σ → ω → σ) (s : σ) (o : ω) (ops : List ω) :
    run step s (o :: ops) = run step (step s o) ops := rfl

theorem run_append (step : σ → ω → σ) (s : σ) (a b : List ω) : run step s (a ++ b) = run step (run step s a) b := by
  simp [run, List.foldl_append]

/-- every step of the run is taken in a state and with an operation that satisfy `P` -/
def Always (step : σ → ω → σ) (P : σ → ω → Prop) (s : σ) : List ω → Prop
  | [] => True
  | o :: ops => P s o ∧ Always step P (step s o) ops

instance Always.decidable {step : σ → ω → σ} {P : σ → ω → Prop} [∀ s o, Decidable (P s o)] (s : σ) :
    ∀ ops, Decidable (Always step P s ops)
  | [] => isTrue trivial
  | o :: ops => @instDecidableAnd (P s o) _ _ (Always.decidable (step s o) ops)

theorem Always.take {s : σ} {ops : List ω} (h : Always step P s ops) (n : ℕ) : Always step P s (ops.take n) := by
  induction ops generalizing s n with
  | nil => simpa using h
  | cons o ops ih =>
    cases n with
    | zero => trivial
    | succ n => exact ⟨h.1, ih h.2 n⟩

/-- the run invariant: preserved by each step that satisfies `P`, hence by a run whose steps all do -/
theorem run_inv (hstep : ∀ s o, I s → P s o → I (step s o)) (s : σ) (ops : List ω) (h : I s)
    (hP : Always step P s ops) : I (run step s ops) := by
  induction ops generalizing s with
  | nil => exact h
  | cons o ops ih => exact ih (step s o) (hstep s o h hP.1) hP.2

/-- the run invariant for steps that need no side condition -/
theorem run_inv_all (hstep : ∀ s o, I s → I (step s o)) (s : σ) (ops : List ω) (h : I s) : I (run step s ops) := by
  induction ops generalizing s with
  | nil => exact h
  | cons o ops ih => exact ih (step s o) (hstep s o h)

theorem always_of_forall {Q : ω → Prop} (hPQ : ∀ s o, Q o → P s o) (s : σ)
    (ops : List ω) (h : ∀ o ∈ ops, Q o) : Always step P s ops := by
  induction ops generalizing s with
  | nil => trivial
  | cons o ops ih =>
    exact ⟨hPQ s o (h o List.mem_cons_self), ih (step s o) fun o' ho' => h o' (List.mem_cons_of_mem o ho')⟩

theorem forall_of_always {Q : ω → Prop} (hPQ : ∀ s o, P s o → Q o) (s : σ) (ops : List ω) (h : Always step P s ops) :
    ∀ o ∈ ops, Q o := by
  induction ops generalizing s with
  | nil => simp
  | cons o ops ih => exact List.forall_mem_cons.2 ⟨hPQ s o h.1, ih (step s o) h.2⟩

/-- in a run of legal steps, which keep `J`: where a step from a state that satisfies `I` keeps `I` exactly when it
satisfies `P`, the steps of the run all satisfy `P` exactly when every state on the way satisfies `I` -/
theorem always_iff_prefixes_of {P Q : σ → ω → Prop} {I J : σ → Prop}
    (hJ : ∀ s o, J s → Q s o → J (step s o)) (hstep : ∀ s o, J s → Q s o → I s → (P s o ↔ I (step s o))) (s : σ)
    (ops : List ω) (hJs : J s) (hQ : Always step Q s ops) (h : I s) :
    Always step P s ops ↔ ∀ n, I (run step s (ops.take n)) := by
  induction ops generalizing s with
  | nil => simp [Always, h]
  | cons o ops ih =>
    have hkeeps := hstep s o hJs hQ.1 h
    have hrest := ih (step s o) (hJ s o hJs hQ.1) hQ.2
    constructor
    · intro hP n
      cases n with
      | zero => exact h
      | succ n => exact (hrest (hkeeps.1 hP.1)).1 hP.2 n
    · intro hI
      have hnext : I (step s o) := hI 1
      exact ⟨hkeeps.2 hnext, (hrest hnext).2 fun n => hI (n + 1)⟩

/-- the same for runs in which every step is legal -/
theorem always_iff_prefixes (hstep : ∀ s o, I s → (P s o ↔ I (step s o))) (s : σ) (ops : List ω) (h : I s) :
    Always step P s ops ↔ ∀ n, I (run step s (ops.take n)) :=
  always_iff_prefixes_of (J := fun _ => True) (Q := fun _ _ => True) (fun _ _ _ _ => trivial)
    (fun s o _ _ hI => hstep s o hI) s ops trivial (always_of_forall (Q := fun _ => True) (fun _ _ _ => trivial) s ops
      fun _ _ => trivial) h

/-- steps that satisfy `P` satisfy `Q` and keep the invariant -/
theorem always_imp {P Q : σ → ω → Prop} (hstep : ∀ s o, I s → P s o → Q s o ∧ I (step s o)) (s : σ) (ops : List ω)
    (h : I s) (hP : Always step P s ops) : Always step Q s ops := by
  induction ops generalizing s with
  | nil => trivial
  | cons o ops ih =>
    obtain ⟨hQ, hnext⟩ := hstep s o h hP.1
    exact ⟨hQ, ih (step s o) hnext hP.2⟩

/-- two conditions on steps that agree in the states of an invariant which the first one keeps -/
theorem always_congr {P Q : σ → ω → Prop} (hPQ : ∀ s o, I s → (P s o ↔ Q s o))
    (hstep : ∀ s o, I s → P s o → I (step s o)) (s : σ) (ops : List ω) (h : I s) :
    Always step P s ops ↔ Always step Q s ops := by
  induction ops generalizing s with
  | nil => exact Iff.rfl
  | cons o ops ih =>
    constructor
    · intro hP
      exact ⟨(hPQ s o h).1 hP.1, (ih (step s o) (hstep s o h hP.1)).1 hP.2⟩
    · intro hQ
      have hP := (hPQ s o h).2 hQ.1
      exact ⟨hP, (ih (step s o) (hstep s o h hP)).2 hQ.2⟩

/-- what two steps in a row append to a log satisfies `Q` where what each of them appends does -/
theorem appends_trans {Q : ω → Prop} {l l' l'' : List ω} (h : ∃ new, l' = l ++ new ∧ ∀ e ∈ new, Q e)
    (h' : ∃ new, l'' = l' ++ new ∧ ∀ e ∈ new, Q e) : ∃ new, l'' = l ++ new ∧ ∀ e ∈ new, Q e := by
  obtain ⟨new, heq, hnew⟩ := h
  obtain ⟨new', heq', hnew'⟩ := h'
  refine ⟨new ++ new', by rw [heq', heq, List.append_assoc], fun e he => ?_⟩
  rcases List.mem_append.1 he with he | he
  · exact hnew e he
  · exact hnew' e he

end OcuduRan.Machine
