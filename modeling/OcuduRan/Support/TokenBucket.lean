/-
The token bucket (lib/support/rate_limiting/token_bucket.cpp) against an ideal bucket of natural numbers.

- `tokenBucket_iff`: in every state of a run the level is that of the ideal bucket, every request has been answered as
  the ideal bucket answers it, any part of the run grants at most max_tokens and one refill_token per refill in it, a
  request that fails changes nothing, and the refill timer runs while the bucket is neither full nor stopped, exactly if
  every step meets `Good`.
- `Good`: level and request differ by less than 2^31 (the difference of two uint32_t is read as an int32_t), and a
  refill does not wrap.
- `wrapped_levels`: a full bucket that grants nothing, an empty one that grants 2^31 + 1 tokens, and a refill that takes
  tokens away.

The refill timer is a flag, and its expiry an operation that the environment may choose while it runs.
-/
import Mathlib.Data.BitVec
import OcuduRan.Core.Machine

namespace OcuduRan.Support

open List

/-! ## Model -/

/-- what the constructor asserts is part of the configuration -/
structure TokenBucketConfig where
  refillToken : BitVec 32
  maxTokens : BitVec 32
  refill_ne : refillToken ≠ 0
  max_ne : maxTokens ≠ 0
  refill_le : refillToken ≤ maxTokens

structure TokenBucket where
  tokensInBucket : BitVec 32
  /-- the refill timer is running -/
  refillTimer : Bool
  stopped : Bool
deriving DecidableEq, Repr

namespace TokenBucket

def init (cfg : TokenBucketConfig) : TokenBucket := ⟨cfg.maxTokens, true, false⟩

def consume (b : TokenBucket) (tokens : BitVec 32) : TokenBucket × Bool :=
  if b.stopped then (b, false)
  else
    let tokensLeft := b.tokensInBucket - tokens
    -- an int32_t
    if tokensLeft.toInt < 0 then (b, false)
    else ({ b with tokensInBucket := tokensLeft, refillTimer := true }, true)

def refill (cfg : TokenBucketConfig) (b : TokenBucket) : TokenBucket :=
  if b.stopped then b
  else
    let tokensAdded := b.tokensInBucket + cfg.refillToken
    let tokens := if tokensAdded < cfg.maxTokens then tokensAdded else cfg.maxTokens
    { b with tokensInBucket := tokens, refillTimer := tokens ≠ cfg.maxTokens }

def stop (b : TokenBucket) : TokenBucket := if b.stopped then b else { b with refillTimer := false, stopped := true }

end TokenBucket

inductive BucketOp
  | consume (tokens : BitVec 32)
  | refillExpiry
  | stop
deriving DecidableEq, Repr

/-! ## The ideal bucket -/

/-- a request with its answer, or a refill -/
inductive BucketEvent
  | request (tokens : ℕ) (granted : Bool)
  | refill
deriving DecidableEq, Repr

section Ideal

variable {cap add : ℕ}

/-- the level after an event -/
def idealNext (cap add level : ℕ) : BucketEvent → ℕ
  | .request tokens _ => if tokens ≤ level then level - tokens else level
  | .refill => min cap (level + add)

/-- the level after `events`, from `level` on -/
def idealLevel (cap add : ℕ) (level : ℕ) (events : List BucketEvent) : ℕ := events.foldl (idealNext cap add) level

/-- requests are granted exactly if the ideal bucket holds as many tokens -/
def Answered (cap add : ℕ) : ℕ → List BucketEvent → Prop
  | _, [] => True
  | level, e :: events =>
    (match e with
      | .request tokens granted => (granted = true ↔ tokens ≤ level)
      | .refill => True) ∧ Answered cap add (idealNext cap add level e) events

def BucketEvent.grantedTokens : BucketEvent → ℕ
  | .request tokens granted => if granted then tokens else 0
  | .refill => 0

def grantedIn (events : List BucketEvent) : ℕ := (events.map BucketEvent.grantedTokens).sum

def refillsIn (events : List BucketEvent) : ℕ := events.count .refill

theorem idealNext_le {level : ℕ} (h : level ≤ cap) (e : BucketEvent) : idealNext cap add level e ≤ cap := by
  cases e with
  | request tokens granted =>
    simp only [idealNext]
    split_ifs <;> omega
  | refill => exact min_le_left _ _

theorem idealLevel_le {level : ℕ} (h : level ≤ cap) (events : List BucketEvent) :
    idealLevel cap add level events ≤ cap := by
  induction events generalizing level with
  | nil => exact h
  | cons e events ih => exact ih (idealNext_le h e)

theorem answered_append (level : ℕ) (a b : List BucketEvent) :
    Answered cap add level (a ++ b) ↔ Answered cap add level a ∧ Answered cap add (idealLevel cap add level a) b := by
  induction a generalizing level with
  | nil => simp [Answered, idealLevel]
  | cons e a ih =>
    simp only [cons_append, Answered, ih, and_assoc]
    rfl

/-- what is granted comes out of the bucket -/
theorem Answered.granted_le {level : ℕ} {events : List BucketEvent} (h : Answered cap add level events) :
    grantedIn events + idealLevel cap add level events ≤ level + refillsIn events * add := by
  induction events generalizing level with
  | nil => simp [grantedIn, refillsIn, idealLevel]
  | cons e events ih =>
    have hrest := ih h.2
    simp only [idealLevel, foldl_cons] at hrest ⊢
    cases e with
    | request tokens granted =>
      have hgranted : granted = true ↔ tokens ≤ level := h.1
      have hnext : BucketEvent.grantedTokens (.request tokens granted) + idealNext cap add level
        (.request tokens granted) =
          level := by
        by_cases hle : tokens ≤ level
        · simp [BucketEvent.grantedTokens, idealNext, hgranted.2 hle, hle]
        · simp [BucketEvent.grantedTokens, idealNext, mt hgranted.1 hle, hle]
      simp only [grantedIn, map_cons, sum_cons, refillsIn, count_cons] at hrest ⊢
      simp
      omega
    | refill =>
      have hnext : idealNext cap add level .refill ≤ level + add := min_le_right _ _
      simp only [grantedIn, map_cons, sum_cons, refillsIn, count_cons, BucketEvent.grantedTokens] at hrest ⊢
      simp [Nat.add_mul]
      omega

/-- any part of a run grants at most a full bucket and its refills -/
theorem Answered.rate {before part after : List BucketEvent} (h : Answered cap add cap (before ++ (part ++ after))) :
    grantedIn part ≤ cap + refillsIn part * add := by
  have hpart := ((answered_append _ part after).1 ((answered_append cap before _).1 h).2).1
  have hsum := hpart.granted_le
  have hlevel : idealLevel cap add cap before ≤ cap := idealLevel_le le_rfl before
  omega

end Ideal

/-! ## Runs -/

namespace TokenBucket

/-- a bucket with what has happened to it; once it is stopped nothing does -/
structure Traced where
  bucket : TokenBucket
  events : List BucketEvent
deriving DecidableEq, Repr

def step (cfg : TokenBucketConfig) (t : Traced) : BucketOp → Traced
  | .consume tokens =>
    let out := t.bucket.consume tokens
    ⟨out.1, if t.bucket.stopped then t.events else t.events ++ [.request tokens.toNat out.2]⟩
  | .refillExpiry =>
    if t.bucket.refillTimer then
      ⟨{ t.bucket with refillTimer := false }.refill cfg, if t.bucket.stopped then t.events else t.events ++ [.refill]⟩
    else t
  | .stop => { t with bucket := t.bucket.stop }

structure Exact (cfg : TokenBucketConfig) (t : Traced) : Prop where
  answered : Answered cfg.maxTokens.toNat cfg.refillToken.toNat cfg.maxTokens.toNat t.events
  level : t.bucket.tokensInBucket.toNat =
    idealLevel cfg.maxTokens.toNat cfg.refillToken.toNat cfg.maxTokens.toNat t.events
  rate : ∀ before part after, t.events = before ++ (part ++ after) →
    grantedIn part ≤ cfg.maxTokens.toNat + refillsIn part * cfg.refillToken.toNat
  unchanged : ∀ tokens, (t.bucket.consume tokens).2 = false → (t.bucket.consume tokens).1 = t.bucket
  timer : t.bucket.tokensInBucket ≠ cfg.maxTokens → t.bucket.stopped = false → t.bucket.refillTimer = true

/-- neither the difference nor the sum wraps -/
def Good (cfg : TokenBucketConfig) (t : Traced) : BucketOp → Prop
  | .consume tokens => t.bucket.stopped = false →
      -2 ^ 31 ≤ (t.bucket.tokensInBucket.toNat : ℤ) - tokens.toNat ∧
        (t.bucket.tokensInBucket.toNat : ℤ) - tokens.toNat < 2 ^ 31
  | .refillExpiry => t.bucket.stopped = false → t.bucket.refillTimer = true →
      t.bucket.tokensInBucket.toNat + cfg.refillToken.toNat < 2 ^ 32
  | .stop => True

variable {cfg : TokenBucketConfig} {t : Traced} {b : TokenBucket}

theorem consume_unchanged (b : TokenBucket) (tokens : BitVec 32) (h : (b.consume tokens).2 = false) :
    (b.consume tokens).1 = b := by
  unfold consume at h ⊢
  dsimp only at h ⊢
  split_ifs at h ⊢
  · rfl
  · rfl

theorem Exact.of (hanswered : Answered cfg.maxTokens.toNat cfg.refillToken.toNat cfg.maxTokens.toNat t.events)
    (hlevel : t.bucket.tokensInBucket.toNat =
      idealLevel cfg.maxTokens.toNat cfg.refillToken.toNat cfg.maxTokens.toNat t.events)
    (htimer : t.bucket.tokensInBucket ≠ cfg.maxTokens → t.bucket.stopped = false → t.bucket.refillTimer = true) :
    Exact cfg t := by
  refine ⟨hanswered, hlevel, fun before part after heq => ?_, consume_unchanged t.bucket, htimer⟩
  rw [heq] at hanswered
  exact hanswered.rate

/-- the signed difference is the difference exactly if it is in range, and has the right sign exactly then -/
theorem toInt_sub_neg_iff (x y : BitVec 32) : ((x - y).toInt < 0 ↔ x.toNat < y.toNat) ↔
      -2 ^ 31 ≤ (x.toNat : ℤ) - y.toNat ∧ (x.toNat : ℤ) - y.toNat < 2 ^ 31 := by
  rw [BitVec.toInt_eq_toNat_cond, BitVec.toNat_sub]
  split_ifs <;> omega

theorem init_exact (cfg : TokenBucketConfig) : Exact cfg ⟨init cfg, []⟩ :=
  Exact.of trivial rfl fun h => absurd rfl h

/-- one more event, with the level of the bucket as that of the ideal one -/
theorem Exact.answered_iff (h : Exact cfg t) (e : BucketEvent) :
    Answered cfg.maxTokens.toNat cfg.refillToken.toNat cfg.maxTokens.toNat (t.events ++ [e]) ↔
      Answered cfg.maxTokens.toNat cfg.refillToken.toNat t.bucket.tokensInBucket.toNat [e] := by
  rw [answered_append, ← h.level]
  exact and_iff_right h.answered

theorem Exact.idealLevel_append (h : Exact cfg t) (e : BucketEvent) :
    idealLevel cfg.maxTokens.toNat cfg.refillToken.toNat cfg.maxTokens.toNat (t.events ++ [e]) =
      idealNext cfg.maxTokens.toNat cfg.refillToken.toNat t.bucket.tokensInBucket.toNat e := by
  rw [h.level, idealLevel, foldl_append]
  rfl

theorem consume_exact (tokens : BitVec 32) (h : Exact cfg t) :
    Good cfg t (.consume tokens) ↔ Exact cfg (step cfg t (.consume tokens)) := by
  cases hstopped : t.bucket.stopped with
  | true =>
    have hsame : step cfg t (.consume tokens) = t := by simp [step, consume, hstopped]
    rw [hsame]
    exact iff_of_true (by simp [Good, hstopped]) h
  | false =>
    have hgood : Good cfg t (.consume tokens) ↔
        ((t.bucket.tokensInBucket - tokens).toInt < 0 ↔ t.bucket.tokensInBucket.toNat < tokens.toNat) := by
      rw [toInt_sub_neg_iff]
      simp [Good, hstopped]
    rw [hgood]
    by_cases hneg : (t.bucket.tokensInBucket - tokens).toInt < 0
    · -- refused
      have hstep : step cfg t (.consume tokens) = ⟨t.bucket, t.events ++ [.request tokens.toNat false]⟩ := by
        simp only [step, consume, hstopped, hneg, Bool.false_eq_true, if_false, if_true]
      rw [hstep, iff_true_left hneg]
      constructor
      · intro hlt
        refine Exact.of ((h.answered_iff _).2 (by simpa [Answered] using hlt)) ?_ h.timer
        rw [h.idealLevel_append, idealNext, if_neg (Nat.not_le_of_lt hlt)]
      · intro h'
        simpa [Answered] using (h.answered_iff _).1 h'.answered
    · -- granted
      have hstep : step cfg t (.consume tokens) =
          ⟨{ t.bucket with tokensInBucket := t.bucket.tokensInBucket - tokens, refillTimer := true },
            t.events ++ [.request tokens.toNat true]⟩ := by
        simp only [step, consume, hstopped, hneg, Bool.false_eq_true, if_false]
      rw [hstep, iff_false_left hneg, Nat.not_lt]
      constructor
      · intro hle
        refine Exact.of ((h.answered_iff _).2 (by simpa [Answered] using hle)) ?_ fun _ _ => rfl
        rw [h.idealLevel_append, idealNext, if_pos hle]
        exact BitVec.toNat_sub_of_le (BitVec.le_def.2 hle)
      · intro h'
        simpa [Answered] using (h.answered_iff _).1 h'.answered

theorem refill_exact (h : Exact cfg t) : Good cfg t .refillExpiry ↔ Exact cfg (step cfg t .refillExpiry) := by
  by_cases hrunning : t.bucket.refillTimer = true
  swap
  · have hsame : step cfg t .refillExpiry = t := if_neg hrunning
    rw [hsame]
    exact iff_of_true (fun _ hrun => absurd hrun hrunning) h
  cases hstopped : t.bucket.stopped with
  | true =>
    have hsame : step cfg t .refillExpiry = ⟨{ t.bucket with refillTimer := false }, t.events⟩ := by
      simp [step, refill, hrunning, hstopped]
    rw [hsame]
    exact iff_of_true (by simp [Good, hstopped]) (Exact.of h.answered h.level fun _ hgo => by simp [hstopped] at hgo)
  | false =>
    have hstep : step cfg t .refillExpiry = ⟨{ t.bucket with refillTimer := false }.refill cfg, t.events ++
      [.refill]⟩ := by
      simp [step, hrunning, hstopped]
    have hgood : Good cfg t .refillExpiry ↔ t.bucket.tokensInBucket.toNat + cfg.refillToken.toNat < 2 ^ 32 := by
      simp [Good, hstopped, hrunning]
    have hrefill : cfg.refillToken.toNat ≤ cfg.maxTokens.toNat := BitVec.le_def.1 cfg.refill_le
    have htokens : ({ t.bucket with refillTimer := false }.refill cfg).tokensInBucket.toNat =
        min ((t.bucket.tokensInBucket.toNat + cfg.refillToken.toNat) % 2 ^ 32) cfg.maxTokens.toNat := by
      simp only [refill, hstopped, Bool.false_eq_true, if_false]
      split_ifs with hlt
      · rw [BitVec.lt_def, BitVec.toNat_add] at hlt
        rw [BitVec.toNat_add, min_eq_left hlt.le]
      · rw [BitVec.lt_def, BitVec.toNat_add] at hlt
        rw [min_eq_right (Nat.le_of_not_lt hlt)]
    have hideal := h.idealLevel_append .refill
    simp only [idealNext] at hideal
    rw [hstep, hgood]
    constructor
    · intro hsum
      refine Exact.of ((h.answered_iff _).2 (by simp [Answered])) ?_ ?_
      · rw [hideal, htokens]
        omega
      · simp [refill, hstopped]
    · intro h'
      have hlevel := h'.level
      rw [hideal, htokens] at hlevel
      omega

theorem stop_exact (h : Exact cfg t) : Exact cfg (step cfg t .stop) := by
  refine Exact.of h.answered ?_ ?_
  · simpa [step, stop, apply_ite] using h.level
  · simp only [step, stop]
    split_ifs with hstopped
    · exact h.timer
    · simp

/-- in every run the bucket is exact in every state on the way exactly if no step wraps -/
theorem tokenBucket_iff (cfg : TokenBucketConfig) (ops : List BucketOp) :
    (∀ n, Exact cfg (Machine.run (step cfg) ⟨init cfg, []⟩ (ops.take n))) ↔
      Machine.Always (step cfg) (Good cfg) ⟨init cfg, []⟩ ops := by
  refine (Machine.always_iff_prefixes (fun t op h => ?_) _ ops (init_exact cfg)).symm
  cases op with
  | consume tokens => exact consume_exact tokens h
  | refillExpiry => exact refill_exact h
  | stop => exact iff_of_true trivial (stop_exact h)

/-- a full bucket of 2^32 - 1 tokens refuses one, an empty one grants 2^31 + 1, and a refill takes a token away -/
theorem wrapped_levels :
    (let cfg : TokenBucketConfig := ⟨1, 2 ^ 32 - 1, by decide, by decide, by decide⟩;
      (Machine.run (step cfg) ⟨init cfg, []⟩ [.consume 1]).events = [.request 1 false]) ∧
    (let cfg : TokenBucketConfig := ⟨1, 1, by decide, by decide, by decide⟩;
      (Machine.run (step cfg) ⟨init cfg, []⟩ [.consume 1, .consume (2 ^ 31 + 1)]).events =
        [.request 1 true, .request (2 ^ 31 + 1) true]) ∧
    (let cfg : TokenBucketConfig := ⟨2 ^ 32 - 1, 2 ^ 32 - 1, by decide, by decide, by decide⟩;
      (Machine.run (step cfg) ⟨init cfg, []⟩ [.consume (2 ^ 31)]).bucket.tokensInBucket = 2 ^ 31 - 1 ∧
      (Machine.run (step cfg) ⟨init cfg, []⟩ [.consume (2 ^ 31), .refillExpiry]).bucket.tokensInBucket =
        2 ^ 31 - 2) := by
  decide

end TokenBucket

end OcuduRan.Support
