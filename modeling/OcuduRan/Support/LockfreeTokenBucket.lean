/-
The lock-free token bucket (lib/support/rate_limiting/lockfree_token_bucket.cpp): any number of threads that consume
tokens by a compare-and-swap loop on one word, the time at which the bucket was last empty.

- `rate_bounded`: for a rate that divides 10^9, in every run in which every call is `Good`, the tokens granted to calls
  with readings in an interval of T ns are at most capacity + ⌈T * rate / 10^9⌉; a request for at most the capacity is
  refused only if tokens have been granted to a call with a reading less than capacity / rate seconds before its own, or
  later; and an attempt with the current word in hand answers its call.
- `Good`: the call reads the clock when the bucket has had the time to fill once, and asks for some tokens.
- `clamp_wraps`: in a new bucket a token is refused, and the whole capacity is granted as often as it is asked for,
  since the time that the word is clamped to is unsigned.

Readings are those of the timer manager, in no particular order: one call may read the clock long before it loads the
word.
-/
import Mathlib.Algebra.Order.Floor.Div
import OcuduRan.Core.Machine

namespace OcuduRan.Support

open Machine Nat

/-! ## Model -/

structure LockfreeConfig where
  rate : BitVec 64
  capacity : BitVec 64
  rate_pos : 0 < rate.toNat
  rate_le : rate.toNat ≤ 10 ^ 9
  fill_lt : 10 ^ 9 / rate.toNat * capacity.toNat < 2 ^ 63

namespace LockfreeConfig

variable (cfg : LockfreeConfig)

/-- in nanoseconds, rounded down -/
def timePerToken : BitVec 64 := 1000000000 / cfg.rate

def timeToFillFromEmpty : BitVec 64 := cfg.timePerToken * cfg.capacity

def timeNeeded (tokens : BitVec 32) : BitVec 64 := cfg.timePerToken * tokens.setWidth 64

end LockfreeConfig

/-- the timer manager counts milliseconds in an unsigned -/
def getNow (ticks : BitVec 32) : BitVec 64 := ticks.setWidth 64 * 1000000

/-- what a thread is doing in `consume`: it has read the clock, and then also the word -/
inductive ConsumeCall
  | idle
  | started (tokens : BitVec 32) (now : BitVec 64)
  | loaded (tokens : BitVec 32) (now oldTime : BitVec 64)
deriving DecidableEq, Repr

/-- an answered call -/
structure Answer where
  tokens : BitVec 32
  now : BitVec 64
  granted : Bool
deriving DecidableEq, Repr

structure LockfreeTokenBucket where
  emptyTime : BitVec 64 := 0
  calls : ℕ → ConsumeCall := fun _ => .idle
  /-- the answers given, in order -/
  answers : List Answer := []

/-- the atomic operations of a call -/
inductive ConsumeOp
  | start (thread : ℕ) (tokens : BitVec 32) (ticks : BitVec 32)
  | load (thread : ℕ)
  /-- one round of the loop; a weak compare_exchange may fail for no reason -/
  | attempt (thread : ℕ) (spurious : Bool)
deriving DecidableEq, Repr

section

variable (cfg : LockfreeConfig)

/-- the time to which a call would move the word -/
def LockfreeConfig.newTime (tokens : BitVec 32) (now oldTime : BitVec 64) : BitVec 64 :=
  let minTime := now - cfg.timeToFillFromEmpty;
  (if minTime > oldTime then minTime else oldTime) + cfg.timeNeeded tokens

namespace LockfreeTokenBucket

def setCall (s : LockfreeTokenBucket) (thread : ℕ) (call : ConsumeCall) : LockfreeTokenBucket :=
  { s with calls := Function.update s.calls thread call }

def answer (s : LockfreeTokenBucket) (thread : ℕ) (a : Answer) : LockfreeTokenBucket :=
  { s.setCall thread .idle with answers := s.answers ++ [a] }

def attempt (cfg : LockfreeConfig) (s : LockfreeTokenBucket) (thread : ℕ) (spurious : Bool) (tokens : BitVec 32)
    (now oldTime : BitVec 64) : LockfreeTokenBucket :=
  let newTime := cfg.newTime tokens now oldTime;
  if newTime > now then s.answer thread ⟨tokens, now, false⟩
  else if s.emptyTime = oldTime ∧ spurious = false then
    { s.answer thread ⟨tokens, now, true⟩ with emptyTime := newTime }
  else s.setCall thread (.loaded tokens now s.emptyTime)

def step (cfg : LockfreeConfig) (s : LockfreeTokenBucket) : ConsumeOp → LockfreeTokenBucket
  | .start thread tokens ticks =>
    if s.calls thread = .idle then s.setCall thread (.started tokens (getNow ticks)) else s
  | .load thread =>
    match s.calls thread with
    | .started tokens now => s.setCall thread (.loaded tokens now s.emptyTime)
    | _ => s
  | .attempt thread spurious =>
    match s.calls thread with
    | .loaded tokens now oldTime => s.attempt cfg thread spurious tokens now oldTime
    | _ => s

end LockfreeTokenBucket

/-! ## What a bucket is for -/

/-- the tokens granted to calls with readings from `a` to `b` -/
def grantedBetween (a b : ℕ) (answers : List Answer) : ℕ :=
  (answers.map fun x => if x.granted ∧ a ≤ x.now.toNat ∧ x.now.toNat ≤ b then x.tokens.toNat else 0).sum

/-- some tokens have been granted less than capacity / rate seconds before the reading `now`, or later -/
def GrantedLately (now : ℕ) (answers : List Answer) : Prop :=
  ∃ x ∈ answers, x.granted ∧ 0 < x.tokens.toNat ∧
    now * cfg.rate.toNat < x.now.toNat * cfg.rate.toNat + cfg.capacity.toNat * 10 ^ 9

/-- the call starts when the bucket has had the time to fill once, and asks for some tokens -/
def Good : ConsumeOp → Prop
  | .start _ tokens ticks => cfg.timeToFillFromEmpty ≤ getNow ticks ∧ tokens ≠ 0
  | _ => True

/-! ## Times as natural numbers -/

namespace LockfreeConfig

variable (cfg : LockfreeConfig)

theorem timePerToken_toNat : cfg.timePerToken.toNat = 10 ^ 9 / cfg.rate.toNat := by
  simp [timePerToken]

theorem timePerToken_le : cfg.timePerToken.toNat ≤ 10 ^ 9 := by
  rw [timePerToken_toNat]
  exact div_le_self _ _

theorem timeToFill_toNat : cfg.timeToFillFromEmpty.toNat = cfg.timePerToken.toNat * cfg.capacity.toNat := by
  have hlt := cfg.fill_lt
  rw [← timePerToken_toNat] at hlt
  rw [timeToFillFromEmpty, BitVec.toNat_mul, mod_eq_of_lt (by omega)]

theorem timeNeeded_lt (tokens : BitVec 32) : cfg.timePerToken.toNat * tokens.toNat < 2 ^ 62 :=
  calc cfg.timePerToken.toNat * tokens.toNat
      ≤ 10 ^ 9 * 2 ^ 32 := Nat.mul_le_mul cfg.timePerToken_le tokens.isLt.le
    _ < 2 ^ 62 := by norm_num

theorem timeNeeded_toNat (tokens : BitVec 32) :
    (cfg.timeNeeded tokens).toNat = cfg.timePerToken.toNat * tokens.toNat := by
  have hlt := cfg.timeNeeded_lt tokens
  rw [timeNeeded, BitVec.toNat_mul, BitVec.toNat_setWidth_of_le (by norm_num), mod_eq_of_lt (by omega)]

end LockfreeConfig

theorem getNow_lt (ticks : BitVec 32) : (getNow ticks).toNat < 2 ^ 62 := by
  rw [getNow, BitVec.toNat_mul, BitVec.toNat_setWidth]
  refine lt_of_le_of_lt (mod_le _ _) ?_
  rw [mod_eq_of_lt (by omega)]
  simp
  omega

namespace LockfreeConfig

variable (cfg : LockfreeConfig)

/-- a call that does not come too early clamps the word to the capacity, and nothing wraps -/
theorem newTime_toNat {tokens : BitVec 32} {now oldTime : BitVec 64} (hold : oldTime.toNat < 2 ^ 62)
    (hnow : now.toNat < 2 ^ 62) (hfill : cfg.timeToFillFromEmpty ≤ now) : (cfg.newTime tokens now oldTime).toNat =
      max (now.toNat - cfg.timeToFillFromEmpty.toNat) oldTime.toNat + cfg.timePerToken.toNat * tokens.toNat := by
  have hlt := cfg.timeNeeded_lt tokens
  have hmin : (now - cfg.timeToFillFromEmpty).toNat = now.toNat - cfg.timeToFillFromEmpty.toNat :=
    BitVec.toNat_sub_of_le hfill
  have hmax : (if now - cfg.timeToFillFromEmpty > oldTime then now - cfg.timeToFillFromEmpty else oldTime).toNat =
      max (now.toNat - cfg.timeToFillFromEmpty.toNat) oldTime.toNat := by
    split_ifs with h <;> simp only [gt_iff_lt, BitVec.lt_def, hmin] at h ⊢ <;> omega
  rw [newTime, BitVec.toNat_add, hmax, timeNeeded_toNat, mod_eq_of_lt (by omega)]

/-- for a rate that divides 10^9 the fill time is capacity / rate seconds -/
theorem timeToFill_mul_rate (h : cfg.rate.toNat ∣ 10 ^ 9) :
    cfg.timeToFillFromEmpty.toNat * cfg.rate.toNat = cfg.capacity.toNat * 10 ^ 9 := by
  rw [timeToFill_toNat, timePerToken_toNat, mul_right_comm, Nat.div_mul_cancel h, mul_comm]

end LockfreeConfig

/-! ## The invariant -/

/-- what holds of a call that is `Good` -/
structure Timely (cfg : LockfreeConfig) (tokens : BitVec 32) (now : BitVec 64) : Prop where
  now_lt : now.toNat < 2 ^ 62
  fill_le : cfg.timeToFillFromEmpty ≤ now
  tokens_pos : 0 < tokens.toNat

/-- a value of the word: the initial one, or one that a grant has left, which is not later than its reading -/
structure Written (answers : List Answer) (time : BitVec 64) : Prop where
  time_lt : time.toNat < 2 ^ 62
  origin : time.toNat = 0 ∨ ∃ x ∈ answers, x.granted ∧ 0 < x.tokens.toNat ∧ time.toNat ≤ x.now.toNat

def CallOk (answers : List Answer) : ConsumeCall → Prop
  | .idle => True
  | .started tokens now => Timely cfg tokens now
  | .loaded tokens now oldTime => Timely cfg tokens now ∧ Written answers oldTime

/-- the tokens of an interval fit between the fill time before its start and a time the word has passed, not after its
end -/
def Windowed (emptyTime : ℕ) (answers : List Answer) : Prop :=
  ∀ a b, grantedBetween a b answers = 0 ∨ ∃ e ≤ emptyTime, e ≤ b ∧
    a + cfg.timePerToken.toNat * grantedBetween a b answers ≤ e + cfg.timeToFillFromEmpty.toNat

/-- every refusal of a request for at most the capacity follows a late grant -/
def Justified (answers : List Answer) : Prop :=
  ∀ earlier x, earlier ++ [x] <+: answers → x.granted = false → x.tokens.toNat ≤ cfg.capacity.toNat →
    GrantedLately cfg x.now.toNat earlier

namespace LockfreeTokenBucket

structure Inv (cfg : LockfreeConfig) (s : LockfreeTokenBucket) : Prop where
  calls : ∀ thread, CallOk cfg s.answers (s.calls thread)
  written : Written s.answers s.emptyTime
  windowed : Windowed cfg s.emptyTime.toNat s.answers
  justified : Justified cfg s.answers

end LockfreeTokenBucket

end

variable {cfg : LockfreeConfig} {answers : List Answer}

theorem grantedBetween_append (a b : ℕ) (x : Answer) :
    grantedBetween a b (answers ++ [x]) = grantedBetween a b answers + grantedBetween a b [x] := by
  simp [grantedBetween]

theorem Written.append {time : BitVec 64} (h : Written answers time) (x : Answer) : Written (answers ++ [x]) time where
  time_lt := h.time_lt
  origin := h.origin.imp_right fun ⟨y, hy, hgrant⟩ => ⟨y, List.mem_append_left _ hy, hgrant⟩

theorem CallOk.append {call : ConsumeCall} (h : CallOk cfg answers call) (x : Answer) :
    CallOk cfg (answers ++ [x]) call := by
  cases call with
  | idle => trivial
  | started tokens now => exact h
  | loaded tokens now oldTime => exact ⟨h.1, h.2.append x⟩

theorem Justified.append {x : Answer} (h : Justified cfg answers)
    (hx : x.granted = false → x.tokens.toNat ≤ cfg.capacity.toNat → GrantedLately cfg x.now.toNat answers) :
    Justified cfg (answers ++ [x]) := by
  intro earlier y hy
  rcases List.prefix_concat_iff.mp hy with heq | hpre
  · obtain ⟨rfl, rfl⟩ := List.append_singleton_inj.mp heq
    exact hx
  · exact h earlier y hpre

/-- a grant moves the word past the tokens granted, and not past its reading -/
theorem Windowed.grant {tokens : BitVec 32} {now : BitVec 64} {emptyTime newTime : ℕ}
    (h : Windowed cfg emptyTime answers)
    (hnew : newTime = max (now.toNat - cfg.timeToFillFromEmpty.toNat) emptyTime + cfg.timePerToken.toNat * tokens.toNat)
    (hle : newTime ≤ now.toNat) : Windowed cfg newTime (answers ++ [⟨tokens, now, true⟩]) := by
  intro a b
  rw [grantedBetween_append]
  by_cases hin : a ≤ now.toNat ∧ now.toNat ≤ b
  · have hx : grantedBetween a b [⟨tokens, now, true⟩] = tokens.toNat := by simp [grantedBetween, hin]
    refine .inr ⟨newTime, le_refl _, hle.trans hin.2, ?_⟩
    rw [hx, mul_add]
    rcases h a b with hzero | ⟨e, he, heb, hsum⟩
    · simp only [hzero, mul_zero]
      omega
    · omega
  · have hx : grantedBetween a b [⟨tokens, now, true⟩] = 0 := by simp [grantedBetween, hin]
    rw [hx, add_zero]
    exact (h a b).imp_right fun ⟨e, he, hrest⟩ => ⟨e, by omega, hrest⟩

theorem Windowed.refuse {tokens : BitVec 32} {now : BitVec 64} {emptyTime : ℕ} (h : Windowed cfg emptyTime answers) :
    Windowed cfg emptyTime (answers ++ [⟨tokens, now, false⟩]) := by
  intro a b
  have hx : grantedBetween a b [⟨tokens, now, false⟩] = 0 := by simp [grantedBetween]
  rw [grantedBetween_append, hx, add_zero]
  exact h a b

/-- a request for at most the capacity that the word leaves no room for: the grant that wrote the word is late -/
theorem Written.grantedLately {tokens : BitVec 32} {now oldTime : BitVec 64} (hrate : cfg.rate.toNat ∣ 10 ^ 9)
    (h : Written answers oldTime) (ht : Timely cfg tokens now) (hcap : tokens.toNat ≤ cfg.capacity.toNat)
    (hlate : cfg.newTime tokens now oldTime > now) : GrantedLately cfg now.toNat answers := by
  have hneeded : cfg.timePerToken.toNat * tokens.toNat ≤ cfg.timeToFillFromEmpty.toNat := by
    rw [cfg.timeToFill_toNat]
    exact mul_le_mul_left _ hcap
  have hfill : cfg.timeToFillFromEmpty.toNat ≤ now.toNat := ht.fill_le
  have hold : now.toNat < oldTime.toNat + cfg.timeToFillFromEmpty.toNat := by
    rw [gt_iff_lt, BitVec.lt_def, cfg.newTime_toNat h.time_lt ht.now_lt ht.fill_le] at hlate
    omega
  rcases h.origin with hzero | ⟨x, hx, hgranted, hpos, hle⟩
  · omega
  · refine ⟨x, hx, hgranted, hpos, ?_⟩
    rw [← cfg.timeToFill_mul_rate hrate, ← add_mul]
    exact mul_lt_mul_of_pos_right (by omega) cfg.rate_pos

/-! ## Steps and runs -/

namespace LockfreeTokenBucket

variable {s : LockfreeTokenBucket} {thread : ℕ}

theorem Inv.setCall (h : s.Inv cfg) {call : ConsumeCall} (hcall : CallOk cfg s.answers call) :
    (s.setCall thread call).Inv cfg where
  calls := by
    intro other
    by_cases hother : other = thread
    · simpa [LockfreeTokenBucket.setCall, hother] using hcall
    · simpa [LockfreeTokenBucket.setCall, hother] using h.calls other
  written := h.written
  windowed := h.windowed
  justified := h.justified

theorem Inv.answer_calls (h : s.Inv cfg) (x : Answer) (other : ℕ) :
    CallOk cfg (s.answers ++ [x]) ((s.answer thread x).calls other) :=
  ((h.setCall (show CallOk cfg s.answers .idle from trivial)).calls other).append x

theorem Inv.attempt (hrate : cfg.rate.toNat ∣ 10 ^ 9) (h : s.Inv cfg) {tokens : BitVec 32} {now oldTime : BitVec 64}
    (spurious : Bool) (ht : Timely cfg tokens now) (hold : Written s.answers oldTime) :
    (s.attempt cfg thread spurious tokens now oldTime).Inv cfg := by
  simp only [LockfreeTokenBucket.attempt]
  split_ifs with hlate hcas
  · exact
      { calls := h.answer_calls _
        written := h.written.append _
        windowed := h.windowed.refuse
        justified := h.justified.append fun _ hcap => hold.grantedLately hrate ht hcap hlate }
  · obtain ⟨rfl, -⟩ := hcas
    have hle : (cfg.newTime tokens now s.emptyTime).toNat ≤ now.toNat := not_lt.mp hlate
    exact
      { calls := h.answer_calls _
        written :=
          { time_lt := hle.trans_lt ht.now_lt
            origin := .inr ⟨_, List.mem_append_right _ (List.mem_singleton_self _), rfl, ht.tokens_pos, hle⟩ }
        windowed := h.windowed.grant (cfg.newTime_toNat hold.time_lt ht.now_lt ht.fill_le) hle
        justified := h.justified.append (by simp) }
  · exact h.setCall ⟨ht, h.written⟩

theorem Inv.step (hrate : cfg.rate.toNat ∣ 10 ^ 9) (op : ConsumeOp) (h : s.Inv cfg) (hop : Good cfg op) :
    (s.step cfg op).Inv cfg := by
  cases op with
  | start thread tokens ticks =>
    simp only [LockfreeTokenBucket.step]
    split_ifs
    · refine h.setCall ⟨getNow_lt ticks, hop.1, pos_of_ne_zero fun hzero => hop.2 ?_⟩
      exact BitVec.eq_of_toNat_eq hzero
    · exact h
  | load thread =>
    have hcall := h.calls thread
    simp only [LockfreeTokenBucket.step]
    split
    · rename_i tokens now heq
      rw [heq] at hcall
      exact h.setCall ⟨hcall, h.written⟩
    · exact h
  | attempt thread spurious =>
    have hcall := h.calls thread
    simp only [LockfreeTokenBucket.step]
    split
    · rename_i tokens now oldTime heq
      rw [heq] at hcall
      exact h.attempt hrate spurious hcall.1 hcall.2
    · exact h

theorem Inv.run (hrate : cfg.rate.toNat ∣ 10 ^ 9) (h : s.Inv cfg) (ops : List ConsumeOp)
    (hops : ∀ op ∈ ops, Good cfg op) : (Machine.run (LockfreeTokenBucket.step cfg) s ops).Inv cfg :=
  run_inv (I := Inv cfg) (fun _ op hs hop => hs.step hrate op hop) s ops h
    (always_of_forall (Q := Good cfg) (fun _ _ hop => hop) s ops hops)

theorem inv_init : Inv cfg {} where
  calls := fun _ => trivial
  written := ⟨by simp, .inl rfl⟩
  windowed := fun _ _ => .inl rfl
  justified := by simp [Justified]

/-- an interval's tokens against the exact rate -/
theorem Inv.grantedBetween_le (hrate : cfg.rate.toNat ∣ 10 ^ 9) (h : s.Inv cfg) (a T : ℕ) :
    grantedBetween a (a + T) s.answers ≤ cfg.capacity.toNat + (T * cfg.rate.toNat) ⌈/⌉ 10 ^ 9 := by
  rcases h.windowed a (a + T) with hzero | ⟨e, -, heb, hsum⟩
  · simp [hzero]
  · have htime : cfg.timePerToken.toNat * grantedBetween a (a + T) s.answers ≤ T + cfg.timeToFillFromEmpty.toNat := by
      omega
    have hper : cfg.timePerToken.toNat * cfg.rate.toNat = 10 ^ 9 := by
      rw [cfg.timePerToken_toNat, Nat.div_mul_cancel hrate]
    have hceil : T * cfg.rate.toNat ≤ 10 ^ 9 * ((T * cfg.rate.toNat) ⌈/⌉ 10 ^ 9) :=
      le_smul_ceilDiv (show 0 < 10 ^ 9 by norm_num)
    have htotal : 10 ^ 9 * grantedBetween a (a + T) s.answers ≤
        10 ^ 9 * (cfg.capacity.toNat + (T * cfg.rate.toNat) ⌈/⌉ 10 ^ 9) :=
      calc 10 ^ 9 * grantedBetween a (a + T) s.answers
          = cfg.timePerToken.toNat * grantedBetween a (a + T) s.answers * cfg.rate.toNat := by
            rw [mul_right_comm, hper]
        _ ≤ (T + cfg.timeToFillFromEmpty.toNat) * cfg.rate.toNat := mul_le_mul_right _ htime
        _ = T * cfg.rate.toNat + cfg.capacity.toNat * 10 ^ 9 := by rw [add_mul, cfg.timeToFill_mul_rate hrate]
        _ ≤ 10 ^ 9 * (cfg.capacity.toNat + (T * cfg.rate.toNat) ⌈/⌉ 10 ^ 9) := by
            rw [mul_add, mul_comm cfg.capacity.toNat, add_comm]
            exact Nat.add_le_add_left hceil _
    exact le_of_mul_le_mul_left htotal (by norm_num)

theorem rate_bounded (cfg : LockfreeConfig) (hrate : cfg.rate.toNat ∣ 10 ^ 9) (ops : List ConsumeOp)
    (hops : ∀ op ∈ ops, Good cfg op) :
    let s := run (step cfg) {} ops
    (∀ a T, grantedBetween a (a + T) s.answers ≤ cfg.capacity.toNat + (T * cfg.rate.toNat) ⌈/⌉ 10 ^ 9) ∧
      (∀ earlier x, earlier ++ [x] <+: s.answers → x.granted = false → x.tokens.toNat ≤ cfg.capacity.toNat →
        GrantedLately cfg x.now.toNat earlier) ∧
      (∀ thread tokens now, s.calls thread = .loaded tokens now s.emptyTime →
        ∃ granted, (s.step cfg (.attempt thread false)).answers = s.answers ++ [⟨tokens, now, granted⟩]) := by
  intro s
  have h : s.Inv cfg := inv_init.run hrate ops hops
  refine ⟨h.grantedBetween_le hrate, h.justified, ?_⟩
  intro thread tokens now hcall
  simp only [step, hcall, attempt, true_and]
  split_ifs
  · exact ⟨false, rfl⟩
  · exact ⟨true, rfl⟩

/-- a whole call of `consume` that nothing interrupts -/
def consumeOps (thread : ℕ) (tokens ticks : BitVec 32) : List ConsumeOp :=
  [.start thread tokens ticks, .load thread, .attempt thread false]

/-- 20 million tokens a second, 24000 tokens of capacity: 1.2 ms to fill -/
def testConfig : LockfreeConfig := ⟨20000000, 24000, by decide, by decide, by decide⟩

/-- the bucket of the unit test from the second millisecond on, with a call that is overtaken by another one -/
theorem rate_bounded_two_threads :
    let ops : List ConsumeOp := [.start 0 10000 2, .load 0] ++ consumeOps 1 20000 3 ++
    [.attempt 0 true, .attempt 0 false]
    (∀ op ∈ ops, Good testConfig op) ∧
      ((run (step testConfig) {} ops).answers.map (·.granted) = [true, false]) ∧
      ∀ a T, grantedBetween a (a + T) (run (step testConfig) {} ops).answers ≤ 24000 + (T * 20000000) ⌈/⌉ 10 ^ 9 := by
  intro ops
  have hgood : ∀ op ∈ ops, Good testConfig op := by simp [ops, consumeOps, Good]; decide
  exact ⟨hgood, by decide, (rate_bounded testConfig (by decide) ops hgood).1⟩

/-- a new bucket refuses one token, and grants its capacity twice at one reading -/
theorem clamp_wraps :
    ((run (step testConfig) {} (consumeOps 0 1 0)).answers = [⟨1, 0, false⟩]) ∧
      24000 < grantedBetween 0 0 (run (step testConfig) {} (consumeOps 0 24000 0 ++ consumeOps 0 24000 0)).answers := by
  decide

end LockfreeTokenBucket

end OcuduRan.Support
