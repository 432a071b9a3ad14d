/-
DL buffer occupancy updates (lib/scheduler/cell_event_manager.cpp, ue_dl_buffer_occupancy_manager).

RLC threads write the occupancy of a bearer into a table and queue the bearer's key if the entry was negative; the slot
indication pops keys, takes the entry and leaves -1. A step is one atomic operation on the table or on the queue, so a
list of steps is one interleaving of the threads. The calls for one bearer come one at a time, hence one program counter
a bearer.

- `dlBufferOccupancy_never_lost`: with occupancies that are not negative as an int, a key is queued at most once, no key
  is refused by the queue, nothing negative is forwarded, and a slot indication that ends after the last report of a
  bearer leaves the reported value as the last one forwarded. Witness `dlBufferOccupancy_one_report`.

The slot indication reads the entry into an unsigned field, so that its own test for a negative value never holds.
What keeps -1 out is the invariant: an entry that is not negative has exactly one token, which is the queued key, the
push ahead of a caller, or the key that the slot indication has popped and not yet taken (`tokens`).
-/
import OcuduRan.Core.Machine
import OcuduRan.Ran.SlotPoint

namespace OcuduRan.Sched.DlBufferOccupancy

open Ran Machine Function List

/-- MAX_NOF_DU_UES -/
abbrev maxNofDuUes : ℕ := 8192

/-- MAX_NOF_RB_LCIDS -/
abbrev maxNofRbLcids : ℕ := 33

/-- NOF_BEARER_KEYS -/
abbrev nofBearerKeys : ℕ := maxNofDuUes * maxNofRbLcids

abbrev BearerKey := Fin nofBearerKeys

structure Bearer where
  ueIndex : Fin maxNofDuUes
  lcid : Fin maxNofRbLcids
deriving DecidableEq

def getBearerKey (b : Bearer) : BearerKey :=
  ⟨b.lcid * maxNofDuUes + b.ueIndex, by
    have hue := b.ueIndex.isLt
    have hlcid := b.lcid.isLt
    simp only [nofBearerKeys, maxNofDuUes, maxNofRbLcids] at *
    omega⟩

/-- get_ue_index and get_lcid -/
def getBearer (key : BearerKey) : Bearer where
  ueIndex := ⟨key % maxNofDuUes, Nat.mod_lt _ (by decide)⟩
  lcid := ⟨key / maxNofDuUes, Nat.div_lt_of_lt_mul key.isLt⟩

theorem getBearer_eq_iff {key : BearerKey} {b : Bearer} : getBearer key = b ↔ key = getBearerKey b := by
  obtain ⟨⟨u, hu⟩, ⟨l, hl⟩⟩ := b
  simp only [getBearer, getBearerKey, Bearer.mk.injEq, Fin.ext_iff]
  simp only [maxNofDuUes] at hu ⊢
  omega

theorem getBearerKey_inj {a b : Bearer} : getBearerKey a = getBearerKey b ↔ a = b := by
  rw [← getBearer_eq_iff, getBearer_eq_iff.2 rfl]

section Model

variable {μ : Numerology}

/-- dl_buffer_state_indication_message -/
structure Indication (μ : Numerology) where
  bearer : Bearer
  bs : BitVec 32
  holToa : Option (SlotPoint μ)
deriving DecidableEq

/-- where a call of handle_dl_buffer_state_indication stands -/
inductive Caller (μ : Numerology)
  | idle
  | storing (holToa : Option (SlotPoint μ)) (firstRlcBo : Bool)
  | pushing
deriving DecidableEq

/-- where slot_indication stands -/
inductive Consumer (μ : Numerology)
  | idle
  | popping (sl : SlotPoint μ)
  | popped (sl : SlotPoint μ) (key : BearerKey)
  | loaded (sl : SlotPoint μ) (key : BearerKey) (holToa : Option (SlotPoint μ))
deriving DecidableEq

inductive Event (μ : Numerology)
  | reported (ind : Indication μ)
  /-- warning: the queue is full -/
  | discarded (b : Bearer)
  /-- warning: invalid DL buffer occupancy value -/
  | invalid (b : Bearer) (bs : BitVec 32)
  | forwarded (ind : Indication μ)
deriving DecidableEq

structure State (μ : Numerology) where
  /-- the two atomic integers of ue_dl_bo_table; the -1 of the second one is `none` -/
  bo : BearerKey → BitVec 32
  holToa : BearerKey → Option (SlotPoint μ)
  pendingEvs : List BearerKey
  callers : BearerKey → Caller μ
  consumer : Consumer μ
  events : List (Event μ)

def init : State μ where
  bo := fun _ => -1
  holToa := fun _ => some ⟨0, frame_pos μ⟩
  pendingEvs := []
  callers := fun _ => .idle
  consumer := .idle
  events := []

inductive Op (μ : Numerology)
  /-- a thread enters handle_dl_buffer_state_indication, up to the exchange of the occupancy -/
  | report (ind : Indication μ)
  /-- the next atomic operation of the call for the bearer -/
  | resume (key : BearerKey)
  | slotIndication (sl : SlotPoint μ)
  /-- the next atomic operation of slot_indication -/
  | poll

/-- std::min(sl, hol_toa) -/
def minSlot (sl holToa : SlotPoint μ) : SlotPoint μ := if holToa.lt sl then holToa else sl

section

variable (s : State μ)

def State.report (ind : Indication μ) : State μ :=
  let key := getBearerKey ind.bearer
  { s with
    bo := update s.bo key ind.bs
    callers := update s.callers key (.storing ind.holToa ((s.bo key).toInt < 0))
    events := s.events ++ [.reported ind] }

def State.resume (key : BearerKey) : State μ :=
  match s.callers key with
  | .idle => s
  | .storing holToa firstRlcBo =>
    { s with
      holToa := update s.holToa key holToa
      callers := update s.callers key (if firstRlcBo then .pushing else .idle) }
  | .pushing =>
    let s := { s with callers := update s.callers key .idle }
    -- try_push
    if s.pendingEvs.length < nofBearerKeys then { s with pendingEvs := s.pendingEvs ++ [key] }
    else { s with events := s.events ++ [.discarded (getBearer key)] }

/-- dl_bo.bs is unsigned: the comparison with zero is that of unsigned integers -/
def forwardEvent (ind : Indication μ) : Event μ :=
  if ind.bs < 0 then .invalid ind.bearer ind.bs else .forwarded ind

def State.poll : State μ :=
  match s.consumer with
  | .idle => s
  | .popping sl =>
    -- try_pop
    match s.pendingEvs with
    | [] => { s with consumer := .idle }
    | key :: keys => { s with pendingEvs := keys, consumer := .popped sl key }
  | .popped sl key => { s with consumer := .loaded sl key ((s.holToa key).map (minSlot sl)) }
  | .loaded sl key holToa =>
    { s with
      bo := update s.bo key (-1)
      consumer := .popping sl
      events := s.events ++ [forwardEvent ⟨getBearer key, s.bo key, holToa⟩] }

/-- a step that its thread cannot take leaves the state as it is -/
def step : Op μ → State μ
  | .report ind => if s.callers (getBearerKey ind.bearer) = .idle then s.report ind else s
  | .resume key => s.resume key
  | .slotIndication sl => if s.consumer = .idle then { s with consumer := .popping sl } else s
  | .poll => s.poll

/-! ## Reported and forwarded values -/

def Event.reportedBs (b : Bearer) : Event μ → Option (BitVec 32)
  | .reported ind => if ind.bearer = b then some ind.bs else none
  | _ => none

def Event.forwardedBs (b : Bearer) : Event μ → Option (BitVec 32)
  | .forwarded ind => if ind.bearer = b then some ind.bs else none
  | _ => none

/-- the value of the last report that has written the table -/
def State.lastReported (b : Bearer) : Option (BitVec 32) :=
  (s.events.filterMap (Event.reportedBs b)).getLast?

def State.lastForwarded (b : Bearer) : Option (BitVec 32) :=
  (s.events.filterMap (Event.forwardedBs b)).getLast?

/-- the reported values are not negative as an int -/
def Op.NonNegative : Op μ → Prop
  | .report ind => 0 ≤ ind.bs.toInt
  | _ => True

def Op.Reports (b : Bearer) : Op μ → Prop
  | .report ind => ind.bearer = b
  | _ => False

/-- a slot indication ends in the run: it finds the queue empty -/
def SlotCompleted (ops : List (Op μ)) : Prop :=
  ∃ before after sl, ops = before ++ .poll :: after ∧ (run step s before).consumer = .popping sl ∧
    (run step s before).pendingEvs = []

/-! ## The invariant -/

/-- the call has found a negative entry and has not pushed the key yet -/
def Caller.owesPush : Caller μ → Bool
  | .idle => false
  | .storing _ first => first
  | .pushing => true

/-- the key whose entry is to be taken -/
def Consumer.key? : Consumer μ → Option BearerKey
  | .idle => none
  | .popping _ => none
  | .popped _ key => some key
  | .loaded _ key _ => some key

def State.tokens (key : BearerKey) : ℕ :=
  s.pendingEvs.count key + (s.callers key).owesPush.toNat + if s.consumer.key? = some key then 1 else 0

structure Inv (s : State μ) : Prop where
  token : ∀ key, s.tokens key = if 0 ≤ (s.bo key).toInt then 1 else 0
  reported : ∀ b, 0 ≤ (s.bo (getBearerKey b)).toInt → s.lastReported b = some (s.bo (getBearerKey b))
  taken : ∀ b, (s.bo (getBearerKey b)).toInt < 0 → s.lastForwarded b = s.lastReported b
  accepted : ∀ b, .discarded b ∉ s.events
  nonneg : ∀ ind, .forwarded ind ∈ s.events → 0 ≤ ind.bs.toInt

theorem Inv.init : Inv (init : State μ) where
  token _ := by simp [State.tokens, DlBufferOccupancy.init, Caller.owesPush, Consumer.key?]
  reported _ h := by simp [DlBufferOccupancy.init] at h
  taken _ _ := rfl
  accepted _ := by simp [DlBufferOccupancy.init]
  nonneg _ := by simp [DlBufferOccupancy.init]

end

variable {s : State μ}

theorem Inv.tokens_le (h : Inv s) (key : BearerKey) : s.tokens key ≤ 1 := by
  rw [h.token]
  split_ifs <;> omega

theorem Inv.count_le (h : Inv s) (key : BearerKey) : s.pendingEvs.count key ≤ 1 := by
  have := h.tokens_le key
  simp only [State.tokens] at this
  omega

/-- a caller that owes a push finds room: its key and the queued ones are different keys -/
theorem Inv.room (h : Inv s) {key : BearerKey} (hpush : (s.callers key).owesPush = true) :
    s.pendingEvs.length < nofBearerKeys := by
  have htok := h.tokens_le key
  have hnodup : (key :: s.pendingEvs).Nodup := by
    refine nodup_cons.2 ⟨fun hmem => ?_, nodup_iff_count_le_one.2 h.count_le⟩
    have := count_pos_iff.2 hmem
    simp only [State.tokens, hpush, Bool.toNat_true] at htok
    omega
  have := hnodup.length_le_card
  rw [Fintype.card_fin, length_cons] at this
  omega

/-- the entry that the slot indication takes is not negative -/
theorem Inv.bo_nonneg (h : Inv s) {key : BearerKey} (hkey : s.consumer.key? = some key) : 0 ≤ (s.bo key).toInt := by
  have htok := h.token key
  by_contra hneg
  simp [State.tokens, hkey, hneg] at htok

/-! ## One step -/

theorem Inv.report (h : Inv s) {ind : Indication μ} (hbs : 0 ≤ ind.bs.toInt)
    (hidle : s.callers (getBearerKey ind.bearer) = .idle) : Inv (s.report ind) where
  token key := by
    have htok := h.token key
    by_cases hkey : key = getBearerKey ind.bearer
    · subst hkey
      by_cases hneg : (s.bo (getBearerKey ind.bearer)).toInt < 0
      · simp only [State.tokens, hidle, Caller.owesPush, hneg.not_ge, if_false] at htok
        simp only [State.tokens, State.report, update_self, Caller.owesPush, hneg, hbs, decide_true,
          Bool.toNat_true, if_true]
        omega
      · simpa [State.tokens, State.report, hidle, Caller.owesPush, hneg, not_lt.1 hneg, hbs] using htok
    · have hbo : (s.report ind).bo key = s.bo key := update_of_ne hkey _ _
      have hcall : (s.report ind).callers key = s.callers key := update_of_ne hkey _ _
      rw [State.tokens, hbo, hcall]
      exact htok
  reported b := by
    have := h.reported b
    by_cases hb : ind.bearer = b
    · simp [State.report, State.lastReported, Event.reportedBs, hb]
    · simpa [State.report, State.lastReported, Event.reportedBs, hb, update_apply, getBearerKey_inj,
        Ne.symm hb] using this
  taken b := by
    have := h.taken b
    by_cases hb : ind.bearer = b
    · subst hb
      simp [State.report, hbs.not_gt]
    · simpa [State.report, State.lastReported, State.lastForwarded, Event.reportedBs, Event.forwardedBs, hb,
        update_apply, getBearerKey_inj, Ne.symm hb] using this
  accepted b := by simpa [State.report] using h.accepted b
  nonneg m := by simpa [State.report] using h.nonneg m

theorem Inv.resume (h : Inv s) (key : BearerKey) : Inv (s.resume key) := by
  have htok := h.token
  simp only [State.tokens] at htok
  cases hcall : s.callers key with
  | idle => simpa only [State.resume, hcall] using h
  | storing holToa first =>
    simp only [State.resume, hcall]
    refine ⟨fun k => ?_, h.reported, h.taken, h.accepted, h.nonneg⟩
    rw [← htok k]
    by_cases hk : k = key
    · subst hk
      cases first <;> simp [State.tokens, hcall, Caller.owesPush]
    · simp [State.tokens, hk]
  | pushing =>
    have hroom := h.room (show (s.callers key).owesPush = true by rw [hcall]; rfl)
    simp only [State.resume, hcall, hroom, if_true]
    refine ⟨fun k => ?_, h.reported, h.taken, h.accepted, h.nonneg⟩
    rw [← htok k]
    by_cases hk : k = key
    · subst hk
      simp [State.tokens, hcall, Caller.owesPush]
    · simp [State.tokens, hk, Ne.symm hk]

theorem Inv.poll (h : Inv s) : Inv s.poll := by
  have htok := h.token
  simp only [State.tokens] at htok
  cases hcons : s.consumer with
  | idle => simpa only [State.poll, hcons] using h
  | popping sl =>
    cases hq : s.pendingEvs with
    | nil =>
      simp only [State.poll, hcons, hq]
      refine ⟨fun k => ?_, h.reported, h.taken, h.accepted, h.nonneg⟩
      rw [← htok k]
      simp [State.tokens, hcons, hq, Consumer.key?]
    | cons key keys =>
      simp only [State.poll, hcons, hq]
      refine ⟨fun k => ?_, h.reported, h.taken, h.accepted, h.nonneg⟩
      rw [← htok k]
      -- the token moves from the queue to the consumer
      simp only [State.tokens, hcons, hq, Consumer.key?, count_cons, Option.some.injEq, beq_iff_eq, reduceCtorEq,
        if_false]
      omega
  | popped sl key =>
    simp only [State.poll, hcons]
    refine ⟨fun k => ?_, h.reported, h.taken, h.accepted, h.nonneg⟩
    rw [← htok k]
    simp [State.tokens, hcons, Consumer.key?]
  | loaded sl key holToa =>
    have hbs := h.bo_nonneg (show s.consumer.key? = some key by rw [hcons]; rfl)
    have hforward : forwardEvent ⟨getBearer key, s.bo key, holToa⟩ =
        Event.forwarded ⟨getBearer key, s.bo key, holToa⟩ := if_neg (BitVec.not_lt_zero)
    simp only [State.poll, hcons, hforward]
    refine ⟨fun k => ?_, fun b hb => ?_, fun b hb => ?_, fun b => ?_, fun ind hind => ?_⟩
    · have := htok k
      by_cases hk : k = key
      · subst hk
        simp_all [State.tokens, Consumer.key?]
      · simpa [State.tokens, hcons, Consumer.key?, hk, Ne.symm hk] using this
    · by_cases hk : getBearerKey b = key
      · simp [hk] at hb
      · simp only [update_of_ne hk] at hb ⊢
        simpa [State.lastReported, Event.reportedBs] using h.reported b hb
    · by_cases hk : getBearerKey b = key
      · subst hk
        have hlast := h.reported b hbs
        simp only [State.lastReported, State.lastForwarded] at hlast ⊢
        simp [Event.reportedBs, Event.forwardedBs, getBearer_eq_iff, hlast]
      · simp only [update_of_ne hk] at hb
        simpa [State.lastReported, State.lastForwarded, Event.reportedBs, Event.forwardedBs, getBearer_eq_iff,
          Ne.symm hk] using h.taken b hb
    · simpa using h.accepted b
    · simp only [mem_append, mem_singleton, Event.forwarded.injEq] at hind
      obtain hind | rfl := hind
      · exact h.nonneg ind hind
      · exact hbs

theorem Inv.step (s : State μ) (op : Op μ) (h : Inv s) (hop : op.NonNegative) : Inv (DlBufferOccupancy.step s op) := by
  cases op with
  | report ind =>
    simp only [DlBufferOccupancy.step]
    split_ifs with hidle
    · exact h.report hop hidle
    · exact h
  | resume key => exact h.resume key
  | slotIndication sl =>
    simp only [DlBufferOccupancy.step]
    split_ifs with hidle
    · refine ⟨fun k => ?_, h.reported, h.taken, h.accepted, h.nonneg⟩
      rw [← h.token k]
      simp [State.tokens, hidle, Consumer.key?]
    · exact h
  | poll => exact h.poll

theorem Inv.run (h : Inv s) (ops : List (Op μ)) (hops : ∀ op ∈ ops, op.NonNegative) :
    Inv (Machine.run DlBufferOccupancy.step s ops) :=
  run_inv Inv.step s ops h (always_of_forall (fun _ _ hop => hop) s ops hops)

/-! ## After the last report -/

/-- what no step but a report changes: the last value, the absence of a call, and an entry that has been taken -/
structure Settled (b : Bearer) (v : BitVec 32) (taken : Prop) (s : State μ) : Prop where
  last : s.lastReported b = some v
  returned : s.callers (getBearerKey b) = .idle
  taken : taken → (s.bo (getBearerKey b)).toInt < 0

theorem Settled.step {b : Bearer} {v : BitVec 32} {t : Prop} (s : State μ) (op : Op μ) (h : Settled b v t s)
    (hop : ¬ op.Reports b) : Settled b v t (DlBufferOccupancy.step s op) := by
  obtain ⟨hlast, hret, ht⟩ := h
  cases op with
  | report ind =>
    simp only [DlBufferOccupancy.step]
    split_ifs with hidle
    · have hb : ind.bearer ≠ b := hop
      have hkey : getBearerKey b ≠ getBearerKey ind.bearer := fun heq => hb (getBearerKey_inj.1 heq).symm
      constructor
      · simpa [State.report, State.lastReported, Event.reportedBs, hb] using hlast
      · simpa [State.report, hkey] using hret
      · simpa [State.report, hkey] using ht
    · exact ⟨hlast, hret, ht⟩
  | resume key =>
    by_cases hkey : getBearerKey b = key
    · subst hkey
      simp only [DlBufferOccupancy.step, State.resume, hret]
      exact ⟨hlast, hret, ht⟩
    · simp only [DlBufferOccupancy.step, State.resume]
      split
      · exact ⟨hlast, hret, ht⟩
      · exact ⟨hlast, by simpa [hkey] using hret, ht⟩
      · split_ifs
        · exact ⟨hlast, by simpa [hkey] using hret, ht⟩
        · exact ⟨by simpa [State.lastReported, Event.reportedBs] using hlast, by simpa [hkey] using hret, ht⟩
  | slotIndication sl =>
    simp only [DlBufferOccupancy.step]
    split_ifs <;> exact ⟨hlast, hret, ht⟩
  | poll =>
    simp only [DlBufferOccupancy.step, State.poll]
    split
    · exact ⟨hlast, hret, ht⟩
    · split <;> exact ⟨hlast, hret, ht⟩
    · exact ⟨hlast, hret, ht⟩
    · refine ⟨?_, hret, fun hp => ?_⟩
      · simp only [State.lastReported, forwardEvent] at hlast ⊢
        split_ifs <;> simpa [Event.reportedBs] using hlast
      · simp only [update_apply]
        split_ifs
        · decide
        · exact ht hp

theorem Settled.run {b : Bearer} {v : BitVec 32} {t : Prop} (h : Settled b v t s) (ops : List (Op μ))
    (hops : ∀ op ∈ ops, ¬ op.Reports b) : Settled b v t (Machine.run DlBufferOccupancy.step s ops) :=
  run_inv Settled.step s ops h (always_of_forall (fun _ _ hop => hop) s ops hops)

/-- where the queue is empty and no key is popped, the last report of a bearer without a call has been taken -/
theorem Inv.taken_of_empty (h : Inv s) {b : Bearer} {sl : SlotPoint μ} (hcons : s.consumer = .popping sl)
    (hempty : s.pendingEvs = []) (hret : s.callers (getBearerKey b) = .idle) : (s.bo (getBearerKey b)).toInt < 0 := by
  have htok := h.token (getBearerKey b)
  by_contra hneg
  simp [State.tokens, hcons, hempty, hret, Consumer.key?, Caller.owesPush, not_lt.1 hneg] at htok

theorem dlBufferOccupancy_never_lost (ops : List (Op μ)) (hops : ∀ op ∈ ops, op.NonNegative) :
    (∀ key, (run step init ops).pendingEvs.count key ≤ 1) ∧ (∀ b, .discarded b ∉ (run step init ops).events) ∧
    (∀ ind, .forwarded ind ∈ (run step init ops).events → 0 ≤ ind.bs.toInt) ∧
    ∀ (later : List (Op μ)) (b : Bearer) (v : BitVec 32), (∀ op ∈ later, op.NonNegative) →
      (run step init ops).lastReported b = some v → (run step init ops).callers (getBearerKey b) = .idle →
      (∀ op ∈ later, ¬ op.Reports b) → SlotCompleted (run step init ops) later →
      (run step init (ops ++ later)).lastForwarded b = some v := by
  have hinv := Inv.init.run ops hops
  refine ⟨hinv.count_le, hinv.accepted, hinv.nonneg, ?_⟩
  rintro later b v hlater hlast hret hquiet ⟨before, after, sl, rfl, hcons, hempty⟩
  rw [run_append]
  have hset : Settled b v False (run step init ops) := ⟨hlast, hret, False.elim⟩
  have hend := (hinv.run _ hlater)
  -- the entry has been taken where the slot indication ends, and stays so
  have hmid := hset.run before fun op hop => hquiet op (mem_append_left _ hop)
  have htaken := (hinv.run before fun op hop => hlater op (mem_append_left _ hop)).taken_of_empty hcons hempty
    hmid.returned
  have hdone : Settled b v True (run step (run step init ops) (before ++ .poll :: after)) := by
    rw [run_append]
    refine Settled.run ⟨hmid.last, hmid.returned, fun _ => htaken⟩ _ fun op hop => ?_
    exact hquiet op (mem_append_right _ hop)
  rw [hend.taken b (hdone.taken trivial), hdone.last]

end Model

/-- a report made while the slot indication is running, up to the return of the call -/
def reportOps (b : Bearer) (bs : BitVec 32) : List (Op 1) :=
  [.slotIndication ⟨9, by decide⟩, .report ⟨b, bs, some ⟨7, by decide⟩⟩, .resume (getBearerKey b),
    .resume (getBearerKey b)]

theorem dlBufferOccupancy_one_report :
    (run step init (reportOps ⟨3, 4⟩ 100 ++ [.poll, .poll, .poll, .poll])).lastForwarded ⟨3, 4⟩ = some 100 :=
  (dlBufferOccupancy_never_lost (reportOps ⟨3, 4⟩ 100) (by simp [reportOps, Op.NonNegative])).2.2.2 _ ⟨3, 4⟩ 100
    (by simp [Op.NonNegative]) rfl rfl (by simp [Op.Reports]) ⟨[.poll, .poll, .poll], [], _, rfl, rfl, rfl⟩

end OcuduRan.Sched.DlBufferOccupancy
