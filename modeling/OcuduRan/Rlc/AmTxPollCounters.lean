/-
PDU_WITHOUT_POLL and BYTE_WITHOUT_POLL.

`Counted` runs the transmitter next to a count of the AMD PDUs with new data, and of their payload bytes, since the last
AMD PDU with the polling bit. A PDU with a whole SDU counts 0 bytes for BYTE_WITHOUT_POLL, as the SDU buffer has been
moved into the window before its length is taken, and the counters are those of a uint32_t. So they are those numbers,
and the limits pollPDU and pollByte are kept, in every state of a run whose SDUs have 1 to 2^16 bytes and in which a
poll is due before a whole SDU is sent and before a counter overflows (`CountsRight`); for SDUs of these sizes that is
necessary, too (`pollCounters_iff`). `uncounted_sdus` is a run in which they are not.
-/
import OcuduRan.Rlc.AmTxPoll

namespace OcuduRan.Rlc

namespace RlcTxAmEntity

variable {cfg : RlcTxAmConfig} {s s' b : RlcTxAmEntity} {grantLen : ℕ}

/-! ## Counting -/

/-- the transmitter with what it has sent since the last AMD PDU with the polling bit: the number of AMD PDUs with new
data, and their payload bytes -/
structure Counted where
  entity : RlcTxAmEntity
  pdus : ℕ
  bytes : ℕ
deriving DecidableEq, Repr

namespace Counted

variable {t : Counted} {s' : RlcTxAmEntity}

def init (cfg : RlcTxAmConfig) : Counted := ⟨RlcTxAmEntity.init cfg, 0, 0⟩

def step (cfg : RlcTxAmConfig) (t : Counted) (op : Op) : Counted :=
  let out := t.entity.stepOut cfg op
  match op with
  | .pullPdu none grantLen _ =>
    if pollBit out.2 then ⟨out.1, 0, 0⟩
    else if t.entity.retxQueue.isEmpty && !out.2.isEmpty then
      ⟨out.1, t.pdus + 1, t.bytes + t.entity.newPayload cfg grantLen⟩
    else ⟨out.1, t.pdus, t.bytes⟩
  | _ => ⟨out.1, t.pdus, t.bytes⟩

/-- the counters are exact, and fewer PDUs and bytes than the limits have been sent without a poll -/
structure Exact (cfg : RlcTxAmConfig) (t : Counted) : Prop where
  pdus : t.entity.st.pduWithoutPoll = t.pdus
  bytes : t.entity.st.byteWithoutPoll = t.bytes
  pollPdu : 0 < cfg.pollPdu → (t.pdus : ℤ) ≤ cfg.pollPdu - 1
  pollByte : 0 < cfg.pollByte → (t.bytes : ℤ) < cfg.pollByte

/-- new data that is sent without a poll is not a whole SDU and does not take a counter to 2^32 -/
def CountsPdu (cfg : RlcTxAmConfig) (s : RlcTxAmEntity) (grantLen : ℕ) : Prop :=
  s.pollDue cfg grantLen = true ∨ s.takesWholeSdu cfg grantLen = false ∧ s.st.pduWithoutPoll + 1 < 2 ^ 32 ∧
    s.st.byteWithoutPoll + s.newPayload cfg grantLen < 2 ^ 32

/-- an SDU has 1 to 2^16 bytes; new data is counted -/
def CountsRight (cfg : RlcTxAmConfig) (t : Counted) : Op → Prop
  | .pullPdu none grantLen poolOk =>
    SendsNewData t.entity (t.entity.pullPdu cfg none grantLen poolOk).2 → CountsPdu cfg t.entity grantLen
  | op => SizedOp op

theorem step_entity (op : Op) : (t.step cfg op).entity = t.entity.step cfg op := by
  unfold step RlcTxAmEntity.step
  dsimp only
  split
  · split_ifs <;> rfl
  · rfl

/-- the limits with one more PDU that does not poll -/
theorem countersReached_false {st : RlcTxAmState} {k : ℕ} (h : countersReached cfg st k = false) :
    (0 < cfg.pollPdu → (((st.pduWithoutPoll + 1) % 2 ^ 32 : ℕ) : ℤ) ≤ cfg.pollPdu - 1) ∧
      (0 < cfg.pollByte → (((st.byteWithoutPoll + k) % 2 ^ 32 : ℕ) : ℤ) < cfg.pollByte) := by
  simp only [countersReached, Bool.or_eq_false_iff, Bool.and_eq_false_iff, decide_eq_false_iff_not] at h
  constructor
  · intro hpos
    have := h.1.resolve_left (not_not_intro hpos)
    omega
  · intro hpos
    have := h.2.resolve_left (not_not_intro hpos)
    omega

/-- a pull of new data without a poll keeps the counters exact unless it sends a whole SDU or a counter overflows -/
theorem exact_of_newPdu {pdu : Bytes} (h : Exact cfg t) (hnew : NewPdu cfg t.entity grantLen s' pdu)
    (hbit : pollBit pdu = false) : CountsPdu cfg t.entity grantLen ↔
      Exact cfg ⟨s', t.pdus + 1, t.bytes + t.entity.newPayload cfg grantLen⟩ := by
  have hdue := hnew.pollBit_eq.symm.trans hbit
  obtain ⟨hpdus, hbytes, -, -⟩ := hnew.unpolled hdue
  have hreached : countersReached cfg t.entity.st (t.entity.countedPayload cfg grantLen) = false := by
    simp only [pollDue, Bool.or_eq_false_iff] at hdue
    exact hdue.1.1
  obtain ⟨hlimPdu, hlimByte⟩ := countersReached_false hreached
  rw [CountsPdu, hdue, h.pdus, h.bytes]
  rw [h.pdus] at hlimPdu hpdus
  rw [h.bytes] at hlimByte hbytes
  constructor
  · rintro (hdue | ⟨hwhole, hfew, hsmall⟩)
    · cases hdue
    have hcount : t.entity.countedPayload cfg grantLen = t.entity.newPayload cfg grantLen := by
      rw [countedPayload, hwhole, if_neg Bool.false_ne_true]
    rw [hcount, Nat.mod_eq_of_lt hsmall] at hbytes hlimByte
    rw [Nat.mod_eq_of_lt hfew] at hpdus hlimPdu
    exact ⟨hpdus, hbytes, hlimPdu, hlimByte⟩
  · rintro ⟨hpdus', hbytes', -, -⟩
    dsimp only at hpdus' hbytes'
    have hpos := hnew.newPayload_pos
    have hlt := Nat.mod_lt (t.bytes + t.entity.countedPayload cfg grantLen) (Nat.two_pow_pos 32)
    refine .inr ⟨Bool.eq_false_iff.2 fun hwhole => ?_, by omega, by omega⟩
    -- a whole SDU has been counted with 0 bytes
    rw [countedPayload, hwhole, if_pos rfl] at hbytes
    have hle := Nat.mod_le (t.bytes + 0) (2 ^ 32)
    omega

theorem exact_of_same (h : Exact cfg t) (hpdus : s'.st.pduWithoutPoll = t.entity.st.pduWithoutPoll)
    (hbytes : s'.st.byteWithoutPoll = t.entity.st.byteWithoutPoll) : Exact cfg ⟨s', t.pdus, t.bytes⟩ :=
  ⟨hpdus.trans h.pdus, hbytes.trans h.bytes, h.pollPdu, h.pollByte⟩

theorem exact_of_reset (hpdus : s'.st.pduWithoutPoll = 0) (hbytes : s'.st.byteWithoutPoll = 0) :
    Exact cfg ⟨s', 0, 0⟩ :=
  ⟨hpdus, hbytes, fun hpos => by dsimp only; omega, fun hpos => by dsimp only; omega⟩

/-- what is counted for a pull, from the PDU it returns -/
theorem pull_exact {poolOk : Bool} (hfill : Filled t.entity) (h : Exact cfg t) :
    CountsRight cfg t (.pullPdu none grantLen poolOk) ↔ Exact cfg (t.step cfg (.pullPdu none grantLen poolOk)) := by
  obtain ⟨-, hretx, hquiet⟩ := @pullPdu_filled cfg t.entity grantLen poolOk hfill
  have hnew := @pullPdu_newPdu cfg t.entity grantLen poolOk
  unfold CountsRight step stepOut SendsNewData
  dsimp only at hretx hquiet ⊢
  generalize t.entity.pullPdu cfg none grantLen poolOk = out at hretx hquiet hnew ⊢
  obtain ⟨s', pdu⟩ := out
  dsimp only at hretx hquiet hnew ⊢
  cases hempty : t.entity.retxQueue.isEmpty with
  | false =>
    refine iff_of_true (fun hsends => Bool.noConfusion hsends.1) ?_
    cases hbit : pollBit pdu with
    | true =>
      obtain ⟨hpdus, hbytes, -⟩ := (hretx hempty).polled hbit
      exact exact_of_reset hpdus hbytes
    | false =>
      have hsame := (hretx hempty).unpolled hbit
      exact exact_of_same h hsame.pdus hsame.bytes
  | true =>
    by_cases hnil : pdu = []
    · have hsame := hquiet hempty hnil
      rw [hnil]
      exact iff_of_true (fun hsends => absurd rfl hsends.2) (exact_of_same h hsame.pdus hsame.bytes)
    · have hdata := hnew hempty hnil
      cases hbit : pollBit pdu with
      | true =>
        have hdue := hdata.pollBit_eq.symm.trans hbit
        obtain ⟨hpdus, hbytes, -, -⟩ := hdata.polled hdue
        exact iff_of_true (fun _ => .inl hdue) (exact_of_reset hpdus hbytes)
      | false =>
        rw [if_neg Bool.false_ne_true, if_pos (by simpa using hnil), ← exact_of_newPdu h hdata hbit]
        simp [hnil]

/-- a step keeps the counters exact exactly if the new data it sends is counted -/
theorem step_exact (op : Op) (hfill : Filled t.entity) (hsized : SizedOp op) (h : Exact cfg t) :
    CountsRight cfg t op ↔ Exact cfg (t.step cfg op) := by
  by_cases hpull : ∃ grantLen poolOk, op = .pullPdu none grantLen poolOk
  · obtain ⟨grantLen, poolOk, rfl⟩ := hpull
    exact pull_exact hfill h
  · have hop : ∀ grantLen poolOk, op ≠ .pullPdu none grantLen poolOk :=
      fun grantLen poolOk heq => hpull ⟨grantLen, poolOk, heq⟩
    obtain ⟨hpdus, hbytes⟩ := (@step_filled cfg t.entity op hfill hsized).2 hop
    have hstep : t.step cfg op = ⟨t.entity.step cfg op, t.pdus, t.bytes⟩ := by
      unfold step
      split
      · exact absurd rfl (hop _ _)
      · rfl
    have htrue : CountsRight cfg t op := by
      unfold CountsRight
      split
      · exact absurd rfl (hop _ _)
      · exact hsized
    rw [hstep]
    exact iff_of_true htrue (exact_of_same h hpdus hbytes)

theorem CountsRight.sized {op : Op} (h : CountsRight cfg t op) : SizedOp op := by
  unfold CountsRight at h
  split at h
  · trivial
  · exact h

/-- in every run: SDUs have 1 to 2^16 bytes, the counters are exact in every state on the way, and the limits are kept,
exactly if each step counts right -/
theorem pollCounters_iff (cfg : RlcTxAmConfig) (ops : List Op) :
    Machine.Always (step cfg) (CountsRight cfg) (init cfg) ops ↔
      (∀ op ∈ ops, SizedOp op) ∧ ∀ n, Exact cfg (Machine.run (step cfg) (init cfg) (ops.take n)) := by
  have hstep : ∀ (t : Counted) op, Filled t.entity → SizedOp op → Filled (t.step cfg op).entity := by
    intro t op hfill hop
    rw [step_entity]
    exact (step_filled op hfill hop).1
  have hinit : Exact cfg (init cfg) :=
    ⟨rfl, rfl, fun hpos => by dsimp only [init]; omega, fun hpos => by dsimp only [init]; omega⟩
  have hiff (hops : ∀ op ∈ ops, SizedOp op) :=
    Machine.always_iff_prefixes_of (J := fun t => Filled t.entity) (Q := fun _ op => SizedOp op) hstep
      (fun t op hfill hsized h => step_exact op hfill hsized h) (init cfg) ops (init_filled cfg)
      (Machine.always_of_forall (fun _ _ h => h) _ ops hops) hinit
  constructor
  · intro h
    have hops : ∀ op ∈ ops, SizedOp op := Machine.forall_of_always (fun _ _ hright => hright.sized) _ ops h
    exact ⟨hops, (hiff hops).1 h⟩
  · rintro ⟨hops, h⟩
    exact (hiff hops).2 h

/-- pollPDU 3 and pollByte 5 -/
def pollCfg : RlcTxAmConfig := ⟨.size12bits, .size12bits, 45, 4, 3, 5, 8, 1000, 0, false⟩

/-- an SDU of 4 bytes in two segments, the second of which empties the queue and polls -/
def segmentedSdu : List Op :=
  [.handleSdu (pdcpPdu 0) false, .pullPdu none 5 true, .pullPdu none 100 true]

theorem pollCounters_of_segments :
    Machine.Always (step pollCfg) (CountsRight pollCfg) (init pollCfg) segmentedSdu ∧
      ∀ n, Exact pollCfg (Machine.run (step pollCfg) (init pollCfg) (segmentedSdu.take n)) := by
  have hright : Machine.Always (step pollCfg) (CountsRight pollCfg) (init pollCfg) segmentedSdu := by
    refine ⟨show SizedOp (.handleSdu (pdcpPdu 0) false) by decide, fun _ => ?_, fun _ => ?_, trivial⟩
    · exact .inr (by decide +kernel)
    · exact .inl (by decide +kernel)
  exact ⟨hright, ((pollCounters_iff pollCfg segmentedSdu).1 hright).2⟩

/-- two SDUs of 4 bytes sent whole: 8 bytes without a poll with pollByte = 5, and BYTE_WITHOUT_POLL is 0 -/
theorem uncounted_sdus :
    let t := Machine.run (step pollCfg) (init pollCfg)
      [.handleSdu (pdcpPdu 0) false, .handleSdu (pdcpPdu 1) false, .handleSdu (pdcpPdu 2) false,
        .pullPdu none 100 true, .pullPdu none 100 true]
    t.pdus = 2 ∧ t.bytes = 8 ∧ t.entity.st.pduWithoutPoll = 2 ∧ t.entity.st.byteWithoutPoll = 0 := by
  decide +kernel

end Counted

end RlcTxAmEntity

end OcuduRan.Rlc
