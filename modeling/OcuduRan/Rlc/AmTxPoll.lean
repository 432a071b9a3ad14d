/-
The polling bit of PDUs with new data.

get_polling_bit runs in the middle of a builder: the SDU has left the queue and its SN is in the window, but TX_Next has
not been advanced yet. `pollDue` is its decision, said with the queue, the window and the counters before the call and
with the grant; `NewPdu` says what a pull of new data does to the state, the poll counters, POLL_SN and the timer.

What the bit should say is read off the state after the call: nothing valid is left to be sent, or the window is full.
The two differ in two places (`LeavesOnlyDiscarded`, `ReachesMaxWindow`), and `pollBit_law_iff` says that a pull follows
the law exactly where neither of them is met, or something else asks for the poll. `unpolled_pulls` are two runs that
do not.

What changes the polling state at all is said once for each operation: `SamePolling` for those that do not,
`RetxPull` for retransmissions, `NewPdu` for new data. `Filled` is what all of them keep of the sizes.
-/
import OcuduRan.Rlc.AmTxStatus

namespace OcuduRan.Rlc

open Bits ModWindow RlcSduQueue CircularMap RlcTxAmEntity

/-- P field of a data PDU -/
def pollBit : Bytes → Bool
  | [] => false
  | b :: _ => (b.toNat >>> 6) &&& 0x01 ≠ 0

theorem pollBit_headerByte (h : RlcAmPduHeader) {upper : ℕ} (hu : upper < 16) (rest : Bytes) :
    pollBit (UInt8.ofNat (headerByte h upper) :: rest) = h.p := by
  have hfixed := congrArg RlcAmPduHeader.p (fixedHeader_headerByte h rfl hu)
  simpa [pollBit, fixedHeader] using hfixed

/-- the polling bit of a written header is that of the header -/
theorem pollBit_write (h : RlcAmPduHeader) (payload : Bytes) :
    pollBit (rlcAmWriteDataPduHeader h ++ payload) = h.p := by
  unfold rlcAmWriteDataPduHeader
  cases h.snSize with
  | size12bits =>
    refine pollBit_headerByte h ?_ _
    rw [and_0x0f]
    omega
  | size18bits =>
    refine pollBit_headerByte h ?_ _
    rw [and_0x03]
    omega

/-! ## SDU queue -/

theorem RlcSduQueue.write_bufs (q : RlcSduQueue) (sdu : RlcSdu) :
    (q.write sdu).2.bufs = q.bufs ∨ (q.write sdu).2.bufs = q.bufs ++ [sdu.buf] := by
  unfold write bufs
  split_ifs
  · exact .inl rfl
  · exact .inl rfl
  · exact .inl rfl
  · exact .inr (by simp)

/-- discarding marks an SDU and leaves it in the queue -/
theorem RlcSduQueue.tryDiscard_bufs (q : RlcSduQueue) (pdcpSn : ℕ) : (q.tryDiscard pdcpSn).2.bufs = q.bufs := by
  unfold tryDiscard bufs
  split_ifs
  · rw [List.map_map]
    refine List.map_congr_left fun e _ => ?_
    rw [Function.comp_apply]
    split_ifs <;> rfl
  · rfl

theorem discardLoop_bufs (mask count pdcpSn : ℕ) (q : RlcSduQueue) :
    (discardLoop mask count pdcpSn q).bufs = q.bufs := by
  induction count generalizing pdcpSn q with
  | zero => rfl
  | succ count ih =>
    unfold discardLoop
    rw [ih, tryDiscard_bufs]

namespace RlcTxAmEntity

variable {cfg : RlcTxAmConfig} {s s' b b' : RlcTxAmEntity} {grantLen k : ℕ}

/-! ## The decision -/

variable (cfg)

/-- PDU_WITHOUT_POLL or BYTE_WITHOUT_POLL reaches its limit with a PDU that counts `k` bytes -/
def countersReached (st : RlcTxAmState) (k : ℕ) : Bool :=
  (cfg.pollPdu > 0 && (((st.pduWithoutPoll + 1) % 2 ^ 32 : ℕ) : ℤ) ≥ cfg.pollPdu)
    || (cfg.pollByte > 0 && (((st.byteWithoutPoll + k) % 2 ^ 32 : ℕ) : ℤ) ≥ cfg.pollByte)

/-- bytes of new data in the PDU that this grant is filled with -/
def newPayload (s : RlcTxAmEntity) (grantLen : ℕ) : ℕ :=
  match s.segmented with
  | some info => min (info.sdu.length - info.nextSo) (grantLen - headMaxSize cfg)
  | none =>
    match s.sduQueue.read.1 with
    | some sdu => min sdu.buf.length (grantLen - headMinSize cfg)
    | none => 0

/-- the grant takes a whole SDU from the queue -/
def takesWholeSdu (s : RlcTxAmEntity) (grantLen : ℕ) : Bool :=
  s.segmented.isNone && s.sduQueue.read.1.any fun sdu => sdu.buf.length + headMinSize cfg ≤ grantLen

/-- the payload size get_polling_bit is called with -/
def countedPayload (s : RlcTxAmEntity) (grantLen : ℕ) : ℕ :=
  if s.takesWholeSdu cfg grantLen then 0 else s.newPayload cfg grantLen

/-- the grant takes the SDU to its end -/
def endsSdu (s : RlcTxAmEntity) (grantLen : ℕ) : Bool :=
  match s.segmented with
  | some info => info.sdu.length - info.nextSo + headMaxSize cfg ≤ grantLen
  | none => s.takesWholeSdu cfg grantLen

/-- the SDU queue without the SDU of the next PDU; SDUs that were discarded may be left in it -/
def queueLeft (s : RlcTxAmEntity) : RlcSduQueue := if s.segmented.isSome then s.sduQueue else s.sduQueue.read.2

/-- the window with the SDU of the next PDU -/
def windowWithNext (s : RlcTxAmEntity) : CircularMap RlcTxAmSduInfo :=
  if s.segmented.isSome then s.txWindow else s.txWindow.overwrite s.st.txNext {}

/-- the SN that is under segmentation behind this grant -/
def segmentedLeft (s : RlcTxAmEntity) (grantLen : ℕ) : ℕ :=
  if s.endsSdu cfg grantLen then invalidRlcSn else if s.segmented.isSome then s.snUnderSegmentation else s.st.txNext

/-- the reasons for a poll: the counters, buffers that this grant empties, or a window that is full with TX_Next in it
but before TX_Next is advanced -/
def pollDue (s : RlcTxAmEntity) (grantLen : ℕ) : Bool :=
  countersReached cfg s.st (s.countedPayload cfg grantLen)
    || (s.queueLeft.isEmpty && s.retxQueue.isEmpty && s.segmentedLeft cfg grantLen = invalidRlcSn)
    || (s.windowWithNext.full || (cfg.maxWindow ≠ 0 && s.txModBase cfg s.st.txNext > cfg.maxWindow))

variable {cfg}

/-- a pull that sends new data, from `s` to `s'` -/
structure NewPdu (cfg : RlcTxAmConfig) (s : RlcTxAmEntity) (grantLen : ℕ) (s' : RlcTxAmEntity) (pdu : Bytes) :
    Prop where
  retx : s'.retxQueue = s.retxQueue
  queue : s'.sduQueue = s.queueLeft
  seg : s'.snUnderSegmentation = s.segmentedLeft cfg grantLen
  full : s'.txWindow.full = s.windowWithNext.full
  ack : s'.st.txNextAck = s.st.txNextAck
  next : s'.st.txNext = if s.endsSdu cfg grantLen then (s.st.txNext + 1) % cfg.snFieldLength.mod else s.st.txNext
  stopped : s'.stoppedLower = s.stoppedLower
  pdu : ∃ hdr payload, pdu = rlcAmWriteDataPduHeader hdr ++ payload ∧ hdr.sn = s.st.txNext ∧
    hdr.p = s.pollDue cfg grantLen ∧ payload.length = s.newPayload cfg grantLen ∧ payload ≠ []
  polled : s.pollDue cfg grantLen = true →
    s'.st.pduWithoutPoll = 0 ∧ s'.st.byteWithoutPoll = 0 ∧ s'.st.pollSn = s.st.txNext ∧
      s'.pollRetransmitTimer = if cfg.tPollRetx > 0 && !s.stoppedLower then true else s.pollRetransmitTimer
  unpolled : s.pollDue cfg grantLen = false →
    s'.st.pduWithoutPoll = (s.st.pduWithoutPoll + 1) % 2 ^ 32 ∧
      s'.st.byteWithoutPoll = (s.st.byteWithoutPoll + s.countedPayload cfg grantLen) % 2 ^ 32 ∧
      s'.st.pollSn = s.st.pollSn ∧ s'.pollRetransmitTimer = s.pollRetransmitTimer

theorem NewPdu.pollBit_eq {pdu : Bytes} (h : NewPdu cfg s grantLen s' pdu) : pollBit pdu = s.pollDue cfg grantLen := by
  obtain ⟨hdr, payload, rfl, -, hp, -⟩ := h.pdu
  rw [pollBit_write, hp]

theorem NewPdu.newPayload_pos {pdu : Bytes} (h : NewPdu cfg s grantLen s' pdu) : 0 < s.newPayload cfg grantLen := by
  obtain ⟨hdr, payload, -, -, -, hlen, hne⟩ := h.pdu
  rw [← hlen]
  exact List.length_pos_iff.2 hne

/-! ## The builders -/

/-- a PDU is header and payload -/
theorem assemblePdu_eq_some {hdr : RlcAmPduHeader} {sdu pdu : Bytes} (h : assemblePdu hdr sdu k = some pdu) :
    ∃ payload, pdu = rlcAmWriteDataPduHeader hdr ++ payload ∧ payload.length = k ∧ 0 < k := by
  unfold assemblePdu at h
  dsimp only at h
  split_ifs at h with hlen
  rw [not_or, not_not] at hlen
  cases h
  exact ⟨_, rfl, hlen.2, by omega⟩

/-- the state in which get_polling_bit is called determines the bit -/
theorem getPollingBit_new (cfg : RlcTxAmConfig) (b : RlcTxAmEntity) (sn k : ℕ) :
    let out := b.getPollingBit cfg sn false k
    out.2 = (countersReached cfg b.st k || b.pollNeeded cfg) ∧
      out.1.stoppedLower = b.stoppedLower ∧
      (out.2 = true → out.1.st.pduWithoutPoll = 0 ∧ out.1.st.byteWithoutPoll = 0 ∧ out.1.st.pollSn = sn ∧
        out.1.pollRetransmitTimer = if cfg.tPollRetx > 0 && !b.stoppedLower then true else b.pollRetransmitTimer) ∧
      (out.2 = false → out.1.st.pduWithoutPoll = (b.st.pduWithoutPoll + 1) % 2 ^ 32 ∧
        out.1.st.byteWithoutPoll = (b.st.byteWithoutPoll + k) % 2 ^ 32 ∧ out.1.st.pollSn = b.st.pollSn ∧
        out.1.pollRetransmitTimer = b.pollRetransmitTimer) := by
  have hdue : (!false && ((cfg.pollPdu > 0 && (((b.st.pduWithoutPoll + 1) % 2 ^ 32 : ℕ) : ℤ) ≥ cfg.pollPdu)
      || (cfg.pollByte > 0 && (((b.st.byteWithoutPoll + k) % 2 ^ 32 : ℕ) : ℤ) ≥ cfg.pollByte))) =
        countersReached cfg b.st k := rfl
  unfold getPollingBit
  simp only [Bool.false_eq_true, if_false]
  rw [hdue]
  by_cases hpoll : (countersReached cfg b.st k || b.pollNeeded cfg) = true
  · rw [if_pos hpoll]
    exact ⟨hpoll.symm, rfl, fun _ => ⟨rfl, rfl, rfl, rfl⟩, fun h => Bool.noConfusion h⟩
  · rw [if_neg hpoll]
    exact ⟨(Bool.eq_false_iff.2 hpoll).symm, rfl, fun h => Bool.noConfusion h, fun _ => ⟨rfl, rfl, rfl, rfl⟩⟩

theorem full_modify (w : CircularMap RlcTxAmSduInfo) (sn : ℕ) (f : RlcTxAmSduInfo → RlcTxAmSduInfo) :
    (w.modify sn f).full = w.full := by
  unfold full
  rw [size_modify, cap_modify]

/-- from the state `b` in which the polling bit is taken to the end of the call -/
theorem finish_newPdu {si : RlcSiField} {sdu : Bytes} {sn so len : ℕ} {last : Bool} (hst : b.st = s.st)
    (hretx : b.retxQueue = s.retxQueue) (htimer : b.pollRetransmitTimer = s.pollRetransmitTimer)
    (hstopped : b.stoppedLower = s.stoppedLower) (hk : s.countedPayload cfg grantLen = k)
    (hn : s.newPayload cfg grantLen = len) (hlast : s.endsSdu cfg grantLen = last) (hqueue : b.sduQueue = s.queueLeft)
    (hseg : b.snUnderSegmentation = s.segmentedLeft cfg grantLen) (hfull : b.txWindow.full = s.windowWithNext.full)
    (hout : (finish cfg b sn si so sdu len k last).2 ≠ []) :
    NewPdu cfg s grantLen (finish cfg b sn si so sdu len k last).1 (finish cfg b sn si so sdu len k last).2 := by
  obtain ⟨hp, hstop, htrue, hfalse⟩ := getPollingBit_new cfg b b.st.txNext k
  obtain ⟨hsame, hwin, hretx', hsdu⟩ := @getPollingBit_same cfg b b.st.txNext false k
  have hdue : s.pollDue cfg grantLen = (countersReached cfg b.st k || b.pollNeeded cfg) := by
    rw [pollDue, hk, pollNeeded, isTxWindowFull, Bool.or_assoc, hqueue, hretx, hseg, hfull, txModBase, txModBase, hst]
  rw [← hdue] at hp
  unfold finish at hout ⊢
  generalize b.getPollingBit cfg b.st.txNext false k = r at hp hstop htrue hfalse hsame hwin hretx' hsdu hout ⊢
  obtain ⟨b', p⟩ := r
  dsimp only at hp hstop htrue hfalse hsame hwin hretx' hsdu hout ⊢
  cases hpdu : assemblePdu (dataHeader cfg p si b'.st.txNext so) sdu len with
  | none =>
    rw [hpdu] at hout
    exact absurd rfl hout
  | some pdu =>
    obtain ⟨payload, rfl, hlen, hpos⟩ := assemblePdu_eq_some hpdu
    have hnext : b'.st.txNext = s.st.txNext := hsame.next.trans (by rw [hst])
    refine ⟨hretx'.trans hretx, hsdu.trans hqueue, hsame.seg.trans hseg, ?_, hsame.ack.trans (by rw [hst]), ?_,
      hstop.trans hstopped, ?_, ?_, ?_⟩
    · show (b'.txWindow.modify sn _).full = _
      rw [full_modify, hwin, hfull]
    · rw [hlast, ← hnext]
    · exact ⟨_, payload, rfl, hnext, hp, hlen.trans hn.symm, List.ne_nil_of_length_pos (by omega)⟩
    · rw [← hp, ← hstopped, ← htimer, ← hst]
      exact htrue
    · rw [← hp, hk, ← htimer, ← hst]
      exact hfalse

theorem NewData.newPdu {out : RlcTxAmEntity × Bytes} (hd : NewData cfg s grantLen out) (hout : out.2 ≠ []) :
    NewPdu cfg s grantLen out.1 out.2 := by
  cases hd with
  | nothing => exact absurd rfl hout
  | dropped => exact absurd rfl hout
  | emptied => exact absurd rfl hout
  | segment info last n hseg hinfo hprogress hgrant hn hlast =>
    have hsegmented : s.segmented = some info := by rw [segmented, if_neg hseg, hinfo]
    have hnew : s.newPayload cfg grantLen = n := by rw [newPayload, hsegmented, hn]
    have hcount : s.countedPayload cfg grantLen = n := by
      simpa [countedPayload, takesWholeSdu, hsegmented] using hnew
    have hends : s.endsSdu cfg grantLen = last := by
      rw [Bool.eq_iff_iff, hlast, endsSdu, hsegmented, decide_eq_true_eq]
      omega
    refine finish_newPdu rfl rfl rfl rfl hcount hnew hends ?_ ?_ ?_ hout
    · rw [queueLeft, hsegmented]
      rfl
    · rw [segmentedLeft, hends, hsegmented]
      rfl
    · rw [windowWithNext, hsegmented]
      rfl
  | queued sdu q faults events whole hseg hroom hfaults hread hgrant hevents hwhole =>
    have hnew : s.newPayload cfg grantLen = if whole then sdu.buf.length else grantLen - headMinSize cfg := by
      rw [newPayload, hseg, hread]
      dsimp only
      split_ifs with hw
      · have := hwhole.1 hw
        omega
      · have := mt hwhole.2 hw
        omega
    have htakes : s.takesWholeSdu cfg grantLen = whole := by
      rw [Bool.eq_iff_iff, hwhole]
      simp [takesWholeSdu, hseg, hread]
    have hcount : s.countedPayload cfg grantLen = if whole then 0 else grantLen - headMinSize cfg := by
      rw [countedPayload, htakes, hnew]
      split_ifs <;> rfl
    have hends : s.endsSdu cfg grantLen = whole := by rw [endsSdu, hseg, htakes]
    refine finish_newPdu rfl rfl rfl rfl hcount hnew hends ?_ ?_ ?_ hout
    · rw [queueLeft, hseg, hread]
      rfl
    · rw [segmentedLeft, hends, hseg]
      rfl
    · rw [windowWithNext, hseg]
      exact full_modify _ _ _

/-- every pull that produces a data PDU while no retransmission is queued sends new data -/
theorem pullPdu_newPdu {poolOk : Bool} (hretx : s.retxQueue.isEmpty = true)
    (hout : (s.pullPdu cfg none grantLen poolOk).2 ≠ []) :
    NewPdu cfg s grantLen (s.pullPdu cfg none grantLen poolOk).1 (s.pullPdu cfg none grantLen poolOk).2 :=
  (pullPdu_newData grantLen poolOk hretx).newPdu hout

/-! ## The law -/

/-- no SDU that is not discarded is queued, none is being segmented, and there is no retransmission -/
def NothingValid (s : RlcTxAmEntity) : Prop :=
  s.sduQueue.valid = [] ∧ s.snUnderSegmentation = invalidRlcSn ∧ s.retxQueue.isEmpty = true

/-- the pull sends new data: no STATUS PDU, and no retransmission is queued -/
def SendsNewData (s : RlcTxAmEntity) (pdu : Bytes) : Prop := s.retxQueue.isEmpty = true ∧ pdu ≠ []

/-- this grant leaves nothing but SDUs that were discarded -/
def LeavesOnlyDiscarded (cfg : RlcTxAmConfig) (s : RlcTxAmEntity) (grantLen : ℕ) : Prop :=
  s.queueLeft.valid = [] ∧ s.queueLeft.queue ≠ [] ∧ s.segmentedLeft cfg grantLen = invalidRlcSn

/-- the SN behind TX_Next is the first one beyond the configured maximum, and this grant takes TX_Next there -/
def ReachesMaxWindow (cfg : RlcTxAmConfig) (s : RlcTxAmEntity) (grantLen : ℕ) : Prop :=
  s.endsSdu cfg grantLen = true ∧ cfg.maxWindow ≠ 0 ∧ s.txModBase cfg s.st.txNext ≤ cfg.maxWindow ∧
    cfg.maxWindow < s.txModBase cfg ((s.st.txNext + 1) % cfg.snFieldLength.mod)

theorem NewPdu.nothingValid_iff {pdu : Bytes} (h : NewPdu cfg s grantLen s' pdu) (hretx : s.retxQueue.isEmpty = true) :
    s'.NothingValid ↔ s.queueLeft.valid = [] ∧ s.segmentedLeft cfg grantLen = invalidRlcSn := by
  rw [NothingValid, h.queue, h.seg, h.retx, hretx]
  simp

theorem NewPdu.isTxWindowFull_iff {pdu : Bytes} (h : NewPdu cfg s grantLen s' pdu) :
    s'.isTxWindowFull cfg = true ↔ s.windowWithNext.full = true ∨ cfg.maxWindow ≠ 0 ∧ cfg.maxWindow <
      s.txModBase cfg (if s.endsSdu cfg grantLen then (s.st.txNext + 1) % cfg.snFieldLength.mod else s.st.txNext) := by
  rw [isTxWindowFull, h.full, h.next, Bool.or_eq_true, Bool.and_eq_true, decide_eq_true_eq, decide_eq_true_eq,
    txModBase, h.ack]
  rfl

/-- where a pull does not poll although it should -/
theorem NewPdu.unpolled_iff {pdu : Bytes} (h : NewPdu cfg s grantLen s' pdu) (hretx : s.retxQueue.isEmpty = true) :
    (pollBit pdu = false ∧ (s'.NothingValid ∨ s'.isTxWindowFull cfg = true)) ↔
      s.pollDue cfg grantLen = false ∧ (s.LeavesOnlyDiscarded cfg grantLen ∨ s.ReachesMaxWindow cfg grantLen) := by
  rw [h.pollBit_eq, h.nothingValid_iff hretx, h.isTxWindowFull_iff]
  refine and_congr_right fun hdue => or_congr ?_ ?_
  all_goals
    simp only [pollDue, Bool.or_eq_false_iff, Bool.and_eq_false_iff, decide_eq_false_iff_not] at hdue
    obtain ⟨⟨-, hidle⟩, hfull, hmax⟩ := hdue
  · -- the queue is not empty, or the bit would be set
    constructor
    · rintro ⟨hvalid, hseg⟩
      refine ⟨hvalid, fun hq => ?_, hseg⟩
      rw [isEmpty, hq, hretx] at hidle
      simp [hseg] at hidle
    · rintro ⟨hvalid, -, hseg⟩
      exact ⟨hvalid, hseg⟩
  · rw [hfull]
    constructor
    · rintro (hf | ⟨hne, hgt⟩)
      · cases hf
      · have hle := not_lt.1 (hmax.resolve_left (not_not_intro hne))
        cases hends : s.endsSdu cfg grantLen with
        | false =>
          rw [hends] at hgt
          exact absurd hgt (not_lt.2 hle)
        | true =>
          rw [hends] at hgt
          exact ⟨hends, hne, hle, hgt⟩
    · rintro ⟨hends, hne, -, hgt⟩
      rw [hends]
      exact .inr ⟨hne, hgt⟩

/-- in every state and for every grant: a pull of new data after which nothing valid is left to be sent, or the window
is full, polls, exactly if it does not leave only discarded SDUs behind or take TX_Next beyond the configured maximum,
or one of the reasons that get_polling_bit looks at is given as well -/
theorem pollBit_law_iff (cfg : RlcTxAmConfig) (ops : List Op) (grantLen : ℕ) (poolOk : Bool) :
    let s := Machine.run (step cfg) (init cfg) ops
    let s' := (s.pullPdu cfg none grantLen poolOk).1
    let pdu := (s.pullPdu cfg none grantLen poolOk).2
    SendsNewData s pdu → ((s'.NothingValid ∨ s'.isTxWindowFull cfg = true → pollBit pdu = true) ↔
      (s.LeavesOnlyDiscarded cfg grantLen ∨ s.ReachesMaxWindow cfg grantLen → s.pollDue cfg grantLen = true)) := by
  intro s s' pdu hsends
  have hnew : NewPdu cfg s grantLen s' pdu := pullPdu_newPdu hsends.1 hsends.2
  have hiff := hnew.unpolled_iff hsends.1
  rw [← Bool.not_eq_true, ← Bool.not_eq_true] at hiff
  constructor
  · intro hlaw hmiss
    by_contra hdue
    obtain ⟨hbit, hstate⟩ := hiff.2 ⟨hdue, hmiss⟩
    exact hbit (hlaw hstate)
  · intro hcond hstate
    by_contra hbit
    obtain ⟨hdue, hmiss⟩ := hiff.1 ⟨hbit, hstate⟩
    exact hdue (hcond hmiss)

/-- PDCP data PDU with a 12-bit SN below 256 -/
def pdcpPdu (sn : UInt8) : Bytes := [0x80, sn, 0xaa, 0xbb]

/-- the pull of the only SDU, which leaves the buffers empty and polls -/
theorem pollBit_law_last_sdu :
    let cfg : RlcTxAmConfig := ⟨.size12bits, .size12bits, 45, 4, 0, 0, 8, 1000, 0, false⟩
    let s := Machine.run (step cfg) (init cfg) [.handleSdu (pdcpPdu 0) false]
    let out := s.pullPdu cfg none 100 true
    SendsNewData s out.2 ∧ (out.1.NothingValid ∨ out.1.isTxWindowFull cfg = true → pollBit out.2 = true) := by
  intro cfg s out
  have hsends : SendsNewData s out.2 := ⟨by decide +kernel, by decide +kernel⟩
  exact ⟨hsends, (pollBit_law_iff cfg [.handleSdu (pdcpPdu 0) false] 100 true hsends).2 fun _ => by decide +kernel⟩

/-- a pull that leaves a discarded SDU behind, and one that takes TX_Next to the second SN behind TX_Next_Ack with
max_window = 1: no poll, although nothing valid is left, and although the window is full -/
theorem unpolled_pulls :
    (let cfg : RlcTxAmConfig := ⟨.size12bits, .size12bits, 45, 4, 0, 0, 8, 1000, 0, false⟩
      let s := Machine.run (step cfg) (init cfg)
        [.handleSdu (pdcpPdu 0) false, .handleSdu (pdcpPdu 1) false, .discardSdu 1 1]
      let out := s.pullPdu cfg none 100 true
      out.2 = [0x80, 0, 0x80, 0, 0xaa, 0xbb] ∧ pollBit out.2 = false ∧ out.1.sduQueue.valid = [] ∧
        out.1.snUnderSegmentation = invalidRlcSn ∧ out.1.retxQueue.queue = []) ∧
    (let cfg : RlcTxAmConfig := ⟨.size12bits, .size12bits, 45, 4, 0, 0, 8, 1000, 1, false⟩
      let s := Machine.run (step cfg) (init cfg)
        [.handleSdu (pdcpPdu 0) false, .handleSdu (pdcpPdu 1) false, .handleSdu (pdcpPdu 2) false,
        .pullPdu none 100 true]
      let out := s.pullPdu cfg none 100 true
      out.2 = [0x80, 1, 0x80, 1, 0xaa, 0xbb] ∧ pollBit out.2 = false ∧ out.1.isTxWindowFull cfg = true ∧
        (out.1.pullPdu cfg none 100 true).2 = []) := by
  decide +kernel

/-! ## Operations that do not poll -/

theorem getBufferState_polling (s : RlcTxAmEntity) (statusLen : Option ℕ) :
    SamePolling s (s.getBufferState cfg statusLen).1 := by
  unfold getBufferState
  dsimp only
  split_ifs <;> exact ⟨rfl, rfl, rfl, rfl, rfl⟩

theorem onExpiredPollRetransmitTimer_polling (s : RlcTxAmEntity) :
    SamePolling s (s.onExpiredPollRetransmitTimer cfg) := by
  unfold onExpiredPollRetransmitTimer
  split_ifs
  · cases s.txWindow.find? s.st.txNextAck with
    | none => exact SamePolling.refl s
    | some info =>
      refine SamePolling.trans ?_ (getBufferState_polling _ _)
      split_ifs
      · refine SamePolling.trans ?_ (incrementRetxCount_polling _ _)
        exact ⟨rfl, rfl, rfl, rfl, rfl⟩
      · exact ⟨rfl, rfl, rfl, rfl, rfl⟩
  · exact SamePolling.refl s

/-! ## Sizes in arbitrary runs -/

/-- SDUs and retransmissions are not empty, and offsets have 16 bits -/
structure Filled (s : RlcTxAmEntity) : Prop where
  window : SizedWindow s
  queue : ∀ buf ∈ s.sduQueue.bufs, 0 < buf.length ∧ buf.length ≤ 2 ^ 16
  retx : ∀ r ∈ s.retxQueue.queue, 0 < r.length

theorem Filled.of_core (h : Filled s) (hs : SameCore s s') (hq : s'.sduQueue.bufs.Sublist s.sduQueue.bufs)
    (hr : ∀ r ∈ s'.retxQueue.queue, 0 < r.length) : Filled s' :=
  ⟨hs.sized h.window, fun buf hb => h.queue buf (hq.subset hb), hr⟩

/-- the ACK loop only takes SDUs out of the window -/
theorem ackLoop_find {stopSn fuel sn : ℕ} (acc : RlcTxAmEntity × MaxDeliv) :
    SamePolling acc.1 (ackLoop cfg stopSn fuel sn acc).1 ∧
      (∀ k info, (ackLoop cfg stopSn fuel sn acc).1.txWindow.find? k = some info →
        acc.1.txWindow.find? k = some info) ∧ (ackLoop cfg stopSn fuel sn acc).1.retxQueue = acc.1.retxQueue ∧
      (ackLoop cfg stopSn fuel sn acc).1.sduQueue = acc.1.sduQueue := by
  induction fuel generalizing sn acc with
  | zero => exact ⟨SamePolling.refl _, fun _ _ h => h, rfl, rfl⟩
  | succ fuel ih =>
    obtain ⟨s, d⟩ := acc
    unfold ackLoop
    split_ifs
    · cases s.txWindow.find? sn with
      | none => exact ⟨SamePolling.refl s, fun _ _ h => h, rfl, rfl⟩
      | some info =>
        obtain ⟨hp, hfind, hretx, hsdu⟩ := @ih ((sn + 1) % cfg.snFieldLength.mod)
          ({ s with
              txWindow := s.txWindow.erase sn
              st := { s.st with txNextAck := (sn + 1) % cfg.snFieldLength.mod } }, d.add info)
        refine ⟨{ hp with }, fun k v hv => ?_, hretx, hsdu⟩
        have herase := hfind k v hv
        rw [find?_erase] at herase
        split_ifs at herase
        exact herase
    · exact ⟨SamePolling.refl s, fun _ _ h => h, rfl, rfl⟩

theorem Filled.bufferState (h : Filled s) (statusLen : Option ℕ) : Filled (s.getBufferState cfg statusLen).1 := by
  obtain ⟨hs, hq, hsdu⟩ := @getBufferState_spec cfg s statusLen
  exact h.of_core hs.sameCore hsdu fun r hr => h.retx r (hq hr)

/-- a STATUS PDU that passes the checks stops the timer if POLL_SN is below ACK_SN, and does not poll -/
theorem Filled.processStatusPdu (h : Filled s) (status : RlcAmStatusPdu) : Filled (s.processStatusPdu cfg status) ∧
      SamePolling (if s.txModBase cfg s.st.pollSn < s.txModBase cfg status.ackSn then
        { s with pollRetransmitTimer := false } else s) (s.processStatusPdu cfg status) := by
  unfold RlcTxAmEntity.processStatusPdu
  dsimp only
  have htimer : ∀ s₁, (if s.txModBase cfg s.st.pollSn < s.txModBase cfg status.ackSn then
      { s with pollRetransmitTimer := false } else s) = s₁ → Filled s₁ := by
    rintro s₁ rfl
    split_ifs
    · exact ⟨h.window, h.queue, h.retx⟩
    · exact h
  generalize (if s.txModBase cfg s.st.pollSn < s.txModBase cfg status.ackSn then
    { s with pollRetransmitTimer := false } else s) = s₁ at htimer ⊢
  have h₁ := htimer s₁ rfl
  obtain ⟨hp₂, hfind, hretx, hsdu⟩ := @ackLoop_find cfg (stopSn status) cfg.snFieldLength.mod s₁.st.txNextAck (s₁, {})
  generalize ackLoop cfg (stopSn status) cfg.snFieldLength.mod s₁.st.txNextAck (s₁, {}) = out at hp₂ hfind hretx hsdu ⊢
  obtain ⟨s₂, d⟩ := out
  obtain ⟨events, hemit, -⟩ := emitDelivered_eq s₂ d
  dsimp only at hp₂ hfind hretx hsdu ⊢
  rw [hemit]
  have h₃ : Filled { s₂ with events := s₂.events ++ events } :=
    ⟨fun sn info hf => h₁.window sn info (hfind sn info hf), hsdu ▸ h₁.queue, hretx ▸ h₁.retx⟩
  obtain ⟨hs₄, hp₄, hq₄, -, hsdu₄⟩ :=
    clearRetx_spec s₂.retxQueue.queue.length { s₂ with events := s₂.events ++ events } le_rfl
  generalize clearRetx s₂.retxQueue.queue.length { s₂ with events := s₂.events ++ events } = s₄ at hs₄ hp₄ hq₄ hsdu₄ ⊢
  have h₄ : Filled s₄ := h₃.of_core hs₄ (by rw [hsdu₄]) (by simp [hq₄])
  obtain ⟨hs₅, hp₅, hsdu₅, hq₅⟩ :=
    @foldl_processNack_spec cfg (status.nacks.flatMap (expandNack cfg.snFieldLength status.ackSn)) (s₄, invalidRlcSn)
    h₄.window
  refine ⟨h₄.of_core hs₅ (by rw [hsdu₅]) fun r hr => ?_, ?_⟩
  · rcases hq₅ r hr with hold | ⟨nack, -, info, offsets, -, -, -, hpos, -⟩
    · exact h₄.retx r hold
    · exact hpos
  · have hp₃ : SamePolling s₁ { s₂ with events := s₂.events ++ events } := hp₂.trans ⟨rfl, rfl, rfl, rfl, rfl⟩
    exact (hp₃.trans hp₄).trans hp₅

theorem Filled.handleStatusPdu (h : Filled s) (status : RlcAmStatusPdu) :
    Filled (s.handleStatusPdu cfg status) ∧ (SamePolling s (s.handleStatusPdu cfg status) ∨
      SamePolling { s with pollRetransmitTimer := false } (s.handleStatusPdu cfg status)) := by
  have hemit : Filled (s.emit .protocolFailure) := ⟨h.window, h.queue, h.retx⟩
  unfold RlcTxAmEntity.handleStatusPdu
  split_ifs
  · exact ⟨h, .inl (SamePolling.refl s)⟩
  · exact ⟨hemit, .inl ⟨rfl, rfl, rfl, rfl, rfl⟩⟩
  · cases s.firstBadNack cfg status with
    | some c =>
      cases c with
      | protocolFailure => exact ⟨hemit, .inl ⟨rfl, rfl, rfl, rfl, rfl⟩⟩
      | valid => exact ⟨h, .inl (SamePolling.refl s)⟩
      | ignore => exact ⟨h, .inl (SamePolling.refl s)⟩
    | none =>
      obtain ⟨hfilled, hp⟩ := @Filled.processStatusPdu cfg s h status
      have hpoll := hp.trans (@getBufferState_polling cfg (s.processStatusPdu cfg status) none)
      refine ⟨hfilled.bufferState none, ?_⟩
      split_ifs at hpoll
      · exact .inr hpoll
      · exact .inl hpoll

/-- the SDU of TX_Next_Ack is queued once more, if the poll is to be retransmitted -/
theorem onExpiredPollRetransmitTimer_core (cfg : RlcTxAmConfig) (s : RlcTxAmEntity) :
    SameCore s (s.onExpiredPollRetransmitTimer cfg) ∧
      (s.onExpiredPollRetransmitTimer cfg).sduQueue.bufs.Sublist s.sduQueue.bufs ∧
      ∀ r ∈ (s.onExpiredPollRetransmitTimer cfg).retxQueue.queue, r ∈ s.retxQueue.queue ∨
        (s.pollNeeded cfg = true ∧ ∃ info, s.txWindow.find? s.st.txNextAck = some info ∧
          r = ⟨s.st.txNextAck, 0, info.sdu.length⟩) := by
  have hsame : SameCore s s ∧ s.sduQueue.bufs.Sublist s.sduQueue.bufs ∧
      ∀ r ∈ s.retxQueue.queue, r ∈ s.retxQueue.queue ∨
        (s.pollNeeded cfg = true ∧ ∃ info, s.txWindow.find? s.st.txNextAck = some info ∧
          r = ⟨s.st.txNextAck, 0, info.sdu.length⟩) :=
    ⟨SameCore.refl s, List.Sublist.refl _, fun _ hr => .inl hr⟩
  unfold onExpiredPollRetransmitTimer
  by_cases hpoll : s.pollNeeded cfg = true
  · rw [if_pos hpoll]
    cases hinfo : s.txWindow.find? s.st.txNextAck with
    | none =>
      rw [hinfo] at hsame
      exact hsame
    | some info =>
      dsimp only
      have hpush : ∀ r ∈ (s.retxQueue.tryPush ⟨s.st.txNextAck, 0, info.sdu.length⟩).2.queue,
          r ∈ s.retxQueue.queue ∨ r = ⟨s.st.txNextAck, 0, info.sdu.length⟩ := by
        intro r hr
        rw [RlcRetxQueue.tryPush_queue] at hr
        split_ifs at hr
        · exact .inl hr
        · rcases List.mem_append.1 hr with hold | hnew
          · exact .inl hold
          · exact .inr (List.mem_singleton.1 hnew)
      generalize s.retxQueue.tryPush ⟨s.st.txNextAck, 0, info.sdu.length⟩ = out at hpush ⊢
      obtain ⟨pushed, q⟩ := out
      dsimp only at hpush ⊢
      -- the count is incremented if the retransmission has been queued
      have hcount : ∀ s₁, (if pushed = true then
          ({ s with retxQueue := q } : RlcTxAmEntity).incrementRetxCount cfg s.st.txNextAck
          else { s with retxQueue := q }) = s₁ →
          SameCore s s₁ ∧ s₁.retxQueue = q ∧ s₁.sduQueue = s.sduQueue := by
        rintro s₁ rfl
        split_ifs
        · obtain ⟨hi, hq, hsdu⟩ := @incrementRetxCount_same cfg { s with retxQueue := q } s.st.txNextAck
          exact ⟨{ hi with }, hq, hsdu⟩
        · exact ⟨SameWindow.sameCore (.of_eq rfl), rfl, rfl⟩
      generalize (if pushed = true then
          ({ s with retxQueue := q } : RlcTxAmEntity).incrementRetxCount cfg s.st.txNextAck
          else { s with retxQueue := q }) = s₁ at hcount ⊢
      obtain ⟨hs₁, hq₁, hsdu₁⟩ := hcount s₁ rfl
      obtain ⟨hs₂, hq₂, hsdu₂⟩ := @getBufferState_spec cfg s₁ none
      refine ⟨hs₁.trans hs₂.sameCore, by rw [hsdu₁] at hsdu₂; exact hsdu₂, fun r hr => ?_⟩
      rw [hq₁] at hq₂
      rcases hpush r (hq₂ hr) with hold | hnew
      · exact .inl hold
      · exact .inr ⟨hpoll, info, rfl, hnew⟩
  · rw [if_neg hpoll]
    exact hsame

theorem Filled.expiry (h : Filled s) : Filled (s.onExpiredPollRetransmitTimer cfg) := by
  obtain ⟨hs, hsdu, hretx⟩ := onExpiredPollRetransmitTimer_core cfg s
  refine h.of_core hs hsdu fun r hr => ?_
  rcases hretx r hr with hold | ⟨-, info, hinfo, rfl⟩
  · exact h.retx r hold
  · exact (h.window _ info hinfo).1

/-! ## New data -/

theorem Filled.of_modify {sn : ℕ} {f : RlcTxAmSduInfo → RlcTxAmSduInfo} (h : Filled s)
    (hwin : s'.txWindow = s.txWindow.modify sn f) (hf : ∀ info, (f info).sdu = info.sdu)
    (hsdu : s'.sduQueue = s.sduQueue) (hretx : s'.retxQueue = s.retxQueue) : Filled s' := by
  refine ⟨fun k info hk => ?_, hsdu ▸ h.queue, hretx ▸ h.retx⟩
  rw [hwin, find?_modify] at hk
  split_ifs at hk
  · obtain ⟨info₀, h₀, rfl⟩ := Option.map_eq_some_iff.1 hk
    rw [hf]
    exact h.window sn info₀ h₀
  · exact h.window k info hk

theorem Filled.poll (h : Filled s) (sn : ℕ) (isRetx : Bool) (k : ℕ) : Filled (s.getPollingBit cfg sn isRetx k).1 := by
  obtain ⟨hs, -, hretx, hsdu⟩ := @getPollingBit_same cfg s sn isRetx k
  exact h.of_core hs.sameCore (by rw [hsdu]) (hretx ▸ h.retx)

theorem append_ne_nil_of_header (hdr : RlcAmPduHeader) (payload : Bytes) :
    rlcAmWriteDataPduHeader hdr ++ payload ≠ [] := by
  unfold rlcAmWriteDataPduHeader
  cases hdr.snSize <;> simp

/-- a polling bit is only taken for a PDU that is then assembled, so that no PDU is counted that is not sent -/
theorem Filled.finish {si : RlcSiField} {sdu : Bytes} {so len : ℕ} (h : Filled s) (sn counted : ℕ) (last : Bool)
    (hpos : 0 < len) (hle : so + len ≤ sdu.length) : Filled (finish cfg s sn si so sdu len counted last).1 ∧
      (finish cfg s sn si so sdu len counted last).2 ≠ [] := by
  have hpoll := @Filled.poll cfg s h s.st.txNext false counted
  unfold RlcTxAmEntity.finish
  generalize s.getPollingBit cfg s.st.txNext false counted = out at hpoll ⊢
  dsimp only at hpoll ⊢
  rw [assemblePdu_of_le hpos (by dsimp only [dataHeader]; omega)]
  exact ⟨hpoll.of_modify (f := fun i => { i with nextSo := i.nextSo + counted }) rfl (fun _ => rfl) rfl rfl,
    append_ne_nil_of_header _ _⟩

theorem NewData.filled {out : RlcTxAmEntity × Bytes} (hd : NewData cfg s grantLen out) (h : Filled s) :
    Filled out.1 ∧ (out.2 = [] → SamePolling s out.1) := by
  cases hd with
  | nothing => exact ⟨h, fun _ => SamePolling.refl s⟩
  | dropped => exact ⟨⟨h.window, h.queue, h.retx⟩, fun _ => ⟨rfl, rfl, rfl, rfl, rfl⟩⟩
  | emptied q faults hseg hroom hfaults hread =>
    refine ⟨⟨fun k info hk => ?_, ?_, h.retx⟩, fun _ => ⟨rfl, rfl, rfl, rfl, rfl⟩⟩
    · dsimp only at hk
      rw [find?_erase, find?_overwrite] at hk
      split_ifs at hk
      exact h.window k info hk
    · simp [read_none hread]
  | segment info last n hseg hinfo hprogress hgrant hn hlast =>
    have hseg : Filled { s with snUnderSegmentation := if last then invalidRlcSn else s.snUnderSegmentation } :=
      ⟨h.window, h.queue, h.retx⟩
    obtain ⟨hfilled, hne⟩ := hseg.finish s.snUnderSegmentation n last (show 0 < n by omega)
      (show info.nextSo + n ≤ info.sdu.length by omega)
    exact ⟨hfilled, fun hnil => absurd hnil hne⟩
  | queued sdu q faults events whole hseg hroom hfaults hread hgrant hevents hwhole =>
    have hbufs := read_bufs hread
    have hsdu := h.queue sdu.buf (hbufs.subset List.mem_cons_self)
    have hfill : Filled { s with
        snUnderSegmentation := if whole then invalidRlcSn else s.st.txNext
        sduQueue := q
        faults := faults
        events := s.events ++ events
        txWindow := (s.txWindow.overwrite s.st.txNext {}).modify s.st.txNext fun _ => sduInfo sdu } := by
      refine ⟨fun k info hk => ?_, fun buf hb => h.queue buf (hbufs.subset (List.mem_cons_of_mem _ hb)), h.retx⟩
      dsimp only at hk
      rw [find?_modify, find?_overwrite, find?_overwrite, if_pos rfl] at hk
      split_ifs at hk
      · cases hk
        exact hsdu
      · exact h.window k info hk
    obtain ⟨hpos, hle⟩ : 0 < (if whole then sdu.buf.length else grantLen - headMinSize cfg) ∧
        0 + (if whole then sdu.buf.length else grantLen - headMinSize cfg) ≤ sdu.buf.length := by
      split_ifs with hw
      · omega
      · have := mt hwhole.2 hw
        omega
    obtain ⟨hfilled, hne⟩ := hfill.finish s.st.txNext (if whole then 0 else grantLen - headMinSize cfg) whole hpos hle
    exact ⟨hfilled, fun hnil => absurd hnil hne⟩

/-! ## Retransmissions -/

/-- a pull that turns to the RETX queue -/
structure RetxPull (cfg : RlcTxAmConfig) (s s' : RlcTxAmEntity) (pdu : Bytes) : Prop where
  pollSn : s'.st.pollSn = s.st.pollSn
  stopped : s'.stoppedLower = s.stoppedLower
  polled : pollBit pdu = true → s'.st.pduWithoutPoll = 0 ∧ s'.st.byteWithoutPoll = 0 ∧
    s'.pollRetransmitTimer = if cfg.tPollRetx > 0 && !s.stoppedLower then true else s.pollRetransmitTimer
  unpolled : pollBit pdu = false → SamePolling s s'

theorem RetxPull.of_same (h : SamePolling s s') : RetxPull cfg s s' [] :=
  ⟨h.pollSn, h.stopped, fun hbit => Bool.noConfusion hbit, fun _ => h⟩

theorem getPollingBit_retx (cfg : RlcTxAmConfig) (b : RlcTxAmEntity) (sn : ℕ) :
    let out := b.getPollingBit cfg sn true 0
    out.1.st.pollSn = b.st.pollSn ∧ out.1.stoppedLower = b.stoppedLower ∧
      (out.2 = true → out.1.st.pduWithoutPoll = 0 ∧ out.1.st.byteWithoutPoll = 0 ∧
        out.1.pollRetransmitTimer = if cfg.tPollRetx > 0 && !b.stoppedLower then true else b.pollRetransmitTimer) ∧
      (out.2 = false → SamePolling b out.1) := by
  unfold getPollingBit
  simp only [if_true, Bool.not_true, Bool.false_and, Bool.false_or]
  by_cases hpoll : b.pollNeeded cfg = true
  · rw [if_pos hpoll]
    exact ⟨rfl, rfl, fun _ => ⟨rfl, rfl, rfl⟩, fun hbit => Bool.noConfusion hbit⟩
  · rw [if_neg hpoll]
    exact ⟨rfl, rfl, fun hbit => Bool.noConfusion hbit, fun _ => SamePolling.refl _⟩

theorem sending_polling (s : RlcTxAmEntity) (r : RlcTxAmdRetx) (info : RlcTxAmSduInfo) (k : ℕ) :
    SamePolling s (s.sending cfg r info k) := by
  unfold sending
  split_ifs <;> exact ⟨rfl, rfl, rfl, rfl, rfl⟩

/-- of the front of the queue, what is not sent stays to be sent -/
theorem sending_retx {r : RlcTxAmdRetx} {info : RlcTxAmSduInfo} (h : Filled s) (hq : s.retxQueue.queue.head? = some r) :
    ∀ r' ∈ (s.sending cfg r info (retxPayload cfg r grantLen)).retxQueue.queue, 0 < r'.length := by
  have hk : retxPayload cfg r grantLen ≤ r.length := Nat.min_le_left _ _
  obtain ⟨rest, hq⟩ := List.head?_eq_some_iff.1 hq
  intro r' hr'
  unfold sending at hr'
  by_cases hfull : retxPayload cfg r grantLen = r.length
  · rw [if_pos hfull] at hr'
    dsimp only at hr'
    rw [RlcRetxQueue.pop_queue] at hr'
    exact h.retx r' (List.mem_of_mem_tail hr')
  · rw [if_neg hfull] at hr'
    dsimp only at hr'
    rw [RlcRetxQueue.replaceFront_queue, hq, if_neg (List.cons_ne_nil _ _)] at hr'
    rcases List.mem_cons.1 hr' with rfl | hmem
    · dsimp only
      omega
    · exact h.retx r' (hq ▸ List.mem_cons_of_mem r hmem)

theorem buildRetxPdu_filled (grantLen : ℕ) (h : Filled s) :
    Filled (s.buildRetxPdu cfg grantLen).1 ∧ RetxPull cfg s (s.buildRetxPdu cfg grantLen).1
    (s.buildRetxPdu cfg grantLen).2 := by
  obtain ⟨hs, hsub, hsdus, -⟩ := dropMissingRetx_spec s
  have hpolling : SamePolling s s.dropMissingRetx := ⟨rfl, rfl, rfl, rfl, rfl⟩
  have h₁ : Filled s.dropMissingRetx := h.of_core hs.sameCore (by rw [hsdus]) fun r hr => h.retx r (hsub hr)
  have hcases := @buildRetxPdu_cases cfg s grantLen
  generalize s.dropMissingRetx = s₁ at hpolling h₁ hcases
  rcases hcases with ⟨heq, -⟩ | ⟨r, info, hhead, hinfo, heq⟩ <;> rw [heq]
  · exact ⟨h₁, RetxPull.of_same hpolling⟩
  · have hpos : 0 < r.length := h₁.retx r (List.mem_of_mem_head? hhead)
    rcases @buildRetx_cases cfg r info s₁ grantLen hpos (h₁.window _ _ hinfo).2 with
      ⟨-, hout⟩ | ⟨-, -, hout⟩ | ⟨hend, hgrant, b, p, hb, hout⟩
    · rw [hout]
      refine ⟨⟨h₁.window, h₁.queue, fun r' hr' => h₁.retx r' ?_⟩,
        RetxPull.of_same (hpolling.trans ⟨rfl, rfl, rfl, rfl, rfl⟩)⟩
      dsimp only at hr'
      rw [RlcRetxQueue.pop_queue] at hr'
      exact List.mem_of_mem_tail hr'
    · rw [hout]
      exact ⟨⟨h₁.window, h₁.queue, h₁.retx⟩, RetxPull.of_same (hpolling.trans ⟨rfl, rfl, rfl, rfl, rfl⟩)⟩
    · rw [hout]
      obtain ⟨hw, hsdu⟩ := @sending_same cfg s₁ r info (retxPayload cfg r grantLen)
      have hsent : Filled (s₁.sending cfg r info (retxPayload cfg r grantLen)) :=
        h₁.of_core hw.sameCore (by rw [hsdu]) (sending_retx h₁ hhead)
      have hfilled := @Filled.poll cfg _ hsent r.sn true 0
      have hsame := hpolling.trans (@sending_polling cfg s₁ r info (retxPayload cfg r grantLen))
      obtain ⟨hsn, hstop, htrue, hfalse⟩ :=
        getPollingBit_retx cfg (s₁.sending cfg r info (retxPayload cfg r grantLen)) r.sn
      rw [hb] at hfilled hsn hstop htrue hfalse
      refine ⟨hfilled, hsn.trans hsame.pollSn, hstop.trans hsame.stopped, ?_, ?_⟩
      · rw [pollBit_write, ← hsame.stopped, ← hsame.timer]
        exact htrue
      · rw [pollBit_write]
        exact fun hbit => hsame.trans (hfalse hbit)

/-- what a pull without STATUS PDU does to the polling state -/
theorem pullPdu_filled (grantLen : ℕ) (poolOk : Bool) (h : Filled s) :
    let out := s.pullPdu cfg none grantLen poolOk
    Filled out.1 ∧ (s.retxQueue.isEmpty = false → RetxPull cfg s out.1 out.2) ∧
      (s.retxQueue.isEmpty = true → out.2 = [] → SamePolling s out.1) := by
  cases hretx : s.retxQueue.isEmpty with
  | true =>
    obtain ⟨hfilled, hquiet⟩ := (@pullPdu_newData cfg s grantLen poolOk hretx).filled h
    exact ⟨hfilled, fun hne => Bool.noConfusion hne, fun _ => hquiet⟩
  | false =>
    unfold pullPdu
    by_cases hmax : s.maxRetxReached = true
    · rw [if_pos hmax]
      exact ⟨h, fun _ => RetxPull.of_same (SamePolling.refl s), fun hne => Bool.noConfusion hne⟩
    · obtain ⟨hfilled, hpull⟩ := @buildRetxPdu_filled cfg s grantLen h
      simp only [hmax, hretx, Bool.not_false, if_true, Bool.false_eq_true, if_false]
      exact ⟨hfilled, fun _ => hpull, fun hne => hne.elim⟩

/-- an SDU has 1 to 2^16 bytes -/
def SizedOp : Op → Prop
  | .handleSdu buf _ => 0 < buf.length ∧ buf.length ≤ 2 ^ 16
  | _ => True

instance (op : Op) : Decidable (SizedOp op) := by
  cases op <;> unfold SizedOp <;> infer_instance

theorem init_filled (cfg : RlcTxAmConfig) : Filled (init cfg) := by
  refine ⟨fun sn info hf => ?_, fun buf hb => ?_, fun r hr => ?_⟩
  · simp [init] at hf
  · cases hb
  · cases hr

/-- operations other than a pull do not count -/
theorem step_filled (op : Op) (h : Filled s) (hop : SizedOp op) :
    Filled (s.step cfg op) ∧ ((∀ grantLen poolOk, op ≠ .pullPdu none grantLen poolOk) →
      (s.step cfg op).st.pduWithoutPoll = s.st.pduWithoutPoll ∧
        (s.step cfg op).st.byteWithoutPoll = s.st.byteWithoutPoll) := by
  unfold step stepOut
  cases op with
  | handleSdu buf isRetx =>
    refine ⟨⟨h.window, fun b hb => ?_, h.retx⟩, fun _ => ⟨rfl, rfl⟩⟩
    rcases write_bufs s.sduQueue ⟨buf, isRetx && !cfg.isSrb, getPdcpSn buf cfg.pdcpSnLen cfg.isSrb⟩ with
      heq | heq
    · exact h.queue b (heq ▸ hb)
    · rcases List.mem_append.1 (heq ▸ hb : b ∈ s.sduQueue.bufs ++ [buf]) with hold | hnew
      · exact h.queue b hold
      · rw [List.mem_singleton.1 hnew]
        exact hop
  | discardSdu start block =>
    unfold discardSdu
    dsimp only
    split_ifs
    · exact ⟨h, fun _ => ⟨rfl, rfl⟩⟩
    · exact ⟨h, fun _ => ⟨rfl, rfl⟩⟩
    · refine ⟨⟨h.window, ?_, h.retx⟩, fun _ => ⟨rfl, rfl⟩⟩
      rw [discardLoop_bufs]
      exact h.queue
  | pullPdu status grantLen poolOk =>
    cases status with
    | none => exact ⟨(pullPdu_filled grantLen poolOk h).1, fun hne => absurd rfl (hne grantLen poolOk)⟩
    | some report =>
      unfold pullPdu
      split_ifs <;> exact ⟨h, fun _ => ⟨rfl, rfl⟩⟩
  | handleStatusPdu status =>
    obtain ⟨hfilled, hp | hp⟩ := @Filled.handleStatusPdu cfg s h status
    · exact ⟨hfilled, fun _ => ⟨hp.pdus, hp.bytes⟩⟩
    · exact ⟨hfilled, fun _ => ⟨hp.pdus, hp.bytes⟩⟩
  | pollRetransmitExpiry =>
    split_ifs
    · have hp := @onExpiredPollRetransmitTimer_polling cfg { s with pollRetransmitTimer := false }
      exact ⟨Filled.expiry ⟨h.window, h.queue, h.retx⟩, fun _ => ⟨hp.pdus, hp.bytes⟩⟩
    · exact ⟨h, fun _ => ⟨rfl, rfl⟩⟩
  | bufferState statusLen =>
    have hp := @getBufferState_polling cfg s statusLen
    exact ⟨@Filled.bufferState cfg s h statusLen, fun _ => ⟨hp.pdus, hp.bytes⟩⟩
  | stop => exact ⟨⟨h.window, h.queue, h.retx⟩, fun _ => ⟨rfl, rfl⟩⟩

end RlcTxAmEntity

end OcuduRan.Rlc
