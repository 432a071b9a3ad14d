/-
What one MAC opportunity does.

`Pulled` lists the outcomes of pull_pdu on the data path: nothing, a retransmission, a new SDU whole or its first
segment, or the next or last segment of the SDU under segmentation. Whatever is sent is a data PDU with a piece of the
SDU of its index. The lemmas follow the builders; `pullPdu_pulled` puts them together, and every fact about whole runs
of the transmitter uses only it.
-/
import OcuduRan.Rlc.AmPduHeader
import OcuduRan.Rlc.AmTxWindow

namespace OcuduRan.Rlc

open ModWindow List CircularMap Nat

/-- SDUs waiting in the queue, discarded ones included -/
def RlcSduQueue.bufs (q : RlcSduQueue) : List Bytes := q.queue.map (·.sdu.buf)

/-- every retransmission of the new queue asks for the end of one of the old queue -/
def RetxFrom (old new : List RlcTxAmdRetx) : Prop :=
  ∀ r' ∈ new, 0 < r'.length ∧ ∃ r ∈ old, r'.sn = r.sn ∧ r'.so + r'.length = r.so + r.length

theorem RetxFrom.of_subset {old new : List RlcTxAmdRetx} (hpos : ∀ r ∈ old, 0 < r.length) (h : new ⊆ old) :
    RetxFrom old new :=
  fun r' hr' => ⟨hpos r' (h hr'), r', h hr', rfl, rfl⟩

namespace RlcTxAmEntity

variable {cfg : RlcTxAmConfig} {s s' : RlcTxAmEntity} {A N i : ℕ} {r : RlcTxAmdRetx}

/-- SDUs of the window have 16-bit offsets -/
def SizedWindow (s : RlcTxAmEntity) : Prop :=
  ∀ sn info, s.txWindow.find? sn = some info → 0 < info.sdu.length ∧ info.sdu.length ≤ 2 ^ 16

/-- lengths of SDUs in the window and in the queue and of retransmissions, and the progress of the SDU under
segmentation -/
structure Sized (cfg : RlcTxAmConfig) (N : ℕ) (s : RlcTxAmEntity) : Prop where
  window : SizedWindow s
  queue : ∀ buf ∈ s.sduQueue.bufs, 0 < buf.length ∧ buf.length ≤ 2 ^ 16
  retx : ∀ r ∈ s.retxQueue.queue, 0 < r.length
  progress : s.snUnderSegmentation ≠ invalidRlcSn → ∀ info, infoAt cfg s N = some info →
    0 < info.nextSo ∧ info.nextSo < info.sdu.length

/-- what pull_pdu can do when no STATUS PDU is due -/
inductive Pulled (cfg : RlcTxAmConfig) (A N : ℕ) (s : RlcTxAmEntity) : RlcTxAmEntity → Bytes → Prop
  | idle {s' : RlcTxAmEntity} (hw : SameWindow s s') (hretx : RetxFrom s.retxQueue.queue s'.retxQueue.queue)
      (hsdus : s'.sduQueue.bufs.Sublist s.sduQueue.bufs) : Pulled cfg A N s s' []
  | retx {s' : RlcTxAmEntity} {pdu : Bytes} (i k : ℕ) (r : RlcTxAmdRetx) (info : RlcTxAmSduInfo) (hi : A ≤ i)
      (hi' : i < s.top N) (hr : r ∈ s.retxQueue.queue) (hsn : r.sn = i % cfg.snFieldLength.mod)
      (hinfo : infoAt cfg s i = some info) (hk : k ≤ r.length) (hend : r.so + r.length ≤ info.sdu.length)
      (hpdu : DataPdu cfg.snFieldLength i info.sdu r.so k pdu) (hw : SameWindow s s')
      (hretx : RetxFrom s.retxQueue.queue s'.retxQueue.queue) (hsdus : s'.sduQueue = s.sduQueue) :
        Pulled cfg A N s s' pdu
  | full {s' : RlcTxAmEntity} {pdu : Bytes} (info : RlcTxAmSduInfo) (hidle : s.snUnderSegmentation = invalidRlcSn)
      (hroom : N < A + cfg.snFieldLength.amWindowSize) (hwrote : Wrote (N % cfg.snFieldLength.mod) info s s')
      (hpdu : DataPdu cfg.snFieldLength N info.sdu 0 info.sdu.length pdu)
      (hnext : s'.st.txNext = (N + 1) % cfg.snFieldLength.mod) (hseg : s'.snUnderSegmentation = invalidRlcSn)
      (hretx : s'.retxQueue = s.retxQueue) (hsdus : (info.sdu :: s'.sduQueue.bufs).Sublist s.sduQueue.bufs) :
      Pulled cfg A N s s' pdu
  | first {s' : RlcTxAmEntity} {pdu : Bytes} (info : RlcTxAmSduInfo) (hidle : s.snUnderSegmentation = invalidRlcSn)
      (hroom : N < A + cfg.snFieldLength.amWindowSize) (hwrote : Wrote (N % cfg.snFieldLength.mod) info s s')
      (hprogress : 0 < info.nextSo ∧ info.nextSo < info.sdu.length)
      (hpdu : DataPdu cfg.snFieldLength N info.sdu 0 info.nextSo pdu) (hnext : s'.st.txNext = N % cfg.snFieldLength.mod)
      (hseg : s'.snUnderSegmentation = N % cfg.snFieldLength.mod) (hretx : s'.retxQueue = s.retxQueue)
      (hsdus : (info.sdu :: s'.sduQueue.bufs).Sublist s.sduQueue.bufs) : Pulled cfg A N s s' pdu
  | middle {s' : RlcTxAmEntity} {pdu : Bytes} (info : RlcTxAmSduInfo) (k : ℕ)
      (hcont : s.snUnderSegmentation = N % cfg.snFieldLength.mod) (hinfo : infoAt cfg s N = some info)
      (hwrote : Wrote (N % cfg.snFieldLength.mod) { info with nextSo := info.nextSo + k } s s')
      (hk : info.nextSo + k < info.sdu.length) (hpdu : DataPdu cfg.snFieldLength N info.sdu info.nextSo k pdu)
      (hnext : s'.st.txNext = N % cfg.snFieldLength.mod) (hseg : s'.snUnderSegmentation = N % cfg.snFieldLength.mod)
      (hretx : s'.retxQueue = s.retxQueue) (hsdus : s'.sduQueue = s.sduQueue) : Pulled cfg A N s s' pdu
  | last {s' : RlcTxAmEntity} {pdu : Bytes} (info info' : RlcTxAmSduInfo) (k : ℕ)
      (hcont : s.snUnderSegmentation = N % cfg.snFieldLength.mod) (hinfo : infoAt cfg s N = some info)
      (hwrote : Wrote (N % cfg.snFieldLength.mod) info' s s') (hsdu : info'.sdu = info.sdu)
      (hk : info.nextSo + k = info.sdu.length) (hpdu : DataPdu cfg.snFieldLength N info.sdu info.nextSo k pdu)
      (hnext : s'.st.txNext = (N + 1) % cfg.snFieldLength.mod) (hseg : s'.snUnderSegmentation = invalidRlcSn)
      (hretx : s'.retxQueue = s.retxQueue) (hsdus : s'.sduQueue = s.sduQueue) : Pulled cfg A N s s' pdu

/-! ## Pieces of the builders -/

theorem dataHeader_so {p : Bool} {si : RlcSiField} {sn so : ℕ} (h : so < 2 ^ 16) :
    (dataHeader cfg p si sn so).so = so :=
  mod_eq_of_lt h

/-- a payload that is in the SDU is written whole -/
theorem assemblePdu_of_le {hdr : RlcAmPduHeader} {sdu : Bytes} {k : ℕ} (hpos : 0 < k) (hle : hdr.so + k ≤ sdu.length) :
    assemblePdu hdr sdu k = some (rlcAmWriteDataPduHeader hdr ++ (sdu.drop hdr.so).take k) := by
  have hpay : ((sdu.drop hdr.so).take k).length = k := by
    rw [length_take, length_drop]
    omega
  unfold assemblePdu
  dsimp only
  rw [hpay, if_neg (by omega)]

/-- a header that is written and read back, with the bytes it announces -/
theorem dataPdu_write {sdu : Bytes} {si : RlcSiField} {so len : ℕ} (p : Bool) (hlen : sdu.length ≤ 2 ^ 16)
    (hpos : 0 < len) (hle : so + len ≤ sdu.length) (hso : si.hasSo = true ↔ so ≠ 0)
    (hlast : (si = .fullSdu ∨ si = .lastSegment) ↔ so + len = sdu.length) : DataPdu cfg.snFieldLength i sdu so len
      (rlcAmWriteDataPduHeader (dataHeader cfg p si (i % cfg.snFieldLength.mod) so) ++ (sdu.drop so).take len) := by
  have hmod : (dataHeader cfg p si (i % cfg.snFieldLength.mod) so).so = so := dataHeader_so (by omega)
  have hpay : ((sdu.drop so).take len).length = len := by
    rw [length_take, length_drop]
    omega
  have hw : (dataHeader cfg p si (i % cfg.snFieldLength.mod) so).Writable := by
    refine ⟨⟨mod_lt _ (mod_pos _), mod_lt _ (by norm_num), fun hno => ?_⟩, rfl, fun hyes => ?_⟩
    · by_contra hne
      have hno' : si.hasSo = false := hno
      rw [hso.2 (by rw [← hmod]; exact hne)] at hno'
      cases hno'
    · rw [hmod]
      exact hso.1 hyes
  have hne : (sdu.drop so).take len ≠ [] := ne_nil_of_length_pos (by omega)
  refine ⟨hpos, _, _, readDataPduHeader_write hw hne, rfl, hw.toFits, rfl, hmod, hpay, ?_, ?_, ?_⟩
  · rw [hmod, hpay]
  · rw [hmod, hpay]
    exact hle
  · rw [hmod, hpay]
    exact hlast

theorem dataPdu_of_header {sdu : Bytes} {si : RlcSiField} {so len : ℕ} (p : Bool) (hlen : sdu.length ≤ 2 ^ 16)
    (hpos : 0 < len) (hle : so + len ≤ sdu.length) (hso : si.hasSo = true ↔ so ≠ 0)
    (hlast : (si = .fullSdu ∨ si = .lastSegment) ↔ so + len = sdu.length) :
    ∃ pdu, assemblePdu (dataHeader cfg p si (i % cfg.snFieldLength.mod) so) sdu len = some pdu ∧
      DataPdu cfg.snFieldLength i sdu so len pdu := by
  have hmod : (dataHeader cfg p si (i % cfg.snFieldLength.mod) so).so = so := dataHeader_so (by omega)
  refine ⟨_, assemblePdu_of_le hpos (by rw [hmod]; exact hle), ?_⟩
  rw [hmod]
  exact dataPdu_write p hlen hpos hle hso hlast

/-- the polling bit changes the polling state only -/
theorem getPollingBit_same (s : RlcTxAmEntity) (sn : ℕ) (isRetx : Bool) (payloadSize : ℕ) :
    SameWindow s (s.getPollingBit cfg sn isRetx payloadSize).1 ∧
      (s.getPollingBit cfg sn isRetx payloadSize).1.txWindow = s.txWindow ∧
      (s.getPollingBit cfg sn isRetx payloadSize).1.retxQueue = s.retxQueue ∧
      (s.getPollingBit cfg sn isRetx payloadSize).1.sduQueue = s.sduQueue := by
  unfold getPollingBit
  cases isRetx <;> dsimp only <;> split_ifs <;>
    exact ⟨.of_eq rfl, rfl, rfl, rfl⟩

/-- writing the info of one SN in place -/
theorem wrote_modify {sn : ℕ} {info : RlcTxAmSduInfo} {f : RlcTxAmSduInfo → RlcTxAmSduInfo}
    (hf : s.txWindow.find? sn = some info) (hack : s'.st.txNextAck = s.st.txNextAck)
    (hwin : s'.txWindow = s.txWindow.modify sn f) (hfaults : s'.faults = s.faults) (hevents : NoDelivery s s') :
    Wrote sn (f info) s s' := by
  refine ⟨hack, by rw [hwin]; rfl, fun k => ?_, hfaults, hevents⟩
  rw [hwin, find?_modify, hf]
  rfl

/-- what is read from the queue has been in it, before what stays -/
theorem read_bufs {q q' : RlcSduQueue} {sdu : RlcSdu} (h : q.read = (some sdu, q')) :
    (sdu.buf :: q'.bufs).Sublist q.bufs := by
  unfold RlcSduQueue.read at h
  have hsub := dropWhile_sublist (fun e : QueuedSdu => e.discarded) (l := q.queue)
  generalize q.queue.dropWhile (·.discarded) = rest at h hsub
  cases rest with
  | nil => cases h
  | cons e rest =>
    cases h
    exact hsub.map fun e => e.sdu.buf

theorem read_none {q q' : RlcSduQueue} (h : q.read = (none, q')) : q'.bufs = [] := by
  unfold RlcSduQueue.read at h
  split at h
  · cases h
    rfl
  · cases h

theorem notifyTransmitted_eq (s : RlcTxAmEntity) (sdu : RlcSdu) :
    ∃ events, s.notifyTransmitted sdu = { s with events := s.events ++ events } ∧ ∀ e ∈ events, e.deliveredSn =
    none := by
  unfold notifyTransmitted
  cases sdu.pdcpSn with
  | none => exact ⟨[], by simp, by simp⟩
  | some pdcpSn =>
    refine ⟨_, rfl, fun e he => ?_⟩
    rw [mem_singleton.1 he]
    cases sdu.isRetx <;> rfl

/-! ## New data -/

/-- the window element of the SDU under segmentation -/
def segmented (s : RlcTxAmEntity) : Option RlcTxAmSduInfo :=
  if s.snUnderSegmentation = invalidRlcSn then none else s.txWindow.find? s.snUnderSegmentation

/-- the end of a call with new data: the polling bit is taken in `b`, and once the PDU is there the window element of
`sn` and TX_Next move on -/
def finish (cfg : RlcTxAmConfig) (b : RlcTxAmEntity) (sn : ℕ) (si : RlcSiField) (so : ℕ) (sdu : Bytes) (len counted : ℕ)
    (last : Bool) : RlcTxAmEntity × Bytes :=
  let (b, p) := b.getPollingBit cfg b.st.txNext false counted
  match assemblePdu (dataHeader cfg p si b.st.txNext so) sdu len with
  | none => (b, [])
  | some pdu =>
    ({ b with
        txWindow := b.txWindow.modify sn fun i => { i with nextSo := i.nextSo + counted }
        st := { b.st with txNext := if last then (b.st.txNext + 1) % cfg.snFieldLength.mod else b.st.txNext } }, pdu)

/-- what pull_pdu can do while no retransmission is queued and no STATUS PDU is due, in any state -/
inductive NewData (cfg : RlcTxAmConfig) (s : RlcTxAmEntity) (grantLen : ℕ) : RlcTxAmEntity × Bytes → Prop
  | nothing : NewData cfg s grantLen (s, [])
  | dropped (faults : List TxFault) (hseg : s.snUnderSegmentation ≠ invalidRlcSn)
      (hlost : ∀ info, s.txWindow.find? s.snUnderSegmentation = some info →
        ¬(0 < info.nextSo ∧ info.nextSo < info.sdu.length)) :
      NewData cfg s grantLen ({ s with snUnderSegmentation := invalidRlcSn, faults := faults }, [])
  | emptied (q : RlcSduQueue) (faults : List TxFault) (hseg : s.segmented = none) (hroom : s.isTxWindowFull cfg = false)
      (hfaults : s.snUnderSegmentation = invalidRlcSn → s.txWindow.contains s.st.txNext = false → faults = s.faults)
      (hread : s.sduQueue.read = (none, q)) :
      NewData cfg s grantLen ({ s with
        snUnderSegmentation := invalidRlcSn
        sduQueue := q
        faults := faults
        txWindow := (s.txWindow.overwrite s.st.txNext {}).erase s.st.txNext }, [])
  | segment (info : RlcTxAmSduInfo) (last : Bool) (k : ℕ) (hseg : s.snUnderSegmentation ≠ invalidRlcSn)
      (hinfo : s.txWindow.find? s.snUnderSegmentation = some info)
      (hprogress : 0 < info.nextSo ∧ info.nextSo < info.sdu.length) (hgrant : headMaxSize cfg < grantLen)
      (hk : k = min (info.sdu.length - info.nextSo) (grantLen - headMaxSize cfg))
      (hlast : last = true ↔ info.nextSo + k = info.sdu.length) :
      NewData cfg s grantLen (finish cfg
        { s with snUnderSegmentation := if last then invalidRlcSn else s.snUnderSegmentation } s.snUnderSegmentation
        (if last then .lastSegment else .middleSegment) info.nextSo info.sdu k k last)
  | queued (sdu : RlcSdu) (q : RlcSduQueue) (faults : List TxFault) (events : List TxEvent) (whole : Bool)
      (hseg : s.segmented = none) (hroom : s.isTxWindowFull cfg = false)
      (hfaults : s.snUnderSegmentation = invalidRlcSn → s.txWindow.contains s.st.txNext = false → faults = s.faults)
      (hread : s.sduQueue.read = (some sdu, q)) (hgrant : headMinSize cfg < grantLen)
      (hevents : ∀ e ∈ events, e.deliveredSn = none)
      (hwhole : whole = true ↔ sdu.buf.length + headMinSize cfg ≤ grantLen) :
      NewData cfg s grantLen (finish cfg
        { s with
          snUnderSegmentation := if whole then invalidRlcSn else s.st.txNext
          sduQueue := q
          faults := faults
          events := s.events ++ events
          txWindow := (s.txWindow.overwrite s.st.txNext {}).modify s.st.txNext fun _ => sduInfo sdu }
        s.st.txNext (if whole then .fullSdu else .firstSegment) 0 sdu.buf
        (if whole then sdu.buf.length else grantLen - headMinSize cfg) (if whole then 0 else grantLen - headMinSize cfg)
          whole)

theorem buildContinuedSduSegment_newData {info : RlcTxAmSduInfo} (grantLen : ℕ)
    (hseg : s.snUnderSegmentation ≠ invalidRlcSn) (hinfo : s.txWindow.find? s.snUnderSegmentation = some info) :
    NewData cfg s grantLen (s.buildContinuedSduSegment cfg info grantLen) := by
  have hdrop (h : ¬(0 < info.nextSo ∧ info.nextSo < info.sdu.length)) :
      NewData cfg s grantLen ({ s with snUnderSegmentation := invalidRlcSn }, []) := by
    refine .dropped s.faults hseg fun info' hinfo' => ?_
    cases hinfo.symm.trans hinfo'
    exact h
  unfold buildContinuedSduSegment
  split_ifs with h0 h1 h2
  · exact hdrop (by omega)
  · exact hdrop (by omega)
  · exact .nothing
  · by_cases hend : info.sdu.length - info.nextSo + headMaxSize cfg > grantLen
    · simp only [hend, decide_true, Bool.not_true, Bool.false_eq_true, if_false]
      exact .segment info false (grantLen - headMaxSize cfg) hseg hinfo (by omega) (by omega) (by omega)
        (by simp; omega)
    · simp only [hend, decide_false, Bool.not_false, if_true]
      exact .segment info true (info.sdu.length - info.nextSo) hseg hinfo (by omega) (by omega) (by omega)
        (by simp; omega)

theorem buildFullSdu_eq (b : RlcTxAmEntity) (info : RlcTxAmSduInfo) (sn : ℕ) :
    b.buildFullSdu cfg info = finish cfg b sn .fullSdu 0 info.sdu info.sdu.length 0 true := by
  unfold buildFullSdu finish
  generalize b.getPollingBit cfg b.st.txNext false 0 = out
  cases hpdu : assemblePdu (dataHeader cfg out.2 .fullSdu out.1.st.txNext 0) info.sdu info.sdu.length with
  | none => simp only [hpdu]
  | some pdu => simp only [hpdu, add_zero, if_true, CircularMap.modify_id]

theorem buildFirstSduSegment_eq (b : RlcTxAmEntity) {info : RlcTxAmSduInfo} {grantLen : ℕ}
    (hgrant : headMinSize cfg < grantLen) (hbig : grantLen < info.sdu.length + headMinSize cfg)
    (hso : info.nextSo = 0) :
    b.buildFirstSduSegment cfg info grantLen = finish cfg { b with snUnderSegmentation := b.st.txNext } b.st.txNext
      .firstSegment 0 info.sdu (grantLen - headMinSize cfg) (grantLen - headMinSize cfg) false := by
  have hnext := (@getPollingBit_same cfg { b with snUnderSegmentation := b.st.txNext } b.st.txNext false
    (grantLen - headMinSize cfg)).1.next
  unfold buildFirstSduSegment finish
  rw [if_neg (Nat.not_le_of_lt hbig), if_neg (Nat.not_le_of_lt hgrant), hso]
  dsimp only at hnext ⊢
  generalize { b with snUnderSegmentation := b.st.txNext }.getPollingBit cfg b.st.txNext false
    (grantLen - headMinSize cfg) = out at hnext ⊢
  rw [← hnext]
  rfl

/-- the queue is served, the SDU under segmentation being lost if there was one -/
theorem buildNewPdu_newData {faults : List TxFault} (grantLen : ℕ) (poolOk : Bool) (hseg : s.segmented = none)
    (hfaults : s.snUnderSegmentation = invalidRlcSn → faults = s.faults) : NewData cfg s grantLen
      ({ s with snUnderSegmentation := invalidRlcSn, faults := faults }.buildNewPdu cfg grantLen poolOk) := by
  have hquiet : NewData cfg s grantLen ({ s with snUnderSegmentation := invalidRlcSn, faults := faults }, []) := by
    by_cases hidle : s.snUnderSegmentation = invalidRlcSn
    · rw [hfaults hidle, ← hidle]
      exact .nothing
    · rw [segmented, if_neg hidle] at hseg
      exact .dropped faults hidle fun info hinfo => by cases hseg.symm.trans hinfo
  unfold buildNewPdu
  split_ifs with h1 h2 h3
  · exact hquiet
  · exact hquiet
  · exact hquiet
  · have hroom : s.isTxWindowFull cfg = false := Bool.eq_false_iff.2 h2
    obtain ⟨faults', hadd, hfaults'⟩ : ∃ faults', { s with snUnderSegmentation := invalidRlcSn, faults := faults }.addSn
        s.st.txNext = { s with
          snUnderSegmentation := invalidRlcSn
          faults := faults'
          txWindow := s.txWindow.overwrite s.st.txNext {} } ∧
        (s.txWindow.contains s.st.txNext = false → faults' = faults) := by
      unfold addSn
      cases hcontains : s.txWindow.contains s.st.txNext with
      | false => exact ⟨faults, by simp, fun _ => rfl⟩
      | true => exact ⟨_, by simp [fault]; rfl, by simp⟩
    have hkept (hidle : s.snUnderSegmentation = invalidRlcSn) (hnone : s.txWindow.contains s.st.txNext = false) :
        faults' = s.faults := (hfaults' hnone).trans (hfaults hidle)
    rw [hadd]
    dsimp only
    cases hread : s.sduQueue.read with
    | mk o q =>
      cases o with
      | none => exact .emptied q faults' hseg hroom hkept hread
      | some sdu =>
        obtain ⟨events, hevents, hno⟩ := notifyTransmitted_eq { s with
          snUnderSegmentation := invalidRlcSn
          sduQueue := q
          faults := faults'
          txWindow := (s.txWindow.overwrite s.st.txNext {}).modify s.st.txNext fun _ => sduInfo sdu } sdu
        unfold fillElement
        dsimp only
        rw [hevents]
        split_ifs with hbig
        · rw [buildFirstSduSegment_eq _ (Nat.lt_of_not_le h1) hbig rfl]
          exact .queued sdu q faults' events false hseg hroom hkept hread (Nat.lt_of_not_le h1) hno
            (iff_of_false Bool.false_ne_true (Nat.not_le_of_lt hbig))
        · rw [buildFullSdu_eq _ _ s.st.txNext]
          exact .queued sdu q faults' events true hseg hroom hkept hread (Nat.lt_of_not_le h1) hno
            (iff_of_true rfl (Nat.le_of_not_lt hbig))

theorem pullPdu_newData (grantLen : ℕ) (poolOk : Bool) (hretx : s.retxQueue.isEmpty = true) :
    NewData cfg s grantLen (s.pullPdu cfg none grantLen poolOk) := by
  unfold pullPdu
  by_cases hmax : s.maxRetxReached = true
  · rw [if_pos hmax]
    exact .nothing
  rw [if_neg hmax]
  rw [hretx, Bool.not_true, if_neg Bool.false_ne_true]
  by_cases hseg : s.snUnderSegmentation = invalidRlcSn
  · rw [if_neg (not_not.2 hseg)]
    split_ifs
    · exact .nothing
    · have h := @buildNewPdu_newData cfg s s.faults grantLen poolOk (if_pos hseg) fun _ => rfl
      rwa [← hseg] at h
  · rw [if_pos hseg]
    cases hinfo : s.txWindow.find? s.snUnderSegmentation with
    | some info => exact buildContinuedSduSegment_newData grantLen hseg hinfo
    | none =>
      have hnone : s.segmented = none := by rw [segmented, if_neg hseg, hinfo]
      dsimp only
      split_ifs
      · exact .dropped _ hseg fun info h => by cases hinfo.symm.trans h
      · exact buildNewPdu_newData grantLen poolOk hnone fun hidle => absurd hidle hseg

/-- a piece that is in the SDU is sent -/
theorem finish_spec {b : RlcTxAmEntity} {info : RlcTxAmSduInfo} {si : RlcSiField} {sdu : Bytes} {sn so len : ℕ}
    (counted : ℕ) (last : Bool) (hlen : sdu.length ≤ 2 ^ 16) (hpos : 0 < len) (hle : so + len ≤ sdu.length)
    (hso : si.hasSo = true ↔ so ≠ 0) (hsi : (si = .fullSdu ∨ si = .lastSegment) ↔ so + len = sdu.length)
    (hnext : b.st.txNext = N % cfg.snFieldLength.mod) (hsn : sn = N % cfg.snFieldLength.mod)
    (hfind : b.txWindow.find? (N % cfg.snFieldLength.mod) = some info) :
    let out := finish cfg b sn si so sdu len counted last
    DataPdu cfg.snFieldLength N sdu so len out.2 ∧
      Wrote (N % cfg.snFieldLength.mod) { info with nextSo := info.nextSo + counted } b out.1 ∧
      out.1.st.txNext = (if last then N + 1 else N) % cfg.snFieldLength.mod ∧
      out.1.snUnderSegmentation = b.snUnderSegmentation ∧ out.1.retxQueue = b.retxQueue ∧ out.1.sduQueue =
        b.sduQueue := by
  unfold finish
  obtain ⟨hs, hwin, hretx, hsdu⟩ := @getPollingBit_same cfg b b.st.txNext false counted
  generalize b.getPollingBit cfg b.st.txNext false counted = r at hs hwin hretx hsdu ⊢
  obtain ⟨b', p⟩ := r
  have hnext' : b'.st.txNext = N % cfg.snFieldLength.mod := hs.next.trans hnext
  obtain ⟨pdu, hasm, hpdu⟩ := @dataPdu_of_header cfg N sdu si so len p hlen hpos hle hso hsi
  dsimp only at hwin ⊢
  rw [hnext', hasm]
  refine ⟨hpdu, ?_, ?_, hs.seg, hretx, hsdu⟩
  · exact wrote_modify (f := fun i => { i with nextSo := i.nextSo + counted }) hfind hs.ack (by rw [hwin, hsn])
      hs.faults
      hs.events
  · cases last
    · rfl
    · exact mod_add_mod _ _ _

/-- nothing is sent -/
theorem pulled_nothing (hz : Sized cfg N s) : Pulled cfg A N s s [] :=
  .idle (SameWindow.refl s) (RetxFrom.of_subset hz.retx (List.Subset.refl _)) (List.Sublist.refl _)

/-- TX_Next is not in the window while no SDU is being segmented, so that add_sn finds its slot free -/
theorem find?_addSn (h : Window cfg A N s) (hidle : s.snUnderSegmentation = invalidRlcSn)
    (hroom : N < A + cfg.snFieldLength.amWindowSize) (info : RlcTxAmSduInfo) (k : ℕ) :
    s.txWindow.find? s.st.txNext = none ∧ (s.txWindow.overwrite s.st.txNext info).find? k =
      if k = s.st.txNext then some info else s.txWindow.find? k := by
  have h0 := mod_eq cfg.snFieldLength
  have hle := h.le
  have htop : s.top N = N := top_of_idle hidle
  rw [h.next, find?_overwrite]
  refine ⟨h.infoAt_none htop.le (by omega), ?_⟩
  split_ifs with hk hslot
  · rfl
  · -- nothing else lives in the slot of TX_Next
    by_contra hne
    obtain ⟨info, hinfo⟩ := Option.ne_none_iff_exists'.1 (Ne.symm hne)
    obtain ⟨j, hj, hjt, rfl⟩ := h.exists_index hinfo
    rw [h.cap] at hslot
    exact hk (by rw [slot_inj hj (by omega) hle hroom hslot])
  · rfl

theorem Window.room_of_not_isFull (h : Window cfg A N s) (hidle : s.snUnderSegmentation = invalidRlcSn)
    (hfull : s.isTxWindowFull cfg = false) : N < A + cfg.snFieldLength.amWindowSize := by
  rw [isTxWindowFull, Bool.or_eq_false_iff] at hfull
  have hroom := h.room_of_not_full hfull.1
  rwa [top_of_idle hidle] at hroom

theorem NewData.pulled {grantLen : ℕ} {out : RlcTxAmEntity × Bytes} (hd : NewData cfg s grantLen out)
    (h : Window cfg A N s) (hz : Sized cfg N s) : Pulled cfg A N s out.1 out.2 := by
  -- the SDU under segmentation is in the window
  have hcont (hseg : s.snUnderSegmentation ≠ invalidRlcSn) : s.snUnderSegmentation = N % cfg.snFieldLength.mod ∧
      ∃ info, infoAt cfg s N = some info := by
    have h0 := mod_eq cfg.snFieldLength
    have hcont := h.seg.resolve_left hseg
    have htop := top_of_segmenting hcont
    have hroom := h.room
    have hle := h.le
    exact ⟨hcont, (h.exists_infoAt_iff hle (by omega)).2 (by omega)⟩
  have hidle (hnone : s.segmented = none) : s.snUnderSegmentation = invalidRlcSn := by
    by_contra hseg
    obtain ⟨hsn, info, hinfo⟩ := hcont hseg
    rw [segmented, if_neg hseg, hsn] at hnone
    cases hnone.symm.trans hinfo
  cases hd with
  | nothing => exact pulled_nothing hz
  | dropped faults hseg hlost =>
    obtain ⟨hsn, info, hinfo⟩ := hcont hseg
    exact absurd (hz.progress hseg info hinfo) (hlost info (by rw [hsn]; exact hinfo))
  | emptied q faults hseg hroom hfaults hread =>
    -- the SN is taken back
    have hidle := hidle hseg
    have hroom := h.room_of_not_isFull hidle hroom
    have hfree := (find?_addSn h hidle hroom {} 0).1
    refine .idle ⟨rfl, rfl, hidle.symm, rfl, fun k => ?_, ?_, NoDelivery.of_eq rfl⟩
      (RetxFrom.of_subset hz.retx (List.Subset.refl _)) ?_
    · dsimp only
      rw [find?_erase, (find?_addSn h hidle hroom {} k).2]
      split_ifs with hk
      · rw [hk, hfree]
      · rfl
    · exact hfaults hidle (by rw [CircularMap.contains, hfree]; rfl)
    · dsimp only
      rw [read_none hread]
      exact nil_sublist _
  | segment info last k hseg hinfo hprogress hgrant hk hlast =>
    obtain ⟨hsn, -⟩ := hcont hseg
    have hlen := (hz.window _ _ hinfo).2
    rw [hsn] at hinfo
    obtain ⟨hpdu, hwrote, hnext, hseg', hretx, hsdu⟩ := @finish_spec cfg N
      { s with snUnderSegmentation := if last then invalidRlcSn else s.snUnderSegmentation } info
      (if last then .lastSegment else .middleSegment) info.sdu s.snUnderSegmentation info.nextSo k k last hlen
        (by omega)
      (by omega) (by cases last <;> simp [RlcSiField.hasSo] <;> omega) (by rw [← hlast]; cases last <;> simp) h.next hsn
        hinfo
    have hwrote : Wrote _ _ s _ := { hwrote with }
    cases last with
    | false =>
      have hne : info.nextSo + k ≠ info.sdu.length := fun heq => Bool.noConfusion (hlast.2 heq)
      exact .middle info k hsn hinfo hwrote (by omega) hpdu hnext (hseg'.trans hsn) hretx hsdu
    | true => exact .last info _ k hsn hinfo hwrote rfl (hlast.1 rfl) hpdu hnext hseg' hretx hsdu
  | queued sdu q faults events whole hseg hroom hfaults hread hgrant hevents hwhole =>
    have hidle := hidle hseg
    have hroom := h.room_of_not_isFull hidle hroom
    have hfree := (find?_addSn h hidle hroom {} 0).1
    have hbufs := read_bufs hread
    obtain ⟨hpos, hlen⟩ := hz.queue sdu.buf (hbufs.subset mem_cons_self)
    have hfill (k : ℕ) : ((s.txWindow.overwrite s.st.txNext {}).modify s.st.txNext fun _ => sduInfo sdu).find? k =
        if k = N % cfg.snFieldLength.mod then some (sduInfo sdu) else s.txWindow.find? k := by
      rw [find?_modify, (find?_addSn h hidle hroom {} k).2, (find?_addSn h hidle hroom {} s.st.txNext).2,
        if_pos rfl, h.next]
      split_ifs <;> rfl
    obtain ⟨hpos', hle', hsi⟩ : 0 < (if whole then sdu.buf.length else grantLen - headMinSize cfg) ∧
        0 + (if whole then sdu.buf.length else grantLen - headMinSize cfg) ≤ sdu.buf.length ∧
        (whole = true ↔ 0 + (if whole then sdu.buf.length else grantLen - headMinSize cfg) = sdu.buf.length) := by
      cases whole
      · simp only [Bool.false_eq_true, if_false, false_iff] at hwhole ⊢
        omega
      · simp only [if_true, true_iff]
        omega
    obtain ⟨hpdu, hwrote, hnext, hseg', hretx, hsdu⟩ := @finish_spec cfg N
      { s with
        snUnderSegmentation := if whole then invalidRlcSn else s.st.txNext
        sduQueue := q
        faults := faults
        events := s.events ++ events
        txWindow := (s.txWindow.overwrite s.st.txNext {}).modify s.st.txNext fun _ => sduInfo sdu } (sduInfo sdu)
      (if whole then .fullSdu else .firstSegment) sdu.buf s.st.txNext 0
      (if whole then sdu.buf.length else grantLen - headMinSize cfg) (if whole then 0 else grantLen - headMinSize cfg)
        whole
      hlen hpos' hle' (by cases whole <;> simp [RlcSiField.hasSo]) (by rw [← hsi]; cases whole <;> simp) h.next h.next
      ((hfill _).trans (if_pos rfl))
    generalize finish cfg _ _ _ _ _ _ _ _ = out at hpdu hwrote hnext hseg' hretx hsdu ⊢
    have hwrote : Wrote (N % cfg.snFieldLength.mod) { sduInfo sdu with
        nextSo := (sduInfo sdu).nextSo + if whole then 0 else grantLen - headMinSize cfg } s out.1 := by
      refine ⟨hwrote.ack, hwrote.cap, fun k => ?_, hwrote.faults.trans ?_,
        (NoDelivery.append events rfl hevents).trans hwrote.events⟩
      · rw [hwrote.find, hfill]
        split_ifs <;> rfl
      · exact hfaults hidle (by rw [CircularMap.contains, hfree]; rfl)
    have hsub : (sdu.buf :: out.1.sduQueue.bufs).Sublist s.sduQueue.bufs := by rwa [hsdu]
    cases whole with
    | false =>
      have hpart : 0 + (grantLen - headMinSize cfg) ≠ sdu.buf.length := fun heq => Bool.noConfusion (hsi.2 heq)
      simp only [Bool.false_eq_true, if_false, zero_add] at hpos' hle' hpart
      have hso : (sduInfo sdu).nextSo + (grantLen - headMinSize cfg) = grantLen - headMinSize cfg := zero_add _
      refine .first _ hidle hroom hwrote ?_ ?_ hnext (hseg'.trans h.next) hretx hsub
      · simp only [Bool.false_eq_true, if_false, hso]
        exact ⟨hpos', lt_of_le_of_ne hle' hpart⟩
      · simp only [Bool.false_eq_true, if_false, hso]
        exact hpdu
    | true => exact .full _ hidle hroom hwrote hpdu hnext hseg' hretx hsub

/-! ## Retransmissions -/

/-- the header of a retransmission is as long as expected -/
theorem retxHeader_length (p sduComplete : Bool) (hso : r.so < 2 ^ 16) :
    (rlcAmWriteDataPduHeader (dataHeader cfg p (retxSi r.so sduComplete) r.sn r.so)).length =
      getRetxExpectedHdrLen cfg r := by
  have hmod : r.so % 2 ^ 16 = r.so := mod_eq_of_lt hso
  unfold rlcAmWriteDataPduHeader getRetxExpectedHdrLen dataHeader headMinSize headMaxSize
  rw [hmod, length_append]
  by_cases hz : r.so = 0 <;> cases cfg.snFieldLength <;> simp [hz, rlcAmPduHeaderMaxSize, rlcAmPduHeaderSoSize,
    rlcAmPduHeaderMinSize]

theorem retxSi_hasSo (so : ℕ) (sduComplete : Bool) : (retxSi so sduComplete).hasSo = true ↔ so ≠ 0 := by
  unfold retxSi RlcSiField.hasSo
  by_cases hso : so = 0 <;> cases sduComplete <;> simp [hso]

theorem retxSi_last (so : ℕ) (sduComplete : Bool) :
    (retxSi so sduComplete = .fullSdu ∨ retxSi so sduComplete = .lastSegment) ↔ sduComplete = true := by
  unfold retxSi
  by_cases hso : so = 0 <;> cases sduComplete <;> simp [hso]

/-- the queue after sending `k` bytes of its front -/
theorem retxFrom_front {k : ℕ} (hz : Sized cfg N s) (hq : s.retxQueue.queue.head? = some r) (hk : k < r.length) :
    RetxFrom s.retxQueue.queue (s.retxQueue.replaceFront { r with so := r.so + k, length := r.length - k }).queue := by
  obtain ⟨rest, hq⟩ := head?_eq_some_iff.1 hq
  rw [RlcRetxQueue.replaceFront_queue, hq, if_neg (cons_ne_nil _ _)]
  intro r' hr'
  rcases mem_cons.1 hr' with rfl | hmem
  · refine ⟨by dsimp only; omega, r, mem_cons_self, rfl, by dsimp only; omega⟩
  · have hmem' : r' ∈ r :: rest := mem_cons_of_mem r hmem
    exact ⟨hz.retx r' (hq ▸ hmem'), r', hmem', rfl, rfl⟩

theorem retxFrom_pop (hz : Sized cfg N s) : RetxFrom s.retxQueue.queue s.retxQueue.pop.queue := by
  refine RetxFrom.of_subset hz.retx ?_
  rw [RlcRetxQueue.pop_queue]
  exact tail_subset _

/-- the entity once `k` bytes of the retransmission at the front of the queue are on their way -/
def sending (cfg : RlcTxAmConfig) (s : RlcTxAmEntity) (r : RlcTxAmdRetx) (info : RlcTxAmSduInfo) (k : ℕ) :
    RlcTxAmEntity :=
  if k = r.length then
    { s with
      retxSn := r.sn
      maxRetxReached := if info.retxCount = cfg.maxRetxThresh then true else s.maxRetxReached
      retxQueue := s.retxQueue.pop }
  else
    { s with
      retxSn := r.sn
      retxQueue := s.retxQueue.replaceFront { r with so := r.so + k, length := r.length - k } }

theorem sending_same (s : RlcTxAmEntity) (r : RlcTxAmdRetx) (info : RlcTxAmSduInfo) (k : ℕ) :
    SameWindow s (s.sending cfg r info k) ∧ (s.sending cfg r info k).sduQueue = s.sduQueue := by
  unfold sending
  split_ifs <;> exact ⟨.of_eq rfl, rfl⟩

/-- bytes of a retransmission that a grant carries -/
def retxPayload (cfg : RlcTxAmConfig) (r : RlcTxAmdRetx) (grantLen : ℕ) : ℕ :=
  min r.length (grantLen - getRetxExpectedHdrLen cfg r)

/-- the outcomes of build_retx_pdu for the front of the queue: its range is not in the SDU, the grant is too small, or
its first bytes are sent -/
theorem buildRetx_cases {info : RlcTxAmSduInfo} (s : RlcTxAmEntity) (grantLen : ℕ)
    (hpos : 0 < r.length) (hlen : info.sdu.length ≤ 2 ^ 16) : (info.sdu.length < r.so + r.length ∧
      s.buildRetx cfg r info grantLen = ({ s with retxSn := r.sn, retxQueue := s.retxQueue.pop }, [])) ∨
    (r.so + r.length ≤ info.sdu.length ∧ grantLen ≤ getRetxExpectedHdrLen cfg r ∧
      s.buildRetx cfg r info grantLen = ({ s with retxSn := r.sn }, [])) ∨
    (r.so + r.length ≤ info.sdu.length ∧ getRetxExpectedHdrLen cfg r < grantLen ∧
      ∃ b p, (s.sending cfg r info (retxPayload cfg r grantLen)).getPollingBit cfg r.sn true 0 = (b, p) ∧
        s.buildRetx cfg r info grantLen = (b, rlcAmWriteDataPduHeader
          (dataHeader cfg p (retxSi r.so (r.so + retxPayload cfg r grantLen ≥ info.sdu.length)) r.sn r.so) ++
            (info.sdu.drop r.so).take (retxPayload cfg r grantLen))) := by
  unfold buildRetx
  by_cases hend : r.so + r.length > info.sdu.length
  · rw [if_pos hend]
    exact .inl ⟨hend, rfl⟩
  rw [if_neg hend]
  refine .inr ?_
  by_cases hgrant : grantLen ≤ getRetxExpectedHdrLen cfg r
  · rw [if_pos hgrant]
    exact .inl ⟨Nat.le_of_not_lt hend, hgrant, rfl⟩
  rw [if_neg hgrant]
  refine .inr ⟨Nat.le_of_not_lt hend, Nat.lt_of_not_le hgrant, ?_⟩
  have hkpos : 0 < retxPayload cfg r grantLen := by
    unfold retxPayload
    omega
  have hkle : retxPayload cfg r grantLen ≤ r.length := min_le_left _ _
  rw [show min r.length (grantLen - getRetxExpectedHdrLen cfg r) = retxPayload cfg r grantLen from rfl]
  generalize retxPayload cfg r grantLen = k at hkpos hkle ⊢
  simp only [decide_eq_true_eq]
  have hb : (if k = r.length then
      { s with
        retxSn := r.sn
        maxRetxReached := if info.retxCount = cfg.maxRetxThresh then true else s.maxRetxReached
        retxQueue := s.retxQueue.pop }
      else { s with
        retxSn := r.sn
        retxQueue := s.retxQueue.replaceFront { r with so := r.so + k, length := r.length - k } }) =
      s.sending cfg r info k := rfl
  rw [hb]
  generalize (s.sending cfg r info k).getPollingBit cfg r.sn true 0 = g
  obtain ⟨b, p⟩ := g
  have hso : (dataHeader cfg p (retxSi r.so (r.so + k ≥ info.sdu.length)) r.sn r.so).so = r.so :=
    dataHeader_so (by omega)
  refine ⟨b, p, rfl, ?_⟩
  rw [if_neg (not_not.2 (retxHeader_length p _ (by omega))), assemblePdu_of_le hkpos (by rw [hso]; omega), hso]

/-- the front of the queue is sent as far as the grant allows -/
theorem buildRetx_spec {info : RlcTxAmSduInfo} (grantLen : ℕ) (h : Window cfg A N s)
    (hz : Sized cfg N s) (hq : s.retxQueue.queue.head? = some r) (hinfo : s.txWindow.find? r.sn = some info) :
    let out := s.buildRetx cfg r info grantLen
    SameWindow s out.1 ∧ RetxFrom s.retxQueue.queue out.1.retxQueue.queue ∧ out.1.sduQueue = s.sduQueue ∧
      (out.2 = [] ∨ ∃ i k, A ≤ i ∧ i < s.top N ∧ r.sn = i % cfg.snFieldLength.mod ∧ k ≤ r.length ∧
        r.so + r.length ≤ info.sdu.length ∧ DataPdu cfg.snFieldLength i info.sdu r.so k out.2) := by
  have hpos := hz.retx r (mem_of_mem_head? hq)
  have hlen := (hz.window r.sn info hinfo).2
  obtain ⟨i, hi, hit, hsn⟩ := h.exists_index hinfo
  have hsame : ∀ q, SameWindow s { s with retxSn := r.sn, retxQueue := q } := fun q => .of_eq rfl
  rcases @buildRetx_cases cfg r info s grantLen hpos hlen with
    ⟨-, hout⟩ | ⟨-, -, hout⟩ | ⟨hend, hgrant, b, p, hb, hout⟩
  · rw [hout]
    exact ⟨hsame _, retxFrom_pop hz, rfl, .inl rfl⟩
  · rw [hout]
    exact ⟨hsame _, RetxFrom.of_subset hz.retx (List.Subset.refl _), rfl, .inl rfl⟩
  · rw [hout]
    have hkpos : 0 < retxPayload cfg r grantLen := by
      unfold retxPayload
      omega
    have hkle : retxPayload cfg r grantLen ≤ r.length := min_le_left _ _
    generalize retxPayload cfg r grantLen = k at hb hkpos hkle ⊢
    obtain ⟨hs₁, hsdu₁⟩ := @sending_same cfg s r info k
    obtain ⟨hs, -, hretx, hsdu⟩ := @getPollingBit_same cfg (s.sending cfg r info k) r.sn true 0
    rw [hb] at hs hretx hsdu
    -- the queue moves on by what is sent
    have hfrom : RetxFrom s.retxQueue.queue b.retxQueue.queue := by
      rw [hretx]
      unfold sending
      by_cases hk : k = r.length
      · rw [if_pos hk]
        exact retxFrom_pop hz
      · rw [if_neg hk]
        exact retxFrom_front hz hq (by omega)
    refine ⟨hs₁.trans hs, hfrom, hsdu.trans hsdu₁, .inr ⟨i, k, hi, hit, hsn, hkle, hend, ?_⟩⟩
    rw [hsn]
    exact dataPdu_write p hlen hkpos (by omega) (retxSi_hasSo _ _) (by rw [retxSi_last]; simp; omega)

/-- the front of the queue after dropping retransmissions of SNs that left the window -/
theorem dropMissingRetx_spec (s : RlcTxAmEntity) :
    SameWindow s s.dropMissingRetx ∧ s.dropMissingRetx.retxQueue.queue ⊆ s.retxQueue.queue ∧
      s.dropMissingRetx.sduQueue = s.sduQueue ∧
      ∀ r, s.dropMissingRetx.retxQueue.queue.head? = some r → ∃ info, s.txWindow.find? r.sn = some info := by
  have hq : s.dropMissingRetx.retxQueue.queue = s.retxQueue.queue.dropWhile fun r => !s.txWindow.contains r.sn :=
    RlcRetxQueue.popWhile_queue _ _ _ le_rfl
  refine ⟨.of_eq rfl, ?_, rfl, fun r hr => ?_⟩
  · rw [hq]
    exact (dropWhile_sublist _).subset
  · rw [hq] at hr
    have hin := head?_dropWhile_not (fun r : RlcTxAmdRetx => !s.txWindow.contains r.sn) s.retxQueue.queue
    rw [hr] at hin
    exact Option.isSome_iff_exists.1 (by simpa [CircularMap.contains] using hin)

theorem RetxFrom.mono {old old' new : List RlcTxAmdRetx} (hsub : old' ⊆ old) (h : RetxFrom old' new) :
    RetxFrom old new := by
  intro r' hr'
  obtain ⟨hpos, r, hr, heq⟩ := h r' hr'
  exact ⟨hpos, r, hsub hr, heq⟩

/-- nothing is left to be sent again, or the front of the queue is for an SN of the window -/
theorem buildRetxPdu_cases (s : RlcTxAmEntity) (grantLen : ℕ) :
    s.buildRetxPdu cfg grantLen = (s.dropMissingRetx, []) ∧ s.dropMissingRetx.retxQueue.queue = [] ∨
      ∃ r info, s.dropMissingRetx.retxQueue.queue.head? = some r ∧ s.dropMissingRetx.txWindow.find? r.sn = some info ∧
        s.buildRetxPdu cfg grantLen = s.dropMissingRetx.buildRetx cfg r info grantLen := by
  obtain ⟨hs, -, -, hfront⟩ := dropMissingRetx_spec s
  unfold buildRetxPdu
  dsimp only
  cases hq : s.dropMissingRetx.retxQueue.queue with
  | nil => exact .inl ⟨rfl, rfl⟩
  | cons r rest =>
    obtain ⟨info, hinfo⟩ := hfront r (by rw [hq]; rfl)
    rw [← hs.find] at hinfo
    refine .inr ⟨r, info, rfl, hinfo, ?_⟩
    dsimp only
    rw [hinfo]

theorem buildRetxPdu_pulled (grantLen : ℕ) (h : Window cfg A N s) (hz : Sized cfg N s) :
    Pulled cfg A N s (s.buildRetxPdu cfg grantLen).1 (s.buildRetxPdu cfg grantLen).2 := by
  obtain ⟨hs, hsub, hsdus, -⟩ := dropMissingRetx_spec s
  have hcases := @buildRetxPdu_cases cfg s grantLen
  generalize s.dropMissingRetx = s₁ at hs hsub hsdus hcases
  have hz₁ : Sized cfg N s₁ := by
    refine ⟨fun sn info hf => hz.window sn info (hs.find sn ▸ hf), hsdus ▸ hz.queue, fun r hr => hz.retx r (hsub hr),
      ?_⟩
    rw [hs.seg, hs.infoAt]
    exact hz.progress
  rcases hcases with ⟨heq, hq⟩ | ⟨r, info, hhead, hinfo, heq⟩ <;> rw [heq]
  · refine .idle hs ?_ (by rw [hsdus])
    rw [hq]
    exact fun r' hr' => nomatch hr'
  · obtain ⟨hs₂, hretx₂, hsdus₂, hout⟩ := buildRetx_spec grantLen (h.congr hs) hz₁ hhead hinfo
    generalize s₁.buildRetx cfg r info grantLen = out at hs₂ hretx₂ hsdus₂ hout ⊢
    rcases hout with hnil | ⟨i, k, hi, hit, hsn, hk, hend, hpdu⟩
    · rw [hnil]
      exact .idle (hs.trans hs₂) (RetxFrom.mono hsub hretx₂) (by rw [hsdus₂, hsdus])
    · rw [hs.top] at hit
      refine .retx i k r info hi hit (hsub (mem_of_mem_head? hhead)) hsn ?_ hk hend hpdu (hs.trans hs₂)
        (RetxFrom.mono hsub hretx₂) (hsdus₂.trans hsdus)
      rw [infoAt, ← hsn, ← hs.find, hinfo]

theorem pullPdu_pulled (grantLen : ℕ) (poolOk : Bool) (h : Window cfg A N s) (hz : Sized cfg N s) :
    Pulled cfg A N s (s.pullPdu cfg none grantLen poolOk).1 (s.pullPdu cfg none grantLen poolOk).2 := by
  cases hretx : s.retxQueue.isEmpty with
  | true => exact (pullPdu_newData grantLen poolOk hretx).pulled h hz
  | false =>
    unfold pullPdu
    by_cases hmax : s.maxRetxReached = true
    · rw [if_pos hmax]
      exact pulled_nothing hz
    · rw [if_neg hmax]
      simp only [hretx, Bool.not_false, if_true]
      exact buildRetxPdu_pulled grantLen h hz

end RlcTxAmEntity

end OcuduRan.Rlc
