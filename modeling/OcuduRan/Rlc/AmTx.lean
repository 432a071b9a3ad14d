/-
The transmitting side of an RLC AM entity (lib/rlc/rlc_tx_am_entity.h and rlc_tx_am_entity.cpp).

  window   tx_window maps an SN to its SDU, the segmentation progress next_so and the retransmission count.
           TX_Next_Ack is the lower edge, TX_Next the next SN; the SDU of SN TX_Next may already be in the window while
           it is being segmented (sn_under_segmentation).
  pull     one MAC opportunity produces one PDU: a STATUS PDU if the receiving side requires one, else a
           retransmission, else the next segment of the SDU under segmentation, else a new SDU (or its first segment).
  status   a STATUS PDU is checked, acknowledged SDUs leave the window up to the first NACK, and the RETX queue is
           rebuilt from the NACKs, ranges being expanded SN by SN.

An operation is a function from the entity state to the entity state; pull_pdu also returns the bytes it wrote, the
empty list standing for a return value of 0. Whether the window's segment pool can serve add_sn is an input of
pull_pdu. The t-PollRetransmit timer is its running flag. Calls to the upper layers are recorded in `events`, failed
assertions and the error branch for a lost SDU under segmentation in `faults`; the code goes on after them as a build
without assertions does. Left out: logging, metrics, time stamps, PCAP, the PDU recycler, and the notifications of the
MAC about its buffer state (the state itself is computed by getBufferState).
-/
import OcuduRan.Core.CircularMap
import OcuduRan.Core.Machine
import OcuduRan.Rlc.TxQueues

namespace OcuduRan.Rlc

open ModWindow

/-! ## State -/

structure RlcTxAmSduInfo where
  sdu : Bytes := []
  isRetx : Bool := false
  pdcpSn : Option ℕ := none
  nextSo : ℕ := 0
  retxCount : ℕ := retxCountNotStarted
deriving DecidableEq, Repr

structure RlcTxAmState where
  txNextAck : ℕ := 0
  txNext : ℕ := 0
  pollSn : ℕ := 0
  pduWithoutPoll : ℕ := 0
  byteWithoutPoll : ℕ := 0
deriving DecidableEq, Repr

structure RlcTxAmConfig where
  snFieldLength : RlcAmSnSize
  pdcpSnLen : PdcpSnSize
  tPollRetx : ℤ
  maxRetxThresh : ℕ
  pollPdu : ℤ
  pollByte : ℤ
  queueSize : ℕ
  queueSizeBytes : ℕ
  maxWindow : ℕ
  isSrb : Bool
deriving DecidableEq, Repr

/-- calls to the upper layers -/
inductive TxEvent where
  | transmittedSdu (pdcpSn : ℕ)
  | retransmittedSdu (pdcpSn : ℕ)
  | deliveredSdu (pdcpSn : ℕ)
  | deliveredRetransmittedSdu (pdcpSn : ℕ)
  | protocolFailure
  | maxRetx
deriving DecidableEq, Repr

/-- assertions, and the error branch of pull_pdu -/
inductive TxFault where
  /-- add_sn: the SN is already in the window -/
  | addSnExists (sn : ℕ)
  /-- operator[] or remove_sn: the SN is not in the window -/
  | snMissing (sn : ℕ)
  /-- pull_pdu: the SDU under segmentation does not exist in tx_window -/
  | sduUnderSegmentationMissing (sn : ℕ)
  /-- build_retx_pdu: header length differs from the expected one -/
  | retxHeaderLen
deriving DecidableEq, Repr

structure RlcTxAmEntity where
  st : RlcTxAmState
  sduQueue : RlcSduQueue
  snUnderSegmentation : ℕ
  retxQueue : RlcRetxQueue
  retxSn : ℕ
  txWindow : CircularMap RlcTxAmSduInfo
  pollRetransmitTimer : Bool
  stoppedLower : Bool
  maxRetxReached : Bool
  events : List TxEvent
  faults : List TxFault
deriving DecidableEq, Repr

namespace RlcTxAmEntity

variable (cfg : RlcTxAmConfig)

def init : RlcTxAmEntity where
  st := {}
  sduQueue := ⟨cfg.queueSize, cfg.queueSizeBytes, []⟩
  snUnderSegmentation := invalidRlcSn
  retxQueue := RlcRetxQueue.empty cfg.snFieldLength.amWindowSize
  retxSn := invalidRlcSn
  txWindow := CircularMap.empty cfg.snFieldLength.amWindowSize
  pollRetransmitTimer := false
  stoppedLower := false
  maxRetxReached := false
  events := []
  faults := []

variable (s : RlcTxAmEntity)

def emit (e : TxEvent) : RlcTxAmEntity := { s with events := s.events ++ [e] }

def fault (f : TxFault) : RlcTxAmEntity := { s with faults := s.faults ++ [f] }

/-! ## Window helpers -/

def txModBase (x : ℕ) : ℕ := modBase cfg.snFieldLength.mod s.st.txNextAck x

def insideTxWindow (sn : ℕ) : Bool := s.txModBase cfg sn < cfg.snFieldLength.amWindowSize

/-- the window is full, or the configured virtual maximum is reached -/
def isTxWindowFull : Bool :=
  s.txWindow.full || (cfg.maxWindow ≠ 0 && s.txModBase cfg s.st.txNext > cfg.maxWindow)

def validAckSn (sn : ℕ) : Bool :=
  0 < s.txModBase cfg sn && s.txModBase cfg sn ≤ cfg.snFieldLength.amWindowSize

/-- outcome of the checks on one NACK -/
inductive NackCheck where
  | valid
  | ignore
  | protocolFailure
deriving DecidableEq, Repr

/-- the checks of valid_nack, with what a failed one reports -/
def checkNack (ackSn : ℕ) (nack : RlcAmStatusNack) : NackCheck :=
  let last := sub32 (nack.nackSn + nack.nackRange) 1
  if s.txModBase cfg nack.nackSn ≥ s.txModBase cfg ackSn then .ignore
  else if nack.hasNackRange && s.txModBase cfg last ≥ s.txModBase cfg ackSn then .ignore
  else if !s.insideTxWindow cfg nack.nackSn then .ignore
  else if nack.hasNackRange && !s.insideTxWindow cfg last then .ignore
  else if s.txModBase cfg nack.nackSn > s.txModBase cfg s.st.txNext then .protocolFailure
  else if nack.hasNackRange && s.txModBase cfg last > s.txModBase cfg s.st.txNext then .protocolFailure
  else .valid

def validNack (ackSn : ℕ) (nack : RlcAmStatusNack) : Bool :=
  s.checkNack cfg ackSn nack = .valid

theorem validNack_iff (ackSn : ℕ) (nack : RlcAmStatusNack) :
    s.validNack cfg ackSn nack = true ↔ (s.txModBase cfg nack.nackSn < s.txModBase cfg ackSn ∧
        s.txModBase cfg nack.nackSn < cfg.snFieldLength.amWindowSize ∧
        s.txModBase cfg nack.nackSn ≤ s.txModBase cfg s.st.txNext) ∧ (nack.hasNackRange = true →
        s.txModBase cfg (sub32 (nack.nackSn + nack.nackRange) 1) < s.txModBase cfg ackSn ∧
        s.txModBase cfg (sub32 (nack.nackSn + nack.nackRange) 1) < cfg.snFieldLength.amWindowSize ∧
        s.txModBase cfg (sub32 (nack.nackSn + nack.nackRange) 1) ≤ s.txModBase cfg s.st.txNext) := by
  unfold validNack checkNack insideTxWindow
  rw [decide_eq_true_eq]
  dsimp only
  generalize s.txModBase cfg nack.nackSn = x
  generalize s.txModBase cfg (sub32 (nack.nackSn + nack.nackRange) 1) = y
  generalize s.txModBase cfg ackSn = a
  generalize s.txModBase cfg s.st.txNext = t
  generalize cfg.snFieldLength.amWindowSize = w
  constructor
  · intro h
    split_ifs at h with h1 h2 h3 h4 h5 h6
    simp only [Bool.and_eq_true, Bool.not_eq_true', decide_eq_true_eq, decide_eq_false_iff_not, not_and] at h2 h3 h4 h6
    refine ⟨⟨by omega, by omega, by omega⟩, fun hr => ⟨?_, ?_, ?_⟩⟩
    · have := h2 hr
      omega
    · have := h4 hr
      omega
    · have := h6 hr
      omega
  · rintro ⟨⟨h1, h2, h3⟩, hr⟩
    rw [if_neg (by omega), if_neg, if_neg (by simpa using h2), if_neg, if_neg (by omega), if_neg]
    · intro h
      simp only [Bool.and_eq_true, decide_eq_true_eq] at h
      have := hr h.1
      omega
    · intro h
      simp only [Bool.and_eq_true, Bool.not_eq_true', decide_eq_false_iff_not] at h
      exact h.2 (hr h.1).2.1
    · intro h
      simp only [Bool.and_eq_true, decide_eq_true_eq] at h
      have := hr h.1
      omega

theorem validAckSn_iff (sn : ℕ) : s.validAckSn cfg sn = true ↔
    0 < s.txModBase cfg sn ∧ s.txModBase cfg sn ≤ cfg.snFieldLength.amWindowSize := by
  simp [validAckSn]

/-! ## Upper layer interface -/

def handleSdu (buf : Bytes) (isRetx : Bool) : RlcTxAmEntity :=
  let sdu : RlcSdu := ⟨buf, isRetx && !cfg.isSrb, getPdcpSn buf cfg.pdcpSnLen cfg.isSrb⟩
  { s with sduQueue := (s.sduQueue.write sdu).2 }

/-- discards the PDCP SNs from `pdcpSn` on, for `count` rounds -/
def discardLoop (mask : ℕ) : ℕ → ℕ → RlcSduQueue → RlcSduQueue
  | 0, _, q => q
  | count + 1, pdcpSn, q => discardLoop mask count ((pdcpSn + 1) &&& mask) (q.tryDiscard pdcpSn).2

def discardSdu (pdcpSnStart blockSize : ℕ) : RlcTxAmEntity :=
  let mask := cfg.pdcpSnLen.mask
  if blockSize = 0 then s
  else if pdcpSnStart > mask then s
  -- the loop ends on reaching (start + block_size) & mask
  else { s with sduQueue := discardLoop mask (blockSize % (mask + 1)) pdcpSnStart s.sduQueue }

/-! ## Polling -/

/-- nothing left to send, or no new SDU can be sent -/
def pollNeeded : Bool :=
  (s.sduQueue.isEmpty && s.retxQueue.isEmpty && s.snUnderSegmentation = invalidRlcSn) || s.isTxWindowFull cfg

def getPollingBit (sn : ℕ) (isRetx : Bool) (payloadSize : ℕ) : RlcTxAmEntity × Bool :=
  let st : RlcTxAmState :=
    if isRetx then s.st
    else { s.st with
      pduWithoutPoll := (s.st.pduWithoutPoll + 1) % 2 ^ 32
      byteWithoutPoll := (s.st.byteWithoutPoll + payloadSize) % 2 ^ 32 }
  let counters : Bool :=
    !isRetx && ((cfg.pollPdu > 0 && (st.pduWithoutPoll : ℤ) ≥ cfg.pollPdu)
      || (cfg.pollByte > 0 && (st.byteWithoutPoll : ℤ) ≥ cfg.pollByte))
  let poll : Bool := counters || s.pollNeeded cfg
  if poll then
    ({ s with
        st := { st with
          pduWithoutPoll := 0
          byteWithoutPoll := 0
          pollSn := if isRetx then st.pollSn else sn }
        pollRetransmitTimer := if cfg.tPollRetx > 0 && !s.stoppedLower then true else s.pollRetransmitTimer }, true)
  else ({ s with st := st }, false)

/-! ## Building PDUs -/

def headMinSize : ℕ := rlcAmPduHeaderMinSize cfg.snFieldLength

def headMaxSize : ℕ := rlcAmPduHeaderMaxSize cfg.snFieldLength

/-- a data PDU header; SO is a 16-bit field -/
def dataHeader (p : Bool) (si : RlcSiField) (sn so : ℕ) : RlcAmPduHeader :=
  { dc := .data, p := p, si := si, snSize := cfg.snFieldLength, sn := sn, so := so % 2 ^ 16 }

/-- header and payload, or nothing if the payload cannot be written whole -/
def assemblePdu (hdr : RlcAmPduHeader) (sdu : Bytes) (payloadLen : ℕ) : Option Bytes :=
  let payload := (sdu.drop hdr.so).take payloadLen
  if payload.length = 0 ∨ payload.length ≠ payloadLen then none
  else some (rlcAmWriteDataPduHeader hdr ++ payload)

variable (info : RlcTxAmSduInfo)

def buildFirstSduSegment (grantLen : ℕ) : RlcTxAmEntity × Bytes :=
  if info.sdu.length + headMinSize cfg ≤ grantLen then (s, [])
  else if grantLen ≤ headMinSize cfg then (s, [])
  else
    let segmentPayloadLen := grantLen - headMinSize cfg
    let s := { s with snUnderSegmentation := s.st.txNext }
    let (s, p) := s.getPollingBit cfg s.st.txNext false segmentPayloadLen
    match assemblePdu (dataHeader cfg p .firstSegment s.st.txNext info.nextSo) info.sdu segmentPayloadLen with
    | none => (s, [])
    | some pdu =>
      ({ s with
          txWindow := s.txWindow.modify s.st.txNext fun i => { i with nextSo := i.nextSo + segmentPayloadLen } }, pdu)

def buildContinuedSduSegment (grantLen : ℕ) : RlcTxAmEntity × Bytes :=
  if info.nextSo = 0 then ({ s with snUnderSegmentation := invalidRlcSn }, [])
  else if info.nextSo ≥ info.sdu.length then ({ s with snUnderSegmentation := invalidRlcSn }, [])
  else if grantLen ≤ headMaxSize cfg then (s, [])
  else
    let sn := s.snUnderSegmentation
    let last : Bool := !(info.sdu.length - info.nextSo + headMaxSize cfg > grantLen)
    let si : RlcSiField := if last then .lastSegment else .middleSegment
    let segmentPayloadLen := if last then info.sdu.length - info.nextSo else grantLen - headMaxSize cfg
    let s := if last then { s with snUnderSegmentation := invalidRlcSn } else s
    let (s, p) := s.getPollingBit cfg s.st.txNext false segmentPayloadLen
    match assemblePdu (dataHeader cfg p si s.st.txNext info.nextSo) info.sdu segmentPayloadLen with
    | none => (s, [])
    | some pdu =>
      let s := { s with
        txWindow := s.txWindow.modify sn fun i => { i with nextSo := i.nextSo + segmentPayloadLen } }
      (if last then { s with st := { s.st with txNext := (s.st.txNext + 1) % cfg.snFieldLength.mod } } else s, pdu)

/-- the notification that the transfer of an SDU begins -/
def notifyTransmitted (sdu : RlcSdu) : RlcTxAmEntity :=
  match sdu.pdcpSn with
  | none => s
  | some pdcpSn => s.emit (if sdu.isRetx then .retransmittedSdu pdcpSn else .transmittedSdu pdcpSn)

/-- `tx_window.add_sn`: an SN that is already there fails the assertion and is overwritten -/
def addSn (sn : ℕ) : RlcTxAmEntity :=
  let s := if s.txWindow.contains sn then s.fault (.addSnExists sn) else s
  { s with txWindow := s.txWindow.overwrite sn {} }

/-- window element of an SDU read from the queue -/
def sduInfo (sdu : RlcSdu) : RlcTxAmSduInfo := { sdu := sdu.buf, isRetx := sdu.isRetx, pdcpSn := sdu.pdcpSn }

/-- fills the window element of TX_Next -/
def fillElement (sdu : RlcSdu) : RlcTxAmEntity :=
  { s with txWindow := s.txWindow.modify s.st.txNext fun _ => sduInfo sdu }.notifyTransmitted sdu

/-- a PDU with a full SDU -/
def buildFullSdu : RlcTxAmEntity × Bytes :=
  -- the SDU has been moved into the window, so the length passed for BYTE_WITHOUT_POLL is that of an empty buffer
  let (s, p) := s.getPollingBit cfg s.st.txNext false 0
  match assemblePdu (dataHeader cfg p .fullSdu s.st.txNext 0) info.sdu info.sdu.length with
  | none => (s, [])
  | some pdu => ({ s with st := { s.st with txNext := (s.st.txNext + 1) % cfg.snFieldLength.mod } }, pdu)

def buildNewPdu (grantLen : ℕ) (poolOk : Bool) : RlcTxAmEntity × Bytes :=
  if grantLen ≤ headMinSize cfg then (s, [])
  else if s.isTxWindowFull cfg then (s, [])
  else if !poolOk then (s, [])
  else
    let s := s.addSn s.st.txNext
    match s.sduQueue.read with
    | (none, q) => ({ s with sduQueue := q, txWindow := s.txWindow.erase s.st.txNext }, [])
    | (some sdu, q) =>
      let s := { s with sduQueue := q }.fillElement sdu
      if (sduInfo sdu).sdu.length + headMinSize cfg > grantLen then s.buildFirstSduSegment cfg (sduInfo sdu) grantLen
      else s.buildFullSdu cfg (sduInfo sdu)

def getRetxExpectedHdrLen (retx : RlcTxAmdRetx) : ℕ := if retx.so = 0 then headMinSize cfg else headMaxSize cfg

/-- SI of a retransmission -/
def retxSi (so : ℕ) (sduComplete : Bool) : RlcSiField :=
  if so = 0 then (if sduComplete then .fullSdu else .firstSegment)
  else if sduComplete then .lastSegment else .middleSegment

/-- drops retransmissions of SNs that left the window from the front of the queue -/
def dropMissingRetx : RlcTxAmEntity :=
  { s with
    retxQueue := s.retxQueue.popWhile (fun r => !s.txWindow.contains r.sn) s.retxQueue.queue.length }

/-- the retransmission at the front of the queue, whose SDU is in the window -/
def buildRetx (retx : RlcTxAmdRetx) (info : RlcTxAmSduInfo) (grantLen : ℕ) :
    RlcTxAmEntity × Bytes :=
  let s := { s with retxSn := retx.sn }
  if retx.so + retx.length > info.sdu.length then ({ s with retxQueue := s.retxQueue.pop }, [])
  else if grantLen ≤ getRetxExpectedHdrLen cfg retx then (s, [])
  else
    let retxPayloadLen := min retx.length (grantLen - getRetxExpectedHdrLen cfg retx)
    let retxComplete : Bool := retxPayloadLen = retx.length
    let sduComplete : Bool := retx.so + retxPayloadLen ≥ info.sdu.length
    let s :=
      if retxComplete then
        { s with
          maxRetxReached := if info.retxCount = cfg.maxRetxThresh then true else s.maxRetxReached
          retxQueue := s.retxQueue.pop }
      else
        { s with
          retxQueue := s.retxQueue.replaceFront
            { retx with so := retx.so + retxPayloadLen, length := retx.length - retxPayloadLen } }
    let (s, p) := s.getPollingBit cfg retx.sn true 0
    let hdr := dataHeader cfg p (retxSi retx.so sduComplete) retx.sn retx.so
    let s := if (rlcAmWriteDataPduHeader hdr).length ≠ getRetxExpectedHdrLen cfg retx then s.fault .retxHeaderLen else s
    match assemblePdu hdr info.sdu retxPayloadLen with
    | none => (s, [])
    | some pdu => (s, pdu)

def buildRetxPdu (grantLen : ℕ) : RlcTxAmEntity × Bytes :=
  let s := s.dropMissingRetx
  match s.retxQueue.queue with
  | [] => (s, [])
  | retx :: _ =>
    match s.txWindow.find? retx.sn with
    | none => (s.fault (.snMissing retx.sn), [])
    | some info => s.buildRetx cfg retx info grantLen

variable (status : RlcAmStatusPdu)

/-- the STATUS PDU branch of pull_pdu -/
def pullStatusPdu (grantLen : ℕ) : Bytes :=
  if grantLen < RlcAmStatusPdu.sizeofHeaderAckSn then []
  else if status.packedSize > grantLen then
    match status.trim grantLen with
    | (false, _) => []
    | (true, trimmed) => trimmed.pack
  else status.pack

/-- one MAC opportunity; `status` is the report of the receiving side if it requires one -/
def pullPdu (status : Option RlcAmStatusPdu) (grantLen : ℕ) (poolOk : Bool) :
    RlcTxAmEntity × Bytes :=
  if s.maxRetxReached then (s, [])
  else
    match status with
    | some report => (s, pullStatusPdu report grantLen)
    | none =>
      if !s.retxQueue.isEmpty then s.buildRetxPdu cfg grantLen
      else if s.snUnderSegmentation ≠ invalidRlcSn then
        match s.txWindow.find? s.snUnderSegmentation with
        | some info => s.buildContinuedSduSegment cfg info grantLen
        | none =>
          let s := { s.fault (.sduUnderSegmentationMissing s.snUnderSegmentation) with
            snUnderSegmentation := invalidRlcSn }
          if s.sduQueue.isEmpty then (s, []) else s.buildNewPdu cfg grantLen poolOk
      else if s.sduQueue.isEmpty then (s, [])
      else s.buildNewPdu cfg grantLen poolOk

/-! ## Buffer state -/

/-- pending bytes towards the MAC; looking at the queues drops what can no longer be sent -/
def getBufferState (statusLen : Option ℕ) : RlcTxAmEntity × ℕ :=
  let queueBytes := s.sduQueue.nBytes + s.sduQueue.nSdus * headMinSize cfg
  let underSegmentation : Bool := s.snUnderSegmentation ≠ invalidRlcSn
  let segmentBytes :=
    if underSegmentation then
      match s.txWindow.find? s.snUnderSegmentation with
      | some info => info.sdu.length - info.nextSo + headMaxSize cfg
      | none => 0
    else 0
  let s := if underSegmentation then s else { s with sduQueue := s.sduQueue.front.2 }
  let retxBytes := s.retxQueue.retxBytes + s.retxQueue.nRetxSoZero * headMinSize cfg
    + s.retxQueue.nRetxSoNonzero * headMaxSize cfg
  (s.dropMissingRetx, queueBytes + segmentBytes + retxBytes + statusLen.getD 0)

/-! ## Retransmission count -/

def incrementRetxCount (sn : ℕ) : RlcTxAmEntity :=
  match s.txWindow.find? sn with
  | none => s.fault (.snMissing sn)
  | some info =>
    let count := if info.retxCount = retxCountNotStarted then 0 else info.retxCount + 1
    let s := { s with txWindow := s.txWindow.modify sn fun i => { i with retxCount := count } }
    if count = cfg.maxRetxThresh then s.emit .maxRetx else s

def decrementRetxCount (sn : ℕ) : RlcTxAmEntity :=
  { s with
    txWindow := s.txWindow.modify sn fun i =>
      if i.retxCount = retxCountNotStarted then i
      else if i.retxCount = 0 then { i with retxCount := retxCountNotStarted }
      else { i with retxCount := i.retxCount - 1 } }

/-! ## STATUS PDU -/

/-- SNs of a NACK range from `rangeSn` on, one NACK each; the range is cut off at ACK_SN -/
def expandRange (n : RlcAmSnSize) (ackSn : ℕ) (nack : RlcAmStatusNack) : ℕ → ℕ → List RlcAmStatusNack
  | 0, _ => []
  | fuel + 1, rangeSn =>
    if rangeSn = (nack.nackSn + nack.nackRange) % n.mod then []
    else if rangeSn = ackSn then []
    else
      let soStart := if rangeSn = nack.nackSn then nack.soStart else 0
      let soEnd := if rangeSn = sub32 (nack.nackSn + nack.nackRange) 1 % n.mod then nack.soEnd else soEndOfSdu
      let single : RlcAmStatusNack :=
        if nack.hasSo then
          { nackSn := rangeSn, hasSo := soStart ≠ 0 || soEnd ≠ soEndOfSdu, soStart := soStart, soEnd := soEnd }
        else { nackSn := rangeSn }
      single :: expandRange n ackSn nack fuel ((rangeSn + 1) % n.mod)

/-- the NACKs without range that a NACK of a STATUS PDU stands for -/
def expandNack (n : RlcAmSnSize) (ackSn : ℕ) (nack : RlcAmStatusNack) : List RlcAmStatusNack :=
  if nack.hasNackRange then expandRange n ackSn nack nack.nackRange nack.nackSn else [nack]

/-- range of bytes to be sent again, or the NACK is ignored -/
def nackOffsets (nack : RlcAmStatusNack) : Option (ℕ × ℕ) :=
  let sduLast := sub32 info.sdu.length 1 % 2 ^ 16
  let soStart := if nack.hasSo then nack.soStart else 0
  let soEnd := if nack.hasSo then nack.soEnd else sduLast
  if soEnd = soEndOfSdu then
    if nack.nackSn ≠ s.snUnderSegmentation then some (soStart, sduLast)
    else if info.nextSo = 0 then none
    else if soStart > info.nextSo then none
    else if soStart = info.nextSo then none
    else some (soStart, (info.nextSo - 1) % 2 ^ 16)
  else some (soStart, soEnd)

/-- offsets adjusted to the SDU, each adjustment reporting a protocol failure -/
def sanitizeOffsets (sduLength soStart soEnd : ℕ) : ℕ × ℕ × List TxEvent :=
  let (soStart, e1) := if soStart > soEnd then (0, [TxEvent.protocolFailure]) else (soStart, [])
  let (soStart, e2) := if soStart ≥ sduLength then (0, [TxEvent.protocolFailure]) else (soStart, [])
  let (soEnd, e3) :=
    if soEnd ≥ sduLength then
      (sub32 sduLength 1 % 2 ^ 16, [TxEvent.protocolFailure, TxEvent.protocolFailure])
    else (soEnd, [])
  (soStart, soEnd, e1 ++ e2 ++ e3)

def handleNack (nack : RlcAmStatusNack) : RlcTxAmEntity × Bool :=
  if nack.hasNackRange then (s, false)
  else if s.txModBase cfg nack.nackSn < s.txModBase cfg s.st.txNextAck
      ∨ (s.txModBase cfg nack.nackSn ≥ s.txModBase cfg s.st.txNext ∧ nack.nackSn ≠ s.snUnderSegmentation)
  then (s, false)
  else
    match s.txWindow.find? nack.nackSn with
    | none => (s.fault (.snMissing nack.nackSn), false)
    | some info =>
      match s.nackOffsets info nack with
      | none => (s, false)
      | some (soStart, soEnd) =>
        let (soStart, soEnd, events) := sanitizeOffsets info.sdu.length soStart soEnd
        let (pushed, q) := s.retxQueue.tryPush ⟨nack.nackSn, soStart, soEnd + 1 - soStart⟩
        ({ s with events := s.events ++ events, retxQueue := q }, pushed)

/-- one NACK without range; the retransmission count is incremented once per SN -/
def processNack (acc : RlcTxAmEntity × ℕ) (nack : RlcAmStatusNack) : RlcTxAmEntity × ℕ :=
  let (s, prevRetxSn) := acc
  match s.handleNack cfg nack with
  | (s, false) => (s, prevRetxSn)
  | (s, true) =>
    if prevRetxSn ≠ nack.nackSn then (s.incrementRetxCount cfg nack.nackSn, nack.nackSn) else (s, prevRetxSn)

/-- highest delivered PDCP SNs seen by the ACK loop -/
structure MaxDeliv where
  pdcpSn : Option ℕ := none
  retxPdcpSn : Option ℕ := none
deriving DecidableEq, Repr

def MaxDeliv.add (d : MaxDeliv) (info : RlcTxAmSduInfo) : MaxDeliv :=
  if info.pdcpSn.isSome then
    if info.isRetx then { d with retxPdcpSn := info.pdcpSn } else { d with pdcpSn := info.pdcpSn }
  else d

/-- removes acknowledged SDUs from `sn` on, up to `stopSn` or the first SN that is not in the window -/
def ackLoop (stopSn : ℕ) : ℕ → ℕ → RlcTxAmEntity × MaxDeliv → RlcTxAmEntity × MaxDeliv
  | 0, _, acc => acc
  | fuel + 1, sn, (s, d) =>
    if s.txModBase cfg sn < s.txModBase cfg stopSn then
      match s.txWindow.find? sn with
      | none => (s, d)
      | some info =>
        let next := (sn + 1) % cfg.snFieldLength.mod
        ackLoop stopSn fuel next
          ({ s with txWindow := s.txWindow.erase sn, st := { s.st with txNextAck := next } }, d.add info)
    else (s, d)

def emitDelivered (d : MaxDeliv) : RlcTxAmEntity :=
  let s := match d.pdcpSn with
    | none => s
    | some sn => s.emit (.deliveredSdu sn)
  match d.retxPdcpSn with
  | none => s
  | some sn => s.emit (.deliveredRetransmittedSdu sn)

/-- pops every retransmission and rewinds the counters of those that were not started -/
def clearRetx : ℕ → RlcTxAmEntity → RlcTxAmEntity
  | 0, s => { s with retxSn := invalidRlcSn }
  | fuel + 1, s =>
    match s.retxQueue.queue with
    | [] => { s with retxSn := invalidRlcSn }
    | retx :: _ =>
      let s :=
        if s.retxSn ≠ retx.sn then
          { (if s.txWindow.contains retx.sn then s.decrementRetxCount retx.sn else s) with retxSn := retx.sn }
        else s
      clearRetx fuel { s with retxQueue := s.retxQueue.pop }

/-- SN at which acknowledging stops: the first NACK, if there is one -/
def stopSn : ℕ :=
  match status.nacks with
  | [] => status.ackSn
  | nack :: _ => nack.nackSn

/-- first NACK that fails its check, with the outcome -/
def firstBadNack : Option NackCheck :=
  (status.nacks.map (s.checkNack cfg status.ackSn)).find? (· ≠ .valid)

/-- a STATUS PDU that passed the checks -/
def processStatusPdu : RlcTxAmEntity :=
  let s := if s.txModBase cfg s.st.pollSn < s.txModBase cfg status.ackSn then
      { s with pollRetransmitTimer := false } else s
  let (s, d) := ackLoop cfg (stopSn status) cfg.snFieldLength.mod s.st.txNextAck (s, {})
  let s := s.emitDelivered d
  let s := clearRetx s.retxQueue.queue.length s
  let nacks := status.nacks.flatMap (expandNack cfg.snFieldLength status.ackSn)
  (nacks.foldl (processNack cfg) (s, invalidRlcSn)).1

def handleStatusPdu : RlcTxAmEntity :=
  if !s.validAckSn cfg status.ackSn then s
  else if s.txModBase cfg status.ackSn > s.txModBase cfg (s.st.txNext + 1) then s.emit .protocolFailure
  else
    match s.firstBadNack cfg status with
    | some .protocolFailure => s.emit .protocolFailure
    | some _ => s
    | none => ((s.processStatusPdu cfg status).getBufferState cfg none).1

/-! ## t-PollRetransmit -/

def onExpiredPollRetransmitTimer : RlcTxAmEntity :=
  if s.pollNeeded cfg then
    match s.txWindow.find? s.st.txNextAck with
    | none => s
    | some info =>
      let (pushed, q) := s.retxQueue.tryPush ⟨s.st.txNextAck, 0, info.sdu.length⟩
      let s := { s with retxQueue := q }
      let s := if pushed then s.incrementRetxCount cfg s.st.txNextAck else s
      (s.getBufferState cfg none).1
  else s

/-! ## Operations -/

inductive Op where
  | handleSdu (buf : Bytes) (isRetx : Bool)
  | discardSdu (pdcpSnStart blockSize : ℕ)
  | pullPdu (status : Option RlcAmStatusPdu) (grantLen : ℕ) (poolOk : Bool)
  | handleStatusPdu (status : RlcAmStatusPdu)
  | pollRetransmitExpiry
  | bufferState (statusLen : Option ℕ)
  | stop
deriving DecidableEq, Repr

/-- the state after an operation, and the bytes pull_pdu wrote -/
def stepOut : Op → RlcTxAmEntity × Bytes
  | .handleSdu buf isRetx => (s.handleSdu cfg buf isRetx, [])
  | .discardSdu start block => (s.discardSdu cfg start block, [])
  | .pullPdu status grantLen poolOk => s.pullPdu cfg status grantLen poolOk
  | .handleStatusPdu status => (s.handleStatusPdu cfg status, [])
  | .pollRetransmitExpiry =>
    -- an expiry is only served while the timer runs, and stops it
    (if s.pollRetransmitTimer then
      { s with pollRetransmitTimer := false }.onExpiredPollRetransmitTimer cfg else s, [])
  | .bufferState statusLen => ((s.getBufferState cfg statusLen).1, [])
  | .stop => ({ s with stoppedLower := true, pollRetransmitTimer := false }, [])

def step (op : Op) : RlcTxAmEntity := (s.stepOut cfg op).1

end RlcTxAmEntity

end OcuduRan.Rlc
