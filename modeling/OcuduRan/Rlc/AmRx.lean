/-
The receiving side of an RLC AM entity (lib/rlc/rlc_rx_am_entity.h and rlc_rx_am_entity.cpp).

  window    rx_window maps an SN to what has been received of its SDU: a whole SDU, or a set of segments keyed by their
            16-bit offset. RX_Next is the lower edge, RX_Next_Highest follows the highest SN received.
  segments  store_segment walks over the set and trims, cuts, replaces or drops so that no byte is kept twice. Offsets
            are stored in 16 bits while last bytes are computed in 32.
  status    refresh_status_report walks over the SNs from RX_Next to RX_Highest_Status and pushes a NACK for every SDU,
            or piece of an SDU, that is missing. The report is exchanged with the transmitting side through three
            buffers: one owned by the writer, one for exchange, one owned by the reader.
  timers    t-Reassembly and t-StatusProhibit are their running flags. An expiry is served only while the timer runs,
            and stops it, before its handler runs.

Whether the window's segment pool can serve add_sn and whether a chain for the reassembled SDU can be created are
inputs of handle_pdu. SDUs passed to the upper layer are recorded in `delivered`, failed assertions in `faults`. Left
out: logging, metrics, time stamps, PCAP, stop, and the notification of the transmitting side that the report changed.
-/
import OcuduRan.Core.CircularMap
import OcuduRan.Core.Machine
import OcuduRan.Rlc.AmPdu

namespace OcuduRan.Rlc

open ModWindow

/-! ## State -/

structure RlcRxAmSduSegment where
  si : RlcSiField
  so : ℕ
  payload : Bytes
deriving DecidableEq, Repr

/-- offset of the last byte, in 32-bit arithmetic; a stored segment has a payload -/
def RlcRxAmSduSegment.lastByte (segm : RlcRxAmSduSegment) : ℕ := segm.so + segm.payload.length - 1

/-- a whole SDU or a set of segments in increasing order of their offsets -/
inductive SduData where
  | slice (payload : Bytes)
  | segmentSet (segments : List RlcRxAmSduSegment)
deriving DecidableEq, Repr

structure RlcRxAmSduInfo where
  fullyReceived : Bool := false
  hasGap : Bool := false
  sduData : SduData := .slice []
deriving DecidableEq, Repr

structure RlcRxAmState where
  rxNext : ℕ := 0
  rxNextStatusTrigger : ℕ := 0
  rxHighestStatus : ℕ := 0
  rxNextHighest : ℕ := 0
deriving DecidableEq, Repr

structure RlcRxAmConfig where
  snFieldLength : RlcAmSnSize
  tReassembly : ℕ
  tStatusProhibit : ℕ
  /-- limit of visited SNs per report; the window size if not configured -/
  maxSnPerStatus : Option ℕ
deriving DecidableEq, Repr

/-- assertions of the receiving side -/
inductive RxFault where
  /-- refresh_status_report: so_start <= so_end of a NACK -/
  | nackOffsets (sn : ℕ)
  /-- an incomplete SDU holds a set of segments -/
  | sduDataVariant (sn : ℕ)
  /-- on_expired_reassembly_timer: the new RX_Highest_Status is a valid ACK_SN -/
  | highestStatus (sn : ℕ)
  /-- timer::run: the duration is valid; with a t-Reassembly of 0 the timer has never been set -/
  | reassemblyDuration
deriving DecidableEq, Repr

structure RlcRxAmEntity where
  st : RlcRxAmState
  doStatus : Bool
  rxWindow : CircularMap RlcRxAmSduInfo
  statusOwnedByWriter : RlcAmStatusPdu
  statusForExchange : RlcAmStatusPdu
  statusOwnedByReader : RlcAmStatusPdu
  statusReportSize : ℕ
  statusProhibitTimerIsRunning : Bool
  reassemblyTimer : Bool
  delivered : List Bytes
  faults : List RxFault
deriving DecidableEq, Repr

/-! ## Segments -/

/-- insertion into the set: an offset that is already there keeps its segment -/
def insertSegment (segm : RlcRxAmSduSegment) : List RlcRxAmSduSegment → List RlcRxAmSduSegment
  | [] => [segm]
  | cur :: rest =>
    if segm.so < cur.so then segm :: cur :: rest
    else if segm.so = cur.so then cur :: rest
    else cur :: insertSegment segm rest

/-- the loop of store_segment over the segments behind `visited`, and the insertion after it -/
def storeLoop : List RlcRxAmSduSegment → List RlcRxAmSduSegment → RlcRxAmSduSegment →
    Bool × List RlcRxAmSduSegment
  | visited, [], new => (true, insertSegment new visited)
  | visited, cur :: rest, new =>
    if new.so > cur.lastByte then
      -- starts after the end of the current segment
      storeLoop (visited ++ [cur]) rest new
    else if new.so ≥ cur.so then
      -- starts within the current segment: nothing new, or only the bytes behind it
      if new.lastByte ≤ cur.lastByte then (false, visited ++ cur :: rest)
      else
        storeLoop (visited ++ [cur]) rest
          { new with payload := new.payload.drop (cur.lastByte + 1 - new.so), so := (cur.lastByte + 1) % 2 ^ 16 }
    else if new.lastByte < cur.so then
      -- ends before the current segment
      (true, insertSegment new (visited ++ cur :: rest))
    else if new.lastByte < cur.lastByte then
      -- ends within the current segment, which keeps the bytes behind it
      let cut : RlcRxAmSduSegment :=
        { cur with payload := cur.payload.drop (new.lastByte + 1 - cur.so), so := (new.lastByte + 1) % 2 ^ 16 }
      (true, insertSegment new (insertSegment cut (visited ++ rest)))
    else
      -- covers the current segment
      storeLoop visited rest new

def storeSegment (info : RlcRxAmSduInfo) (new : RlcRxAmSduSegment) : Bool × RlcRxAmSduInfo :=
  let segments := match info.sduData with
    | .segmentSet segments => segments
    | .slice _ => []
  let (stored, segments) := storeLoop [] segments new
  (stored, { info with sduData := .segmentSet segments })

/-- gap and completeness of the segments from offset `nextByte` on -/
def inventoryLoop : ℕ → List RlcRxAmSduSegment → Bool × Bool
  | _, [] => (false, false)
  | nextByte, segm :: rest =>
    if segm.so ≠ nextByte then (true, false)
    else if segm.si = .lastSegment then (false, true)
    else inventoryLoop (nextByte + segm.payload.length) rest

/-- the flags of an SDU from its segments -/
def updateSegmentInventory (info : RlcRxAmSduInfo) : RlcRxAmSduInfo :=
  match info.sduData with
  | .slice _ => info
  | .segmentSet segments =>
    let (hasGap, fullyReceived) := inventoryLoop 0 segments
    { info with hasGap := hasGap, fullyReceived := fullyReceived }

/-! ## Reassembly -/

/-- memory_block_size of the default segment pool, in bytes -/
def memoryBlockSize : ℕ := 2048

/-- sizeof(byte_buffer_slice): a pointer to the buffer and the two iterators of the view -/
def sizeofByteBufferSlice : ℕ := 40

/-- max_slices of every chain -/
def maxNofSlices : ℕ := memoryBlockSize / sizeofByteBufferSlice

/-- the slices of a byte_buffer_chain -/
structure ByteBufferChain where
  slices : List Bytes
deriving DecidableEq, Repr

namespace ByteBufferChain

variable (chain : ByteBufferChain)

def full : Bool := chain.slices.length = maxNofSlices

def bytes : Bytes := chain.slices.flatten

/-- an empty slice is not stored; a full chain takes no other -/
def append (slice : Bytes) : Option ByteBufferChain :=
  if slice = [] then some chain
  else if chain.full then none
  else some ⟨chain.slices ++ [slice]⟩

/-- one slice after the other, until one does not fit -/
def appendAll (chain : ByteBufferChain) : List Bytes → Option ByteBufferChain
  | [] => some chain
  | slice :: rest =>
    match chain.append slice with
    | none => none
    | some chain => chain.appendAll rest

end ByteBufferChain

/-- reassemble_sdu; `allocOk` says whether the chain gets its memory block -/
def reassembleSdu (info : RlcRxAmSduInfo) (allocOk : Bool) : Option Bytes :=
  if !info.fullyReceived then none
  else if !allocOk then none
  else
    match info.sduData with
    | .slice payload => ((ByteBufferChain.mk []).append payload).map (·.bytes)
    | .segmentSet segments => ((ByteBufferChain.mk []).appendAll (segments.map (·.payload))).map (·.bytes)

namespace RlcRxAmEntity

variable (cfg : RlcRxAmConfig)

def init : RlcRxAmEntity where
  st := {}
  doStatus := false
  rxWindow := CircularMap.empty cfg.snFieldLength.amWindowSize
  statusOwnedByWriter := { snSize := cfg.snFieldLength }
  -- the report for exchange is initialised with RX_Next_Highest
  statusForExchange := { snSize := cfg.snFieldLength, ackSn := 0 }
  statusOwnedByReader := { snSize := cfg.snFieldLength }
  statusReportSize := 3
  statusProhibitTimerIsRunning := false
  reassemblyTimer := false
  delivered := []
  faults := []

variable (s : RlcRxAmEntity)

def fault (f : RxFault) : RlcRxAmEntity := { s with faults := s.faults ++ [f] }

/-! ## Window helpers -/

def rxModBase (sn : ℕ) : ℕ := modBase cfg.snFieldLength.mod s.st.rxNext sn

def insideRxWindow (sn : ℕ) : Bool := s.rxModBase cfg sn < cfg.snFieldLength.amWindowSize

def validAckSn (sn : ℕ) : Bool :=
  0 < s.rxModBase cfg sn && s.rxModBase cfg sn ≤ cfg.snFieldLength.amWindowSize

def fullyReceived (sn : ℕ) : Bool := (s.rxWindow.find? sn).any (·.fullyReceived)

def hasGap (sn : ℕ) : Bool := (s.rxWindow.find? sn).any (·.hasGap)

/-- first SN from `sn` on, below RX_Next_Highest, that is not fully received -/
def firstNotFullyReceived (s : RlcRxAmEntity) : ℕ → ℕ → ℕ
  | 0, sn => sn
  | fuel + 1, sn =>
    if s.rxModBase cfg sn < s.rxModBase cfg s.st.rxNextHighest then
      if s.fullyReceived sn then firstNotFullyReceived s fuel ((sn + 1) % cfg.snFieldLength.mod) else sn
    else sn

/-! ## Status report -/

/-- NACKs for the bytes missing before, between and behind the segments from `lastSo` on -/
def segmentNacks (sn : ℕ) : ℕ → Bool → List RlcRxAmSduSegment → List RlcAmStatusNack
  | lastSo, haveLastSegment, [] =>
    if haveLastSegment then []
    else [{ nackSn := sn, hasSo := true, soStart := lastSo % 2 ^ 16, soEnd := soEndOfSdu }]
  | lastSo, haveLastSegment, segm :: rest =>
    (if segm.so ≠ lastSo then
      [{ nackSn := sn, hasSo := true, soStart := lastSo % 2 ^ 16, soEnd := (segm.so + 2 ^ 16 - 1) % 2 ^ 16 }]
     else [])
    ++ segmentNacks sn (segm.so + segm.payload.length) (haveLastSegment || segm.si = .lastSegment) rest

/-- NACKs for one SN of the report -/
def missingNacks (sn : ℕ) : List RlcAmStatusNack :=
  match s.rxWindow.find? sn with
  | none => [{ nackSn := sn }]
  | some info =>
    if info.fullyReceived then []
    else
      match info.sduData with
      | .slice _ => []
      | .segmentSet segments => segmentNacks sn 0 false segments

/-- the assertions passed while collecting the NACKs of one SN -/
def missingFaults (sn : ℕ) : List RxFault :=
  match s.rxWindow.find? sn with
  | none => []
  | some info =>
    if info.fullyReceived then []
    else
      match info.sduData with
      | .slice _ => [.sduDataVariant sn]
      | .segmentSet segments =>
        ((segmentNacks sn 0 false segments).filter fun nack => nack.soStart > nack.soEnd).map fun _ => .nackOffsets sn

/-- SNs from `i` up to `stopSn` -/
def reportSns (s : RlcRxAmEntity) (stopSn : ℕ) : ℕ → ℕ → List ℕ
  | 0, _ => []
  | fuel + 1, i =>
    if s.rxModBase cfg i < s.rxModBase cfg stopSn then
      i :: reportSns s stopSn fuel ((i + 1) % cfg.snFieldLength.mod)
    else []

def maxNofSnPerStatusReport : ℕ := cfg.maxSnPerStatus.getD cfg.snFieldLength.amWindowSize

/-- ACK_SN of the report: RX_Highest_Status, or earlier if too many SNs would be visited -/
def reportStopSn : ℕ :=
  let limit := (s.st.rxNext + maxNofSnPerStatusReport cfg) % cfg.snFieldLength.mod
  if s.rxModBase cfg s.st.rxHighestStatus > s.rxModBase cfg limit then limit else s.st.rxHighestStatus

def reportedSns : List ℕ :=
  s.reportSns cfg (s.reportStopSn cfg) cfg.snFieldLength.mod s.st.rxNext

def storeStatusReport : RlcRxAmEntity :=
  { s with
    statusOwnedByWriter := s.statusForExchange
    statusForExchange := s.statusOwnedByWriter
    statusReportSize := s.statusOwnedByWriter.packedSize }

def refreshStatusReport : RlcRxAmEntity :=
  let sns := s.reportedSns cfg
  let report := (sns.flatMap s.missingNacks).foldl RlcAmStatusPdu.pushNack s.statusOwnedByWriter.reset
  { s with
    statusOwnedByWriter := { report with ackSn := s.reportStopSn cfg }
    faults := s.faults ++ sns.flatMap s.missingFaults }.storeStatusReport

def statusReportRequired : Bool := s.doStatus && !s.statusProhibitTimerIsRunning

/-- hands the report for exchange to the transmitting side -/
def getStatusPdu : RlcRxAmEntity × RlcAmStatusPdu :=
  ({ s with
      doStatus := false
      statusProhibitTimerIsRunning := if cfg.tStatusProhibit > 0 then true else s.statusProhibitTimerIsRunning
      statusOwnedByReader := s.statusForExchange
      statusForExchange := s.statusOwnedByReader }, s.statusForExchange)

def getStatusPduLength : ℕ := s.statusReportSize

/-! ## Data PDUs -/

/-- the SDU info to be filled: what is in the window, or a new one if the pool can serve it -/
def obtainInfo (sn : ℕ) (poolOk : Bool) : Option RlcRxAmSduInfo :=
  match s.rxWindow.find? sn with
  | some info => some info
  | none => if poolOk then some {} else none

/-- window with the SDU info of an SN written back -/
def putInfo (sn : ℕ) (info : RlcRxAmSduInfo) : RlcRxAmEntity :=
  { s with
    rxWindow := if s.rxWindow.contains sn then s.rxWindow.modify sn fun _ => info
      else s.rxWindow.overwrite sn info }

def handleFullDataSdu (sn : ℕ) (payload : Bytes) (poolOk : Bool) : RlcRxAmEntity × Bool :=
  match s.obtainInfo sn poolOk with
  | none => (s, false)
  | some _ => (s.putInfo sn { sduData := .slice payload, fullyReceived := true, hasGap := false }, true)

def handleSegmentDataSdu (hdr : RlcAmPduHeader) (payload : Bytes) (poolOk : Bool) :
    RlcRxAmEntity × Bool :=
  match s.obtainInfo hdr.sn poolOk with
  | none => (s, false)
  | some info =>
    let (stored, info) := storeSegment info ⟨hdr.si, hdr.so, payload⟩
    let s := match info.sduData with
      | .slice _ => s.fault (.sduDataVariant hdr.sn)
      | .segmentSet _ => s
    (s.putInfo hdr.sn (updateSegmentInventory info), stored)

/-- removes fully received SDUs from `sn` on; the first SN that is not fully received becomes RX_Next -/
def advanceRxNext : ℕ → ℕ → RlcRxAmEntity → RlcRxAmEntity
  | 0, sn, s => { s with st := { s.st with rxNext := sn } }
  | fuel + 1, sn, s =>
    if s.rxModBase cfg sn < s.rxModBase cfg s.st.rxNextHighest then
      if s.fullyReceived sn then
        advanceRxNext fuel ((sn + 1) % cfg.snFieldLength.mod) { s with rxWindow := s.rxWindow.erase sn }
      else { s with st := { s.st with rxNext := sn } }
    else { s with st := { s.st with rxNext := sn } }

/-- RX_Highest_Status after the SDU of SN `sn` is complete -/
def updateHighestStatus (sn : ℕ) : RlcRxAmEntity :=
  if s.rxModBase cfg sn = s.rxModBase cfg s.st.rxHighestStatus then
    { s with st := { s.st with
      rxHighestStatus := s.firstNotFullyReceived cfg cfg.snFieldLength.mod
        ((s.st.rxHighestStatus + 1) % cfg.snFieldLength.mod) } }
  else s

/-- passes a fully received SDU to the upper layer and releases its buffers -/
def deliverSdu (sn : ℕ) (info : RlcRxAmSduInfo) (allocOk : Bool) : RlcRxAmEntity :=
  let s := match reassembleSdu info allocOk with
    | none => s
    | some sdu => { s with delivered := s.delivered ++ [sdu] }
  s.putInfo sn { info with sduData := .slice [] }

/-- RX_Next after the SDU of SN `sn` is complete -/
def updateNext (sn : ℕ) : RlcRxAmEntity :=
  if s.rxModBase cfg sn = s.rxModBase cfg s.st.rxNext then
    advanceRxNext cfg cfg.snFieldLength.mod (s.st.rxNext % cfg.snFieldLength.mod) s
  else s

/-- the SDU of SN `sn` is complete -/
def completeSdu (sn : ℕ) (info : RlcRxAmSduInfo) (allocOk : Bool) : RlcRxAmEntity :=
  ((s.deliverSdu sn info allocOk).updateHighestStatus cfg sn).updateNext cfg sn

/-- conditions for stopping t-Reassembly -/
def stopReassembly : Bool :=
  s.st.rxNextStatusTrigger = s.st.rxNext
  || (s.rxModBase cfg s.st.rxNextStatusTrigger = s.rxModBase cfg (s.st.rxNext + 1)
    && s.rxWindow.contains s.st.rxNext && !s.hasGap s.st.rxNext)
  || !s.insideRxWindow cfg s.st.rxNextStatusTrigger

/-- conditions for starting t-Reassembly with SN `sn` as the lowest one of interest -/
def startReassembly (sn : ℕ) : Bool :=
  s.rxModBase cfg s.st.rxNextHighest > s.rxModBase cfg (sn + 1)
  || (s.rxModBase cfg s.st.rxNextHighest = s.rxModBase cfg (sn + 1) && s.hasGap sn)

def restartReassembly (sn : ℕ) : RlcRxAmEntity :=
  if s.startReassembly cfg sn then
    { s with
      reassemblyTimer := true
      st := { s.st with rxNextStatusTrigger := s.st.rxNextHighest }
      faults := if cfg.tReassembly = 0 then s.faults ++ [.reassemblyDuration] else s.faults }
  else s

/-- RX_Next_Highest behind the highest SN received -/
def raiseNextHighest (sn : ℕ) : RlcRxAmEntity :=
  if s.rxModBase cfg sn ≥ s.rxModBase cfg s.st.rxNextHighest then
    { s with st := { s.st with rxNextHighest := (sn + 1) % cfg.snFieldLength.mod } }
  else s

/-- stops and starts t-Reassembly after a PDU has been stored -/
def updateReassemblyTimer : RlcRxAmEntity :=
  let s := if s.reassemblyTimer && s.stopReassembly cfg then { s with reassemblyTimer := false } else s
  if !s.reassemblyTimer then s.restartReassembly cfg s.st.rxNext else s

/-- an AMD PDU has been placed in the reception buffer -/
def afterStore (sn : ℕ) (allocOk : Bool) : RlcRxAmEntity :=
  let s := s.raiseNextHighest cfg sn
  let s := match s.rxWindow.find? sn with
    | some info => if info.fullyReceived then s.completeSdu cfg sn info allocOk else s
    | none => s
  s.updateReassemblyTimer cfg

/-- what is done on every exit of handle_data_pdu -/
def postProcess (stored statusRequested : Bool) : RlcRxAmEntity :=
  let s := if stored || statusRequested then s.refreshStatusReport cfg else s
  if statusRequested then { s with doStatus := true } else s

/-- a data PDU with its header stripped -/
def placeSdu (hdr : RlcAmPduHeader) (payload : Bytes) (poolOk allocOk : Bool) :
    RlcRxAmEntity × Bool :=
  if !s.insideRxWindow cfg hdr.sn then (s, false)
  else if s.fullyReceived hdr.sn then (s, false)
  else
    let (s, stored) :=
      if hdr.si = .fullSdu then s.handleFullDataSdu hdr.sn payload poolOk
      else s.handleSegmentDataSdu hdr payload poolOk
    (if stored then s.afterStore cfg hdr.sn allocOk else s, stored)

def handleDataPdu (buf : Bytes) (poolOk allocOk : Bool) : RlcRxAmEntity :=
  match rlcAmReadDataPduHeader cfg.snFieldLength buf with
  | none => s
  | some (hdr, _) =>
    if buf.length ≤ hdr.getPackedSize then s
    else
      let placed := s.placeSdu cfg hdr (buf.drop hdr.getPackedSize) poolOk allocOk
      placed.1.postProcess cfg placed.2 hdr.p

/-- the state after a PDU, and the STATUS PDU passed to the transmitting side if it was one -/
def handlePdu (buf : Bytes) (poolOk allocOk : Bool) : RlcRxAmEntity × Option RlcAmStatusPdu :=
  match buf with
  | [] => (s, none)
  | b :: _ =>
    if (b.toNat >>> 7) &&& 0x01 = RlcDcField.control.toNumber then
      match RlcAmStatusPdu.unpack cfg.snFieldLength buf with
      | .ok status => (s, some status)
      | .error _ => (s, none)
    else (s.handleDataPdu cfg buf poolOk allocOk, none)

/-! ## Timers -/

/-- moves RX_Highest_Status to `snUpd`, which is asserted to be a valid ACK_SN -/
def raiseHighestStatus (snUpd : ℕ) : RlcRxAmEntity :=
  let s := if !s.validAckSn cfg snUpd then s.fault (.highestStatus snUpd) else s
  { s with st := { s.st with rxHighestStatus := snUpd } }

def onExpiredReassemblyTimer : RlcRxAmEntity :=
  if s.reassemblyTimer then s
  else if !s.validAckSn cfg s.st.rxNextStatusTrigger then s
  else
    let s := s.raiseHighestStatus cfg (s.firstNotFullyReceived cfg cfg.snFieldLength.mod s.st.rxNextStatusTrigger)
    { (s.restartReassembly cfg s.st.rxHighestStatus).refreshStatusReport cfg with doStatus := true }

/-! ## Operations -/

inductive Op where
  | handlePdu (buf : Bytes) (poolOk allocOk : Bool)
  | reassemblyExpiry
  | statusProhibitExpiry
  | getStatusPdu
deriving DecidableEq, Repr

def step : Op → RlcRxAmEntity
  | .handlePdu buf poolOk allocOk => (s.handlePdu cfg buf poolOk allocOk).1
  | .reassemblyExpiry =>
    if s.reassemblyTimer then { s with reassemblyTimer := false }.onExpiredReassemblyTimer cfg else s
  | .statusProhibitExpiry => { s with statusProhibitTimerIsRunning := false }
  | .getStatusPdu => if s.statusReportRequired then (s.getStatusPdu cfg).1 else s

end RlcRxAmEntity

end OcuduRan.Rlc
