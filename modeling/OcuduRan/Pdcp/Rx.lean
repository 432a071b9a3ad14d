/-
The receiving side of a PDCP entity (lib/pdcp/pdcp_entity_rx.h, pdcp_entity_rx.cpp, support/sdu_window.h).

  COUNTs    RX_DELIV is the first COUNT not yet delivered, RX_NEXT is behind the highest COUNT received, RX_REORD is
            behind the COUNT the reordering timer was started for.
  PDUs      handle_data_pdu completes the SN of a PDU to a COUNT and sends it to the crypto executor; apply_security
            runs there, apply_reordering back in the executor of the UE, in any order.
  delivery  rx_window keeps what arrived early. advance_rx_window delivers in ascending COUNT, up to a gap or across
            gaps; t-Reordering limits how long a gap holds delivery up.
  report    compile_status_report tells the peer RX_DELIV and, in a bitmap, what is in the window.

The conventions are those of the transmitting side: outcomes of the environment are inputs of an operation, executor
queues are lists from which any task may run, calls to other layers are `events`, failed assertions are `faults`.
`newSdu` records the COUNT of the SDU besides what the upper layer gets, `securityPassed` a PDU that leaves
apply_security. Left out: logging, metrics, time stamps and the crypto token counter.
-/
import OcuduRan.Core.CircularMap
import OcuduRan.Core.Machine
import OcuduRan.Core.TickTimer
import OcuduRan.Pdcp.Pdu

namespace OcuduRan.Pdcp

open ModWindow BitStream PdcpControlPduType
open Rlc (Bytes PdcpSnSize)

/-! ## Configuration -/

inductive PdcpTReordering where
  | ms0 | ms1 | ms2 | ms4 | ms5 | ms8 | ms10 | ms15 | ms20 | ms30 | ms40 | ms50 | ms60 | ms80 | ms100 | ms120 | ms140
  | ms160 | ms180 | ms200 | ms220 | ms240 | ms260 | ms280 | ms300 | ms500 | ms750 | ms1000 | ms1250 | ms1500 | ms1750
  | ms2000 | ms2250 | ms2500 | ms2750 | ms3000
  | infinity
deriving DecidableEq, Repr

/-- duration in ticks; `infinity` has none -/
def PdcpTReordering.toMs : PdcpTReordering → Option ℕ
  | ms0 => some 0
  | ms1 => some 1
  | ms2 => some 2
  | ms4 => some 4
  | ms5 => some 5
  | ms8 => some 8
  | ms10 => some 10
  | ms15 => some 15
  | ms20 => some 20
  | ms30 => some 30
  | ms40 => some 40
  | ms50 => some 50
  | ms60 => some 60
  | ms80 => some 80
  | ms100 => some 100
  | ms120 => some 120
  | ms140 => some 140
  | ms160 => some 160
  | ms180 => some 180
  | ms200 => some 200
  | ms220 => some 220
  | ms240 => some 240
  | ms260 => some 260
  | ms280 => some 280
  | ms300 => some 300
  | ms500 => some 500
  | ms750 => some 750
  | ms1000 => some 1000
  | ms1250 => some 1250
  | ms1500 => some 1500
  | ms1750 => some 1750
  | ms2000 => some 2000
  | ms2250 => some 2250
  | ms2500 => some 2500
  | ms2750 => some 2750
  | ms3000 => some 3000
  | infinity => none

/-- room for PDUs that arrive while the entity is paused -/
def pduBufferCapacity : ℕ := 2048

/-- header decompressors: packet in, decompressed packet and feedback out, either of them possibly empty -/
structure RohcDecompFactory (δ : Type) where
  createRohcDecompressor : Option δ
  decompress : δ → Bytes → (Bytes × Bytes) × δ

structure PdcpRxConfig where
  rbType : PdcpRbType
  rlcMode : PdcpRlcMode
  snSize : PdcpSnSize
  direction : PdcpSecurityDirection
  bearerId : ℕ
  headerCompression : Option RohcType
  outOfOrderDelivery : Bool
  tReordering : PdcpTReordering
  maxCount : PdcpMaxCount
deriving DecidableEq, Repr

/-- configuration, header decompressors and security algorithms an entity is created with -/
structure PdcpRxSetup (δ : Type) where
  cfg : PdcpRxConfig
  rohc : RohcDecompFactory δ
  security : SecurityAlgorithms

/-! ## State -/

structure PdcpRxState where
  rxNext : ℕ := 0
  rxDeliv : ℕ := 0
  rxReord : ℕ := 0
deriving DecidableEq, Repr

/-- a PDU on its way through security; at the end its buffer is the SDU -/
structure PdcpRxPduInfo where
  buf : Bytes
  count : ℕ
  integrityVerified : Bool
deriving DecidableEq, Repr

/-- an SDU in the receive window -/
structure PdcpRxSduInfo where
  buf : Bytes
  count : ℕ
  integrityVerified : Bool
deriving DecidableEq, Repr

structure SecurityEngineRx where
  secCfg : Sec128AsConfig
  integrityEnabled : IntegrityEnabled
  cipheringEnabled : Bool
deriving DecidableEq, Repr

/-- tasks for the executor of the UE -/
inductive RxTask where
  | applyReordering (info : PdcpRxPduInfo)
  | handleFailure (status : SecurityStatus) (count : ℕ)
deriving DecidableEq, Repr

inductive RxEvent where
  | newSdu (count : ℕ) (sdu : Bytes) (integrityVerified : Bool)
  | integrityFailure
  | protocolFailure
  | maxCountReached
  | resumeRequired
  | statusReport (pdu : Bytes)
  | rohcFeedbackReceived (pdu : Bytes)
  | rohcFeedbackProduced (feedback : Bytes)
  | securityPassed (count : ℕ) (sdu : Bytes)
deriving DecidableEq, Repr

inductive RxFault where
  /-- advance_rx_window beyond RX_NEXT -/
  | stopCount (stopCount rxNext : ℕ)
  /-- add_sn of a COUNT that is in the window -/
  | addSnExists (count : ℕ)
  /-- trim_head of a header that is longer than what security left of the PDU -/
  | trimHead (count : ℕ)
deriving DecidableEq, Repr

structure PdcpEntityRx (δ : Type) where
  st : PdcpRxState
  rxWindow : CircularMap PdcpRxSduInfo
  rohcDecomp : Option δ
  secEngine : Option SecurityEngineRx
  integrityEnabled : IntegrityEnabled
  cipheringEnabled : Bool
  stopped : Bool
  buffering : Bool
  suspended : Bool
  resumeRequested : Bool
  pduBuffer : List Bytes
  maxCountNotified : Bool
  maxCountOverflow : Bool
  now : ℕ
  reorderingTimer : TickTimer
  cryptoTasks : List PdcpRxPduInfo
  ueTasks : List RxTask
  events : List RxEvent
  faults : List RxFault

namespace PdcpEntityRx

variable {δ : Type} (setup : PdcpRxSetup δ) (s : PdcpEntityRx δ)

def emit (e : RxEvent) : PdcpEntityRx δ := { s with events := s.events ++ [e] }

def fault (f : RxFault) : PdcpEntityRx δ := { s with faults := s.faults ++ [f] }

/-! ## Header decompression -/

def initHeaderDecompression : PdcpEntityRx δ :=
  if setup.cfg.headerCompression.isSome then { s with rohcDecomp := setup.rohc.createRohcDecompressor } else s

/-- the SDU for the upper layers, if there is one -/
def applyHeaderDecompression (buf : Bytes) : Option Bytes × PdcpEntityRx δ :=
  match s.rohcDecomp with
  | none => (some buf, s)
  | some decomp =>
    let ((packet, feedback), decomp') := setup.rohc.decompress decomp buf
    let s := { s with rohcDecomp := some decomp' }
    let s := if feedback = [] then s else s.emit (.rohcFeedbackProduced feedback)
    (if packet = [] then none else some packet, s)

/-! ## Delivery to the upper layers -/

def deliverSdu (info : PdcpRxSduInfo) : PdcpEntityRx δ :=
  match s.applyHeaderDecompression setup info.buf with
  | (none, s) => s
  | (some sdu, s) => s.emit (.newSdu info.count sdu info.integrityVerified)

/-- RX_DELIV passes one COUNT -/
def passCount : PdcpEntityRx δ :=
  { s with rxWindow := s.rxWindow.erase s.st.rxDeliv, st := { s.st with rxDeliv := s.st.rxDeliv + 1 } }

/-- the loop of advance_rx_window over the next `k` COUNTs -/
def advanceLoop (stopOnGap : Bool) : ℕ → PdcpEntityRx δ → PdcpEntityRx δ
  | 0, s => s
  | k + 1, s =>
    match s.rxWindow.find? s.st.rxDeliv with
    | some info =>
      -- an empty buffer was delivered out of order
      let s := if info.buf = [] then s else s.deliverSdu setup info
      advanceLoop stopOnGap k s.passCount
    | none => if stopOnGap then s else advanceLoop stopOnGap k s.passCount

def advanceRxWindow (stopCount : ℕ) (stopOnGap : Bool) : PdcpEntityRx δ :=
  let s := if stopCount ≤ s.st.rxNext then s else s.fault (.stopCount stopCount s.st.rxNext)
  s.advanceLoop setup stopOnGap (stopCount - s.st.rxDeliv)

/-- the loop of discard_rx_window over the next `k` COUNTs -/
def discardLoop : ℕ → PdcpEntityRx δ → PdcpEntityRx δ
  | 0, s => s
  | k + 1, s => discardLoop k s.passCount

def discardRxWindow : PdcpEntityRx δ := s.discardLoop (s.st.rxNext - s.st.rxDeliv)

/-! ## t-Reordering -/

def runReorderingTimer : PdcpEntityRx δ :=
  match setup.cfg.tReordering.toMs with
  | none => s
  | some duration => { s with reorderingTimer := TickTimer.run s.now duration }

/-- RX_REORD moves up to RX_NEXT and the timer starts -/
def startReordering : PdcpEntityRx δ :=
  { s with st := { s.st with rxReord := s.st.rxNext } }.runReorderingTimer setup

def handleTReorderingExpire : PdcpEntityRx δ :=
  let s := s.advanceRxWindow setup s.st.rxReord false
  let s := s.advanceRxWindow setup s.st.rxNext true
  if s.st.rxDeliv < s.st.rxNext then
    if setup.cfg.tReordering = .ms0 then s else s.startReordering setup
  else s

def reorderingCallback : PdcpEntityRx δ := if s.stopped then s else s.handleTReorderingExpire setup

/-- the end of apply_reordering -/
def handleReorderingTimers : PdcpEntityRx δ :=
  let s :=
    if s.reorderingTimer.running ∧ s.st.rxDeliv ≥ s.st.rxReord then { s with reorderingTimer := s.reorderingTimer.stop }
    else s
  if setup.cfg.tReordering = .infinity then s
  else if setup.cfg.tReordering = .ms0 then
    { s with st := { s.st with rxReord := s.st.rxNext } }.handleTReorderingExpire setup
  else if s.reorderingTimer.running = false ∧ s.st.rxDeliv < s.st.rxNext then s.startReordering setup
  else s

/-! ## Data PDUs -/

variable (info : PdcpRxPduInfo)

/-- add_sn, and the SDU written to the new element -/
def addSn : PdcpEntityRx δ :=
  { s with
    rxWindow := s.rxWindow.overwrite info.count ⟨info.buf, info.count, info.integrityVerified⟩
    faults := if s.rxWindow.contains info.count then s.faults ++ [.addSnExists info.count] else s.faults }

def updateRxNext (rcvdCount : ℕ) : PdcpEntityRx δ :=
  if rcvdCount ≥ s.st.rxNext then { s with st := { s.st with rxNext := rcvdCount + 1 } } else s

/-- delivery at once; an element without buffer stays in the window -/
def deliverOutOfOrder : PdcpEntityRx δ :=
  let s := s.deliverSdu setup ⟨info.buf, info.count, info.integrityVerified⟩
  { s with rxWindow := s.rxWindow.modify info.count fun sdu => { sdu with buf := [] } }

/-- apply_reordering of a PDU that is not a duplicate -/
def acceptPdu : PdcpEntityRx δ :=
  let s := (s.addSn info).updateRxNext info.count
  let s := if setup.cfg.outOfOrderDelivery then s.deliverOutOfOrder setup info else s
  let s := if info.count = s.st.rxDeliv then s.advanceRxWindow setup s.st.rxNext true else s
  s.handleReorderingTimers setup

def applyReordering : PdcpEntityRx δ :=
  if info.count < s.st.rxDeliv then s
  else
    match s.rxWindow.find? info.count with
    | some sdu =>
      if sdu.count = info.count then s
      else { s with rxWindow := s.rxWindow.erase info.count }.acceptPdu setup info
    | none => s.acceptPdu setup info

/-- what the environment decides in one run of apply_security -/
structure SecurityEnv where
  /-- the worker has a security engine -/
  workerOk : Bool
  /-- the ciphering engine succeeds -/
  cipherOk : Bool
  /-- the MAC-I is computed -/
  macOk : Bool
  /-- the UE executor takes the result -/
  executeOk : Bool
deriving DecidableEq, Repr

def securityContext (key : Sec128Key) (count : ℕ) : SecurityContext :=
  ⟨key, count, setup.cfg.bearerId, setup.cfg.direction⟩

/-- the MAC-I step of decrypt_and_verify_integrity -/
def verifyIntegrity (engine : SecurityEngineRx) (buf : Bytes) (count : ℕ) (env : SecurityEnv) :
    SecurityStatus × Bytes :=
  match engine.integrityEnabled, engine.secCfg.integAlgo, engine.secCfg.k128Int with
  | .off, _, _ => (.successUnprotected, buf)
  | enabled, some algo, some key =>
    if buf.length ≤ secMacLen ∨ env.macOk = false then (.integrityFailure, buf)
    else
      let msg := buf.take (buf.length - secMacLen)
      let mac := buf.drop (buf.length - secMacLen)
      if mac = setup.security.integrity algo (securityContext setup key count) msg then (.success, msg)
      -- during the security mode command, unprotected PDUs pass with a zero MAC-I
      else if enabled = .smcTransition ∧ mac = List.replicate secMacLen 0 then (.successUnprotected, msg)
      else (.integrityFailure, buf)
  | _, _, _ => (.successUnprotected, buf)

def applyDecipheringAndIntegrityCheck (buf : Bytes) (count : ℕ) (env : SecurityEnv) :
    SecurityStatus × Bytes :=
  if env.workerOk = false then (.engineFailure, buf)
  else
    match s.secEngine with
    | none =>
      if setup.cfg.rbType = .srb then
        if buf.length ≤ secMacLen then (.bufferFailure, buf)
        else if buf.drop (buf.length - secMacLen) ≠ List.replicate secMacLen 0 then (.integrityFailure, buf)
        else (.successUnprotected, buf.take (buf.length - secMacLen))
      else (.successUnprotected, buf)
    | some engine =>
      if engine.cipheringEnabled = false ∨ engine.secCfg.cipherAlgo = .nea0 then
        verifyIntegrity setup engine buf count env
      else if env.cipherOk = false then (.cipheringFailure, buf)
      else
        let ctx := securityContext setup engine.secCfg.k128Enc count
        let offset := setup.cfg.snSize.dataPduHeaderSize
        let msg := buf.take offset ++ setup.security.ciphering engine.secCfg.cipherAlgo ctx (buf.drop offset)
        verifyIntegrity setup engine msg count env

def executeUeTask (executeOk : Bool) (task : RxTask) : PdcpEntityRx δ :=
  if executeOk then { s with ueTasks := s.ueTasks ++ [task] } else s

def applySecurity (env : SecurityEnv) : PdcpEntityRx δ :=
  let (status, buf) := s.applyDecipheringAndIntegrityCheck setup info.buf info.count env
  if status.isSuccess then
    let hdrSize := setup.cfg.snSize.dataPduHeaderSize
    let s := if buf.length < hdrSize then s.fault (.trimHead info.count) else s
    let sdu := buf.drop hdrSize
    (s.emit (.securityPassed info.count sdu)).executeUeTask env.executeOk
      (.applyReordering ⟨sdu, info.count, decide (status = .success)⟩)
  else s.executeUeTask env.executeOk (.handleFailure status info.count)

def handleFailure : SecurityStatus → PdcpEntityRx δ
  | .integrityFailure => s.emit .integrityFailure
  | _ => s.emit .protocolFailure

def runUeTask : RxTask → PdcpEntityRx δ
  | .applyReordering info => s.applyReordering setup info
  | .handleFailure status _ => s.handleFailure status

/-- RCVD_COUNT of a PDU with this SN -/
def rcvdCount (sn : ℕ) : ℕ := setup.cfg.snSize.countEstimation s.st.rxDeliv sn

/-- what the environment decides in one call of handle_pdu -/
structure PduEnv where
  /-- the deep copy of the PDU succeeds -/
  copyOk : Bool
  /-- the crypto executor takes the task -/
  executeOk : Bool
deriving DecidableEq, Repr

def notifyMaxCount (count : ℕ) : PdcpEntityRx δ :=
  if count > setup.cfg.maxCount.notify.toNat ∧ s.maxCountNotified = false then
    { s with maxCountNotified := true }.emit .maxCountReached
  else s

def handleDataPdu (pdu : Bytes) (executeOk : Bool) : PdcpEntityRx δ :=
  match readDataPduHeader setup.cfg.snSize pdu with
  | none => s
  | some sn =>
    let count := s.rcvdCount setup sn
    let s := s.notifyMaxCount setup count
    if count ≥ setup.cfg.maxCount.hard.toNat then
      if s.maxCountOverflow then s else { s with maxCountOverflow := true }.emit .protocolFailure
    else if executeOk then { s with cryptoTasks := s.cryptoTasks ++ [⟨pdu, count, false⟩] }
    else s

def handleControlPdu (firstByte : UInt8) (pdu : Bytes) : PdcpEntityRx δ :=
  let cpt := pdcpControlPduGetCpt firstByte
  if cpt = statusReport.toNumber then s.emit (.statusReport pdu)
  else if cpt = interspersedRohcFeedback.toNumber then s.emit (.rohcFeedbackReceived pdu)
  else s

def handlePdu (buf : Bytes) (env : PduEnv) : PdcpEntityRx δ :=
  if s.stopped then s
  else
    let s := if s.suspended && !s.resumeRequested then { s with resumeRequested := true }.emit .resumeRequired else s
    if s.buffering then
      if s.pduBuffer.length < pduBufferCapacity then { s with pduBuffer := s.pduBuffer ++ [buf] } else s
    else
      match buf with
      | [] => s
      | firstByte :: _ =>
        if env.copyOk = false then s
        else if setup.cfg.rbType = .srb ∨ pdcpPduGetDc firstByte = 1 then s.handleDataPdu setup buf env.executeOk
        else s.handleControlPdu firstByte buf

/-! ## Status report -/

/-- the bits of the report's bitmap, at most what fits into a control PDU -/
def reportBitmap : List Bool :=
  let maxBits := (pdcpControlPduMaxSize - 5) * 8
  let first := (s.st.rxDeliv + 1) % 2 ^ 32
  (List.range' first (min (s.st.rxNext - first) maxBits)).map s.rxWindow.contains

def compileStatusReport : Bytes :=
  toBytes
    (natBits 1 0 ++ natBits 3 statusReport.toNumber ++ natBits 4 0 ++
      natBits 32 s.st.rxDeliv ++ s.reportBitmap)

/-! ## Control by upper layers -/

def configureSecurity (secCfg : Sec128AsConfig) (integrityEnabled : IntegrityEnabled)
    (cipheringEnabled : Bool) : PdcpEntityRx δ :=
  if integrityEnabled ≠ .off ∧ (secCfg.k128Int = none ∨ secCfg.integAlgo = none) then s
  else
    { s with
      integrityEnabled := integrityEnabled
      cipheringEnabled := cipheringEnabled
      secEngine := some ⟨secCfg, integrityEnabled, cipheringEnabled⟩ }

def reestablish (secCfg : Sec128AsConfig) : PdcpEntityRx δ :=
  let resets := setup.cfg.rbType = .srb ∨ setup.cfg.rlcMode = .um
  let s := if setup.cfg.rbType = .srb then s.discardRxWindow else s
  let s := if resets then { s with reorderingTimer := s.reorderingTimer.stop } else s
  let s := if setup.cfg.rlcMode = .um then s.advanceRxWindow setup s.st.rxNext false else s
  let s := s.initHeaderDecompression setup
  let s := if resets then { s with st := {} } else s
  s.configureSecurity secCfg s.integrityEnabled s.cipheringEnabled

def beginBuffering : PdcpEntityRx δ := { s with buffering := true }

/-- the buffered PDUs are handled in order, each with its own outcome -/
def endBuffering (env : ℕ → PduEnv) : PdcpEntityRx δ :=
  Machine.run (fun s (call : Bytes × ℕ) => s.handlePdu setup call.1 (env call.2))
    { s with buffering := false, pduBuffer := [] } s.pduBuffer.zipIdx

def suspend : PdcpEntityRx δ :=
  if s.suspended then s
  else if !s.buffering then s
  else
    let s := { s with reorderingTimer := s.reorderingTimer.stop }.advanceRxWindow setup s.st.rxNext false
    { s with st := {}, suspended := true }

def resume : PdcpEntityRx δ :=
  if !s.suspended then s
  else if !s.buffering then s
  else { s with suspended := false, resumeRequested := false }

def stop : PdcpEntityRx δ :=
  if s.stopped then s else { s with stopped := true, reorderingTimer := s.reorderingTimer.stop }

/-- status transfer from another node -/
def setCount (hfn sn : ℕ) : PdcpEntityRx δ :=
  let count := setup.cfg.snSize.computeCount hfn sn
  { s with st := ⟨count, count, count⟩ }

/-! ## Runs -/

def init : PdcpEntityRx δ :=
  initHeaderDecompression setup
    { st := {}
      rxWindow := .empty setup.cfg.snSize.windowSize
      rohcDecomp := none
      secEngine := none
      integrityEnabled := .off
      cipheringEnabled := false
      stopped := false
      buffering := false
      suspended := false
      resumeRequested := false
      pduBuffer := []
      maxCountNotified := false
      maxCountOverflow := false
      now := 0
      reorderingTimer := {}
      cryptoTasks := []
      ueTasks := []
      events := []
      faults := [] }

inductive Op where
  | handlePdu (buf : Bytes) (env : PduEnv)
  /-- the crypto executor runs the task at this position of its queue -/
  | applySecurity (idx : ℕ) (env : SecurityEnv)
  /-- the UE executor runs the task at this position of its queue -/
  | runUeTask (idx : ℕ)
  | configureSecurity (secCfg : Sec128AsConfig) (integrityEnabled : IntegrityEnabled) (cipheringEnabled : Bool)
  | reestablish (secCfg : Sec128AsConfig)
  | beginBuffering
  | endBuffering (env : ℕ → PduEnv)
  | suspend
  | resume
  | stop
  | setCount (hfn sn : ℕ)
  | tick
  /-- the callback of t-Reordering runs, if it is due -/
  | reorderingTimerExpiry

def step : Op → PdcpEntityRx δ
  | .handlePdu buf env => s.handlePdu setup buf env
  | .applySecurity idx env =>
    match s.cryptoTasks[idx]? with
    | none => s
    | some info => { s with cryptoTasks := s.cryptoTasks.eraseIdx idx }.applySecurity setup info env
  | .runUeTask idx =>
    match s.ueTasks[idx]? with
    | none => s
    | some task => { s with ueTasks := s.ueTasks.eraseIdx idx }.runUeTask setup task
  | .configureSecurity secCfg integrityEnabled cipheringEnabled =>
    s.configureSecurity secCfg integrityEnabled cipheringEnabled
  | .reestablish secCfg => s.reestablish setup secCfg
  | .beginBuffering => s.beginBuffering
  | .endBuffering env => s.endBuffering setup env
  | .suspend => s.suspend setup
  | .resume => s.resume
  | .stop => s.stop
  | .setCount hfn sn => s.setCount setup hfn sn
  | .tick => { s with now := s.now + 1, reorderingTimer := s.reorderingTimer.tick (s.now + 1) }
  | .reorderingTimerExpiry =>
    if s.reorderingTimer.due then { s with reorderingTimer := s.reorderingTimer.stop }.reorderingCallback setup else s

end PdcpEntityRx

end OcuduRan.Pdcp
