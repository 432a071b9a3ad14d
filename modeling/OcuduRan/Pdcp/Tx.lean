/-
The transmitting side of a PDCP entity (lib/pdcp/pdcp_entity_tx.h, pdcp_entity_tx.cpp, pdcp_tx_window.h).

  COUNTs    TX_NEXT is the COUNT of the next SDU, TX_NEXT_ACK the lower edge of tx_window. TX_TRANS is behind the last
            COUNT the lower layers reported as transmitted. TX_TRANS_CRYPTO is the next COUNT to be handed to the lower
            layers, TX_REORD_CRYPTO the COUNT the crypto reordering timer waits for.
  SDUs      handle_sdu gives an SDU its COUNT, keeps it in the window and sends it to the crypto executor;
            apply_security runs there, apply_reordering back in the executor of the UE, in any order.
  removal   SDUs leave the window by notifications of the lower layers (stop_discard_timer), by a status report of the
            peer (discard_pdu) and by the discard timer (discard_callback). One timer serves all SDUs.
  retx      data recovery and re-establishment protect and send everything in the window again; retransmit_id tells
            late results of the crypto executor apart.

An operation is a function from state to state. What the environment decides (room in an executor queue, success of a
buffer allocation) is an input of the operation; pending tasks of the two executors are lists, from which any element
may be run next. Ticks and retransmit_id are kept as unbounded numbers and reduced to the 32 and 16 bits of the source
where the code computes with them or compares them. Calls to other layers and to the ciphering engine are recorded in
`events`, failed assertions in `faults`; the code goes on after them as a build without assertions does. Left out:
logging, metrics, time stamps, the crypto token counter, and the checks of the security domain.
-/
import OcuduRan.Core.CircularMap
import OcuduRan.Core.Machine
import OcuduRan.Core.TickTimer
import OcuduRan.Pdcp.Pdu

namespace OcuduRan.Pdcp

open ModWindow BitStream TickTimer PdcpControlPduType
open Rlc (Bytes PdcpSnSize)

/-! ## Configuration -/

inductive PdcpDiscardTimer where
  | ms10 | ms20 | ms30 | ms40 | ms50 | ms60 | ms75 | ms100 | ms150 | ms200 | ms250 | ms300 | ms500 | ms750 | ms1500
  | infinity
deriving DecidableEq, Repr

/-- duration in ticks; `infinity` has none -/
def PdcpDiscardTimer.toMs : PdcpDiscardTimer → Option ℕ
  | ms10 => some 10
  | ms20 => some 20
  | ms30 => some 30
  | ms40 => some 40
  | ms50 => some 50
  | ms60 => some 60
  | ms75 => some 75
  | ms100 => some 100
  | ms150 => some 150
  | ms200 => some 200
  | ms250 => some 250
  | ms300 => some 300
  | ms500 => some 500
  | ms750 => some 750
  | ms1500 => some 1500
  | infinity => none

/-- timeout of the serialization of PDUs after the crypto executor, in ticks -/
def pdcpTxCryptoReorderingTimeoutMs : ℕ := 40

/-- capacity of the buffer for SDUs of a paused entity -/
def sduBufferCapacity : ℕ := 2048

/-- header compressors: a compressor is a state that every packet and every feedback changes -/
structure RohcFactory (κ : Type) where
  createRohcCompressor : Option κ
  compress : κ → Bytes → Bytes × κ
  handleFeedback : κ → Bytes → κ

structure PdcpTxConfig where
  rbType : PdcpRbType
  rlcMode : PdcpRlcMode
  snSize : PdcpSnSize
  direction : PdcpSecurityDirection
  bearerId : ℕ
  headerCompression : Option RohcType
  discardTimer : Option PdcpDiscardTimer
  statusReportRequired : Bool
  maxCount : PdcpMaxCount
  testMode : Bool
deriving DecidableEq, Repr

/-- configuration, header compressors and security algorithms an entity is created with -/
structure PdcpTxSetup (κ : Type) where
  cfg : PdcpTxConfig
  rohc : RohcFactory κ
  security : SecurityAlgorithms

/-! ## State -/

structure PdcpTxState where
  txNext : ℕ := 0
  txTransCrypto : ℕ := 0
  txReordCrypto : ℕ := 0
  txTrans : ℕ := 0
  txNextAck : ℕ := 0
deriving DecidableEq, Repr

structure PdcpTxWindowSduInfo where
  sdu : Bytes
  count : ℕ
  tickPointOfArrival : Option ℕ
deriving DecidableEq, Repr

structure PdcpTxWindowElement where
  sduInfo : PdcpTxWindowSduInfo
  /-- the protected PDU, only while it waits for its turn -/
  pdu : Bytes
  sduLength : ℕ
deriving DecidableEq, Repr

structure PdcpTxWindow where
  txWindow : CircularMap PdcpTxWindowElement
  sduBytes : ℕ
  nofSdus : ℕ
deriving DecidableEq, Repr

/-- a buffer on its way through the crypto executor -/
structure PdcpTxBufferInfo where
  isRetx : Bool
  retxId : ℕ
  count : ℕ
  buf : Bytes
deriving DecidableEq, Repr

structure SecurityEngineTx where
  secCfg : Sec128AsConfig
  integrityEnabled : IntegrityEnabled
  cipheringEnabled : Bool
deriving DecidableEq, Repr

/-- calls to the lower and upper layers and to the security engine; `epoch` is the retransmit_id of the moment -/
inductive TxEvent where
  | newDataPdu (epoch : ℕ) (count : ℕ) (pdu : Bytes) (isRetx : Bool)
  | newControlPdu (pdu : Bytes)
  | discardPdu (sn : ℕ)
  | protocolFailure
  | maxCountReached
  | resumeRequired
  /-- the ciphering engine is called -/
  | ciphered (ctx : SecurityContext) (plaintext : Bytes)
  /-- the security engine has protected a PDU -/
  | secured (epoch : ℕ) (engine : Option SecurityEngineTx) (count : ℕ) (pdu : Bytes)
deriving DecidableEq, Repr

inductive TxFault where
  /-- add_sn: the COUNT is already in the window -/
  | addSnExists (count : ℕ)
  /-- operator[]: the COUNT is not in the window -/
  | snMissing (count : ℕ)
  /-- an SDU without arrival tick in a window with a finite discard timer -/
  | noArrivalTick (count : ℕ)
  /-- data recovery of an SRB or UM bearer -/
  | dataRecoveryBearer
deriving DecidableEq, Repr

structure PdcpEntityTx (κ : Type) where
  st : PdcpTxState
  txWindow : PdcpTxWindow
  desiredBufferSize : ℕ
  retransmitId : ℕ
  rohcComp : Option κ
  secEngine : Option SecurityEngineTx
  integrityEnabled : IntegrityEnabled
  cipheringEnabled : Bool
  stopped : Bool
  buffering : Bool
  suspended : Bool
  resumeRequested : Bool
  sduBuffer : List Bytes
  maxCountNotified : Bool
  maxCountOverflow : Bool
  /-- current tick -/
  now : ℕ
  discardTimer : TickTimer
  cryptoReorderingTimer : TickTimer
  /-- apply_security calls waiting in the crypto executor -/
  cryptoTasks : List PdcpTxBufferInfo
  /-- apply_reordering calls waiting in the UE executor -/
  reorderingTasks : List PdcpTxBufferInfo
  events : List TxEvent
  faults : List TxFault

/-! ## Window -/

namespace PdcpTxWindow

def empty (n : PdcpSnSize) : PdcpTxWindow := ⟨CircularMap.empty n.windowSize, 0, 0⟩

variable (w : PdcpTxWindow)

def hasSn (count : ℕ) : Bool := w.txWindow.contains count

def find? (count : ℕ) : Option PdcpTxWindowElement := w.txWindow.find? count

def addSdu (sduInfo : PdcpTxWindowSduInfo) (sduLength : ℕ) : PdcpTxWindow where
  txWindow := w.txWindow.overwrite sduInfo.count ⟨sduInfo, [], sduLength⟩
  sduBytes := w.sduBytes + sduLength
  nofSdus := w.nofSdus + 1

def removeSdu (count : ℕ) : PdcpTxWindow :=
  match w.find? count with
  | none => w
  | some elem => ⟨w.txWindow.erase count, w.sduBytes - elem.sduLength, w.nofSdus - 1⟩

def clear : PdcpTxWindow := ⟨CircularMap.empty w.txWindow.cap, 0, 0⟩

/-- assignment to the `pdu` of an element -/
def setPdu (count : ℕ) (pdu : Bytes) : PdcpTxWindow :=
  { w with txWindow := w.txWindow.modify count fun elem => { elem with pdu := pdu } }

def getPduBytes (n : PdcpSnSize) (rbType : PdcpRbType) (integrity : IntegrityEnabled) : ℕ :=
  let trailer := if rbType = .srb then secMacLen else if integrity ≠ .off then secMacLen else 0
  w.sduBytes + w.nofSdus * (n.dataPduHeaderSize + trailer)

/-- remove_sdu for `k` COUNTs from `count` on -/
def removeSdus (w : PdcpTxWindow) (count : ℕ) : ℕ → PdcpTxWindow
  | 0 => w
  | k + 1 => (w.removeSdu count).removeSdus (count + 1) k

/-- the first of `k` COUNTs from `count` on that is in the window, the COUNT behind them if there is none -/
def firstInWindow (w : PdcpTxWindow) (count : ℕ) : ℕ → ℕ
  | 0 => count
  | k + 1 => if w.hasSn count then count else w.firstInWindow (count + 1) k

end PdcpTxWindow

namespace PdcpEntityTx

variable {κ : Type} (setup : PdcpTxSetup κ) (s : PdcpEntityTx κ)

def emit (e : TxEvent) : PdcpEntityTx κ := { s with events := s.events ++ [e] }

def fault (f : TxFault) : PdcpEntityTx κ := { s with faults := s.faults ++ [f] }

/-! ## Header compression -/

def initHeaderCompression : PdcpEntityTx κ :=
  if setup.cfg.headerCompression = some .rohc then { s with rohcComp := setup.rohc.createRohcCompressor } else s

/-- the SDU to go on with, unless compression failed -/
def applyHeaderCompression (buf : Bytes) : Option Bytes × PdcpEntityTx κ :=
  match s.rohcComp with
  | none => (some buf, s)
  | some comp =>
    let (out, comp') := setup.rohc.compress comp buf
    let s := { s with rohcComp := some comp' }
    if out = [] then (none, s.emit .protocolFailure) else (some out, s)

/-! ## Timers and discard -/

/-- `max(arrival + discardTimer, now) - now` on 32-bit ticks -/
def computeNextDiscardTimeout (duration arrival : ℕ) : ℕ :=
  max ((arrival + duration) % 2 ^ 32) (s.now % 2 ^ 32) - s.now % 2 ^ 32

/-- the first part of stop_discard_timer: the timer stops, TX_NEXT_ACK moves up to `ack` -/
def removeUpTo (ack : ℕ) : PdcpEntityTx κ :=
  { s with
    discardTimer := s.discardTimer.stop
    txWindow := s.txWindow.removeSdus s.st.txNextAck (ack - s.st.txNextAck)
    st := { s.st with txNextAck := ack, txTrans := max s.st.txTrans ack } }

/-- the second part of stop_discard_timer: the timer runs again for the SDU at TX_NEXT_ACK -/
def restartDiscardTimer (duration : ℕ) : PdcpEntityTx κ :=
  if s.st.txNextAck = s.st.txNext then s
  else
    match s.txWindow.find? s.st.txNextAck with
    | none => s.fault (.snMissing s.st.txNextAck)
    | some elem =>
      match elem.sduInfo.tickPointOfArrival with
      | none => s.fault (.noArrivalTick elem.sduInfo.count)
      | some arrival => { s with discardTimer := run s.now (s.computeNextDiscardTimeout duration arrival) }

def stopDiscardTimer (highestCount : ℕ) : PdcpEntityTx κ :=
  match setup.cfg.discardTimer with
  | none => s
  | some timer =>
    if highestCount < s.st.txNextAck ∨ highestCount ≥ s.st.txNext then s
    else if !s.txWindow.hasSn s.st.txNextAck then s
    else
      match timer.toMs with
      | none => s.removeUpTo (highestCount + 1)
      | some duration => (s.removeUpTo (highestCount + 1)).restartDiscardTimer duration

def discardPdu (count : ℕ) : PdcpEntityTx κ :=
  if setup.cfg.discardTimer = none then s
  else if count < s.st.txNextAck ∨ count ≥ s.st.txNext then s
  else if !s.txWindow.hasSn count then s
  else
    let s := s.emit (.discardPdu (setup.cfg.snSize.computeSn count))
    let w := s.txWindow.removeSdu count
    let ack := w.firstInWindow s.st.txNextAck (s.st.txNext - s.st.txNextAck)
    { s with txWindow := w, st := { s.st with txNextAck := ack, txTrans := max s.st.txTrans ack } }

/-- the loop of discard_callback; it ends after at most `k` rounds when `k` exceeds the number of COUNTs in the window,
since each round moves TX_NEXT_ACK -/
def discardMatching (duration oldest : ℕ) : ℕ → PdcpEntityTx κ → PdcpEntityTx κ
  | 0, s => s
  | k + 1, s =>
    let s := s.discardPdu setup s.st.txNextAck
    match s.txWindow.find? s.st.txNextAck with
    | none => s
    | some elem =>
      match elem.sduInfo.tickPointOfArrival with
      | none => s.fault (.noArrivalTick elem.sduInfo.count)
      | some arrival =>
        -- the timeout is computed from the SDUs just discarded, not from `arrival`
        if arrival % 2 ^ 32 ≠ oldest % 2 ^ 32 then
          { s with discardTimer := run s.now (s.computeNextDiscardTimeout duration oldest) }
        else if s.st.txNextAck ≠ s.st.txNext then discardMatching duration oldest k s
        else s

def discardCallback : PdcpEntityTx κ :=
  if s.stopped then s
  else
    match s.txWindow.find? s.st.txNextAck, setup.cfg.discardTimer.bind PdcpDiscardTimer.toMs with
    | some elem, some duration =>
      match elem.sduInfo.tickPointOfArrival with
      | none => s.fault (.noArrivalTick elem.sduInfo.count)
      | some oldest => s.discardMatching setup duration oldest (s.st.txNext - s.st.txNextAck + 1)
    | _, _ => s

/-! ## Notifications of the lower layers -/

def notificationCountEstimation (notificationSn : ℕ) : ℕ :=
  let txLower := if setup.cfg.discardTimer.isSome then s.st.txNextAck else s.st.txTrans
  setup.cfg.snSize.countEstimation txLower notificationSn

def setTxTrans (count : ℕ) : PdcpEntityTx κ := { s with st := { s.st with txTrans := count } }

def handleTransmitNotificationImpl (notifSn : ℕ) : PdcpEntityTx κ :=
  if notifSn ≥ setup.cfg.snSize.cardinality then s
  else
    let notifCount := s.notificationCountEstimation setup notifSn
    if notifCount ≥ s.st.txTransCrypto then s
    else if notifCount < s.st.txTrans then s
    else if notifCount ≥ s.st.txNext then s
    else
      let s := s.setTxTrans (notifCount + 1)
      if setup.cfg.discardTimer = none then s
      else if setup.cfg.rlcMode = .um then s.stopDiscardTimer setup notifCount
      else s

def handleDeliveryNotificationImpl (notifSn : ℕ) : PdcpEntityTx κ :=
  if notifSn ≥ setup.cfg.snSize.cardinality then s
  else
    let notifCount := s.notificationCountEstimation setup notifSn
    if notifCount ≥ s.st.txNext then s
    else if setup.cfg.discardTimer = none then s
    else if setup.cfg.rlcMode = .am then s.stopDiscardTimer setup notifCount
    else s

def handleTransmitNotification (notifSn : ℕ) : PdcpEntityTx κ :=
  if s.stopped then s else s.handleTransmitNotificationImpl setup notifSn

def handleDeliveryNotification (notifSn : ℕ) : PdcpEntityTx κ :=
  if s.stopped then s else s.handleDeliveryNotificationImpl setup notifSn

def handleRetransmitNotification (notifSn : ℕ) : PdcpEntityTx κ :=
  if s.stopped then s
  else if setup.cfg.rbType = .srb then s
  else if setup.cfg.rlcMode = .um then s
  else s.handleTransmitNotificationImpl setup notifSn

def handleDeliveryRetransmittedNotification (notifSn : ℕ) : PdcpEntityTx κ :=
  if s.stopped then s
  else if setup.cfg.rbType = .srb then s
  else if setup.cfg.rlcMode = .um then s
  else s.handleDeliveryNotificationImpl setup notifSn

def handleDesiredBufferSizeNotification (desiredBs : ℕ) : PdcpEntityTx κ :=
  if s.stopped then s else { s with desiredBufferSize := desiredBs }

/-! ## SDUs from the upper layers -/

inductive EarlyDropReason where
  | zeroDbs
  | fullRlcQueue
  | fullWindow
  | noDrop
deriving DecidableEq, Repr

def getPduSize (sdu : Bytes) : ℕ :=
  setup.cfg.snSize.dataPduHeaderSize + sdu.length + if s.integrityEnabled = .off then 0 else 4

def checkEarlyDrop (buf : Bytes) : EarlyDropReason :=
  if s.desiredBufferSize = 0 then .zeroDbs
  else if (s.txWindow.getPduBytes setup.cfg.snSize setup.cfg.rbType s.integrityEnabled +
      s.getPduSize setup buf) % 2 ^ 32 > s.desiredBufferSize then .fullRlcQueue
  else if sub32 s.st.txNext s.st.txNextAck ≥ setup.cfg.snSize.windowSize - 1 then .fullWindow
  else .noDrop

/-- what the environment decides in one call of handle_sdu -/
structure SduEnv where
  /-- the deep copy of the SDU succeeds -/
  copyOk : Bool
  /-- there is room for the header -/
  headerOk : Bool
  /-- the crypto executor takes the task -/
  executeOk : Bool
deriving DecidableEq, Repr

/-- crypto_executor.execute of apply_security -/
def executeApplySecurity (executeOk : Bool) (info : PdcpTxBufferInfo) : PdcpEntityTx κ :=
  if executeOk then { s with cryptoTasks := s.cryptoTasks ++ [info] } else s

/-- the discard timer starts with the first SDU of an idle window -/
def startDiscardTimer : PdcpEntityTx κ :=
  match setup.cfg.discardTimer.bind PdcpDiscardTimer.toMs with
  | none => s
  | some duration => if s.discardTimer.running then s else { s with discardTimer := run s.now duration }

/-- a copy of the SDU is kept for retransmission -/
def storesCopy : Bool := setup.cfg.discardTimer.isSome && decide (setup.cfg.rlcMode = .am)

def newSduInfo (buf : Bytes) : PdcpTxWindowSduInfo where
  sdu := if storesCopy setup then buf else []
  count := s.st.txNext
  tickPointOfArrival := (setup.cfg.discardTimer.bind PdcpDiscardTimer.toMs).map fun _ => s.now

/-- tx_window.add_sdu at COUNT TX_NEXT -/
def storeSdu (buf : Bytes) : PdcpEntityTx κ :=
  { s with
    txWindow := s.txWindow.addSdu (s.newSduInfo setup buf) buf.length
    faults := if s.txWindow.hasSn s.st.txNext then s.faults ++ [.addSnExists s.st.txNext] else s.faults }

/-- header and COUNT for a (compressed) SDU, which goes to the crypto executor -/
def sendBuffer (isRetx : Bool) (count : ℕ) (buf : Bytes) (executeOk : Bool) : PdcpEntityTx κ :=
  let sn := setup.cfg.snSize.computeSn count
  s.executeApplySecurity executeOk
    { isRetx := isRetx
      retxId := s.retransmitId
      count := count
      buf := prependDataPduHeader setup.cfg.rbType setup.cfg.snSize sn buf }

/-- handle_sdu from the construction of the SDU info on -/
def transmitSdu (buf : Bytes) (env : SduEnv) : PdcpEntityTx κ :=
  let s := s.startDiscardTimer setup
  if storesCopy setup && !env.copyOk then s.emit .protocolFailure
  else
    let s := s.storeSdu setup buf
    match s.applyHeaderCompression setup buf with
    | (none, s) => s
    | (some buf, s) =>
      if !env.headerOk then s.emit .protocolFailure
      else { s with st := { s.st with txNext := s.st.txNext + 1 } }.sendBuffer setup false s.st.txNext buf env.executeOk

def handleSdu (buf : Bytes) (env : SduEnv) : PdcpEntityTx κ :=
  if s.stopped then s
  else
    let s := if s.suspended && !s.resumeRequested then { s with resumeRequested := true }.emit .resumeRequired else s
    if s.buffering then
      if s.sduBuffer.length < sduBufferCapacity then { s with sduBuffer := s.sduBuffer ++ [buf] } else s
    else if setup.cfg.rbType = .drb ∧ s.checkEarlyDrop setup buf ≠ .noDrop then s
    else if s.st.txNext ≥ setup.cfg.maxCount.hard.toNat then
      if s.maxCountOverflow then s else { s with maxCountOverflow := true }.emit .protocolFailure
    else
      let s :=
        if s.st.txNext ≥ setup.cfg.maxCount.notify.toNat ∧ s.maxCountNotified = false then
          { s with maxCountNotified := true }.emit .maxCountReached
        else s
      s.transmitSdu setup buf env

/-! ## Security -/

/-- what the environment decides in one run of apply_security -/
structure SecurityEnv where
  /-- appending the MAC-I succeeds -/
  appendOk : Bool
  /-- the ciphering engine succeeds -/
  cipherOk : Bool
  /-- the UE executor takes the result -/
  executeOk : Bool
deriving DecidableEq, Repr

def securityContext (key : Sec128Key) (count : ℕ) : SecurityContext :=
  ⟨key, count, setup.cfg.bearerId, setup.cfg.direction⟩

/-- the MAC-I step of encrypt_and_protect_integrity -/
def protectIntegrity (engine : SecurityEngineTx) (buf : Bytes) (count : ℕ) : Bytes :=
  match engine.integrityEnabled, engine.secCfg.integAlgo, engine.secCfg.k128Int with
  | .off, _, _ => buf
  | _, some algo, some key => buf ++ setup.security.integrity algo (securityContext setup key count) buf
  | _, _, _ => buf

/-- status, buffer, and the message given to the ciphering engine if it was called -/
def applyCipheringAndIntegrityProtection (buf : Bytes) (count : ℕ) (env : SecurityEnv) :
    SecurityStatus × Bytes × Option (SecurityContext × Bytes) :=
  match s.secEngine with
  | none =>
    if setup.cfg.rbType = .srb then
      if env.appendOk then (.successUnprotected, buf ++ List.replicate secMacLen 0, none)
      else (.bufferFailure, buf, none)
    else (.engineFailure, buf, none)
  | some engine =>
    let integrityOn := engine.integrityEnabled ≠ .off
    if integrityOn ∧ env.appendOk = false then (.bufferFailure, buf, none)
    else
      let status := if integrityOn then .success else .successUnprotected
      let msg := protectIntegrity setup engine buf count
      if engine.cipheringEnabled = false ∨ engine.secCfg.cipherAlgo = .nea0 then (status, msg, none)
      else
        let ctx := securityContext setup engine.secCfg.k128Enc count
        let offset := setup.cfg.snSize.dataPduHeaderSize
        let body := msg.drop offset
        if env.cipherOk then
          (status, msg.take offset ++ setup.security.ciphering engine.secCfg.cipherAlgo ctx body, some (ctx, body))
        else (.cipheringFailure, msg, some (ctx, body))

def emitCipheringCall : Option (SecurityContext × Bytes) → PdcpEntityTx κ
  | none => s
  | some (ctx, body) => s.emit (.ciphered ctx body)

/-- apply_security in the crypto executor; a failure is reported through the UE executor -/
def applySecurity (info : PdcpTxBufferInfo) (env : SecurityEnv) : PdcpEntityTx κ :=
  let (status, buf, call) := s.applyCipheringAndIntegrityProtection setup info.buf info.count env
  let s := s.emitCipheringCall call
  if status.isSuccess then
    let s := s.emit (.secured s.retransmitId s.secEngine info.count buf)
    if env.executeOk then { s with reorderingTasks := s.reorderingTasks ++ [{ info with buf := buf }] } else s
  else if env.executeOk then s.emit .protocolFailure
  else s

def configureSecurity (secCfg : Sec128AsConfig) (integrityEnabled : IntegrityEnabled)
    (cipheringEnabled : Bool) : PdcpEntityTx κ :=
  if integrityEnabled ≠ .off ∧ (secCfg.k128Int = none ∨ secCfg.integAlgo = none) then s
  else
    { s with
      integrityEnabled := integrityEnabled
      cipheringEnabled := cipheringEnabled
      secEngine := some ⟨secCfg, integrityEnabled, cipheringEnabled⟩ }

/-! ## Order towards the lower layers -/

/-- the protected PDU of a COUNT leaves the window for the lower layers -/
def writeDataPdu (count : ℕ) (pdu : Bytes) (isRetx : Bool) : PdcpEntityTx κ :=
  { s with txWindow := s.txWindow.setPdu count [] }.emit (.newDataPdu s.retransmitId count pdu isRetx)

def setTxTransCrypto (count : ℕ) : PdcpEntityTx κ :=
  { s with st := { s.st with txTransCrypto := count } }

/-- in-order delivery from `count` on, for `k` COUNTs: discarded ones are skipped, the first missing one ends it -/
def deliverInOrder (isRetx : Bool) : ℕ → ℕ → PdcpEntityTx κ → PdcpEntityTx κ
  | _, 0, s => s
  | count, k + 1, s =>
    match s.txWindow.find? count with
    | none => deliverInOrder isRetx (count + 1) k (s.setTxTransCrypto (count + 1))
    | some elem =>
      if elem.pdu = [] then s
      else
        let s := (s.writeDataPdu count elem.pdu isRetx).setTxTransCrypto (count + 1)
        let s := if setup.cfg.testMode then s.handleTransmitNotification setup (setup.cfg.snSize.computeSn count) else s
        deliverInOrder isRetx (count + 1) k s

def applyReordering (info : PdcpTxBufferInfo) : PdcpEntityTx κ :=
  if s.stopped then s
  else if info.retxId % 2 ^ 16 ≠ s.retransmitId % 2 ^ 16 then s
  else if info.count < s.st.txNextAck then s
  else if info.count < s.st.txTrans then s
  else if !s.txWindow.hasSn info.count then s
  else
    let s := { s with txWindow := s.txWindow.setPdu info.count info.buf }
    let s := s.deliverInOrder setup info.isRetx s.st.txTransCrypto (s.st.txNext - s.st.txTransCrypto)
    let s :=
      if s.cryptoReorderingTimer.running && s.st.txTransCrypto ≥ s.st.txReordCrypto then
        { s with cryptoReorderingTimer := s.cryptoReorderingTimer.stop }
      else s
    if !s.cryptoReorderingTimer.running && s.st.txTransCrypto < s.st.txNext then
      { s with
        st := { s.st with txReordCrypto := s.st.txNext }
        cryptoReorderingTimer := run s.now pdcpTxCryptoReorderingTimeoutMs }
    else s

/-- delivery of what there is from TX_TRANS_CRYPTO on, for `k` COUNTs, missing ones being given up -/
def deliverUpTo : ℕ → PdcpEntityTx κ → PdcpEntityTx κ
  | 0, s => s
  | k + 1, s =>
    let count := s.st.txTransCrypto
    let s :=
      match s.txWindow.find? count with
      | none => s
      | some elem => if elem.pdu = [] then s else s.writeDataPdu count elem.pdu false
    deliverUpTo k (s.setTxTransCrypto (count + 1))

def cryptoReorderingTimeout : PdcpEntityTx κ :=
  if s.stopped then s
  else
    let s := s.deliverUpTo (s.st.txReordCrypto - s.st.txTransCrypto)
    let s := s.deliverInOrder setup false s.st.txTransCrypto (s.st.txNext - s.st.txTransCrypto)
    if s.st.txTransCrypto < s.st.txNext then
      { s with
        st := { s.st with txReordCrypto := s.st.txNext }
        cryptoReorderingTimer := run s.now pdcpTxCryptoReorderingTimeoutMs }
    else s

/-! ## Retransmission -/

/-- what the environment decides for each COUNT that is sent again -/
abbrev RetxEnv := ℕ → SduEnv

/-- the loop of retransmit_all_pdus over `k` COUNTs from `count` on; it ends at the first failure -/
def retransmitPdus (env : RetxEnv) : ℕ → ℕ → PdcpEntityTx κ → PdcpEntityTx κ
  | _, 0, s => s
  | count, k + 1, s =>
    match s.txWindow.find? count with
    | none => retransmitPdus env (count + 1) k s
    | some elem =>
      if !(env count).copyOk then s.emit .protocolFailure
      else
        match s.applyHeaderCompression setup elem.sduInfo.sdu with
        | (none, s) => s
        | (some buf, s) =>
          if !(env count).headerOk then s.emit .protocolFailure
          else retransmitPdus env (count + 1) k (s.sendBuffer setup true count buf (env count).executeOk)

/-- everything in the window is to be sent again, in a new epoch -/
def rewind : PdcpEntityTx κ :=
  { s with
    st := { s.st with txTrans := s.st.txNextAck, txTransCrypto := s.st.txNextAck }
    retransmitId := s.retransmitId + 1 }

def retransmitAllPdus (env : RetxEnv) : PdcpEntityTx κ :=
  if setup.cfg.discardTimer = none then s
  else if setup.cfg.rlcMode ≠ .am then s
  else
    let s := s.rewind
    s.retransmitPdus setup env s.st.txNextAck (s.st.txNext - s.st.txNextAck)

/-- data_recovery; `report` is what the receiving side compiles -/
def dataRecovery (report : Bytes) (env : RetxEnv) : PdcpEntityTx κ :=
  let s := if setup.cfg.rbType = .drb ∧ setup.cfg.rlcMode = .am then s else s.fault .dataRecoveryBearer
  let s := if setup.cfg.statusReportRequired then s.emit (.newControlPdu report) else s
  s.retransmitAllPdus setup env

def reset : PdcpEntityTx κ := { s with st := {}, txWindow := s.txWindow.clear }

def reestablish (secCfg : Sec128AsConfig) (env : RetxEnv) : PdcpEntityTx κ :=
  let s := s.initHeaderCompression setup
  let s := if setup.cfg.rbType = .srb ∨ setup.cfg.rlcMode = .um then s.reset else s
  let s := s.configureSecurity secCfg s.integrityEnabled s.cipheringEnabled
  if setup.cfg.rlcMode = .am then s.retransmitAllPdus setup env else s

/-! ## Control PDUs -/

/-- discard_pdu for `k` COUNTs from `count` on -/
def discardPdus (count : ℕ) : ℕ → PdcpEntityTx κ → PdcpEntityTx κ
  | 0, s => s
  | k + 1, s => discardPdus (count + 1) k (s.discardPdu setup count)

/-- bitmap of a status report: the bit behind `fmc` stands for COUNT fmc + 1 -/
def discardBitmap (fmc : ℕ) : List Bool → PdcpEntityTx κ → PdcpEntityTx κ
  | [], s => s
  | bit :: bits, s =>
    let fmc := (fmc + 1) % 2 ^ 32
    discardBitmap fmc bits (if bit then s.discardPdu setup fmc else s)

/-- the checks of the bitmap in handle_status_report -/
def bitmapValid (txNext fmc : ℕ) (buf : Bytes) : Bool :=
  let bitmapLength := sub32 buf.length 5
  let delta := sub32 (sub32 txNext fmc) 1
  let maxPossibleBithlength := (delta + 7) % 2 ^ 32 / 8
  decide (bitmapLength ≤ maxPossibleBithlength) &&
    (decide (bitmapLength = 0) || decide ((buf.getLastD 0).toNat <<< (delta % 8) % 2 ^ 8 = 0))

def handleStatusReport (buf : Bytes) (allocOk : Bool) : PdcpEntityTx κ :=
  if !allocOk then s
  else
    let (_, dc, dec) := unpack (bitsOf buf) 1
    if dc ≠ 0 then s
    else
      let (_, cpt, dec) := unpack dec 3
      if cpt ≠ statusReport.toNumber then s
      else
        let (_, reserved, dec) := unpack dec 4
        if reserved ≠ 0 then s
        else
          let (_, fmc, dec) := unpack dec 32
          if fmc > s.st.txNext then s.emit .protocolFailure
          else
            let s := if fmc = s.st.txNext ∧ sub32 buf.length 5 ≠ 0 then s.emit .protocolFailure else s
            if !bitmapValid s.st.txNext fmc buf then s.emit .protocolFailure
            else
              let s := s.discardPdus setup s.st.txNextAck (fmc - s.st.txNextAck)
              s.discardBitmap setup fmc dec

def consumeRohcFeedback (buf : Bytes) (allocOk : Bool) : PdcpEntityTx κ :=
  match s.rohcComp with
  | none => s
  | some comp =>
    if !allocOk then s
    else
      let (_, dc, dec) := unpack (bitsOf buf) 1
      let (_, cpt, dec) := unpack dec 3
      let (_, reserved, _) := unpack dec 4
      if dc ≠ 0 ∨ cpt ≠ interspersedRohcFeedback.toNumber ∨ reserved ≠ 0 then s
      else { s with rohcComp := some (setup.rohc.handleFeedback comp (buf.drop 1)) }

def forwardRohcFeedback (feedback : Bytes) (headerOk : Bool) : PdcpEntityTx κ :=
  if !headerOk then s.emit .protocolFailure
  else
    let hdr := UInt8.ofNat ((interspersedRohcFeedback.toNumber &&& 0x3) <<< 4)
    s.emit (.newControlPdu (hdr :: feedback))

/-! ## Pausing and stopping -/

def beginBuffering : PdcpEntityTx κ := { s with buffering := true }

/-- the buffered SDUs are handled in order, each with its own outcome -/
def endBuffering (env : ℕ → SduEnv) : PdcpEntityTx κ :=
  Machine.run (fun s (call : Bytes × ℕ) => s.handleSdu setup call.1 (env call.2))
    { s with buffering := false, sduBuffer := [] } s.sduBuffer.zipIdx

def suspend : PdcpEntityTx κ :=
  if s.suspended then s
  else if !s.buffering then s
  else
    { s with
      st := {}
      txWindow := s.txWindow.clear
      discardTimer := if setup.cfg.discardTimer.isSome then s.discardTimer.stop else s.discardTimer
      suspended := true }

def resume : PdcpEntityTx κ :=
  if !s.suspended then s
  else if !s.buffering then s
  else { s with suspended := false, resumeRequested := false }

def stop : PdcpEntityTx κ :=
  if s.stopped then s
  else
    { s with
      stopped := true
      txWindow := s.txWindow.clear
      discardTimer := if setup.cfg.discardTimer.isSome then s.discardTimer.stop else s.discardTimer
      cryptoReorderingTimer := s.cryptoReorderingTimer.stop }

/-- status transfer from another node -/
def setCount (hfn sn : UInt32) : PdcpEntityTx κ :=
  let count := setup.cfg.snSize.computeCount hfn.toNat sn.toNat
  { s with st := ⟨count, count, count, count, count⟩ }

/-! ## Runs -/

def init : PdcpEntityTx κ :=
  initHeaderCompression setup
    { st := {}
      txWindow := PdcpTxWindow.empty setup.cfg.snSize
      desiredBufferSize := 0
      retransmitId := 0
      rohcComp := none
      secEngine := none
      integrityEnabled := .off
      cipheringEnabled := false
      stopped := false
      buffering := false
      suspended := false
      resumeRequested := false
      sduBuffer := []
      maxCountNotified := false
      maxCountOverflow := false
      now := 0
      discardTimer := {}
      cryptoReorderingTimer := {}
      cryptoTasks := []
      reorderingTasks := []
      events := []
      faults := [] }

inductive Op where
  | handleSdu (buf : Bytes) (env : SduEnv)
  /-- the crypto executor runs the task at this position of its queue -/
  | applySecurity (idx : ℕ) (env : SecurityEnv)
  /-- the UE executor runs the task at this position of its queue -/
  | applyReordering (idx : ℕ)
  | transmitNotification (sn : ℕ)
  | deliveryNotification (sn : ℕ)
  | retransmitNotification (sn : ℕ)
  | deliveryRetransmittedNotification (sn : ℕ)
  | desiredBufferSizeNotification (desiredBs : ℕ)
  | statusReport (buf : Bytes) (allocOk : Bool)
  | rohcFeedbackReceived (buf : Bytes) (allocOk : Bool)
  | rohcFeedbackProduced (feedback : Bytes) (headerOk : Bool)
  | configureSecurity (secCfg : Sec128AsConfig) (integrityEnabled : IntegrityEnabled) (cipheringEnabled : Bool)
  | dataRecovery (report : Bytes) (env : RetxEnv)
  | reestablish (secCfg : Sec128AsConfig) (env : RetxEnv)
  | beginBuffering
  | endBuffering (env : ℕ → SduEnv)
  | suspend
  | resume
  | stop
  | setCount (hfn sn : UInt32)
  | tick
  /-- the callback of the discard timer runs, if it is due -/
  | discardTimerExpiry
  /-- the callback of the crypto reordering timer runs, if it is due -/
  | cryptoReorderingTimerExpiry

def step : Op → PdcpEntityTx κ
  | .handleSdu buf env => s.handleSdu setup buf env
  | .applySecurity idx env =>
    match s.cryptoTasks[idx]? with
    | none => s
    | some info => { s with cryptoTasks := s.cryptoTasks.eraseIdx idx }.applySecurity setup info env
  | .applyReordering idx =>
    match s.reorderingTasks[idx]? with
    | none => s
    | some info => { s with reorderingTasks := s.reorderingTasks.eraseIdx idx }.applyReordering setup info
  | .transmitNotification sn => s.handleTransmitNotification setup sn
  | .deliveryNotification sn => s.handleDeliveryNotification setup sn
  | .retransmitNotification sn => s.handleRetransmitNotification setup sn
  | .deliveryRetransmittedNotification sn => s.handleDeliveryRetransmittedNotification setup sn
  | .desiredBufferSizeNotification desiredBs => s.handleDesiredBufferSizeNotification desiredBs
  | .statusReport buf allocOk => s.handleStatusReport setup buf allocOk
  | .rohcFeedbackReceived buf allocOk => s.consumeRohcFeedback setup buf allocOk
  | .rohcFeedbackProduced feedback headerOk => s.forwardRohcFeedback feedback headerOk
  | .configureSecurity secCfg integrity ciphering => s.configureSecurity secCfg integrity ciphering
  | .dataRecovery report env => s.dataRecovery setup report env
  | .reestablish secCfg env => s.reestablish setup secCfg env
  | .beginBuffering => s.beginBuffering
  | .endBuffering env => s.endBuffering setup env
  | .suspend => s.suspend setup
  | .resume => s.resume
  | .stop => s.stop setup
  | .setCount hfn sn => s.setCount setup hfn sn
  | .tick =>
    let now := s.now + 1
    { s with
      now := now
      discardTimer := s.discardTimer.tick now
      cryptoReorderingTimer := s.cryptoReorderingTimer.tick now }
  | .discardTimerExpiry =>
    if s.discardTimer.due then { s with discardTimer := s.discardTimer.stop }.discardCallback setup else s
  | .cryptoReorderingTimerExpiry =>
    if s.cryptoReorderingTimer.due then
      { s with cryptoReorderingTimer := s.cryptoReorderingTimer.stop }.cryptoReorderingTimeout setup
    else s

end PdcpEntityTx

end OcuduRan.Pdcp
