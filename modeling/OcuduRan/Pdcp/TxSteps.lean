/-
What each function of the transmitter does to its state, once and for all.

Every function is described by the few ways it can end: it leaves the core of the state alone (`SameCore`), or it makes
one of the updates that matter: an SDU is stored, an SDU is sent to the crypto executor, COUNTs up to some COUNT are
removed, one COUNT is discarded, a protected PDU is placed or handed down, everything is sent again. The loops come
with invariant rules. The invariants of the following modules are proved from these descriptions.
-/
import OcuduRan.Pdcp.Tx

namespace OcuduRan.Pdcp

open ModWindow PdcpTxWindow CircularMap List
open Rlc (Bytes PdcpSnSize)

/-! ## Window -/

namespace PdcpTxWindow

def keys (w : PdcpTxWindow) : Finset ℕ := w.txWindow.keys

variable {w : PdcpTxWindow} {count k c : ℕ}

theorem hasSn_iff : w.hasSn count = true ↔ count ∈ w.keys := contains_iff_mem_keys

theorem hasSn_eq_false_iff : w.hasSn count = false ↔ count ∉ w.keys := contains_eq_false_iff

theorem mem_keys : count ∈ w.keys ↔ ∃ elem, w.find? count = some elem := CircularMap.mem_keys

theorem notMem_keys : count ∉ w.keys ↔ w.find? count = none := CircularMap.notMem_keys

theorem mem_keys_of_find? {elem : PdcpTxWindowElement} (h : w.find? count = some elem) : count ∈ w.keys :=
  mem_keys.2 ⟨elem, h⟩

@[simp] theorem keys_empty (n : PdcpSnSize) : (empty n).keys = ∅ := rfl

section

variable (w : PdcpTxWindow)

@[simp] theorem keys_clear : w.clear.keys = ∅ := rfl

@[simp] theorem cap_clear : w.clear.txWindow.cap = w.txWindow.cap := rfl

@[simp] theorem find?_clear (c : ℕ) : w.clear.find? c = none := rfl

theorem find?_removeSdu (count c : ℕ) : (w.removeSdu count).find? c = if c = count then none else w.find? c := by
  unfold removeSdu
  split
  · next h =>
    split_ifs with hc
    · rw [hc, h]
    · rfl
  · next elem h => exact find?_erase w.txWindow count c

@[simp] theorem keys_removeSdu (count : ℕ) : (w.removeSdu count).keys = w.keys.erase count := by
  ext c
  rw [Finset.mem_erase, mem_keys, mem_keys, find?_removeSdu]
  by_cases h : c = count <;> simp [h]

@[simp] theorem cap_removeSdu (count : ℕ) : (w.removeSdu count).txWindow.cap = w.txWindow.cap := by
  unfold removeSdu
  split <;> rfl

theorem find?_removeSdus (count k c : ℕ) :
    (w.removeSdus count k).find? c = if count ≤ c ∧ c < count + k then none else w.find? c := by
  induction k generalizing w count with
  | zero => rw [removeSdus, if_neg (by omega)]
  | succ k ih =>
    rw [removeSdus, ih, find?_removeSdu]
    by_cases h : c = count
    · subst h
      simp
    · rw [if_neg h]
      exact if_congr (by omega) rfl rfl

end

theorem mem_keys_removeSdus : c ∈ (w.removeSdus count k).keys ↔ c ∈ w.keys ∧ (c < count ∨ count + k ≤ c) := by
  rw [mem_keys, mem_keys, find?_removeSdus]
  by_cases h : count ≤ c ∧ c < count + k
  · simp [h]
  · simp [h, show c < count ∨ count + k ≤ c by omega]

section

variable (w : PdcpTxWindow) (count k : ℕ)

@[simp] theorem cap_removeSdus : (w.removeSdus count k).txWindow.cap = w.txWindow.cap := by
  induction k generalizing w count with
  | zero => rfl
  | succ k ih => rw [removeSdus, ih, cap_removeSdu]

theorem le_firstInWindow : count ≤ w.firstInWindow count k := by
  induction k generalizing count with
  | zero => exact le_rfl
  | succ k ih =>
    rw [firstInWindow]
    split_ifs
    · exact le_rfl
    · exact (Nat.le_succ count).trans (ih (count + 1))

theorem firstInWindow_le : w.firstInWindow count k ≤ count + k := by
  induction k generalizing count with
  | zero => exact le_rfl
  | succ k ih =>
    rw [firstInWindow]
    split_ifs
    · omega
    · have := ih (count + 1)
      omega

end

theorem notMem_of_lt_firstInWindow (h1 : count ≤ c) (h2 : c < w.firstInWindow count k) : c ∉ w.keys := by
  induction k generalizing count with
  | zero =>
    rw [firstInWindow] at h2
    omega
  | succ k ih =>
    rw [firstInWindow] at h2
    split_ifs at h2 with hsn
    · omega
    · rcases Nat.eq_or_lt_of_le h1 with rfl | hlt
      · rwa [hasSn_iff] at hsn
      · exact ih hlt h2

section

variable (w : PdcpTxWindow)

theorem firstInWindow_mem (count k : ℕ) (h : w.firstInWindow count k < count + k) :
    w.firstInWindow count k ∈ w.keys := by
  induction k generalizing count with
  | zero =>
    rw [firstInWindow] at h
    omega
  | succ k ih =>
    rw [firstInWindow] at h ⊢
    split_ifs with hsn
    · exact hasSn_iff.1 hsn
    · rw [if_neg hsn] at h
      exact ih (count + 1) (by omega)

theorem find?_addSdu (info : PdcpTxWindowSduInfo) (len c : ℕ) : (w.addSdu info len).find? c =
    if c = info.count then some ⟨info, [], len⟩
    else if c % w.txWindow.cap = info.count % w.txWindow.cap then none else w.find? c :=
  find?_overwrite w.txWindow info.count c _

@[simp] theorem cap_addSdu (info : PdcpTxWindowSduInfo) (len : ℕ) :
    (w.addSdu info len).txWindow.cap = w.txWindow.cap := rfl

theorem find?_setPdu (count c : ℕ) (pdu : Bytes) : (w.setPdu count pdu).find? c =
    if c = count then (w.find? count).map fun elem => { elem with pdu := pdu } else w.find? c :=
  find?_modify w.txWindow count c _

@[simp] theorem keys_setPdu (count : ℕ) (pdu : Bytes) : (w.setPdu count pdu).keys = w.keys :=
  keys_modify w.txWindow count _

@[simp] theorem cap_setPdu (count : ℕ) (pdu : Bytes) : (w.setPdu count pdu).txWindow.cap = w.txWindow.cap := rfl

/-- the SDU side of an element does not change with its PDU -/
theorem sduInfo_setPdu (count c : ℕ) (pdu : Bytes) :
    ((w.setPdu count pdu).find? c).map (·.sduInfo) = (w.find? c).map (·.sduInfo) := by
  rw [find?_setPdu]
  by_cases h : c = count
  · subst h
    rw [if_pos rfl, Option.map_map]
    rfl
  · rw [if_neg h]

end

end PdcpTxWindow

/-! ## The core of the state -/

/-- events that say nothing about data PDUs -/
def TxEvent.Quiet : TxEvent → Prop
  | .protocolFailure | .maxCountReached | .resumeRequired | .newControlPdu _ => True
  | _ => False

namespace PdcpEntityTx

variable {κ : Type} {setup : PdcpTxSetup κ} {s s' s'' : PdcpEntityTx κ} {ack c : ℕ} {elem : PdcpTxWindowElement}
  {P : PdcpEntityTx κ → Prop}

/-- nothing of the state that the invariants speak about changes -/
structure SameCore (s s' : PdcpEntityTx κ) : Prop where
  st : s'.st = s.st
  txWindow : s'.txWindow = s.txWindow
  retransmitId : s'.retransmitId = s.retransmitId
  secEngine : s'.secEngine = s.secEngine
  stopped : s'.stopped = s.stopped
  suspended : s'.suspended = s.suspended
  rohc : s'.rohcComp.isSome = s.rohcComp.isSome
  now : s'.now = s.now
  discardTimer : s'.discardTimer = s.discardTimer
  cryptoTasks : s'.cryptoTasks = s.cryptoTasks
  reorderingTasks : s'.reorderingTasks = s.reorderingTasks
  events : ∃ new, s'.events = s.events ++ new ∧ ∀ e ∈ new, e.Quiet
  faults : s'.faults = s.faults

theorem SameCore.refl (s : PdcpEntityTx κ) : SameCore s s :=
  ⟨rfl, rfl, rfl, rfl, rfl, rfl, rfl, rfl, rfl, rfl, rfl, ⟨[], by simp, by simp⟩, rfl⟩

theorem SameCore.trans (h : SameCore s s') (h' : SameCore s' s'') : SameCore s s'' where
  st := h'.st.trans h.st
  txWindow := h'.txWindow.trans h.txWindow
  retransmitId := h'.retransmitId.trans h.retransmitId
  secEngine := h'.secEngine.trans h.secEngine
  stopped := h'.stopped.trans h.stopped
  suspended := h'.suspended.trans h.suspended
  rohc := h'.rohc.trans h.rohc
  now := h'.now.trans h.now
  discardTimer := h'.discardTimer.trans h.discardTimer
  cryptoTasks := h'.cryptoTasks.trans h.cryptoTasks
  reorderingTasks := h'.reorderingTasks.trans h.reorderingTasks
  events := Machine.appends_trans h.events h'.events
  faults := h'.faults.trans h.faults

theorem SameCore.emit (s : PdcpEntityTx κ) {e : TxEvent} (he : e.Quiet) : SameCore s (s.emit e) :=
  ⟨rfl, rfl, rfl, rfl, rfl, rfl, rfl, rfl, rfl, rfl, rfl, ⟨[e], rfl, by simpa using he⟩, rfl⟩

variable (setup)

/-- compression only moves the compressor on; it fails when the compressor returns nothing -/
theorem applyHeaderCompression_spec (s : PdcpEntityTx κ) (buf : Bytes) :
    SameCore s (s.applyHeaderCompression setup buf).2 ∧
      (s.rohcComp = none → (s.applyHeaderCompression setup buf).1 = some buf) ∧
      ((s.applyHeaderCompression setup buf).1 = none →
        ∃ comp, s.rohcComp = some comp ∧ (setup.rohc.compress comp buf).1 = []) := by
  unfold applyHeaderCompression
  cases hc : s.rohcComp with
  | none => exact ⟨SameCore.refl s, fun _ => rfl, fun h => absurd h (by simp)⟩
  | some comp =>
    refine ⟨?_, fun h => absurd h (by simp), ?_⟩
    · have hcore : SameCore s { s with rohcComp := some (setup.rohc.compress comp buf).2 } :=
        ⟨rfl, rfl, rfl, rfl, rfl, rfl, by simp [hc], rfl, rfl, rfl, rfl, ⟨[], by simp, by simp⟩, rfl⟩
      dsimp only
      split_ifs
      · exact hcore.trans (SameCore.emit _ trivial)
      · exact hcore
    · intro h
      refine ⟨comp, rfl, ?_⟩
      by_contra hne
      dsimp only at h
      rw [if_neg hne] at h
      cases h

/-! ## Removal from the window -/

/-- the timer runs for the oldest SDU, unless the window is empty or an assertion fails -/
theorem restartDiscardTimer_cases (s : PdcpEntityTx κ) (duration : ℕ) :
    ∃ discardTimer faults, s.restartDiscardTimer duration = { s with discardTimer := discardTimer, faults := faults } ∧
      (s.st.txNextAck = s.st.txNext ∧ discardTimer = s.discardTimer ∧ faults = s.faults ∨
        s.st.txNextAck ≠ s.st.txNext ∧
          ((s.txWindow.find? s.st.txNextAck).bind (·.sduInfo.tickPointOfArrival) = none ∧
              discardTimer = s.discardTimer ∧ faults ≠ s.faults ∨
            ∃ arrival, (s.txWindow.find? s.st.txNextAck).bind (·.sduInfo.tickPointOfArrival) = some arrival ∧
              discardTimer = TickTimer.run s.now (s.computeNextDiscardTimeout duration arrival) ∧
              faults = s.faults)) := by
  unfold restartDiscardTimer
  split_ifs with hnext
  · exact ⟨_, _, rfl, .inl ⟨hnext, rfl, rfl⟩⟩
  · cases hf : s.txWindow.find? s.st.txNextAck with
    | none => exact ⟨_, _, rfl, .inr ⟨hnext, .inl ⟨rfl, rfl, by simp⟩⟩⟩
    | some elem =>
      cases ha : elem.sduInfo.tickPointOfArrival with
      | none => exact ⟨_, _, by simp only [ha]; rfl, .inr ⟨hnext, .inl ⟨ha, rfl, by simp⟩⟩⟩
      | some arrival =>
        exact ⟨_, _, by simp only [ha], .inr ⟨hnext, .inr ⟨arrival, ha, rfl, rfl⟩⟩⟩

theorem find?_of_removeUpTo (h : (s.removeUpTo ack).txWindow.find? c = some elem) : s.txWindow.find? c = some elem := by
  have h' : (s.txWindow.removeSdus s.st.txNextAck (ack - s.st.txNextAck)).find? c = some elem := h
  rw [find?_removeSdus] at h'
  split_ifs at h'
  exact h'

/-- stop_discard_timer does nothing, or removes everything up to the notified COUNT and starts the timer again -/
theorem stopDiscardTimer_cases (s : PdcpEntityTx κ) (h : ℕ) : s.stopDiscardTimer setup h = s ∨
    ∃ timer, setup.cfg.discardTimer = some timer ∧ s.st.txNextAck ≤ h ∧ h < s.st.txNext ∧
      s.st.txNextAck ∈ s.txWindow.keys ∧ (timer.toMs = none ∧ s.stopDiscardTimer setup h = s.removeUpTo (h + 1) ∨
        ∃ duration, timer.toMs = some duration ∧
          s.stopDiscardTimer setup h = (s.removeUpTo (h + 1)).restartDiscardTimer duration) := by
  unfold stopDiscardTimer
  cases ht : setup.cfg.discardTimer with
  | none => exact .inl rfl
  | some timer =>
    dsimp only
    split_ifs with hout hmiss
    · exact .inl rfl
    · exact .inl rfl
    · rw [not_or, Nat.not_lt, Nat.not_le] at hout
      have hmem : s.st.txNextAck ∈ s.txWindow.keys := by
        rw [← hasSn_iff]
        simpa using hmiss
      refine .inr ⟨timer, rfl, hout.1, hout.2, hmem, ?_⟩
      cases hd : timer.toMs with
      | none => exact .inl ⟨rfl, rfl⟩
      | some duration => exact .inr ⟨duration, rfl, rfl⟩

/-- one COUNT is discarded and TX_NEXT_ACK moves to `ack` -/
def discarded (s : PdcpEntityTx κ) (count ack : ℕ) : PdcpEntityTx κ :=
  { s with
    txWindow := s.txWindow.removeSdu count
    st := { s.st with txNextAck := ack, txTrans := max s.st.txTrans ack }
    events := s.events ++ [.discardPdu (setup.cfg.snSize.computeSn count)] }

variable {setup}

theorem find?_of_discarded {count : ℕ}
    (h : (s.discarded setup count ack).txWindow.find? c = some elem) : s.txWindow.find? c = some elem := by
  have h' : (s.txWindow.removeSdu count).find? c = some elem := h
  rw [find?_removeSdu] at h'
  split_ifs at h'
  exact h'

variable (setup) (s)

/-- discard_pdu does nothing, or removes one COUNT and moves TX_NEXT_ACK to the oldest one left -/
theorem discardPdu_cases (count : ℕ) : s.discardPdu setup count = s ∧
      (setup.cfg.discardTimer = none ∨ count < s.st.txNextAck ∨ s.st.txNext ≤ count ∨ count ∉ s.txWindow.keys) ∨
    setup.cfg.discardTimer ≠ none ∧ s.st.txNextAck ≤ count ∧ count < s.st.txNext ∧ count ∈ s.txWindow.keys ∧
      ∃ ack, s.st.txNextAck ≤ ack ∧ ack ≤ s.st.txNext ∧
        (∀ c, s.st.txNextAck ≤ c → c < ack → c ∈ s.txWindow.keys → c = count) ∧
        (ack < s.st.txNext → ack ∈ s.txWindow.keys ∧ ack ≠ count) ∧
        s.discardPdu setup count = s.discarded setup count ack := by
  unfold discardPdu
  split_ifs with hcfg hout hmiss
  · exact .inl ⟨rfl, .inl hcfg⟩
  · exact .inl ⟨rfl, .inr (by rcases hout with h | h <;> simp [h])⟩
  · have hnot : count ∉ s.txWindow.keys := by
      rw [← hasSn_eq_false_iff]
      simpa using hmiss
    exact .inl ⟨rfl, .inr (.inr (.inr hnot))⟩
  · rw [not_or, Nat.not_lt, Nat.not_le] at hout
    have hmem : count ∈ s.txWindow.keys := by
      rw [← hasSn_iff]
      simpa using hmiss
    refine .inr ⟨hcfg, hout.1, hout.2, hmem,
      (s.txWindow.removeSdu count).firstInWindow s.st.txNextAck (s.st.txNext - s.st.txNextAck),
      le_firstInWindow _ _ _, ?_, ?_, ?_, rfl⟩
    · have := firstInWindow_le (s.txWindow.removeSdu count) s.st.txNextAck
        (s.st.txNext - s.st.txNextAck)
      omega
    · intro c h1 h2 hc
      have := notMem_of_lt_firstInWindow h1 h2
      rw [keys_removeSdu, Finset.mem_erase, not_and_or, not_not] at this
      exact this.resolve_right fun h => h hc
    · intro hlt
      have hm := firstInWindow_mem (s.txWindow.removeSdu count) s.st.txNextAck
        (s.st.txNext - s.st.txNextAck) (by omega)
      rw [keys_removeSdu, Finset.mem_erase] at hm
      exact ⟨hm.2, hm.1⟩

/-! ## Notifications -/

theorem handleTransmitNotificationImpl_cases (sn : ℕ) : s.handleTransmitNotificationImpl setup sn = s ∨
    ∃ c, c = s.notificationCountEstimation setup sn ∧ s.st.txTrans ≤ c ∧ c < s.st.txTransCrypto ∧ c < s.st.txNext ∧
      (s.handleTransmitNotificationImpl setup sn = s.setTxTrans (c + 1) ∨ setup.cfg.rlcMode = .um ∧
          s.handleTransmitNotificationImpl setup sn = (s.setTxTrans (c + 1)).stopDiscardTimer setup c) := by
  unfold handleTransmitNotificationImpl
  dsimp only
  split_ifs with h1 h2 h3 h4 h5 h6
  · exact .inl rfl
  · exact .inl rfl
  · exact .inl rfl
  · exact .inl rfl
  · exact .inr ⟨_, rfl, by omega, by omega, by omega, .inl rfl⟩
  · exact .inr ⟨_, rfl, by omega, by omega, by omega, .inr ⟨h6, rfl⟩⟩
  · exact .inr ⟨_, rfl, by omega, by omega, by omega, .inl rfl⟩

theorem handleDeliveryNotificationImpl_cases (sn : ℕ) : s.handleDeliveryNotificationImpl setup sn = s ∨
    setup.cfg.rlcMode = .am ∧ sn < setup.cfg.snSize.cardinality ∧ s.handleDeliveryNotificationImpl setup sn =
        s.stopDiscardTimer setup (s.notificationCountEstimation setup sn) := by
  unfold handleDeliveryNotificationImpl
  dsimp only
  split_ifs with h1 h2 h3 h4
  · exact .inl rfl
  · exact .inl rfl
  · exact .inl rfl
  · exact .inr ⟨h4, by omega, rfl⟩
  · exact .inl rfl

/-- notifications of the lower layers -/
def Op.Notification : Op → Prop
  | .transmitNotification _ | .deliveryNotification _ | .retransmitNotification _
  | .deliveryRetransmittedNotification _ => True
  | _ => False

/-- the four notifications: nothing happens, TX_TRANS moves, or the notified COUNT is acknowledged -/
theorem notification_cases (op : Op) (hop : op.Notification) :
    s.step setup op = s ∨ (∃ c, s.st.txTrans ≤ c ∧ c < s.st.txNext ∧ s.step setup op = s.setTxTrans (c + 1)) ∨
    (∃ sn c, op = .transmitNotification sn ∧ setup.cfg.rlcMode = .um ∧ c = s.notificationCountEstimation setup sn ∧
      s.st.txTrans ≤ c ∧ c < s.st.txNext ∧ s.step setup op = (s.setTxTrans (c + 1)).stopDiscardTimer setup c) ∨
    ∃ sn, (op = .deliveryNotification sn ∨ op = .deliveryRetransmittedNotification sn) ∧
      s.step setup op = s.stopDiscardTimer setup (s.notificationCountEstimation setup sn) := by
  cases op with
  | transmitNotification sn =>
    rw [step, handleTransmitNotification]
    split_ifs
    · exact .inl rfl
    · rcases handleTransmitNotificationImpl_cases setup s sn with heq | ⟨c, hc, h1, -, h2, heq | ⟨hum, heq⟩⟩
      · exact .inl heq
      · exact .inr (.inl ⟨c, h1, h2, heq⟩)
      · exact .inr (.inr (.inl ⟨sn, c, rfl, hum, hc, h1, h2, heq⟩))
  | deliveryNotification sn =>
    rw [step, handleDeliveryNotification]
    split_ifs
    · exact .inl rfl
    · rcases handleDeliveryNotificationImpl_cases setup s sn with heq | ⟨-, -, heq⟩
      · exact .inl heq
      · exact .inr (.inr (.inr ⟨sn, .inl rfl, heq⟩))
  | retransmitNotification sn =>
    rw [step, handleRetransmitNotification]
    split_ifs with _ _ hum
    · exact .inl rfl
    · exact .inl rfl
    · exact .inl rfl
    · rcases handleTransmitNotificationImpl_cases setup s sn with heq | ⟨c, -, h1, -, h2, heq | ⟨hum', -⟩⟩
      · exact .inl heq
      · exact .inr (.inl ⟨c, h1, h2, heq⟩)
      · exact absurd hum' hum
  | deliveryRetransmittedNotification sn =>
    rw [step, handleDeliveryRetransmittedNotification]
    split_ifs
    · exact .inl rfl
    · exact .inl rfl
    · exact .inl rfl
    · rcases handleDeliveryNotificationImpl_cases setup s sn with heq | ⟨-, -, heq⟩
      · exact .inl heq
      · exact .inr (.inr (.inr ⟨sn, .inr rfl, heq⟩))
  | _ => exact hop.elim

/-! ## SDUs -/

theorem startDiscardTimer_cases : s.startDiscardTimer setup = s ∧
      (setup.cfg.discardTimer.bind PdcpDiscardTimer.toMs = none ∨ s.discardTimer.running = true) ∨
    ∃ duration, setup.cfg.discardTimer.bind PdcpDiscardTimer.toMs = some duration ∧ s.discardTimer.running = false ∧
      s.startDiscardTimer setup = { s with discardTimer := TickTimer.run s.now duration } := by
  unfold startDiscardTimer
  cases hd : setup.cfg.discardTimer.bind PdcpDiscardTimer.toMs with
  | none => exact .inl ⟨rfl, .inl rfl⟩
  | some duration =>
    split_ifs with hr
    · exact .inl ⟨rfl, .inr hr⟩
    · exact .inr ⟨duration, rfl, by simpa using hr, rfl⟩

theorem startDiscardTimer_st : (s.startDiscardTimer setup).st = s.st := by
  rcases startDiscardTimer_cases setup s with ⟨heq, -⟩ | ⟨duration, -, -, heq⟩ <;> rw [heq]

theorem find?_storeSdu (buf : Bytes) (c : ℕ) : (s.storeSdu setup buf).txWindow.find? c =
      if c = s.st.txNext then some ⟨s.newSduInfo setup buf, [], buf.length⟩
      else if c % s.txWindow.txWindow.cap = s.st.txNext % s.txWindow.txWindow.cap then none else s.txWindow.find? c :=
  find?_addSdu _ _ _ _

/-- handle_sdu drops or buffers the SDU, or transmits it -/
theorem handleSdu_cases (buf : Bytes) (env : SduEnv) : SameCore s (s.handleSdu setup buf env) ∨
    ∃ s1, SameCore s s1 ∧ s1.rohcComp = s.rohcComp ∧ s.stopped = false ∧ s.buffering = false ∧
      (setup.cfg.rbType = .srb ∨ sub32 s.st.txNext s.st.txNextAck < setup.cfg.snSize.windowSize - 1) ∧
      s.st.txNext < setup.cfg.maxCount.hard.toNat ∧ s.handleSdu setup buf env = s1.transmitSdu setup buf env := by
  unfold handleSdu
  by_cases hstop : s.stopped
  · rw [if_pos hstop]
    exact .inl (SameCore.refl s)
  rw [if_neg hstop]
  -- the request to resume leaves the core alone
  obtain ⟨s0, hs0, h0⟩ : ∃ s0, s0 = (if (s.suspended && !s.resumeRequested) = true then
      { s with resumeRequested := true }.emit .resumeRequired else s) ∧
      (SameCore s s0 ∧ s0.buffering = s.buffering ∧ s0.rohcComp = s.rohcComp) := by
    refine ⟨_, rfl, ?_⟩
    split_ifs
    · exact ⟨⟨rfl, rfl, rfl, rfl, rfl, rfl, rfl, rfl, rfl, rfl, rfl, ⟨[.resumeRequired], rfl, by simp [TxEvent.Quiet]⟩,
        rfl⟩, rfl, rfl⟩
    · exact ⟨SameCore.refl s, rfl, rfl⟩
  obtain ⟨hcore, hbuf, hcomp⟩ := h0
  rw [← hs0]
  dsimp only
  split_ifs with hb hlen hdrop hhard hover hnot
  · exact .inl (hcore.trans ⟨rfl, rfl, rfl, rfl, rfl, rfl, rfl, rfl, rfl, rfl, rfl, ⟨[], by simp, by simp⟩, rfl⟩)
  · exact .inl hcore
  · exact .inl hcore
  · exact .inl hcore
  · exact .inl (hcore.trans
      ⟨rfl, rfl, rfl, rfl, rfl, rfl, rfl, rfl, rfl, rfl, rfl, ⟨[.protocolFailure], rfl, by simp [TxEvent.Quiet]⟩, rfl⟩)
  all_goals
    have hroom : setup.cfg.rbType = .srb ∨ sub32 s.st.txNext s.st.txNextAck < setup.cfg.snSize.windowSize - 1 := by
      cases hrb : setup.cfg.rbType with
      | srb => exact .inl rfl
      | drb =>
        right
        have hno : s0.checkEarlyDrop setup buf = .noDrop := by
          by_contra hne
          exact hdrop ⟨hrb, hne⟩
        unfold checkEarlyDrop at hno
        split_ifs at hno with h1 h2 h3
        rw [← hcore.st]
        omega
    have hlt : s.st.txNext < setup.cfg.maxCount.hard.toNat := by
      rw [← hcore.st]
      omega
    have hnb : s.buffering = false := by
      rw [← hbuf]
      simpa using hb
  · have hnotified : SameCore s0 ({ s0 with maxCountNotified := true }.emit .maxCountReached) :=
      ⟨rfl, rfl, rfl, rfl, rfl, rfl, rfl, rfl, rfl, rfl, rfl, ⟨[.maxCountReached], rfl, by simp [TxEvent.Quiet]⟩, rfl⟩
    exact .inr ⟨_, hcore.trans hnotified, hcomp, by simpa using hstop, hnb, hroom, hlt, rfl⟩
  · exact .inr ⟨_, hcore, hcomp, by simpa using hstop, hnb, hroom, hlt, rfl⟩

/-- an SDU is lost before it is stored, stays in the window without being sent, or is sent -/
theorem transmitSdu_cases (buf : Bytes) (env : SduEnv) : storesCopy setup = true ∧ env.copyOk = false ∧
      SameCore (s.startDiscardTimer setup) (s.transmitSdu setup buf env) ∨
    ((∃ comp, s.rohcComp = some comp ∧ (setup.rohc.compress comp buf).1 = []) ∨ env.headerOk = false) ∧
      SameCore ((s.startDiscardTimer setup).storeSdu setup buf) (s.transmitSdu setup buf env) ∨
    ∃ s1 body, SameCore ((s.startDiscardTimer setup).storeSdu setup buf) s1 ∧ (s.rohcComp = none → body = buf) ∧
      s.transmitSdu setup buf env =
        { s1 with st := { s1.st with txNext := s1.st.txNext + 1 } }.sendBuffer setup false s1.st.txNext body
          env.executeOk := by
  unfold transmitSdu
  have hrohc : ((s.startDiscardTimer setup).storeSdu setup buf).rohcComp = s.rohcComp := by
    rcases startDiscardTimer_cases setup s with ⟨h, -⟩ | ⟨d, -, -, h⟩ <;> rw [h] <;> rfl
  dsimp only
  by_cases hcopy : (storesCopy setup && !env.copyOk) = true
  · rw [if_pos hcopy]
    simp only [Bool.and_eq_true, Bool.not_eq_eq_eq_not, Bool.not_true] at hcopy
    exact .inl ⟨hcopy.1, hcopy.2, SameCore.emit _ trivial⟩
  · rw [if_neg hcopy]
    right
    obtain ⟨hcore, hnone, hfail⟩ := applyHeaderCompression_spec setup
      ((s.startDiscardTimer setup).storeSdu setup buf) buf
    rw [hrohc] at hnone hfail
    generalize ((s.startDiscardTimer setup).storeSdu setup buf).applyHeaderCompression setup buf = out
      at hcore hnone hfail
    obtain ⟨body, s1⟩ := out
    cases body with
    | none => exact .inl ⟨.inl (hfail rfl), hcore⟩
    | some body =>
      split_ifs with hhdr
      · exact .inl ⟨.inr (by simpa using hhdr), hcore.trans (SameCore.emit _ trivial)⟩
      · exact .inr ⟨s1, body, hcore, fun h => by simpa using hnone h, rfl⟩

/-! ## Security -/

/-- apply_security calls the ciphering engine at most once, with the message of its task, and hands on at most one PDU,
which the engine of the moment has protected -/
theorem applySecurity_cases (info : PdcpTxBufferInfo) (env : SecurityEnv) : ∃ new tasks,
      s.applySecurity setup info env =
        { s with events := s.events ++ new, reorderingTasks := s.reorderingTasks ++ tasks } ∧
      (∀ e ∈ new, e.Quiet ∨
        (∃ engine, s.secEngine = some engine ∧
          e = .ciphered (securityContext setup engine.secCfg.k128Enc info.count)
            ((protectIntegrity setup engine info.buf info.count).drop setup.cfg.snSize.dataPduHeaderSize)) ∨
        ∃ pdu, e = .secured s.retransmitId s.secEngine info.count pdu) ∧
      ∀ task ∈ tasks, ∃ pdu, task = { info with buf := pdu } ∧
        .secured s.retransmitId s.secEngine info.count pdu ∈ new := by
  -- the call of the engine, if there is one
  have hcall : ∀ status buf call, s.applyCipheringAndIntegrityProtection setup info.buf info.count env =
      (status, buf, call) → ∀ c, call = some c → ∃ engine, s.secEngine = some engine ∧
        c = (securityContext setup engine.secCfg.k128Enc info.count,
          (protectIntegrity setup engine info.buf info.count).drop setup.cfg.snSize.dataPduHeaderSize) := by
    intro status buf call h c hc
    unfold applyCipheringAndIntegrityProtection at h
    cases he : s.secEngine with
    | none =>
      rw [he] at h
      dsimp only at h
      split_ifs at h <;> simp_all
    | some engine =>
      rw [he] at h
      dsimp only at h
      refine ⟨engine, rfl, ?_⟩
      subst hc
      split_ifs at h <;> simp only [Prod.mk.injEq, Option.some.injEq, reduceCtorEq, and_false] at h
      all_goals exact h.2.2.symm
  unfold applySecurity
  generalize s.applyCipheringAndIntegrityProtection setup info.buf info.count env = out at hcall
  obtain ⟨status, buf, call⟩ := out
  have hcall' := hcall status buf call rfl
  dsimp only
  -- the events of the call first
  obtain ⟨calls, hcalls, hs1⟩ : ∃ calls : List TxEvent, (∀ e ∈ calls, ∃ engine, s.secEngine = some engine ∧
      e = .ciphered (securityContext setup engine.secCfg.k128Enc info.count)
        ((protectIntegrity setup engine info.buf info.count).drop setup.cfg.snSize.dataPduHeaderSize)) ∧
      s.emitCipheringCall call = { s with events := s.events ++ calls } := by
    cases call with
    | none => exact ⟨[], by simp, by simp [emitCipheringCall]⟩
    | some c =>
      obtain ⟨engine, he, rfl⟩ := hcall' c rfl
      refine ⟨[_], ?_, rfl⟩
      intro e hmem
      exact ⟨engine, he, mem_singleton.1 hmem⟩
  rw [hs1]
  split_ifs with hok hex hex
  · refine ⟨calls ++ [.secured s.retransmitId s.secEngine info.count buf], [{ info with buf := buf }], ?_, ?_, ?_⟩
    · simp only [emit, append_assoc]
    · intro e he
      rcases mem_append.1 he with he | he
      · exact .inr (.inl (hcalls e he))
      · exact .inr (.inr ⟨buf, by simpa using he⟩)
    · intro task htask
      exact ⟨buf, by simpa using htask, by simp⟩
  · refine ⟨calls ++ [.secured s.retransmitId s.secEngine info.count buf], [], ?_, ?_, by simp⟩
    · simp only [emit, append_assoc, append_nil]
    · intro e he
      rcases mem_append.1 he with he | he
      · exact .inr (.inl (hcalls e he))
      · exact .inr (.inr ⟨buf, by simpa using he⟩)
  · refine ⟨calls ++ [.protocolFailure], [], ?_, ?_, by simp⟩
    · simp only [emit, append_assoc, append_nil]
    · intro e he
      rcases mem_append.1 he with he | he
      · exact .inr (.inl (hcalls e he))
      · obtain rfl : e = .protocolFailure := by simpa using he
        exact .inl trivial
  · exact ⟨calls, [], by simp, fun e he => .inr (.inl (hcalls e he)), by simp⟩

/-! ## Delivery -/

theorem stopDiscardTimer_crypto (h : ℕ) : (s.stopDiscardTimer setup h).st.txTransCrypto = s.st.txTransCrypto := by
  rcases stopDiscardTimer_cases setup s h with heq | ⟨timer, -, -, -, -, ⟨-, heq⟩ | ⟨duration, -, heq⟩⟩
  · rw [heq]
  · rw [heq]
    rfl
  · obtain ⟨discardTimer, faults, hr, -⟩ := restartDiscardTimer_cases (s.removeUpTo (h + 1)) duration
    rw [heq, hr]
    rfl

theorem handleTransmitNotification_crypto (sn : ℕ) :
    (s.handleTransmitNotification setup sn).st.txTransCrypto = s.st.txTransCrypto := by
  change (s.step setup (.transmitNotification sn)).st.txTransCrypto = _
  rcases notification_cases setup s (.transmitNotification sn) trivial with
    heq | ⟨c, -, -, heq⟩ | ⟨_, c, -, -, -, -, -, heq⟩ | ⟨_, _, heq⟩ <;> rw [heq]
  · rfl
  · exact stopDiscardTimer_crypto setup _ c
  · exact stopDiscardTimer_crypto setup s _

variable {s} {setup}

/-- a property that the updates of a delivery keep; test mode of a UM bearer acknowledges what is handed down -/
structure DeliveryRule (setup : PdcpTxSetup κ) (P : PdcpEntityTx κ → Prop) : Prop where
  skip : ∀ {s}, P s → P (s.setTxTransCrypto (s.st.txTransCrypto + 1))
  write : ∀ {s elem} isRetx, P s → s.txWindow.find? s.st.txTransCrypto = some elem → elem.pdu ≠ [] →
    P ((s.writeDataPdu s.st.txTransCrypto elem.pdu isRetx).setTxTransCrypto (s.st.txTransCrypto + 1))
  trans : ∀ {s c}, P s → s.st.txTrans ≤ c → c < s.st.txNext → P (s.setTxTrans (c + 1))
  ack : ∀ {s} c, P s → setup.cfg.testMode = true → setup.cfg.rlcMode = .um → P (s.stopDiscardTimer setup c)
  finish : ∀ {s} reord timer, P s →
    P { s with st := { s.st with txReordCrypto := reord }, cryptoReorderingTimer := timer }

namespace DeliveryRule

variable {P : PdcpEntityTx κ → Prop}

section

variable (h : DeliveryRule setup P)
include h

theorem transmitNotification (htest : setup.cfg.testMode = true) (hs : P s) (sn : ℕ) :
    P (s.handleTransmitNotification setup sn) := by
  change P (s.step setup (.transmitNotification sn))
  rcases notification_cases setup s (.transmitNotification sn) trivial with
    heq | ⟨c, h1, h2, heq⟩ | ⟨_, c, -, hum, -, h1, h2, heq⟩ | ⟨_, hop, -⟩
  · rwa [heq]
  · rw [heq]
    exact h.trans hs h1 h2
  · rw [heq]
    exact h.ack c (h.trans hs h1 h2) htest hum
  · rcases hop with hop | hop <;> cases hop

/-- in-order delivery starts and goes on at TX_TRANS_CRYPTO -/
theorem deliverInOrder (isRetx : Bool) (k : ℕ) (hs : P s) :
    P (s.deliverInOrder setup isRetx s.st.txTransCrypto k) := by
  induction k generalizing s with
  | zero => exact hs
  | succ k ih =>
    rw [PdcpEntityTx.deliverInOrder]
    cases hf : s.txWindow.find? s.st.txTransCrypto with
    | none => exact ih (h.skip hs)
    | some elem =>
      dsimp only
      by_cases hpdu : elem.pdu = []
      · rw [if_pos hpdu]
        exact hs
      · rw [if_neg hpdu]
        have hw := h.write isRetx hs hf hpdu
        by_cases htest : setup.cfg.testMode = true
        · rw [if_pos htest]
          have hnext := ih (h.transmitNotification htest hw (setup.cfg.snSize.computeSn s.st.txTransCrypto))
          rwa [handleTransmitNotification_crypto] at hnext
        · rw [if_neg htest]
          exact ih hw

/-- the wait for missing PDUs is given up -/
theorem deliverUpTo (k : ℕ) (hs : P s) : P (s.deliverUpTo k) := by
  induction k generalizing s with
  | zero => exact hs
  | succ k ih =>
    rw [PdcpEntityTx.deliverUpTo]
    cases hf : s.txWindow.find? s.st.txTransCrypto with
    | none => exact ih (h.skip hs)
    | some elem =>
      dsimp only
      by_cases hpdu : elem.pdu = []
      · rw [if_pos hpdu]
        exact ih (h.skip hs)
      · rw [if_neg hpdu]
        exact ih (h.write false hs hf hpdu)

/-- a result is dropped, or it is of this epoch and placed in the window -/
theorem applyReordering {info : PdcpTxBufferInfo} (hs : P s) (hplace : info.retxId % 2 ^ 16 = s.retransmitId % 2 ^ 16 →
      P { s with txWindow := s.txWindow.setPdu info.count info.buf }) : P (s.applyReordering setup info) := by
  unfold PdcpEntityTx.applyReordering
  by_cases hepoch : info.retxId % 2 ^ 16 ≠ s.retransmitId % 2 ^ 16
  · rw [if_pos hepoch]
    split_ifs <;> exact hs
  · have hd := h.deliverInOrder info.isRetx (s.st.txNext - s.st.txTransCrypto) (hplace (not_not.1 hepoch))
    rw [if_neg hepoch]
    dsimp only at hd ⊢
    generalize PdcpEntityTx.deliverInOrder setup info.isRetx s.st.txTransCrypto (s.st.txNext - s.st.txTransCrypto)
      { s with txWindow := s.txWindow.setPdu info.count info.buf } = s1 at hd ⊢
    split_ifs
    all_goals first | exact hs | exact hd | exact h.finish (s := s1) _ _ hd

theorem cryptoReorderingTimeout (hs : P s) : P (s.cryptoReorderingTimeout setup) := by
  have hd := h.deliverUpTo (s.st.txReordCrypto - s.st.txTransCrypto) hs
  unfold PdcpEntityTx.cryptoReorderingTimeout
  dsimp only
  generalize s.deliverUpTo (s.st.txReordCrypto - s.st.txTransCrypto) = s1 at hd
  have hd' := h.deliverInOrder false (s1.st.txNext - s1.st.txTransCrypto) hd
  split_ifs
  · exact hs
  · exact h.finish _ _ hd'
  · exact hd'

end

end DeliveryRule

/-! ## Retransmission -/

/-- what sending the window again preserves, for an invariant that knows which COUNT comes next -/
theorem retransmitPdus_indexed {P : ℕ → PdcpEntityTx κ → Prop} (hcore : ∀ n s s', SameCore s s' → P n s → P n s')
    (hskip : ∀ n s, P n s → P (n + 1) s)
    (hsend : ∀ n s elem body ok, P n s → n < s.st.txNext → s.txWindow.find? n = some elem →
      (s.rohcComp = none → body = elem.sduInfo.sdu) → P (n + 1) (s.sendBuffer setup true n body ok))
    (env : RetxEnv) (count k : ℕ) (s : PdcpEntityTx κ) (h : P count s) (hk : count + k ≤ s.st.txNext) :
    ∃ n, P n (s.retransmitPdus setup env count k) := by
  induction k generalizing s count with
  | zero => exact ⟨count, h⟩
  | succ k ih =>
    rw [retransmitPdus]
    cases hf : s.txWindow.find? count with
    | none => exact ih (count + 1) s (hskip count s h) (by omega)
    | some elem =>
      dsimp only
      by_cases hcopy : (!(env count).copyOk) = true
      · rw [if_pos hcopy]
        exact ⟨count, hcore count s _ (SameCore.emit s trivial) h⟩
      · rw [if_neg hcopy]
        obtain ⟨hc, hnone, -⟩ := applyHeaderCompression_spec setup s elem.sduInfo.sdu
        generalize s.applyHeaderCompression setup elem.sduInfo.sdu = out at hc hnone
        obtain ⟨body, s1⟩ := out
        have hP := hcore count s s1 hc h
        cases body with
        | none => exact ⟨count, hP⟩
        | some body =>
          dsimp only
          by_cases hhdr : (!(env count).headerOk) = true
          · rw [if_pos hhdr]
            exact ⟨count, hcore count s1 _ (SameCore.emit s1 trivial) hP⟩
          · rw [if_neg hhdr]
            have hst : s1.st = s.st := hc.st
            have hw : s1.txWindow = s.txWindow := hc.txWindow
            have hbody : s1.rohcComp = none → body = elem.sduInfo.sdu := by
              intro hno
              have hno' : s.rohcComp = none := by
                have := hc.rohc
                dsimp only at this
                rw [hno] at this
                cases hs : s.rohcComp with
                | none => rfl
                | some comp => rw [hs] at this; exact absurd this (by simp)
              simpa using hnone hno'
            have hP' := hsend count s1 elem body (env count).executeOk hP (by rw [hst]; omega) (by rw [hw, hf]) hbody
            refine ih (count + 1) _ hP' ?_
            have : (s1.sendBuffer setup true count body (env count).executeOk).st = s1.st := by
              unfold sendBuffer executeApplySecurity
              split_ifs <;> rfl
            rw [this, hst]
            omega

/-- what sending everything again preserves -/
theorem retransmitAllPdus_rule (hcore : ∀ s s', SameCore s s' → P s → P s')
    (hsend : ∀ s count elem body ok, P s → storesCopy setup = true → count < s.st.txNext →
      s.txWindow.find? count = some elem → (s.rohcComp = none → body = elem.sduInfo.sdu) →
      P (s.sendBuffer setup true count body ok))
    (env : RetxEnv) (s : PdcpEntityTx κ) (hle : s.st.txNextAck ≤ s.st.txNext) (h : P s)
    (hrewind : setup.cfg.discardTimer ≠ none → P s.rewind) : P (s.retransmitAllPdus setup env) := by
  unfold retransmitAllPdus
  split_ifs with h1 h2
  · exact h
  · exact h
  · have hcopy : storesCopy setup = true := by
      rw [storesCopy, Option.isSome_iff_ne_none.2 h1, not_not.1 h2]
      rfl
    obtain ⟨-, hP⟩ := retransmitPdus_indexed (P := fun _ => P) (fun _ => hcore) (fun _ _ h => h)
      (fun n s elem body ok h => hsend s n elem body ok h hcopy) env s.st.txNextAck (s.st.txNext - s.st.txNextAck)
      s.rewind
      (hrewind h1) (show s.st.txNextAck + (s.st.txNext - s.st.txNextAck) ≤ s.st.txNext by omega)
    exact hP

theorem discardPdu_frame (s : PdcpEntityTx κ) (count : ℕ) : (s.discardPdu setup count).st.txNext = s.st.txNext := by
  rcases discardPdu_cases setup s count with ⟨heq, -⟩ | ⟨-, -, -, -, ack, -, -, -, -, heq⟩ <;> rw [heq]
  rfl

/-- the COUNTs a bitmap marks as received; its first bit stands for FMC + 1 -/
def marked : ℕ → List Bool → List ℕ
  | _, [] => []
  | fmc, bit :: bits => (if bit then [(fmc + 1) % 2 ^ 32] else []) ++ marked ((fmc + 1) % 2 ^ 32) bits

def reportFmc (buf : Bytes) : ℕ := (BitStream.unpack ((BitStream.bitsOf buf).drop 8) 32).2.1

/-- the COUNTs of the window that a status report says were received: those below FMC and those in the bitmap -/
def reported (s : PdcpEntityTx κ) (buf : Bytes) : List ℕ :=
  range' s.st.txNextAck (reportFmc buf - s.st.txNextAck) ++ marked (reportFmc buf) ((BitStream.bitsOf buf).drop 40)

theorem discards_eq (count k fmc : ℕ) (bits : List Bool) (s : PdcpEntityTx κ) :
    (s.discardPdus setup count k).discardBitmap setup fmc bits =
      Machine.run (discardPdu setup) s (range' count k ++ marked fmc bits) := by
  induction k generalizing s count with
  | zero =>
    show s.discardBitmap setup fmc bits = Machine.run (discardPdu setup) s (marked fmc bits)
    induction bits generalizing s fmc with
    | nil => rfl
    | cons bit bits ih =>
      rw [discardBitmap, ih, marked]
      cases bit <;> rfl
  | succ k ih => exact ih _ _

/-- a status report is refused, or the COUNTs it reports are discarded -/
theorem handleStatusReport_cases (setup : PdcpTxSetup κ) (s : PdcpEntityTx κ) (buf : Bytes) (allocOk : Bool) :
    SameCore s (s.handleStatusReport setup buf allocOk) ∨
      ∃ t, SameCore s t ∧ s.handleStatusReport setup buf allocOk = Machine.run (discardPdu setup) t
      (s.reported buf) := by
  have hrest : ∀ bits n, (BitStream.unpack bits n).2.2 = bits.drop n := fun _ _ => rfl
  have hemit := SameCore.emit s (e := .protocolFailure) trivial
  unfold handleStatusReport
  simp only [discards_eq, hrest, drop_drop]
  split_ifs
  all_goals first
    | exact .inl (SameCore.refl s)
    | exact .inl hemit
    | exact .inl (hemit.trans (SameCore.emit _ trivial))
    | exact .inr ⟨_, SameCore.refl s, rfl⟩
    | exact .inr ⟨_, hemit, rfl⟩

/-- what a status report preserves -/
theorem handleStatusReport_rule (hcore : ∀ s s', SameCore s s' → P s → P s')
    (hdiscard : ∀ s count, P s → P (s.discardPdu setup count)) (s : PdcpEntityTx κ) (buf : Bytes) (allocOk : Bool)
    (h : P s) : P (s.handleStatusReport setup buf allocOk) := by
  rcases handleStatusReport_cases setup s buf allocOk with hc | ⟨t, hc, heq⟩
  · exact hcore _ _ hc h
  · rw [heq]
    exact Machine.run_inv_all hdiscard _ _ (hcore _ _ hc h)

theorem sendBuffer_eq (s : PdcpEntityTx κ) (isRetx : Bool) (count : ℕ) (buf : Bytes) (ok : Bool) :
    s.sendBuffer setup isRetx count buf ok = { s with cryptoTasks := s.cryptoTasks ++ if ok then
        [⟨isRetx, s.retransmitId, count, prependDataPduHeader setup.cfg.rbType setup.cfg.snSize
          (setup.cfg.snSize.computeSn count) buf⟩] else [] } := by
  unfold sendBuffer executeApplySecurity
  cases ok
  · simp
  · rfl

theorem configureSecurity_cases (s : PdcpEntityTx κ) (secCfg : Sec128AsConfig) (integrity : IntegrityEnabled)
    (ciphering : Bool) : s.configureSecurity secCfg integrity ciphering = s ∧
      integrity ≠ .off ∧ (secCfg.k128Int = none ∨ secCfg.integAlgo = none) ∨
    s.configureSecurity secCfg integrity ciphering = { s with
        integrityEnabled := integrity
        cipheringEnabled := ciphering
        secEngine := some ⟨secCfg, integrity, ciphering⟩ } := by
  unfold configureSecurity
  split_ifs with hc
  · exact .inl ⟨rfl, hc⟩
  · exact .inr rfl

/-- what re-establishment preserves -/
theorem reestablish_rule (secCfg : Sec128AsConfig) (env : RetxEnv)
    (hinit : ∀ s, P s → P (s.initHeaderCompression setup))
    (hreset : ∀ s, P s → setup.cfg.rbType = .srb ∨ setup.cfg.rlcMode = .um → P s.reset)
    (hconf : ∀ s, P s → P (s.configureSecurity secCfg s.integrityEnabled s.cipheringEnabled))
    (hretx : ∀ s, P s → P (s.retransmitAllPdus setup env)) (s : PdcpEntityTx κ) (h : P s) :
    P (s.reestablish setup secCfg env) := by
  unfold reestablish
  have h1 := hinit s h
  generalize s.initHeaderCompression setup = s1 at h1
  have h2 : P (if setup.cfg.rbType = .srb ∨ setup.cfg.rlcMode = .um then s1.reset else s1) := by
    split_ifs with hr
    · exact hreset s1 h1 hr
    · exact h1
  dsimp only
  generalize (if setup.cfg.rbType = .srb ∨ setup.cfg.rlcMode = .um then s1.reset else s1) = s2 at h2
  split_ifs
  · exact hretx _ (hconf s2 h2)
  · exact hconf s2 h2

/-- data recovery sends everything again, after a failed assertion and a control PDU perhaps -/
theorem dataRecovery_cases (setup : PdcpTxSetup κ) (s : PdcpEntityTx κ) (report : Bytes) (env : RetxEnv) :
    ∃ t, (SameCore s t ∨ SameCore (s.fault .dataRecoveryBearer) t) ∧
      s.dataRecovery setup report env = t.retransmitAllPdus setup env := by
  unfold dataRecovery
  dsimp only
  split_ifs
  · exact ⟨s.emit (.newControlPdu report), .inl (SameCore.emit s trivial), rfl⟩
  · exact ⟨(s.fault _).emit (.newControlPdu report), .inr (SameCore.emit _ trivial), rfl⟩
  · exact ⟨_, .inl (SameCore.refl s), rfl⟩
  · exact ⟨_, .inr (SameCore.refl _), rfl⟩

section

variable (s : PdcpEntityTx κ)

theorem consumeRohcFeedback_core (buf : Bytes) (allocOk : Bool) :
    SameCore s (s.consumeRohcFeedback setup buf allocOk) := by
  unfold consumeRohcFeedback
  cases hc : s.rohcComp with
  | none => exact SameCore.refl s
  | some comp =>
    dsimp only
    split_ifs
    · exact SameCore.refl s
    · exact SameCore.refl s
    · exact ⟨rfl, rfl, rfl, rfl, rfl, rfl, by simp [hc], rfl, rfl, rfl, rfl, ⟨[], by simp, by simp⟩, rfl⟩

theorem forwardRohcFeedback_core (feedback : Bytes) (headerOk : Bool) :
    SameCore s (s.forwardRohcFeedback feedback headerOk) := by
  unfold forwardRohcFeedback
  split_ifs
  · exact SameCore.emit s trivial
  · exact SameCore.emit s trivial

theorem handleDesiredBufferSizeNotification_core (desiredBs : ℕ) :
    SameCore s (s.handleDesiredBufferSizeNotification desiredBs) := by
  unfold handleDesiredBufferSizeNotification
  split_ifs
  · exact SameCore.refl s
  · exact ⟨rfl, rfl, rfl, rfl, rfl, rfl, rfl, rfl, rfl, rfl, rfl, ⟨[], by simp, by simp⟩, rfl⟩

theorem beginBuffering_core : SameCore s s.beginBuffering :=
  ⟨rfl, rfl, rfl, rfl, rfl, rfl, rfl, rfl, rfl, rfl, rfl, ⟨[], by simp [beginBuffering], by simp⟩, rfl⟩

theorem endBuffering_core : SameCore s { s with buffering := false, sduBuffer := [] } :=
  ⟨rfl, rfl, rfl, rfl, rfl, rfl, rfl, rfl, rfl, rfl, rfl, ⟨[], by simp, by simp⟩, rfl⟩

theorem resume_cases :
    s.resume = s ∨ s.suspended = true ∧ s.resume = { s with suspended := false, resumeRequested := false } := by
  unfold resume
  split_ifs with h1 h2
  · exact .inl rfl
  · exact .inl rfl
  · exact .inr ⟨by simpa using h1, rfl⟩

end

/-- the state with an empty window and its timer stopped or not, as suspend and stop leave it -/
theorem suspend_cases (setup : PdcpTxSetup κ) (s : PdcpEntityTx κ) :
    s.suspend setup = s ∨ ∃ timer, (timer = s.discardTimer.stop ∨ setup.cfg.discardTimer = none) ∧ s.suspend setup =
        { s with st := {}, txWindow := s.txWindow.clear, discardTimer := timer, suspended := true } := by
  unfold suspend
  split_ifs with h1 h2 h3
  · exact .inl rfl
  · exact .inl rfl
  · exact .inr ⟨_, .inl rfl, rfl⟩
  · exact .inr ⟨_, .inr (by simpa using h3), rfl⟩

theorem stop_cases (setup : PdcpTxSetup κ) (s : PdcpEntityTx κ) :
    s.stop setup = s ∨ ∃ timer cryptoTimer, (timer = s.discardTimer.stop ∨ setup.cfg.discardTimer = none) ∧
      s.stop setup = { s with
          stopped := true
          txWindow := s.txWindow.clear
          discardTimer := timer
          cryptoReorderingTimer := cryptoTimer } := by
  unfold stop
  split_ifs with h1 h2
  · exact .inl rfl
  · exact .inr ⟨_, _, .inl rfl, rfl⟩
  · exact .inr ⟨_, _, .inr (by simpa using h2), rfl⟩

/-! ## Steps that neither send nor deliver -/

/-- notifications, control PDUs and the discard timer -/
def Op.Passive : Op → Prop
  | .transmitNotification _ | .deliveryNotification _ | .retransmitNotification _
  | .deliveryRetransmittedNotification _ | .desiredBufferSizeNotification _ | .statusReport _ _
  | .rohcFeedbackReceived _ _ | .rohcFeedbackProduced _ _ | .beginBuffering | .tick | .discardTimerExpiry => True
  | _ => False

/-- a property that the updates of passive steps keep -/
structure PassiveRule (setup : PdcpTxSetup κ) (P : PdcpEntityTx κ → Prop) : Prop where
  core : ∀ {s s'}, SameCore s s' → P s → P s'
  clock : ∀ {s} now timer cryptoTimer faults, P s →
    P { s with now := now, discardTimer := timer, cryptoReorderingTimer := cryptoTimer, faults := faults }
  trans : ∀ {s c}, P s → s.st.txTrans ≤ c → c < s.st.txNext → P (s.setTxTrans (c + 1))
  ack : ∀ {s c}, P s → s.st.txNextAck ≤ c → c < s.st.txNext → P (s.removeUpTo (c + 1))
  discard : ∀ {s c ack}, P s → ack ≤ s.st.txNext →
    (∀ d, s.st.txNextAck ≤ d → d < ack → d ∈ s.txWindow.keys → d = c) → P (s.discarded setup c ack)

namespace PassiveRule

variable {P : PdcpEntityTx κ → Prop}

section

variable (h : PassiveRule setup P)
include h

theorem stopDiscardTimer (c : ℕ) (hs : P s) : P (s.stopDiscardTimer setup c) := by
  rcases stopDiscardTimer_cases setup s c with heq | ⟨timer, -, h1, h2, -, ⟨-, heq⟩ | ⟨duration, -, heq⟩⟩
  · rwa [heq]
  · rw [heq]
    exact h.ack hs h1 h2
  · obtain ⟨discardTimer, faults, hr, -⟩ := restartDiscardTimer_cases (s.removeUpTo (c + 1)) duration
    rw [heq, hr]
    exact h.clock _ _ _ _ (h.ack hs h1 h2)

theorem discardPdu (c : ℕ) (hs : P s) : P (s.discardPdu setup c) := by
  rcases discardPdu_cases setup s c with ⟨heq, -⟩ | ⟨-, -, -, -, ack, -, hle, hskip, -, heq⟩
  · rwa [heq]
  · rw [heq]
    exact h.discard hs hle hskip

theorem discardMatching (duration oldest k : ℕ) (hs : P s) : P (s.discardMatching setup duration oldest k) := by
  induction k generalizing s with
  | zero => exact hs
  | succ k ih =>
    have hd := h.discardPdu s.st.txNextAck hs
    rw [PdcpEntityTx.discardMatching]
    generalize s.discardPdu setup s.st.txNextAck = s1 at hd
    split
    · exact hd
    · split
      · exact h.clock _ _ _ _ hd
      · split_ifs
        · exact h.clock _ _ _ _ hd
        · exact ih hd
        · exact hd

theorem startDiscardTimer (hs : P s) : P (s.startDiscardTimer setup) := by
  rcases startDiscardTimer_cases setup s with ⟨heq, -⟩ | ⟨duration, -, -, heq⟩
  · rwa [heq]
  · rw [heq]
    exact h.clock _ _ _ _ hs

theorem step (op : Op) (hop : op.Passive) (hs : P s) : P (s.step setup op) := by
  have hnotif : op.Notification → P (s.step setup op) := by
    intro hop
    rcases notification_cases setup s op hop with heq | ⟨c, h1, h2, heq⟩ | ⟨_, c, -, -, -, h1, h2, heq⟩ | ⟨sn, -, heq⟩
    · rwa [heq]
    · rw [heq]
      exact h.trans hs h1 h2
    · rw [heq]
      exact h.stopDiscardTimer c (h.trans hs h1 h2)
    · rw [heq]
      exact h.stopDiscardTimer _ hs
  cases op with
  | transmitNotification sn => exact hnotif trivial
  | deliveryNotification sn => exact hnotif trivial
  | retransmitNotification sn => exact hnotif trivial
  | deliveryRetransmittedNotification sn => exact hnotif trivial
  | desiredBufferSizeNotification n => exact h.core (handleDesiredBufferSizeNotification_core s n) hs
  | statusReport buf ok =>
    exact handleStatusReport_rule (fun _ _ => h.core) (fun _ c => h.discardPdu c) s buf ok hs
  | rohcFeedbackReceived buf ok => exact h.core (consumeRohcFeedback_core s buf ok) hs
  | rohcFeedbackProduced buf ok => exact h.core (forwardRohcFeedback_core s buf ok) hs
  | beginBuffering => exact h.core (beginBuffering_core s) hs
  | tick => exact h.clock _ _ _ s.faults hs
  | discardTimerExpiry =>
    have h0 : P { s with discardTimer := s.discardTimer.stop } := h.clock _ _ _ _ hs
    rw [PdcpEntityTx.step, discardCallback]
    split_ifs
    · exact h0
    · split
      · split
        · exact h.clock _ _ _ _ h0
        · exact h.discardMatching _ _ _ h0
      · exact h0
    · exact hs
  | _ => exact hop.elim

end

end PassiveRule

/-- what a new SDU preserves -/
theorem handleSdu_rule (hcore : ∀ {s s'}, SameCore s s' → P s → P s')
    (hstart : ∀ {s}, P s → P (s.startDiscardTimer setup)) (hstore : ∀ {s} buf, P s → P (s.storeSdu setup buf))
    (hsend : ∀ {s} body ok, P s → s.st.txNext < setup.cfg.maxCount.hard.toNat →
      P ({ s with st := { s.st with txNext := s.st.txNext + 1 } }.sendBuffer setup false s.st.txNext body ok))
    (s : PdcpEntityTx κ) (buf : Bytes) (env : SduEnv) (h : P s) : P (s.handleSdu setup buf env) := by
  rcases handleSdu_cases setup s buf env with hc | ⟨s1, hc, -, -, -, -, hhard, heq⟩
  · exact hcore hc h
  · have h1 := hstart (hcore hc h)
    rw [heq]
    rcases transmitSdu_cases setup s1 buf env with ⟨-, -, hs⟩ | ⟨-, hs⟩ | ⟨s2, body, hs, -, heq2⟩
    · exact hcore hs h1
    · exact hcore hs (hstore buf h1)
    · have hst : s2.st = s.st := (hs.st.trans (startDiscardTimer_st setup s1)).trans hc.st
      rw [heq2]
      exact hsend body env.executeOk (hcore hs (hstore buf h1)) (by rw [hst]; exact hhard)

end PdcpEntityTx

end OcuduRan.Pdcp
