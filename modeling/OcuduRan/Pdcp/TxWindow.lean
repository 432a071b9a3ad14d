/-
The transmit window over whole runs.

  bounds     TX_NEXT_ACK ≤ TX_TRANS ≤ TX_NEXT, and every COUNT of the window in [TX_NEXT_ACK, TX_NEXT], in every run in
             which status transfers find an empty window.
  window     while every step is a good one, tx_window only holds COUNTs in [TX_NEXT_ACK, TX_NEXT), TX_NEXT_ACK itself
             is in it unless the window is empty, no assertion on the window fails, and each COUNT of the window can
             still be acknowledged.

A good step is one that meets three conditions the code does not ensure. A notified COUNT is followed by a COUNT that
is still in the window: stop_discard_timer sets TX_NEXT_ACK behind the notified COUNT without looking for the holes a
status report has left (`delivery_onto_hole`). An SDU that was stored is sent: when compression or the header fails,
handle_sdu returns with an element at TX_NEXT. An SRB window is not full: only DRBs check it.
-/
import OcuduRan.Pdcp.TxSteps

namespace OcuduRan.Pdcp.PdcpEntityTx

open ModWindow PdcpTxWindow PdcpDiscardTimer Option Machine Nat
open Rlc (Bytes PdcpSnSize)

variable {κ : Type} {setup : PdcpTxSetup κ} {s s' : PdcpEntityTx κ}

/-! ## Bounds -/

/-- a status transfer finds an empty window -/
def TransferOk (s : PdcpEntityTx κ) : Op → Prop
  | .setCount _ _ => s.txWindow.keys = ∅
  | _ => True

/-- what holds whatever else happens: TX_NEXT_ACK ≤ TX_TRANS ≤ TX_NEXT, and nothing in the window is outside
[TX_NEXT_ACK, TX_NEXT]; TX_NEXT itself is there after a failed handle_sdu -/
structure WindowBounded (s : PdcpEntityTx κ) : Prop where
  ack : s.st.txNextAck ≤ s.st.txTrans
  trans : s.st.txTrans ≤ s.st.txNext
  bound : s.st.txNext < 2 ^ 32
  keys : ∀ c ∈ s.txWindow.keys, s.st.txNextAck ≤ c ∧ c ≤ s.st.txNext

namespace WindowBounded

theorem le (h : WindowBounded s) : s.st.txNextAck ≤ s.st.txNext := h.ack.trans h.trans

/-- only other state variables and other parts of the window elements change -/
theorem congr (h : WindowBounded s)
    (hst : s'.st.txNextAck = s.st.txNextAck ∧ s'.st.txTrans = s.st.txTrans ∧ s'.st.txNext = s.st.txNext)
    (hkeys : s'.txWindow.keys = s.txWindow.keys) : WindowBounded s' where
  ack := by rw [hst.1, hst.2.1]; exact h.ack
  trans := by rw [hst.2.1, hst.2.2]; exact h.trans
  bound := by rw [hst.2.2]; exact h.bound
  keys := by rw [hst.1, hst.2.2, hkeys]; exact h.keys

theorem cleared (hst : s.st = {}) (hw : s.txWindow.keys = ∅) : WindowBounded s where
  ack := by rw [hst]
  trans := by rw [hst]
  bound := by rw [hst]; decide
  keys := fun c hc => absurd hc (by rw [hw]; simp)

theorem passive (setup : PdcpTxSetup κ) : PassiveRule setup (@WindowBounded κ) where
  core hc h := h.congr ⟨by rw [hc.st], by rw [hc.st], by rw [hc.st]⟩ (by rw [hc.txWindow])
  clock _ _ _ _ h := h.congr ⟨rfl, rfl, rfl⟩ rfl
  trans h h1 h2 := ⟨(h.ack.trans h1).trans (le_succ _), h2, h.bound, h.keys⟩
  ack {s c} h h1 h2 := by
    refine ⟨le_max_right _ _, max_le h.trans h2, h.bound, fun d hd => ?_⟩
    obtain ⟨hmem, hout⟩ := mem_keys_removeSdus.1 hd
    have hr := h.keys d hmem
    exact ⟨show c + 1 ≤ d by omega, hr.2⟩
  discard {s c ack} h hle hskip := by
    refine ⟨le_max_right _ _, max_le h.trans hle, h.bound, fun d hd => ?_⟩
    rw [discarded, keys_removeSdu, Finset.mem_erase] at hd
    have hr := h.keys d hd.2
    refine ⟨?_, hr.2⟩
    by_contra hlt
    exact hd.1 (hskip d hr.1 (not_le.1 hlt) hd.2)

theorem delivery (setup : PdcpTxSetup κ) : DeliveryRule setup (@WindowBounded κ) where
  skip h := h.congr ⟨rfl, rfl, rfl⟩ rfl
  write _ h _ _ := h.congr ⟨rfl, rfl, rfl⟩ (keys_setPdu _ _ _)
  trans := (passive setup).trans
  ack c h _ _ := (passive setup).stopDiscardTimer c h
  finish _ _ h := h.congr ⟨rfl, rfl, rfl⟩ rfl

section

variable (h : WindowBounded s)
include h

theorem storeSdu (buf : Bytes) : WindowBounded (s.storeSdu setup buf) where
  ack := h.ack
  trans := h.trans
  bound := h.bound
  keys := by
    intro c hc
    show s.st.txNextAck ≤ c ∧ c ≤ s.st.txNext
    obtain ⟨elem, he⟩ := mem_keys.1 hc
    rw [find?_storeSdu] at he
    split_ifs at he with heq
    · exact ⟨heq ▸ h.le, heq.le⟩
    · exact h.keys c (mem_keys.2 ⟨elem, he⟩)

theorem handleSdu (buf : Bytes) (env : SduEnv) : WindowBounded (s.handleSdu setup buf env) := by
  refine handleSdu_rule (passive setup).core (passive setup).startDiscardTimer (fun buf h => h.storeSdu buf) ?_ s buf
    env h
  intro t body ok ht hhard
  have hmax : setup.cfg.maxCount.hard.toNat < 2 ^ 32 := setup.cfg.maxCount.hard.toNat_lt
  rw [sendBuffer_eq]
  refine ⟨ht.ack, ht.trans.trans (le_succ _), show t.st.txNext + 1 < 2 ^ 32 by omega, fun c hc => ?_⟩
  exact ⟨(ht.keys c hc).1, (ht.keys c hc).2.trans (le_succ _)⟩

theorem retransmitAllPdus (env : RetxEnv) : WindowBounded (s.retransmitAllPdus setup env) := by
  refine retransmitAllPdus_rule (fun _ _ => (passive setup).core) ?_ env s h.le h fun _ =>
    ⟨le_rfl, h.le, h.bound, h.keys⟩
  intro t count elem body ok ht _ _ _ _
  rw [sendBuffer_eq]
  exact ht.congr ⟨rfl, rfl, rfl⟩ rfl

theorem configureSecurity (secCfg : Sec128AsConfig) (integrity : IntegrityEnabled)
    (ciphering : Bool) : WindowBounded (s.configureSecurity secCfg integrity ciphering) := by
  unfold PdcpEntityTx.configureSecurity
  split_ifs
  · exact h
  · exact h.congr ⟨rfl, rfl, rfl⟩ rfl

theorem initHeaderCompression : WindowBounded (s.initHeaderCompression setup) := by
  unfold PdcpEntityTx.initHeaderCompression
  split_ifs
  · exact h.congr ⟨rfl, rfl, rfl⟩ rfl
  · exact h

theorem step (op : Op) (hok : s.TransferOk op) : WindowBounded (s.step setup op) := by
  cases op with
  | setCount hfn sn =>
    have hkeys : s.txWindow.keys = ∅ := hok
    exact ⟨le_rfl, le_rfl, PdcpSnSize.computeCount_lt _ _ sn.toNat_lt, fun c hc => absurd (hkeys ▸ hc) (by simp)⟩
  | handleSdu buf env => exact h.handleSdu buf env
  | applySecurity idx env =>
    rw [PdcpEntityTx.step]
    cases s.cryptoTasks[idx]? with
    | none => exact h
    | some info =>
      obtain ⟨new, tasks, heq, -⟩ := applySecurity_cases setup
        { s with cryptoTasks := s.cryptoTasks.eraseIdx idx } info env
      dsimp only
      rw [heq]
      exact h.congr ⟨rfl, rfl, rfl⟩ rfl
  | applyReordering idx =>
    rw [PdcpEntityTx.step]
    cases s.reorderingTasks[idx]? with
    | none => exact h
    | some info =>
      exact (delivery setup).applyReordering (h.congr ⟨rfl, rfl, rfl⟩ rfl) fun _ =>
        h.congr ⟨rfl, rfl, rfl⟩ (keys_setPdu _ _ _)
  | configureSecurity secCfg integrity ciphering => exact h.configureSecurity secCfg integrity ciphering
  | dataRecovery report env =>
    obtain ⟨t, hc | hc, heq⟩ := dataRecovery_cases setup s report env <;> rw [PdcpEntityTx.step, heq]
    · exact ((passive setup).core hc h).retransmitAllPdus env
    · exact ((passive setup).core hc (h.congr ⟨rfl, rfl, rfl⟩ rfl)).retransmitAllPdus env
  | reestablish secCfg env =>
    exact reestablish_rule secCfg env (fun _ h => h.initHeaderCompression) (fun _ _ _ => WindowBounded.cleared rfl rfl)
      (fun _ h => h.configureSecurity _ _ _) (fun _ h => h.retransmitAllPdus env) s h
  | endBuffering env =>
    exact run_inv_all (fun _ _ h => h.handleSdu _ _) _ _ ((passive setup).core (endBuffering_core s) h)
  | suspend =>
    rw [PdcpEntityTx.step]
    rcases suspend_cases setup s with heq | ⟨timer, -, heq⟩
    · rwa [heq]
    · rw [heq]
      exact WindowBounded.cleared rfl rfl
  | resume =>
    rw [PdcpEntityTx.step]
    rcases resume_cases s with heq | ⟨-, heq⟩
    · rwa [heq]
    · rw [heq]
      exact h.congr ⟨rfl, rfl, rfl⟩ rfl
  | stop =>
    rw [PdcpEntityTx.step]
    rcases stop_cases setup s with heq | ⟨timer, cryptoTimer, -, heq⟩
    · rwa [heq]
    · rw [heq]
      exact ⟨h.ack, h.trans, h.bound, fun c hc => absurd hc (Finset.notMem_empty c)⟩
  | cryptoReorderingTimerExpiry =>
    rw [PdcpEntityTx.step]
    split_ifs
    · exact (delivery setup).cryptoReorderingTimeout (h.congr ⟨rfl, rfl, rfl⟩ rfl)
    · exact h
  | _ => exact (passive setup).step _ trivial h

end

theorem init : WindowBounded (PdcpEntityTx.init setup) :=
  WindowBounded.initHeaderCompression (WindowBounded.cleared rfl rfl)

theorem run (ops : List Op) (hops : Always (PdcpEntityTx.step setup) TransferOk (PdcpEntityTx.init setup) ops) :
    WindowBounded (run (PdcpEntityTx.step setup) (PdcpEntityTx.init setup) ops) :=
  run_inv (fun _ op h hok => h.step op hok) _ ops init hops

end WindowBounded

/-! ## What keeps the window in order -/

/-- every COUNT of the window is there -/
def NoHoles (s : PdcpEntityTx κ) : Prop := ∀ c, s.st.txNextAck ≤ c → c < s.st.txNext → c ∈ s.txWindow.keys

/-- the COUNT behind a notified one has not been discarded -/
def NotifiedOk (s : PdcpEntityTx κ) (c : ℕ) : Prop :=
  s.st.txNextAck ≤ c → c + 1 < s.st.txNext → c + 1 ∈ s.txWindow.keys

/-- an SDU that is stored is also sent, and there is room for it -/
structure SduOk (setup : PdcpTxSetup κ) (s : PdcpEntityTx κ) (buf : Bytes) (env : SduEnv) : Prop where
  compress : ∀ comp, s.rohcComp = some comp → (setup.rohc.compress comp buf).1 ≠ []
  header : env.headerOk = true
  room : setup.cfg.rbType = .srb → s.st.txNext < s.st.txNextAck + setup.cfg.snSize.windowSize

def GoodStep (setup : PdcpTxSetup κ) (s : PdcpEntityTx κ) : Op → Prop
  | .handleSdu buf env => SduOk setup s buf env
  | .endBuffering env =>
    Machine.Always (fun s (call : Bytes × ℕ) => s.handleSdu setup call.1 (env call.2))
      (fun s call => SduOk setup s call.1 (env call.2)) { s with buffering := false, sduBuffer := [] }
      s.sduBuffer.zipIdx
  | .transmitNotification sn =>
    setup.cfg.rlcMode = .um → NotifiedOk s (s.notificationCountEstimation setup sn)
  | .deliveryNotification sn | .deliveryRetransmittedNotification sn =>
    NotifiedOk s (s.notificationCountEstimation setup sn)
  -- test mode acknowledges each PDU of a UM bearer as soon as it is handed down
  | .applyReordering _ | .cryptoReorderingTimerExpiry =>
    setup.cfg.testMode = true → setup.cfg.rlcMode = .um → NoHoles s
  | .setCount _ _ => s.txWindow.keys = ∅
  -- the window of a stopped entity is not looked at any more
  | .stop => False
  | _ => True

/-! ## Window invariant -/

structure WindowInv (setup : PdcpTxSetup κ) (s : PdcpEntityTx κ) : Prop where
  cap : s.txWindow.txWindow.cap = setup.cfg.snSize.windowSize
  le : s.st.txNextAck ≤ s.st.txNext
  width : s.st.txNext ≤ s.st.txNextAck + setup.cfg.snSize.windowSize
  bound : s.st.txNext < 2 ^ 32
  range : ∀ c ∈ s.txWindow.keys, s.st.txNextAck ≤ c ∧ c < s.st.txNext
  oldest : s.st.txNextAck = s.st.txNext ∨ s.st.txNextAck ∈ s.txWindow.keys
  ticks : setup.cfg.discardTimer.bind toMs ≠ none →
    ∀ c elem, s.txWindow.find? c = some elem → elem.sduInfo.tickPointOfArrival ≠ none
  faults : ∀ f ∈ s.faults, f = .dataRecoveryBearer

/-- nothing the window invariant speaks about changes -/
structure SameWindow (s s' : PdcpEntityTx κ) : Prop where
  ack : s'.st.txNextAck = s.st.txNextAck
  next : s'.st.txNext = s.st.txNext
  cap : s'.txWindow.txWindow.cap = s.txWindow.txWindow.cap
  sdus : ∀ c, (s'.txWindow.find? c).map (·.sduInfo) = (s.txWindow.find? c).map (·.sduInfo)
  faults : s'.faults = s.faults

namespace SameWindow

theorem of_eq (hst : s'.st.txNextAck = s.st.txNextAck ∧ s'.st.txNext = s.st.txNext)
    (hw : s'.txWindow = s.txWindow) (hf : s'.faults = s.faults) : SameWindow s s' :=
  ⟨hst.1, hst.2, by rw [hw], fun c => by rw [hw], hf⟩

theorem of_core (h : SameCore s s') : SameWindow s s' :=
  of_eq ⟨by rw [h.st], by rw [h.st]⟩ h.txWindow h.faults

theorem of_setPdu {count : ℕ} {pdu : Bytes} (hst : s'.st.txNextAck = s.st.txNextAck ∧ s'.st.txNext = s.st.txNext)
    (hw : s'.txWindow = s.txWindow.setPdu count pdu) (hf : s'.faults = s.faults) : SameWindow s s' :=
  ⟨hst.1, hst.2, by rw [hw]; rfl, fun c => by rw [hw]; exact s.txWindow.sduInfo_setPdu count c pdu, hf⟩

theorem keys (h : SameWindow s s') : s'.txWindow.keys = s.txWindow.keys := by
  ext c
  have hc := congrArg isSome (h.sdus c)
  rw [isSome_map, isSome_map] at hc
  rw [mem_keys, mem_keys, ← isSome_iff_exists, ← isSome_iff_exists, hc]

end SameWindow

/-- neither the SDUs of the window nor the timer change -/
structure SameDiscard (s s' : PdcpEntityTx κ) : Prop where
  window : SameWindow s s'
  stopped : s'.stopped = s.stopped
  now : s'.now = s.now
  timer : s'.discardTimer = s.discardTimer

/-- steps that leave SDUs and timer alone -/
def Op.Still : Op → Prop
  | .applySecurity _ _ | .desiredBufferSizeNotification _ | .rohcFeedbackReceived _ _ | .rohcFeedbackProduced _ _
  | .configureSecurity _ _ _ | .beginBuffering | .resume => True
  | _ => False

namespace SameDiscard

theorem core (h : SameCore s s') : SameDiscard s s' :=
  ⟨SameWindow.of_core h, h.stopped, h.now, h.discardTimer⟩

theorem of_eq (hst : s'.st.txNextAck = s.st.txNextAck ∧ s'.st.txNext = s.st.txNext)
    (hw : s'.txWindow = s.txWindow) (hf : s'.faults = s.faults)
    (hrest : s'.stopped = s.stopped ∧ s'.now = s.now ∧ s'.discardTimer = s.discardTimer) : SameDiscard s s' :=
  ⟨SameWindow.of_eq hst hw hf, hrest.1, hrest.2.1, hrest.2.2⟩

theorem of_setPdu {count : ℕ} {pdu : Bytes} (hst : s'.st.txNextAck = s.st.txNextAck ∧ s'.st.txNext = s.st.txNext)
    (hw : s'.txWindow = s.txWindow.setPdu count pdu) (hf : s'.faults = s.faults)
    (hrest : s'.stopped = s.stopped ∧ s'.now = s.now ∧ s'.discardTimer = s.discardTimer) : SameDiscard s s' :=
  ⟨SameWindow.of_setPdu hst hw hf, hrest.1, hrest.2.1, hrest.2.2⟩

theorem configureSecurity (s : PdcpEntityTx κ) (secCfg : Sec128AsConfig) (integrity : IntegrityEnabled)
    (ciphering : Bool) : SameDiscard s (s.configureSecurity secCfg integrity ciphering) := by
  rcases configureSecurity_cases s secCfg integrity ciphering with ⟨heq, -⟩ | heq <;> rw [heq]
  · exact core (SameCore.refl s)
  · exact of_eq ⟨rfl, rfl⟩ rfl rfl ⟨rfl, rfl, rfl⟩

theorem initHeaderCompression (s : PdcpEntityTx κ) : SameDiscard s (s.initHeaderCompression setup) := by
  unfold PdcpEntityTx.initHeaderCompression
  split_ifs <;> exact of_eq ⟨rfl, rfl⟩ rfl rfl ⟨rfl, rfl, rfl⟩

theorem step (s : PdcpEntityTx κ) (op : Op) (hop : op.Still) : SameDiscard s (s.step setup op) := by
  cases op with
  | applySecurity idx env =>
    rw [PdcpEntityTx.step]
    cases s.cryptoTasks[idx]? with
    | none => exact core (SameCore.refl s)
    | some info =>
      obtain ⟨new, tasks, heq, -⟩ := applySecurity_cases setup
        { s with cryptoTasks := s.cryptoTasks.eraseIdx idx } info env
      dsimp only
      rw [heq]
      exact of_eq ⟨rfl, rfl⟩ rfl rfl ⟨rfl, rfl, rfl⟩
  | desiredBufferSizeNotification n => exact core (handleDesiredBufferSizeNotification_core s n)
  | rohcFeedbackReceived buf ok => exact core (consumeRohcFeedback_core s buf ok)
  | rohcFeedbackProduced buf ok => exact core (forwardRohcFeedback_core s buf ok)
  | configureSecurity secCfg integrity ciphering => exact configureSecurity s secCfg integrity ciphering
  | beginBuffering => exact core (beginBuffering_core s)
  | resume =>
    rw [PdcpEntityTx.step]
    rcases resume_cases s with heq | ⟨-, heq⟩ <;> rw [heq]
    · exact core (SameCore.refl s)
    · exact of_eq ⟨rfl, rfl⟩ rfl rfl ⟨rfl, rfl, rfl⟩
  | _ => exact hop.elim

end SameDiscard

section Same

variable {P : PdcpEntityTx κ → Prop}

/-- where SDUs and timer decide, only acknowledgements of test mode matter in a delivery -/
theorem DeliveryRule.of_same (hcongr : ∀ {s s'}, P s → SameDiscard s s' → P s')
    (hack : ∀ {s} c, P s → setup.cfg.testMode = true → setup.cfg.rlcMode = .um → P (s.stopDiscardTimer setup c)) :
    DeliveryRule setup P where
  skip h := hcongr h (SameDiscard.of_eq ⟨rfl, rfl⟩ rfl rfl ⟨rfl, rfl, rfl⟩)
  write _ h _ _ := hcongr h (SameDiscard.of_setPdu ⟨rfl, rfl⟩ rfl rfl ⟨rfl, rfl, rfl⟩)
  trans h _ _ := hcongr h (SameDiscard.of_eq ⟨rfl, rfl⟩ rfl rfl ⟨rfl, rfl, rfl⟩)
  ack := hack
  finish _ _ h := hcongr h (SameDiscard.of_eq ⟨rfl, rfl⟩ rfl rfl ⟨rfl, rfl, rfl⟩)

theorem retransmitAllPdus_same (hcongr : ∀ {s s'}, P s → SameDiscard s s' → P s') (env : RetxEnv)
    (hle : s.st.txNextAck ≤ s.st.txNext) (h : P s) : P (s.retransmitAllPdus setup env) := by
  refine retransmitAllPdus_rule (fun _ _ hc h => hcongr h (SameDiscard.core hc)) ?_ env s hle h fun _ =>
    hcongr h (SameDiscard.of_eq ⟨rfl, rfl⟩ rfl rfl ⟨rfl, rfl, rfl⟩)
  intro t count elem body ok ht _ _ _ _
  rw [sendBuffer_eq]
  exact hcongr ht (SameDiscard.of_eq ⟨rfl, rfl⟩ rfl rfl ⟨rfl, rfl, rfl⟩)

end Same

namespace WindowInv

section

variable (h : WindowInv setup s)
include h

theorem congr (hw : SameWindow s s') : WindowInv setup s' where
  cap := hw.cap.trans h.cap
  le := by rw [hw.ack, hw.next]; exact h.le
  width := by rw [hw.ack, hw.next]; exact h.width
  bound := by rw [hw.next]; exact h.bound
  range := by rw [hw.keys, hw.ack, hw.next]; exact h.range
  oldest := by rw [hw.keys, hw.ack, hw.next]; exact h.oldest
  ticks := by
    intro hd c elem he
    have hc := hw.sdus c
    rw [he] at hc
    cases hf : s.txWindow.find? c with
    | none =>
      rw [hf] at hc
      cases hc
    | some elem' =>
      rw [hf] at hc
      have hi : elem.sduInfo = elem'.sduInfo := some.inj hc
      rw [hi]
      exact h.ticks hd c elem' hf
  faults := by rw [hw.faults]; exact h.faults

theorem removeUpTo {c : ℕ} (h1 : s.st.txNextAck ≤ c) (h2 : c < s.st.txNext)
    (hc : NotifiedOk s c) : WindowInv setup (s.removeUpTo (c + 1)) where
  cap := (cap_removeSdus _ _ _).trans h.cap
  le := h2
  width := by
    have := h.width
    show s.st.txNext ≤ c + 1 + setup.cfg.snSize.windowSize
    omega
  bound := h.bound
  range := by
    intro d hd
    obtain ⟨hmem, hout⟩ := mem_keys_removeSdus.1 hd
    have := h.range d hmem
    exact ⟨show c + 1 ≤ d by omega, this.2⟩
  oldest := by
    rcases eq_or_lt_of_le (show c + 1 ≤ s.st.txNext from h2) with heq | hlt
    · exact .inl heq
    · have hout : s.st.txNextAck + (c + 1 - s.st.txNextAck) ≤ c + 1 := by omega
      exact .inr (mem_keys_removeSdus.2 ⟨hc h1 hlt, .inr hout⟩)
  ticks := fun hd d elem he => h.ticks hd d elem (find?_of_removeUpTo he)
  faults := h.faults

/-- the restarted timer finds the oldest SDU and its arrival tick -/
theorem restartDiscardTimer {duration : ℕ} (hd : setup.cfg.discardTimer.bind toMs = some duration) :
    WindowInv setup (s.restartDiscardTimer duration) := by
  obtain ⟨discardTimer, faults, heq, hcase⟩ := restartDiscardTimer_cases s duration
  have hfaults : faults = s.faults := by
    rcases hcase with ⟨-, -, hf⟩ | ⟨hne, ⟨hnone, -, -⟩ | ⟨arrival, -, -, hf⟩⟩
    · exact hf
    · -- an assertion would need a missing element or arrival tick
      have hmem := h.oldest.resolve_left hne
      obtain ⟨elem, he⟩ := mem_keys.1 hmem
      rw [he] at hnone
      exact absurd hnone (h.ticks (by rw [hd]; simp) _ elem he)
    · exact hf
  rw [heq, hfaults]
  exact h.congr (SameWindow.of_eq ⟨rfl, rfl⟩ rfl rfl)

theorem stopDiscardTimer {c : ℕ} (hc : NotifiedOk s c) : WindowInv setup (s.stopDiscardTimer setup c) := by
  rcases stopDiscardTimer_cases setup s c with heq | ⟨timer, ht, h1, h2, -, ⟨-, heq⟩ | ⟨duration, hd, heq⟩⟩
  · rwa [heq]
  · rw [heq]
    exact h.removeUpTo h1 h2 hc
  · rw [heq]
    exact (h.removeUpTo h1 h2 hc).restartDiscardTimer (by rw [ht]; exact hd)

theorem discardPdu (c : ℕ) : WindowInv setup (s.discardPdu setup c) := by
  rcases discardPdu_cases setup s c with ⟨heq, -⟩ | ⟨-, h1, h2, hmem, ack, hge, hle, hskip, hin, heq⟩
  · rwa [heq]
  · rw [heq]
    refine ⟨?_, hle, ?_, h.bound, ?_, ?_, fun hd d elem he => h.ticks hd d elem (find?_of_discarded he), h.faults⟩
    · exact (cap_removeSdu _ _).trans h.cap
    · exact h.width.trans (Nat.add_le_add_right hge _)
    · intro d hd
      rw [discarded, keys_removeSdu, Finset.mem_erase] at hd
      have hr := h.range d hd.2
      refine ⟨?_, hr.2⟩
      by_contra hlt
      exact hd.1 (hskip d hr.1 (not_le.1 hlt) hd.2)
    · rcases eq_or_lt_of_le hle with heq' | hlt
      · exact .inl heq'
      · right
        rw [discarded, keys_removeSdu, Finset.mem_erase]
        exact ⟨(hin hlt).2, (hin hlt).1⟩

theorem notification (op : Op) (hop : op.Notification) (hgood : GoodStep setup s op) :
    WindowInv setup (s.step setup op) := by
  rcases notification_cases setup s op hop with heq | ⟨c, -, -, heq⟩ | ⟨sn, c, rfl, hum, rfl, -, -, heq⟩ |
    ⟨sn, rfl | rfl, heq⟩ <;> rw [heq]
  · exact h
  · exact h.congr (SameWindow.of_eq ⟨rfl, rfl⟩ rfl rfl)
  · have h1 : WindowInv setup (s.setTxTrans (s.notificationCountEstimation setup sn + 1)) :=
      h.congr (SameWindow.of_eq ⟨rfl, rfl⟩ rfl rfl)
    exact h1.stopDiscardTimer (hgood hum)
  · exact h.stopDiscardTimer hgood
  · exact h.stopDiscardTimer hgood

/-- the slot of TX_NEXT is free while there is room -/
theorem find?_stored (hroom : s.st.txNext < s.st.txNextAck + setup.cfg.snSize.windowSize)
    (buf : Bytes) (c : ℕ) : (s.storeSdu setup buf).txWindow.find? c =
      if c = s.st.txNext then some ⟨s.newSduInfo setup buf, [], buf.length⟩ else s.txWindow.find? c := by
  rw [find?_storeSdu]
  by_cases hc : c = s.st.txNext
  · rw [if_pos hc, if_pos hc]
  · rw [if_neg hc, if_neg hc]
    split_ifs with hslot
    · -- a COUNT of the window in the same slot would be as far away as the window is wide
      symm
      rw [← notMem_keys]
      intro hmem
      have hr := h.range c hmem
      rw [h.cap] at hslot
      exact hc (eq_of_mod_eq hslot (by omega) (by omega))
    · rfl

theorem sent (hroom : s.st.txNext < s.st.txNextAck + setup.cfg.snSize.windowSize)
    (hbound : s.st.txNext + 1 < 2 ^ 32) (buf : Bytes) {s1 : PdcpEntityTx κ} (hs1 : SameCore (s.storeSdu setup buf) s1)
    (count : ℕ) (body : Bytes) (ok : Bool) :
    WindowInv setup ({ s1 with st := { s1.st with txNext := s1.st.txNext + 1 } }.sendBuffer setup false count body
      ok) := by
  have hst : s1.st = s.st := hs1.st
  have hw : s1.txWindow = (s.storeSdu setup buf).txWindow := hs1.txWindow
  have hfresh : s.st.txNext ∉ s.txWindow.keys := fun hmem => absurd (h.range _ hmem).2 (lt_irrefl _)
  have hkeys : ∀ c, c ∈ s1.txWindow.keys ↔ c = s.st.txNext ∨ c ∈ s.txWindow.keys := by
    intro c
    rw [hw, mem_keys, h.find?_stored hroom buf c]
    by_cases hc : c = s.st.txNext
    · rw [if_pos hc]
      simp [hc]
    · rw [if_neg hc, ← mem_keys]
      simp [hc]
  rw [sendBuffer_eq]
  refine ⟨?_, ?_, ?_, ?_, ?_, ?_, ?_, ?_⟩
  · show s1.txWindow.txWindow.cap = _
    rw [hw]
    exact h.cap
  · show s1.st.txNextAck ≤ s1.st.txNext + 1
    rw [hst]
    exact h.le.trans (le_succ _)
  · show s1.st.txNext + 1 ≤ s1.st.txNextAck + _
    rw [hst]
    exact hroom
  · show s1.st.txNext + 1 < 2 ^ 32
    rw [hst]
    exact hbound
  · intro c hc
    show s1.st.txNextAck ≤ c ∧ c < s1.st.txNext + 1
    rw [hst]
    rcases (hkeys c).1 hc with rfl | hmem
    · exact ⟨h.le, lt_succ_self _⟩
    · have hr := h.range c hmem
      exact ⟨hr.1, hr.2.trans (lt_succ_self _)⟩
  · right
    show s1.st.txNextAck ∈ s1.txWindow.keys
    rw [hst]
    rcases h.oldest with heq | hmem
    · exact (hkeys _).2 (.inl heq)
    · exact (hkeys _).2 (.inr hmem)
  · intro hd c elem' he
    have he' : s1.txWindow.find? c = some elem' := he
    rw [hw, h.find?_stored hroom buf c] at he'
    split_ifs at he'
    · rw [← some.inj he', newSduInfo]
      cases hb : setup.cfg.discardTimer.bind toMs with
      | none => exact absurd hb hd
      | some duration => simp
    · exact h.ticks hd c elem' he'
  · show ∀ f ∈ s1.faults, f = .dataRecoveryBearer
    rw [hs1.faults, storeSdu, if_neg (by rw [hasSn_iff]; exact hfresh)]
    exact h.faults

theorem startDiscardTimer : WindowInv setup (s.startDiscardTimer setup) := by
  rcases startDiscardTimer_cases setup s with ⟨heq, -⟩ | ⟨duration, -, -, heq⟩
  · rwa [heq]
  · rw [heq]
    exact h.congr (SameWindow.of_eq ⟨rfl, rfl⟩ rfl rfl)

theorem handleSdu {buf : Bytes} {env : SduEnv} (hok : SduOk setup s buf env) :
    WindowInv setup (s.handleSdu setup buf env) := by
  rcases handleSdu_cases setup s buf env with hc | ⟨s1, hc, hcomp, -, -, hroom, hhard, heq⟩
  · exact h.congr (SameWindow.of_core hc)
  · have h1 : WindowInv setup (s1.startDiscardTimer setup) := (h.congr (SameWindow.of_core hc)).startDiscardTimer
    have hst1 : (s1.startDiscardTimer setup).st = s.st := (startDiscardTimer_st setup s1).trans hc.st
    rw [heq]
    rcases transmitSdu_cases setup s1 buf env with ⟨-, -, hs⟩ | ⟨hfail, -⟩ | ⟨s2, body, hs, -, heq2⟩
    · exact h1.congr (SameWindow.of_core hs)
    · rcases hfail with ⟨comp, hcm, hnil⟩ | hhdr
      · exact absurd hnil (hok.compress comp (by rw [← hcomp]; exact hcm))
      · rw [hok.header] at hhdr
        cases hhdr
    · rw [heq2]
      have hhard' : setup.cfg.maxCount.hard.toNat < 2 ^ 32 := setup.cfg.maxCount.hard.toNat_lt
      have hroom' : s.st.txNext < s.st.txNextAck + setup.cfg.snSize.windowSize := by
        rcases hroom with hsrb | hdrb
        · exact hok.room hsrb
        · unfold sub32 at hdrb
          omega
      exact h1.sent (by rw [hst1]; exact hroom') (by rw [hst1]; omega) buf hs _ body env.executeOk

theorem retransmitAllPdus (env : RetxEnv) : WindowInv setup (s.retransmitAllPdus setup env) :=
  retransmitAllPdus_same (fun h hs => h.congr hs.window) env h.le h

/-- each round of the discard callback finds the arrival tick it looks for -/
theorem discardMatching {duration : ℕ} (hd : setup.cfg.discardTimer.bind toMs = some duration) (oldest k : ℕ) :
    WindowInv setup (s.discardMatching setup duration oldest k) := by
  induction k generalizing s with
  | zero => exact h
  | succ k ih =>
    have h1 := h.discardPdu s.st.txNextAck
    rw [PdcpEntityTx.discardMatching]
    generalize s.discardPdu setup s.st.txNextAck = s1 at h1
    cases he : s1.txWindow.find? s1.st.txNextAck with
    | none => exact h1
    | some elem =>
      dsimp only
      cases ha : elem.sduInfo.tickPointOfArrival with
      | none => exact absurd ha (h1.ticks (by rw [hd]; simp) _ elem he)
      | some arrival =>
        dsimp only
        split_ifs
        · exact h1.congr (SameWindow.of_eq ⟨rfl, rfl⟩ rfl rfl)
        · exact ih h1
        · exact h1

theorem discardCallback : WindowInv setup (s.discardCallback setup) := by
  unfold PdcpEntityTx.discardCallback
  split_ifs
  · exact h
  · cases he : s.txWindow.find? s.st.txNextAck with
    | none => exact h
    | some elem =>
      cases hd : setup.cfg.discardTimer.bind toMs with
      | none => exact h
      | some duration =>
        dsimp only
        cases ha : elem.sduInfo.tickPointOfArrival with
        | none => exact absurd ha (h.ticks (by rw [hd]; simp) _ elem he)
        | some oldest => exact h.discardMatching hd oldest _

/-- data recovery of an SRB or UM bearer is not the window's fault -/
theorem recoveryFault : WindowInv setup (s.fault .dataRecoveryBearer) := by
  refine { h with faults := ?_ }
  intro f hf
  rcases List.mem_append.1 hf with hf | hf
  · exact h.faults f hf
  · exact List.mem_singleton.1 hf

end

/-- an empty window at COUNT 0 -/
theorem cleared (hcap : s.txWindow.txWindow.cap = setup.cfg.snSize.windowSize) (hst : s.st = {})
    (hkeys : ∀ c, s.txWindow.find? c = none) (hf : ∀ f ∈ s.faults, f = .dataRecoveryBearer) : WindowInv setup s where
  cap := hcap
  le := by rw [hst]
  width := by rw [hst]; exact zero_le _
  bound := by rw [hst]; decide
  range := fun c hc => absurd hc (notMem_keys.2 (hkeys c))
  oldest := .inl (by rw [hst])
  ticks := fun _ c elem he => by rw [hkeys c] at he; cases he
  faults := hf

end WindowInv

/-! ## Delivery to the lower layers -/

/-- the window during delivery: in test mode of a UM bearer without holes -/
structure DeliveryInv (setup : PdcpTxSetup κ) (s : PdcpEntityTx κ) : Prop where
  window : WindowInv setup s
  holes : setup.cfg.testMode = true → setup.cfg.rlcMode = .um → NoHoles s

namespace DeliveryInv

theorem congr (h : DeliveryInv setup s) (hw : SameWindow s s') : DeliveryInv setup s' where
  window := h.window.congr hw
  holes := by
    intro ht hum c h1 h2
    rw [hw.keys]
    exact h.holes ht hum c (by rw [← hw.ack]; exact h1) (by rw [← hw.next]; exact h2)

theorem stopDiscardTimer (h : DeliveryInv setup s) (htest : setup.cfg.testMode = true)
    (hum : setup.cfg.rlcMode = .um) (c : ℕ) : DeliveryInv setup (s.stopDiscardTimer setup c) := by
  have hholes := h.holes htest hum
  have hok : NotifiedOk s c := fun h1 h2 => hholes (c + 1) (h1.trans (le_succ c)) h2
  refine ⟨h.window.stopDiscardTimer hok, fun _ _ => ?_⟩
  have hremoved : s.st.txNextAck ≤ c → NoHoles (s.removeUpTo (c + 1)) := by
    intro hack d h1 h2
    have h1' : c + 1 ≤ d := h1
    exact mem_keys_removeSdus.2 ⟨hholes d (by omega) h2, .inr (by omega)⟩
  rcases stopDiscardTimer_cases setup s c with heq | ⟨timer, ht, h1, h2, -, ⟨-, heq⟩ | ⟨duration, hd, heq⟩⟩
  · rwa [heq]
  · rw [heq]
    exact hremoved h1
  · obtain ⟨discardTimer, faults, hr, -⟩ := restartDiscardTimer_cases (s.removeUpTo (c + 1)) duration
    rw [heq, hr]
    exact hremoved h1

theorem rule : DeliveryRule setup (DeliveryInv setup) :=
  DeliveryRule.of_same (fun h hs => h.congr hs.window) fun c h htest hum => h.stopDiscardTimer htest hum c

end DeliveryInv

/-! ## Runs -/

namespace WindowInv

theorem still (h : WindowInv setup s) (op : Op) (hop : op.Still) : WindowInv setup (s.step setup op) :=
  h.congr (SameDiscard.step s op hop).window

/-- a good step keeps the window in order -/
theorem step (h : WindowInv setup s) (op : Op) (hgood : GoodStep setup s op) : WindowInv setup (s.step setup op) := by
  cases op with
  | handleSdu buf env => exact h.handleSdu hgood
  | applyReordering idx =>
    rw [PdcpEntityTx.step]
    cases s.reorderingTasks[idx]? with
    | none => exact h
    | some info =>
      have h' : DeliveryInv setup { s with reorderingTasks := s.reorderingTasks.eraseIdx idx } :=
        DeliveryInv.congr ⟨h, hgood⟩ (SameWindow.of_eq ⟨rfl, rfl⟩ rfl rfl)
      exact (DeliveryInv.rule.applyReordering h' fun _ => h'.congr (SameWindow.of_setPdu ⟨rfl, rfl⟩ rfl rfl)).window
  | transmitNotification sn => exact h.notification _ trivial hgood
  | deliveryNotification sn => exact h.notification _ trivial hgood
  | retransmitNotification sn => exact h.notification _ trivial hgood
  | deliveryRetransmittedNotification sn => exact h.notification _ trivial hgood
  | statusReport buf ok =>
    exact handleStatusReport_rule (fun _ _ hc h => h.congr (SameWindow.of_core hc)) (fun _ c h => h.discardPdu c) s buf
      ok h
  | dataRecovery report env =>
    obtain ⟨t, hc | hc, heq⟩ := dataRecovery_cases setup s report env <;> rw [PdcpEntityTx.step, heq]
    · exact (h.congr (SameWindow.of_core hc)).retransmitAllPdus env
    · exact (h.recoveryFault.congr (SameWindow.of_core hc)).retransmitAllPdus env
  | reestablish secCfg env =>
    exact reestablish_rule secCfg env (fun t h => h.congr (SameDiscard.initHeaderCompression t).window)
      (fun t ht _ => WindowInv.cleared (show t.reset.txWindow.txWindow.cap = _ from ht.cap) rfl (fun _ => rfl)
      ht.faults)
      (fun t h => h.congr (SameDiscard.configureSecurity t _ _ _).window) (fun _ h => h.retransmitAllPdus env) s h
  | endBuffering env =>
    exact run_inv (fun _ _ h hok => h.handleSdu hok) _ _ (h.congr (SameWindow.of_core (endBuffering_core s)))
      hgood
  | suspend =>
    rw [PdcpEntityTx.step]
    rcases suspend_cases setup s with heq | ⟨timer, -, heq⟩
    · rwa [heq]
    · rw [heq]
      exact WindowInv.cleared h.cap rfl (fun _ => rfl) h.faults
  | stop => exact hgood.elim
  | setCount hfn sn =>
    have hkeys : s.txWindow.keys = ∅ := hgood
    exact ⟨h.cap, le_rfl, le_add_right _ _, PdcpSnSize.computeCount_lt _ _ sn.toNat_lt,
      fun c hc => absurd (hkeys ▸ hc) (by simp), .inl rfl, h.ticks, h.faults⟩
  | tick => exact h.congr (SameWindow.of_eq ⟨rfl, rfl⟩ rfl rfl)
  | discardTimerExpiry =>
    rw [PdcpEntityTx.step]
    split_ifs
    · have h' : WindowInv setup { s with discardTimer := s.discardTimer.stop } :=
        h.congr (SameWindow.of_eq ⟨rfl, rfl⟩ rfl rfl)
      exact h'.discardCallback
    · exact h
  | cryptoReorderingTimerExpiry =>
    rw [PdcpEntityTx.step]
    split_ifs
    · have h' : DeliveryInv setup { s with cryptoReorderingTimer := s.cryptoReorderingTimer.stop } :=
        DeliveryInv.congr ⟨h, hgood⟩ (SameWindow.of_eq ⟨rfl, rfl⟩ rfl rfl)
      exact (DeliveryInv.rule.cryptoReorderingTimeout h').window
    · exact h
  | _ => exact h.still _ trivial

theorem init : WindowInv setup (PdcpEntityTx.init setup) :=
  (WindowInv.cleared rfl rfl (fun _ => rfl) (by simp)).congr (SameDiscard.initHeaderCompression _).window

end WindowInv

/-- an acknowledgement inside the window moves TX_NEXT_ACK behind it -/
theorem stopDiscardTimer_ack (hd : setup.cfg.discardTimer ≠ none) {c : ℕ} (h1 : s.st.txNextAck ≤ c)
    (h2 : c < s.st.txNext) (hmem : s.st.txNextAck ∈ s.txWindow.keys) :
    (s.stopDiscardTimer setup c).st.txNextAck = c + 1 := by
  obtain ⟨timer, ht⟩ := ne_none_iff_exists'.1 hd
  have hhas : s.txWindow.hasSn s.st.txNextAck = true := hasSn_iff.2 hmem
  unfold stopDiscardTimer
  rw [ht]
  dsimp only
  rw [if_neg (by omega), if_neg (by simp [hhas])]
  cases timer.toMs with
  | none => rfl
  | some duration =>
    obtain ⟨discardTimer, faults, heq, -⟩ := restartDiscardTimer_cases (s.removeUpTo (c + 1)) duration
    dsimp only
    rw [heq]
    rfl

namespace WindowInv

section

variable (h : WindowInv setup s) (hd : setup.cfg.discardTimer ≠ none)
include h hd

theorem notificationCountEstimation_eq {c : ℕ} (h1 : s.st.txNextAck ≤ c) (h2 : c < s.st.txNext) :
    s.notificationCountEstimation setup (setup.cfg.snSize.computeSn c) = c := by
  have hb := h.bound
  have hw := h.width
  unfold notificationCountEstimation
  rw [if_pos (isSome_iff_ne_none.2 hd)]
  exact PdcpSnSize.countEstimation_eq _ (h2.trans hb) (h1.trans (le_add_right _ _)) (h2.trans_le hw)

theorem deliveryNotification_ack
    (ham : setup.cfg.rlcMode = .am) {c : ℕ} (h1 : s.st.txNextAck ≤ c) (h2 : c < s.st.txNext) :
    (s.handleDeliveryNotificationImpl setup (setup.cfg.snSize.computeSn c)).st.txNextAck = c + 1 := by
  have hmem := h.oldest.resolve_left (by omega)
  unfold handleDeliveryNotificationImpl
  rw [if_neg (not_le.2 (PdcpSnSize.computeSn_lt _ c)), h.notificationCountEstimation_eq hd h1 h2]
  rw [if_neg (not_le.2 h2), if_neg hd, if_pos ham]
  exact stopDiscardTimer_ack hd h1 h2 hmem

theorem transmitNotification_ack
    (hum : setup.cfg.rlcMode = .um) {c : ℕ} (h1 : s.st.txNextAck ≤ c) (h2 : c < s.st.txNext)
    (h3 : s.st.txTrans ≤ c) (h4 : c < s.st.txTransCrypto) :
    (s.handleTransmitNotificationImpl setup (setup.cfg.snSize.computeSn c)).st.txNextAck = c + 1 := by
  have hmem := h.oldest.resolve_left (by omega)
  unfold handleTransmitNotificationImpl
  rw [if_neg (not_le.2 (PdcpSnSize.computeSn_lt _ c)), h.notificationCountEstimation_eq hd h1 h2]
  rw [if_neg (not_le.2 h4), if_neg (not_lt.2 h3), if_neg (not_le.2 h2), if_neg hd, if_pos hum]
  exact stopDiscardTimer_ack hd h1 h2 hmem

end

end WindowInv

/-- In every run of good steps: the window holds COUNTs in [TX_NEXT_ACK, TX_NEXT) only, the oldest of them is
TX_NEXT_ACK, no assertion on the window fails, and TX_NEXT_ACK can be moved behind each COUNT of the window by its
notification. -/
theorem discardWindow_invariant (setup : PdcpTxSetup κ) (hd : setup.cfg.discardTimer ≠ none) (ops : List Op)
    (hgood : Machine.Always (step setup) (GoodStep setup) (init setup) ops) :
    let s := Machine.run (step setup) (init setup) ops
    s.st.txNextAck ≤ s.st.txNext ∧
    (∀ c ∈ s.txWindow.keys, s.st.txNextAck ≤ c ∧ c < s.st.txNext) ∧
    (s.st.txNextAck = s.st.txNext ∨ s.txWindow.hasSn s.st.txNextAck = true) ∧
    (∀ f ∈ s.faults, f = .dataRecoveryBearer) ∧
    ∀ c, s.st.txNextAck ≤ c → c < s.st.txNext →
      (setup.cfg.rlcMode = .am →
        (s.handleDeliveryNotificationImpl setup (setup.cfg.snSize.computeSn c)).st.txNextAck = c + 1) ∧
      (setup.cfg.rlcMode = .um → s.st.txTrans ≤ c → c < s.st.txTransCrypto →
        (s.handleTransmitNotificationImpl setup (setup.cfg.snSize.computeSn c)).st.txNextAck = c + 1) := by
  intro s
  have h : WindowInv setup s := run_inv (fun _ op h hok => h.step op hok) _ ops WindowInv.init hgood
  refine ⟨h.le, h.range, ?_, h.faults, ?_⟩
  · rw [hasSn_iff]
    exact h.oldest
  · intro c h1 h2
    exact ⟨fun ham => h.deliveryNotification_ack hd ham h1 h2,
      fun hum h3 h4 => h.transmitNotification_ack hd hum h1 h2 h3 h4⟩

/-- an AM DRB with 12-bit SNs and a discard timer of 10 ms -/
def sampleSetup : PdcpTxSetup Unit where
  cfg := ⟨.drb, .am, .size12bits, .downlink, 0, none, some .ms10, true, ⟨0xc0000000, 0xf0000000⟩, false⟩
  rohc := ⟨none, fun _ _ => ([], ()), fun _ _ => ()⟩
  security := ⟨fun _ _ _ => [0, 0, 0, 0], fun _ _ msg => msg⟩

def sampleKey : Sec128AsConfig := ⟨none, 0x2b7e151628aed2a6abf7158809cf4f3c, none, .nea2⟩

def threeSdus : List Op :=
  [.desiredBufferSizeNotification 10000, .handleSdu [1] ⟨true, true, true⟩, .handleSdu [2] ⟨true, true, true⟩,
    .handleSdu [3] ⟨true, true, true⟩]

theorem sduOk_sample (s : PdcpEntityTx Unit) (buf : Bytes) (h : s.rohcComp = none) :
    SduOk sampleSetup s buf ⟨true, true, true⟩ :=
  ⟨fun comp hc => absurd (h.symm.trans hc) (by simp), rfl, fun h => absurd h (by decide)⟩

theorem threeSdus_good : Machine.Always (step sampleSetup) (GoodStep sampleSetup) (init sampleSetup)
      (threeSdus ++ [.deliveryNotification 0]) := by
  refine ⟨trivial, sduOk_sample _ _ ?_, sduOk_sample _ _ ?_, sduOk_sample _ _ ?_, fun _ _ => ?_, trivial⟩ <;>
    decide +kernel

theorem discardWindow_invariant_three_sdus :
    let s := Machine.run (step sampleSetup) (init sampleSetup) (threeSdus ++ [.deliveryNotification 0])
    s.st.txNextAck ≤ s.st.txNext ∧ s.txWindow.keys = {1, 2} :=
  ⟨(discardWindow_invariant sampleSetup (by decide) _ threeSdus_good).1, by decide +kernel⟩

/-- A status report discards COUNT 1. The delivery notification of COUNT 0 then leaves TX_NEXT_ACK at 1, which is not in
the window; the restart of the discard timer looks it up, and no later notification moves it. -/
theorem delivery_onto_hole :
    let s := Machine.run (step sampleSetup) (init sampleSetup)
      (threeSdus ++ [.statusReport [0, 0, 0, 0, 0, 0x80] true, .deliveryNotification 0])
    s.st.txNextAck = 1 ∧ s.st.txNext = 3 ∧ s.txWindow.keys = {2} ∧ s.faults = [.snMissing 1] ∧
    (s.handleDeliveryNotification sampleSetup 2).st.txNextAck = 1 := by
  decide +kernel

end OcuduRan.Pdcp.PdcpEntityTx
