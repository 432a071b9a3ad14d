/-
Order of delivery of a receiving PDCP entity without out-of-order delivery and header compression.

`receive_order`: in every run, whatever order the executors run their tasks in and whenever t-Reordering expires, SDUs
reach the upper layer in strictly increasing COUNT, each of them passed apply_security with that COUNT,
RX_DELIV ≤ RX_NEXT, the window only holds COUNTs in [RX_DELIV, RX_NEXT), RX_DELIV < RX_REORD ≤ RX_NEXT while the timer
runs, and no assertion on the window fails. Operations that set the COUNTs back (suspend, re-establishment of SRBs and
UM bearers, status transfer) start a new run.

No bound on the distance between RX_NEXT and RX_DELIV is needed: a COUNT that shares its slot with another one evicts
it from the window, which loses an SDU but neither reorders nor repeats one.
-/
import OcuduRan.Pdcp.Rx

namespace OcuduRan.Pdcp.PdcpEntityRx

open PdcpEntityRx List Machine

open Rlc (Bytes PdcpSnSize)

variable {δ : Type} {setup : PdcpRxSetup δ} {s s' : PdcpEntityRx δ} {info : PdcpRxPduInfo}

/-! ## What the upper layer has seen -/

def RxEvent.deliveredCount? : RxEvent → Option ℕ
  | .newSdu count _ _ => some count
  | _ => none

/-- COUNTs in the order of delivery -/
def delivered (s : PdcpEntityRx δ) : List ℕ := s.events.filterMap RxEvent.deliveredCount?

/-- an SDU that passed apply_security -/
def Passed (s : PdcpEntityRx δ) (count : ℕ) (sdu : Bytes) : Prop := .securityPassed count sdu ∈ s.events

/-! ## Invariant -/

/-- the part of the invariant that also holds while SDUs are delivered -/
structure DeliveryInv (setup : PdcpRxSetup δ) (s : PdcpEntityRx δ) : Prop where
  rohc : s.rohcDecomp = none
  le : s.st.rxDeliv ≤ s.st.rxNext
  range : ∀ c info, s.rxWindow.find? c = some info → s.st.rxDeliv ≤ c ∧ c < s.st.rxNext
  stored : ∀ c info, s.rxWindow.find? c = some info → info.count = c ∧ s.Passed c info.buf
  tasks : ∀ info, .applyReordering info ∈ s.ueTasks → s.Passed info.count info.buf
  sorted : s.delivered.Pairwise (· < ·)
  below : ∀ c ∈ s.delivered, c < s.st.rxDeliv
  passed : ∀ c sdu v, .newSdu c sdu v ∈ s.events → s.Passed c sdu
  reord : s.reorderingTimer.running = true → s.st.rxReord ≤ s.st.rxNext
  due : s.reorderingTimer.due = true → s.reorderingTimer.running = true
  ms0 : setup.cfg.tReordering = .ms0 → s.reorderingTimer.running = false
  faults : ∀ f ∈ s.faults, ∃ c, f = .trimHead c

structure OrderInv (setup : PdcpRxSetup δ) (s : PdcpEntityRx δ) : Prop extends DeliveryInv setup s where
  timer : s.reorderingTimer.running = true → s.st.rxDeliv < s.st.rxReord

/-- nothing but new tasks and events that are no deliveries -/
structure SameOrder (s s' : PdcpEntityRx δ) : Prop where
  st : s'.st = s.st
  rxWindow : s'.rxWindow = s.rxWindow
  rohcDecomp : s'.rohcDecomp = s.rohcDecomp
  timer : s'.reorderingTimer = s.reorderingTimer
  events : ∃ new, s'.events = s.events ++ new ∧ ∀ e ∈ new, RxEvent.deliveredCount? e = none
  tasks : ∀ info, .applyReordering info ∈ s'.ueTasks →
    .applyReordering info ∈ s.ueTasks ∨ s'.Passed info.count info.buf
  faults : ∀ f ∈ s'.faults, f ∈ s.faults ∨ ∃ c, f = .trimHead c

namespace SameOrder

theorem refl (s : PdcpEntityRx δ) : SameOrder s s :=
  ⟨rfl, rfl, rfl, rfl, ⟨[], by simp, by simp⟩, fun _ h => .inl h, fun _ h => .inl h⟩

theorem mono (h : SameOrder s s') {c : ℕ} {sdu : Bytes} (hp : s.Passed c sdu) : s'.Passed c sdu := by
  obtain ⟨new, heq, -⟩ := h.events
  unfold Passed
  rw [heq]
  exact mem_append_left _ hp

theorem trans {s'' : PdcpEntityRx δ} (h : SameOrder s s') (h' : SameOrder s' s'') : SameOrder s s'' where
  st := h'.st.trans h.st
  rxWindow := h'.rxWindow.trans h.rxWindow
  rohcDecomp := h'.rohcDecomp.trans h.rohcDecomp
  timer := h'.timer.trans h.timer
  events := appends_trans h.events h'.events
  tasks := by
    intro info hi
    rcases h'.tasks info hi with hi | hp
    · rcases h.tasks info hi with hi | hp
      · exact .inl hi
      · exact .inr (h'.mono hp)
    · exact .inr hp
  faults := by
    intro f hf
    rcases h'.faults f hf with hf | hf
    · exact h.faults f hf
    · exact .inr hf

theorem emit (s : PdcpEntityRx δ) {e : RxEvent} (he : RxEvent.deliveredCount? e = none) : SameOrder s (s.emit e) :=
  ⟨rfl, rfl, rfl, rfl, ⟨[e], rfl, by simpa using he⟩, fun _ h => .inl h, fun _ h => .inl h⟩

theorem then_emit (h : SameOrder s s') {e : RxEvent} (he : RxEvent.deliveredCount? e = none) :
    SameOrder s (s'.emit e) :=
  h.trans (emit s' he)

/-- only fields the order does not depend on change -/
theorem of_eq (h : (s'.st, s'.rxWindow, s'.rohcDecomp, s'.reorderingTimer, s'.events, s'.faults) =
      (s.st, s.rxWindow, s.rohcDecomp, s.reorderingTimer, s.events, s.faults))
    (htasks : ∀ task ∈ s'.ueTasks, task ∈ s.ueTasks) : SameOrder s s' := by
  simp only [Prod.mk.injEq] at h
  obtain ⟨hst, hw, hr, ht, he, hf⟩ := h
  exact ⟨hst, hw, hr, ht, ⟨[], by simpa using he, by simp⟩, fun _ h => .inl (htasks _ h), fun _ h => .inl (hf ▸ h)⟩

theorem delivered_eq (h : SameOrder s s') : s'.delivered = s.delivered := by
  obtain ⟨new, heq, hnew⟩ := h.events
  have hnil : new.filterMap RxEvent.deliveredCount? = [] := filterMap_eq_nil_iff.2 hnew
  unfold delivered
  rw [heq, filterMap_append, hnil, append_nil]

theorem deliveryInv (hs : SameOrder s s') (h : DeliveryInv setup s) : DeliveryInv setup s' where
  rohc := hs.rohcDecomp.trans h.rohc
  le := by rw [hs.st]; exact h.le
  range := by rw [hs.st, hs.rxWindow]; exact h.range
  stored := by
    rw [hs.rxWindow]
    exact fun c info hc => ⟨(h.stored c info hc).1, hs.mono (h.stored c info hc).2⟩
  tasks := by
    intro info hi
    rcases hs.tasks info hi with hi | hp
    · exact hs.mono (h.tasks info hi)
    · exact hp
  sorted := by rw [hs.delivered_eq]; exact h.sorted
  below := by rw [hs.delivered_eq, hs.st]; exact h.below
  passed := by
    intro c sdu v hmem
    obtain ⟨new, heq, hnew⟩ := hs.events
    rw [heq] at hmem
    rcases mem_append.1 hmem with hmem | hmem
    · exact hs.mono (h.passed c sdu v hmem)
    · exact absurd (hnew _ hmem) (by simp [RxEvent.deliveredCount?])
  reord := by rw [hs.timer, hs.st]; exact h.reord
  due := by rw [hs.timer]; exact h.due
  ms0 := by rw [hs.timer]; exact h.ms0
  faults := by
    intro f hf
    rcases hs.faults f hf with hf | hf
    · exact h.faults f hf
    · exact hf

theorem orderInv (hs : SameOrder s s') (h : OrderInv setup s) : OrderInv setup s' :=
  ⟨hs.deliveryInv h.toDeliveryInv, by rw [hs.timer, hs.st]; exact h.timer⟩

end SameOrder

/-! ## Operations that do not deliver -/

theorem notifyMaxCount_same (setup : PdcpRxSetup δ) (s : PdcpEntityRx δ) (count : ℕ) :
    SameOrder s (s.notifyMaxCount setup count) := by
  unfold notifyMaxCount
  split_ifs
  · have h : SameOrder s { s with maxCountNotified := true } := SameOrder.of_eq rfl fun _ h => h
    exact h.then_emit rfl
  · exact SameOrder.refl s

section

variable (s : PdcpEntityRx δ)

theorem handleDataPdu_same (pdu : Bytes) (ok : Bool) : SameOrder s (s.handleDataPdu setup pdu ok) := by
  unfold handleDataPdu
  cases readDataPduHeader setup.cfg.snSize pdu with
  | none => exact SameOrder.refl s
  | some sn =>
    have hn := notifyMaxCount_same setup s (s.rcvdCount setup sn)
    dsimp only
    generalize s.notifyMaxCount setup (s.rcvdCount setup sn) = s1 at hn
    refine hn.trans ?_
    split_ifs
    · exact SameOrder.refl s1
    · have h : SameOrder s1 { s1 with maxCountOverflow := true } := SameOrder.of_eq rfl fun _ h => h
      exact h.then_emit rfl
    · exact SameOrder.of_eq rfl fun _ h => h
    · exact SameOrder.refl s1

theorem handleControlPdu_same (firstByte : UInt8) (pdu : Bytes) : SameOrder s (s.handleControlPdu firstByte pdu) := by
  unfold handleControlPdu
  dsimp only
  split_ifs
  · exact SameOrder.emit s rfl
  · exact SameOrder.emit s rfl
  · exact SameOrder.refl s

theorem handlePdu_same (buf : Bytes) (env : PduEnv) : SameOrder s (s.handlePdu setup buf env) := by
  have hresume : SameOrder s
      (if (s.suspended && !s.resumeRequested) = true then { s with resumeRequested := true }.emit .resumeRequired
        else s) := by
    split_ifs
    · have h : SameOrder s { s with resumeRequested := true } := SameOrder.of_eq rfl fun _ h => h
      exact h.then_emit rfl
    · exact SameOrder.refl s
  unfold handlePdu
  by_cases hstop : s.stopped = true
  · rw [if_pos hstop]
    exact SameOrder.refl s
  · rw [if_neg hstop]
    generalize (if (s.suspended && !s.resumeRequested) = true then
      { s with resumeRequested := true }.emit .resumeRequired else s) = s1 at hresume ⊢
    refine hresume.trans ?_
    by_cases hbuf : s1.buffering = true
    · rw [if_pos hbuf]
      split_ifs
      · exact SameOrder.of_eq rfl fun _ h => h
      · exact SameOrder.refl s1
    · rw [if_neg hbuf]
      cases buf with
      | nil => exact SameOrder.refl s1
      | cons firstByte rest =>
        dsimp only
        split_ifs
        · exact SameOrder.refl s1
        · exact handleDataPdu_same s1 _ _
        · exact handleControlPdu_same s1 _ _

theorem executeUeTask_same (ok : Bool) {task : RxTask}
    (htask : ∀ info, task = .applyReordering info → s.Passed info.count info.buf) :
    SameOrder s (s.executeUeTask ok task) := by
  unfold executeUeTask
  split_ifs
  · refine ⟨rfl, rfl, rfl, rfl, ⟨[], by simp, by simp⟩, ?_, fun _ h => .inl h⟩
    intro info hi
    rcases mem_append.1 hi with hi | hi
    · exact .inl hi
    · exact .inr (htask info (mem_singleton.1 hi).symm)
  · exact SameOrder.refl s

theorem applySecurity_same (info : PdcpRxPduInfo) (env : SecurityEnv) :
    SameOrder s (s.applySecurity setup info env) := by
  unfold applySecurity
  dsimp only
  by_cases hok : (s.applyDecipheringAndIntegrityCheck setup info.buf info.count env).1.isSuccess = true
  · rw [if_pos hok]
    generalize (s.applyDecipheringAndIntegrityCheck setup info.buf info.count env).2 = buf
    have htrim : SameOrder s (if buf.length < setup.cfg.snSize.dataPduHeaderSize then s.fault (.trimHead info.count)
        else s) := by
      split_ifs
      · refine ⟨rfl, rfl, rfl, rfl, ⟨[], by simp [fault], by simp⟩, fun _ h => .inl h, fun f hf => ?_⟩
        rcases mem_append.1 hf with hf | hf
        · exact .inl hf
        · exact .inr ⟨info.count, mem_singleton.1 hf⟩
      · exact SameOrder.refl s
    refine (htrim.trans (SameOrder.emit _ rfl)).trans (executeUeTask_same _ _ ?_)
    rintro info' h
    cases h
    exact mem_append_right _ (mem_singleton.2 rfl)
  · rw [if_neg hok]
    exact executeUeTask_same s _ (by simp)

theorem handleFailure_same (status : SecurityStatus) : SameOrder s (s.handleFailure status) := by
  cases status <;> exact SameOrder.emit s rfl

theorem configureSecurity_same (secCfg : Sec128AsConfig) (integrity : IntegrityEnabled)
    (ciphering : Bool) : SameOrder s (s.configureSecurity secCfg integrity ciphering) := by
  unfold configureSecurity
  split_ifs
  · exact SameOrder.refl s
  · exact SameOrder.of_eq rfl fun _ h => h

theorem endBuffering_same (env : ℕ → PduEnv) : SameOrder s (s.endBuffering setup env) := by
  exact run_inv_all (fun _ call h => h.trans (handlePdu_same _ call.1 _)) _ _
    (SameOrder.of_eq rfl fun _ h => h)

theorem resume_same : SameOrder s s.resume := by
  unfold resume
  split_ifs
  · exact SameOrder.refl s
  · exact SameOrder.refl s
  · exact SameOrder.of_eq rfl fun _ h => h

end

/-! ## Delivery -/

/-- without header compression an SDU is delivered as it is -/
theorem deliverSdu_eq (hr : s.rohcDecomp = none) (info : PdcpRxSduInfo) :
    s.deliverSdu setup info = s.emit (.newSdu info.count info.buf info.integrityVerified) := by
  unfold deliverSdu applyHeaderDecompression
  rw [hr]

namespace DeliveryInv

theorem passCount (h : DeliveryInv setup s) (hlt : s.st.rxDeliv < s.st.rxNext) : DeliveryInv setup s.passCount := by
  have hfind : ∀ c info, s.passCount.rxWindow.find? c = some info →
      c ≠ s.st.rxDeliv ∧ s.rxWindow.find? c = some info := by
    intro c info hc
    have hc' : (s.rxWindow.erase s.st.rxDeliv).find? c = some info := hc
    rw [CircularMap.find?_erase] at hc'
    split_ifs at hc' with hne
    exact ⟨hne, hc'⟩
  refine { h with le := hlt, range := ?_, stored := ?_, below := ?_ }
  · intro c info hc
    obtain ⟨hne, hc⟩ := hfind c info hc
    have hr := h.range c info hc
    exact ⟨Nat.lt_of_le_of_ne hr.1 (Ne.symm hne), hr.2⟩
  · exact fun c info hc => h.stored c info (hfind c info hc).2
  · exact fun c hc => (h.below c hc).trans (Nat.lt_succ_self _)

/-- RX_DELIV is delivered and passed -/
theorem deliverNext (h : DeliveryInv setup s) {info : PdcpRxSduInfo} (hf : s.rxWindow.find? s.st.rxDeliv = some info) :
    DeliveryInv setup (s.deliverSdu setup info).passCount := by
  obtain ⟨hcount, hpass⟩ := h.stored _ info hf
  have hr := h.range _ info hf
  have hp := h.passCount hr.2
  have hmono : ∀ c sdu, s.Passed c sdu →
      (s.emit (.newSdu info.count info.buf info.integrityVerified)).Passed c sdu :=
    fun c sdu hp => mem_append_left _ hp
  have hdel : (s.emit (.newSdu info.count info.buf info.integrityVerified)).delivered =
      s.delivered ++ [s.st.rxDeliv] := by
    unfold delivered emit
    rw [filterMap_append, hcount]
    rfl
  rw [deliverSdu_eq h.rohc]
  refine ⟨h.rohc, hp.le, hp.range, ?_, ?_, ?_, ?_, ?_, h.reord, h.due, h.ms0, h.faults⟩
  · exact fun c elem hc => ⟨(hp.stored c elem hc).1, hmono _ _ (hp.stored c elem hc).2⟩
  · exact fun task ht => hmono _ _ (h.tasks task ht)
  · show (s.emit _).delivered.Pairwise (· < ·)
    rw [hdel, pairwise_append]
    refine ⟨h.sorted, pairwise_singleton _ _, fun c hc d hd => ?_⟩
    rw [mem_singleton.1 hd]
    exact h.below c hc
  · show ∀ c ∈ (s.emit _).delivered, c < s.st.rxDeliv + 1
    rw [hdel]
    intro c hc
    rcases mem_append.1 hc with hc | hc
    · exact (h.below c hc).trans (Nat.lt_succ_self _)
    · rw [mem_singleton.1 hc]
      exact Nat.lt_succ_self _
  · intro c sdu v hmem
    have hmem' : .newSdu c sdu v ∈ s.events ++ [.newSdu info.count info.buf info.integrityVerified] := hmem
    rcases mem_append.1 hmem' with hmem' | hmem'
    · exact hmono _ _ (h.passed c sdu v hmem')
    · cases mem_singleton.1 hmem'
      exact hmono _ _ (hcount.symm ▸ hpass)

end DeliveryInv

/-- what delivery leaves as it is -/
structure Advanced (s s' : PdcpEntityRx δ) : Prop where
  next : s'.st.rxNext = s.st.rxNext
  reord : s'.st.rxReord = s.st.rxReord
  timer : s'.reorderingTimer = s.reorderingTimer
  deliv : s.st.rxDeliv ≤ s'.st.rxDeliv

theorem Advanced.trans {s'' : PdcpEntityRx δ} (h : Advanced s s') (h' : Advanced s' s'') : Advanced s s'' :=
  ⟨h'.next.trans h.next, h'.reord.trans h.reord, h'.timer.trans h.timer, h.deliv.trans h'.deliv⟩

theorem Advanced.deliverSdu (hr : s.rohcDecomp = none) (info : PdcpRxSduInfo) :
    Advanced s (s.deliverSdu setup info).passCount := by
  rw [deliverSdu_eq hr]
  exact ⟨rfl, rfl, rfl, Nat.le_succ _⟩

theorem Advanced.passCount (s : PdcpEntityRx δ) : Advanced s s.passCount := ⟨rfl, rfl, rfl, Nat.le_succ _⟩

/-- the loop of advance_rx_window, by induction on the number of COUNTs left -/
theorem advanceLoop_spec (setup : PdcpRxSetup δ) (stopOnGap : Bool) (k : ℕ)
    (h : DeliveryInv setup s) (hk : s.st.rxDeliv + k ≤ s.st.rxNext) :
    DeliveryInv setup (s.advanceLoop setup stopOnGap k) ∧ Advanced s (s.advanceLoop setup stopOnGap k) ∧
      (stopOnGap = false → (s.advanceLoop setup stopOnGap k).st.rxDeliv = s.st.rxDeliv + k) := by
  induction k generalizing s with
  | zero => exact ⟨h, ⟨rfl, rfl, rfl, le_rfl⟩, fun _ => rfl⟩
  | succ k ih =>
    rw [advanceLoop]
    have hpass : ∀ {s1 : PdcpEntityRx δ}, DeliveryInv setup s1 → Advanced s s1 → s1.st.rxDeliv = s.st.rxDeliv + 1 →
        DeliveryInv setup (s1.advanceLoop setup stopOnGap k) ∧ Advanced s (s1.advanceLoop setup stopOnGap k) ∧
          (stopOnGap = false → (s1.advanceLoop setup stopOnGap k).st.rxDeliv = s.st.rxDeliv + (k + 1)) := by
      intro s1 h1 ha heq
      obtain ⟨h2, ha2, hd⟩ := ih h1 (by rw [heq, ha.next]; omega)
      exact ⟨h2, ha.trans ha2, fun hg => by rw [hd hg, heq]; omega⟩
    cases hf : s.rxWindow.find? s.st.rxDeliv with
    | some info =>
      dsimp only
      split_ifs
      · exact hpass (h.passCount (h.range _ info hf).2) (Advanced.passCount s) rfl
      · refine hpass (h.deliverNext hf) (Advanced.deliverSdu h.rohc info) ?_
        rw [deliverSdu_eq h.rohc]
        rfl
    | none =>
      split_ifs with hg
      · exact ⟨h, ⟨rfl, rfl, rfl, le_rfl⟩, fun hg' => absurd hg (by rw [hg']; decide)⟩
      · exact hpass (h.passCount (by omega)) (Advanced.passCount s) rfl

theorem advanceRxWindow_spec (setup : PdcpRxSetup δ) {stopCount : ℕ} (stopOnGap : Bool)
    (h : DeliveryInv setup s) (hstop : stopCount ≤ s.st.rxNext) :
    DeliveryInv setup (s.advanceRxWindow setup stopCount stopOnGap) ∧
      Advanced s (s.advanceRxWindow setup stopCount stopOnGap) ∧
      (stopOnGap = false → stopCount ≤ (s.advanceRxWindow setup stopCount stopOnGap).st.rxDeliv) := by
  have hle := h.le
  unfold advanceRxWindow
  rw [if_pos hstop]
  obtain ⟨h1, ha, hd⟩ := advanceLoop_spec setup stopOnGap (stopCount - s.st.rxDeliv) h (by omega)
  exact ⟨h1, ha, fun hg => by rw [hd hg]; omega⟩

/-! ## t-Reordering -/

section

variable (h : DeliveryInv setup s)
include h

/-- the order does not depend on the timer being stopped -/
theorem DeliveryInv.stopTimer :
    OrderInv setup { s with reorderingTimer := s.reorderingTimer.stop } :=
  ⟨{ h with reord := by simp, due := by simp, ms0 := fun _ => rfl }, by simp⟩

theorem startReordering_inv (hlt : s.st.rxDeliv < s.st.rxNext)
    (hne : setup.cfg.tReordering ≠ .ms0) : OrderInv setup (s.startReordering setup) := by
  unfold startReordering runReorderingTimer
  cases setup.cfg.tReordering.toMs with
  | none => exact ⟨{ h with reord := fun _ => le_rfl }, fun _ => hlt⟩
  | some duration =>
    exact ⟨{ h with reord := fun _ => le_rfl, due := fun _ => rfl, ms0 := fun h0 => absurd h0 hne }, fun _ => hlt⟩

theorem handleTReorderingExpire_inv (hreord : s.st.rxReord ≤ s.st.rxNext)
    (hidle : s.reorderingTimer.running = false) : OrderInv setup (s.handleTReorderingExpire setup) := by
  obtain ⟨h1, ha1, -⟩ := advanceRxWindow_spec setup false h hreord
  obtain ⟨h2, ha2, -⟩ := advanceRxWindow_spec setup true h1 (le_refl _)
  unfold handleTReorderingExpire
  dsimp only
  generalize (s.advanceRxWindow setup s.st.rxReord false).advanceRxWindow setup
    (s.advanceRxWindow setup s.st.rxReord false).st.rxNext true = s2 at h2 ha2
  have hidle2 : s2.reorderingTimer.running = false := by rw [(ha1.trans ha2).timer, hidle]
  have hdone : OrderInv setup s2 := ⟨h2, fun hr => absurd hr (by rw [hidle2]; decide)⟩
  split_ifs with hlt h0
  · exact hdone
  · exact startReordering_inv h2 hlt h0
  · exact hdone

theorem handleReorderingTimers_inv : OrderInv setup (s.handleReorderingTimers setup) := by
  -- after the first check a running timer waits for a COUNT beyond RX_DELIV
  have hstop : OrderInv setup (if s.reorderingTimer.running = true ∧ s.st.rxDeliv ≥ s.st.rxReord then
      { s with reorderingTimer := s.reorderingTimer.stop } else s) := by
    split_ifs with hc
    · exact h.stopTimer
    · exact ⟨h, fun hr => not_le.1 fun hle => hc ⟨hr, hle⟩⟩
  unfold handleReorderingTimers
  dsimp only
  generalize (if s.reorderingTimer.running = true ∧ s.st.rxDeliv ≥ s.st.rxReord then
      { s with reorderingTimer := s.reorderingTimer.stop } else s) = s1 at hstop ⊢
  split_ifs with hinf h0 hidle
  · exact hstop
  · exact handleTReorderingExpire_inv { hstop.toDeliveryInv with reord := fun _ => le_rfl } le_rfl (hstop.ms0 h0)
  · exact startReordering_inv hstop.toDeliveryInv hidle.2 h0
  · exact hstop

end

/-! ## Arrival after security -/

/-- a PDU that is neither old nor a duplicate enters the window -/
theorem store_inv (h : DeliveryInv setup s) (hge : s.st.rxDeliv ≤ info.count)
    (hnew : s.rxWindow.find? info.count = none) (hpass : s.Passed info.count info.buf) :
    DeliveryInv setup ((s.addSn info).updateRxNext info.count) := by
  have hfind : ∀ c elem, (s.addSn info).rxWindow.find? c = some elem →
      c = info.count ∧ elem.count = c ∧ elem.buf = info.buf ∨ s.rxWindow.find? c = some elem := by
    intro c elem hc
    have hc' : (s.rxWindow.overwrite info.count _).find? c = some elem := hc
    rw [CircularMap.find?_overwrite] at hc'
    split_ifs at hc' with heq
    · cases hc'
      exact .inl ⟨heq, heq.symm, rfl⟩
    · exact .inr hc'
  have hfaults : (s.addSn info).faults = s.faults := by
    have hno : s.rxWindow.contains info.count = false := by
      unfold CircularMap.contains
      rw [hnew]
      rfl
    unfold addSn
    rw [hno]
    rfl
  have hstored : ∀ c elem, (s.addSn info).rxWindow.find? c = some elem → elem.count = c ∧ s.Passed c elem.buf := by
    intro c elem hc
    rcases hfind c elem hc with ⟨rfl, h1, h2⟩ | hc
    · exact ⟨h1, by rw [h2]; exact hpass⟩
    · exact h.stored c elem hc
  unfold updateRxNext
  split_ifs with hnext
  · have hnext' : s.st.rxNext ≤ info.count := hnext
    refine ⟨h.rohc, hge.trans (Nat.le_succ _), ?_, hstored, h.tasks, h.sorted, h.below, h.passed, ?_, h.due, h.ms0, ?_⟩
    · intro c elem hc
      show s.st.rxDeliv ≤ c ∧ c < info.count + 1
      rcases hfind c elem hc with ⟨rfl, -, -⟩ | hc
      · exact ⟨hge, Nat.lt_succ_self _⟩
      · have hr := h.range c elem hc
        exact ⟨hr.1, by omega⟩
    · exact fun hr => (h.reord hr).trans (hnext'.trans (Nat.le_succ _))
    · show ∀ f ∈ (s.addSn info).faults, _
      rw [hfaults]
      exact h.faults
  · have hnext' : info.count < s.st.rxNext := not_le.1 hnext
    refine ⟨h.rohc, h.le, ?_, hstored, h.tasks, h.sorted, h.below, h.passed, h.reord, h.due, h.ms0, ?_⟩
    · intro c elem hc
      rcases hfind c elem hc with ⟨rfl, -, -⟩ | hc
      · exact ⟨hge, hnext'⟩
      · exact h.range c elem hc
    · rw [hfaults]
      exact h.faults

theorem acceptPdu_inv (hooo : setup.cfg.outOfOrderDelivery = false) (h : DeliveryInv setup s)
    (hge : s.st.rxDeliv ≤ info.count) (hnew : s.rxWindow.find? info.count = none)
    (hpass : s.Passed info.count info.buf) : OrderInv setup (s.acceptPdu setup info) := by
  have h1 := store_inv h hge hnew hpass
  unfold acceptPdu
  simp only [hooo, Bool.false_eq_true, if_false]
  generalize (s.addSn info).updateRxNext info.count = s1 at h1
  apply handleReorderingTimers_inv
  split_ifs
  · exact (advanceRxWindow_spec setup true h1 le_rfl).1
  · exact h1

theorem applyReordering_inv (hooo : setup.cfg.outOfOrderDelivery = false) (h : OrderInv setup s)
    (hpass : s.Passed info.count info.buf) : OrderInv setup (s.applyReordering setup info) := by
  unfold applyReordering
  split_ifs with hlt
  · exact h
  · cases hf : s.rxWindow.find? info.count with
    | some sdu =>
      dsimp only
      rw [if_pos (h.stored _ sdu hf).1]
      exact h
    | none => exact acceptPdu_inv hooo h.toDeliveryInv (not_lt.1 hlt) hf hpass

/-! ## Runs -/

/-- operations that do not set the COUNTs back -/
def Op.KeepsCount (setup : PdcpRxSetup δ) : Op → Prop
  | .suspend => False
  | .setCount _ _ => False
  | .reestablish _ => setup.cfg.rbType = .drb ∧ setup.cfg.rlcMode = .am
  | _ => True

namespace OrderInv

theorem step (hooo : setup.cfg.outOfOrderDelivery = false) (hrohc : setup.cfg.headerCompression = none)
    (h : OrderInv setup s) (op : Op) (hop : op.KeepsCount setup) : OrderInv setup (s.step setup op) := by
  cases op with
  | handlePdu buf env => exact (handlePdu_same s buf env).orderInv h
  | applySecurity idx env =>
    rw [PdcpEntityRx.step]
    cases s.cryptoTasks[idx]? with
    | none => exact h
    | some info =>
      have h1 : SameOrder s { s with cryptoTasks := s.cryptoTasks.eraseIdx idx } :=
        SameOrder.of_eq rfl fun _ h => h
      exact (h1.trans (applySecurity_same _ info env)).orderInv h
  | runUeTask idx =>
    rw [PdcpEntityRx.step]
    cases ht : s.ueTasks[idx]? with
    | none => exact h
    | some task =>
      have h1 : SameOrder s { s with ueTasks := s.ueTasks.eraseIdx idx } :=
        SameOrder.of_eq rfl fun _ h => mem_of_mem_eraseIdx h
      cases task with
      | applyReordering info =>
        exact applyReordering_inv hooo (h1.orderInv h) (h.tasks info (mem_of_getElem? ht))
      | handleFailure status count => exact (h1.trans (handleFailure_same _ status)).orderInv h
  | configureSecurity secCfg integrity ciphering => exact (configureSecurity_same s _ _ _).orderInv h
  | reestablish secCfg =>
    have hdrb : setup.cfg.rbType ≠ .srb := by rw [hop.1]; decide
    have ham : setup.cfg.rlcMode ≠ .um := by rw [hop.2]; decide
    rw [PdcpEntityRx.step, PdcpEntityRx.reestablish]
    simp only [hdrb, ham, if_false, or_self, initHeaderDecompression, hrohc, Option.isSome_none, Bool.false_eq_true]
    exact (configureSecurity_same s _ _ _).orderInv h
  | beginBuffering =>
    have h1 : SameOrder s s.beginBuffering := SameOrder.of_eq rfl fun _ h => h
    exact h1.orderInv h
  | endBuffering env => exact (endBuffering_same s env).orderInv h
  | suspend => exact hop.elim
  | resume => exact (resume_same s).orderInv h
  | stop =>
    rw [PdcpEntityRx.step, PdcpEntityRx.stop]
    split_ifs
    · exact h
    · have h1 : SameOrder { s with reorderingTimer := s.reorderingTimer.stop }
          { s with stopped := true, reorderingTimer := s.reorderingTimer.stop } :=
        SameOrder.of_eq rfl fun _ h => h
      exact h1.orderInv h.toDeliveryInv.stopTimer
  | setCount hfn sn => exact hop.elim
  | tick =>
    have hrun : (s.step setup .tick).reorderingTimer.running = s.reorderingTimer.running :=
      TickTimer.tick_running _ _
    refine ⟨{ h.toDeliveryInv with reord := ?_, due := fun hd => ?_, ms0 := ?_ }, ?_⟩ <;> rw [hrun]
    · exact h.reord
    · exact TickTimer.running_of_tick_due h.due hd
    · exact h.ms0
    · exact h.timer
  | reorderingTimerExpiry =>
    rw [PdcpEntityRx.step]
    split_ifs with hdue
    · have h1 := h.toDeliveryInv.stopTimer
      unfold reorderingCallback
      split_ifs
      · exact h1
      · exact handleTReorderingExpire_inv h1.toDeliveryInv (h.reord (h.due hdue)) rfl
    · exact h

theorem init (hrohc : setup.cfg.headerCompression = none) (hfn sn : ℕ) :
    OrderInv setup ((init setup).setCount setup hfn sn) := by
  unfold PdcpEntityRx.init initHeaderDecompression
  rw [hrohc, if_neg (by decide)]
  refine ⟨⟨rfl, le_rfl, ?_, ?_, ?_, List.Pairwise.nil, ?_, ?_, ?_, ?_, fun _ => rfl, ?_⟩, ?_⟩
  all_goals
    intros
    contradiction

end OrderInv

/-- In every run that does not set the COUNTs back, from any COUNT: deliveries have strictly increasing COUNT, each
delivered SDU passed apply_security with its COUNT, the state variables and the window are in order, and
advance_rx_window is never asked to go beyond RX_NEXT. -/
theorem receive_order (setup : PdcpRxSetup δ) (hooo : setup.cfg.outOfOrderDelivery = false)
    (hrohc : setup.cfg.headerCompression = none) (hfn sn : ℕ) (ops : List Op)
    (hops : ∀ op ∈ ops, op.KeepsCount setup) :
    let s := Machine.run (step setup) ((init setup).setCount setup hfn sn) ops
    s.delivered.Pairwise (· < ·) ∧
    (∀ count sdu verified, .newSdu count sdu verified ∈ s.events → .securityPassed count sdu ∈ s.events) ∧
    s.st.rxDeliv ≤ s.st.rxNext ∧
    (s.reorderingTimer.running = true → s.st.rxDeliv < s.st.rxReord ∧ s.st.rxReord ≤ s.st.rxNext) ∧
    (∀ c ∈ s.rxWindow.keys, s.st.rxDeliv ≤ c ∧ c < s.st.rxNext) ∧
    ∀ stopCount rxNext, .stopCount stopCount rxNext ∉ s.faults := by
  intro s
  have h : OrderInv setup s :=
    run_inv (fun _ op h hop => h.step hooo hrohc op hop) _ ops (OrderInv.init hrohc hfn sn)
      (always_of_forall (fun _ _ hop => hop) _ ops hops)
  refine ⟨h.sorted, h.passed, h.le, fun hr => ⟨h.timer hr, h.reord hr⟩, ?_, ?_⟩
  · intro c hc
    obtain ⟨info, hf⟩ := CircularMap.mem_keys.1 hc
    exact h.range c info hf
  · intro stopCount rxNext hmem
    obtain ⟨c, hc⟩ := h.faults _ hmem
    cases hc

/-- a DRB without security whose t-Reordering is 10 ms -/
def sampleSetup : PdcpRxSetup Unit where
  cfg := ⟨.drb, .am, .size12bits, .uplink, 0, none, false, .ms10, ⟨0xc0000000, 0xf0000000⟩⟩
  rohc := ⟨none, fun _ _ => (([], []), ())⟩
  security := ⟨fun _ _ _ => [0, 0, 0, 0], fun _ _ msg => msg⟩

/-- COUNT 2 overtakes COUNT 1 in the crypto executor, COUNT 0 is lost -/
def overtaking : List Op :=
  [.handlePdu [0x80, 1, 11] ⟨true, true⟩, .handlePdu [0x80, 2, 12] ⟨true, true⟩,
    .applySecurity 1 ⟨true, true, true, true⟩, .applySecurity 0 ⟨true, true, true, true⟩, .runUeTask 0, .runUeTask 0] ++
    replicate 10 .tick ++ [.reorderingTimerExpiry]

theorem overtaking_keeps : ∀ op ∈ overtaking, op.KeepsCount sampleSetup := by
  intro op hop
  simp only [overtaking, mem_append, mem_cons, mem_replicate, not_mem_nil, or_false] at hop
  rcases hop with ((rfl | rfl | rfl | rfl | rfl | rfl) | ⟨-, rfl⟩) | rfl <;> exact trivial

theorem receive_order_overtaking :
    let s := Machine.run (step sampleSetup) ((init sampleSetup).setCount sampleSetup 0 0) overtaking
    s.delivered.Pairwise (· < ·) ∧ s.delivered = [1, 2] :=
  ⟨(receive_order sampleSetup rfl rfl 0 0 overtaking overtaking_keeps).1, by decide +kernel⟩

/-! ## State variables in every configuration -/

/-- RX_DELIV and RX_REORD never pass RX_NEXT, with or without header compression and out-of-order delivery -/
structure StateOrdered (s : PdcpEntityRx δ) : Prop where
  deliv : s.st.rxDeliv ≤ s.st.rxNext
  reord : s.st.rxReord ≤ s.st.rxNext

theorem deliverSdu_st (setup : PdcpRxSetup δ) (s : PdcpEntityRx δ) (info : PdcpRxSduInfo) :
    (s.deliverSdu setup info).st = s.st := by
  unfold deliverSdu applyHeaderDecompression
  cases s.rohcDecomp with
  | none => rfl
  | some decomp =>
    dsimp only
    split_ifs <;> rfl

namespace StateOrdered

section

variable (h : StateOrdered s)
include h

theorem congr (hst : s'.st = s.st) : StateOrdered s' :=
  ⟨by rw [hst]; exact h.deliv, by rw [hst]; exact h.reord⟩

theorem advanceLoop (stopOnGap : Bool) (k : ℕ) (hk : s.st.rxDeliv + k ≤ s.st.rxNext) :
    StateOrdered (s.advanceLoop setup stopOnGap k) := by
  induction k generalizing s with
  | zero => exact h
  | succ k ih =>
    have hpass : ∀ s1 : PdcpEntityRx δ, s1.st = s.st → StateOrdered (s1.passCount.advanceLoop setup stopOnGap k) := by
      intro s1 heq
      have hlt : s1.st.rxDeliv + 1 + k ≤ s1.st.rxNext := by rw [heq]; omega
      exact ih ⟨show s1.st.rxDeliv + 1 ≤ s1.st.rxNext by omega, (h.congr heq).reord⟩ hlt
    rw [advanceLoop]
    cases s.rxWindow.find? s.st.rxDeliv with
    | some info =>
      dsimp only
      split_ifs
      · exact hpass s rfl
      · exact hpass _ (deliverSdu_st setup s info)
    | none =>
      split_ifs
      · exact h
      · exact hpass s rfl

theorem advanceRxWindow {stopCount : ℕ} (stopOnGap : Bool) (hstop : stopCount ≤ s.st.rxNext) :
    StateOrdered (s.advanceRxWindow setup stopCount stopOnGap) := by
  have hle := h.deliv
  unfold PdcpEntityRx.advanceRxWindow
  rw [if_pos hstop]
  exact h.advanceLoop stopOnGap _ (by omega)

theorem startReordering : StateOrdered (s.startReordering setup) := by
  unfold PdcpEntityRx.startReordering runReorderingTimer
  cases setup.cfg.tReordering.toMs with
  | none => exact ⟨h.deliv, le_rfl⟩
  | some duration => exact ⟨h.deliv, le_rfl⟩

theorem handleTReorderingExpire : StateOrdered (s.handleTReorderingExpire setup) := by
  have h1 : StateOrdered (s.advanceRxWindow setup s.st.rxReord false) := h.advanceRxWindow false h.reord
  unfold PdcpEntityRx.handleTReorderingExpire
  dsimp only
  generalize s.advanceRxWindow setup s.st.rxReord false = s1 at h1
  have h2 : StateOrdered (s1.advanceRxWindow setup s1.st.rxNext true) := h1.advanceRxWindow true le_rfl
  split_ifs
  · exact h2
  · exact h2.startReordering
  · exact h2

theorem handleReorderingTimers : StateOrdered (s.handleReorderingTimers setup) := by
  have hstop : StateOrdered (if s.reorderingTimer.running = true ∧ s.st.rxDeliv ≥ s.st.rxReord then
      { s with reorderingTimer := s.reorderingTimer.stop } else s) := by
    split_ifs
    · exact h.congr rfl
    · exact h
  unfold PdcpEntityRx.handleReorderingTimers
  dsimp only
  generalize (if s.reorderingTimer.running = true ∧ s.st.rxDeliv ≥ s.st.rxReord then
      { s with reorderingTimer := s.reorderingTimer.stop } else s) = s1 at hstop ⊢
  split_ifs
  · exact hstop
  · exact StateOrdered.handleTReorderingExpire ⟨hstop.deliv, le_rfl⟩
  · exact hstop.startReordering
  · exact hstop

theorem acceptPdu {info : PdcpRxPduInfo} (hge : s.st.rxDeliv ≤ info.count) :
    StateOrdered (s.acceptPdu setup info) := by
  have h1 : StateOrdered ((s.addSn info).updateRxNext info.count) := by
    unfold updateRxNext
    split_ifs with hnext
    · exact ⟨hge.trans (Nat.le_succ _), (h.reord.trans hnext).trans (Nat.le_succ _)⟩
    · exact h.congr rfl
  have h2 : ∀ s1 : PdcpEntityRx δ, StateOrdered s1 → StateOrdered
      (if setup.cfg.outOfOrderDelivery = true then s1.deliverOutOfOrder setup info else s1) := by
    intro s1 h1
    split_ifs
    · exact h1.congr (deliverSdu_st setup s1 _)
    · exact h1
  have h3 := h2 _ h1
  unfold PdcpEntityRx.acceptPdu
  dsimp only
  generalize (if setup.cfg.outOfOrderDelivery = true then
    ((s.addSn info).updateRxNext info.count).deliverOutOfOrder setup info
    else (s.addSn info).updateRxNext info.count) = s1 at h3 ⊢
  apply handleReorderingTimers
  split_ifs
  · exact h3.advanceRxWindow true le_rfl
  · exact h3

theorem applyReordering (info : PdcpRxPduInfo) : StateOrdered (s.applyReordering setup info) := by
  unfold PdcpEntityRx.applyReordering
  split_ifs with hlt
  · exact h
  · cases s.rxWindow.find? info.count with
    | some sdu =>
      dsimp only
      split_ifs
      · exact h
      · have h1 : StateOrdered { s with rxWindow := s.rxWindow.erase info.count } := h.congr rfl
        exact h1.acceptPdu (not_lt.1 hlt)
    | none => exact h.acceptPdu (not_lt.1 hlt)

theorem reestablish (secCfg : Sec128AsConfig) : StateOrdered (s.reestablish setup secCfg) := by
  have hinit : ∀ s1 : PdcpEntityRx δ, (s1.initHeaderDecompression setup).st = s1.st := by
    intro s1
    unfold initHeaderDecompression
    split_ifs <;> rfl
  unfold PdcpEntityRx.reestablish
  refine StateOrdered.congr ?_ (configureSecurity_same _ _ _ _).st
  by_cases hr : setup.cfg.rbType = .srb ∨ setup.cfg.rlcMode = .um
  · rw [if_pos hr]
    exact ⟨le_rfl, le_rfl⟩
  · obtain ⟨hdrb, ham⟩ := not_or.1 hr
    rw [if_neg hr, if_neg hdrb, if_neg ham, if_neg hr]
    exact h.congr (hinit s)

theorem step (op : Op) : StateOrdered (s.step setup op) := by
  cases op with
  | handlePdu buf env => exact h.congr (handlePdu_same s buf env).st
  | applySecurity idx env =>
    rw [PdcpEntityRx.step]
    cases s.cryptoTasks[idx]? with
    | none => exact h
    | some info => exact StateOrdered.congr h (applySecurity_same _ info env).st
  | runUeTask idx =>
    rw [PdcpEntityRx.step]
    cases s.ueTasks[idx]? with
    | none => exact h
    | some task =>
      have h1 : StateOrdered { s with ueTasks := s.ueTasks.eraseIdx idx } := h.congr rfl
      cases task with
      | applyReordering info => exact h1.applyReordering info
      | handleFailure status count => exact h1.congr (handleFailure_same _ status).st
  | configureSecurity secCfg integrity ciphering => exact h.congr (configureSecurity_same s _ _ _).st
  | reestablish secCfg => exact h.reestablish secCfg
  | beginBuffering => exact h.congr rfl
  | endBuffering env => exact h.congr (endBuffering_same s env).st
  | suspend =>
    rw [PdcpEntityRx.step, PdcpEntityRx.suspend]
    split_ifs
    · exact h
    · exact h
    · exact ⟨le_rfl, le_rfl⟩
  | resume => exact h.congr (resume_same s).st
  | stop =>
    rw [PdcpEntityRx.step, PdcpEntityRx.stop]
    split_ifs
    · exact h
    · exact h.congr rfl
  | setCount hfn sn => exact ⟨le_rfl, le_rfl⟩
  | tick => exact h.congr rfl
  | reorderingTimerExpiry =>
    rw [PdcpEntityRx.step]
    split_ifs
    · have h1 : StateOrdered { s with reorderingTimer := s.reorderingTimer.stop } := h.congr rfl
      unfold reorderingCallback
      split_ifs
      · exact h1
      · exact h1.handleTReorderingExpire
    · exact h

end

theorem init : StateOrdered (init setup) := by
  unfold PdcpEntityRx.init initHeaderDecompression
  split_ifs <;> exact ⟨le_rfl, le_rfl⟩

/-- in every state of every run -/
theorem run (ops : List Op) : StateOrdered (run (PdcpEntityRx.step setup) (PdcpEntityRx.init setup) ops) :=
  run_inv_all (fun _ op h => h.step op) _ ops init

end StateOrdered

end OcuduRan.Pdcp.PdcpEntityRx
