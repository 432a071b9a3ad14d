/-
What a STATUS PDU does to the transmitter.

A STATUS PDU is either ignored or processed. Processing moves TX_Next_Ack up to the first NACK, or to ACK_SN if there is
none, and takes the SDUs passed out of the window (`ackLoop_spec`); it then rebuilds the RETX queue, which changes the
retransmission counts only (`SameCore`) and leaves retransmissions that come from the NACKs (`RetxOf`).
-/
import OcuduRan.Rlc.AmTxPull

namespace OcuduRan.Rlc

open ModWindow RlcTxAmSduInfo List Nat CircularMap

/-- SDU and segmentation progress of a window element -/
def RlcTxAmSduInfo.core (info : RlcTxAmSduInfo) : Bytes × ℕ := (info.sdu, info.nextSo)

namespace RlcTxAmEntity

variable {cfg : RlcTxAmConfig} {s s' : RlcTxAmEntity} {A N X i : ℕ}

/-! ## Acknowledgements -/

/-- the PDCP SN is one of those the ACK loop reports -/
def MaxDeliv.Names (d : MaxDeliv) (pdcpSn : ℕ) : Prop := d.pdcpSn = some pdcpSn ∨ d.retxPdcpSn = some pdcpSn

theorem MaxDeliv.names_add {d : MaxDeliv} {info : RlcTxAmSduInfo} {pdcpSn : ℕ} (h : (d.add info).Names pdcpSn) :
    d.Names pdcpSn ∨ info.pdcpSn = some pdcpSn := by
  unfold MaxDeliv.add at h
  split_ifs at h
  · rcases h with h | h
    · exact .inl (.inl h)
    · exact .inr h
  · rcases h with h | h
    · exact .inr h
    · exact .inl (.inr h)
  · exact .inl h

/-- the indices [A, A') have left the window, and nothing else has changed -/
structure Cleared (cfg : RlcTxAmConfig) (A A' : ℕ) (s s' : RlcTxAmEntity) : Prop where
  next : s'.st.txNext = s.st.txNext
  seg : s'.snUnderSegmentation = s.snUnderSegmentation
  retx : s'.retxQueue = s.retxQueue
  sdus : s'.sduQueue = s.sduQueue
  faults : s'.faults = s.faults
  events : s'.events = s.events
  kept : ∀ i, A' ≤ i → i < A + cfg.snFieldLength.mod → infoAt cfg s' i = infoAt cfg s i

theorem Cleared.refl (cfg : RlcTxAmConfig) (A : ℕ) (s : RlcTxAmEntity) : Cleared cfg A A s s :=
  ⟨rfl, rfl, rfl, rfl, rfl, rfl, fun _ _ _ => rfl⟩

/-- the SDU of TX_Next_Ack leaves the window -/
theorem Window.ackOne {s' : RlcTxAmEntity} (h : Window cfg A N s) (hAN : A < N) (hs' : s' = { s with
      txWindow := s.txWindow.erase (A % cfg.snFieldLength.mod)
      st := { s.st with txNextAck := (A % cfg.snFieldLength.mod + 1) % cfg.snFieldLength.mod } }) :
    Window cfg (A + 1) N s' ∧ Cleared cfg A (A + 1) s s' := by
  have h0 := mod_eq cfg.snFieldLength
  have hroom := h.room
  subst hs'
  constructor
  · refine ⟨h.cap, mod_add_mod _ _ _, h.next, hAN, h.seg, le_trans hroom (by omega), fun sn => ?_⟩
    show sn ∈ (s.txWindow.erase (A % cfg.snFieldLength.mod)).keys ↔ ∃ i, A + 1 ≤ i ∧ i < s.top N ∧ _
    rw [keys_erase, Finset.mem_erase, h.keys]
    constructor
    · rintro ⟨hne, i, hi, hit, rfl⟩
      refine ⟨i, lt_of_le_of_ne hi fun heq => hne (by rw [heq]), hit, rfl⟩
    · rintro ⟨i, hi, hit, rfl⟩
      refine ⟨fun heq => ?_, i, by omega, hit, rfl⟩
      have := eq_of_mod_eq heq (by omega) (by omega)
      omega
  · refine ⟨rfl, rfl, rfl, rfl, rfl, rfl, fun i hi hi' => ?_⟩
    unfold infoAt
    rw [find?_erase, if_neg]
    intro heq
    have := eq_of_mod_eq heq (by omega) (by omega)
    omega

/-- the ACK loop takes the SDUs up to the stop index out of the window; TX_Next itself stays -/
theorem ackLoop_spec {stopSn fuel : ℕ} {d : MaxDeliv} (h : Window cfg A N s) (hAX : A ≤ X) (hXN : X ≤ N + 1)
    (hseg : s.snUnderSegmentation ≠ invalidRlcSn → X ≤ N) (hfuel : X - A ≤ fuel)
    (hstop : stopSn % cfg.snFieldLength.mod = X % cfg.snFieldLength.mod) :
    let r := ackLoop cfg stopSn fuel (A % cfg.snFieldLength.mod) (s, d)
    Window cfg (min X N) N r.1 ∧ Cleared cfg A (min X N) s r.1 ∧
      ∀ pdcpSn, r.2.Names pdcpSn → d.Names pdcpSn ∨
        ∃ i info, A ≤ i ∧ i < min X N ∧ infoAt cfg s i = some info ∧ info.pdcpSn = some pdcpSn := by
  obtain ⟨h0, hwin⟩ := sizes cfg.snFieldLength
  induction fuel generalizing A s d with
  | zero =>
    have hle := h.le
    have hX : min X N = A := by omega
    rw [hX]
    exact ⟨h, Cleared.refl cfg A s, fun _ hn => .inl hn⟩
  | succ fuel ih =>
    have hle := h.le
    have hroom := h.room
    have htop := le_top s N
    have hbase : s.txModBase cfg (A % cfg.snFieldLength.mod) = A - A :=
      h.txModBase (mod_mod _ _) le_rfl (by omega)
    have hbase' : s.txModBase cfg stopSn = X - A := h.txModBase hstop hAX (by omega)
    unfold ackLoop
    rw [hbase, hbase']
    by_cases hlt : A - A < X - A
    · rw [if_pos hlt]
      cases hfind : s.txWindow.find? (A % cfg.snFieldLength.mod) with
      | none =>
        -- TX_Next is reached and not in the window
        have hA : ¬ A < s.top N := by
          intro hAt
          obtain ⟨info, hinfo⟩ := (h.exists_infoAt_iff le_rfl (by omega)).2 hAt
          rw [infoAt, hfind] at hinfo
          cases hinfo
        have hX : min X N = A := by omega
        rw [hX]
        exact ⟨h, Cleared.refl cfg A s, fun _ hn => .inl hn⟩
      | some info =>
        have hAt : A < s.top N := (h.exists_infoAt_iff le_rfl (by omega)).1 ⟨info, hfind⟩
        have hAN : A < N := by
          by_cases hidle : s.snUnderSegmentation = invalidRlcSn
          · rwa [top_of_idle hidle] at hAt
          · have := hseg hidle
            omega
        obtain ⟨hw, hc⟩ := h.ackOne hAN rfl
        dsimp only
        rw [show (A % cfg.snFieldLength.mod + 1) % cfg.snFieldLength.mod = (A + 1) % cfg.snFieldLength.mod from
          mod_add_mod _ _ _] at hw hc ⊢
        generalize ({ s with
          txWindow := s.txWindow.erase (A % cfg.snFieldLength.mod)
          st := { s.st with txNextAck := (A + 1) % cfg.snFieldLength.mod } } : RlcTxAmEntity) = s₁ at hw hc ⊢
        obtain ⟨hw', hc', hn'⟩ := @ih s₁ (A + 1) (d.add info) hw (by omega) (by rw [hc.seg]; exact hseg) (by omega)
        refine ⟨hw', ⟨hc'.next.trans hc.next, hc'.seg.trans hc.seg, hc'.retx.trans hc.retx, hc'.sdus.trans hc.sdus,
          hc'.faults.trans hc.faults, hc'.events.trans hc.events, fun i hi hi' => ?_⟩, fun pdcpSn hn => ?_⟩
        · rw [hc'.kept i hi (by omega), hc.kept i (by omega) hi']
        · rcases hn' pdcpSn hn with hd | ⟨i, v, hi, hi', hv, hsn⟩
          · rcases MaxDeliv.names_add hd with hd | hsn
            · exact .inl hd
            · exact .inr ⟨A, info, le_rfl, by omega, hfind, hsn⟩
          · rw [hc.kept i hi (by omega)] at hv
            exact .inr ⟨i, v, by omega, hi', hv, hsn⟩
    · rw [if_neg hlt]
      have hX : min X N = A := by omega
      rw [hX]
      exact ⟨h, Cleared.refl cfg A s, fun _ hn => .inl hn⟩

/-! ## Changes of retransmission counts -/

/-- the window is the same up to retransmission counts -/
structure SameCore (s s' : RlcTxAmEntity) : Prop where
  ack : s'.st.txNextAck = s.st.txNextAck
  next : s'.st.txNext = s.st.txNext
  seg : s'.snUnderSegmentation = s.snUnderSegmentation
  cap : s'.txWindow.cap = s.txWindow.cap
  find : ∀ sn, (s'.txWindow.find? sn).map core = (s.txWindow.find? sn).map core
  faults : ∀ f ∈ s'.faults, f ∈ s.faults ∨ ∃ sn, f = .snMissing sn
  events : NoDelivery s s'

theorem SameWindow.sameCore (h : SameWindow s s') : SameCore s s' :=
  ⟨h.ack, h.next, h.seg, h.cap, fun sn => by rw [h.find], fun f hf => .inl (h.faults ▸ hf), h.events⟩

theorem SameCore.refl (s : RlcTxAmEntity) : SameCore s s := (SameWindow.refl s).sameCore

theorem SameCore.trans {s₁ s₂ s₃ : RlcTxAmEntity} (h : SameCore s₁ s₂) (h' : SameCore s₂ s₃) : SameCore s₁ s₃ := by
  refine ⟨h'.ack.trans h.ack, h'.next.trans h.next, h'.seg.trans h.seg, h'.cap.trans h.cap,
    fun sn => (h'.find sn).trans (h.find sn), fun f hf => ?_, h.events.trans h'.events⟩
  rcases h'.faults f hf with hf | hf
  · exact h.faults f hf
  · exact .inr hf

theorem SameCore.top (h : SameCore s s') : s'.top N = s.top N := by
  unfold RlcTxAmEntity.top
  rw [h.seg]

theorem SameCore.window (h : SameCore s s') (hw : Window cfg A N s) : Window cfg A N s' := by
  refine ⟨h.cap.trans hw.cap, h.ack.trans hw.ack, h.next.trans hw.next, hw.le, ?_, ?_, fun sn => ?_⟩
  · rw [h.seg]
    exact hw.seg
  · rw [h.top]
    exact hw.room
  · have hiff : sn ∈ s'.txWindow.keys ↔ sn ∈ s.txWindow.keys := by
      rw [← not_iff_not, CircularMap.notMem_keys, CircularMap.notMem_keys, ← Option.map_eq_none_iff, h.find,
        Option.map_eq_none_iff]
    rw [hiff, h.top]
    exact hw.keys sn

/-- an SDU of the window before, with its progress -/
theorem exists_of_core {o o' : Option RlcTxAmSduInfo} {info : RlcTxAmSduInfo}
    (h : o'.map core = o.map core) (ho : o' = some info) :
    ∃ info₀, o = some info₀ ∧ info₀.sdu = info.sdu ∧ info₀.nextSo = info.nextSo := by
  rw [ho, Option.map_some, eq_comm, Option.map_eq_some_iff] at h
  obtain ⟨info₀, h₀, heq⟩ := h
  exact ⟨info₀, h₀, congrArg Prod.fst heq, congrArg Prod.snd heq⟩

theorem core_modify {m : CircularMap RlcTxAmSduInfo} {k : ℕ} {f : RlcTxAmSduInfo → RlcTxAmSduInfo}
    (hf : ∀ info, (f info).core = info.core) (sn : ℕ) :
    ((m.modify k f).find? sn).map core = (m.find? sn).map core := by
  rw [find?_modify]
  split_ifs with hk
  · rw [hk, Option.map_map]
    exact congrArg (fun g => Option.map g (m.find? k)) (funext hf)
  · rfl

/-- the polling state is unchanged -/
structure SamePolling (s s' : RlcTxAmEntity) : Prop where
  pollSn : s'.st.pollSn = s.st.pollSn
  pdus : s'.st.pduWithoutPoll = s.st.pduWithoutPoll
  bytes : s'.st.byteWithoutPoll = s.st.byteWithoutPoll
  timer : s'.pollRetransmitTimer = s.pollRetransmitTimer
  stopped : s'.stoppedLower = s.stoppedLower

variable (s)

theorem SamePolling.refl : SamePolling s s := ⟨rfl, rfl, rfl, rfl, rfl⟩

theorem SamePolling.trans {s₁ s₂ s₃ : RlcTxAmEntity} (h : SamePolling s₁ s₂) (h' : SamePolling s₂ s₃) :
    SamePolling s₁ s₃ :=
  ⟨h'.pollSn.trans h.pollSn, h'.pdus.trans h.pdus, h'.bytes.trans h.bytes, h'.timer.trans h.timer,
    h'.stopped.trans h.stopped⟩

theorem incrementRetxCount_polling (sn : ℕ) : SamePolling s (s.incrementRetxCount cfg sn) := by
  unfold incrementRetxCount
  cases s.txWindow.find? sn with
  | none => exact ⟨rfl, rfl, rfl, rfl, rfl⟩
  | some info =>
    dsimp only
    split_ifs <;> exact ⟨rfl, rfl, rfl, rfl, rfl⟩

theorem decrementRetxCount_same (sn : ℕ) : SameCore s (s.decrementRetxCount sn) := by
  refine ⟨rfl, rfl, rfl, rfl, core_modify fun info => ?_, fun f hf => .inl hf, NoDelivery.of_eq rfl⟩
  split_ifs <;> rfl

theorem incrementRetxCount_same (sn : ℕ) :
    SameCore s (s.incrementRetxCount cfg sn) ∧ (s.incrementRetxCount cfg sn).retxQueue = s.retxQueue ∧
      (s.incrementRetxCount cfg sn).sduQueue = s.sduQueue := by
  unfold incrementRetxCount
  cases s.txWindow.find? sn with
  | none =>
    refine ⟨⟨rfl, rfl, rfl, rfl, fun _ => rfl, fun f hf => ?_, NoDelivery.of_eq rfl⟩, rfl, rfl⟩
    rcases mem_append.1 hf with hold | hnew
    · exact .inl hold
    · exact .inr ⟨sn, mem_singleton.1 hnew⟩
  | some info =>
    dsimp only
    generalize (if info.retxCount = retxCountNotStarted then 0 else info.retxCount + 1) = count
    split_ifs
    · exact ⟨⟨rfl, rfl, rfl, rfl, core_modify fun _ => rfl, fun f hf => .inl hf,
        NoDelivery.append [.maxRetx] rfl (by simp [TxEvent.deliveredSn])⟩, rfl, rfl⟩
    · exact ⟨⟨rfl, rfl, rfl, rfl, core_modify fun _ => rfl, fun f hf => .inl hf, NoDelivery.of_eq rfl⟩, rfl, rfl⟩

variable {s} {status : RlcAmStatusPdu}

/-- the old retransmissions are dropped -/
theorem clearRetx_spec (fuel : ℕ) (s : RlcTxAmEntity) (hfuel : s.retxQueue.queue.length ≤ fuel) :
    SameCore s (clearRetx fuel s) ∧ SamePolling s (clearRetx fuel s) ∧ (clearRetx fuel s).retxQueue.queue = [] ∧
      (clearRetx fuel s).retxQueue.capacity = s.retxQueue.capacity ∧ (clearRetx fuel s).sduQueue = s.sduQueue := by
  induction fuel generalizing s with
  | zero =>
    exact ⟨SameWindow.sameCore (.of_eq rfl), ⟨rfl, rfl, rfl, rfl, rfl⟩, length_eq_zero_iff.1 (le_zero.1 hfuel),
      rfl, rfl⟩
  | succ fuel ih =>
    unfold clearRetx
    cases hq : s.retxQueue.queue with
    | nil =>
      exact ⟨SameWindow.sameCore (.of_eq rfl), ⟨rfl, rfl, rfl, rfl, rfl⟩, hq, rfl, rfl⟩
    | cons r rest =>
      dsimp only
      -- rewinding a count keeps the queue
      have hstep : ∀ s₁, (if s.retxSn ≠ r.sn then
          { (if s.txWindow.contains r.sn then s.decrementRetxCount r.sn else s) with retxSn := r.sn } else s) = s₁ →
          SameCore s s₁ ∧ SamePolling s s₁ ∧ s₁.retxQueue = s.retxQueue ∧ s₁.sduQueue = s.sduQueue := by
        rintro s₁ rfl
        have hd := decrementRetxCount_same s r.sn
        split_ifs
        · exact ⟨{ hd with }, ⟨rfl, rfl, rfl, rfl, rfl⟩, rfl, rfl⟩
        · exact ⟨SameWindow.sameCore (.of_eq rfl), ⟨rfl, rfl, rfl, rfl, rfl⟩, rfl, rfl⟩
        · exact ⟨SameCore.refl s, SamePolling.refl s, rfl, rfl⟩
      generalize (if s.retxSn ≠ r.sn then _ else s) = s₁ at hstep ⊢
      obtain ⟨hs₁, hp₁, hq₁, hsdu₁⟩ := hstep s₁ rfl
      have hlen : ({ s₁ with retxQueue := s₁.retxQueue.pop } : RlcTxAmEntity).retxQueue.queue.length ≤ fuel := by
        show s₁.retxQueue.pop.queue.length ≤ fuel
        rw [RlcRetxQueue.pop_queue, hq₁, hq, tail_cons]
        rw [hq, length_cons] at hfuel
        omega
      obtain ⟨hs₂, hp₂, hq₂, hcap₂, hsdu₂⟩ := ih _ hlen
      refine ⟨hs₁.trans ⟨hs₂.ack, hs₂.next, hs₂.seg, hs₂.cap, hs₂.find, hs₂.faults, hs₂.events⟩,
        hp₁.trans ⟨hp₂.pollSn, hp₂.pdus, hp₂.bytes, hp₂.timer, hp₂.stopped⟩, hq₂, ?_, hsdu₂.trans hsdu₁⟩
      rw [hcap₂]
      show s₁.retxQueue.pop.capacity = _
      rw [RlcRetxQueue.pop_capacity, hq₁]

/-! ## NACKs -/

theorem SameCore.sized (h : SameCore s s') (hz : SizedWindow s) : SizedWindow s' := by
  intro sn info hf
  obtain ⟨info₀, hf₀, hsdu, -⟩ := exists_of_core (h.find sn) hf
  rw [← hsdu]
  exact hz sn info₀ hf₀

/-- the retransmission a NACK of a single SN asks for -/
def RetxOf (s : RlcTxAmEntity) (nack : RlcAmStatusNack) (r : RlcTxAmdRetx) : Prop :=
  ∃ info offsets, s.txWindow.find? nack.nackSn = some info ∧ s.nackOffsets info nack = some offsets ∧
    r.sn = nack.nackSn ∧ 0 < r.length ∧ r.so = (sanitizeOffsets info.sdu.length offsets.1 offsets.2).1 ∧
    r.so + r.length = (sanitizeOffsets info.sdu.length offsets.1 offsets.2).2.1 + 1

/-- offsets are ordered and in the SDU after the checks -/
theorem sanitizeOffsets_spec {len : ℕ} (hpos : 0 < len) (hlen : len ≤ 2 ^ 16) (soStart soEnd : ℕ) :
    (sanitizeOffsets len soStart soEnd).1 ≤ (sanitizeOffsets len soStart soEnd).2.1 ∧
      (sanitizeOffsets len soStart soEnd).2.1 < len := by
  have hlast : sub32 len 1 % 2 ^ 16 = len - 1 := by
    unfold sub32
    omega
  unfold sanitizeOffsets
  rw [hlast]
  dsimp only
  constructor
  · split_ifs <;> dsimp only at * <;> omega
  · split_ifs <;> dsimp only at * <;> omega

theorem sanitizeOffsets_events (len soStart soEnd : ℕ) :
    ∀ e ∈ (sanitizeOffsets len soStart soEnd).2.2, e.deliveredSn = none := by
  unfold sanitizeOffsets
  dsimp only
  split_ifs <;> simp [TxEvent.deliveredSn]

theorem nackOffsets_congr {info info₀ : RlcTxAmSduInfo} {nack : RlcAmStatusNack}
    (hseg : s'.snUnderSegmentation = s.snUnderSegmentation) (hsdu : info₀.sdu = info.sdu)
    (hso : info₀.nextSo = info.nextSo) : s.nackOffsets info₀ nack = s'.nackOffsets info nack := by
  unfold nackOffsets
  rw [hseg, hsdu, hso]

theorem RetxOf.congr {nack : RlcAmStatusNack} {r : RlcTxAmdRetx}
    (hseg : s'.snUnderSegmentation = s.snUnderSegmentation)
    (hfind : ∀ sn, (s'.txWindow.find? sn).map core = (s.txWindow.find? sn).map core)
    (h : RetxOf s' nack r) : RetxOf s nack r := by
  obtain ⟨info, offsets, hf, hoff, hrest⟩ := h
  obtain ⟨info₀, hf₀, hsdu, hso⟩ := exists_of_core (hfind _) hf
  refine ⟨info₀, offsets, hf₀, ?_, ?_⟩
  · rw [nackOffsets_congr hseg hsdu hso]
    exact hoff
  · rw [hsdu]
    exact hrest

theorem handleNack_spec (nack : RlcAmStatusNack) (hz : SizedWindow s) :
    SameCore s (s.handleNack cfg nack).1 ∧ SamePolling s (s.handleNack cfg nack).1 ∧
      (s.handleNack cfg nack).1.sduQueue = s.sduQueue ∧
      ∀ r ∈ (s.handleNack cfg nack).1.retxQueue.queue, r ∈ s.retxQueue.queue ∨ RetxOf s nack r := by
  have hsame : SameCore s s ∧ SamePolling s s ∧ s.sduQueue = s.sduQueue ∧
      ∀ r ∈ s.retxQueue.queue, r ∈ s.retxQueue.queue ∨ RetxOf s nack r :=
    ⟨SameCore.refl s, SamePolling.refl s, rfl, fun _ hr => .inl hr⟩
  unfold handleNack
  split_ifs
  · exact hsame
  · exact hsame
  · cases hf : s.txWindow.find? nack.nackSn with
    | none =>
      refine ⟨⟨rfl, rfl, rfl, rfl, fun _ => rfl, fun f hf => ?_, NoDelivery.of_eq rfl⟩, ⟨rfl, rfl, rfl, rfl, rfl⟩, rfl,
        fun _ hr => .inl hr⟩
      rcases mem_append.1 hf with hold | hnew
      · exact .inl hold
      · exact .inr ⟨nack.nackSn, mem_singleton.1 hnew⟩
    | some info =>
      dsimp only
      cases hoff : s.nackOffsets info nack with
      | none => exact hsame
      | some offsets =>
        obtain ⟨soStart, soEnd⟩ := offsets
        obtain ⟨hpos, hlen⟩ := hz _ _ hf
        obtain ⟨hle, -⟩ := sanitizeOffsets_spec hpos hlen soStart soEnd
        have hev := sanitizeOffsets_events info.sdu.length soStart soEnd
        refine ⟨⟨rfl, rfl, rfl, rfl, fun _ => rfl, fun f hf => .inl hf, NoDelivery.append _ rfl hev⟩,
          ⟨rfl, rfl, rfl, rfl, rfl⟩, rfl, fun r hr => ?_⟩
        rw [RlcRetxQueue.tryPush_queue] at hr
        split_ifs at hr
        · exact .inl hr
        · rcases mem_append.1 hr with hold | hnew
          · exact .inl hold
          · rw [mem_singleton.1 hnew]
            exact .inr ⟨info, (soStart, soEnd), hf, hoff, rfl, Nat.sub_pos_of_lt (Nat.lt_succ_of_le hle), rfl,
              Nat.add_sub_cancel' (Nat.le_succ_of_le hle)⟩

theorem processNack_spec (acc : RlcTxAmEntity × ℕ) (nack : RlcAmStatusNack) (hz : SizedWindow acc.1) :
    SameCore acc.1 (processNack cfg acc nack).1 ∧ SamePolling acc.1 (processNack cfg acc nack).1 ∧
      (processNack cfg acc nack).1.sduQueue = acc.1.sduQueue ∧
      ∀ r ∈ (processNack cfg acc nack).1.retxQueue.queue, r ∈ acc.1.retxQueue.queue ∨ RetxOf acc.1 nack r := by
  obtain ⟨s, prevRetxSn⟩ := acc
  have h := @handleNack_spec cfg s nack hz
  unfold processNack
  dsimp only
  generalize s.handleNack cfg nack = out at h ⊢
  obtain ⟨s₁, pushed⟩ := out
  cases pushed with
  | false => exact h
  | true =>
    split_ifs
    · obtain ⟨hs₂, hq₂, hsdu₂⟩ := @incrementRetxCount_same cfg s₁ nack.nackSn
      refine ⟨h.1.trans hs₂, h.2.1.trans (incrementRetxCount_polling s₁ _), hsdu₂.trans h.2.2.1, ?_⟩
      rw [hq₂]
      exact h.2.2.2
    · exact h

/-- the new RETX queue comes from the NACKs -/
theorem foldl_processNack_spec (nacks : List RlcAmStatusNack) (acc : RlcTxAmEntity × ℕ) (hz : SizedWindow acc.1) :
    SameCore acc.1 (nacks.foldl (processNack cfg) acc).1 ∧ SamePolling acc.1 (nacks.foldl (processNack cfg) acc).1 ∧
      (nacks.foldl (processNack cfg) acc).1.sduQueue = acc.1.sduQueue ∧
      ∀ r ∈ (nacks.foldl (processNack cfg) acc).1.retxQueue.queue,
        r ∈ acc.1.retxQueue.queue ∨ ∃ nack ∈ nacks, RetxOf acc.1 nack r := by
  induction nacks generalizing acc with
  | nil => exact ⟨SameCore.refl _, SamePolling.refl _, rfl, fun _ hr => .inl hr⟩
  | cons nack nacks ih =>
    obtain ⟨hs, hp, hsdu, hq⟩ := @processNack_spec cfg acc nack hz
    obtain ⟨hs', hp', hsdu', hq'⟩ := ih (processNack cfg acc nack) (hs.sized hz)
    rw [foldl_cons]
    refine ⟨hs.trans hs', hp.trans hp', hsdu'.trans hsdu, fun r hr => ?_⟩
    rcases hq' r hr with hold | ⟨nack', hmem, hof⟩
    · rcases hq r hold with hold | hof
      · exact .inl hold
      · exact .inr ⟨nack, mem_cons_self, hof⟩
    · exact .inr ⟨nack', mem_cons_of_mem nack hmem, hof.congr hs.seg hs.find⟩

/-! ## The whole STATUS PDU -/

theorem getBufferState_spec (s : RlcTxAmEntity) (statusLen : Option ℕ) :
    SameWindow s (s.getBufferState cfg statusLen).1 ∧
      (s.getBufferState cfg statusLen).1.retxQueue.queue ⊆ s.retxQueue.queue ∧
      (s.getBufferState cfg statusLen).1.sduQueue.bufs.Sublist s.sduQueue.bufs := by
  unfold getBufferState
  dsimp only
  have hfront : s.sduQueue.front.2.bufs.Sublist s.sduQueue.bufs := by
    exact (dropWhile_sublist _).map _
  split_ifs
  · obtain ⟨hs, hq, hsdu, -⟩ := dropMissingRetx_spec s
    exact ⟨hs, hq, by rw [hsdu]⟩
  · obtain ⟨hs, hq, hsdu, -⟩ := dropMissingRetx_spec { s with sduQueue := s.sduQueue.front.2 }
    refine ⟨{ hs with }, hq, ?_⟩
    rw [hsdu]
    exact hfront

/-- TX_Next_Ack has moved from A to A', and the RETX queue comes from the NACKs -/
structure Processed (cfg : RlcTxAmConfig) (A A' N : ℕ) (nacks : List RlcAmStatusNack) (s s' : RlcTxAmEntity) :
    Prop where
  window : Window cfg A' N s'
  le : A ≤ A'
  seg : s'.snUnderSegmentation = s.snUnderSegmentation
  kept : ∀ i, A' ≤ i → i < A + cfg.snFieldLength.mod →
    (infoAt cfg s' i).map core = (infoAt cfg s i).map core
  sdus : s'.sduQueue.bufs.Sublist s.sduQueue.bufs
  faults : ∀ f ∈ s'.faults, f ∈ s.faults ∨ ∃ sn, f = .snMissing sn
  retx : ∀ r ∈ s'.retxQueue.queue, ∃ nack ∈ nacks, RetxOf s' nack r
  events : ∀ e ∈ s'.events, ∀ pdcpSn, e.deliveredSn = some pdcpSn → e ∈ s.events ∨
    ∃ i info, A ≤ i ∧ i < A' ∧ infoAt cfg s i = some info ∧ info.pdcpSn = some pdcpSn

theorem emitDelivered_eq (s : RlcTxAmEntity) (d : MaxDeliv) :
    ∃ events, s.emitDelivered d = { s with events := s.events ++ events } ∧
      ∀ e ∈ events, ∀ pdcpSn, e.deliveredSn = some pdcpSn → d.Names pdcpSn := by
  obtain ⟨o, o'⟩ := d
  cases o with
  | none =>
    cases o' with
    | none => exact ⟨[], by simp [emitDelivered], by simp⟩
    | some sn' =>
      refine ⟨[.deliveredRetransmittedSdu sn'], rfl, fun e he pdcpSn hd => .inr ?_⟩
      rw [mem_singleton.1 he] at hd
      exact hd
  | some sn =>
    cases o' with
    | none =>
      refine ⟨[.deliveredSdu sn], rfl, fun e he pdcpSn hd => .inl ?_⟩
      rw [mem_singleton.1 he] at hd
      exact hd
    | some sn' =>
      refine ⟨[.deliveredSdu sn, .deliveredRetransmittedSdu sn'], by simp [emitDelivered, emit],
        fun e he pdcpSn hd => ?_⟩
      rcases mem_cons.1 he with rfl | he
      · exact .inl hd
      · rw [mem_singleton.1 he] at hd
        exact .inr hd

theorem processStatusPdu_spec (h : Window cfg A N s) (hz : SizedWindow s) (hAX : A ≤ X)
    (hXN : X ≤ N + 1) (hseg : s.snUnderSegmentation ≠ invalidRlcSn → X ≤ N)
    (hstop : stopSn status % cfg.snFieldLength.mod = X % cfg.snFieldLength.mod) :
    Processed cfg A (min X N) N (status.nacks.flatMap (expandNack cfg.snFieldLength status.ackSn)) s
      (s.processStatusPdu cfg status) := by
  obtain ⟨h0, hwin⟩ := sizes cfg.snFieldLength
  have hle := h.le
  have hroom := h.room
  have htop := le_top s N
  unfold processStatusPdu
  -- the timer
  have htimer : ∀ s₁, (if s.txModBase cfg s.st.pollSn < s.txModBase cfg status.ackSn then
      { s with pollRetransmitTimer := false } else s) = s₁ → SameWindow s s₁ ∧ s₁.sduQueue = s.sduQueue ∧
        s₁.events = s.events := by
    rintro s₁ rfl
    split_ifs
    · exact ⟨.of_eq rfl, rfl, rfl⟩
    · exact ⟨SameWindow.refl s, rfl, rfl⟩
  dsimp only
  generalize (if s.txModBase cfg s.st.pollSn < s.txModBase cfg status.ackSn then
      { s with pollRetransmitTimer := false } else s) = s₁ at htimer ⊢
  obtain ⟨hs₁, hsdu₁, hev₁⟩ := htimer s₁ rfl
  have hw₁ := h.congr hs₁
  -- the ACK loop
  rw [hw₁.ack]
  obtain ⟨hw₂, hc, hnames⟩ := @ackLoop_spec cfg s₁ A N X (stopSn status) cfg.snFieldLength.mod {} hw₁ hAX hXN
    (by rw [hs₁.seg]; exact hseg) (by omega) hstop
  generalize ackLoop cfg (stopSn status) cfg.snFieldLength.mod (A % cfg.snFieldLength.mod) (s₁, {}) =
    out at hw₂ hc hnames ⊢
  obtain ⟨s₂, d⟩ := out
  dsimp only at hw₂ hc hnames ⊢
  obtain ⟨events, hemit, hdeliv⟩ := emitDelivered_eq s₂ d
  rw [hemit]
  have hw₃ : Window cfg (min X N) N { s₂ with events := s₂.events ++ events } :=
    ⟨hw₂.cap, hw₂.ack, hw₂.next, hw₂.le, hw₂.seg, hw₂.room, hw₂.keys⟩
  have hz₃ : SizedWindow { s₂ with events := s₂.events ++ events } := by
    intro sn info hf
    obtain ⟨i, hi, hit, rfl⟩ := hw₃.exists_index hf
    have hkept := hc.kept i hi (by
      have := hw₃.room
      omega)
    rw [hs₁.infoAt] at hkept
    exact hz _ info (hkept.symm.trans hf)
  -- the old RETX queue, then the new one
  obtain ⟨hs₄, -, hq₄, -, hsdu₄⟩ := clearRetx_spec s₂.retxQueue.queue.length { s₂ with events := s₂.events ++ events }
    le_rfl
  generalize clearRetx s₂.retxQueue.queue.length { s₂ with events := s₂.events ++ events } = s₄ at hs₄ hq₄ hsdu₄ ⊢
  obtain ⟨hs₅, -, hsdu₅, hq₅⟩ := @foldl_processNack_spec cfg
    (status.nacks.flatMap (expandNack cfg.snFieldLength status.ackSn))
    (s₄, invalidRlcSn) (hs₄.sized hz₃)
  generalize ((status.nacks.flatMap (expandNack cfg.snFieldLength status.ackSn)).foldl (processNack cfg)
    (s₄, invalidRlcSn)).1 = s₅ at hs₅ hsdu₅ hq₅ ⊢
  have hs := hs₄.trans hs₅
  refine ⟨hs.window hw₃, by omega, hs.seg.trans (hc.seg.trans hs₁.seg), fun i hi hi' => ?_, ?_, fun f hf => ?_,
    fun r hr => ?_, fun e he pdcpSn hd => ?_⟩
  · unfold infoAt
    rw [hs.find]
    show Option.map _ (infoAt cfg s₂ i) = _
    rw [hc.kept i hi hi', hs₁.infoAt]
    rfl
  · rw [hsdu₅, hsdu₄]
    show s₂.sduQueue.bufs.Sublist _
    rw [hc.sdus, hsdu₁]
  · rcases hs.faults f hf with hold | hnew
    · left
      rw [← hs₁.faults, ← hc.faults]
      exact hold
    · exact .inr hnew
  · rcases hq₅ r hr with hold | ⟨nack, hmem, hof⟩
    · rw [hq₄] at hold
      cases hold
    · exact ⟨nack, hmem, hof.congr hs₅.seg.symm fun sn => (hs₅.find sn).symm⟩
  · rcases mem_append.1 (hs.events e he pdcpSn hd) with hold | hnew
    · left
      rw [← hev₁, ← hc.events]
      exact hold
    · rcases hnames pdcpSn (hdeliv e hnew pdcpSn hd) with hnone | ⟨i, info, hi, hi', hinfo, hsn⟩
      · rcases hnone with hnone | hnone <;> cases hnone
      · rw [hs₁.infoAt] at hinfo
        exact .inr ⟨i, info, hi, hi', hinfo, hsn⟩

/-- looking at the queues afterwards -/
theorem Processed.same {A' : ℕ} {nacks : List RlcAmStatusNack} {s₁ s₂ : RlcTxAmEntity}
    (h : Processed cfg A A' N nacks s s₁) (hs : SameWindow s₁ s₂) (hq : s₂.retxQueue.queue ⊆ s₁.retxQueue.queue)
    (hsdu : s₂.sduQueue.bufs.Sublist s₁.sduQueue.bufs) : Processed cfg A A' N nacks s s₂ := by
  refine ⟨h.window.congr hs, h.le, hs.seg.trans h.seg, fun i hi hi' => ?_, hsdu.trans h.sdus, ?_, fun r hr => ?_,
    fun e he pdcpSn hd => h.events e (hs.events e he pdcpSn hd) pdcpSn hd⟩
  · rw [hs.infoAt]
    exact h.kept i hi hi'
  · rw [hs.faults]
    exact h.faults
  · obtain ⟨nack, hmem, hof⟩ := h.retx r (hq hr)
    exact ⟨nack, hmem, hof.congr hs.seg.symm fun sn => by rw [hs.find]⟩

/-- a STATUS PDU that is not ignored: ACK_SN is of index `a`, and acknowledging stops at index `X` -/
structure Accepted (cfg : RlcTxAmConfig) (A N : ℕ) (s : RlcTxAmEntity) (status : RlcAmStatusPdu) (a X : ℕ) : Prop where
  ack : status.ackSn % cfg.snFieldLength.mod = a % cfg.snFieldLength.mod
  lo : A < a
  hi : a ≤ A + cfg.snFieldLength.amWindowSize
  le : a ≤ N + 1
  nacks : ∀ nack ∈ status.nacks, s.validNack cfg status.ackSn nack = true
  stop : stopSn status % cfg.snFieldLength.mod = X % cfg.snFieldLength.mod
  stop_ge : A ≤ X
  stop_ack : status.nacks = [] → X = a
  stop_nack : status.nacks ≠ [] → X ≤ N

/-- the ACK index is not that behind TX_Next if its SN is not -/
theorem Accepted.next_ne {a : ℕ} (hacc : Accepted cfg A N s status a X) (h : Window cfg A N s)
    (hne : s.txModBase cfg status.ackSn ≠ s.txModBase cfg (s.st.txNext + 1)) : a ≤ N := by
  obtain ⟨h0, hwin⟩ := sizes cfg.snFieldLength
  have h1 := hacc.lo
  have h2 := hacc.hi
  have h3 := hacc.le
  have hnext : s.txModBase cfg (s.st.txNext + 1) = N + 1 - A := by
    have hroom := h.room
    have htop := le_top s N
    refine h.txModBase ?_ (by omega) (by omega)
    rw [h.next, mod_add_mod]
  rw [h.txModBase hacc.ack h1.le (by omega), hnext] at hne
  omega

theorem accepted_of_checks (h : Window cfg A N s) (hack : s.validAckSn cfg status.ackSn = true)
    (hle : s.txModBase cfg status.ackSn ≤ s.txModBase cfg (s.st.txNext + 1))
    (hbad : s.firstBadNack cfg status = none) : ∃ a X, Accepted cfg A N s status a X := by
  obtain ⟨h0, hwin⟩ := sizes cfg.snFieldLength
  have hAN := h.le
  have hroom := h.room
  have htop := le_top s N
  obtain ⟨a, haA, -, hacksn, hbase⟩ := exists_index_of_base h.ack status.ackSn
  replace hbase : s.txModBase cfg status.ackSn = a - A := hbase
  obtain ⟨hpos, hle'⟩ := (validAckSn_iff cfg s status.ackSn).1 hack
  have hnext : s.txModBase cfg (s.st.txNext + 1) = N + 1 - A := by
    refine h.txModBase ?_ (by omega) (by omega)
    rw [h.next, mod_add_mod]
  have hnacks : ∀ nack ∈ status.nacks, s.validNack cfg status.ackSn nack = true := by
    intro nack hmem
    have hfind := find?_eq_none.1 hbad (s.checkNack cfg status.ackSn nack) (mem_map_of_mem hmem)
    exact decide_eq_true (by simpa using hfind)
  cases hn : status.nacks with
  | nil =>
    have hstop : stopSn status = status.ackSn := by rw [stopSn, hn]
    exact ⟨a, a, hacksn, by omega, by omega, by omega, hnacks, by rw [hstop, hacksn], haA, fun _ => rfl,
      fun hne => absurd hn hne⟩
  | cons nack rest =>
    have hstop : stopSn status = nack.nackSn := by rw [stopSn, hn]
    obtain ⟨X, hXA, -, hXsn, hXbase⟩ := exists_index_of_base h.ack nack.nackSn
    replace hXbase : s.txModBase cfg nack.nackSn = X - A := hXbase
    have hvalid := (validNack_iff cfg s status.ackSn nack).1 (hnacks nack (by rw [hn]; exact mem_cons_self))
    have hXN : X ≤ N := by
      have h3 := hvalid.1.2.2
      rw [hXbase, h.txModBase_next] at h3
      omega
    exact ⟨a, X, hacksn, by omega, by omega, by omega, hnacks, by rw [hstop, hXsn], hXA,
      fun hnil => absurd (hn.symm.trans hnil) (cons_ne_nil _ _), fun _ => hXN⟩

/-- a STATUS PDU is ignored or processed; `hseg` excludes that it acknowledges the SDU under segmentation -/
theorem handleStatusPdu_cases (h : Window cfg A N s) (hz : SizedWindow s)
    (hseg : s.snUnderSegmentation ≠ invalidRlcSn → status.nacks = [] →
      s.txModBase cfg status.ackSn ≠ s.txModBase cfg (s.st.txNext + 1)) :
    (SameWindow s (s.handleStatusPdu cfg status) ∧ (s.handleStatusPdu cfg status).sduQueue = s.sduQueue ∧
      (s.handleStatusPdu cfg status).retxQueue = s.retxQueue) ∨ ∃ a X, Accepted cfg A N s status a X ∧
      Processed cfg A (min X N) N (status.nacks.flatMap (expandNack cfg.snFieldLength status.ackSn)) s
        (s.handleStatusPdu cfg status) := by
  have hignored : ∀ s₁, (∃ events, s₁ = { s with events := s.events ++ events } ∧ ∀ e ∈ events, e.deliveredSn = none) →
      SameWindow s s₁ ∧ s₁.sduQueue = s.sduQueue ∧ s₁.retxQueue = s.retxQueue := by
    rintro s₁ ⟨events, rfl, hno⟩
    exact ⟨⟨rfl, rfl, rfl, rfl, fun _ => rfl, rfl, NoDelivery.append events rfl hno⟩, rfl, rfl⟩
  have hquiet : ∃ events, s = { s with events := s.events ++ events } ∧ ∀ e ∈ events, e.deliveredSn = none :=
    ⟨[], by rw [append_nil], by simp⟩
  have hfail : ∃ events, s.emit .protocolFailure = { s with events := s.events ++ events } ∧
      ∀ e ∈ events, e.deliveredSn = none := ⟨[.protocolFailure], rfl, by simp [TxEvent.deliveredSn]⟩
  unfold handleStatusPdu
  by_cases hack : s.validAckSn cfg status.ackSn = true
  · rw [hack, Bool.not_true, if_neg Bool.false_ne_true]
    by_cases hle : s.txModBase cfg status.ackSn > s.txModBase cfg (s.st.txNext + 1)
    · rw [if_pos hle]
      exact .inl (hignored _ hfail)
    · rw [if_neg hle]
      cases hbad : s.firstBadNack cfg status with
      | some c =>
        cases c with
        | protocolFailure => exact .inl (hignored _ hfail)
        | valid => exact .inl (hignored _ hquiet)
        | ignore => exact .inl (hignored _ hquiet)
      | none =>
        obtain ⟨a, X, hacc⟩ := accepted_of_checks h hack (Nat.le_of_not_lt hle) hbad
        have hXN : X ≤ N + 1 := by
          by_cases hnil : status.nacks = []
          · exact (hacc.stop_ack hnil).le.trans hacc.le
          · exact (hacc.stop_nack hnil).trans (le_succ N)
        have hX : s.snUnderSegmentation ≠ invalidRlcSn → X ≤ N := by
          intro hne
          by_cases hnil : status.nacks = []
          · have hna := hacc.next_ne h (hseg hne hnil)
            have := hacc.stop_ack hnil
            omega
          · exact hacc.stop_nack hnil
        have hp := processStatusPdu_spec h hz hacc.stop_ge hXN hX hacc.stop
        obtain ⟨hs, hq, hsdu⟩ := @getBufferState_spec cfg (s.processStatusPdu cfg status) none
        exact .inr ⟨a, X, hacc, hp.same hs hq hsdu⟩
  · rw [Bool.eq_false_iff.2 hack]
    exact .inl (hignored _ hquiet)

end RlcTxAmEntity

end OcuduRan.Rlc
