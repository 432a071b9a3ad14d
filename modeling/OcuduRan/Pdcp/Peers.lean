/-
What the transmitting and the receiving side of a bearer agree on.

  COUNT           a COUNT less than half the SN space away from the window edge is recovered from its SN by the
                  receiver, and by the transmitter from the notifications of the lower layers (`count_reconstruction`).
  status report   what compile_status_report says and what handle_status_report does with it (`statusReport_agreement`).

The two sides disagree about the padding of the bitmap. The receiver's bitmap ends before its RX_NEXT; the transmitter
takes the number of bits in the last byte from its own TX_NEXT, and from a shift by zero when that number is a multiple
of eight. Then a correctly received COUNT in the last byte looks like a bit in the padding, and the whole report is
refused with a protocol failure (`full_last_byte_refused`).
-/
import OcuduRan.Pdcp.RxOrder
import OcuduRan.Pdcp.TxWindow

namespace OcuduRan.Pdcp

open ModWindow PdcpEntityTx PdcpEntityRx List BitStream Nat
open Rlc (Bytes PdcpSnSize)

variable {κ δ : Type} {setup : PdcpTxSetup κ} {rx : PdcpEntityRx δ} {tx : PdcpEntityTx κ}

/-! ## COUNT -/

/-- a PDU that carries an SN goes to the crypto executor with the COUNT that was meant -/
theorem PdcpEntityRx.handleDataPdu_count {setup : PdcpRxSetup δ} {s : PdcpEntityRx δ} {pdu : Bytes} {c : ℕ}
    (hpdu : readDataPduHeader setup.cfg.snSize pdu = some (setup.cfg.snSize.computeSn c))
    (hhard : c < setup.cfg.maxCount.hard.toNat) (hlow : s.st.rxDeliv ≤ c + setup.cfg.snSize.windowSize)
    (hup : c < s.st.rxDeliv + setup.cfg.snSize.windowSize) : s.rcvdCount setup (setup.cfg.snSize.computeSn c) = c ∧
      (s.handleDataPdu setup pdu true).cryptoTasks = s.cryptoTasks ++ [⟨pdu, c, false⟩] := by
  have hcount : s.rcvdCount setup (setup.cfg.snSize.computeSn c) = c :=
    PdcpSnSize.countEstimation_eq _ (hhard.trans setup.cfg.maxCount.hard.toNat_lt) hlow hup
  refine ⟨hcount, ?_⟩
  have htasks : (s.notifyMaxCount setup c).cryptoTasks = s.cryptoTasks := by
    unfold notifyMaxCount
    split_ifs <;> rfl
  unfold handleDataPdu
  rw [hpdu]
  dsimp only
  rw [hcount, if_neg (not_le.2 hhard), if_pos rfl, ← htasks]

/-- Receiver: every COUNT below the hard maximum and in [RX_DELIV - Window_Size, RX_DELIV + Window_Size) is recovered
from a PDU with its SN. Transmitter: in every state with TX_NEXT_ACK ≤ TX_TRANS ≤ TX_NEXT (`WindowBounded.run`), every
COUNT of a window of at most Window_Size COUNTs is recovered from its SN, whether a discard timer is configured or
not. -/
theorem count_reconstruction :
    (∀ (setup : PdcpRxSetup δ) (s : PdcpEntityRx δ) (c : ℕ) (pdu : Bytes),
      c < setup.cfg.maxCount.hard.toNat → s.st.rxDeliv ≤ c + setup.cfg.snSize.windowSize →
      c < s.st.rxDeliv + setup.cfg.snSize.windowSize →
      readDataPduHeader setup.cfg.snSize pdu = some (setup.cfg.snSize.computeSn c) →
      s.rcvdCount setup (setup.cfg.snSize.computeSn c) = c ∧
        (s.handleDataPdu setup pdu true).cryptoTasks = s.cryptoTasks ++ [⟨pdu, c, false⟩]) ∧
    ∀ (setup : PdcpTxSetup κ) (s : PdcpEntityTx κ) (c : ℕ),
      s.st.txNextAck ≤ s.st.txTrans → s.st.txTrans ≤ s.st.txNext → s.st.txNext < 2 ^ 32 →
      s.st.txNext ≤ s.st.txNextAck + setup.cfg.snSize.windowSize → s.st.txNextAck ≤ c → c < s.st.txNext →
      s.notificationCountEstimation setup (setup.cfg.snSize.computeSn c) = c := by
  refine ⟨fun setup s c pdu hhard hlow hup hpdu => handleDataPdu_count hpdu hhard hlow hup, ?_⟩
  intro setup s c hack htrans hbound hw h1 h2
  unfold notificationCountEstimation
  split_ifs
  · exact PdcpSnSize.countEstimation_eq _ (h2.trans hbound) (h1.trans (le_add_right _ _)) (h2.trans_le hw)
  · -- TX_TRANS is somewhere in the window
    exact PdcpSnSize.countEstimation_eq _ (h2.trans hbound)
      ((htrans.trans hw).trans (Nat.add_le_add_right h1 _)) ((h2.trans_le hw).trans_le (Nat.add_le_add_right hack _))

/-- an AM DRB that goes on from COUNT 4095, with two SDUs -/
def atBoundary : PdcpEntityTx Unit :=
  Machine.run (PdcpEntityTx.step PdcpEntityTx.sampleSetup) (PdcpEntityTx.init PdcpEntityTx.sampleSetup)
    [.setCount 0 4095, .desiredBufferSizeNotification 10000, .handleSdu [7] ⟨true, true, true⟩,
      .handleSdu [8] ⟨true, true, true⟩]

/-- both sides of an HFN boundary -/
theorem count_reconstruction_at_boundary :
    let rx := (PdcpEntityRx.init PdcpEntityRx.sampleSetup).setCount PdcpEntityRx.sampleSetup 0 4095
    (rx.rcvdCount PdcpEntityRx.sampleSetup 0 = 4096 ∧
      (rx.handleDataPdu PdcpEntityRx.sampleSetup [0x80, 0, 7] true).cryptoTasks = [⟨[0x80, 0, 7], 4096, false⟩]) ∧
    atBoundary.txWindow.keys = {4095, 4096} ∧
      atBoundary.notificationCountEstimation PdcpEntityTx.sampleSetup 0 = 4096 := by
  obtain ⟨hrx, htx⟩ := count_reconstruction (δ := Unit) (κ := Unit)
  refine ⟨hrx PdcpEntityRx.sampleSetup _ 4096 [0x80, 0, 7] (by decide) (by decide) (by decide) (by decide),
    by decide +kernel, ?_⟩
  refine htx PdcpEntityTx.sampleSetup atBoundary 4096 ?_ ?_ ?_ ?_ ?_ ?_ <;> decide +kernel

/-! ## Status report -/

namespace PdcpEntityRx

/-- the report says that this COUNT was received -/
def Marks (rx : PdcpEntityRx δ) (c : ℕ) : Prop := ∃ i, rx.reportBitmap[i]? = some true ∧ c = rx.st.rxDeliv + 1 + i

variable (rx : PdcpEntityRx δ)

theorem getElem?_padded {bits : List Bool} (pad i : ℕ) :
    (bits ++ replicate pad false)[i]? = some true ↔ bits[i]? = some true := by
  by_cases hi : i < bits.length
  · rw [getElem?_append_left hi]
  · rw [getElem?_append_right (not_lt.1 hi), getElem?_eq_none (not_lt.1 hi), getElem?_replicate]
    split_ifs <;> simp

theorem length_reportBitmap_le : rx.reportBitmap.length ≤ 71960 := by
  unfold reportBitmap
  rw [length_map, length_range']
  exact min_le_right _ _

theorem length_compileStatusReport : rx.compileStatusReport.length = 5 + (rx.reportBitmap.length + 7) / 8 := by
  unfold compileStatusReport
  rw [length_toBytes]
  simp only [length_append, length_natBits]
  omega

theorem bitsOf_compileStatusReport : ∃ pad, bitsOf rx.compileStatusReport =
      natBits 1 0 ++ (natBits 3 0 ++ (natBits 4 0 ++
        (natBits 32 rx.st.rxDeliv ++ (rx.reportBitmap ++ replicate pad false)))) := by
  unfold compileStatusReport
  rw [bitsOf_toBytes]
  simp only [append_assoc]
  exact ⟨_, rfl⟩

/-- COUNTs of the bitmap lie between RX_DELIV and RX_NEXT -/
theorem lt_of_bit {i : ℕ} (hfmc : rx.st.rxDeliv + 1 < 2 ^ 32) (hi : i < rx.reportBitmap.length) :
    rx.st.rxDeliv + 1 + i < rx.st.rxNext := by
  unfold reportBitmap at hi
  rw [length_map, length_range', mod_eq_of_lt hfmc] at hi
  have := hi.trans_le (min_le_left _ _)
  omega

/-- bits of the last byte from position `k` on -/
theorem lastByte_shift {k : ℕ} (hk : k < 8) (hne : rx.reportBitmap ≠ []) :
    (rx.compileStatusReport.getLastD 0).toNat <<< k % 2 ^ 8 = 0 ↔
      ∀ i, 8 * ((rx.reportBitmap.length - 1) / 8) ≤ i → rx.reportBitmap[i]? = some true → i % 8 < k := by
  have hpos := length_pos_of_ne_nil hne
  have hlen := rx.length_compileStatusReport
  have hbuf : rx.compileStatusReport ≠ [] := ne_nil_of_length_pos (by omega)
  obtain ⟨pad, hbits⟩ := rx.bitsOf_compileStatusReport
  have htotal := congrArg length hbits
  simp only [length_bitsOf, length_append, length_natBits, length_replicate] at htotal
  -- bit j of the last byte is bit 8 * (n - 1) / 8 + j of the bitmap, or padding
  have hbit : ∀ j, j < 8 → (natBits 8 (rx.compileStatusReport.getLastD 0).toNat)[j]? =
      (rx.reportBitmap ++ replicate pad false)[8 * ((rx.reportBitmap.length - 1) / 8) + j]? := by
    intro j hj
    rw [natBits_getLastD hbuf, getElem?_drop, hbits]
    rw [getElem?_append_right (by simp; omega), getElem?_append_right (by simp; omega),
      getElem?_append_right (by simp; omega), getElem?_append_right (by simp; omega)]
    simp only [length_natBits]
    congr 1
    omega
  rw [shiftLeft_mod_eq_zero_iff hk]
  constructor
  · intro h i hi htrue
    have hilt : i < rx.reportBitmap.length := by
      by_contra hge
      rw [getElem?_eq_none (not_lt.1 hge)] at htrue
      cases htrue
    by_contra hge
    have hj := h (i % 8) (not_lt.1 hge) (mod_lt _ (by decide))
    rw [hbit _ (mod_lt _ (by decide)), show 8 * ((rx.reportBitmap.length - 1) / 8) + i % 8 = i by omega,
      getElem?_append_left hilt, htrue] at hj
    cases hj
  · intro h j hkj hj
    rw [hbit j hj]
    by_cases hlt : 8 * ((rx.reportBitmap.length - 1) / 8) + j < rx.reportBitmap.length
    · rw [getElem?_append_left hlt]
      cases hb : rx.reportBitmap[8 * ((rx.reportBitmap.length - 1) / 8) + j]? with
      | none => exact absurd hb (by simp [hlt])
      | some b =>
        cases b with
        | false => rfl
        | true =>
          have := h _ (le_add_right _ _) hb
          omega
    · rw [getElem?_append_right (not_lt.1 hlt), getElem?_replicate, if_pos (by omega)]

end PdcpEntityRx

namespace PdcpEntityTx

variable {setup : PdcpTxSetup κ} {s : PdcpEntityTx κ} {c : ℕ} {s' : PdcpEntityTx κ} {gone gone' : ℕ → Prop}
  {bits : List Bool}

theorem keys_discardPdu (hd : setup.cfg.discardTimer ≠ none) (hb : WindowBounded s) (hc : c < s.st.txNext) :
    (s.discardPdu setup c).txWindow.keys = s.txWindow.keys.erase c := by
  rcases discardPdu_cases setup s c with ⟨heq, hnone | hlt | hge | hmem⟩ | ⟨-, -, -, -, ack, -, -, -, -, heq⟩
  · exact absurd hnone hd
  · rw [heq, Finset.erase_eq_of_notMem fun hmem => absurd (hb.keys c hmem).1 (not_le.2 hlt)]
  · exact absurd hc (not_lt.2 hge)
  · rw [heq, Finset.erase_eq_of_notMem hmem]
  · rw [heq]
    exact PdcpTxWindow.keys_removeSdu _ _

/-- number of protocol failures reported so far -/
def protocolFailures (s : PdcpEntityTx κ) : ℕ := s.events.count .protocolFailure

theorem protocolFailures_emit (s : PdcpEntityTx κ) :
    (s.emit .protocolFailure).protocolFailures = s.protocolFailures + 1 := by
  unfold protocolFailures emit
  simp

theorem protocolFailures_discardPdu (s : PdcpEntityTx κ) (c : ℕ) :
    (s.discardPdu setup c).protocolFailures = s.protocolFailures := by
  unfold protocolFailures
  rcases discardPdu_cases setup s c with ⟨heq, -⟩ | ⟨-, -, -, -, ack, -, -, -, -, heq⟩
  · rw [heq]
  · rw [heq]
    simp [discarded]

/-- what a sequence of discards leaves, without its events -/
structure Discarded (s s' : PdcpEntityTx κ) (gone : ℕ → Prop) : Prop where
  bounded : WindowBounded s'
  next : s'.st.txNext = s.st.txNext
  failures : s'.protocolFailures = s.protocolFailures
  keys : ∀ c, c ∈ s'.txWindow.keys ↔ c ∈ s.txWindow.keys ∧ ¬gone c

theorem Discarded.trans {s'' : PdcpEntityTx κ} (h : Discarded s s' gone)
    (h' : Discarded s' s'' gone') : Discarded s s'' fun c => gone c ∨ gone' c where
  bounded := h'.bounded
  next := h'.next.trans h.next
  failures := h'.failures.trans h.failures
  keys := by
    intro c
    rw [h'.keys, h.keys, not_or, and_assoc]

theorem Discarded.congr (h : Discarded s s' gone) (heq : ∀ c, gone c ↔ gone' c) : Discarded s s' gone' :=
  ⟨h.bounded, h.next, h.failures, fun c => by rw [h.keys, heq]⟩

theorem discarded_discardPdu (hd : setup.cfg.discardTimer ≠ none) (hb : WindowBounded s)
    (hc : c < s.st.txNext) : Discarded s (s.discardPdu setup c) (· = c) where
  bounded := (WindowBounded.passive setup).discardPdu c hb
  next := discardPdu_frame s c
  failures := protocolFailures_discardPdu s c
  keys := by
    intro d
    rw [keys_discardPdu hd hb hc, Finset.mem_erase, and_comm]

theorem discarded_refl (hb : WindowBounded s) : Discarded s s fun _ => False :=
  ⟨hb, rfl, rfl, fun c => by simp⟩

theorem discarded_discards (hd : setup.cfg.discardTimer ≠ none) (hb : WindowBounded s) {cs : List ℕ}
    (hcs : ∀ c ∈ cs, c < s.st.txNext) : Discarded s (Machine.run (discardPdu setup) s cs) (· ∈ cs) := by
  induction cs generalizing s with
  | nil => exact (discarded_refl hb).congr fun c => by simp
  | cons c cs ih =>
    have h1 := discarded_discardPdu hd hb (hcs c mem_cons_self)
    have hrest : ∀ d ∈ cs, d < (s.discardPdu setup c).st.txNext := by
      intro d hd
      rw [h1.next]
      exact hcs d (mem_cons_of_mem _ hd)
    exact (h1.trans (ih h1.bounded hrest)).congr fun d => mem_cons.symm

/-- zero bits mark nothing -/
theorem marked_zeros (fmc : ℕ) (h : ∀ b ∈ bits, b = false) : marked fmc bits = [] := by
  induction bits generalizing fmc with
  | nil => rfl
  | cons b bits ih =>
    rw [marked, h b mem_cons_self]
    exact ih _ fun b' hb' => h b' (mem_cons_of_mem _ hb')

theorem mem_marked {fmc : ℕ} (hbits : ∀ i, bits[i]? = some true → fmc + 1 + i < 2 ^ 32) :
    c ∈ marked fmc bits ↔ ∃ i, bits[i]? = some true ∧ c = fmc + 1 + i := by
  induction bits generalizing fmc with
  | nil => simp [marked]
  | cons b bits ih =>
    by_cases hwrap : fmc + 1 < 2 ^ 32
    · rw [marked, mod_eq_of_lt hwrap, mem_append, ih fun i hi => by have := hbits (i + 1) hi; omega]
      constructor
      · rintro (hc | ⟨i, hi, rfl⟩)
        · split_ifs at hc with hb
          · exact ⟨0, by rw [hb]; rfl, mem_singleton.1 hc⟩
          · cases hc
        · exact ⟨i + 1, hi, by omega⟩
      · rintro ⟨i, hi, rfl⟩
        cases i with
        | zero =>
          rw [Option.some.inj hi]
          exact .inl mem_cons_self
        | succ i => exact .inr ⟨i, hi, by omega⟩
    · -- COUNTs beyond 2^32 are never marked
      have hnone : ∀ i, (b :: bits)[i]? ≠ some true := fun i hi => by
        have := hbits i hi
        omega
      have hzero : ∀ b' ∈ b :: bits, b' = false := by
        intro b' hmem
        obtain ⟨i, hi⟩ := mem_iff_getElem?.1 hmem
        cases b' with
        | false => rfl
        | true => exact absurd hi (hnone i)
      rw [marked_zeros fmc hzero]
      simp [hnone]

/-- discards report no protocol failure -/
theorem protocolFailures_discards (cs : List ℕ) (s : PdcpEntityTx κ) :
    (Machine.run (discardPdu setup) s cs).protocolFailures = s.protocolFailures :=
  Machine.run_inv_all (I := fun t => t.protocolFailures = s.protocolFailures)
    (fun t c h => (protocolFailures_discardPdu t c).trans h) s cs rfl

/-- without a discard timer nothing is discarded -/
theorem discards_none (hd : setup.cfg.discardTimer = none) (cs : List ℕ) (s : PdcpEntityTx κ) :
    Machine.run (discardPdu setup) s cs = s :=
  Machine.run_inv_all (I := fun t => t = s) (fun t c h => by rw [h, discardPdu, if_pos hd]) s cs rfl

/-- a report of the receiver is decoded to its FMC and bitmap -/
theorem handleStatusReport_compiled (setup : PdcpTxSetup κ) (rx : PdcpEntityRx δ) (hfmc : rx.st.rxDeliv ≤ s.st.txNext)
    (hnext : s.st.txNext < 2 ^ 32) : ∃ pad, s.handleStatusReport setup rx.compileStatusReport true =
      let s' := if rx.st.rxDeliv = s.st.txNext ∧ rx.reportBitmap ≠ [] then s.emit .protocolFailure else s
      if bitmapValid s.st.txNext rx.st.rxDeliv rx.compileStatusReport then
        Machine.run (discardPdu setup) s' (range' s.st.txNextAck (rx.st.rxDeliv - s.st.txNextAck) ++
          marked rx.st.rxDeliv (rx.reportBitmap ++ replicate pad false))
      else s'.emit .protocolFailure := by
  obtain ⟨pad, hbits⟩ := rx.bitsOf_compileStatusReport
  have hlen := rx.length_compileStatusReport
  have hmax := rx.length_reportBitmap_le
  have hlen0 : ¬sub32 rx.compileStatusReport.length 5 = 0 ↔ ¬rx.reportBitmap = [] := by
    rw [hlen, ← ne_eq rx.reportBitmap, ← length_pos_iff]
    unfold sub32
    omega
  refine ⟨pad, ?_⟩
  unfold handleStatusReport
  simp only [hbits, unpack_natBits_append, zero_mod, ne_eq, not_true_eq_false, if_false,
    PdcpControlPduType.toNumber, Bool.not_true, Bool.false_eq_true]
  rw [mod_eq_of_lt (show rx.st.rxDeliv < 2 ^ 32 by omega), if_neg (not_lt.2 hfmc)]
  simp only [hlen0, discards_eq]
  have hst : (if rx.st.rxDeliv = s.st.txNext ∧ ¬rx.reportBitmap = [] then s.emit .protocolFailure else s).st =
    s.st := by
    split_ifs <;> rfl
  generalize (if rx.st.rxDeliv = s.st.txNext ∧ ¬rx.reportBitmap = [] then s.emit .protocolFailure else s) = s' at hst ⊢
  rw [hst]
  cases bitmapValid s.st.txNext rx.st.rxDeliv rx.compileStatusReport <;> rfl

end PdcpEntityTx

/-- the report is taken without a protocol failure, and the transmitter keeps what is neither below RX_DELIV nor marked
as received -/
def Agreed (setup : PdcpTxSetup κ) (rx : PdcpEntityRx δ) (tx : PdcpEntityTx κ) : Prop :=
  let tx' := tx.handleStatusReport setup rx.compileStatusReport true
  tx'.protocolFailures = tx.protocolFailures ∧
    ∀ c, c ∈ tx'.txWindow.keys ↔ c ∈ tx.txWindow.keys ∧ rx.st.rxDeliv ≤ c ∧ ¬rx.Marks c

/-- the COUNTs marked in the last byte come before the padding the transmitter computes, and there is a discard timer
or nothing to discard; the rest only excludes COUNTs at the end of the 32-bit range -/
structure ReportFits (setup : PdcpTxSetup κ) (rx : PdcpEntityRx δ) (tx : PdcpEntityTx κ) : Prop where
  fmc : rx.st.rxDeliv + 1 < 2 ^ 32
  length : rx.reportBitmap = [] ∨ tx.st.txNext + 6 < rx.st.rxDeliv + 2 ^ 32
  tail : ∀ i, 8 * ((rx.reportBitmap.length - 1) / 8) ≤ i → rx.reportBitmap[i]? = some true →
    i % 8 < (tx.st.txNext - rx.st.rxDeliv - 1) % 8
  discards : setup.cfg.discardTimer ≠ none ∨ ∀ c ∈ tx.txWindow.keys, rx.st.rxDeliv ≤ c ∧ ¬rx.Marks c

/-- the checks of the bitmap are the first three parts of `ReportFits` -/
theorem bitmapValid_iff (hfmc : rx.st.rxDeliv + 1 < 2 ^ 32)
    (hle : rx.st.rxDeliv ≤ tx.st.txNext) (hnext : rx.st.rxNext ≤ tx.st.txNext) (hbound : tx.st.txNext < 2 ^ 32) :
    bitmapValid tx.st.txNext rx.st.rxDeliv rx.compileStatusReport = true ↔
      (rx.reportBitmap = [] ∨ tx.st.txNext + 6 < rx.st.rxDeliv + 2 ^ 32) ∧
      ∀ i, 8 * ((rx.reportBitmap.length - 1) / 8) ≤ i → rx.reportBitmap[i]? = some true →
        i % 8 < (tx.st.txNext - rx.st.rxDeliv - 1) % 8 := by
  have hlen := rx.length_compileStatusReport
  have hmax := rx.length_reportBitmap_le
  unfold bitmapValid
  have hbl : sub32 rx.compileStatusReport.length 5 = (rx.reportBitmap.length + 7) / 8 := by
    rw [hlen]
    unfold sub32
    omega
  rw [hbl]
  by_cases hempty : rx.reportBitmap = []
  · simp [hempty]
  · have hpos := length_pos_of_ne_nil hempty
    -- the bitmap has a first bit, so there is a COUNT behind RX_DELIV
    have hlast := rx.lt_of_bit hfmc (sub_lt hpos one_pos)
    have hdelta : sub32 (sub32 tx.st.txNext rx.st.rxDeliv) 1 = tx.st.txNext - rx.st.rxDeliv - 1 := by
      unfold sub32
      omega
    have hmod : (tx.st.txNext - rx.st.rxDeliv - 1) % 8 < 8 := mod_lt _ (by decide)
    have hne : ¬(rx.reportBitmap.length + 7) / 8 = 0 := by omega
    have hfits : (rx.reportBitmap.length + 7) / 8 ≤ (tx.st.txNext - rx.st.rxDeliv - 1 + 7) % 2 ^ 32 / 8 ↔
        tx.st.txNext + 6 < rx.st.rxDeliv + 2 ^ 32 := by omega
    rw [hdelta, Bool.and_eq_true, Bool.or_eq_true, decide_eq_true_eq, decide_eq_true_eq, decide_eq_true_eq,
      rx.lastByte_shift hmod hempty, hfits]
    simp only [hempty, hne, false_or]

/-- a bitmap that is refused, or not empty behind the last COUNT, costs a protocol failure -/
theorem not_agreed_of_failure {tx' : PdcpEntityTx κ}
    (heq : tx.handleStatusReport setup rx.compileStatusReport true = tx')
    (hlt : tx.protocolFailures < tx'.protocolFailures) : ¬Agreed setup rx tx := by
  intro h
  have hsame := h.1
  rw [heq] at hsame
  exact absurd hsame (ne_of_gt hlt)

theorem agreed_iff (hrx : rx.StateOrdered)
    (htx : tx.WindowBounded) (hnext : rx.st.rxNext ≤ tx.st.txNext) (hack : tx.st.txNextAck ≤ rx.st.rxDeliv) :
    Agreed setup rx tx ↔ ReportFits setup rx tx := by
  have hfmc : rx.st.rxDeliv ≤ tx.st.txNext := hrx.deliv.trans hnext
  obtain ⟨pad, heq⟩ := handleStatusReport_compiled setup rx hfmc htx.bound
  dsimp only at heq
  by_cases h32 : rx.st.rxDeliv + 1 < 2 ^ 32
  · -- a bit in the bitmap means a COUNT between RX_DELIV and TX_NEXT
    have hbit : ∀ i, rx.reportBitmap[i]? = some true → rx.st.rxDeliv + 1 + i < tx.st.txNext := by
      intro i hi
      have hlt : i < rx.reportBitmap.length := (List.getElem?_eq_some_iff.1 hi).1
      exact (rx.lt_of_bit h32 hlt).trans_le hnext
    have hfirst : ¬(rx.st.rxDeliv = tx.st.txNext ∧ rx.reportBitmap ≠ []) := by
      rintro ⟨hd, hne⟩
      have := rx.lt_of_bit h32 (length_pos_of_ne_nil hne)
      omega
    have hvalid := bitmapValid_iff h32 hfmc hnext htx.bound
    rw [if_neg hfirst] at heq
    by_cases hv : bitmapValid tx.st.txNext rx.st.rxDeliv rx.compileStatusReport = true
    · rw [if_pos hv] at heq
      obtain ⟨hlength, htail⟩ := hvalid.1 hv
      by_cases hd : setup.cfg.discardTimer = none
      · -- nothing is discarded
        rw [discards_none hd] at heq
        unfold Agreed
        rw [heq]
        constructor
        · rintro ⟨-, hkeys⟩
          exact ⟨h32, hlength, htail, .inr fun c hc => ((hkeys c).1 hc).2⟩
        · intro hfits
          have hall := hfits.discards.resolve_left (not_not.2 hd)
          exact ⟨rfl, fun c => ⟨fun hc => ⟨hc, hall c hc⟩, fun hc => hc.1⟩⟩
      · refine ⟨fun _ => ⟨h32, hlength, htail, .inl hd⟩, fun _ => ?_⟩
        have hmarked : ∀ c, c ∈ marked rx.st.rxDeliv (rx.reportBitmap ++ replicate pad false) ↔ rx.Marks c := by
          intro c
          rw [mem_marked fun i hi => (hbit i ((getElem?_padded pad i).1 hi)).trans htx.bound]
          simp only [PdcpEntityRx.Marks, getElem?_padded]
        have hcs : ∀ c ∈ range' tx.st.txNextAck (rx.st.rxDeliv - tx.st.txNextAck) ++
            marked rx.st.rxDeliv (rx.reportBitmap ++ replicate pad false), c < tx.st.txNext := by
          intro c hc
          rcases mem_append.1 hc with hc | hc
          · have := mem_range'_1.1 hc
            omega
          · obtain ⟨i, hi, rfl⟩ := (hmarked c).1 hc
            exact hbit i hi
        have hall := discarded_discards hd htx hcs
        unfold Agreed
        rw [heq]
        refine ⟨hall.failures, fun c => ?_⟩
        rw [hall.keys]
        refine and_congr_right fun hc => ?_
        have hlow := (htx.keys c hc).1
        rw [mem_append, not_or, hmarked, mem_range'_1]
        refine and_congr_left' ?_
        omega
    · rw [if_neg hv] at heq
      refine iff_of_false (not_agreed_of_failure heq ?_) fun hfits => hv (hvalid.2 ⟨hfits.length, hfits.tail⟩)
      rw [protocolFailures_emit]
      exact lt_succ_self _
  · -- RX_DELIV is the largest number of 32 bits and the bitmap starts at COUNT 0
    have hbound := htx.bound
    have hne : rx.reportBitmap ≠ [] := by
      have hN : rx.st.rxNext = 2 ^ 32 - 1 := by have := hrx.deliv; omega
      have hD : rx.st.rxDeliv = 2 ^ 32 - 1 := by omega
      rw [← length_pos_iff, reportBitmap, length_map, length_range', hN, hD]
      decide
    have hlast : rx.st.rxDeliv = tx.st.txNext ∧ rx.reportBitmap ≠ [] := ⟨by omega, hne⟩
    refine iff_of_false (not_agreed_of_failure heq ?_) fun hfits => h32 hfits.fmc
    simp only [if_pos hlast]
    split_ifs
    · rw [protocolFailures_discards, protocolFailures_emit]
      exact lt_succ_self _
    · rw [protocolFailures_emit, protocolFailures_emit]
      omega

/-- The report of a receiver that is not ahead of the transmitter is taken and acted on as it says exactly if it fits,
for all runs of the two sides; a status transfer to the transmitter finds an empty window. -/
theorem statusReport_agreement (rxSetup : PdcpRxSetup δ) (txSetup : PdcpTxSetup κ) (rxOps : List PdcpEntityRx.Op)
    (txOps : List PdcpEntityTx.Op)
    (htransfer : Machine.Always (PdcpEntityTx.step txSetup) TransferOk (PdcpEntityTx.init txSetup) txOps) :
    let rx := Machine.run (PdcpEntityRx.step rxSetup) (PdcpEntityRx.init rxSetup) rxOps
    let tx := Machine.run (PdcpEntityTx.step txSetup) (PdcpEntityTx.init txSetup) txOps
    rx.st.rxNext ≤ tx.st.txNext → tx.st.txNextAck ≤ rx.st.rxDeliv →
      (Agreed txSetup rx tx ↔ ReportFits txSetup rx tx) := by
  intro rx tx hnext hack
  have hrx : PdcpEntityRx.StateOrdered rx := PdcpEntityRx.StateOrdered.run rxOps
  have htx : PdcpEntityTx.WindowBounded tx := PdcpEntityTx.WindowBounded.run txOps htransfer
  exact agreed_iff hrx htx hnext hack

/-- the receiver gets data PDUs with these SNs, one after the other -/
def receivedSns (sns : List UInt8) : List PdcpEntityRx.Op :=
  sns.flatMap fun sn =>
    [.handlePdu [0x80, sn, 7] ⟨true, true⟩, .applySecurity 0 ⟨true, true, true, true⟩, .runUeTask 0]

/-- the transmitter gets `n` SDUs -/
def submittedSdus (n : ℕ) : List PdcpEntityTx.Op :=
  .desiredBufferSizeNotification 10000 :: replicate n (.handleSdu [7] ⟨true, true, true⟩)

/-- receiver and transmitter of one bearer, after these runs -/
def receiverAfter (sns : List UInt8) : PdcpEntityRx Unit :=
  Machine.run (step sampleSetup) (init sampleSetup) (receivedSns sns)

def transmitterAfter (n : ℕ) : PdcpEntityTx Unit :=
  Machine.run (step sampleSetup) (init sampleSetup)
    (submittedSdus n)

/-- COUNT 1 of four is missing -/
theorem statusReport_agreement_one_missing :
    (receiverAfter [0, 2]).st.rxNext ≤ (transmitterAfter 4).st.txNext ∧
    (transmitterAfter 4).st.txNextAck ≤ (receiverAfter [0, 2]).st.rxDeliv ∧
    Agreed PdcpEntityTx.sampleSetup (receiverAfter [0, 2]) (transmitterAfter 4) := by
  have hbits : (receiverAfter [0, 2]).reportBitmap = [true] := by decide +kernel
  have hnext : (receiverAfter [0, 2]).st.rxNext ≤ (transmitterAfter 4).st.txNext := by decide +kernel
  have hack : (transmitterAfter 4).st.txNextAck ≤ (receiverAfter [0, 2]).st.rxDeliv := by decide +kernel
  refine ⟨hnext, hack, (statusReport_agreement sampleSetup sampleSetup (receivedSns [0, 2])
    (submittedSdus 4) ⟨trivial, trivial, trivial, trivial, trivial, trivial⟩ hnext hack).2
    ⟨by decide +kernel, Or.inr (by decide +kernel), ?_, Or.inl (by decide)⟩⟩
  intro i _ hi
  have hi0 : i = 0 := by
    have hi' : (receiverAfter [0, 2]).reportBitmap[i]? = some true := hi
    rw [hbits] at hi'
    have := (List.getElem?_eq_some_iff.1 hi').1
    simpa using this
  rw [hi0]
  decide +kernel

/-- COUNT 0 of nine is missing: TX_NEXT - FMC - 1 is 8, and the eight received COUNTs are taken for padding. -/
theorem full_last_byte_refused :
    let rx := receiverAfter [1, 2, 3, 4, 5, 6, 7, 8]
    let tx := transmitterAfter 9
    let tx' := tx.handleStatusReport PdcpEntityTx.sampleSetup rx.compileStatusReport true
    rx.st.rxNext = 9 ∧ tx.st.txNext = 9 ∧ rx.st.rxDeliv = 0 ∧ tx.st.txNextAck = 0 ∧
    rx.compileStatusReport = [0, 0, 0, 0, 0, 0xff] ∧
    tx'.protocolFailures = tx.protocolFailures + 1 ∧ tx'.txWindow.keys = Finset.range 9 := by
  decide +kernel

end OcuduRan.Pdcp
