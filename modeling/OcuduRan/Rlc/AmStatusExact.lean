/-
Exactness of the status report.

A `Traced` receiver also carries the absolute index of RX_Next and the pieces of SDUs it accepted: a piece is accepted
when its data PDU is inside the window and finds room. Along every run on genuine PDUs the bytes stored are those
accepted (`Exact`); hence the report that refresh_status_report builds in any state of such a run, expanded as the peer
does, asks for exactly the bytes that have not been received of the SDUs it covers.
-/
import OcuduRan.Rlc.AmStatusReport

namespace OcuduRan.Rlc

open ModWindow RlcAmStatusPdu

namespace RlcRxAmEntity

/-- bytes of an SDU carried by a data PDU -/
structure Piece where
  index : ℕ
  so : ℕ
  len : ℕ
deriving DecidableEq, Repr

structure Traced where
  /-- index of RX_Next -/
  next : ℕ
  pieces : List Piece
  entity : RlcRxAmEntity
deriving DecidableEq, Repr

namespace Traced

variable {cfg : RlcRxAmConfig} {sdu : ℕ → Bytes} {t : Traced} {s s' : RlcRxAmEntity} {R' S H S' i b len : ℕ}
  {allocOk poolOk : Bool} {buf payload : Bytes} {hdr : RlcAmPduHeader} {n : RlcAmSnSize}

variable (cfg)

def init : Traced := ⟨0, [], RlcRxAmEntity.init cfg⟩

/-- the index an SN stands for -/
def indexOf (t : Traced) (sn : ℕ) : ℕ := t.next + t.entity.rxModBase cfg sn

/-- the piece accepted by an operation -/
def accepted (t : Traced) : Op → List Piece
  | .handlePdu buf poolOk _ =>
    match rlcAmReadDataPduHeader cfg.snFieldLength buf with
    | some (hdr, payload) =>
      if hdr.dc = .data ∧ payload ≠ [] ∧ t.entity.insideRxWindow cfg hdr.sn ∧
          (t.entity.rxWindow.contains hdr.sn ∨ poolOk) then
        [⟨t.indexOf cfg hdr.sn, hdr.so, payload.length⟩]
      else []
    | none => []
  | _ => []

def step (t : Traced) (op : Op) : Traced where
  next := t.indexOf cfg (t.entity.step cfg op).st.rxNext
  pieces := t.pieces ++ t.accepted cfg op
  entity := t.entity.step cfg op

/-- byte `b` of the SDU of index `i` has been received -/
def Received (t : Traced) (i b : ℕ) : Prop := ∃ p ∈ t.pieces, p.index = i ∧ p.so ≤ b ∧ b < p.so + p.len

/-- a data PDU for an SN of the window carries a piece of the SDU its SN stands for -/
def GenuineStep (sdu : ℕ → Bytes) (t : Traced) : Op → Prop
  | .handlePdu buf _ _ => ∀ hdr payload, rlcAmReadDataPduHeader cfg.snFieldLength buf = some (hdr, payload) →
      hdr.dc = .data → t.entity.insideRxWindow cfg hdr.sn = true → PduOf (sdu (t.indexOf cfg hdr.sn)) hdr payload
  | _ => True

variable {cfg}

/-- the report buffers are of the configured SN size -/
structure ReportSizes (cfg : RlcRxAmConfig) (s : RlcRxAmEntity) : Prop where
  writer : s.statusOwnedByWriter.snSize = cfg.snFieldLength
  exchange : s.statusForExchange.snSize = cfg.snFieldLength
  reader : s.statusOwnedByReader.snSize = cfg.snFieldLength

/-- what is stored is what has been accepted -/
structure Exact (cfg : RlcRxAmConfig) (sdu : ℕ → Bytes) (S H : ℕ) (t : Traced) : Prop where
  inv : Inv InfoOk cfg t.next S H t.entity
  genuine : Genuine cfg t.next H sdu t.entity
  sizes : ReportSizes cfg t.entity
  below : ∀ p ∈ t.pieces, p.index < H
  received : ∀ i, t.next ≤ i → i < t.next + cfg.snFieldLength.amWindowSize → ∀ b < (sdu i).length,
    (t.Received i b ↔ ¬ Missing cfg t.entity i b)

/-! ## Steps -/

theorem ReportSizes.same (h : ReportSizes cfg s) (hs : SameReport cfg s s') : ReportSizes cfg s' :=
  ⟨by rw [hs.writer, h.writer], by rw [hs.exchange, h.exchange], by rw [hs.reader, h.reader]⟩

theorem ReportSizes.refresh (h : ReportSizes cfg s) : ReportSizes cfg (s.refreshStatusReport cfg) := by
  refine ⟨h.exchange, ?_, h.reader⟩
  rw [refreshStatusReport_exchange]
  show ((pushedNacks cfg s).foldl pushNack s.statusOwnedByWriter.reset).snSize = _
  rw [foldl_pushNack_snSize]
  exact h.writer

theorem ReportSizes.postProcess (h : ReportSizes cfg s) (stored statusRequested : Bool) :
    ReportSizes cfg (s.postProcess cfg stored statusRequested) := by
  unfold RlcRxAmEntity.postProcess
  dsimp only
  have hr := h.refresh
  split_ifs
  · exact ⟨hr.writer, hr.exchange, hr.reader⟩
  · exact ⟨h.writer, h.exchange, h.reader⟩
  · exact hr
  · exact h

/-- the index of RX_Next after a step -/
theorem indexOf_next (h : Inv InfoOk cfg t.next S H t.entity)
    (hR' : s'.st.rxNext = R' % cfg.snFieldLength.mod) (hle : t.next ≤ R')
    (hlt : R' ≤ t.next + cfg.snFieldLength.amWindowSize) : t.indexOf cfg s'.st.rxNext = R' := by
  obtain ⟨h0, h2⟩ := sizes cfg.snFieldLength
  unfold indexOf
  rw [hR', rxModBase_index h.rxNext hle (by omega)]
  omega

theorem received_append (pieces : List Piece) (p : Piece) (n i b : ℕ) (s : RlcRxAmEntity) :
    Received ⟨n, pieces ++ [p], s⟩ i b ↔ Received ⟨n, pieces, s⟩ i b ∨ (p.index = i ∧ p.so ≤ b ∧ b < p.so + p.len) := by
  unfold Received
  simp only [List.mem_append, List.mem_singleton, or_and_right, exists_or, exists_eq_left]

/-- a step that neither accepts a piece nor changes the window -/
theorem Exact.same (h : Exact cfg sdu S H t) (hinv : Inv InfoOk cfg t.next S' H s')
    (hw : s'.rxWindow = t.entity.rxWindow) (hs : ReportSizes cfg s') :
    Exact cfg sdu S' H ⟨t.indexOf cfg s'.st.rxNext, t.pieces ++ [], s'⟩ := by
  rw [indexOf_next h.inv hinv.rxNext le_rfl (Nat.le_add_right _ _), List.append_nil]
  refine ⟨hinv, h.genuine.congr hw, hs, h.below, fun i hi hi' b hb => ?_⟩
  rw [missing_congr (infoAt_of_window hw i)]
  exact h.received i hi hi' b hb

/-- nothing has been received of an SDU the window has not come to yet -/
theorem Exact.received_iff (h : Exact cfg sdu S H t) (hi : t.next ≤ i)
    (hi' : i < t.next + cfg.snFieldLength.mod) (hb : b < (sdu i).length) :
    t.Received i b ↔ ¬ Missing cfg t.entity i b := by
  have hH := h.inv.highest_le
  by_cases hiW : i < t.next + cfg.snFieldLength.amWindowSize
  · exact h.received i hi hiW b hb
  · have hnone := h.inv.toWindow.infoAt_none (show H ≤ i by omega) hi'
    refine iff_of_false ?_ (not_not.2 ⟨?_, ?_⟩)
    · rintro ⟨p, hp, rfl, -⟩
      have := h.below p hp
      omega
    · rw [full_iff, hnone]
      rintro ⟨_, hv, -⟩
      cases hv
    · rw [segmentsOf_of_none hnone]
      rintro ⟨_, hmem, -⟩
      cases hmem

/-- a step that accepts the piece of a handled PDU -/
theorem Exact.handled {so : ℕ} {s₁ : RlcRxAmEntity} (h : Exact cfg sdu S H t)
    (hi' : i < t.next + cfg.snFieldLength.amWindowSize)
    (hh : Handled cfg sdu t.next R' S' (max H (i + 1)) i so len passed t.entity s₁)
    (hinv : Inv InfoOk cfg R' S' (max H (i + 1)) s') (hw : s'.rxWindow = s₁.rxWindow) (hs : ReportSizes cfg s') :
    Exact cfg sdu S' (max H (i + 1)) ⟨t.indexOf cfg s'.st.rxNext, t.pieces ++ [⟨i, so, len⟩], s'⟩ := by
  have h0 := mod_eq cfg.snFieldLength
  have hH := h.inv.highest_le
  have hle := hh.le
  have hR' : R' ≤ t.next + cfg.snFieldLength.amWindowSize :=
    calc R' ≤ max H (i + 1) := le_trans hinv.next_le hinv.status_le
      _ ≤ t.next + cfg.snFieldLength.amWindowSize := max_le hH hi'
  rw [indexOf_next h.inv hinv.rxNext hle hR']
  refine ⟨hinv, hh.genuine.congr hw, hs, ?_, ?_⟩
  · intro p hp
    rcases List.mem_append.1 hp with hold | hnew
    · exact lt_of_lt_of_le (h.below p hold) (le_max_left _ _)
    · rw [List.mem_singleton.1 hnew]
      exact lt_of_lt_of_le (Nat.lt_succ_self i) (le_max_right _ _)
  · intro j hj hj' b hb
    replace hj' : j < R' + cfg.snFieldLength.amWindowSize := hj'
    have hold : t.Received j b ↔ _ := h.received_iff (le_trans hle hj) (by omega) hb
    rw [received_append, missing_congr (infoAt_of_window hw j), hh.missing j hj hj' b hb, not_and_or, not_not, ← hold]
    exact or_congr Iff.rfl ⟨fun hc => ⟨hc.1.symm, hc.2⟩, fun hc => ⟨hc.1.symm, hc.2⟩⟩

/-- what is accepted of a PDU that is read -/
theorem accepted_of_read (hread : rlcAmReadDataPduHeader cfg.snFieldLength buf = some (hdr, payload)) :
    t.accepted cfg (.handlePdu buf poolOk allocOk) =
      if hdr.dc = .data ∧ payload ≠ [] ∧ t.entity.insideRxWindow cfg hdr.sn ∧
          (t.entity.rxWindow.contains hdr.sn ∨ poolOk) then [⟨t.indexOf cfg hdr.sn, hdr.so, payload.length⟩]
      else [] := by
  unfold accepted
  dsimp only
  rw [hread]

theorem placeSdu_outside
    (h : s.insideRxWindow cfg hdr.sn = false) : (s.placeSdu cfg hdr payload poolOk allocOk).1 = s := by
  rw [placeSdu, h]
  rfl

/-- a PDU inside the window has an index there -/
theorem Exact.index {hdr : RlcAmPduHeader} {payload : Bytes} (h : Exact cfg sdu S H t)
    (hread : rlcAmReadDataPduHeader cfg.snFieldLength buf = some (hdr, payload))
    (hin : t.entity.insideRxWindow cfg hdr.sn = true) : hdr.Fits ∧ t.next ≤ t.indexOf cfg hdr.sn ∧
      t.indexOf cfg hdr.sn < t.next + cfg.snFieldLength.amWindowSize ∧
        hdr.sn = t.indexOf cfg hdr.sn % cfg.snFieldLength.mod := by
  obtain ⟨hfits, hsize, -⟩ := readDataPduHeader_fits hread
  obtain ⟨i, hi, -, hsn, hbase⟩ := exists_index h.inv.rxNext (hsize ▸ hfits.sn : hdr.sn < cfg.snFieldLength.mod)
  obtain rfl : t.indexOf cfg hdr.sn = i := by
    unfold indexOf
    omega
  exact ⟨hfits, hi, Nat.add_lt_add_left (of_decide_eq_true hin) _, hsn⟩

theorem handlePdu_exact (h : Exact cfg sdu S H t) (hgen : GenuineStep cfg sdu t (.handlePdu buf poolOk allocOk)) :
    ∃ S' H', Exact cfg sdu S' H' (t.step cfg (.handlePdu buf poolOk allocOk)) := by
  have hstep : t.step cfg (.handlePdu buf poolOk allocOk) =
      ⟨t.indexOf cfg (t.entity.handlePdu cfg buf poolOk allocOk).1.st.rxNext,
        t.pieces ++ t.accepted cfg (.handlePdu buf poolOk allocOk), (t.entity.handlePdu cfg buf poolOk allocOk).1⟩ :=
        rfl
  rw [hstep]
  rcases @handlePdu_cases cfg t.entity buf poolOk allocOk with ⟨heq, hnone⟩ | ⟨hdr, payload, hread, hdc, hpay, heq⟩
  · -- no data PDU
    have hacc : t.accepted cfg (.handlePdu buf poolOk allocOk) = [] := by
      cases hread : rlcAmReadDataPduHeader cfg.snFieldLength buf with
      | none =>
        unfold accepted
        dsimp only
        rw [hread]
      | some r =>
        rw [accepted_of_read hread, if_neg]
        rintro ⟨hdc, hpay, -⟩
        exact hpay (hnone _ _ hread hdc)
    rw [heq, hacc]
    exact ⟨S, H, h.same h.inv rfl h.sizes⟩
  · have hpost : ∀ {R' S' H' : ℕ} {s₁ : RlcRxAmEntity}, Inv InfoOk cfg R' S' H' s₁ → ∀ stored,
        Inv InfoOk cfg R' S' H' (s₁.postProcess cfg stored hdr.p) := fun hinv stored =>
        (hinv.postProcess stored hdr.p).1
    rw [heq, accepted_of_read hread]
    cases hin : t.entity.insideRxWindow cfg hdr.sn with
    | false =>
      rw [placeSdu_outside hin, if_neg (by simp)]
      exact ⟨S, H, h.same (hpost h.inv _) (postProcess_rxWindow _ _) (h.sizes.postProcess _ _)⟩
    | true =>
      obtain ⟨hfits, hi, hi', hsn⟩ := h.index hread hin
      have hpdu := hgen hdr payload hread hdc hin
      have hcontains : t.entity.rxWindow.contains hdr.sn = (infoAt cfg t.entity (t.indexOf cfg hdr.sn)).isSome := by
        unfold infoAt
        rw [← hsn]
        rfl
      rw [hcontains]
      rcases placeSdu_genuine poolOk allocOk h.inv h.genuine hi hi' hsn hfits hpdu hpay with
        ⟨hsame, hnone, hpool⟩ | ⟨⟨R', S', hh⟩, hroom⟩
      · rw [hsame, hnone, hpool, if_neg (by simp)]
        exact ⟨S, H, h.same (hpost h.inv _) (postProcess_rxWindow _ _) (h.sizes.postProcess _ _)⟩
      · rw [if_pos ⟨hdc, List.ne_nil_of_length_pos hpay, rfl,
          hroom.imp_left fun hne => Option.isSome_iff_ne_none.2 hne⟩]
        exact ⟨S', _, h.handled hi' hh (hpost hh.inv _) (postProcess_rxWindow _ _)
          ((h.sizes.same hh.report).postProcess _ _)⟩

theorem step_exact (op : Op) (h : ∃ S H, Exact cfg sdu S H t) (hgen : GenuineStep cfg sdu t op) :
    ∃ S H, Exact cfg sdu S H (t.step cfg op) := by
  obtain ⟨S, H, h⟩ := h
  cases op with
  | handlePdu buf poolOk allocOk => exact handlePdu_exact h hgen
  | reassemblyExpiry =>
    unfold step RlcRxAmEntity.step
    by_cases hrun : t.entity.reassemblyTimer = true
    · rw [if_pos hrun]
      obtain ⟨S', s', hinv, hw, -, hrep, heq, -⟩ := reassemblyExpiry_inv h.inv hrun
      rw [heq]
      have hs := (h.sizes.same hrep).refresh
      exact ⟨S', H, h.same (hinv.congr rfl rfl rfl) hw ⟨hs.writer, hs.exchange, hs.reader⟩⟩
    · rw [if_neg hrun]
      exact ⟨S, H, h.same h.inv rfl h.sizes⟩
  | statusProhibitExpiry => exact ⟨S, H, h.same (h.inv.congr rfl rfl rfl) rfl
      ⟨h.sizes.writer, h.sizes.exchange, h.sizes.reader⟩⟩
  | getStatusPdu =>
    unfold step RlcRxAmEntity.step
    by_cases hreq : t.entity.statusReportRequired = true
    · rw [if_pos hreq]
      exact ⟨S, H, h.same (h.inv.congr rfl rfl rfl) rfl ⟨h.sizes.writer, h.sizes.reader, h.sizes.exchange⟩⟩
    · rw [if_neg hreq]
      exact ⟨S, H, h.same h.inv rfl h.sizes⟩

theorem init_exact (cfg : RlcRxAmConfig) (hpos : ∀ i, 0 < (sdu i).length) (hlen : ∀ i, (sdu i).length ≤ 2 ^ 16) :
    Exact cfg sdu 0 0 (init cfg) := by
  have hinv := init_inv InfoOk cfg
  have hsizes : ReportSizes cfg (RlcRxAmEntity.init cfg) := ⟨rfl, rfl, rfl⟩
  refine ⟨hinv, ⟨hpos, hlen, fun i _ hi => absurd hi (Nat.not_lt_zero i)⟩, hsizes, ?_, ?_⟩
  · intro p hp
    cases hp
  · intro i _ hi b _
    refine iff_of_false ?_ (not_not.2 ⟨?_, ?_⟩)
    · rintro ⟨p, hp, -⟩
      cases hp
    · simp [Full, fullyReceived, RlcRxAmEntity.init, init]
    · rintro ⟨segm, hmem, -⟩
      simp [segmentsOf, RlcRxAmEntity.init, init] at hmem

/-! ## The expanded report -/

/-- a report as the transmitter expands it: NACKs of single SNs -/
def expanded (n : RlcAmSnSize) (report : RlcAmStatusPdu) : List RlcAmStatusNack :=
  report.nacks.flatMap (RlcTxAmEntity.expandNack n report.ackSn)

/-- a NACK that covers an SDU of the report denotes its first byte with offset soStart -/
theorem OffsetsIn.denotes_start {nack : RlcAmStatusNack} (h : nack.OffsetsIn len)
    (hsn : nack.nackSn < n.mod) (hlen : 0 < len) : ∃ b < len, nack.Denotes n nack.nackSn b := by
  have hr : nack.range = 1 := by rw [RlcAmStatusNack.range, h.single]; rfl
  cases hso : nack.hasSo with
  | false =>
    refine ⟨0, hlen, (denotes_of_range_one hr hsn _ _).2 ⟨rfl, fun hf => ?_⟩⟩
    rw [hso] at hf
    exact (Bool.false_ne_true hf).elim
  | true =>
    exact ⟨nack.soStart, h.start hso, (denotes_of_range_one hr hsn _ _).2
      ⟨rfl, fun _ => ⟨le_rfl, fun hne => (h.stop hso hne).1⟩⟩⟩

/-- among NACKs of single SNs with offsets in their SDUs, those denoting a byte are those that make a transmitter
request it -/
theorem requests_iff_denote {R A : ℕ} {nacks : List RlcAmStatusNack} (hA : A ≤ R + n.amWindowSize)
    (hat : ∀ y ∈ nacks, ∃ j, R ≤ j ∧ j < A ∧ y.nackSn = j % n.mod ∧ y.OffsetsIn (sdu j).length) (hi : R ≤ i)
    (hiA : i < A)
    (hlen : (sdu i).length ≤ 2 ^ 16) (hb : b < (sdu i).length) (peer : RlcTxAmEntity) (info : RlcTxAmSduInfo)
    (hinfo : info.sdu = sdu i) (hseg : peer.snUnderSegmentation ≠ i % n.mod) :
    (∃ nack ∈ nacks, nack.nackSn = i % n.mod ∧ peer.Requests info nack b) ↔ NacksDenote n nacks (i % n.mod) b := by
  have hmod := mod_eq n
  have hlt : i % n.mod < n.mod := Nat.mod_lt _ (mod_pos n)
  have hreq : ∀ nack ∈ nacks, nack.nackSn = i % n.mod →
      (peer.Requests info nack b ↔ nack.Denotes n (i % n.mod) b) := by
    intro nack hmem hsn
    obtain ⟨j, hj, hjA, hsnj, hoff⟩ := hat nack hmem
    have hji : j = i := eq_of_mod_eq (hsnj.symm.trans hsn) (by omega) (by omega)
    rw [hji, ← hinfo] at hoff
    rw [← hsn]
    exact requests_iff (hsn ▸ hlt) hoff (hinfo ▸ hlen) (fun heq => hseg (heq.symm.trans hsn)) (hinfo ▸ hb)
  constructor
  · rintro ⟨nack, hmem, hsn, hr⟩
    exact ⟨nack, hmem, (hreq nack hmem hsn).1 hr⟩
  · rintro ⟨nack, hmem, hden⟩
    obtain ⟨j, -, -, hsnj, hoff⟩ := hat nack hmem
    have hr : nack.range = 1 := by rw [RlcAmStatusNack.range, hoff.single]; rfl
    have hsn : nack.nackSn = i % n.mod := by
      have hnlt : nack.nackSn < n.mod := by
        rw [hsnj]
        exact Nat.mod_lt _ (mod_pos n)
      exact ((denotes_of_range_one hr hnlt _ _).1 hden).1.symm
    exact ⟨nack, hmem, hsn, (hreq nack hmem hsn).2 hden⟩

/-- in every state reached on genuine PDUs, the report covers SNs [RX_Next, ACK_SN); expanded, it denotes exactly the
bytes of these SDUs that have not been received, and so do the retransmissions it makes the peer queue; every expanded
NACK is about a byte not received; and pushing the NACKs, merged or not, adds up what they denote -/
theorem statusReport_exact (cfg : RlcRxAmConfig) (sdu : ℕ → Bytes)
    (hsdu : ∀ i, 0 < (sdu i).length ∧ (sdu i).length ≤ 2 ^ 16) (ops : List Op)
    (hgen : Machine.Always (step cfg) (GenuineStep cfg sdu) (init cfg) ops) :
    let n := cfg.snFieldLength
    let t := Machine.run (step cfg) (init cfg) ops
    let report := (t.entity.refreshStatusReport cfg).statusForExchange
    ∃ A, t.next ≤ A ∧ A ≤ t.next + n.amWindowSize ∧ t.entity.st.rxNext = t.next % n.mod ∧ report.ackSn = A % n.mod ∧
      (∀ i, t.next ≤ i → i < A → ∀ b < (sdu i).length,
        (NacksDenote n (expanded n report) (i % n.mod) b ↔ ¬ t.Received i b) ∧
        ∀ (peer : RlcTxAmEntity) (info : RlcTxAmSduInfo), info.sdu = sdu i → peer.snUnderSegmentation ≠ i % n.mod →
          ((∃ nack ∈ expanded n report, nack.nackSn = i % n.mod ∧ peer.Requests info nack b) ↔ ¬ t.Received i b)) ∧
      (∀ nack ∈ expanded n report, ∃ i, t.next ≤ i ∧ i < A ∧ nack.nackSn = i % n.mod ∧
        nack.OffsetsIn (sdu i).length ∧ ∃ b < (sdu i).length, nack.Denotes n nack.nackSn b ∧ ¬ t.Received i b) ∧
      ∀ k sn b,
        (NacksDenote n (((pushedNacks cfg t.entity).take k).foldl pushNack t.entity.statusOwnedByWriter.reset).nacks sn
        b ↔
          NacksDenote n ((pushedNacks cfg t.entity).take k) sn b) := by
  intro n t report
  have hpos : ∀ i, 0 < (sdu i).length := fun i => (hsdu i).1
  obtain ⟨S, H, hex⟩ : ∃ S H, Exact cfg sdu S H t :=
    Machine.run_inv (fun s op (hs : ∃ S H, Exact cfg sdu S H s) hg => step_exact op hs hg) (init cfg) ops
      ⟨0, 0, init_exact cfg hpos fun i => (hsdu i).2⟩ hgen
  obtain ⟨A, hRA, hAS, hack, hpush, hat, hden⟩ := report_spec hex.inv.toWindow hex.genuine hex.sizes.writer
  have hA : A ≤ t.next + n.amWindowSize := le_trans hAS (le_trans hex.inv.status_le hex.inv.highest_le)
  -- the expansion keeps what the report denotes, and the offsets in the SDUs
  have hexp : ∀ sn b, NacksDenote n (expanded n report) sn b ↔ NacksDenote n report.nacks sn b := by
    intro sn b
    refine nacksDenote_flatMap fun x hx => ?_
    obtain ⟨y, hy⟩ := hat x hx
    rw [show report.ackSn = A % n.mod from hack]
    exact (hy.expand hA hpos).1 sn b
  have hoff : ∀ y ∈ expanded n report, ∃ j, t.next ≤ j ∧ j < A ∧ y.nackSn = j % n.mod ∧ y.OffsetsIn (sdu j).length := by
    intro y hy
    obtain ⟨x, hx, hyx⟩ := List.mem_flatMap.1 hy
    obtain ⟨z, hz⟩ := hat x hx
    rw [show report.ackSn = A % n.mod from hack] at hyx
    obtain ⟨j, hj, hj', hsn, ho⟩ := (hz.expand hA hpos).2 y hyx
    exact ⟨j, le_trans hz.lo hj, lt_of_lt_of_le hj' hz.hi, hsn, ho⟩
  have hbytes : ∀ i, t.next ≤ i → i < A → ∀ b < (sdu i).length,
      (NacksDenote n (expanded n report) (i % n.mod) b ↔ ¬ t.Received i b) := by
    intro i hi hiA b hb
    rw [hexp, hden i hi hiA b hb, hex.received i hi (lt_of_lt_of_le hiA hA) b hb, not_not]
  refine ⟨A, hRA, hA, hex.inv.rxNext, hack, ?_, ?_, ?_⟩
  · intro i hi hiA b hb
    refine ⟨hbytes i hi hiA b hb, fun peer info hinfo hseg => ?_⟩
    rw [requests_iff_denote hA hoff hi hiA (hsdu i).2 hb peer info hinfo hseg]
    exact hbytes i hi hiA b hb
  · intro y hy
    obtain ⟨j, hj, hjA, hsn, ho⟩ := hoff y hy
    have hlt : y.nackSn < n.mod := by
      rw [hsn]
      exact Nat.mod_lt _ (mod_pos n)
    obtain ⟨b, hb, hyb⟩ := OffsetsIn.denotes_start ho hlt (hpos j)
    exact ⟨j, hj, hjA, hsn, ho, b, hb, hyb, (hbytes j hj hjA b hb).1 ⟨y, hy, hsn ▸ hyb⟩⟩
  · intro k sn b
    exact pushed_denote hex.sizes.writer (fun x hx => hpush x (List.mem_of_mem_take hx)) sn b

/-- a run in which every SDU is the same is genuine when every data PDU carries a piece of it -/
theorem genuineStep_of_pduOf {x : Bytes} {op : Op} (h : match op with
      | .handlePdu buf _ _ => (rlcAmReadDataPduHeader cfg.snFieldLength buf).all fun r => decide (PduOf x r.1 r.2)
      | _ => true) : GenuineStep cfg (fun _ => x) t op := by
  cases op with
  | handlePdu buf poolOk allocOk =>
    intro hdr payload hread _ _
    simp only [hread, Option.all_some, decide_eq_true_eq] at h
    exact h
  | reassemblyExpiry => trivial
  | statusProhibitExpiry => trivial
  | getStatusPdu => trivial

/-- the first two bytes of SN 0, nothing of SN 1, the whole SN 2, then t-Reassembly expires -/
theorem statusReport_exact_of_segment :
    let cfg : RlcRxAmConfig := ⟨.size12bits, 35, 0, none⟩
    let t := Machine.run (step cfg) (init cfg)
      [.handlePdu [0x90, 0, 1, 2] true true, .handlePdu [0x80, 2, 1, 2, 3, 4] true true, .reassemblyExpiry]
    let report := (t.entity.refreshStatusReport cfg).statusForExchange
    report.ackSn = 3 ∧
      ∀ i < 3, ∀ b < 4, (NacksDenote .size12bits (expanded .size12bits report) i b ↔ ¬ t.Received i b) := by
  intro cfg t report
  obtain ⟨A, -, hA, -, hack, hbytes, -⟩ := statusReport_exact cfg (fun _ => [1, 2, 3, 4])
    (fun _ => by decide) [.handlePdu [0x90, 0, 1, 2] true true, .handlePdu [0x80, 2, 1, 2, 3, 4] true true,
    .reassemblyExpiry]
    ⟨genuineStep_of_pduOf (by decide +kernel), genuineStep_of_pduOf (by decide +kernel), trivial, trivial⟩
  have hnext : t.next = 0 := by decide +kernel
  have hreport : report.ackSn = 3 := by decide +kernel
  have hA3 : A = 3 := by
    have h1 : A ≤ 0 + 2048 := hnext ▸ hA
    have h2 : (3 : ℕ) = A % 4096 := hreport.symm.trans hack
    omega
  refine ⟨hreport, fun i hi b hb => ?_⟩
  have h := (hbytes i (le_of_eq_of_le hnext (Nat.zero_le i)) (by omega) b hb).1
  rw [show i % cfg.snFieldLength.mod = i from Nat.mod_eq_of_lt (lt_trans hi (by decide))] at h
  exact h

end Traced

end RlcRxAmEntity

end OcuduRan.Rlc
