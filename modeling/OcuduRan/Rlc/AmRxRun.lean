/-
Runs of the receiver on arbitrary PDUs.

  place    handle_data_pdu drops a PDU outside the window, a duplicate, or one for which there is no room, and then
           leaves the state as it is; else it stores an SDU or a segment (`Placed`).
  step     every operation keeps the window invariant, and fails no assertion, as long as a segment does not make
           store_segment keep an offset of 2^16 or more (`FitsStep`).
  run      hence in every run whose steps all meet that condition the segments of each SDU stay sorted and apart and no
           assertion fails; `wrapped_offset_overlaps` is a run of three PDUs that breaks both without it.
-/
import OcuduRan.Rlc.AmPduHeader
import OcuduRan.Rlc.AmRxWindow

namespace OcuduRan.Rlc

open ModWindow List

namespace RlcRxAmEntity

variable {P : RlcRxAmSduInfo → Prop} {cfg : RlcRxAmConfig} {s : RlcRxAmEntity} {R S H i : ℕ} {sn : ℕ}
  {segments : List RlcRxAmSduSegment} {poolOk allocOk : Bool} {info : RlcRxAmSduInfo} {new : RlcRxAmSduSegment}
  {hdr : RlcAmPduHeader} {payload buf : Bytes}

/-! ## The status report fails no assertion -/

/-- offsets of the NACKs of one SDU are in order -/
theorem segmentNacks_ordered {lastSo : ℕ} {haveLast : Bool}
    (h : SegsOk segments) (hlast : ∀ segm ∈ segments, lastSo ≤ segm.so) :
    ∀ nack ∈ segmentNacks sn lastSo haveLast segments, nack.soStart ≤ nack.soEnd := by
  induction segments generalizing lastSo haveLast with
  | nil =>
    intro nack hnack
    cases haveLast with
    | true => simp [segmentNacks] at hnack
    | false =>
      simp only [segmentNacks, Bool.false_eq_true, if_false, mem_singleton] at hnack
      subst hnack
      simp only [soEndOfSdu]
      omega
  | cons segm rest ih =>
    intro nack hnack
    have hok : segm.Ok := h.ok segm (by simp)
    have hrest : SegsOk rest := @segsOk_remove [] _ _ h
    rw [segmentNacks, mem_append] at hnack
    rcases hnack with hnack | hnack
    · split_ifs at hnack with hne
      · rw [mem_singleton] at hnack
        subst hnack
        have h1 := hlast segm (by simp)
        have h2 := hok.so
        dsimp only
        omega
      · simp at hnack
    · refine ih hrest ?_ nack hnack
      intro w hw
      have h1 := (@SegsOk.split [] _ _ h).2 w hw
      have h2 := hok.lastByte_add_one
      omega

theorem missingFaults_nil (h : ∀ sn info, s.rxWindow.find? sn = some info → InfoOk info) (sn : ℕ) :
    s.missingFaults sn = [] := by
  unfold missingFaults
  cases hf : s.rxWindow.find? sn with
  | none => rfl
  | some info =>
    have hok := h sn info hf
    dsimp only
    split_ifs with hfull
    · rfl
    · obtain ⟨segments, hseg, -, -⟩ := hok.incomplete (by simpa using hfull)
      rw [hseg]
      rw [map_eq_nil_iff, filter_eq_nil_iff]
      intro nack hnack
      have := segmentNacks_ordered (hok.segs segments hseg) (fun _ _ => Nat.zero_le _) nack hnack
      simpa using this

theorem refreshStatusReport_faults (h : ∀ sn info, s.rxWindow.find? sn = some info → InfoOk info) :
    (s.refreshStatusReport cfg).faults = s.faults := by
  have hnil : (s.reportedSns cfg).flatMap s.missingFaults = [] := by
    rw [flatMap_eq_nil_iff]
    exact fun sn _ => missingFaults_nil h sn
  calc (s.refreshStatusReport cfg).faults = s.faults ++ (s.reportedSns cfg).flatMap s.missingFaults := rfl
    _ = s.faults := by rw [hnil, append_nil]

/-- the invariant is about the state variables, the window and t-Reassembly -/
theorem Inv.congr {s' : RlcRxAmEntity} (h : Inv P cfg R S H s) (hst : s'.st = s.st) (hw : s'.rxWindow = s.rxWindow)
    (ht : s'.reassemblyTimer = s.reassemblyTimer) : Inv P cfg R S H s' := by
  have hfull : ∀ j, Full cfg s' j ↔ Full cfg s j := by
    intro j
    unfold Full fullyReceived
    rw [hw]
  refine ⟨⟨?_, ?_, ?_, ?_, h.next_le, h.status_le, h.highest_le, ?_, ?_⟩, ?_, ?_, ?_, ?_⟩
  · rw [hw, h.cap]
  · rw [hst, h.rxNext]
  · rw [hst, h.rxHighestStatus]
  · rw [hst, h.rxNextHighest]
  · rw [hw]
    exact h.keys
  · rw [hw]
    exact h.infos
  · rw [hfull]
    exact h.next
  · rw [hfull]
    exact h.status
  · rw [hw]
    exact h.top
  · rw [ht, hst]
    exact h.timer

theorem Inv.refresh (h : Inv P cfg R S H s) : Inv P cfg R S H (s.refreshStatusReport cfg) := h.congr rfl rfl rfl

theorem Inv.postProcess (h : Inv InfoOk cfg R S H s) (stored statusRequested : Bool) :
    Inv InfoOk cfg R S H (s.postProcess cfg stored statusRequested) ∧
      (s.postProcess cfg stored statusRequested).faults = s.faults := by
  unfold RlcRxAmEntity.postProcess
  dsimp only
  have hr := h.refresh
  have hf : (s.refreshStatusReport cfg).faults = s.faults := refreshStatusReport_faults h.infos
  split_ifs with h1 h2 h2
  · exact ⟨hr.congr rfl rfl rfl, hf⟩
  · exact ⟨h.congr rfl rfl rfl, rfl⟩
  · exact ⟨hr, hf⟩
  · exact ⟨h, rfl⟩

@[simp] theorem postProcess_rxWindow (stored statusRequested : Bool) :
    (s.postProcess cfg stored statusRequested).rxWindow = s.rxWindow := by
  unfold RlcRxAmEntity.postProcess
  split_ifs
  · rfl
  · rfl
  · rfl
  · rfl

/-! ## Placing a data PDU -/

/-- the segments stored for an SN -/
def segmentsOf (s : RlcRxAmEntity) (sn : ℕ) : List RlcRxAmSduSegment :=
  match s.rxWindow.find? sn with
  | some { sduData := .segmentSet segments, .. } => segments
  | _ => []

/-- an SDU of which these segments are stored -/
def segmentInfo (segments : List RlcRxAmSduSegment) : RlcRxAmSduInfo :=
  { fullyReceived := (inventoryLoop 0 segments).2
    hasGap := (inventoryLoop 0 segments).1
    sduData := .segmentSet segments }

/-- an SDU received in one piece -/
def sduInfo (payload : Bytes) : RlcRxAmSduInfo :=
  { fullyReceived := true, hasGap := false, sduData := .slice payload }

/-- what becomes of a data PDU -/
inductive Placed (cfg : RlcRxAmConfig) (R : ℕ) (s : RlcRxAmEntity) (hdr : RlcAmPduHeader) (payload : Bytes)
    (poolOk allocOk : Bool) : RlcRxAmEntity × Bool → Prop where
  | outside (h : ∀ i, R ≤ i → i < R + cfg.snFieldLength.amWindowSize → hdr.sn ≠ i % cfg.snFieldLength.mod) :
      Placed cfg R s hdr payload poolOk allocOk (s, false)
  | duplicate (i : ℕ) (hi : R ≤ i) (hi' : i < R + cfg.snFieldLength.amWindowSize)
      (hsn : hdr.sn = i % cfg.snFieldLength.mod) (hfull : Full cfg s i) :
      Placed cfg R s hdr payload poolOk allocOk (s, false)
  | noRoom (i : ℕ) (hi : R ≤ i) (hi' : i < R + cfg.snFieldLength.amWindowSize)
      (hsn : hdr.sn = i % cfg.snFieldLength.mod) (hnone : infoAt cfg s i = none) (hpool : poolOk = false) :
      Placed cfg R s hdr payload poolOk allocOk (s, false)
  | known (i : ℕ) (hi : R ≤ i) (hi' : i < R + cfg.snFieldLength.amWindowSize)
      (hsn : hdr.sn = i % cfg.snFieldLength.mod) (hsi : hdr.si ≠ .fullSdu) (hnot : ¬ Full cfg s i)
      (hdrop : (storeLoop [] (s.segmentsOf hdr.sn) ⟨hdr.si, hdr.so, payload⟩).1 = false) :
      Placed cfg R s hdr payload poolOk allocOk (s, false)
  | sdu (i : ℕ) (hi : R ≤ i) (hi' : i < R + cfg.snFieldLength.amWindowSize)
      (hsn : hdr.sn = i % cfg.snFieldLength.mod) (hsi : hdr.si = .fullSdu) (hnot : ¬ Full cfg s i)
      (hroom : infoAt cfg s i ≠ none ∨ poolOk = true) :
      Placed cfg R s hdr payload poolOk allocOk
        ((s.putInfo hdr.sn (sduInfo payload)).afterStore cfg hdr.sn allocOk, true)
  | segment (i : ℕ) (hi : R ≤ i) (hi' : i < R + cfg.snFieldLength.amWindowSize)
      (hsn : hdr.sn = i % cfg.snFieldLength.mod) (hsi : hdr.si ≠ .fullSdu) (hnot : ¬ Full cfg s i)
      (hroom : infoAt cfg s i ≠ none ∨ poolOk = true) :
      Placed cfg R s hdr payload poolOk allocOk
        ((s.putInfo hdr.sn
            (segmentInfo (storeLoop [] (s.segmentsOf hdr.sn) ⟨hdr.si, hdr.so, payload⟩).2)).afterStore cfg hdr.sn
              allocOk, true)

/-- the segments that storing starts from -/
theorem obtainInfo_segments (h : s.obtainInfo sn poolOk = some info) (new : RlcRxAmSduSegment) : storeSegment info new =
      ((storeLoop [] (s.segmentsOf sn) new).1,
        { info with sduData := .segmentSet (storeLoop [] (s.segmentsOf sn) new).2 }) := by
  unfold obtainInfo at h
  unfold segmentsOf storeSegment
  cases hf : s.rxWindow.find? sn with
  | some v =>
    rw [hf] at h
    cases h
    obtain ⟨full, gap, data⟩ := info
    cases data <;> rfl
  | none =>
    rw [hf] at h
    dsimp only at h
    split_ifs at h
    cases h
    rfl

/-- writing back what is stored changes nothing -/
theorem putInfo_self (h : s.rxWindow.find? sn = some info) : s.putInfo sn info = s := by
  have hc : s.rxWindow.contains sn = true := CircularMap.contains_iff_mem_keys.2 (CircularMap.mem_keys.2 ⟨info, h⟩)
  unfold putInfo
  rw [if_pos hc, CircularMap.modify_self h]

/-- what is stored of an SDU that is not fully received is its set of segments -/
theorem find?_of_not_full (hinfo : InfoOk info) (hf : s.rxWindow.find? sn = some info)
    (hnot : s.fullyReceived sn = false) : info = segmentInfo (s.segmentsOf sn) := by
  have hflag : info.fullyReceived = false := by
    simpa [fullyReceived, hf] using hnot
  obtain ⟨segments, hseg, -, hinv⟩ := hinfo.incomplete hflag
  obtain ⟨full, gap, data⟩ := info
  dsimp only at hflag hseg hinv
  subst hflag hseg
  simp [segmentsOf, hf, segmentInfo, hinv]

section

variable (hinfos : ∀ sn info, s.rxWindow.find? sn = some info → InfoOk info)
include hinfos

theorem segsOk_segmentsOf (sn : ℕ) : SegsOk (s.segmentsOf sn) := by
  unfold segmentsOf
  split
  · next hf => exact (hinfos sn _ hf).segs _ rfl
  · exact segsOk_nil

theorem storeLoop_segmentsOf (hnew : new.Ok) (hwrap : NoWrap (s.segmentsOf sn) new) :
    Stored (s.segmentsOf sn) new (storeLoop [] (s.segmentsOf sn) new) :=
  @storeLoop_stored [] _ _ (segsOk_segmentsOf hinfos sn) hnew (by simp) hwrap

/-- a segment of which nothing is new leaves the state as it is -/
theorem putInfo_known (hnot : s.fullyReceived sn = false)
    (hnew : new.Ok) (hwrap : NoWrap (s.segmentsOf sn) new) (hdrop : (storeLoop [] (s.segmentsOf sn) new).1 = false) :
    s.putInfo sn (segmentInfo (storeLoop [] (s.segmentsOf sn) new).2) = s := by
  rw [(storeLoop_segmentsOf hinfos hnew hwrap).dropped hdrop]
  cases hf : s.rxWindow.find? sn with
  | none =>
    have hnil : s.segmentsOf sn = [] := by simp [segmentsOf, hf]
    rw [hnil] at hdrop
    cases hdrop
  | some info =>
    rw [← find?_of_not_full (hinfos sn info hf) hf hnot]
    exact putInfo_self hf

end

/-- a data PDU is placed or dropped, where a segment of which nothing is stored changes nothing -/
theorem placeSdu_cases (hdr : RlcAmPduHeader) (payload : Bytes) (poolOk allocOk : Bool)
    (hR : s.st.rxNext = R % cfg.snFieldLength.mod) (hsn : hdr.sn < cfg.snFieldLength.mod)
    (hknown : hdr.si ≠ .fullSdu → s.fullyReceived hdr.sn = false →
      (storeLoop [] (s.segmentsOf hdr.sn) ⟨hdr.si, hdr.so, payload⟩).1 = false →
      s.putInfo hdr.sn (segmentInfo (storeLoop [] (s.segmentsOf hdr.sn) ⟨hdr.si, hdr.so, payload⟩).2) = s) :
    Placed cfg R s hdr payload poolOk allocOk (s.placeSdu cfg hdr payload poolOk allocOk) := by
  obtain ⟨i, hi, him, heq, hbase⟩ := exists_index hR hsn
  unfold placeSdu insideRxWindow
  rw [hbase]
  by_cases hin : i - R < cfg.snFieldLength.amWindowSize
  · have hi' : i < R + cfg.snFieldLength.amWindowSize := by omega
    rw [if_neg (by simpa using hin)]
    cases hfull : s.fullyReceived hdr.sn with
    | true =>
      rw [if_pos rfl]
      exact .duplicate i hi hi' heq (by rw [heq] at hfull; exact hfull)
    | false =>
      rw [if_neg Bool.false_ne_true]
      have hnot : ¬ Full cfg s i := by
        unfold Full
        rw [← heq, hfull]
        exact Bool.false_ne_true
      cases hobt : s.obtainInfo hdr.sn poolOk with
      | none =>
        have hroom : infoAt cfg s i = none ∧ poolOk = false := by
          unfold obtainInfo at hobt
          unfold infoAt
          rw [← heq]
          cases hf : s.rxWindow.find? hdr.sn with
          | some v => rw [hf] at hobt; cases hobt
          | none =>
            rw [hf] at hobt
            cases poolOk with
            | true => cases hobt
            | false => exact ⟨rfl, rfl⟩
        simp only [handleFullDataSdu, handleSegmentDataSdu, hobt, ite_self, Bool.false_eq_true, if_false]
        exact .noRoom i hi hi' heq hroom.1 hroom.2
      | some info =>
        have hroom : infoAt cfg s i ≠ none ∨ poolOk = true := by
          unfold obtainInfo at hobt
          unfold infoAt
          rw [← heq]
          cases hf : s.rxWindow.find? hdr.sn with
          | some v => exact .inl (Option.some_ne_none v)
          | none =>
            rw [hf] at hobt
            cases poolOk with
            | true => exact .inr rfl
            | false => cases hobt
        by_cases hsi : hdr.si = .fullSdu
        · simp only [hsi, if_true, handleFullDataSdu, hobt]
          exact .sdu i hi hi' heq hsi hnot hroom
        · simp only [hsi, if_false, handleSegmentDataSdu, hobt, obtainInfo_segments hobt]
          cases hst : (storeLoop [] (s.segmentsOf hdr.sn) ⟨hdr.si, hdr.so, payload⟩).1 with
          | false =>
            rw [if_neg Bool.false_ne_true]
            show Placed _ _ _ _ _ _ _ (s.putInfo hdr.sn (segmentInfo _), _)
            rw [hknown hsi hfull hst]
            exact .known i hi hi' heq hsi hnot hst
          | true =>
            rw [if_pos rfl]
            exact .segment i hi hi' heq hsi hnot hroom
  · rw [if_pos (by simpa using hin)]
    refine .outside fun j hj hj' hsnj => ?_
    have := eq_of_mod_eq (heq.symm.trans hsnj) (by omega) (by omega)
    omega

theorem placeSdu_placed (hdr : RlcAmPduHeader) (payload : Bytes) (poolOk allocOk : Bool) (h : Window InfoOk cfg R S H s)
    (hsn : hdr.sn < cfg.snFieldLength.mod) (hnew : (⟨hdr.si, hdr.so, payload⟩ : RlcRxAmSduSegment).Ok)
    (hwrap : hdr.si ≠ .fullSdu → NoWrap (s.segmentsOf hdr.sn) ⟨hdr.si, hdr.so, payload⟩) :
    Placed cfg R s hdr payload poolOk allocOk (s.placeSdu cfg hdr payload poolOk allocOk) :=
  placeSdu_cases hdr payload poolOk allocOk h.rxNext hsn fun hsi hfull hdrop =>
    putInfo_known h.infos hfull hnew (hwrap hsi) hdrop

theorem segmentInfo_ok (h : SegsOk segments) (hne : segments ≠ []) : InfoOk (segmentInfo segments) := by
  refine ⟨?_, ?_⟩
  · intro segments' heq
    cases heq
    exact h
  · intro hno
    exact ⟨segments, rfl, hne, Prod.ext rfl hno⟩

theorem sduInfo_ok (payload : Bytes) : InfoOk (sduInfo payload) := by
  refine ⟨?_, ?_⟩
  · intro segments heq
    cases heq
  · intro hno
    cases hno

/-- something is stored once a segment has been stored -/
theorem stored_ne_nil {r : Bool × List RlcRxAmSduSegment} (h : Stored segments new r) (hnew : new.Ok) : r.2 ≠ [] := by
  intro hnil
  have hcov := (h.covers new.so).2 (.inr ⟨le_rfl, hnew.so_le_lastByte⟩)
  rw [hnil] at hcov
  exact covers_nil _ hcov

/-- a data PDU changes nothing, or what is stored of its SDU -/
theorem Placed.cases {r : RlcRxAmEntity × Bool} (hp : Placed cfg R s hdr payload poolOk allocOk r)
    (hsdu : P (sduInfo payload))
    (hsegm : hdr.si ≠ .fullSdu → P (segmentInfo (storeLoop [] (s.segmentsOf hdr.sn) ⟨hdr.si, hdr.so, payload⟩).2)) :
    r = (s, false) ∨ ∃ i info, R ≤ i ∧ i < R + cfg.snFieldLength.amWindowSize ∧ ¬ Full cfg s i ∧ P info ∧
      r = ((s.putInfo (i % cfg.snFieldLength.mod) info).afterStore cfg (i % cfg.snFieldLength.mod) allocOk, true) := by
  cases hp with
  | sdu i hi hi' heq _ hnot _ => exact .inr ⟨i, _, hi, hi', hnot, hsdu, by rw [heq]⟩
  | segment i hi hi' heq hsi hnot _ => exact .inr ⟨i, _, hi, hi', hnot, hsegm hsi, by rw [← heq]⟩
  | _ => exact .inl rfl

theorem placeSdu_stored (poolOk allocOk : Bool) (h : Window InfoOk cfg R S H s) (hsn : hdr.sn < cfg.snFieldLength.mod)
    (hnew : (⟨hdr.si, hdr.so, payload⟩ : RlcRxAmSduSegment).Ok)
    (hwrap : hdr.si ≠ .fullSdu → NoWrap (s.segmentsOf hdr.sn) ⟨hdr.si, hdr.so, payload⟩) :
    s.placeSdu cfg hdr payload poolOk allocOk = (s, false) ∨
      ∃ i info, R ≤ i ∧ i < R + cfg.snFieldLength.amWindowSize ∧ ¬ Full cfg s i ∧ InfoOk info ∧
        s.placeSdu cfg hdr payload poolOk allocOk =
          ((s.putInfo (i % cfg.snFieldLength.mod) info).afterStore cfg (i % cfg.snFieldLength.mod) allocOk, true) := by
  refine (placeSdu_placed hdr payload poolOk allocOk h hsn hnew hwrap).cases (sduInfo_ok payload) fun hsi => ?_
  have hstored := storeLoop_segmentsOf h.infos hnew (hwrap hsi)
  exact segmentInfo_ok hstored.ok (stored_ne_nil hstored hnew)

/-! ## Steps and runs -/

theorem placeSdu_inv (poolOk allocOk : Bool) (h : Inv InfoOk cfg R S H s)
    (hsn : hdr.sn < cfg.snFieldLength.mod) (hnew : (⟨hdr.si, hdr.so, payload⟩ : RlcRxAmSduSegment).Ok)
    (hwrap : hdr.si ≠ .fullSdu → NoWrap (s.segmentsOf hdr.sn) ⟨hdr.si, hdr.so, payload⟩) :
    ∃ R' S' H', Inv InfoOk cfg R' S' H' (s.placeSdu cfg hdr payload poolOk allocOk).1 ∧
      (cfg.tReassembly ≠ 0 → (s.placeSdu cfg hdr payload poolOk allocOk).1.faults = s.faults) := by
  rcases placeSdu_stored poolOk allocOk h.toWindow hsn hnew hwrap with heq | ⟨i, info, hi, hi', -, hinfo, heq⟩
  · rw [heq]
    exact ⟨R, S, H, h, fun _ => rfl⟩
  · rw [heq]
    obtain ⟨R', S', hst, -⟩ := afterStore_spec allocOk h hi hi' hinfo
    exact ⟨R', S', _, hst.inv, hst.report.faults⟩

/-- the step does not make store_segment keep an offset of 2^16 or more -/
def FitsStep (cfg : RlcRxAmConfig) (s : RlcRxAmEntity) : Op → Prop
  | .handlePdu buf _ _ => ∀ hdr payload, rlcAmReadDataPduHeader cfg.snFieldLength buf = some (hdr, payload) →
      hdr.dc = .data → hdr.si ≠ .fullSdu → NoWrap (s.segmentsOf hdr.sn) ⟨hdr.si, hdr.so, payload⟩
  | _ => True

/-- a state between two operations in which no assertion has failed -/
def Good (cfg : RlcRxAmConfig) (s : RlcRxAmEntity) : Prop := ∃ R S H, Inv InfoOk cfg R S H s ∧ s.faults = []

theorem init_inv (P : RlcRxAmSduInfo → Prop) (cfg : RlcRxAmConfig) : Inv P cfg 0 0 0 (init cfg) := by
  refine ⟨⟨rfl, ?_, ?_, ?_, le_rfl, le_rfl, Nat.zero_le _, ?_, ?_⟩, ?_, .inl rfl, .inl rfl, ?_⟩
  · exact (Nat.zero_mod _).symm
  · exact (Nat.zero_mod _).symm
  · exact (Nat.zero_mod _).symm
  · intro sn hsn
    simp [init] at hsn
  · intro sn info hf
    simp [init] at hf
  · simp [Full, fullyReceived, init]
  · intro hrun
    cases hrun

theorem handleDataPdu_eq (poolOk allocOk : Bool)
    (hread : rlcAmReadDataPduHeader cfg.snFieldLength buf = some (hdr, payload)) :
    s.handleDataPdu cfg buf poolOk allocOk =
      if buf.length ≤ hdr.getPackedSize then s
      else (s.placeSdu cfg hdr payload poolOk allocOk).1.postProcess cfg
        (s.placeSdu cfg hdr payload poolOk allocOk).2 hdr.p := by
  rw [handleDataPdu, hread, (readDataPduHeader_fits hread).2.2]

/-- handle_pdu places the payload of a data PDU, and leaves the state as it is for anything else -/
theorem handlePdu_cases (buf : Bytes) (poolOk allocOk : Bool) : ((s.handlePdu cfg buf poolOk allocOk).1 = s ∧
      ∀ hdr payload, rlcAmReadDataPduHeader cfg.snFieldLength buf = some (hdr, payload) → hdr.dc = .data →
        payload = []) ∨
    ∃ hdr payload, rlcAmReadDataPduHeader cfg.snFieldLength buf = some (hdr, payload) ∧ hdr.dc = .data ∧
      0 < payload.length ∧ (s.handlePdu cfg buf poolOk allocOk).1 =
        (s.placeSdu cfg hdr payload poolOk allocOk).1.postProcess cfg
          (s.placeSdu cfg hdr payload poolOk allocOk).2 hdr.p := by
  cases buf with
  | nil =>
    refine .inl ⟨rfl, fun hdr payload hread => ?_⟩
    have hnone : rlcAmReadDataPduHeader cfg.snFieldLength [] = none := if_pos (Nat.zero_le _)
    rw [hnone] at hread
    cases hread
  | cons b rest =>
    rw [handlePdu]
    by_cases hc : (b.toNat >>> 7) &&& 0x01 = RlcDcField.control.toNumber
    · rw [if_pos hc]
      refine .inl ⟨?_, fun hdr payload hread hdc => ?_⟩
      · split
        · rfl
        · rfl
      · rw [readDataPduHeader_dc hread, if_pos (show (b.toNat >>> 7) &&& 0x01 = 0 from hc)] at hdc
        cases hdc
    · rw [if_neg hc]
      cases hread : rlcAmReadDataPduHeader cfg.snFieldLength (b :: rest) with
      | none =>
        rw [handleDataPdu, hread]
        exact .inl ⟨rfl, fun hdr payload h => by cases h⟩
      | some r =>
        obtain ⟨hdr, payload⟩ := r
        obtain ⟨-, -, hpay⟩ := readDataPduHeader_fits hread
        rw [handleDataPdu_eq poolOk allocOk hread]
        by_cases hlen : (b :: rest).length ≤ hdr.getPackedSize
        · rw [if_pos hlen]
          refine .inl ⟨rfl, fun hdr' payload' h _ => ?_⟩
          cases h
          rw [hpay]
          exact drop_eq_nil_of_le hlen
        · rw [if_neg hlen]
          refine .inr ⟨hdr, payload, rfl, ?_, ?_, rfl⟩
          · rw [readDataPduHeader_dc hread]
            exact if_neg hc
          · rw [hpay, length_drop]
            omega

theorem handlePdu_good (ht0 : cfg.tReassembly ≠ 0) (h : Good cfg s)
    (hfit : FitsStep cfg s (.handlePdu buf poolOk allocOk)) : Good cfg (s.handlePdu cfg buf poolOk allocOk).1 := by
  obtain ⟨R, S, H, hinv, hf⟩ := h
  rcases handlePdu_cases buf poolOk allocOk with ⟨heq, -⟩ | ⟨hdr, payload, hread, hdc, hpay, heq⟩
  · rw [heq]
    exact ⟨R, S, H, hinv, hf⟩
  · obtain ⟨hfits, hsize, -⟩ := readDataPduHeader_fits hread
    obtain ⟨R', S', H', hinv', hf'⟩ := placeSdu_inv poolOk allocOk hinv (hsize ▸ hfits.sn) ⟨hpay, hfits.so⟩
      (hfit hdr payload hread hdc)
    obtain ⟨hpost, hpf⟩ := hinv'.postProcess (s.placeSdu cfg hdr payload poolOk allocOk).2 hdr.p
    rw [heq]
    exact ⟨R', S', H', hpost, by rw [hpf, hf' ht0, hf]⟩

/-- at an expiry of t-Reassembly RX_Highest_Status moves to an index up to RX_Next_Highest -/
theorem onExpiredReassemblyTimer_eq (h : Window P cfg R S H s) (hoff : s.reassemblyTimer = false) {T : ℕ} (hT : R < T)
    (hTH : T ≤ H) (htrig : s.st.rxNextStatusTrigger = T % cfg.snFieldLength.mod) :
    ∃ b, T ≤ b ∧ b ≤ H ∧ (b = H ∨ ¬ Full cfg s b) ∧ s.onExpiredReassemblyTimer cfg =
      { (({ s with st := { s.st with rxHighestStatus := b % cfg.snFieldLength.mod } } : RlcRxAmEntity).restartReassembly
          cfg (b % cfg.snFieldLength.mod)).refreshStatusReport cfg with doStatus := true } := by
  obtain ⟨h0, -, -, -, h5⟩ := h.bounds
  obtain ⟨b, hTb, hbH, hupd, -, hend⟩ := firstNotFullyReceived_spec h.rxNext h.rxNextHighest (by omega)
    cfg.snFieldLength.mod hT.le hTH (by omega)
  have hvalid : ∀ a, R < a → a ≤ H → s.validAckSn cfg (a % cfg.snFieldLength.mod) = true := by
    intro a ha haH
    unfold validAckSn
    rw [rxModBase_index h.rxNext ha.le (by omega)]
    simp only [Bool.and_eq_true, decide_eq_true_eq]
    omega
  have hraise : s.raiseHighestStatus cfg (b % cfg.snFieldLength.mod) =
      { s with st := { s.st with rxHighestStatus := b % cfg.snFieldLength.mod } } := by
    rw [raiseHighestStatus, hvalid b (by omega) hbH]
    rfl
  refine ⟨b, hTb, hbH, hend, ?_⟩
  rw [onExpiredReassemblyTimer, if_neg (by simp [hoff]), htrig, hvalid T hT hTH, hupd, hraise]
  rfl

/-- an expiry moves RX_Highest_Status and leaves the window and RX_Next as they are -/
theorem reassemblyExpiry_inv (h : Inv P cfg R S H s) (hrun : s.reassemblyTimer = true) :
    ∃ S' t, Inv P cfg R S' H t ∧ t.rxWindow = s.rxWindow ∧ t.delivered = s.delivered ∧ SameReport cfg s t ∧
      ({ s with reassemblyTimer := false }.onExpiredReassemblyTimer cfg) =
        { t.refreshStatusReport cfg with doStatus := true } ∧
      (∃ T, R < T ∧ T ≤ S' ∧ s.st.rxNextStatusTrigger = T % cfg.snFieldLength.mod) ∧
      (t.reassemblyTimer = true → t.st.rxNextStatusTrigger = H % cfg.snFieldLength.mod) := by
  obtain ⟨T, hT, hTH, htrig⟩ := h.timer hrun
  have hw : Window P cfg R S H { s with reassemblyTimer := false } :=
    { h with }
  obtain ⟨b, hTb, hbH, hend, heq⟩ := onExpiredReassemblyTimer_eq hw rfl hT hTH htrig
  -- RX_Highest_Status has moved to index b
  have hwb : Window P cfg R b H { s with
      reassemblyTimer := false
      st := { s.st with rxHighestStatus := b % cfg.snFieldLength.mod } } :=
    ⟨h.cap, h.rxNext, rfl, h.rxNextHighest, by omega, hbH, h.highest_le, h.keys, h.infos⟩
  refine ⟨b, _, ?_, ?_, ?_, ?_, heq, ⟨T, hT, hTb, htrig⟩, ?_⟩
  all_goals rcases restartReassembly_spec hwb (by omega : R ≤ b) hbH with hre | ⟨hlt, faults, hfaults, hre⟩
  all_goals rw [hre]
  · exact ⟨hwb, h.next, hend, h.top, fun hon => (Bool.false_ne_true hon).elim⟩
  · exact ⟨⟨h.cap, h.rxNext, rfl, h.rxNextHighest, by omega, hbH, h.highest_le, h.keys, h.infos⟩, h.next, hend, h.top,
      fun _ => ⟨H, hlt, le_rfl, rfl⟩⟩
  · exact ⟨rfl, rfl, rfl, rfl, rfl, rfl, fun _ => rfl⟩
  · exact ⟨rfl, rfl, rfl, rfl, rfl, rfl, hfaults⟩
  · exact fun hon => (Bool.false_ne_true hon).elim
  · exact fun _ => rfl

theorem reassemblyExpiry_good (ht0 : cfg.tReassembly ≠ 0) (h : Inv InfoOk cfg R S H s) (hf : s.faults = [])
    (hrun : s.reassemblyTimer = true) : Good cfg
    ({ s with reassemblyTimer := false }.onExpiredReassemblyTimer cfg) := by
  obtain ⟨S', t, ht, -, -, hsame, heq, -⟩ := reassemblyExpiry_inv h hrun
  have hr : Inv InfoOk cfg R S' H (t.refreshStatusReport cfg) := ht.refresh
  have hrf : (t.refreshStatusReport cfg).faults = t.faults := refreshStatusReport_faults ht.infos
  rw [heq]
  exact ⟨R, S', H, hr.congr rfl rfl rfl, by rw [← hf, ← hsame.faults ht0]; exact hrf⟩

theorem step_good (ht0 : cfg.tReassembly ≠ 0) (op : Op) (h : Good cfg s) (hfit : FitsStep cfg s op) :
    Good cfg (s.step cfg op) := by
  cases op with
  | handlePdu buf poolOk allocOk => exact handlePdu_good ht0 h hfit
  | reassemblyExpiry =>
    obtain ⟨R, S, H, hinv, hf⟩ := h
    unfold step
    by_cases hrun : s.reassemblyTimer = true
    · rw [if_pos hrun]
      exact reassemblyExpiry_good ht0 hinv hf hrun
    · rw [if_neg hrun]
      exact ⟨R, S, H, hinv, hf⟩
  | statusProhibitExpiry =>
    obtain ⟨R, S, H, hinv, hf⟩ := h
    exact ⟨R, S, H, hinv.congr rfl rfl rfl, hf⟩
  | getStatusPdu =>
    obtain ⟨R, S, H, hinv, hf⟩ := h
    unfold step
    by_cases hreq : s.statusReportRequired = true
    · rw [if_pos hreq]
      exact ⟨R, S, H, hinv.congr rfl rfl rfl, hf⟩
    · rw [if_neg hreq]
      exact ⟨R, S, H, hinv, hf⟩

/-- with a t-Reassembly, in every run that never has to keep an offset of 2^16 or more, the segments of every SDU stay
sorted and apart and no assertion fails -/
theorem segments_apart_and_assertions_hold (cfg : RlcRxAmConfig) (ht0 : cfg.tReassembly ≠ 0) (ops : List Op)
    (h : Machine.Always (step cfg) (FitsStep cfg) (init cfg) ops) :
    (∀ sn, SegsOk ((Machine.run (step cfg) (init cfg) ops).segmentsOf sn)) ∧
      (Machine.run (step cfg) (init cfg) ops).faults = [] := by
  have hgood : Good cfg (Machine.run (step cfg) (init cfg) ops) :=
    Machine.run_inv (fun s op hs hfit => step_good ht0 op hs hfit) (init cfg) ops ⟨0, 0, 0, init_inv _ cfg, rfl⟩ h
  obtain ⟨R, S, H, hinv, hf⟩ := hgood
  exact ⟨fun sn => segsOk_segmentsOf hinv.infos sn, hf⟩

/-- a segment that ends before offset 65535 meets the condition in every state -/
theorem fitsStep_of_short
    (h : (rlcAmReadDataPduHeader cfg.snFieldLength buf).all fun r => r.1.so + r.2.length < 2 ^ 16) :
    FitsStep cfg s (.handlePdu buf poolOk allocOk) := by
  intro hdr payload hread _ _ cur _ _ hnew
  rw [hread] at h
  simp only [Option.all_some, decide_eq_true_eq] at h
  unfold RlcRxAmSduSegment.lastByte at hnew
  dsimp only at hnew
  omega

theorem segments_apart_overlapping_pair :
    (∀ sn, SegsOk ((Machine.run (step ⟨.size12bits, 35, 0, none⟩) (init ⟨.size12bits, 35, 0, none⟩)
      [.handlePdu [0x90, 0x00, 1, 2, 3] true true, .handlePdu [0xb0, 0x00, 0x00, 0x02, 3, 4] true true]).segmentsOf
      sn)) ∧
    (Machine.run (step ⟨.size12bits, 35, 0, none⟩) (init ⟨.size12bits, 35, 0, none⟩)
      [.handlePdu [0x90, 0x00, 1, 2, 3] true true, .handlePdu [0xb0, 0x00, 0x00, 0x02, 3, 4] true true]).faults = [] :=
  segments_apart_and_assertions_hold _ (by decide) _
    ⟨fitsStep_of_short (by decide +kernel), fitsStep_of_short (by decide +kernel), trivial⟩

/-- segments at offsets 0 to 9 and 65535 to 65536, then one at 65535 to 65537: the new byte 65537 is stored at offset
1 -/
theorem wrapped_offset_overlaps :
    let s := Machine.run (step ⟨.size12bits, 35, 0, none⟩) (init ⟨.size12bits, 35, 0, none⟩)
      [.handlePdu [0x90, 0x00, 1, 1, 1, 1, 1, 1, 1, 1, 1, 1] true true,
       .handlePdu [0xb0, 0x00, 0xff, 0xff, 2, 2] true true,
       .reassemblyExpiry,
       .handlePdu [0xb0, 0x00, 0xff, 0xff, 3, 3, 3] true true]
    (s.segmentsOf 0).map (fun segm => (segm.so, segm.payload.length)) = [(0, 10), (1, 1), (65535, 2)] ∧
      ¬ SegsOk (s.segmentsOf 0) ∧ s.faults = [.nackOffsets 0] := by
  decide +kernel

end RlcRxAmEntity

end OcuduRan.Rlc
