/-
The receiver on genuine data PDUs.

Index `i` stands for an SDU `sdu i`; a data PDU of index `i` is genuine when it carries a piece of that SDU. Placing one
either finds no room for a new SN, or is `Handled`: the bytes missing afterwards are those missing before without the
ones the PDU carries, an SDU that becomes complete is the SDU sent, and it is passed on exactly then.
-/
import OcuduRan.Rlc.AmGenuine
import OcuduRan.Rlc.AmRxRun

namespace OcuduRan.Rlc

theorem PduOf.segmentOf {sdu payload : Bytes} {hdr : RlcAmPduHeader} (h : PduOf sdu hdr payload)
    (hsi : hdr.si ≠ .fullSdu) : SegmentOf sdu ⟨hdr.si, hdr.so, payload⟩ := by
  refine ⟨h.bytes, h.le, ?_⟩
  rw [← h.last]
  exact ⟨.inr, fun hor => hor.resolve_left hsi⟩

/-- a PDU with a whole SDU carries all its bytes -/
theorem PduOf.eq_sdu {sdu payload : Bytes} {hdr : RlcAmPduHeader} (h : PduOf sdu hdr payload) (hfit : hdr.Fits)
    (hsi : hdr.si = .fullSdu) : payload = sdu ∧ hdr.so = 0 := by
  have hso : hdr.so = 0 := hfit.noSo (by rw [hsi]; rfl)
  have hlen := h.last.1 (.inl hsi)
  rw [hso, Nat.zero_add] at hlen
  refine ⟨?_, hso⟩
  have hbytes := h.bytes
  rw [hso, List.drop_zero, hlen, List.take_length] at hbytes
  exact hbytes

namespace RlcRxAmEntity

variable {cfg : RlcRxAmConfig} {s s' : RlcRxAmEntity} {R S H i b : ℕ} {sdu : ℕ → Bytes}

/-- byte `b` of the SDU of index `i` is not stored, and the SDU not complete -/
def Missing (cfg : RlcRxAmConfig) (s : RlcRxAmEntity) (i b : ℕ) : Prop :=
  ¬ Full cfg s i ∧ ¬ Covers (s.segmentsOf (i % cfg.snFieldLength.mod)) b

/-- the SDU of index `i` has been completed -/
def Done (cfg : RlcRxAmConfig) (R : ℕ) (s : RlcRxAmEntity) (i : ℕ) : Prop := i < R ∨ Full cfg s i

/-- indices stand for SDUs whose bytes have 16-bit offsets, and what is stored of incomplete SDUs are pieces of them -/
structure Genuine (cfg : RlcRxAmConfig) (R H : ℕ) (sdu : ℕ → Bytes) (s : RlcRxAmEntity) : Prop where
  pos : ∀ i, 0 < (sdu i).length
  len : ∀ i, (sdu i).length ≤ 2 ^ 16
  pieces : ∀ i, R ≤ i → i < H → ∀ segm ∈ s.segmentsOf (i % cfg.snFieldLength.mod), SegmentOf (sdu i) segm

theorem segmentsOf_congr (h : infoAt cfg s' i = infoAt cfg s i) :
    s'.segmentsOf (i % cfg.snFieldLength.mod) = s.segmentsOf (i % cfg.snFieldLength.mod) := by
  unfold infoAt at h
  unfold segmentsOf
  rw [h]

theorem missing_congr (h : infoAt cfg s' i = infoAt cfg s i) : Missing cfg s' i b ↔ Missing cfg s i b := by
  unfold Missing
  rw [full_iff_of_infoAt h, segmentsOf_congr h]

theorem segmentsOf_of_none (h : infoAt cfg s i = none) : s.segmentsOf (i % cfg.snFieldLength.mod) = [] := by
  unfold infoAt at h
  unfold segmentsOf
  rw [h]

theorem segmentsOf_of_some {segments : List RlcRxAmSduSegment} (h : infoAt cfg s i = some (segmentInfo segments)) :
    s.segmentsOf (i % cfg.snFieldLength.mod) = segments := by
  unfold infoAt at h
  unfold segmentsOf
  rw [h]
  rfl

theorem infoAt_of_window (hw : s'.rxWindow = s.rxWindow) (i : ℕ) : infoAt cfg s' i = infoAt cfg s i := by
  unfold infoAt
  rw [hw]

theorem Genuine.congr (hg : Genuine cfg R H sdu s) (hw : s'.rxWindow = s.rxWindow) : Genuine cfg R H sdu s' := by
  refine ⟨hg.pos, hg.len, fun i hi hiH => ?_⟩
  rw [segmentsOf_congr (infoAt_of_window hw i)]
  exact hg.pieces i hi hiH

theorem Genuine.pieces' (hg : Genuine cfg R H sdu s) (h : Window InfoOk cfg R S H s) (hi : R ≤ i)
    (hi' : i < R + cfg.snFieldLength.amWindowSize) :
    ∀ segm ∈ s.segmentsOf (i % cfg.snFieldLength.mod), SegmentOf (sdu i) segm := by
  have h0 := mod_eq cfg.snFieldLength
  by_cases hiH : i < H
  · exact hg.pieces i hi hiH
  · rw [segmentsOf_of_none (h.infoAt_none (by omega) (by omega))]
    simp

/-- what an accepted PDU of index `i` with `len` bytes from offset `so` does; `passed` says whether an SDU that is
complete now could be reassembled -/
structure Handled (cfg : RlcRxAmConfig) (sdu : ℕ → Bytes) (R R' S' H' i so len : ℕ) (passed : Bool)
    (s s' : RlcRxAmEntity) : Prop where
  inv : Inv InfoOk cfg R' S' H' s'
  genuine : Genuine cfg R' H' sdu s'
  le : R ≤ R'
  missing : ∀ j, R' ≤ j → j < R' + cfg.snFieldLength.amWindowSize → ∀ b < (sdu j).length,
    (Missing cfg s' j b ↔ Missing cfg s j b ∧ ¬ (j = i ∧ so ≤ b ∧ b < so + len))
  done : ∀ j, j < R' + cfg.snFieldLength.amWindowSize → j ≠ i → (Done cfg R' s' j ↔ Done cfg R s j)
  delivered : (¬ Done cfg R s i ∧ Done cfg R' s' i ∧ s'.delivered = s.delivered ++ (if passed then [sdu i] else [])) ∨
    ((Done cfg R' s' i ↔ Done cfg R s i) ∧ s'.delivered = s.delivered)
  complete : Done cfg R' s' i → ∀ b < (sdu i).length, ¬ Missing cfg s i b ∨ (so ≤ b ∧ b < so + len)
  report : SameReport cfg s s'

/-- a PDU that brings nothing new -/
theorem handled_known {so len : ℕ} (passed : Bool) (h : Inv InfoOk cfg R S H s) (hg : Genuine cfg R H sdu s)
    (hi : R ≤ i) (hiH : i < H) (hknown : ∀ b, so ≤ b → b < so + len → ¬ Missing cfg s i b) :
    Handled cfg sdu R R S (max H (i + 1)) i so len passed s s := by
  rw [max_eq_left hiH]
  refine ⟨h, hg, le_rfl, ?_, fun _ _ _ => Iff.rfl, .inr ⟨Iff.rfl, rfl⟩, ?_, SameReport.refl s⟩
  · intro j _ _ b _
    refine ⟨fun hm => ⟨hm, ?_⟩, fun hm => hm.1⟩
    rintro ⟨rfl, hlo, hhi⟩
    exact hknown b hlo hhi hm
  · intro hdone b _
    refine .inl fun hm => ?_
    rcases hdone with hlt | hf
    · omega
    · exact hm.1 hf

/-- data stored for index `i`: either the SDU is complete now, or its segments have grown by those bytes -/
theorem handled_of_stores {R' S' so len : ℕ} {passed : Bool} {info : RlcRxAmSduInfo} {out : List Bytes}
    {segments : List RlcRxAmSduSegment} (h : Inv InfoOk cfg R S H s) (hg : Genuine cfg R H sdu s) (hi : R ≤ i)
    (hi' : i < R + cfg.snFieldLength.amWindowSize) (hnot : ¬ Full cfg s i)
    (hst : Stores InfoOk cfg R R' S' (max H (i + 1)) i info out s s')
    (hcomp : info.fullyReceived = true → out = (if passed then [sdu i] else []) ∧
      ∀ b < (sdu i).length, ¬ Missing cfg s i b ∨ (so ≤ b ∧ b < so + len))
    (hinc : info.fullyReceived = false → out = [] ∧ info = segmentInfo segments ∧
      (∀ segm ∈ segments, SegmentOf (sdu i) segm) ∧
      ∀ b, Covers segments b ↔ Covers (s.segmentsOf (i % cfg.snFieldLength.mod)) b ∨ (so ≤ b ∧ b < so + len)) :
    Handled cfg sdu R R' S' (max H (i + 1)) i so len passed s s' := by
  obtain ⟨h0, -, -, -, h5⟩ := h.bounds
  have hle := hst.le
  have hR'H : R' ≤ max H (i + 1) := le_trans hst.inv.next_le hst.inv.status_le
  have hnotDone : ¬ Done cfg R s i := by
    rintro (hlt | hf)
    · omega
    · exact hnot hf
  have hothers : ∀ j, j < R' + cfg.snFieldLength.amWindowSize → j ≠ i → (Done cfg R' s' j ↔ Done cfg R s j) := by
    intro j hj hij
    by_cases hjR' : R' ≤ j
    · have hfull := full_iff_of_infoAt (hst.others j hjR' hj hij)
      unfold Done
      rw [hfull]
      constructor
      · rintro (hlt | hf)
        · omega
        · exact .inr hf
      · rintro (hlt | hf)
        · omega
        · exact .inr hf
    · refine iff_of_true (.inl (by omega)) ?_
      by_cases hjR : j < R
      · exact .inl hjR
      · rcases hst.passed j (by omega) (by omega) with hf | ⟨heq, -⟩
        · exact .inr hf
        · exact absurd heq hij
  cases hf : info.fullyReceived with
  | true =>
    obtain ⟨hout, hall⟩ := hcomp hf
    have hfull' : R' ≤ i → Full cfg s' i ∧ s'.segmentsOf (i % cfg.snFieldLength.mod) = [] := by
      intro hRi
      have hat := hst.complete hf hRi
      refine ⟨full_iff.2 ⟨_, hat, hf⟩, ?_⟩
      unfold infoAt at hat
      unfold segmentsOf
      rw [hat]
    have hdone' : Done cfg R' s' i := by
      by_cases hRi : R' ≤ i
      · exact .inr (hfull' hRi).1
      · exact .inl (by omega)
    refine ⟨hst.inv, ⟨hg.pos, hg.len, ?_⟩, hle, ?_, hothers, .inl ⟨hnotDone, hdone', ?_⟩, fun _ => hall, hst.report⟩
    · intro j hj hjH
      by_cases hij : j = i
      · rw [hij, (hfull' (by omega)).2]
        simp
      · rw [segmentsOf_congr (hst.others j hj (by omega) hij)]
        exact hg.pieces' h.toWindow (by omega) (by omega)
    · intro j hj hj' b hb
      by_cases hij : j = i
      · subst hij
        refine iff_of_false (fun hm => hm.1 (hfull' hj).1) ?_
        rintro ⟨hm, hno⟩
        rcases hall b hb with hm' | hin
        · exact hm' hm
        · exact hno ⟨rfl, hin⟩
      · rw [missing_congr (hst.others j hj hj' hij)]
        exact ⟨fun hm => ⟨hm, fun hc => hij hc.1⟩, fun hm => hm.1⟩
    · rw [hst.delivered, hout]
  | false =>
    obtain ⟨hout, hseg, hpieces, hcov⟩ := hinc hf
    obtain ⟨rfl, hat⟩ := hst.incomplete hf
    rw [hseg] at hat
    have hsegs := segmentsOf_of_some hat
    have hnot' : ¬ Full cfg s' i := by
      rw [full_iff]
      rintro ⟨v, hv, hvf⟩
      rw [hat] at hv
      cases hv
      rw [← hseg, hf] at hvf
      cases hvf
    have hnotDone' : ¬ Done cfg R' s' i := by
      rintro (hlt | hfull)
      · omega
      · exact hnot' hfull
    refine ⟨hst.inv, ⟨hg.pos, hg.len, ?_⟩, hle, ?_, hothers, .inr ⟨iff_of_false hnotDone' hnotDone, ?_⟩,
      fun hd => absurd hd hnotDone', hst.report⟩
    · intro j hj hjH
      by_cases hij : j = i
      · rw [hij, hsegs]
        exact hpieces
      · rw [segmentsOf_congr (hst.others j hj (by omega) hij)]
        exact hg.pieces' h.toWindow (by omega) (by omega)
    · intro j hj hj' b hb
      by_cases hij : j = i
      · subst hij
        unfold Missing
        rw [hsegs, hcov]
        constructor
        · rintro ⟨-, hno⟩
          exact ⟨⟨hnot, fun hc => hno (.inl hc)⟩, fun hc => hno (.inr hc.2)⟩
        · rintro ⟨⟨-, hno⟩, hout'⟩
          exact ⟨hnot', fun hc => hc.elim hno fun hin => hout' ⟨rfl, hin⟩⟩
      · rw [missing_congr (hst.others j hj hj' hij)]
        exact ⟨fun hm => ⟨hm, fun hc => hij hc.1⟩, fun hm => hm.1⟩
    · rw [hst.delivered, hout, List.append_nil]

/-- if the SDU is complete with the new segment, its stored segments fit into a byte_buffer_chain -/
def FitsChain (segments : List RlcRxAmSduSegment) (new : RlcRxAmSduSegment) : Prop :=
  new.si ≠ .fullSdu → (inventoryLoop 0 (storeLoop [] segments new).2).2 = true →
    (storeLoop [] segments new).2.length ≤ maxNofSlices

instance (segments : List RlcRxAmSduSegment) (new : RlcRxAmSduSegment) : Decidable (FitsChain segments new) :=
  inferInstanceAs (Decidable (_ → _ → _))

theorem reassembleSdu_slice (sdu : Bytes) (allocOk : Bool) :
    reassembleSdu (sduInfo sdu) allocOk = if allocOk then some sdu else none := by
  cases allocOk with
  | false => rfl
  | true => cases sdu <;> simp [reassembleSdu, sduInfo, ByteBufferChain.append, ByteBufferChain.full,
      ByteBufferChain.bytes, maxNofSlices, memoryBlockSize, sizeofByteBufferSlice]

/-- bytes of a segment, by its length -/
theorem has_iff {segm : RlcRxAmSduSegment} (hok : segm.Ok) :
    segm.Has b ↔ segm.so ≤ b ∧ b < segm.so + segm.payload.length := by
  have := hok.lastByte_add_one
  unfold RlcRxAmSduSegment.Has
  omega

/-- a segment stored for an incomplete SDU -/
theorem handled_segment {R' S' : ℕ} {allocOk : Bool} {new : RlcRxAmSduSegment} (h : Inv InfoOk cfg R S H s)
    (hg : Genuine cfg R H sdu s) (hi : R ≤ i) (hi' : i < R + cfg.snFieldLength.amWindowSize) (hnot : ¬ Full cfg s i)
    (hnew : new.Ok) (hsi : new.si ≠ .fullSdu) (hof : SegmentOf (sdu i) new)
      (hstored : Stored (s.segmentsOf (i % cfg.snFieldLength.mod)) new
      (storeLoop [] (s.segmentsOf (i % cfg.snFieldLength.mod)) new)) (hst : Stores InfoOk cfg R R' S' (max H (i + 1)) i
      (segmentInfo (storeLoop [] (s.segmentsOf (i % cfg.snFieldLength.mod)) new).2)
      (reassembleSdu (segmentInfo (storeLoop [] (s.segmentsOf (i % cfg.snFieldLength.mod)) new).2) allocOk).toList s
        s') :
    Handled cfg sdu R R' S' (max H (i + 1)) i new.so new.payload.length
      (allocOk && decide (FitsChain (s.segmentsOf (i % cfg.snFieldLength.mod)) new)) s s' := by
  have hpieces := hstored.segmentOf (hg.pieces' h.toWindow hi hi') hof
  have hcov : ∀ b, Covers (storeLoop [] (s.segmentsOf (i % cfg.snFieldLength.mod)) new).2 b ↔
      Covers (s.segmentsOf (i % cfg.snFieldLength.mod)) b ∨ (new.so ≤ b ∧ b < new.so + new.payload.length) := by
    intro b
    rw [hstored.covers b, has_iff hnew]
  refine handled_of_stores h hg hi hi' hnot hst (fun hfull => ⟨?_, ?_⟩) fun hno => ⟨?_, rfl, hpieces, hcov⟩
  · -- the payloads put together are the SDU
    obtain ⟨hbytes, -⟩ := inventoryLoop_complete hstored.ok hpieces hfull
    have hfits : FitsChain (s.segmentsOf (i % cfg.snFieldLength.mod)) new ↔
        (storeLoop [] (s.segmentsOf (i % cfg.snFieldLength.mod)) new).2.length ≤ maxNofSlices :=
      ⟨fun h => h hsi hfull, fun h _ _ => h⟩
    rw [reassembleSdu_of_segments rfl hfull hstored.ok hbytes]
    simp only [Bool.and_eq_true, decide_eq_true_eq, hfits]
    split_ifs <;> rfl
  · intro b hb
    have hin := (inventoryLoop_complete hstored.ok hpieces hfull).2 b (Nat.zero_le _) hb
    rcases (hcov b).1 hin with hc | hc
    · exact .inl fun hm => hm.2 hc
    · exact .inr hc
  · rw [reassembleSdu, hno]
    rfl

/-- a genuine data PDU for an index of the window finds no room, or is handled -/
theorem placeSdu_genuine {hdr : RlcAmPduHeader} {payload : Bytes} (poolOk allocOk : Bool) (h : Inv InfoOk cfg R S H s)
    (hg : Genuine cfg R H sdu s) (hi : R ≤ i) (hi' : i < R + cfg.snFieldLength.amWindowSize)
    (hsn : hdr.sn = i % cfg.snFieldLength.mod) (hfit : hdr.Fits) (hpdu : PduOf (sdu i) hdr payload)
    (hpay : 0 < payload.length) :
    ((s.placeSdu cfg hdr payload poolOk allocOk).1 = s ∧ infoAt cfg s i = none ∧ poolOk = false) ∨
    (∃ R' S', Handled cfg sdu R R' S' (max H (i + 1)) i hdr.so payload.length
      (allocOk && decide (FitsChain (s.segmentsOf hdr.sn) ⟨hdr.si, hdr.so, payload⟩)) s
      (s.placeSdu cfg hdr payload poolOk allocOk).1) ∧ (infoAt cfg s i ≠ none ∨ poolOk = true) := by
  have h0 := mod_eq cfg.snFieldLength
  have hsize : hdr.sn < cfg.snFieldLength.mod := by
    rw [hsn]
    exact Nat.mod_lt _ (mod_pos _)
  have hnew : (⟨hdr.si, hdr.so, payload⟩ : RlcRxAmSduSegment).Ok := ⟨hpay, hfit.so⟩
  have hwrap : hdr.si ≠ .fullSdu → NoWrap (s.segmentsOf hdr.sn) ⟨hdr.si, hdr.so, payload⟩ := by
    intro hsi
    rw [hsn]
    exact noWrap_of_segmentOf (hg.len i) (segsOk_segmentsOf h.infos _) (hg.pieces' h.toWindow hi hi')
      (hpdu.segmentOf hsi) hnew
  have hindex : ∀ j, R ≤ j → j < R + cfg.snFieldLength.amWindowSize → hdr.sn = j % cfg.snFieldLength.mod → j = i :=
    fun j hj hj' heq => sn_inj hj (by omega) hi (by omega) (heq.symm.trans hsn)
  have hbelow : infoAt cfg s i ≠ none → i < H := by
    intro hne
    by_contra hge
    exact hne (h.toWindow.infoAt_none (by omega) (by omega))
  have hp := placeSdu_placed hdr payload poolOk allocOk h.toWindow hsize hnew hwrap
  generalize s.placeSdu cfg hdr payload poolOk allocOk = r at hp ⊢
  cases hp with
  | outside hout => exact absurd hsn (hout i hi hi')
  | duplicate j hj hj' heq hfull =>
    obtain rfl := hindex j hj hj' heq
    obtain ⟨v, hv, -⟩ := full_iff.1 hfull
    have hne : infoAt cfg s j ≠ none := by rw [hv]; exact Option.some_ne_none v
    exact .inr ⟨⟨R, S, handled_known _ h hg hi (hbelow hne) fun b _ _ hm => hm.1 hfull⟩, .inl hne⟩
  | noRoom j hj hj' heq hnone hpool =>
    obtain rfl := hindex j hj hj' heq
    exact .inl ⟨rfl, hnone, hpool⟩
  | known j hj hj' heq hsi hnot hdrop =>
    obtain rfl := hindex j hj hj' heq
    rw [heq] at hdrop
    have hne : infoAt cfg s j ≠ none := by
      intro hnone
      rw [segmentsOf_of_none hnone] at hdrop
      cases hdrop
    have hstored := storeLoop_segmentsOf h.infos hnew (hwrap hsi)
    rw [heq] at hstored
    refine .inr ⟨⟨R, S, handled_known _ h hg hi (hbelow hne) fun b hlo hhi hm => hm.2 ?_⟩, .inl hne⟩
    rw [← hstored.dropped hdrop, hstored.covers b, has_iff hnew]
    exact .inr ⟨hlo, hhi⟩
  | sdu j hj hj' heq hsi hnot hroom =>
    obtain rfl := hindex j hj hj' heq
    rw [heq]
    obtain ⟨R', S', hst, -⟩ := afterStore_spec allocOk h hi hi' (sduInfo_ok payload)
    obtain ⟨hsdu, hso⟩ := hpdu.eq_sdu hfit hsi
    refine .inr ⟨⟨R', S', ?_⟩, hroom⟩
    refine @handled_of_stores _ _ _ _ _ _ _ _ _ _ _ _ _ _ _ [] h hg hi hi' hnot hst (fun _ => ⟨?_, ?_⟩) fun hno => ?_
    · have hfits : FitsChain (s.segmentsOf (j % cfg.snFieldLength.mod)) ⟨hdr.si, hdr.so, payload⟩ :=
        fun hne => absurd hsi hne
      rw [decide_eq_true hfits, Bool.and_true, reassembleSdu_slice, hsdu]
      cases allocOk <;> rfl
    · intro b hb
      rw [hso, hsdu]
      exact .inr ⟨Nat.zero_le _, by omega⟩
    · cases hno
  | segment j hj hj' heq hsi hnot hroom =>
    obtain rfl := hindex j hj hj' heq
    have hstored := storeLoop_segmentsOf h.infos hnew (hwrap hsi)
    rw [heq] at hstored ⊢
    obtain ⟨R', S', hst, -⟩ := afterStore_spec allocOk h hi hi' (segmentInfo_ok hstored.ok (stored_ne_nil hstored hnew))
    exact .inr ⟨⟨R', S', handled_segment h hg hi hi' hnot hnew hsi (hpdu.segmentOf hsi) hstored hst⟩, hroom⟩

end RlcRxAmEntity

end OcuduRan.Rlc
