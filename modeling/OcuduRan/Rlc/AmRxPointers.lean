/-
The state variables of the receiver on arbitrary PDUs.

The four state variables and t-Reassembly depend on what is stored of an SDU only through its two flags, so the window
lemmas apply also after a PDU that makes store_segment keep a truncated offset, with less known of what is stored:

  order    what is stored stays in strictly increasing order of the offsets (`InfoInOrder`), so that a segment of which
           nothing is stored leaves its SDU as it is, whatever the offsets (`storeLoop_inOrder`).
  step     every operation keeps the window invariant, and RX_Highest_Status never moves back: an expiry starts from an
           index up to which every SDU below RX_Highest_Status is fully received (`Pointers`).
  run      `stateVariables_ordered`, with no condition on the PDUs.
-/
import OcuduRan.Rlc.AmRxRun

namespace OcuduRan.Rlc

open ModWindow List

/-! ## Segments in the order of their offsets -/

/-- not empty, with 16-bit offsets, and in strictly increasing order of these -/
structure InOrder (segments : List RlcRxAmSduSegment) : Prop where
  ok : ∀ segm ∈ segments, segm.Ok
  sorted : segments.Pairwise fun left right => left.so < right.so

theorem inOrder_nil : InOrder [] := ⟨by simp, List.Pairwise.nil⟩

theorem mem_insertSegment {segments : List RlcRxAmSduSegment} {new x : RlcRxAmSduSegment}
    (h : x ∈ insertSegment new segments) : x = new ∨ x ∈ segments := by
  induction segments with
  | nil => exact .inl (by simpa [insertSegment] using h)
  | cons cur rest ih =>
    rw [insertSegment] at h
    split_ifs at h with h1 h2
    · simpa using h
    · exact .inr h
    · rcases mem_cons.1 h with rfl | h
      · exact .inr (by simp)
      · rcases ih h with hx | hx
        · exact .inl hx
        · exact .inr (by simp [hx])

theorem insertSegment_ne_nil (new : RlcRxAmSduSegment) (segments : List RlcRxAmSduSegment) :
    insertSegment new segments ≠ [] := by
  cases segments with
  | nil => simp [insertSegment]
  | cons cur rest =>
    rw [insertSegment]
    split_ifs
    · simp
    · simp
    · simp

theorem InOrder.insert {segments : List RlcRxAmSduSegment} {new : RlcRxAmSduSegment} (h : InOrder segments)
    (hnew : new.Ok) : InOrder (insertSegment new segments) := by
  refine ⟨fun x hx => ?_, ?_⟩
  · rcases mem_insertSegment hx with rfl | hx
    · exact hnew
    · exact h.ok x hx
  · obtain ⟨-, hsorted⟩ := h
    induction segments with
    | nil => simp [insertSegment]
    | cons cur rest ih =>
      obtain ⟨hcur, hrest⟩ := pairwise_cons.1 hsorted
      rw [insertSegment]
      split_ifs with h1 h2
      · refine pairwise_cons.2 ⟨fun x hx => ?_, hsorted⟩
        rcases mem_cons.1 hx with rfl | hx
        · exact h1
        · exact lt_trans h1 (hcur x hx)
      · exact hsorted
      · refine pairwise_cons.2 ⟨fun x hx => ?_, ih hrest⟩
        rcases mem_insertSegment hx with rfl | hx
        · omega
        · exact hcur x hx

theorem InOrder.sublist {a b : List RlcRxAmSduSegment} (h : InOrder b) (hs : a.Sublist b) : InOrder a :=
  ⟨fun x hx => h.ok x (hs.subset hx), h.sorted.sublist hs⟩

/-- store_segment keeps the order of the offsets, and the set as it is where it stores nothing -/
theorem storeLoop_inOrder {visited rest : List RlcRxAmSduSegment} {new : RlcRxAmSduSegment}
    (h : InOrder (visited ++ rest)) (hnew : new.Ok) :
    InOrder (storeLoop visited rest new).2 ∧ (storeLoop visited rest new).2 ≠ [] ∧
      ((storeLoop visited rest new).1 = false → (storeLoop visited rest new).2 = visited ++ rest) := by
  induction rest generalizing visited new with
  | nil =>
    rw [append_nil] at h
    exact ⟨h.insert hnew, insertSegment_ne_nil _ _, fun hno => by cases hno⟩
  | cons cur rest ih =>
    have hcur : cur.Ok := h.ok cur (by simp)
    have hlen := hcur.lastByte_add_one
    have hnlen := hnew.lastByte_add_one
    have hassoc : visited ++ cur :: rest = (visited ++ [cur]) ++ rest := by simp
    have hremove : InOrder (visited ++ rest) :=
      h.sublist (List.Sublist.append_left (sublist_cons_self _ _) _)
    rw [storeLoop]
    split_ifs with h1 h2 h3 h4 h5
    · rw [hassoc] at h ⊢
      exact ih h hnew
    · exact ⟨h, by simp, fun _ => rfl⟩
    · rw [hassoc] at h ⊢
      refine ih h ⟨?_, Nat.mod_lt _ (by norm_num)⟩
      simp only [length_drop]
      omega
    · exact ⟨h.insert hnew, insertSegment_ne_nil _ _, fun hno => by cases hno⟩
    · refine ⟨(hremove.insert ⟨?_, Nat.mod_lt _ (by norm_num)⟩).insert hnew, insertSegment_ne_nil _ _,
        fun hno => by cases hno⟩
      simp only [length_drop]
      omega
    · -- the segments behind the one that is covered start behind the new one, which is then stored
      obtain ⟨hord, hne, -⟩ := ih hremove hnew
      refine ⟨hord, hne, fun hno => ?_⟩
      have hbehind := (pairwise_cons.1 (pairwise_append.1 h.sorted).2.1).1
      have htrue : (storeLoop visited rest new).1 = true :=
        storeLoop_of_starts_before (fun w hw => h.ok w (by simp [hw])) (fun w hw => by have := hbehind w hw; omega)
      rw [htrue] at hno
      cases hno

/-- what is stored of an SDU, as far as it holds after any PDUs -/
structure InfoInOrder (info : RlcRxAmSduInfo) : Prop where
  segs : ∀ segments, info.sduData = .segmentSet segments → InOrder segments
  incomplete : info.fullyReceived = false →
    ∃ segments, info.sduData = .segmentSet segments ∧ inventoryLoop 0 segments = (info.hasGap, false)

instance : Releasable InfoInOrder where
  released := fun info hfull => ⟨fun _ hseg => (nomatch hseg), fun hno => absurd (hfull.symm.trans hno) (by simp)⟩

namespace RlcRxAmEntity

variable {cfg : RlcRxAmConfig} {s t : RlcRxAmEntity} {R S H i : ℕ}

/-! ## What is stored, after any PDUs -/

theorem sduInfo_inOrder (payload : Bytes) : InfoInOrder (sduInfo payload) :=
  ⟨fun _ h => (nomatch h), fun h => (nomatch h)⟩

theorem segmentInfo_inOrder {segments : List RlcRxAmSduSegment} (h : InOrder segments) :
    InfoInOrder (segmentInfo segments) := by
  refine ⟨fun segments' heq => ?_, fun hno => ⟨segments, rfl, Prod.ext rfl hno⟩⟩
  cases heq
  exact h

theorem inOrder_segmentsOf (h : ∀ sn info, s.rxWindow.find? sn = some info → InfoInOrder info) (sn : ℕ) :
    InOrder (s.segmentsOf sn) := by
  unfold segmentsOf
  split
  · next hf => exact (h sn _ hf).segs _ rfl
  · exact inOrder_nil

/-- a segment of which nothing is stored leaves the state as it is -/
theorem putInfo_dropped {sn : ℕ} {new : RlcRxAmSduSegment}
    (h : ∀ sn info, s.rxWindow.find? sn = some info → InfoInOrder info) (hnew : new.Ok)
    (hnot : s.fullyReceived sn = false) (hdrop : (storeLoop [] (s.segmentsOf sn) new).1 = false) :
    s.putInfo sn (segmentInfo (storeLoop [] (s.segmentsOf sn) new).2) = s := by
  have hord : InOrder ([] ++ s.segmentsOf sn) := inOrder_segmentsOf h sn
  rw [(storeLoop_inOrder hord hnew).2.2 hdrop, nil_append]
  cases hf : s.rxWindow.find? sn with
  | none =>
    have hnil : s.segmentsOf sn = [] := by simp [segmentsOf, hf]
    rw [hnil] at hdrop
    cases hdrop
  | some info =>
    have hflag : info.fullyReceived = false := by simpa [fullyReceived, hf] using hnot
    obtain ⟨segments, hseg, hinv⟩ := (h sn info hf).incomplete hflag
    have hinfo : info = segmentInfo (s.segmentsOf sn) := by
      obtain ⟨full, gap, data⟩ := info
      dsimp only at hflag hseg hinv
      subst hflag hseg
      simp [segmentsOf, hf, segmentInfo, hinv]
    rw [← hinfo]
    exact putInfo_self hf

/-! ## Steps -/

/-- between two operations, after any PDUs: the SDUs from the index t-Reassembly watches up to RX_Highest_Status are
fully received -/
structure Pointers (cfg : RlcRxAmConfig) (R S H : ℕ) (s : RlcRxAmEntity) :
    Prop extends Inv InfoInOrder cfg R S H s where
  watched : s.reassemblyTimer = true → ∀ T, R < T → T ≤ H → s.st.rxNextStatusTrigger = T % cfg.snFieldLength.mod →
    ∀ j, T ≤ j → j < S → Full cfg s j

theorem Pointers.congr (h : Pointers cfg R S H s) (hst : t.st = s.st) (hw : t.rxWindow = s.rxWindow)
    (ht : t.reassemblyTimer = s.reassemblyTimer) : Pointers cfg R S H t := by
  refine ⟨h.toInv.congr hst hw ht, ?_⟩
  unfold Full fullyReceived
  rw [ht, hst, hw]
  exact h.watched

/-- the index that t-Reassembly watches is the only one its SN can stand for -/
theorem trigger_unique {T T' : ℕ} (hT : R < T) (hTW : T ≤ R + cfg.snFieldLength.amWindowSize) (hT' : R < T')
    (hTW' : T' ≤ R + cfg.snFieldLength.amWindowSize) (h : T % cfg.snFieldLength.mod = T' % cfg.snFieldLength.mod) :
    T = T' := by
  obtain ⟨h1, h2⟩ := sizes cfg.snFieldLength
  exact eq_of_mod_eq h (by omega) (by omega)

/-- storing an SDU info for an index of the window -/
theorem Pointers.store {info : RlcRxAmSduInfo} (allocOk : Bool) (h : Pointers cfg R S H s) (hi : R ≤ i)
    (hi' : i < R + cfg.snFieldLength.amWindowSize) (hnot : ¬ Full cfg s i) (hinfo : InfoInOrder info) :
    ∃ R' S' H', Pointers cfg R' S' H' ((s.putInfo (i % cfg.snFieldLength.mod) info).afterStore cfg
        (i % cfg.snFieldLength.mod) allocOk) ∧ R ≤ R' ∧ S ≤ S' ∧ S' ≤ R + cfg.snFieldLength.amWindowSize := by
  have hH := h.highest_le
  obtain ⟨R', S', hst, hclimb⟩ := afterStore_spec allocOk h.toInv hi hi' hinfo
  have hle := hst.le
  have hSH := hst.inv.status_le
  have hHW := hst.inv.highest_le
  refine ⟨R', S', max H (i + 1), ⟨hst.inv, ?_⟩, hle, hclimb.le, by omega⟩
  intro hon T hT hTH htrig j hj hjS
  rcases hclimb.trigger hon with hnew | ⟨hold, hsame⟩
  · -- a timer started anew watches RX_Next_Highest
    have := trigger_unique hT (by omega) (by omega) hHW (htrig.symm.trans hnew)
    omega
  · by_cases hSj : S ≤ j
    · exact hclimb.full j hSj (by omega) hjS
    · -- below the old RX_Highest_Status the SDU was fully received before, and is still in the window
      obtain ⟨T₀, hT₀, hT₀H, htrig₀⟩ := h.timer hold
      have hTT : T₀ = T := trigger_unique hT₀ (by omega) (by omega) (by omega)
        (htrig₀.symm.trans (hsame.symm.trans htrig))
      have hfull := h.watched hold T₀ hT₀ hT₀H htrig₀ j (by omega) (by omega)
      have hij : j ≠ i := by
        rintro rfl
        exact hnot hfull
      rw [full_iff_of_infoAt (hst.others j (by omega) (by omega) hij)]
      exact hfull

theorem placeSdu_pointers {hdr : RlcAmPduHeader} {payload : Bytes} (poolOk allocOk : Bool) (h : Pointers cfg R S H s)
    (hsn : hdr.sn < cfg.snFieldLength.mod) (hnew : (⟨hdr.si, hdr.so, payload⟩ : RlcRxAmSduSegment).Ok) :
    ∃ R' S' H', Pointers cfg R' S' H' (s.placeSdu cfg hdr payload poolOk allocOk).1 ∧
      R ≤ R' ∧ S ≤ S' ∧ S' ≤ R + cfg.snFieldLength.amWindowSize := by
  have hSW : S ≤ R + cfg.snFieldLength.amWindowSize := h.status_le.trans h.highest_le
  have hp := placeSdu_cases hdr payload poolOk allocOk h.rxNext hsn
    fun _ hfull hdrop => putInfo_dropped h.infos hnew hfull hdrop
  rcases hp.cases (sduInfo_inOrder payload) fun _ => segmentInfo_inOrder
    (@storeLoop_inOrder [] _ _ (inOrder_segmentsOf h.infos hdr.sn) hnew).1 with heq | ⟨i, info, hi, hi', hnot, hinfo,
    heq⟩
  · rw [heq]
    exact ⟨R, S, H, h, le_rfl, le_rfl, hSW⟩
  · rw [heq]
    exact h.store allocOk hi hi' hnot hinfo

/-- an expiry moves RX_Highest_Status forward -/
theorem Pointers.expiry (h : Pointers cfg R S H s) (hrun : s.reassemblyTimer = true) :
    ∃ S', Pointers cfg R S' H ({ s with reassemblyTimer := false }.onExpiredReassemblyTimer cfg) ∧
      S ≤ S' ∧ S' ≤ R + cfg.snFieldLength.amWindowSize := by
  have hHW := h.highest_le
  have hSH := h.status_le
  obtain ⟨S', t, ht, hw, -, -, heq, ⟨T, hT, hTS, htrig⟩, hwatch⟩ := reassemblyExpiry_inv h.toInv hrun
  have hSH' := ht.status_le
  have hle : S ≤ S' := by
    by_contra hlt
    have hfull := h.watched hrun T hT (by omega) htrig S' hTS (by omega)
    refine ht.status.resolve_left (by omega) ?_
    unfold Full fullyReceived at hfull ⊢
    rwa [hw]
  rw [heq]
  refine ⟨S', Pointers.congr ⟨ht, ?_⟩ rfl rfl rfl, hle, by omega⟩
  intro hon T' hT' hTH' htrig' j hj hjS
  -- a timer that runs again watches RX_Next_Highest
  have := trigger_unique hT' (by omega) (by omega) hHW (htrig'.symm.trans (hwatch hon))
  omega

/-! ## Runs -/

theorem postProcess_same (cfg : RlcRxAmConfig) (s : RlcRxAmEntity) (stored statusRequested : Bool) :
    (s.postProcess cfg stored statusRequested).st = s.st ∧
      (s.postProcess cfg stored statusRequested).reassemblyTimer = s.reassemblyTimer := by
  unfold postProcess
  split_ifs
  · exact ⟨rfl, rfl⟩
  · exact ⟨rfl, rfl⟩
  · exact ⟨rfl, rfl⟩
  · exact ⟨rfl, rfl⟩

theorem step_pointers (op : Op) (h : Pointers cfg R S H s) : ∃ R' S' H', Pointers cfg R' S' H' (s.step cfg op) ∧
      R ≤ R' ∧ S ≤ S' ∧ S' ≤ R + cfg.snFieldLength.amWindowSize := by
  have hSW : S ≤ R + cfg.snFieldLength.amWindowSize := h.status_le.trans h.highest_le
  unfold step
  cases op with
  | handlePdu buf poolOk allocOk =>
    dsimp only
    rcases handlePdu_cases buf poolOk allocOk with ⟨heq, -⟩ | ⟨hdr, payload, hread, -, hpay, heq⟩
    · rw [heq]
      exact ⟨R, S, H, h, le_rfl, le_rfl, hSW⟩
    · obtain ⟨hfits, hsize, -⟩ := readDataPduHeader_fits hread
      obtain ⟨R', S', H', hp, hmoves⟩ := placeSdu_pointers poolOk allocOk h (hsize ▸ hfits.sn) ⟨hpay, hfits.so⟩
      obtain ⟨hst, htimer⟩ := postProcess_same cfg (s.placeSdu cfg hdr payload poolOk allocOk).1
        (s.placeSdu cfg hdr payload poolOk allocOk).2 hdr.p
      rw [heq]
      exact ⟨R', S', H', hp.congr hst (postProcess_rxWindow _ _) htimer, hmoves⟩
  | reassemblyExpiry =>
    dsimp only
    split_ifs with hrun
    · obtain ⟨S', hp, hmoves⟩ := h.expiry hrun
      exact ⟨R, S', H, hp, le_rfl, hmoves⟩
    · exact ⟨R, S, H, h, le_rfl, le_rfl, hSW⟩
  | statusProhibitExpiry => exact ⟨R, S, H, h.congr rfl rfl rfl, le_rfl, le_rfl, hSW⟩
  | getStatusPdu =>
    dsimp only
    split_ifs
    · exact ⟨R, S, H, h.congr rfl rfl rfl, le_rfl, le_rfl, hSW⟩
    · exact ⟨R, S, H, h, le_rfl, le_rfl, hSW⟩

theorem init_pointers (cfg : RlcRxAmConfig) : Pointers cfg 0 0 0 (init cfg) :=
  ⟨init_inv _ cfg, fun hon => (nomatch hon)⟩

theorem run_pointers (cfg : RlcRxAmConfig) (ops : List Op) :
    ∃ R S H, Pointers cfg R S H (Machine.run (step cfg) (init cfg) ops) := by
  refine Machine.run_inv_all (I := fun s => ∃ R S H, Pointers cfg R S H s) ?_ (init cfg) ops
    ⟨0, 0, 0, init_pointers cfg⟩
  rintro s op ⟨R, S, H, h⟩
  obtain ⟨R', S', H', h', -⟩ := step_pointers op h
  exact ⟨R', S', H', h'⟩

/-- the order of the state variables, as distances from RX_Next -/
structure Ordered (cfg : RlcRxAmConfig) (s : RlcRxAmEntity) : Prop where
  /-- RX_Highest_Status is in [RX_Next, RX_Next_Highest] -/
  status_le : s.rxModBase cfg s.st.rxHighestStatus ≤ s.rxModBase cfg s.st.rxNextHighest
  /-- RX_Next_Highest is in [RX_Next, RX_Next + AM_Window_Size] -/
  highest_le : s.rxModBase cfg s.st.rxNextHighest ≤ cfg.snFieldLength.amWindowSize
  status : s.st.rxHighestStatus = s.st.rxNextHighest ∨ s.fullyReceived s.st.rxHighestStatus = false
  /-- what is in the window is in [RX_Next, RX_Next_Highest) -/
  keys : ∀ sn ∈ s.rxWindow.keys,
    sn < cfg.snFieldLength.mod ∧ s.rxModBase cfg sn < s.rxModBase cfg s.st.rxNextHighest
  next : s.fullyReceived s.st.rxNext = false

theorem Pointers.ordered (h : Pointers cfg R S H s) : Ordered cfg s := by
  obtain ⟨hmod, hwin, hRS, hSH, hHW⟩ := h.bounds
  have hR : s.st.rxNext = R % cfg.snFieldLength.mod := h.rxNext
  have hS : s.st.rxHighestStatus = S % cfg.snFieldLength.mod := h.rxHighestStatus
  have hH : s.st.rxNextHighest = H % cfg.snFieldLength.mod := h.rxNextHighest
  obtain ⟨-, hdS, hdH⟩ := h.bases
  refine ⟨by omega, by omega, ?_, ?_, ?_⟩
  · rcases h.status with heq | hnf
    · exact .inl (by rw [hS, hH, heq])
    · rw [Full, ← hS, Bool.not_eq_true] at hnf
      exact .inr hnf
  · intro sn hsn
    obtain ⟨j, hj, hjH, rfl⟩ := h.keys sn hsn
    refine ⟨Nat.mod_lt _ (by omega), ?_⟩
    rw [hdH, rxModBase_index hR hj (by omega)]
    omega
  · have hnf := h.next
    rw [Full, ← hR, Bool.not_eq_true] at hnf
    exact hnf

/-- in every run, on arbitrary PDUs: the state variables are in order, what is in the window lies between RX_Next and
RX_Next_Highest, and no step moves RX_Highest_Status back -/
theorem stateVariables_ordered (cfg : RlcRxAmConfig) (ops : List Op) (op : Op) :
    let s := Machine.run (step cfg) (init cfg) ops
    Ordered cfg s ∧
      s.rxModBase cfg s.st.rxHighestStatus ≤ s.rxModBase cfg (s.step cfg op).st.rxHighestStatus ∧
      s.rxModBase cfg (s.step cfg op).st.rxHighestStatus ≤ cfg.snFieldLength.amWindowSize := by
  obtain ⟨R, S, H, h⟩ := run_pointers cfg ops
  obtain ⟨R', S', H', h', -, hSS, hSW⟩ := step_pointers op h
  dsimp only
  generalize Machine.run (step cfg) (init cfg) ops = s at h h' ⊢
  obtain ⟨hmod, hwin, hRS, -, -⟩ := h.bounds
  have hR : s.st.rxNext = R % cfg.snFieldLength.mod := h.rxNext
  have hS' : (s.step cfg op).st.rxHighestStatus = S' % cfg.snFieldLength.mod := h'.rxHighestStatus
  rw [h.bases.2.1, hS', rxModBase_index hR (by omega) (by omega)]
  exact ⟨h.ordered, by omega, by omega⟩

end RlcRxAmEntity

end OcuduRan.Rlc
