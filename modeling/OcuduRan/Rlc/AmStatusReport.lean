/-
What refresh_status_report reports.

  index    the report covers the SDUs from RX_Next up to index `A`, which is RX_Highest_Status or earlier if the number
           of SNs per report is limited; its ACK_SN is that of `A`.
  missing  the NACKs of one SDU denote exactly the bytes not stored, and their offsets lie in the SDU.
  report   so does the report with its merged NACKs, for all SDUs it covers, and also after the expansion on the other
           side.
-/
import OcuduRan.Rlc.AmNackExpand
import OcuduRan.Rlc.AmRxGenuine

namespace OcuduRan.Rlc

open ModWindow RlcAmStatusPdu List Nat RlcAmStatusNack

namespace RlcRxAmEntity

variable {cfg : RlcRxAmConfig} {s : RlcRxAmEntity} {R S H i : ℕ}

/-! ## NACKs of one SDU -/

/-- bytes missing from an offset on: those before the first segment and those missing behind it -/
theorem missing_cons {segm : RlcRxAmSduSegment} {rest : List RlcRxAmSduSegment} {lastSo : ℕ}
    (hok : SegsOk (segm :: rest)) (hlo : lastSo ≤ segm.so) (b : ℕ) : lastSo ≤ b ∧ ¬ Covers (segm :: rest) b ↔
      (lastSo ≤ b ∧ b < segm.so) ∨ (segm.so + segm.payload.length ≤ b ∧ ¬ Covers rest b) := by
  have hlen1 := (hok.ok segm (by simp)).lastByte_add_one
  have hbehind := (@SegsOk.split [] _ _ hok).2
  rw [covers_cons]
  unfold RlcRxAmSduSegment.Has
  by_cases hlt : b < segm.so + segm.payload.length
  · have hrest : ¬ Covers rest b := by
      rintro ⟨w, hw, hwb, -⟩
      have := hbehind w hw
      omega
    constructor
    · rintro ⟨h1, h2⟩
      refine .inl ⟨h1, ?_⟩
      by_contra hge
      exact h2 (.inl ⟨by omega, by omega⟩)
    · rintro (⟨h1, h2⟩ | ⟨h1, -⟩)
      · exact ⟨h1, fun hc => hc.elim (fun hc => by omega) hrest⟩
      · omega
  · constructor
    · rintro ⟨-, h2⟩
      exact .inr ⟨by omega, fun hc => h2 (.inr hc)⟩
    · rintro (⟨-, h2⟩ | ⟨h1, h2⟩)
      · omega
      · exact ⟨by omega, fun hc => hc.elim (fun hc => by omega) h2⟩

theorem segmentNacks_spec {n : RlcAmSnSize} {sdu : Bytes} {segments : List RlcRxAmSduSegment} {sn lastSo : ℕ}
    {haveLast : Bool} (hsn : sn < n.mod) (hlen : sdu.length ≤ 2 ^ 16) (hok : SegsOk segments)
    (h : ∀ segm ∈ segments, SegmentOf sdu segm) (hle : lastSo ≤ sdu.length) (hso : ∀ segm ∈ segments, lastSo ≤ segm.so)
    (hlast : haveLast = true ↔ lastSo = sdu.length) :
    (∀ nack ∈ segmentNacks sn lastSo haveLast segments, nack.nackSn = sn ∧ nack.OffsetsIn sdu.length) ∧
    ∀ b < sdu.length, (NacksDenote n (segmentNacks sn lastSo haveLast segments) sn b ↔
      lastSo ≤ b ∧ ¬ Covers segments b) := by
  induction segments generalizing lastSo haveLast with
  | nil =>
    unfold segmentNacks
    cases haveLast with
    | true =>
      have hend := hlast.1 rfl
      refine ⟨by simp, fun b hb => ?_⟩
      simp only [if_true, nacksDenote_nil, false_iff, not_and]
      omega
    | false =>
      have hend : lastSo ≠ sdu.length := fun heq => Bool.false_ne_true (hlast.2 heq)
      have hmod : lastSo % 2 ^ 16 = lastSo := mod_eq_of_lt (by omega)
      rw [if_neg Bool.false_ne_true, hmod]
      refine ⟨?_, fun b hb => ?_⟩
      · intro nack hnack
        rw [mem_singleton] at hnack
        subst hnack
        refine ⟨rfl, rfl, fun _ => ?_, fun _ hne => absurd rfl hne⟩
        show lastSo < sdu.length
        omega
      · rw [nacksDenote_cons, denotes_of_range_one rfl hsn]
        simp
  | cons segm rest ih =>
    have hsegm := h segm (by simp)
    have hokSegm := hok.ok segm (by simp)
    have hlen1 := hokSegm.lastByte_add_one
    have hbehind := (@SegsOk.split [] _ _ hok).2
    have hlo := hso segm (by simp)
    have hle' := hsegm.le
    have hlen0 := hokSegm.len
    -- before the last byte of the SDU no segment has been the last one
    have hno : haveLast = false := by
      cases hl : haveLast with
      | false => rfl
      | true =>
        have := hlast.1 hl
        omega
    have hlast' : (haveLast || decide (segm.si = .lastSegment)) = true ↔
        segm.so + segm.payload.length = sdu.length := by
      rw [hno, Bool.false_or, decide_eq_true_eq]
      exact hsegm.last
    obtain ⟨hval, hden⟩ := ih (@segsOk_remove [] _ _ hok) (fun x hx => h x (by simp [hx])) hle'
      (fun w hw => by have := hbehind w hw; omega) hlast'
    have hgap := missing_cons hok hlo
    rw [segmentNacks]
    by_cases heq : segm.so = lastSo
    · rw [if_neg (not_not_intro heq), nil_append]
      refine ⟨hval, fun b hb => ?_⟩
      rw [hden b hb, hgap b]
      constructor
      · exact .inr
      · rintro (hb' | hb')
        · omega
        · exact hb'
    · have hstart : lastSo % 2 ^ 16 = lastSo := mod_eq_of_lt (by omega)
      have hstop : (segm.so + 2 ^ 16 - 1) % 2 ^ 16 = segm.so - 1 := by omega
      have hne : segm.so - 1 ≠ soEndOfSdu := by
        have := hokSegm.so
        unfold soEndOfSdu
        omega
      rw [if_pos heq, singleton_append, hstart, hstop]
      refine ⟨?_, fun b hb => ?_⟩
      · intro nack hnack
        rcases mem_cons.1 hnack with rfl | hnack
        · refine ⟨rfl, rfl, fun _ => ?_, fun _ _ => ⟨?_, ?_⟩⟩
          · show lastSo < sdu.length
            omega
          · show lastSo ≤ segm.so - 1
            omega
          · show segm.so - 1 < sdu.length
            omega
        · exact hval nack hnack
      · rw [nacksDenote_cons, hden b hb, hgap b, denotes_of_range_one rfl hsn]
        refine or_congr_left ?_
        simp only [forall_const, true_and]
        constructor
        · rintro ⟨h1, h2⟩
          have := h2 hne
          omega
        · rintro ⟨h1, h2⟩
          exact ⟨h1, fun _ => by omega⟩

/-- the three cases of an SN in the report -/
theorem missingNacks_cases (hinfos : ∀ sn info, s.rxWindow.find? sn = some info → InfoOk info) (sn : ℕ) :
    (s.missingNacks sn = [{ nackSn := sn }] ∧ s.fullyReceived sn = false ∧ s.segmentsOf sn = []) ∨
    (s.missingNacks sn = [] ∧ s.fullyReceived sn = true) ∨
    (s.missingNacks sn = segmentNacks sn 0 false (s.segmentsOf sn) ∧ s.fullyReceived sn = false ∧
      (inventoryLoop 0 (s.segmentsOf sn)).2 = false) := by
  unfold missingNacks fullyReceived
  cases hf : s.rxWindow.find? sn with
  | none => exact .inl ⟨rfl, rfl, by simp [segmentsOf, hf]⟩
  | some info =>
    cases hfull : info.fullyReceived with
    | true => exact .inr (.inl ⟨by simp [hfull], by simp [hfull]⟩)
    | false =>
      obtain ⟨segments, hseg, -, hinv⟩ := (hinfos sn info hf).incomplete hfull
      have hsegs : s.segmentsOf sn = segments := by
        obtain ⟨full, gap, data⟩ := info
        subst hseg
        simp [segmentsOf, hf]
      refine .inr (.inr ⟨by simp [hfull, hseg, hsegs], by simp [hfull], ?_⟩)
      rw [hsegs, hinv]

theorem missingNacks_spec {sdu : ℕ → Bytes} (hinfos : ∀ sn info, s.rxWindow.find? sn = some info → InfoOk info)
    (hpos : 0 < (sdu i).length) (hlen : (sdu i).length ≤ 2 ^ 16)
    (hpieces : ∀ segm ∈ s.segmentsOf (i % cfg.snFieldLength.mod), SegmentOf (sdu i) segm) :
    (∀ nack ∈ s.missingNacks (i % cfg.snFieldLength.mod),
      nack.nackSn = i % cfg.snFieldLength.mod ∧ nack.OffsetsIn (sdu i).length) ∧
    ∀ b < (sdu i).length, (NacksDenote cfg.snFieldLength (s.missingNacks (i % cfg.snFieldLength.mod))
      (i % cfg.snFieldLength.mod) b ↔ Missing cfg s i b) := by
  have hsn : i % cfg.snFieldLength.mod < cfg.snFieldLength.mod := mod_lt _ (mod_pos _)
  unfold Missing Full
  rcases missingNacks_cases hinfos (i % cfg.snFieldLength.mod) with ⟨h1, h2, h3⟩ | ⟨h1, h2⟩ | ⟨h1, h2, -⟩
  · rw [h1, h2, h3]
    refine ⟨?_, fun b hb => ?_⟩
    · intro nack hnack
      rw [mem_singleton] at hnack
      subst hnack
      exact ⟨rfl, rfl, fun h => (Bool.false_ne_true h).elim, fun h => (Bool.false_ne_true h).elim⟩
    · rw [nacksDenote_cons, denotes_of_range_one rfl hsn]
      simp
  · rw [h1, h2]
    exact ⟨by simp, fun b hb => by simp⟩
  · rw [h1, h2]
    have hlast : false = true ↔ 0 = (sdu i).length := by
      simp only [Bool.false_eq_true, false_iff]
      omega
    obtain ⟨hval, hden⟩ := segmentNacks_spec (n := cfg.snFieldLength) hsn hlen
      (segsOk_segmentsOf hinfos (i % cfg.snFieldLength.mod)) hpieces (zero_le _)
      (fun segm _ => zero_le _) hlast
    exact ⟨hval, fun b hb => by simp [hden b hb]⟩

/-! ## Indices of the report -/

/-- ACK_SN of the report is that of an index from RX_Next up to RX_Highest_Status -/
theorem reportStopSn_spec (h : Window InfoOk cfg R S H s) :
    ∃ A, R ≤ A ∧ A ≤ S ∧ s.reportStopSn cfg = A % cfg.snFieldLength.mod := by
  obtain ⟨h0, h2, h3, h4, h5⟩ := h.bounds
  have hk : maxNofSnPerStatusReport cfg % cfg.snFieldLength.mod < cfg.snFieldLength.mod := mod_lt _ (mod_pos _)
  have hlimit : (s.st.rxNext + maxNofSnPerStatusReport cfg) % cfg.snFieldLength.mod =
      (R + maxNofSnPerStatusReport cfg % cfg.snFieldLength.mod) % cfg.snFieldLength.mod := by
    rw [h.rxNext, mod_add_mod, add_mod_mod]
  unfold reportStopSn
  dsimp only
  rw [hlimit, rxModBase_index h.rxNext (by omega) (by omega), h.rxHighestStatus,
    rxModBase_index h.rxNext h3 (by omega)]
  split_ifs with hc
  · exact ⟨R + maxNofSnPerStatusReport cfg % cfg.snFieldLength.mod, by omega, by omega, rfl⟩
  · exact ⟨S, h3, le_rfl, rfl⟩

theorem reportSns_eq {A a fuel : ℕ} (hR : s.st.rxNext = R % cfg.snFieldLength.mod) (hA : A < R + cfg.snFieldLength.mod)
    (ha : R ≤ a) (haA : a ≤ A) (hfuel : A - a ≤ fuel) :
    s.reportSns cfg (A % cfg.snFieldLength.mod) fuel (a % cfg.snFieldLength.mod) =
      (range' a (A - a)).map (· % cfg.snFieldLength.mod) := by
  induction fuel generalizing a with
  | zero =>
    rw [show A - a = 0 by omega]
    rfl
  | succ fuel ih =>
    rw [reportSns, rxModBase_index hR ha (by omega), rxModBase_index hR (by omega) hA]
    split_ifs with hc
    · rw [mod_add_mod, ih (by omega) (by omega) (by omega), show A - a = A - (a + 1) + 1 by omega,
        range'_succ, map_cons]
    · rw [show A - a = 0 by omega]
      rfl

/-- the report covers the indices from RX_Next up to its ACK index -/
theorem reportedSns_eq (h : Window InfoOk cfg R S H s) :
    ∃ A, R ≤ A ∧ A ≤ S ∧ s.reportStopSn cfg = A % cfg.snFieldLength.mod ∧
      s.reportedSns cfg = (range' R (A - R)).map (· % cfg.snFieldLength.mod) := by
  obtain ⟨h0, h2, -, h4, h5⟩ := h.bounds
  obtain ⟨A, hRA, hAS, hstop⟩ := reportStopSn_spec h
  refine ⟨A, hRA, hAS, hstop, ?_⟩
  unfold reportedSns
  rw [hstop, h.rxNext]
  exact reportSns_eq h.rxNext (by omega) le_rfl hRA (by omega)

end RlcRxAmEntity

/-! ## NACKs of the report -/

/-- the NACK covers SDUs from index `x` on, all in [R, A), with offsets in the first and in the last of them -/
structure RlcAmStatusNack.At (n : RlcAmSnSize) (R A : ℕ) (len : ℕ → ℕ) (nack : RlcAmStatusNack) (x : ℕ) : Prop where
  sn : nack.nackSn = x % n.mod
  lo : R ≤ x
  pos : 1 ≤ nack.range
  hi : x + nack.range ≤ A
  start : nack.hasSo = true → nack.soStart < len x
  stop : nack.hasSo = true → nack.soEnd ≠ soEndOfSdu →
    nack.soEnd < len (x + nack.range - 1) ∧ (nack.range = 1 → nack.soStart ≤ nack.soEnd)

variable {n : RlcAmSnSize} {R A x : ℕ} {len : ℕ → ℕ} {nack : RlcAmStatusNack}

theorem RlcAmStatusNack.OffsetsIn.at
    (h : nack.OffsetsIn (len x)) (hsn : nack.nackSn = x % n.mod) (hx : R ≤ x) (hxA : x < A) : nack.At n R A len x := by
  have hr : nack.range = 1 := by rw [range, h.single]; rfl
  refine ⟨hsn, hx, by omega, by omega, h.start, fun hso hne => ?_⟩
  rw [hr, Nat.add_sub_cancel]
  exact ⟨(h.stop hso hne).2, fun _ => (h.stop hso hne).1⟩

/-- merging two such NACKs gives one -/
theorem RlcAmStatusNack.At.merge {y : ℕ} {prev : RlcAmStatusNack}
    (hA : A ≤ R + n.amWindowSize) (hpos : ∀ i, 0 < len i) (hp : prev.At n R A len x) (hn : nack.At n R A len y)
    (hm : canBeMerged n prev nack = true) : (expandPrev prev nack).At n R A len x := by
  obtain ⟨hsn, hend, hstart, hrange⟩ := (canBeMerged_iff prev nack).1 hm
  have h0 := mod_eq n
  have hy : y = x + prev.range := by
    have h1 := hp.hi
    have h2 := hn.hi
    have h3 := hp.lo
    have h4 := hn.lo
    have hwin := amWindowSize_ge n
    rw [hn.sn, hp.sn, mod_add_mod] at hsn
    exact eq_of_mod_eq hsn (by omega) (by omega)
  subst hy
  have h1 := hp.pos
  have h2 := hn.pos
  refine ⟨?_, hp.lo, ?_, ?_, ?_, ?_⟩
  · rw [expandPrev_nackSn]
    exact hp.sn
  · rw [expandPrev_range]
    omega
  · rw [expandPrev_range]
    have := hn.hi
    omega
  · intro hso
    rw [expandPrev_soStart]
    rw [expandPrev_hasSo] at hso
    cases hps : prev.hasSo with
    | true => simpa [hps] using hp.start hps
    | false =>
      have hns : nack.hasSo = true := by simpa [hps] using hso
      simpa [hns] using hpos x
  · intro hso hne
    rw [expandPrev_range, expandPrev_soEnd] at *
    refine ⟨?_, fun h => by omega⟩
    cases hns : nack.hasSo with
    | true =>
      rw [hns, if_pos rfl] at hne
      rw [if_pos rfl, show x + (prev.range + nack.range) - 1 = x + prev.range + nack.range - 1 by omega]
      exact (hn.stop hns hne).1
    | false =>
      -- an open end of the left NACK stays open
      rw [hns, if_neg Bool.false_ne_true] at hne
      rw [expandPrev_hasSo, hns, Bool.or_false] at hso
      rw [hso, if_pos rfl] at hne
      exact absurd rfl hne

/-- offsets of one SN of a range lie in its SDU -/
theorem RlcAmStatusNack.At.single {k : ℕ} (hpos : ∀ i, 0 < len i) (h : nack.At n R A len x) :
    (singleNack n nack k).nackSn = (x + k) % n.mod ∧ (singleNack n nack k).OffsetsIn (len (x + k)) := by
  refine ⟨by rw [singleNack_nackSn, h.sn, mod_add_mod], ⟨singleNack_hasNackRange nack k, ?_, ?_⟩⟩
  · unfold singleNack
    cases hso : nack.hasSo with
    | false => exact fun hf => (Bool.false_ne_true hf).elim
    | true =>
      intro _
      rw [if_pos rfl]
      dsimp only
      split_ifs with hk
      · rw [hk]
        exact h.start hso
      · exact hpos _
  · unfold singleNack
    cases hso : nack.hasSo with
    | false => exact fun hf => (Bool.false_ne_true hf).elim
    | true =>
      rw [if_pos rfl]
      intro _ hne
      by_cases hlast : k + 1 = nack.range
      · rw [if_pos hlast] at hne ⊢
        obtain ⟨h1, h2⟩ := h.stop hso hne
        rw [show x + nack.range - 1 = x + k by omega] at h1
        refine ⟨?_, h1⟩
        split_ifs with hk
        · exact h2 (by omega)
        · exact zero_le _
      · rw [if_neg hlast] at hne
        exact absurd rfl hne

/-- the expansion denotes what the NACK does, and each of its NACKs has offsets in its SDU -/
theorem RlcAmStatusNack.At.expand (hA : A ≤ R + n.amWindowSize) (hpos : ∀ i, 0 < len i) (h : nack.At n R A len x) :
    (∀ sn byte, NacksDenote n (RlcTxAmEntity.expandNack n (A % n.mod) nack) sn byte ↔ nack.Denotes n sn byte) ∧
    ∀ y ∈ RlcTxAmEntity.expandNack n (A % n.mod) nack,
      ∃ i, x ≤ i ∧ i < x + nack.range ∧ y.nackSn = i % n.mod ∧ y.OffsetsIn (len i) := by
  have h0 := mod_eq n
  have h1 := h.lo
  have h2 := h.hi
  have hsn : nack.nackSn < n.mod := by
    rw [h.sn]
    exact mod_lt _ (mod_pos n)
  have hack : ∀ k < nack.range, (nack.nackSn + k) % n.mod ≠ A % n.mod := by
    intro k hk heq
    rw [h.sn, mod_add_mod] at heq
    have := eq_of_mod_eq heq (by omega) (by omega)
    omega
  refine ⟨expandNack_denote hsn (by omega) hack, ?_⟩
  intro y hy
  unfold RlcTxAmEntity.expandNack at hy
  cases hr : nack.hasNackRange with
  | false =>
    have hr1 : nack.range = 1 := by rw [range, hr]; rfl
    rw [hr, if_neg Bool.false_ne_true, mem_singleton] at hy
    subst hy
    refine ⟨x, le_rfl, by omega, h.sn, hr, h.start, fun hso hne => ?_⟩
    obtain ⟨h3, h4⟩ := h.stop hso hne
    rw [hr1, Nat.add_sub_cancel] at h3
    exact ⟨h4 hr1, h3⟩
  | true =>
    have hrg : nack.range = nack.nackRange := by rw [range, hr, if_pos rfl]
    have hexp := expandRange_eq hsn hr (by omega) (by rwa [← hrg]) 0 nack.nackRange (by omega)
    rw [add_zero, mod_eq_of_lt hsn] at hexp
    rw [hr, if_pos rfl, hexp] at hy
    obtain ⟨k, hk, rfl⟩ := mem_map.1 hy
    rw [mem_range'_1] at hk
    obtain ⟨hksn, hkoff⟩ := h.single (k := k) hpos
    exact ⟨x + k, by omega, by omega, hksn, hkoff⟩

namespace RlcRxAmEntity

variable {cfg : RlcRxAmConfig} {s : RlcRxAmEntity} {R S H : ℕ}

/-! ## The report -/

/-- the NACKs that are pushed, one SDU after the other -/
def pushedNacks (cfg : RlcRxAmConfig) (s : RlcRxAmEntity) : List RlcAmStatusNack :=
  (s.reportedSns cfg).flatMap s.missingNacks

/-- the report that refresh_status_report hands over -/
theorem refreshStatusReport_exchange : (s.refreshStatusReport cfg).statusForExchange =
    { (pushedNacks cfg s).foldl pushNack s.statusOwnedByWriter.reset with ackSn := s.reportStopSn cfg } := rfl

/-- the NACKs pushed are about the indices of the report, and denote what is missing of them -/
theorem pushedNacks_spec {A : ℕ} {sdu : ℕ → Bytes} (h : Window InfoOk cfg R S H s) (hg : Genuine cfg R H sdu s)
    (hAS : A ≤ S) (hsns : s.reportedSns cfg = (range' R (A - R)).map (· % cfg.snFieldLength.mod)) :
    (∀ nack ∈ pushedNacks cfg s, ∃ x, nack.At cfg.snFieldLength R A (fun i => (sdu i).length) x) ∧
    ∀ i, R ≤ i → i < A → ∀ b < (sdu i).length,
      (NacksDenote cfg.snFieldLength (pushedNacks cfg s) (i % cfg.snFieldLength.mod) b ↔ Missing cfg s i b) := by
  obtain ⟨h0, -, -, h4, h5⟩ := h.bounds
  have hmiss : ∀ i, R ≤ i → i < A → _ := fun i hi hiA =>
    missingNacks_spec h.infos (hg.pos i) (hg.len i) (hg.pieces i hi (by omega))
  have hmem : ∀ nack, nack ∈ pushedNacks cfg s ↔
      ∃ i, R ≤ i ∧ i < A ∧ nack ∈ s.missingNacks (i % cfg.snFieldLength.mod) := by
    intro nack
    unfold pushedNacks
    rw [hsns, mem_flatMap]
    constructor
    · rintro ⟨sn, hsn, hnack⟩
      obtain ⟨i, hi, rfl⟩ := mem_map.1 hsn
      rw [mem_range'_1] at hi
      exact ⟨i, hi.1, by omega, hnack⟩
    · rintro ⟨i, hi, hiA, hnack⟩
      exact ⟨_, mem_map.2 ⟨i, by rw [mem_range'_1]; omega, rfl⟩, hnack⟩
  refine ⟨?_, ?_⟩
  · intro nack hnack
    obtain ⟨i, hi, hiA, hin⟩ := (hmem nack).1 hnack
    obtain ⟨hsn, hoff⟩ := (hmiss i hi hiA).1 nack hin
    exact ⟨i, RlcAmStatusNack.OffsetsIn.at hoff hsn hi hiA⟩
  · intro i hi hiA b hb
    rw [← (hmiss i hi hiA).2 b hb]
    constructor
    · rintro ⟨nack, hnack, hden⟩
      obtain ⟨j, hj, hjA, hin⟩ := (hmem nack).1 hnack
      obtain ⟨hsn, hoff⟩ := (hmiss j hj hjA).1 nack hin
      -- the NACK is about its own SN only
      have hr : nack.range = 1 := by rw [RlcAmStatusNack.range, hoff.single]; rfl
      have hlt : nack.nackSn < cfg.snFieldLength.mod := by rw [hsn]; exact mod_lt _ (mod_pos _)
      have hij : i % cfg.snFieldLength.mod = j % cfg.snFieldLength.mod := by
        rw [← hsn]
        exact ((denotes_of_range_one hr hlt _ _).1 hden).1
      obtain rfl : i = j := sn_inj hi (by omega) hj (by omega) hij
      exact ⟨nack, hin, hden⟩
    · rintro ⟨nack, hin, hden⟩
      exact ⟨nack, (hmem nack).2 ⟨i, hi, hiA, hin⟩, hden⟩

/-- pushing NACKs one after another, merged or not, adds up what they denote -/
theorem pushed_denote {ns : List RlcAmStatusNack} (hsize : s.statusOwnedByWriter.snSize = cfg.snFieldLength)
    (hpos : ∀ x ∈ ns, 1 ≤ x.range) (sn byte : ℕ) :
    NacksDenote cfg.snFieldLength (ns.foldl pushNack s.statusOwnedByWriter.reset).nacks sn byte ↔
      NacksDenote cfg.snFieldLength ns sn byte := by
  have hfold := @foldl_pushNack_denote s.statusOwnedByWriter.reset ns (by simp [reset]) hpos sn byte
  rw [show s.statusOwnedByWriter.reset.snSize = cfg.snFieldLength from hsize] at hfold
  rw [hfold]
  simp [reset]

/-- the report covers SDUs up to its ACK index; its NACKs are about these, and denote what is missing of them -/
theorem report_spec {sdu : ℕ → Bytes} (h : Window InfoOk cfg R S H s) (hg : Genuine cfg R H sdu s)
    (hsize : s.statusOwnedByWriter.snSize = cfg.snFieldLength) :
    ∃ A, R ≤ A ∧ A ≤ S ∧ (s.refreshStatusReport cfg).statusForExchange.ackSn = A % cfg.snFieldLength.mod ∧
      (∀ nack ∈ pushedNacks cfg s, 1 ≤ nack.range) ∧ (∀ nack ∈ (s.refreshStatusReport cfg).statusForExchange.nacks,
        ∃ x, nack.At cfg.snFieldLength R A (fun i => (sdu i).length) x) ∧ ∀ i, R ≤ i → i < A → ∀ b < (sdu i).length,
        (NacksDenote cfg.snFieldLength (s.refreshStatusReport cfg).statusForExchange.nacks
          (i % cfg.snFieldLength.mod) b ↔ Missing cfg s i b) := by
  obtain ⟨A, hRA, hAS, hstop, hsns⟩ := reportedSns_eq h
  obtain ⟨hat, hden⟩ := pushedNacks_spec h hg hAS hsns
  have hA : A ≤ R + cfg.snFieldLength.amWindowSize := le_trans hAS (le_trans h.status_le h.highest_le)
  have hpos : ∀ x ∈ pushedNacks cfg s, 1 ≤ x.range := by
    intro x hx
    obtain ⟨y, hy⟩ := hat x hx
    exact hy.pos
  rw [refreshStatusReport_exchange]
  refine ⟨A, hRA, hAS, hstop, hpos, ?_, ?_⟩
  · refine forall_mem_foldl_pushNack ?_ (by simp [reset]) hat
    rintro prev nack ⟨x, hx⟩ ⟨y, hy⟩ hm
    rw [show s.statusOwnedByWriter.reset.snSize = cfg.snFieldLength from hsize] at hm
    exact ⟨x, hx.merge hA hg.pos hy hm⟩
  · intro i hi hiA b hb
    rw [← hden i hi hiA b hb]
    exact pushed_denote hsize hpos _ _

end RlcRxAmEntity

end OcuduRan.Rlc
