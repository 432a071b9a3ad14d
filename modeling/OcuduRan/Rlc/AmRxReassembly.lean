/-
Reassembly of an SDU from its segments.

An SDU is received in cuts: byte ranges of it, in any order, overlapping and repeated. A cut is marked as the first
segment exactly if it starts at byte 0 and as the last one exactly if it contains the final byte, so no cut is the whole
SDU. Each cut passes store_segment and update_segment_inventory; reassemble_sdu then appends the payloads to a
byte_buffer_chain, whose slices stand in one memory block of the segment pool.

Results, for every SDU of 1 to 65535 bytes and every list of cuts (`segment_reassembly_iff`):
- the stored segments are sorted, disjoint and not empty, hold the SDU's bytes, and together exactly those received;
- fully_received says that every byte has been received, has_gap that a byte before a received one is missing;
- a fully received SDU is returned, and then exactly, if and only if its stored segments fit into the chain: at most
  `maxNofSlices`. There are never more stored segments than cuts received, so an SDU that arrives in at most that many
  cuts is returned (`reassembled_of_few_cuts`).
Witness: `segment_reassembly_overlapping`, three overlapping cuts.
Counterexample: `many_segments_not_reassembled`, an SDU of 52 bytes received byte by byte is complete, and lost.
-/
import OcuduRan.Rlc.AmGenuine

namespace OcuduRan.Rlc

open List

/-! ## Cuts -/

/-- bytes [start, stop) of an SDU, with a byte of it left out -/
structure Cut (sdu : Bytes) where
  start : ℕ
  stop : ℕ
  nonempty : start < stop
  le : stop ≤ sdu.length
  part : ¬ (start = 0 ∧ stop = sdu.length)

namespace Cut

variable {sdu : Bytes} (c : Cut sdu)

def si : RlcSiField :=
  if c.start = 0 then .firstSegment else if c.stop = sdu.length then .lastSegment else .middleSegment

def segment : RlcRxAmSduSegment := ⟨c.si, c.start, (sdu.drop c.start).take (c.stop - c.start)⟩

theorem segment_length : c.segment.payload.length = c.stop - c.start := by
  have hle := c.le
  simp only [segment, length_take, length_drop]
  omega

theorem segment_ok (hlen : sdu.length < 2 ^ 16) : c.segment.Ok := by
  have hlt := c.nonempty
  have hle := c.le
  refine ⟨?_, ?_⟩
  · rw [segment_length]
    omega
  · show c.start < 2 ^ 16
    omega

theorem segment_of : SegmentOf sdu c.segment := by
  have hlt := c.nonempty
  have hle := c.le
  have hso : c.segment.so = c.start := rfl
  refine ⟨?_, ?_, ?_⟩
  · rw [segment_length]
    rfl
  · rw [hso, segment_length]
    omega
  · have hsi : c.segment.si = .lastSegment ↔ c.start ≠ 0 ∧ c.stop = sdu.length := by
      show c.si = .lastSegment ↔ _
      unfold si
      split_ifs <;> simp [*]
    have hpart := c.part
    rw [hsi, hso, segment_length]
    omega

theorem segment_has (b : ℕ) : c.segment.Has b ↔ c.start ≤ b ∧ b < c.stop := by
  have hlt := c.nonempty
  have hso : c.segment.so = c.start := rfl
  simp only [RlcRxAmSduSegment.Has, RlcRxAmSduSegment.lastByte, segment_length, hso]
  omega

end Cut

/-- byte `b` is in one of the cuts -/
def Received {sdu : Bytes} (cuts : List (Cut sdu)) (b : ℕ) : Prop := ∃ c ∈ cuts, c.start ≤ b ∧ b < c.stop

/-- the segments stored for an SDU -/
def RlcRxAmSduInfo.segments (info : RlcRxAmSduInfo) : List RlcRxAmSduSegment :=
  match info.sduData with
  | .segmentSet segments => segments
  | .slice _ => []

/-- what handle_segment_data_sdu does with a cut of an SDU of the window -/
def receiveCut {sdu : Bytes} (info : RlcRxAmSduInfo) (c : Cut sdu) : RlcRxAmSduInfo :=
  updateSegmentInventory (storeSegment info c.segment).2

/-- an SDU after its cuts -/
def receiveCuts {sdu : Bytes} (cuts : List (Cut sdu)) : RlcRxAmSduInfo := Machine.run receiveCut {} cuts

/-! ## Gaps and completeness -/

section Inventory

variable {sdu : Bytes} {segments : List RlcRxAmSduSegment} {next : ℕ} {segm : RlcRxAmSduSegment}
  {rest : List RlcRxAmSduSegment} {b : ℕ}

/-- segments behind the first one start behind its last byte -/
theorem SegsOk.behind (h : SegsOk (segm :: rest)) : ∀ w ∈ rest, segm.so + segm.payload.length ≤ w.so := by
  intro w hw
  have h1 := (@SegsOk.split [] _ _ h).2 w hw
  have h2 := (h.ok segm (by simp)).lastByte_add_one
  omega

/-- a byte before every segment is not stored -/
theorem not_covers_of_before (h : ∀ w ∈ segments, b < w.so) : ¬ Covers segments b := by
  rintro ⟨w, hw, hlo, -⟩
  exact absurd (h w hw) (by omega)

/-- a byte behind the first segment is stored in one of the others -/
theorem covers_cons_behind (hok : segm.Ok)
    (hb : segm.so + segm.payload.length ≤ b) : Covers (segm :: rest) b ↔ Covers rest b := by
  have hlast := hok.lastByte_add_one
  rw [covers_cons]
  refine or_iff_right fun hin => ?_
  have := hin.2
  omega

/-- if every byte from `next` on is stored, the inventory finds the SDU complete -/
theorem inventoryLoop_of_covers (hok : SegsOk segments) (h : ∀ segm ∈ segments, SegmentOf sdu segm)
    (hfrom : ∀ segm ∈ segments, next ≤ segm.so) (hnext : next < sdu.length)
    (hall : ∀ b, next ≤ b → b < sdu.length → Covers segments b) : (inventoryLoop next segments).2 = true := by
  induction segments generalizing next with
  | nil => exact absurd (hall next le_rfl hnext) (covers_nil next)
  | cons segm rest ih =>
    have hsegm := h segm (by simp)
    have hsegmOk := hok.ok segm (by simp)
    have hso : segm.so = next := by
      by_contra hne
      have hlt : next < segm.so := lt_of_le_of_ne (hfrom segm (by simp)) (Ne.symm hne)
      refine not_covers_of_before ?_ (hall next le_rfl hnext)
      intro w hw
      rcases mem_cons.1 hw with rfl | hw
      · exact hlt
      · have := hok.behind w hw
        omega
    unfold inventoryLoop
    rw [if_neg (by simpa using hso)]
    split_ifs with hsi
    · rfl
    · have hend : segm.so + segm.payload.length < sdu.length :=
        lt_of_le_of_ne hsegm.le fun heq => hsi (hsegm.last.2 heq)
      rw [← hso]
      apply ih (@segsOk_remove [] _ _ hok) (fun x hx => h x (by simp [hx])) hok.behind hend
      intro b hb hb'
      exact (covers_cons_behind hsegmOk hb).1 (hall b (by omega) hb')

/-- the inventory finds a gap exactly if a byte from `next` on is missing before a stored one; where it finds the SDU
complete, nothing is stored behind the last segment -/
theorem inventoryLoop_gap_iff (hok : SegsOk segments)
    (h : (inventoryLoop next segments).2 = true → ∀ segm ∈ segments, SegmentOf sdu segm)
    (hfrom : ∀ segm ∈ segments, next ≤ segm.so) :
    (inventoryLoop next segments).1 = true ↔ ∃ b b', next ≤ b ∧ b < b' ∧ Covers segments b' ∧ ¬ Covers segments b := by
  induction segments generalizing next with
  | nil => simp [inventoryLoop]
  | cons segm rest ih =>
    have hsegmOk := hok.ok segm (by simp)
    have hlast := hsegmOk.lastByte_add_one
    have hfrom0 := hfrom segm (by simp)
    unfold inventoryLoop at h ⊢
    split_ifs at h ⊢ with hso hsi
    · refine iff_of_true rfl ⟨next, segm.so, le_rfl, by omega, ?_, ?_⟩
      · exact ⟨segm, by simp, le_rfl, hsegmOk.so_le_lastByte⟩
      · refine not_covers_of_before fun w hw => ?_
        rcases mem_cons.1 hw with rfl | hw
        · omega
        · have := hok.behind w hw
          omega
    · -- nothing is stored behind the last segment, and it starts at `next`
      obtain rfl : segm.so = next := by simpa using hso
      have hrest := rest_nil_of_last hok (h rfl) ((h rfl segm (by simp)).last.1 hsi)
      subst hrest
      refine iff_of_false (by simp) ?_
      rintro ⟨b, b', hb, hlt, hcov, hno⟩
      have hin : segm.Has b' := by simpa using hcov
      have := hin.2
      exact hno ⟨segm, by simp, hb, by omega⟩
    · obtain rfl : segm.so = next := by simpa using hso
      rw [ih (@segsOk_remove [] _ _ hok) (fun hfull x hx => h hfull x (by simp [hx])) hok.behind]
      constructor
      · rintro ⟨b, b', hb, hlt, hcov, hno⟩
        refine ⟨b, b', by omega, hlt, ?_, ?_⟩
        · exact (covers_cons_behind hsegmOk (by omega)).2 hcov
        · exact fun hc => hno ((covers_cons_behind hsegmOk hb).1 hc)
      · rintro ⟨b, b', hb, hlt, hcov, hno⟩
        have hbehind : segm.so + segm.payload.length ≤ b := by
          by_contra hin
          exact hno ⟨segm, by simp, hb, by omega⟩
        refine ⟨b, b', hbehind, hlt, ?_, ?_⟩
        · exact (covers_cons_behind hsegmOk (by omega)).1 hcov
        · exact fun hc => hno ((covers_cons_behind hsegmOk hbehind).2 hc)

end Inventory

/-! ## The run over the cuts -/

theorem insertSegment_length_le (segm : RlcRxAmSduSegment) (segments : List RlcRxAmSduSegment) :
    (insertSegment segm segments).length ≤ segments.length + 1 := by
  induction segments with
  | nil => simp [insertSegment]
  | cons cur rest ih =>
    unfold insertSegment
    split_ifs
    · simp
    · simp
    · simpa using ih

/-- a stored segment adds at most one -/
theorem storeLoop_length_le (visited rest : List RlcRxAmSduSegment) (new : RlcRxAmSduSegment) :
    (storeLoop visited rest new).2.length ≤ visited.length + rest.length + 1 := by
  induction rest generalizing visited new with
  | nil =>
    unfold storeLoop
    simpa using insertSegment_length_le new visited
  | cons cur rest ih =>
    unfold storeLoop
    split_ifs
    · have := ih (visited ++ [cur]) new
      simp only [length_append, length_cons, length_nil] at this ⊢
      omega
    · simp
    · refine (ih (visited ++ [cur]) _).trans ?_
      simp only [length_append, length_cons, length_nil]
      omega
    · have := insertSegment_length_le new (visited ++ cur :: rest)
      simp only [length_append, length_cons] at this ⊢
      omega
    · dsimp only
      refine (insertSegment_length_le _ _).trans ?_
      have := insertSegment_length_le
        { cur with payload := cur.payload.drop (new.lastByte + 1 - cur.so), so := (new.lastByte + 1) % 2 ^ 16 }
        (visited ++ rest)
      simp only [length_append, length_cons] at this ⊢
      omega
    · have := ih visited new
      simp only [length_cons]
      omega

/-- what is known of an SDU of which the bytes `R` have been received in `n` cuts -/
structure Inventory (sdu : Bytes) (R : ℕ → Prop) (n : ℕ) (info : RlcRxAmSduInfo) : Prop where
  ok : SegsOk info.segments
  pieces : ∀ segm ∈ info.segments, SegmentOf sdu segm
  covers : ∀ b, Covers info.segments b ↔ R b
  flags : (info.hasGap, info.fullyReceived) = inventoryLoop 0 info.segments
  length : info.segments.length ≤ n
  set : info.segments ≠ [] → info.sduData = .segmentSet info.segments

theorem inventory_init (sdu : Bytes) : Inventory sdu (fun _ => False) 0 {} :=
  ⟨segsOk_nil, by simp [RlcRxAmSduInfo.segments], fun b => by simp [RlcRxAmSduInfo.segments], rfl, le_rfl,
    fun h => absurd rfl h⟩

variable {sdu : Bytes} {R : ℕ → Prop} {n : ℕ} {info : RlcRxAmSduInfo}

theorem receiveCut_segments (info : RlcRxAmSduInfo) (c : Cut sdu) :
    (receiveCut info c).sduData = .segmentSet (storeLoop [] info.segments c.segment).2 ∧
      ((receiveCut info c).hasGap, (receiveCut info c).fullyReceived) =
        inventoryLoop 0 (storeLoop [] info.segments c.segment).2 := ⟨rfl, rfl⟩

theorem Inventory.receiveCut (h : Inventory sdu R n info) (hlen : sdu.length < 2 ^ 16) (c : Cut sdu) :
    Inventory sdu (fun b => R b ∨ (c.start ≤ b ∧ b < c.stop)) (n + 1) (receiveCut info c) := by
  have hnew := c.segment_ok hlen
  have hwrap := noWrap_of_segmentOf hlen.le h.ok h.pieces c.segment_of hnew
  have hstored : Stored info.segments c.segment (storeLoop [] info.segments c.segment) :=
    @storeLoop_stored [] info.segments c.segment h.ok hnew (by simp) hwrap
  have hle := storeLoop_length_le [] info.segments c.segment
  obtain ⟨hdata, hflags⟩ := receiveCut_segments info c
  have hsegs : (Rlc.receiveCut info c).segments = (storeLoop [] info.segments c.segment).2 := by
    unfold RlcRxAmSduInfo.segments at hdata ⊢
    rw [hdata]
  refine ⟨?_, ?_, ?_, ?_, ?_, ?_⟩
  · rw [hsegs]
    exact hstored.ok
  · rw [hsegs]
    exact hstored.segmentOf h.pieces c.segment_of
  · intro b
    rw [hsegs, hstored.covers b, h.covers b, c.segment_has b]
  · rw [hsegs]
    exact hflags
  · have hn := h.length
    rw [hsegs]
    simp only [length_nil] at hle
    omega
  · intro _
    rw [hsegs]
    exact hdata

theorem inventory_receiveCuts (hlen : sdu.length < 2 ^ 16) (cuts : List (Cut sdu)) :
    Inventory sdu (Received cuts) cuts.length (receiveCuts cuts) := by
  -- the run extends what was received before it
  have hrun : ∀ (R : ℕ → Prop) (n : ℕ) (info : RlcRxAmSduInfo), Inventory sdu R n info →
      Inventory sdu (fun b => R b ∨ Received cuts b) (n + cuts.length) (Machine.run Rlc.receiveCut info cuts) := by
    induction cuts with
    | nil =>
      intro R n info h
      simpa [Received] using h
    | cons c cuts ih =>
      intro R n info h
      have hrest := ih _ _ _ (h.receiveCut hlen c)
      have hlength : n + 1 + cuts.length = n + (c :: cuts).length := by
        rw [length_cons]
        omega
      rw [hlength] at hrest
      refine ⟨hrest.ok, hrest.pieces, fun b => (hrest.covers b).trans ?_, hrest.flags, hrest.length, hrest.set⟩
      simp only [Received, mem_cons, exists_eq_or_imp, or_assoc]
  have h := hrun _ 0 {} (inventory_init sdu)
  rw [Nat.zero_add] at h
  exact ⟨h.ok, h.pieces, fun b => (h.covers b).trans (by simp), h.flags, h.length, h.set⟩

theorem Inventory.fullyReceived_iff (h : Inventory sdu R n info) (hpos : 0 < sdu.length) :
    info.fullyReceived = true ↔ ∀ b < sdu.length, R b := by
  have hflag : info.fullyReceived = (inventoryLoop 0 info.segments).2 := congrArg Prod.snd h.flags
  rw [hflag]
  constructor
  · intro hfull b hb
    exact (h.covers b).1 ((inventoryLoop_complete h.ok h.pieces hfull).2 b (Nat.zero_le b) hb)
  · intro hall
    exact inventoryLoop_of_covers h.ok h.pieces (fun _ _ => Nat.zero_le _) hpos
      fun b _ hb => (h.covers b).2 (hall b hb)

theorem Inventory.hasGap_iff (h : Inventory sdu R n info) : info.hasGap = true ↔ ∃ b b', b < b' ∧ R b' ∧ ¬ R b := by
  have hflag : info.hasGap = (inventoryLoop 0 info.segments).1 := congrArg Prod.fst h.flags
  rw [hflag, inventoryLoop_gap_iff h.ok (fun _ => h.pieces) fun _ _ => Nat.zero_le _]
  simp only [h.covers, Nat.zero_le, true_and]

theorem Inventory.reassemble_iff (h : Inventory sdu R n info) (hfull : info.fullyReceived = true) :
    (reassembleSdu info true = some sdu ↔ info.segments.length ≤ maxNofSlices) ∧
      (reassembleSdu info true = none ↔ maxNofSlices < info.segments.length) := by
  have hflag : (inventoryLoop 0 info.segments).2 = true := by
    rw [← hfull]
    exact (congrArg Prod.snd h.flags).symm
  obtain ⟨hbytes, -⟩ := inventoryLoop_complete h.ok h.pieces hflag
  have hne : info.segments ≠ [] := by
    intro hnil
    rw [hnil] at hflag
    cases hflag
  have heq : reassembleSdu info true = if info.segments.length ≤ maxNofSlices then some sdu else none := by
    rw [reassembleSdu_of_segments (h.set hne) hfull h.ok hbytes]
    simp only [true_and]
  rw [heq]
  split_ifs with hle
  · exact ⟨by simp [hle], by simp [hle]⟩
  · exact ⟨by simp [hle], by simp; omega⟩

/-- a chain has room for every SDU of which all bytes arrive in at most `maxNofSlices` cuts -/
theorem reassembled_of_few_cuts (hpos : 0 < sdu.length) (hlen : sdu.length < 2 ^ 16) (cuts : List (Cut sdu))
    (hfew : cuts.length ≤ maxNofSlices) (hall : ∀ b < sdu.length, Received cuts b) :
    reassembleSdu (receiveCuts cuts) true = some sdu := by
  have h := inventory_receiveCuts hlen cuts
  exact (h.reassemble_iff ((h.fullyReceived_iff hpos).2 hall)).1.2 (h.length.trans hfew)

/-- the segments stored for an SDU are its received bytes, the flags say what they are for, and a fully received SDU is
returned exactly if its stored segments fit into the chain -/
theorem segment_reassembly_iff (sdu : Bytes) (hpos : 0 < sdu.length) (hlen : sdu.length < 2 ^ 16)
    (cuts : List (Cut sdu)) :
    SegsOk (receiveCuts cuts).segments ∧ (∀ b, Covers (receiveCuts cuts).segments b ↔ Received cuts b) ∧
    (∀ segm ∈ (receiveCuts cuts).segments, segm.payload = (sdu.drop segm.so).take segm.payload.length) ∧
    ((receiveCuts cuts).fullyReceived = true ↔ ∀ b < sdu.length, Received cuts b) ∧
    ((receiveCuts cuts).hasGap = true ↔ ∃ b b', b < b' ∧ Received cuts b' ∧ ¬ Received cuts b) ∧
    (receiveCuts cuts).segments.length ≤ cuts.length ∧ ((receiveCuts cuts).fullyReceived = true →
      (reassembleSdu (receiveCuts cuts) true = some sdu ↔ (receiveCuts cuts).segments.length ≤ maxNofSlices)) := by
  have h := inventory_receiveCuts hlen cuts
  exact ⟨h.ok, h.covers, fun segm hsegm => (h.pieces segm hsegm).bytes, h.fullyReceived_iff hpos, h.hasGap_iff,
    h.length,
    fun hfull => (h.reassemble_iff hfull).1⟩

/-- an SDU of four bytes and three cuts of it that overlap, the last one first -/
def overlappingSdu : Bytes := [1, 2, 3, 4]

def overlappingCuts : List (Cut overlappingSdu) :=
  [⟨2, 4, by decide, by decide, by decide⟩, ⟨1, 3, by decide, by decide, by decide⟩,
  ⟨0, 2, by decide, by decide, by decide⟩]

theorem segment_reassembly_overlapping :
    (receiveCuts overlappingCuts).fullyReceived = true ∧ (receiveCuts overlappingCuts).segments.length = 3 ∧
      reassembleSdu (receiveCuts overlappingCuts) true = some overlappingSdu := by
  have hfull : (receiveCuts overlappingCuts).fullyReceived = true := by decide +kernel
  have hlength : (receiveCuts overlappingCuts).segments.length = 3 := by decide +kernel
  have h := segment_reassembly_iff overlappingSdu (by decide) (by decide) overlappingCuts
  exact ⟨hfull, hlength, (h.2.2.2.2.2.2 hfull).2 (by rw [hlength]; decide)⟩

/-- an SDU of 52 bytes, one cut for each byte -/
def bytewiseSdu : Bytes := replicate 52 0

def byteCut (i : Fin 52) : Cut bytewiseSdu where
  start := i.val
  stop := i.val + 1
  nonempty := Nat.lt_succ_self _
  le := i.isLt
  part := by
    rintro ⟨h0, h1⟩
    rw [h0] at h1
    exact absurd h1 (by decide)

def bytewiseCuts : List (Cut bytewiseSdu) := (finRange 52).map byteCut

/-- received byte by byte, the SDU is complete and is not returned -/
theorem many_segments_not_reassembled :
    (∀ b < bytewiseSdu.length, Received bytewiseCuts b) ∧ (receiveCuts bytewiseCuts).fullyReceived = true ∧
      reassembleSdu (receiveCuts bytewiseCuts) true = none := by
  refine ⟨?_, by decide +kernel, by decide +kernel⟩
  intro b hb
  have hb' : b < 52 := hb
  exact ⟨_, mem_map.2 ⟨⟨b, hb'⟩, mem_finRange _, rfl⟩, le_rfl, Nat.lt_succ_self b⟩

end OcuduRan.Rlc
