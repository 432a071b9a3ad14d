/-
Segments of genuine SDUs.

A stored segment is genuine when it is a piece of the SDU and is marked as the last segment exactly if it ends with the
SDU. Trimming and cutting keep that. Offsets of an SDU of at most 2^16 bytes need no more than 16 bits, so storing
genuine segments never wraps, and a set of segments that update_segment_inventory takes for complete holds every byte:
put together, its payloads are the SDU.
-/
import OcuduRan.Rlc.AmRxWindow

namespace OcuduRan.Rlc

open List

/-- the segment is a piece of the SDU -/
structure SegmentOf (sdu : Bytes) (segm : RlcRxAmSduSegment) : Prop where
  bytes : segm.payload = (sdu.drop segm.so).take segm.payload.length
  le : segm.so + segm.payload.length ≤ sdu.length
  last : segm.si = .lastSegment ↔ segm.so + segm.payload.length = sdu.length

section
variable {sdu : Bytes} {segm new : RlcRxAmSduSegment} {segments : List RlcRxAmSduSegment}

theorem SegmentOf.advance {k : ℕ} (h : SegmentOf sdu segm) (hk : k ≤ segm.payload.length) :
    SegmentOf sdu (segm.advance k) := by
  have hlen : (segm.advance k).so + (segm.advance k).payload.length = segm.so + segm.payload.length := by
    simp only [RlcRxAmSduSegment.advance, length_drop]
    omega
  refine ⟨?_, ?_, ?_⟩
  · show segm.payload.drop k = (sdu.drop (segm.so + k)).take (segm.payload.drop k).length
    rw [length_drop, ← drop_drop, ← drop_take, ← h.bytes]
  · rw [hlen]
    exact h.le
  · rw [hlen]
    exact h.last

theorem SegmentOf.lastByte_lt (h : SegmentOf sdu segm) (hok : segm.Ok) : segm.lastByte < sdu.length := by
  have h1 := h.le
  have h2 := hok.lastByte_add_one
  omega

/-- storing keeps every segment genuine -/
theorem Stored.segmentOf {r : Bool × List RlcRxAmSduSegment} (hst : Stored segments new r)
    (h : ∀ segm ∈ segments, SegmentOf sdu segm) (hnew : SegmentOf sdu new) : ∀ segm ∈ r.2, SegmentOf sdu segm := by
  intro x hx
  obtain ⟨y, hy, k, hk, rfl⟩ := hst.tails x hx
  rcases hy with hy | rfl
  · exact (h y hy).advance hk.le
  · exact hnew.advance hk.le

/-- genuine segments need no offset beyond 16 bits -/
theorem noWrap_of_segmentOf (hlen : sdu.length ≤ 2 ^ 16) (hok : SegsOk segments)
    (h : ∀ segm ∈ segments, SegmentOf sdu segm) (hnew : SegmentOf sdu new) (hnewOk : new.Ok) :
    NoWrap segments new := by
  intro cur hcur hcur16 hnew16
  have h1 := (h cur hcur).lastByte_lt (hok.ok cur hcur)
  have h2 := hnew.lastByte_lt hnewOk
  exact ⟨fun hlt => by omega, fun hlt => by omega⟩

/-- nothing is stored behind the last segment -/
theorem rest_nil_of_last {rest : List RlcRxAmSduSegment} (hok : SegsOk (segm :: rest))
    (h : ∀ x ∈ segm :: rest, SegmentOf sdu x) (hend : segm.so + segm.payload.length = sdu.length) : rest = [] := by
  cases rest with
  | nil => rfl
  | cons w rest =>
    have h1 := (@SegsOk.split [] _ _ hok).2 w (by simp)
    have h2 := (hok.ok segm (by simp)).lastByte_add_one
    have h3 := (h w (by simp)).le
    have h4 := (hok.ok w (by simp)).len
    omega

end

/-- segments found complete from offset `next` on are the rest of the SDU -/
theorem inventoryLoop_complete {sdu : Bytes} {segments : List RlcRxAmSduSegment} {next : ℕ} (hok : SegsOk segments)
    (h : ∀ segm ∈ segments, SegmentOf sdu segm) (hfull : (inventoryLoop next segments).2 = true) :
    segments.flatMap (·.payload) = sdu.drop next ∧ ∀ b, next ≤ b → b < sdu.length → Covers segments b := by
  induction segments generalizing next with
  | nil => cases hfull
  | cons segm rest ih =>
    have hsegm := h segm (by simp)
    have hlast := (hok.ok segm (by simp)).lastByte_add_one
    unfold inventoryLoop at hfull
    split_ifs at hfull with hso hsi
    · obtain rfl : segm.so = next := by simpa using hso
      have hend := hsegm.last.1 hsi
      obtain rfl := rest_nil_of_last hok h hend
      refine ⟨?_, ?_⟩
      · rw [flatMap_cons, flatMap_nil, append_nil, hsegm.bytes, take_of_length_le]
        rw [length_drop]
        omega
      · intro b hb hb'
        exact ⟨segm, by simp, hb, by omega⟩
    · obtain rfl : segm.so = next := by simpa using hso
      obtain ⟨hbytes, hcov⟩ := ih (@segsOk_remove [] _ _ hok) (fun x hx => h x (by simp [hx])) hfull
      refine ⟨?_, ?_⟩
      · rw [flatMap_cons, hbytes, ← drop_drop]
        nth_rewrite 1 [hsegm.bytes]
        exact take_append_drop _ _
      · intro b hb hb'
        by_cases hin : b ≤ segm.lastByte
        · exact ⟨segm, by simp, hb, hin⟩
        · rw [covers_cons]
          exact .inr (hcov b (by omega) hb')

/-! ## Reassembly -/

namespace ByteBufferChain

theorem appendAll_eq (chain : ByteBufferChain) (slices : List Bytes) (hne : ∀ slice ∈ slices, slice ≠ [])
    (hle : chain.slices.length ≤ maxNofSlices) : chain.appendAll slices =
      if chain.slices.length + slices.length ≤ maxNofSlices then some ⟨chain.slices ++ slices⟩ else none := by
  induction slices generalizing chain with
  | nil => simp [appendAll, hle]
  | cons slice rest ih =>
    have hslice : slice ≠ [] := hne slice (by simp)
    by_cases hfull : chain.slices.length = maxNofSlices
    · simp [appendAll, append, hslice, full, hfull]
    · have hlt : (chain.slices ++ [slice]).length ≤ maxNofSlices := by
        rw [length_append, length_singleton]
        omega
      have hrec := ih ⟨chain.slices ++ [slice]⟩ (fun x hx => hne x (by simp [hx])) hlt
      simp only [appendAll, append, if_neg hslice, full, decide_eq_true_eq, if_neg hfull]
      rw [hrec]
      simp only [length_append, length_cons, length_nil, append_assoc, singleton_append]
      congr 2
      omega

end ByteBufferChain

/-- complete segments are put together if they fit into the chain -/
theorem reassembleSdu_of_segments {info : RlcRxAmSduInfo} {segments : List RlcRxAmSduSegment} {allocOk : Bool}
    {sdu : Bytes} (hdata : info.sduData = .segmentSet segments) (hfull : info.fullyReceived = true)
    (hok : SegsOk segments) (hbytes : segments.flatMap (·.payload) = sdu.drop 0) :
    reassembleSdu info allocOk = if allocOk = true ∧ segments.length ≤ maxNofSlices then some sdu else none := by
  have hpayloads : ∀ slice ∈ segments.map (·.payload), slice ≠ [] := by
    intro slice hslice
    obtain ⟨segm, hsegm, rfl⟩ := mem_map.1 hslice
    exact length_pos_iff.1 (hok.ok segm hsegm).len
  unfold reassembleSdu
  rw [hfull, hdata]
  cases allocOk with
  | false => rfl
  | true =>
    simp only [Bool.not_true, Bool.false_eq_true, if_false, true_and]
    rw [ByteBufferChain.appendAll_eq _ _ hpayloads (Nat.zero_le _)]
    rw [flatMap_def, drop_zero] at hbytes
    simp only [length_nil, length_map, Nat.zero_add, nil_append]
    split_ifs
    · simp [ByteBufferChain.bytes, hbytes]
    · rfl

end OcuduRan.Rlc
