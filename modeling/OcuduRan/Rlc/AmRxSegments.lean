/-
Storing segments of an SDU.

The set of segments is right (`SegsOk`) when its segments are not empty, their offsets are 16-bit, and each ends before
the next one starts, last bytes being computed without truncation. store_segment keeps it right, and adds exactly the
bytes of the new segment to those stored, unless it has to store an offset of 2^16 or more: the new segment and a stored
one of the same SDU both reach offset 65535, and the one that reaches further is cut behind the end of the other.
`NoWrap` says that this does not happen, in terms of the segments alone.
-/
import OcuduRan.Rlc.AmRx

namespace OcuduRan.Rlc

open RlcRxAmSduSegment List

/-! ## Sets of segments -/

/-- not empty, with an offset of 16 bits -/
structure RlcRxAmSduSegment.Ok (segm : RlcRxAmSduSegment) : Prop where
  len : 0 < segm.payload.length
  so : segm.so < 2 ^ 16

/-- byte `b` of the SDU is in the segment -/
def RlcRxAmSduSegment.Has (segm : RlcRxAmSduSegment) (b : ℕ) : Prop := segm.so ≤ b ∧ b ≤ segm.lastByte

/-- byte `b` of the SDU is in one of the segments -/
def Covers (segments : List RlcRxAmSduSegment) (b : ℕ) : Prop := ∃ segm ∈ segments, segm.Has b

/-- sorted and pairwise non-overlapping segments -/
structure SegsOk (segments : List RlcRxAmSduSegment) : Prop where
  ok : ∀ segm ∈ segments, segm.Ok
  apart : segments.Pairwise fun left right => left.lastByte < right.so

instance (segm : RlcRxAmSduSegment) : Decidable segm.Ok :=
  decidable_of_iff (0 < segm.payload.length ∧ segm.so < 2 ^ 16) ⟨fun h => ⟨h.1, h.2⟩, fun h => ⟨h.len, h.so⟩⟩

instance (segments : List RlcRxAmSduSegment) : Decidable (SegsOk segments) :=
  decidable_of_iff ((∀ segm ∈ segments, segm.Ok) ∧ segments.Pairwise fun left right => left.lastByte < right.so)
    ⟨fun h => ⟨h.1, h.2⟩, fun h => ⟨h.ok, h.apart⟩⟩

variable {visited rest : List RlcRxAmSduSegment} {segm cur new : RlcRxAmSduSegment} {k : ℕ}

theorem RlcRxAmSduSegment.Ok.so_le_lastByte (h : segm.Ok) : segm.so ≤ segm.lastByte := by
  have := h.len
  unfold lastByte
  omega

theorem RlcRxAmSduSegment.Ok.lastByte_add_one (h : segm.Ok) : segm.lastByte + 1 = segm.so + segm.payload.length := by
  have := h.len
  unfold lastByte
  omega

@[simp] theorem covers_nil (b : ℕ) : ¬ Covers [] b := by simp [Covers]

@[simp] theorem covers_cons (segm : RlcRxAmSduSegment) (rest : List RlcRxAmSduSegment) (b : ℕ) :
    Covers (segm :: rest) b ↔ segm.Has b ∨ Covers rest b := by
  simp [Covers]

@[simp] theorem covers_append (a c : List RlcRxAmSduSegment) (b : ℕ) :
    Covers (a ++ c) b ↔ Covers a b ∨ Covers c b := by
  simp [Covers, or_and_right, exists_or]

theorem segsOk_nil : SegsOk [] := ⟨by simp, List.Pairwise.nil⟩

/-- a segment fits between those before and those behind it -/
theorem segsOk_insert (h : SegsOk (visited ++ rest)) (hnew : new.Ok) (hbefore : ∀ v ∈ visited, v.lastByte < new.so)
    (hbehind : ∀ w ∈ rest, new.lastByte < w.so) : SegsOk (visited ++ new :: rest) := by
  obtain ⟨hv, hr, hvr⟩ := pairwise_append.1 h.apart
  refine ⟨?_, ?_⟩
  · intro x hx
    simp only [mem_append, mem_cons] at hx
    rcases hx with hx | rfl | hx
    · exact h.ok x (by simp [hx])
    · exact hnew
    · exact h.ok x (by simp [hx])
  · refine pairwise_append.2 ⟨hv, pairwise_cons.2 ⟨hbehind, hr⟩, ?_⟩
    intro v hv' w hw
    rcases mem_cons.1 hw with rfl | hw
    · exact hbefore v hv'
    · exact hvr v hv' w hw

theorem segsOk_remove (h : SegsOk (visited ++ cur :: rest)) : SegsOk (visited ++ rest) := by
  have hsub : (visited ++ rest).Sublist (visited ++ cur :: rest) := List.Sublist.append_left (sublist_cons_self _ _) _
  exact ⟨fun x hx => h.ok x (hsub.subset hx), h.apart.sublist hsub⟩

/-- the segments before and behind one of a set -/
theorem SegsOk.split (h : SegsOk (visited ++ cur :: rest)) :
    (∀ v ∈ visited, v.lastByte < cur.so) ∧ (∀ w ∈ rest, cur.lastByte < w.so) := by
  obtain ⟨-, hr, hvr⟩ := pairwise_append.1 h.apart
  exact ⟨fun v hv => hvr v hv cur (by simp), fun w hw => (pairwise_cons.1 hr).1 w hw⟩

/-- insertion by offset puts a segment between those before and those behind it -/
theorem insertSegment_append (hbefore : ∀ v ∈ visited, v.so < new.so) (hbehind : ∀ w ∈ rest, new.so < w.so) :
    insertSegment new (visited ++ rest) = visited ++ new :: rest := by
  induction visited with
  | nil =>
    cases rest with
    | nil => rfl
    | cons w rest => simp [insertSegment, hbehind w (by simp)]
  | cons v visited ih =>
    have hv := hbefore v (by simp)
    have hrec := ih fun x hx => hbefore x (by simp [hx])
    rw [cons_append, insertSegment, if_neg (by omega), if_neg (by omega), hrec, cons_append]

/-! ## store_segment -/

/-- the segment without its first `k` bytes -/
def RlcRxAmSduSegment.advance (segm : RlcRxAmSduSegment) (k : ℕ) : RlcRxAmSduSegment :=
  { segm with payload := segm.payload.drop k, so := segm.so + k }

theorem advance_ok (hk : k < segm.payload.length) (hso : segm.so + k < 2 ^ 16) : (segm.advance k).Ok := by
  refine ⟨?_, hso⟩
  simp only [advance, length_drop]
  omega

theorem advance_lastByte (hk : k < segm.payload.length) : (segm.advance k).lastByte = segm.lastByte := by
  simp only [advance, lastByte, length_drop]
  omega

/-- no offset of 2^16 or more has to be stored: where a stored segment and the new one both reach offset 65535 and end
differently, the new one replaces the stored one if it reaches further, and else has no new byte before it -/
def NoWrap (segments : List RlcRxAmSduSegment) (new : RlcRxAmSduSegment) : Prop :=
  ∀ cur ∈ segments, 2 ^ 16 - 1 ≤ cur.lastByte → 2 ^ 16 - 1 ≤ new.lastByte →
    (cur.lastByte < new.lastByte → ∃ b, new.so ≤ b ∧ b < cur.so ∧ ¬ Covers segments b) ∧
    (new.lastByte < cur.lastByte → ∀ b, new.so ≤ b → b < cur.so → Covers segments b)

/-- what store_segment does to a right set of segments -/
structure Stored (segments : List RlcRxAmSduSegment) (new : RlcRxAmSduSegment)
    (r : Bool × List RlcRxAmSduSegment) : Prop where
  ok : SegsOk r.2
  covers : ∀ b, Covers r.2 b ↔ Covers segments b ∨ new.Has b
  dropped : r.1 = false → r.2 = segments
  /-- each stored segment is one of the old ones, the new one, or a tail of those -/
  tails : ∀ x ∈ r.2, ∃ y, (y ∈ segments ∨ y = new) ∧ ∃ k < y.payload.length, x = y.advance k

theorem advance_advance (segm : RlcRxAmSduSegment) (j k : ℕ) : (segm.advance j).advance k = segm.advance (j + k) := by
  simp [advance, Nat.add_assoc]

section
variable {visited rest : List RlcRxAmSduSegment} {cur new : RlcRxAmSduSegment} {k : ℕ}
  {r : Bool × List RlcRxAmSduSegment}

/-- the first byte of a new segment that starts before the current one, and behind those visited, is not stored -/
theorem not_covers_start (h : SegsOk (visited ++ cur :: rest)) (hvis : ∀ v ∈ visited, v.lastByte < new.so)
    (hlt : new.so < cur.so) : ¬ Covers (visited ++ cur :: rest) new.so := by
  rintro ⟨x, hx, hlo, hhi⟩
  simp only [mem_append, mem_cons] at hx
  rcases hx with hx | rfl | hx
  · have := hvis x hx
    omega
  · omega
  · have h1 := h.split.2 x hx
    have h2 := (h.ok cur (by simp)).so_le_lastByte
    omega

/-- a new segment that starts within the current one and reaches further goes on behind it, with a 16-bit offset -/
theorem wrap_free_behind (hwrap : NoWrap (visited ++ cur :: rest) new)
    (hge : cur.so ≤ new.so) (hlt : cur.lastByte < new.lastByte) : cur.lastByte + 1 < 2 ^ 16 := by
  by_contra hcon
  obtain ⟨b, hb, hb', -⟩ := (hwrap cur (by simp) (by omega) (by omega)).1 hlt
  omega

/-- a new segment that ends within the current one leaves the rest of it a 16-bit offset -/
theorem wrap_free_cut (h : SegsOk (visited ++ cur :: rest)) (hwrap : NoWrap (visited ++ cur :: rest) new)
    (hvis : ∀ v ∈ visited, v.lastByte < new.so) (hlt : new.so < cur.so) (hlast : new.lastByte < cur.lastByte) :
    new.lastByte + 1 < 2 ^ 16 := by
  by_contra hcon
  exact not_covers_start h hvis hlt ((hwrap cur (by simp) (by omega) (by omega)).2 hlast _ le_rfl hlt)

/-- the part of a new segment behind the current one still needs no wider offset -/
theorem NoWrap.behind (hwrap : NoWrap (visited ++ cur :: rest) new) (hk : k < new.payload.length)
    (hso : new.so + k = cur.lastByte + 1) (hge : cur.so ≤ new.so) :
    NoWrap ((visited ++ [cur]) ++ rest) (new.advance k) := by
  intro c hc hc16 hn16
  rw [advance_lastByte hk] at hn16 ⊢
  rw [append_assoc, singleton_append] at hc ⊢
  obtain ⟨h1, h2⟩ := hwrap c hc hc16 hn16
  refine ⟨fun hlt => ?_, fun hlt b hb hb' => h2 hlt b (le_trans (Nat.le_add_right _ k) hb) hb'⟩
  obtain ⟨b, hb, hb', hnot⟩ := h1 hlt
  refine ⟨b, ?_, hb', hnot⟩
  -- bytes of the new segment before its part behind the current one are in the current one
  by_contra hcon
  simp only [advance] at hcon
  exact hnot ⟨cur, by simp, by omega, by omega⟩

/-- once the new segment covers the current one, dropping that one changes nothing for the others -/
theorem NoWrap.replace (h : SegsOk (visited ++ cur :: rest)) (hwrap : NoWrap (visited ++ cur :: rest) new)
    (hvis : ∀ v ∈ visited, v.lastByte < new.so) (hlt : new.so < cur.so) : NoWrap (visited ++ rest) new := by
  intro c hc hc16 hn16
  obtain ⟨h1, h2⟩ := hwrap c (by simp only [mem_append, mem_cons] at hc ⊢; tauto) hc16 hn16
  refine ⟨fun hl => ?_, fun hl b hb hb' => ?_⟩
  · obtain ⟨b, hb, hb', hnot⟩ := h1 hl
    refine ⟨b, hb, hb', fun hcov => hnot ?_⟩
    simp only [covers_append, covers_cons] at hcov ⊢
    tauto
  · exact absurd (h2 hl new.so le_rfl (by omega)) (not_covers_start h hvis hlt)

/-- a segment that ends before all those behind the visited ones is put between them -/
theorem stored_insert (h : SegsOk (visited ++ rest)) (hnew : new.Ok) (hvis : ∀ v ∈ visited, v.lastByte < new.so)
    (hbehind : ∀ w ∈ rest, new.lastByte < w.so) :
    Stored (visited ++ rest) new (true, insertSegment new (visited ++ rest)) := by
  have hins : insertSegment new (visited ++ rest) = visited ++ new :: rest :=
    insertSegment_append (fun v hv => lt_of_le_of_lt (h.ok v (by simp [hv])).so_le_lastByte (hvis v hv))
      (fun w hw => lt_of_le_of_lt hnew.so_le_lastByte (hbehind w hw))
  rw [hins]
  refine ⟨segsOk_insert h hnew hvis hbehind, ?_, by simp, ?_⟩
  · intro b
    simp only [covers_append, covers_cons]
    tauto
  · intro x hx
    by_cases hxn : x = new
    · exact ⟨new, .inr rfl, 0, hnew.len, hxn⟩
    · have hx' : x ∈ visited ++ rest := by
        simp only [mem_append, mem_cons] at hx ⊢
        tauto
      exact ⟨x, .inl hx', 0, (h.ok x hx').len, rfl⟩

/-- a segment within a stored one is dropped -/
theorem stored_within (h : SegsOk (visited ++ cur :: rest)) (hge : cur.so ≤ new.so)
    (hlast : new.lastByte ≤ cur.lastByte) : Stored (visited ++ cur :: rest) new (false, visited ++ cur :: rest) := by
  refine ⟨h, ?_, fun _ => rfl, fun x hx => ⟨x, .inl hx, 0, (h.ok x hx).len, rfl⟩⟩
  intro b
  refine ⟨.inl, fun hb => hb.elim id fun hb => ⟨cur, by simp, ?_⟩⟩
  exact ⟨le_trans hge hb.1, le_trans hb.2 hlast⟩

/-- a segment that ends within the current one takes that one's first bytes -/
theorem stored_cut (h : SegsOk (visited ++ cur :: rest)) (hnew : new.Ok)
    (hvis : ∀ v ∈ visited, v.lastByte < new.so) (hk : k < cur.payload.length) (hlt : new.so < cur.so)
    (hso : cur.so + k = new.lastByte + 1) (h16 : cur.so + k < 2 ^ 16) :
    Stored (visited ++ cur :: rest) new
      (true, insertSegment new (insertSegment (cur.advance k) (visited ++ rest))) := by
  obtain ⟨hbefore, hbehind⟩ := h.split
  have hcutOk : (cur.advance k).Ok := advance_ok hk h16
  have hcutSo : (cur.advance k).so = new.lastByte + 1 := hso
  have hlast := advance_lastByte hk
  -- the rest of the current segment takes its place
  have hcut : insertSegment (cur.advance k) (visited ++ rest) = visited ++ cur.advance k :: rest := by
    refine insertSegment_append (fun v hv => ?_) (fun w hw => ?_)
    · have h1 := (h.ok v (by simp [hv])).so_le_lastByte
      have h2 := hbefore v hv
      omega
    · have h1 := hbehind w hw
      have h2 := hcutOk.so_le_lastByte
      omega
  have hcutSegs : SegsOk (visited ++ cur.advance k :: rest) := by
    refine segsOk_insert (segsOk_remove h) hcutOk (fun v hv => ?_) (fun w hw => ?_)
    · have := hbefore v hv
      omega
    · rw [hlast]
      exact hbehind w hw
  have hbeh : ∀ w ∈ cur.advance k :: rest, new.lastByte < w.so := by
    intro w hw
    rcases mem_cons.1 hw with rfl | hw
    · omega
    · have h1 := hbehind w hw
      have h2 := hcutOk.so_le_lastByte
      omega
  have hst := stored_insert hcutSegs hnew hvis hbeh
  rw [hcut]
  refine ⟨hst.ok, ?_, by simp, ?_⟩
  · intro b
    rw [hst.covers b]
    simp only [covers_append, covers_cons, RlcRxAmSduSegment.Has, hlast, hcutSo]
    have := hnew.so_le_lastByte
    constructor
    · rintro ((hb | hb | hb) | hb)
      · exact .inl (.inl hb)
      · exact .inl (.inr (.inl (by omega)))
      · exact .inl (.inr (.inr hb))
      · exact .inr hb
    · rintro ((hb | hb | hb) | hb)
      · exact .inl (.inl hb)
      · by_cases hbn : b ≤ new.lastByte
        · exact .inr (by omega)
        · exact .inl (.inr (.inl (by omega)))
      · exact .inl (.inr (.inr hb))
      · exact .inr hb
  · intro x hx
    obtain ⟨y, hy, j, hj, rfl⟩ := hst.tails x hx
    simp only [mem_append, mem_cons] at hy
    rcases hy with (hy | rfl | hy) | rfl
    · exact ⟨y, .inl (by simp [hy]), j, hj, rfl⟩
    · refine ⟨cur, .inl (by simp), k + j, ?_, advance_advance _ _ _⟩
      simp only [advance, length_drop] at hj
      omega
    · exact ⟨y, .inl (by simp [hy]), j, hj, rfl⟩
    · exact ⟨y, .inr rfl, j, hj, rfl⟩

/-- storing only the bytes behind a stored segment that holds the first ones stores the whole segment -/
theorem Stored.of_advance {segments : List RlcRxAmSduSegment}
    (hst : Stored segments (new.advance k) r) (hk : k < new.payload.length)
    (hcov : ∀ b, new.so ≤ b → b < new.so + k → Covers segments b) : Stored segments new r := by
  refine ⟨hst.ok, ?_, hst.dropped, ?_⟩
  · intro b
    rw [hst.covers b]
    simp only [RlcRxAmSduSegment.Has, advance_lastByte hk]
    simp only [advance]
    constructor
    · rintro (hb | hb)
      · exact .inl hb
      · exact .inr ⟨by omega, hb.2⟩
    · rintro (hb | hb)
      · exact .inl hb
      · by_cases hlt : b < new.so + k
        · exact .inl (hcov b hb.1 hlt)
        · exact .inr ⟨by omega, hb.2⟩
  · intro x hx
    obtain ⟨y, hy, j, hj, rfl⟩ := hst.tails x hx
    rcases hy with hy | rfl
    · exact ⟨y, .inl hy, j, hj, rfl⟩
    · refine ⟨new, .inr rfl, k + j, ?_, advance_advance _ _ _⟩
      simp only [advance, length_drop] at hj
      omega

/-- a segment that covers the current one replaces it -/
theorem Stored.of_replace (hst : Stored (visited ++ rest) new r)
    (htrue : r.1 = true) (hlt : new.so < cur.so) (hlast : cur.lastByte ≤ new.lastByte) :
    Stored (visited ++ cur :: rest) new r := by
  refine ⟨hst.ok, ?_, by simp [htrue], ?_⟩
  · intro b
    have hsub : cur.Has b → new.Has b := fun hb => ⟨le_trans hlt.le hb.1, le_trans hb.2 hlast⟩
    rw [hst.covers b]
    simp only [covers_append, covers_cons]
    tauto
  · intro x hx
    obtain ⟨y, hy, k, hk, rfl⟩ := hst.tails x hx
    refine ⟨y, ?_, k, hk, rfl⟩
    simp only [mem_append, mem_cons] at hy ⊢
    tauto

end

/-- a segment that starts before all those behind the visited ones is not dropped -/
theorem storeLoop_of_starts_before
    (hok : ∀ w ∈ rest, w.Ok) (hlt : ∀ w ∈ rest, new.so < w.so) : (storeLoop visited rest new).1 = true := by
  induction rest generalizing visited new with
  | nil => rfl
  | cons cur rest ih =>
    have h1 := (hok cur (by simp)).so_le_lastByte
    have h2 := hlt cur (by simp)
    rw [storeLoop, if_neg (by omega), if_neg (by omega)]
    split_ifs
    · rfl
    · rfl
    · exact ih (fun w hw => hok w (by simp [hw])) (fun w hw => hlt w (by simp [hw]))

theorem storeLoop_stored (h : SegsOk (visited ++ rest)) (hnew : new.Ok) (hvis : ∀ v ∈ visited, v.lastByte < new.so)
    (hwrap : NoWrap (visited ++ rest) new) : Stored (visited ++ rest) new (storeLoop visited rest new) := by
  induction rest generalizing visited new with
  | nil =>
    rw [storeLoop]
    simpa using stored_insert h hnew hvis (by simp)
  | cons cur rest ih =>
    have hcur : cur.Ok := h.ok cur (by simp)
    have hlen := hcur.lastByte_add_one
    have hnlen := hnew.lastByte_add_one
    obtain ⟨hbefore, hbehind⟩ := h.split
    have hassoc : visited ++ cur :: rest = (visited ++ [cur]) ++ rest := by simp
    rw [storeLoop]
    split_ifs with h1 h2 h3 h4 h5
    · -- behind the current segment
      rw [hassoc] at h hwrap ⊢
      refine ih h hnew ?_ hwrap
      intro v hv
      rcases mem_append.1 hv with hv | hv
      · exact hvis v hv
      · rw [mem_singleton.1 hv]
        exact h1
    · exact stored_within h h2 h3
    · -- starts within the current segment and goes on behind it
      have h16 := wrap_free_behind hwrap h2 (by omega)
      obtain ⟨k, hk⟩ : ∃ k, cur.lastByte + 1 = new.so + k := ⟨cur.lastByte + 1 - new.so, by omega⟩
      have hklen : k < new.payload.length := by omega
      rw [Nat.mod_eq_of_lt h16, hk, Nat.add_sub_cancel_left]
      have hwrap' := hwrap.behind hklen hk.symm h2
      rw [hassoc] at h ⊢
      refine (ih h (advance_ok hklen (by omega)) ?_ hwrap').of_advance hklen ?_
      · intro v hv
        have hso : (new.advance k).so = cur.lastByte + 1 := hk.symm
        rcases mem_append.1 hv with hv | hv
        · have := hbefore v hv
          omega
        · rw [mem_singleton.1 hv]
          omega
      · intro b hb hb'
        exact ⟨cur, by simp, by omega, by omega⟩
    · -- before the current segment
      refine stored_insert h hnew hvis ?_
      intro w hw
      rcases mem_cons.1 hw with rfl | hw
      · exact h4
      · have := hbehind w hw
        omega
    · -- ends within the current segment
      have h16 := wrap_free_cut h hwrap hvis (by omega) h5
      obtain ⟨k, hk⟩ : ∃ k, new.lastByte + 1 = cur.so + k := ⟨new.lastByte + 1 - cur.so, by omega⟩
      rw [Nat.mod_eq_of_lt h16, hk, Nat.add_sub_cancel_left]
      exact stored_cut h hnew hvis (by omega) (by omega) hk.symm (by omega)
    · -- covers the current segment
      have htrue : (storeLoop visited rest new).1 = true := by
        refine storeLoop_of_starts_before (fun w hw => h.ok w (by simp [hw])) (fun w hw => ?_)
        have := hbehind w hw
        omega
      exact (ih (segsOk_remove h) hnew hvis (hwrap.replace h hvis (by omega))).of_replace htrue (by omega) (by omega)

end OcuduRan.Rlc
