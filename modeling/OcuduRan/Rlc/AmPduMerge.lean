/-
What push_nack keeps about a NACK list.

  normal   no two neighbours of the list can be merged. Merging only ever grows the last NACK: its SN, and whether it
           starts at the beginning of its SDU, stay as they are, so it stays unmergeable with the NACK before it.
  size     packed_size is the size of the header plus the sizes of the NACKs.
  fits     the fields stay within their widths; the limit of 255 in can_be_merged is what keeps the range in 8 bits.
-/
import OcuduRan.Rlc.AmPdu

namespace OcuduRan.Rlc.RlcAmStatusPdu

open Rlc List

variable {n : RlcAmSnSize} {prev nack : RlcAmStatusNack} {st : RlcAmStatusPdu} {P : RlcAmStatusNack → Prop}
  {ns : List RlcAmStatusNack}

/-! ## Merging two NACKs -/

theorem canBeMerged_iff (left right : RlcAmStatusNack) : canBeMerged n left right = true ↔
    right.nackSn = (left.nackSn + left.range) % n.mod ∧ (left.hasSo = true → left.soEnd = soEndOfSdu) ∧
    (right.hasSo = true → right.soStart = 0) ∧ left.range + right.range ≤ 255 := by
  unfold canBeMerged RlcAmStatusNack.range
  cases left.hasNackRange <;> cases left.hasSo <;> cases right.hasSo <;> simp

section

variable (prev nack : RlcAmStatusNack)

@[simp] theorem expandPrev_nackSn : (expandPrev prev nack).nackSn = prev.nackSn := by
  unfold expandPrev
  split_ifs <;> rfl

@[simp] theorem expandPrev_hasNackRange : (expandPrev prev nack).hasNackRange = true := by
  unfold expandPrev
  split_ifs <;> simp_all

theorem expandPrev_nackRange : (expandPrev prev nack).nackRange = prev.range + nack.range := by
  unfold expandPrev RlcAmStatusNack.range
  cases prev.hasNackRange <;> cases nack.hasNackRange <;> cases prev.hasSo <;> cases nack.hasSo <;>
    simp [Nat.add_comm]

theorem expandPrev_hasSo : (expandPrev prev nack).hasSo = (prev.hasSo || nack.hasSo) := by
  unfold expandPrev
  split_ifs <;> simp_all

theorem expandPrev_soStart : (expandPrev prev nack).soStart =
    if !prev.hasSo && nack.hasSo then 0 else prev.soStart := by
  unfold expandPrev
  split_ifs <;> simp_all

theorem expandPrev_soEnd : (expandPrev prev nack).soEnd =
    if nack.hasSo then nack.soEnd else if prev.hasSo then soEndOfSdu else prev.soEnd := by
  unfold expandPrev
  split_ifs <;> simp_all

theorem expandPrev_range : (expandPrev prev nack).range = prev.range + nack.range := by
  rw [RlcAmStatusNack.range, expandPrev_hasNackRange, if_pos rfl, expandPrev_nackRange]

end

/-- growing the right NACK does not make it mergeable with its left neighbour -/
theorem canBeMerged_expandPrev {left : RlcAmStatusNack} (h : canBeMerged n left prev = false) :
    canBeMerged n left (expandPrev prev nack) = false := by
  by_contra hc
  rw [Bool.not_eq_false, canBeMerged_iff] at hc
  obtain ⟨hsn, hend, hstart, hrange⟩ := hc
  rw [expandPrev_range] at hrange
  rw [expandPrev_nackSn] at hsn
  have hstart' : prev.hasSo = true → prev.soStart = 0 := by
    intro hp
    have := hstart (by simp [expandPrev_hasSo, hp])
    simpa [expandPrev_soStart, hp] using this
  have : canBeMerged n left prev = true := (canBeMerged_iff left prev).2 ⟨hsn, hend, hstart', by omega⟩
  simp [h] at this

theorem expandPrev_fits (hp : prev.Fits n) (hn : nack.Fits n)
    (hm : canBeMerged n prev nack = true) : (expandPrev prev nack).Fits n := by
  obtain ⟨-, -, -, hrange⟩ := (canBeMerged_iff prev nack).1 hm
  refine ⟨?_, ?_, ?_, ?_⟩
  · simpa using hp.sn
  · rw [expandPrev_soStart]
    split_ifs
    · decide
    · exact hp.start
  · rw [expandPrev_soEnd]
    split_ifs
    · exact hn.stop
    · decide
    · exact hp.stop
  · rw [expandPrev_nackRange]
    omega

/-! ## The NACK list -/

/-- no NACK can be merged into the one before it -/
def Normal (n : RlcAmSnSize) (nacks : List RlcAmStatusNack) : Prop :=
  nacks.IsChain fun left right => canBeMerged n left right = false

/-- size of the packed NACK entries -/
def nacksSize (n : RlcAmSnSize) (nacks : List RlcAmStatusNack) : ℕ := (nacks.map (nackSize n)).sum

@[simp] theorem nacksSize_nil : nacksSize n [] = 0 := rfl

@[simp] theorem nacksSize_cons (nack : RlcAmStatusNack) (ns : List RlcAmStatusNack) :
    nacksSize n (nack :: ns) = nackSize n nack + nacksSize n ns := rfl

@[simp] theorem nacksSize_append (a b : List RlcAmStatusNack) :
    nacksSize n (a ++ b) = nacksSize n a + nacksSize n b := by simp [nacksSize]

/-- the state a report is in between two calls -/
structure Wf (st : RlcAmStatusPdu) : Prop where
  normal : Normal st.snSize st.nacks
  size : st.packedSize = sizeofHeaderAckSn + nacksSize st.snSize st.nacks
  fits : ∀ nack ∈ st.nacks, nack.Fits st.snSize

theorem pushNack_of_nil (h : st.nacks = []) : st.pushNack nack =
    { st with nacks := [nack], packedSize := st.packedSize + nackSize st.snSize nack } := by
  simp [pushNack, h]

theorem pushNack_of_snoc {pre : List RlcAmStatusNack} (h : st.nacks = pre ++ [prev]) : st.pushNack nack =
    if canBeMerged st.snSize prev nack then { st with
        nacks := pre ++ [expandPrev prev nack]
        packedSize := st.packedSize - nackSize st.snSize prev + nackSize st.snSize (expandPrev prev nack) }
    else
      { st with
        nacks := pre ++ [prev, nack]
        packedSize := st.packedSize + nackSize st.snSize nack } := by
  unfold pushNack
  cases hm : canBeMerged st.snSize prev nack <;> simp [h, hm]

@[simp] theorem pushNack_ackSn (st : RlcAmStatusPdu) (nack : RlcAmStatusNack) :
    (st.pushNack nack).ackSn = st.ackSn := by
  unfold pushNack
  split
  · rfl
  · split_ifs <;> rfl

@[simp] theorem pushNack_snSize (st : RlcAmStatusPdu) (nack : RlcAmStatusNack) :
    (st.pushNack nack).snSize = st.snSize := by
  unfold pushNack
  split
  · rfl
  · split_ifs <;> rfl

/-- a property of NACKs that merging keeps holds throughout the list -/
theorem forall_mem_pushNack
    (hmerge : ∀ prev, P prev → canBeMerged st.snSize prev nack = true → P (expandPrev prev nack))
    (h : ∀ x ∈ st.nacks, P x) (hn : P nack) : ∀ x ∈ (st.pushNack nack).nacks, P x := by
  rcases eq_nil_or_concat' st.nacks with hnil | ⟨pre, prev, hsnoc⟩
  · rw [pushNack_of_nil hnil]
    simpa using hn
  · rw [hsnoc] at h
    rw [pushNack_of_snoc hsnoc]
    intro x hx
    split_ifs at hx with hm
    · rcases mem_append.1 hx with hx | hx
      · exact h x (by simp [hx])
      · obtain rfl : x = expandPrev prev nack := by simpa using hx
        exact hmerge prev (h prev (by simp)) hm
    · simp only [mem_append, mem_cons, not_mem_nil, or_false] at hx
      rcases hx with hx | rfl | rfl
      · exact h x (by simp [hx])
      · exact h x (by simp)
      · exact hn

theorem pushNack_normal (h : Normal st.snSize st.nacks) : Normal st.snSize (st.pushNack nack).nacks := by
  rcases eq_nil_or_concat' st.nacks with hnil | ⟨pre, prev, hsnoc⟩
  · simp [pushNack_of_nil hnil, Normal]
  · rw [hsnoc] at h
    rw [pushNack_of_snoc hsnoc]
    split_ifs with hm
    · -- the last NACK grows in place
      rw [Normal, isChain_append] at h ⊢
      refine ⟨h.1, by simp, ?_⟩
      intro left hleft right hright
      obtain rfl : expandPrev prev nack = right := by simpa using hright
      exact canBeMerged_expandPrev (h.2.2 left hleft prev (by simp))
    · simpa [Normal, isChain_append_cons_cons] using ⟨by simpa [Normal] using h, by simpa using hm⟩

theorem pushNack_packedSize (h : st.packedSize = sizeofHeaderAckSn + nacksSize st.snSize st.nacks) :
    (st.pushNack nack).packedSize = sizeofHeaderAckSn + nacksSize st.snSize (st.pushNack nack).nacks := by
  rcases eq_nil_or_concat' st.nacks with hnil | ⟨pre, prev, hsnoc⟩
  · simp [pushNack_of_nil hnil, h, hnil]
  · rw [hsnoc] at h
    rw [pushNack_of_snoc hsnoc]
    split_ifs with hm
    · simp only [h, nacksSize_append, nacksSize_cons, nacksSize_nil]
      omega
    · simp only [h, nacksSize_append, nacksSize_cons, nacksSize_nil]
      omega

theorem pushNack_wf (h : st.Wf) (hn : nack.Fits st.snSize) : (st.pushNack nack).Wf := by
  refine ⟨?_, ?_, ?_⟩
  · rw [pushNack_snSize]
    exact pushNack_normal h.normal
  · rw [pushNack_snSize]
    exact pushNack_packedSize h.size
  · rw [pushNack_snSize]
    exact forall_mem_pushNack (fun prev hp hm => expandPrev_fits hp hn hm) h.fits hn

theorem forall_mem_foldl_pushNack
    (hmerge : ∀ prev nack, P prev → P nack → canBeMerged st.snSize prev nack = true → P (expandPrev prev nack))
    (h : ∀ x ∈ st.nacks, P x) (hns : ∀ x ∈ ns, P x) : ∀ x ∈ (ns.foldl pushNack st).nacks, P x := by
  induction ns generalizing st with
  | nil => exact h
  | cons nack ns ih =>
    have hn : P nack := hns nack (by simp)
    refine ih ?_ ?_ fun x hx => hns x (by simp [hx])
    · rwa [pushNack_snSize]
    · exact forall_mem_pushNack (fun prev hp hm => hmerge prev nack hp hn hm) h hn

theorem foldl_pushNack_snSize (ns : List RlcAmStatusNack) (st : RlcAmStatusPdu) :
    (ns.foldl pushNack st).snSize = st.snSize := by
  induction ns generalizing st with
  | nil => rfl
  | cons nack ns ih => rw [foldl_cons, ih, pushNack_snSize]

theorem foldl_pushNack_ackSn (ns : List RlcAmStatusNack) (st : RlcAmStatusPdu) :
    (ns.foldl pushNack st).ackSn = st.ackSn := by
  induction ns generalizing st with
  | nil => rfl
  | cons nack ns ih => rw [foldl_cons, ih, pushNack_ackSn]

theorem foldl_pushNack_wf (h : st.Wf) (hns : ∀ nack ∈ ns, nack.Fits st.snSize) : (ns.foldl pushNack st).Wf := by
  induction ns generalizing st with
  | nil => exact h
  | cons nack ns ih =>
    refine ih (pushNack_wf h (hns nack (by simp))) ?_
    intro x hx
    rw [pushNack_snSize]
    exact hns x (by simp [hx])

theorem empty_wf (n : RlcAmSnSize) (ackSn : ℕ) : Wf { snSize := n, ackSn := ackSn } :=
  ⟨by simp [Normal], rfl, by simp⟩

@[simp] theorem build_snSize (n : RlcAmSnSize) (ackSn : ℕ) (ns : List RlcAmStatusNack) :
    (build n ackSn ns).snSize = n := foldl_pushNack_snSize ns _

@[simp] theorem build_ackSn (n : RlcAmSnSize) (ackSn : ℕ) (ns : List RlcAmStatusNack) :
    (build n ackSn ns).ackSn = ackSn := foldl_pushNack_ackSn ns _

theorem build_wf {ackSn : ℕ} (hns : ∀ nack ∈ ns, nack.Fits n) :
    (build n ackSn ns).Wf := foldl_pushNack_wf (empty_wf n ackSn) hns

/-- pushing the NACKs of a normal list one by one reproduces the list -/
theorem foldl_pushNack_normal (h : Normal st.snSize (st.nacks ++ ns)) : ns.foldl pushNack st =
    { st with nacks := st.nacks ++ ns, packedSize := st.packedSize + nacksSize st.snSize ns } := by
  induction ns generalizing st with
  | nil => simp
  | cons nack ns ih =>
    have hpush : st.pushNack nack =
        { st with nacks := st.nacks ++ [nack], packedSize := st.packedSize + nackSize st.snSize nack } := by
      rcases eq_nil_or_concat' st.nacks with hnil | ⟨pre, prev, hsnoc⟩
      · simp [pushNack_of_nil hnil, hnil]
      · rw [hsnoc, Normal, append_assoc, singleton_append, isChain_append_cons_cons] at h
        simp [pushNack_of_snoc hsnoc, h.2.1, hsnoc]
    rw [foldl_cons, hpush, ih (by simpa using h)]
    simp [Nat.add_assoc]

end OcuduRan.Rlc.RlcAmStatusPdu
