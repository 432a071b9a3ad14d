/-
Trimming a STATUS PDU to a grant.

trim removes NACKs from the back until the report fits, moving ACK_SN to the SN of each NACK it removes, and then goes
on removing NACKs that start at the new ACK_SN. The NACK at which the report stops fitting (the cut) determines the
result: the NACKs before it, less those at the end of them that start at its SN, with its SN as ACK_SN.

The loop compares the start of a NACK with ACK_SN, but a NACK range also ends somewhere. A range that starts earlier and
ends on the SN of the cut is kept, and then covers ACK_SN itself; the peer's valid_nack rejects such a report. That, and
a report left without NACKs that acknowledges nothing new to the peer, are the only ways in which a trimmed report can
go wrong: `trimOk_iff`.
-/
import Mathlib.Data.List.DropRight
import OcuduRan.Rlc.AmNackSet
import OcuduRan.Rlc.AmTx

namespace OcuduRan.Rlc.RlcAmStatusPdu

open Rlc ModWindow List RlcTxAmEntity

variable {n : RlcAmSnSize} {limit fuel : ℕ} {st : RlcAmStatusPdu} {pre post ns : List RlcAmStatusNack}
  {nk nack : RlcAmStatusNack}

/-! ## The result of trim -/

theorem trimLoop_snoc {back : RlcAmStatusNack} (h : st.nacks = pre ++ [back]) : trimLoop limit (fuel + 1) st =
      if limit < st.packedSize ∨ back.nackSn = st.ackSn then
        trimLoop limit fuel
          { st with packedSize := st.packedSize - nackSize st.snSize back, ackSn := back.nackSn, nacks := pre }
      else st := by
  simp [trimLoop, h]

theorem trimLoop_nil (h : st.nacks = []) : trimLoop limit fuel st = st := by
  cases fuel <;> simp [trimLoop, h]

/-- once the report fits, only NACKs that start at ACK_SN are still removed -/
theorem trimLoop_of_fits (hfuel : st.nacks.length ≤ fuel)
    (hsize : st.packedSize = sizeofHeaderAckSn + nacksSize st.snSize st.nacks) (hfit : st.packedSize ≤ limit) :
    trimLoop limit fuel st = { st with
      nacks := st.nacks.rdropWhile fun m => m.nackSn = st.ackSn
      packedSize := sizeofHeaderAckSn + nacksSize st.snSize (st.nacks.rdropWhile fun m => m.nackSn = st.ackSn) } := by
  obtain ⟨snSize, nacks, packedSize, ackSn⟩ := st
  induction nacks using reverseRecOn generalizing packedSize fuel with
  | nil => simp_all [trimLoop_nil]
  | append_singleton pre back ih =>
    cases fuel with
    | zero => simp at hfuel
    | succ fuel =>
      rw [trimLoop_snoc rfl, rdropWhile_concat]
      by_cases hb : back.nackSn = ackSn
      · have hsub : packedSize - nackSize snSize back = sizeofHeaderAckSn + nacksSize snSize pre := by
          simp only [nacksSize_append, nacksSize_cons, nacksSize_nil] at hsize
          omega
        simp only [hb, or_true, if_true, decide_true]
        exact ih _ (by simpa using hfuel) hsub (by simp only at hfit ⊢; omega)
      · have hno : ¬ (limit < packedSize ∨ back.nackSn = ackSn) := by
          rintro (h | h)
          · exact absurd hfit (by simp only; omega)
          · exact hb h
        rw [if_neg hno, if_neg (by simpa using hb), RlcAmStatusPdu.mk.injEq]
        exact ⟨rfl, rfl, hsize, rfl⟩

/-- `nk` is the first NACK of the list that does not fit into `limit`, `pre` the NACKs before it -/
def Cut (n : RlcAmSnSize) (limit : ℕ) (nacks pre : List RlcAmStatusNack) (nk : RlcAmStatusNack) : Prop :=
  ∃ post, nacks = pre ++ nk :: post ∧ sizeofHeaderAckSn + nacksSize n pre ≤ limit ∧
    limit < sizeofHeaderAckSn + nacksSize n (pre ++ [nk])

/-- a list that does not fit has a cut -/
theorem exists_cut (hlimit : sizeofHeaderAckSn ≤ limit) (nacks : List RlcAmStatusNack)
    (h : limit < sizeofHeaderAckSn + nacksSize n nacks) : ∃ pre nk, Cut n limit nacks pre nk := by
  induction nacks using reverseRecOn with
  | nil =>
    simp only [nacksSize_nil] at h
    omega
  | append_singleton pre back ih =>
    rcases Nat.lt_or_ge limit (sizeofHeaderAckSn + nacksSize n pre) with hlt | hge
    · obtain ⟨pre', nk, post, rfl, h1, h2⟩ := ih hlt
      exact ⟨pre', nk, post ++ [back], by simp, h1, h2⟩
    · exact ⟨pre, back, [], rfl, hge, h⟩

/-- NACKs kept by a cut at `nk` -/
def kept (pre : List RlcAmStatusNack) (nk : RlcAmStatusNack) : List RlcAmStatusNack :=
  pre.rdropWhile fun m => m.nackSn = nk.nackSn

theorem trimLoop_of_cut (hfuel : st.nacks.length ≤ fuel)
    (hsize : st.packedSize = sizeofHeaderAckSn + nacksSize st.snSize st.nacks) (hn : st.nacks = pre ++ nk :: post)
    (hpre : sizeofHeaderAckSn + nacksSize st.snSize pre ≤ limit)
    (hcut : limit < sizeofHeaderAckSn + nacksSize st.snSize (pre ++ [nk])) : trimLoop limit fuel st = { st with
      nacks := kept pre nk
      packedSize := sizeofHeaderAckSn + nacksSize st.snSize (kept pre nk)
      ackSn := nk.nackSn } := by
  obtain ⟨snSize, nacks, packedSize, ackSn⟩ := st
  simp only at hn hsize hpre hcut
  subst hn
  -- the NACKs behind the cut go first; the cut itself last, and with it the report fits
  induction post using reverseRecOn generalizing packedSize ackSn fuel with
  | nil =>
    cases fuel with
    | zero => simp at hfuel
    | succ fuel =>
      rw [trimLoop_snoc rfl, if_pos (.inl (by simp only; omega))]
      have hsub : packedSize - nackSize snSize nk = sizeofHeaderAckSn + nacksSize snSize pre := by
        simp only [nacksSize_append, nacksSize_cons, nacksSize_nil] at hsize
        omega
      rw [trimLoop_of_fits (by simpa using hfuel) hsub (by simp only; omega)]
      rfl
  | append_singleton post back ih =>
    cases fuel with
    | zero => simp at hfuel
    | succ fuel =>
      have hlt : limit < packedSize := by
        simp only [nacksSize_append, nacksSize_cons, nacksSize_nil] at hsize hcut
        omega
      have hsub : packedSize - nackSize snSize back = sizeofHeaderAckSn + nacksSize snSize (pre ++ nk :: post) := by
        simp only [nacksSize_append, nacksSize_cons, nacksSize_nil] at hsize ⊢
        omega
      rw [@trimLoop_snoc _ _ _ (pre ++ nk :: post) back (by simp), if_pos (.inl hlt)]
      exact ih _ _ (by simp only [length_append, length_cons] at hfuel ⊢; simp at hfuel; omega) hsub

theorem trim_of_fits (h : st.packedSize ≤ limit) : st.trim limit = (true, st) := by
  simp [trim, h]

theorem trim_of_cut (hlimit : sizeofHeaderAckSn ≤ limit)
    (hsize : st.packedSize = sizeofHeaderAckSn + nacksSize st.snSize st.nacks)
    (h : Cut st.snSize limit st.nacks pre nk) : st.trim limit = (true, { st with
      nacks := kept pre nk
      packedSize := sizeofHeaderAckSn + nacksSize st.snSize (kept pre nk)
      ackSn := nk.nackSn }) := by
  obtain ⟨post, hn, hpre, hcut⟩ := h
  have hbig : ¬ limit ≥ st.packedSize := by
    rw [hn] at hsize
    simp only [nacksSize_append, nacksSize_cons, nacksSize_nil] at hsize hcut
    omega
  have hsmall : ¬ limit < sizeofHeaderAckSn := by omega
  rw [trim, if_neg hbig, if_neg hsmall, trimLoop_of_cut le_rfl hsize hn hpre hcut]

/-! ## Order of the NACKs

SNs are compared by their distance from a base, the receiver's RX_Next. -/

/-- the NACK covers at least one SN, and only SNs before ACK_SN -/
structure Below (n : RlcAmSnSize) (base ackSn : ℕ) (nack : RlcAmStatusNack) : Prop where
  pos : 1 ≤ nack.range
  before : modBase n.mod base nack.nackSn + nack.range ≤ modBase n.mod base ackSn

/-- offset of the first and of the last byte a NACK covers in its first and its last SN -/
def startOffset (nack : RlcAmStatusNack) : ℕ := if nack.hasSo then nack.soStart else 0

def endOffset (nack : RlcAmStatusNack) : ℕ := if nack.hasSo then nack.soEnd else soEndOfSdu

/-- the left NACK ends, in (SN, offset) order, before the right one starts -/
def Precedes (n : RlcAmSnSize) (base : ℕ) (left right : RlcAmStatusNack) : Prop :=
  modBase n.mod base left.nackSn + left.range ≤ modBase n.mod base right.nackSn ∨
  (modBase n.mod base left.nackSn + left.range = modBase n.mod base right.nackSn + 1 ∧
    endOffset left < startOffset right)

/-- SN order of a merged list: a NACK starts at or after the SN on which the one before it ends -/
structure Ordered (n : RlcAmSnSize) (base ackSn : ℕ) (nacks : List RlcAmStatusNack) : Prop where
  below : ∀ nack ∈ nacks, Below n base ackSn nack
  chain : nacks.IsChain fun left right =>
    modBase n.mod base left.nackSn + left.range ≤ modBase n.mod base right.nackSn + 1

variable {base ackSn : ℕ}

/-- a NACK that merges continues where the one before it ends -/
theorem expandPrev_below (hbase : base < n.mod) {prev : RlcAmStatusNack} (hp : Below n base ackSn prev)
    (hn : Below n base ackSn nack) (hm : canBeMerged n prev nack = true) : Below n base ackSn (expandPrev prev nack) ∧
      modBase n.mod base nack.nackSn = modBase n.mod base prev.nackSn + prev.range := by
  obtain ⟨hsn, -, -, -⟩ := (canBeMerged_iff prev nack).1 hm
  have hβ : base ≤ 2 ^ 32 := by have := mod_le n; omega
  have hack : modBase n.mod base ackSn < n.mod := modBase_lt (mod_pos n)
  have hcont : modBase n.mod base nack.nackSn = modBase n.mod base prev.nackSn + prev.range := by
    have hlt : modBase n.mod base prev.nackSn + prev.range < n.mod := by
      have := hp.before
      omega
    rw [hsn, modBase_mod (mod_dvd n) hβ (mod_pos n), modBase_add (mod_dvd n) hβ hlt]
  refine ⟨⟨?_, ?_⟩, hcont⟩
  · exact expandPrev_range_pos hp.pos
  · rw [expandPrev_range, expandPrev_nackSn]
    have := hn.before
    omega

/-- pushing a NACK that starts no earlier than the list ends keeps the order; the list then ends where the NACK does -/
theorem pushNack_ordered (hbase : base < n.mod) (hst : st.snSize = n)
    (h : Ordered n base ackSn st.nacks) (hn : Below n base ackSn nack) (hlast : ∀ prev ∈ st.nacks.getLast?,
      modBase n.mod base prev.nackSn + prev.range ≤ modBase n.mod base nack.nackSn + 1) :
    Ordered n base ackSn (st.pushNack nack).nacks ∧ ∀ last ∈ (st.pushNack nack).nacks.getLast?,
        modBase n.mod base last.nackSn + last.range = modBase n.mod base nack.nackSn + nack.range := by
  rcases eq_nil_or_concat' st.nacks with hnil | ⟨pre, prev, hsnoc⟩
  · rw [pushNack_of_nil hnil]
    exact ⟨⟨by simpa using hn, by simp⟩, by simp⟩
  · have hprev := hlast prev (by simp [hsnoc])
    obtain ⟨hbelow, hchain⟩ := h
    rw [hsnoc] at hbelow hchain
    rw [pushNack_of_snoc hsnoc, hst]
    split_ifs with hm
    · obtain ⟨hb, hcont⟩ := expandPrev_below hbase (hbelow prev (by simp)) hn hm
      refine ⟨⟨?_, ?_⟩, ?_⟩
      · intro x hx
        rcases mem_append.1 hx with hx | hx
        · exact hbelow x (by simp [hx])
        · obtain rfl : x = expandPrev prev nack := by simpa using hx
          exact hb
      · rw [isChain_append] at hchain ⊢
        refine ⟨hchain.1, by simp, ?_⟩
        intro left hleft right hright
        obtain rfl : expandPrev prev nack = right := by simpa using hright
        simpa using hchain.2.2 left hleft prev (by simp)
      · intro last hl
        obtain rfl : expandPrev prev nack = last := by simpa using hl
        rw [expandPrev_range, expandPrev_nackSn]
        omega
    · refine ⟨⟨?_, ?_⟩, ?_⟩
      · intro x hx
        simp only [mem_append, mem_cons, not_mem_nil, or_false] at hx
        rcases hx with hx | rfl | rfl
        · exact hbelow x (by simp [hx])
        · exact hbelow x (by simp)
        · exact hn
      · simpa [isChain_append_cons_cons] using ⟨hchain, hprev⟩
      · intro last hl
        obtain rfl : nack = last := by simpa using hl
        rfl

theorem foldl_pushNack_ordered (hbase : base < n.mod)
    (hst : st.snSize = n) (h : Ordered n base ackSn st.nacks) (hns : ∀ x ∈ ns, Below n base ackSn x)
    (hchain : ns.IsChain (Precedes n base)) (hlast : ∀ prev ∈ st.nacks.getLast?, ∀ nack ∈ ns.head?,
      modBase n.mod base prev.nackSn + prev.range ≤ modBase n.mod base nack.nackSn + 1) :
    Ordered n base ackSn (ns.foldl pushNack st).nacks := by
  induction ns generalizing st with
  | nil => exact h
  | cons nack ns ih =>
    obtain ⟨hord, hend⟩ := pushNack_ordered hbase hst h (hns nack (by simp)) fun prev hp => hlast prev hp nack (by simp)
    refine ih (by simpa using hst) hord (fun x hx => hns x (by simp [hx])) hchain.tail ?_
    intro last hl next hnext
    rw [hend last hl]
    -- the pushed list is increasing, so the next NACK starts at or after the end of this one
    cases ns with
    | nil => simp at hnext
    | cons b ns =>
      obtain rfl : b = next := by simpa using hnext
      rcases (isChain_cons_cons.1 hchain).1 with hlt | ⟨heq, -⟩
      · omega
      · omega

/-- NACKs pushed in increasing (SN, offset) order below ACK_SN form an ordered list -/
theorem build_ordered (hbase : base < n.mod) (hns : ∀ x ∈ ns, Below n base ackSn x)
    (hchain : ns.IsChain (Precedes n base)) : Ordered n base ackSn (build n ackSn ns).nacks :=
  foldl_pushNack_ordered hbase rfl ⟨by simp, by simp⟩ hns hchain (by simp)

theorem Ordered.pairwise {nacks : List RlcAmStatusNack} (h : Ordered n base ackSn nacks) :
    nacks.Pairwise fun left right =>
      modBase n.mod base left.nackSn + left.range ≤ modBase n.mod base right.nackSn + 1 := by
  obtain ⟨hbelow, hchain⟩ := h
  induction nacks with
  | nil => exact List.Pairwise.nil
  | cons a l ih =>
    have hl := ih (fun x hx => hbelow x (by simp [hx])) hchain.tail
    refine pairwise_cons.2 ⟨?_, hl⟩
    intro b hb
    cases l with
    | nil => simp at hb
    | cons c l =>
      have hac := (isChain_cons_cons.1 hchain).1
      have hc := (hbelow c (by simp)).pos
      rcases mem_cons.1 hb with rfl | hbl
      · exact hac
      · have hcb := (pairwise_cons.1 hl).1 b hbl
        omega

/-- NACKs before and behind the cut, in SN order -/
theorem Ordered.split (h : Ordered n base ackSn (pre ++ nk :: post)) :
    (∀ m ∈ pre, modBase n.mod base m.nackSn + m.range ≤ modBase n.mod base nk.nackSn + 1) ∧
    (∀ m ∈ post, modBase n.mod base nk.nackSn ≤ modBase n.mod base m.nackSn) := by
  have hp := pairwise_append.1 h.pairwise
  refine ⟨fun m hm => hp.2.2 m hm nk (by simp), ?_⟩
  intro m hm
  have h1 := (pairwise_cons.1 hp.2.1).1 m hm
  have h2 := (h.below nk (by simp)).pos
  omega

/-- the kept NACKs are those before the cut that start at an earlier SN -/
theorem mem_kept (hbase : base < n.mod)
    (h : Ordered n base ackSn (pre ++ nk :: post)) (hfits : ∀ m ∈ pre ++ nk :: post, m.Fits n)
    (m : RlcAmStatusNack) : m ∈ kept pre nk ↔ m ∈ pre ∧ m.nackSn ≠ nk.nackSn := by
  have hβ : base ≤ 2 ^ 32 := by have := mod_le n; omega
  constructor
  · intro hm
    have hsub : (kept pre nk).Sublist pre := List.IsPrefix.sublist ( rdropWhile_prefix _ _)
    refine ⟨hsub.subset hm, ?_⟩
    rcases eq_nil_or_concat' (kept pre nk) with hnil | ⟨init, last, hlast⟩
    · simp [hnil] at hm
    · -- the last kept NACK stopped the loop; the others start no later
      have hne : kept pre nk ≠ [] := by simp [hlast]
      have hstop : last.nackSn ≠ nk.nackSn := by
        have hnot := rdropWhile_last_not (fun x : RlcAmStatusNack => decide (x.nackSn = nk.nackSn)) pre hne
        have hget : (kept pre nk).getLast hne = last := by simp [hlast]
        intro heq
        exact hnot (decide_eq_true ((congrArg RlcAmStatusNack.nackSn hget).trans heq))
      have hpre := h.split.1
      have hpair : (init ++ [last]).Pairwise fun left right =>
          modBase n.mod base left.nackSn + left.range ≤ modBase n.mod base right.nackSn + 1 := by
        rw [← hlast]
        exact (pairwise_append.1 h.pairwise).1.sublist hsub
      have hlastpre : last ∈ pre := hsub.subset (by simp [hlast])
      have hmono : modBase n.mod base m.nackSn ≤ modBase n.mod base last.nackSn := by
        rw [hlast] at hm
        rcases mem_append.1 hm with hm' | hm'
        · have h1 := (pairwise_append.1 hpair).2.2 m hm' last (by simp)
          have h2 := (h.below m (by simp [hsub.subset (show m ∈ kept pre nk by rw [hlast]; exact hm)])).pos
          omega
        · obtain rfl : m = last := by simpa using hm'
          exact le_rfl
      have hle : modBase n.mod base last.nackSn ≤ modBase n.mod base nk.nackSn := by
        have h1 := hpre last hlastpre
        have h2 := (h.below last (by simp [hlastpre])).pos
        omega
      intro heq
      rw [heq] at hmono
      exact hstop (modBase_inj (mod_dvd n) hβ (hfits last (by simp [hlastpre])).sn (hfits nk (by simp)).sn (by omega))
  · rintro ⟨hm, hne⟩
    have hsplit : kept pre nk ++ pre.rtakeWhile (fun x => decide (x.nackSn = nk.nackSn)) = pre :=
      rdropWhile_append_rtakeWhile
    rw [← hsplit] at hm
    rcases mem_append.1 hm with hm | hm
    · exact hm
    · exact absurd (by simpa using mem_rtakeWhile_imp hm) hne

/-! ## The checks of the peer -/

/-- the transmitter does not ignore the report -/
structure Accepts (cfg : RlcTxAmConfig) (peer : RlcTxAmEntity) (st : RlcAmStatusPdu) : Prop where
  ack : peer.validAckSn cfg st.ackSn = true
  next : peer.txModBase cfg st.ackSn ≤ peer.txModBase cfg (peer.st.txNext + 1)
  nacks : ∀ nack ∈ st.nacks, peer.validNack cfg st.ackSn nack = true

variable {cfg : RlcTxAmConfig} {peer : RlcTxAmEntity}

/-- the peer orders SNs it accepts below ACK_SN as the receiver does -/
theorem txModBase_lt (hbase : base < cfg.snFieldLength.mod) (hpeer : peer.st.txNextAck < cfg.snFieldLength.mod)
    {u v w : ℕ} (huv : modBase cfg.snFieldLength.mod base u < modBase cfg.snFieldLength.mod base v)
    (hvw : modBase cfg.snFieldLength.mod base v ≤ modBase cfg.snFieldLength.mod base w)
    (hu : peer.txModBase cfg u < peer.txModBase cfg w) : peer.txModBase cfg u < peer.txModBase cfg v := by
  have hle := mod_le cfg.snFieldLength
  have hpos := mod_pos cfg.snFieldLength
  have hdvd := mod_dvd cfg.snFieldLength
  have hlw : modBase cfg.snFieldLength.mod base w < cfg.snFieldLength.mod := modBase_lt hpos
  have hla : modBase cfg.snFieldLength.mod base peer.st.txNextAck < cfg.snFieldLength.mod := modBase_lt hpos
  have hβ : base ≤ 2 ^ 32 := by omega
  have hα : peer.st.txNextAck ≤ 2 ^ 32 := by omega
  simp only [txModBase] at hu ⊢
  rw [modBase_rebase (x := u) hdvd hβ hα hpos, modBase_rebase (x := w) hdvd hβ hα hpos] at hu
  rw [modBase_rebase (x := u) hdvd hβ hα hpos, modBase_rebase (x := v) hdvd hβ hα hpos]
  split_ifs at hu ⊢ <;> omega

/-- the last SN of a NACK, at its distance from the base -/
theorem modBase_last (hbase : base < n.mod) (hb : Below n base ackSn nack) {i : ℕ} (hi : i < nack.range) :
    modBase n.mod base ((nack.nackSn + i) % n.mod) = modBase n.mod base nack.nackSn + i := by
  have hβ : base ≤ 2 ^ 32 := by have := mod_le n; omega
  have hlt : modBase n.mod base nack.nackSn + i < n.mod := by
    have h1 := hb.before
    have h2 : modBase n.mod base ackSn < n.mod := modBase_lt (mod_pos n)
    omega
  rw [modBase_mod (mod_dvd n) hβ (mod_pos n), modBase_add (mod_dvd n) hβ hlt]

theorem sub32_last (hfits : nack.Fits n) (hr : nack.hasNackRange = true)
    (hpos : 1 ≤ nack.range) : sub32 (nack.nackSn + nack.nackRange) 1 = nack.nackSn + (nack.range - 1) := by
  have hrange : nack.range = nack.nackRange := by simp [RlcAmStatusNack.range, hr]
  have h1 := hfits.sn
  have h2 := hfits.range
  have h3 := mod_le n
  rw [sub32]
  omega

/-! ## When a trimmed report is right -/

/-- what is asked of the report that trim leaves -/
structure TrimOk (cfg : RlcTxAmConfig) (peer : RlcTxAmEntity) (base limit : ℕ) (x : RlcAmStatusPdu) : Prop where
  done : (x.trim limit).1 = true
  size : (x.trim limit).2.packedSize ≤ limit
  same : (x.trim limit).2.nacks <+: x.nacks
  /-- every SN a remaining NACK covers precedes the new ACK_SN -/
  before : ∀ m ∈ (x.trim limit).2.nacks, ∀ i < m.range,
    modBase cfg.snFieldLength.mod base ((m.nackSn + i) % cfg.snFieldLength.mod) <
      modBase cfg.snFieldLength.mod base (x.trim limit).2.ackSn
  /-- what is missing below the new ACK_SN stays reported -/
  bytes : ∀ sn byte, modBase cfg.snFieldLength.mod base sn <
      modBase cfg.snFieldLength.mod base (x.trim limit).2.ackSn →
    NacksDenote cfg.snFieldLength x.nacks sn byte → NacksDenote cfg.snFieldLength (x.trim limit).2.nacks sn byte
  accepted : Accepts cfg peer (x.trim limit).2

/-- no NACK range kept by the cut ends on its SN, and the SN is not the first one the peer waits for -/
def CutOk (n : RlcAmSnSize) (peer : RlcTxAmEntity) (limit : ℕ) (nacks : List RlcAmStatusNack) : Prop :=
  ∀ pre nk, Cut n limit nacks pre nk → nk.nackSn ≠ peer.st.txNextAck ∧
    ∀ m ∈ pre, m.nackSn ≠ nk.nackSn → (m.nackSn + (m.range - 1)) % n.mod ≠ nk.nackSn

variable {x : RlcAmStatusPdu}

section

variable (hbase : base < n.mod) (h : Ordered n base ackSn (pre ++ nk :: post))
  (hfits : ∀ m ∈ pre ++ nk :: post, m.Fits n)
include hbase h hfits

/-- removed NACKs lie at or behind the cut -/
theorem denotes_of_lt_cut {sn byte : ℕ} (hlt : modBase n.mod base sn < modBase n.mod base nk.nackSn)
    (hd : NacksDenote n (pre ++ nk :: post) sn byte) : NacksDenote n (kept pre nk) sn byte := by
  obtain ⟨m, hm, hden⟩ := hd
  refine ⟨m, ?_, hden⟩
  obtain ⟨i, hi, rfl, -⟩ := hden
  rw [modBase_last hbase (h.below m hm) hi] at hlt
  rw [mem_kept hbase h hfits]
  rcases mem_append.1 hm with hpre | hrest
  · refine ⟨hpre, ?_⟩
    intro heq
    rw [heq] at hlt
    omega
  · exfalso
    rcases mem_cons.1 hrest with rfl | hpost
    · omega
    · have := h.split.2 m hpost
      omega

/-- the kept NACKs end before the cut, unless a range ends on it -/
theorem kept_before (hhidden : ∀ m ∈ pre, m.nackSn ≠ nk.nackSn → (m.nackSn + (m.range - 1)) % n.mod ≠ nk.nackSn)
    {m : RlcAmStatusNack} (hm : m ∈ kept pre nk) :
    modBase n.mod base m.nackSn + m.range ≤ modBase n.mod base nk.nackSn := by
  obtain ⟨hpre, hne⟩ := (mem_kept hbase h hfits m).1 hm
  have hb := h.below m (by simp [hpre])
  have hle := h.split.1 m hpre
  have hβ : base ≤ 2 ^ 32 := by have := mod_le n; omega
  have hlast := modBase_last hbase hb (show m.range - 1 < m.range by have := hb.pos; omega)
  have hneq : modBase n.mod base m.nackSn + (m.range - 1) ≠ modBase n.mod base nk.nackSn := by
    intro heq
    rw [← hlast] at heq
    exact hhidden m hpre hne
      (modBase_inj (mod_dvd n) hβ (Nat.mod_lt _ (mod_pos n)) (hfits nk (by simp)).sn heq)
  have := hb.pos
  omega

end

/-- the peer accepts a report cut at an SN it has not acknowledged and on which no kept range ends -/
theorem accepts_cut (hbase : base < cfg.snFieldLength.mod) (hpeer : peer.st.txNextAck < cfg.snFieldLength.mod)
    (hacc : Accepts cfg peer x)
    (hord : Ordered cfg.snFieldLength base x.ackSn x.nacks) (hfits : ∀ m ∈ x.nacks, m.Fits cfg.snFieldLength)
    (hx : x.nacks = pre ++ nk :: post) {size : ℕ} (hne : nk.nackSn ≠ peer.st.txNextAck)
    (hhidden : ∀ m ∈ pre, m.nackSn ≠ nk.nackSn → (m.nackSn + (m.range - 1)) % cfg.snFieldLength.mod ≠ nk.nackSn) :
    Accepts cfg peer { snSize := x.snSize, nacks := kept pre nk, packedSize := size, ackSn := nk.nackSn } := by
  have hα : peer.st.txNextAck ≤ 2 ^ 32 := by have := mod_le cfg.snFieldLength; omega
  have hnk := ((validNack_iff cfg peer x.ackSn nk).1 (hacc.nacks nk (by simp [hx]))).1
  have hnkBelow := hord.below nk (by simp [hx])
  refine ⟨(validAckSn_iff cfg peer _).2 ⟨?_, ?_⟩, ?_, ?_⟩
  · -- distance zero from TX_Next_Ack would make the cut TX_Next_Ack itself
    rw [Nat.pos_iff_ne_zero]
    intro h0
    refine hne (modBase_inj (mod_dvd _) hα (hfits nk (by simp [hx])).sn hpeer ?_)
    rw [modBase_self (mod_dvd _) hα (mod_pos _)]
    exact h0
  · simp only
    omega
  · have := hacc.next
    simp only
    omega
  · intro m hm
    rw [hx] at hord hfits
    have hpre := ((mem_kept hbase hord hfits m).1 hm).1
    have hb := hord.below m (by simp [hpre])
    have hlt := kept_before hbase hord hfits hhidden hm
    obtain ⟨⟨h1, h2, h3⟩, hr⟩ := (validNack_iff cfg peer x.ackSn m).1 (hacc.nacks m (by simp [hx, hpre]))
    have hpos := hb.pos
    have hbefore := hnkBelow.before
    refine (validNack_iff cfg peer nk.nackSn m).2 ⟨⟨?_, h2, h3⟩, fun hrange => ⟨?_, (hr hrange).2⟩⟩
    · exact txModBase_lt hbase hpeer (by omega) (by omega) h1
    · refine txModBase_lt hbase hpeer ?_ (by omega) (hr hrange).1
      have hβ : base ≤ 2 ^ 32 := by have := mod_le cfg.snFieldLength; omega
      rw [sub32_last (hfits m (by simp [hpre])) hrange hpos, ← modBase_mod (mod_dvd _) hβ (mod_pos _),
        modBase_last hbase hb (by omega)]
      omega

section

variable (hbase : base < cfg.snFieldLength.mod) (hpeer : peer.st.txNextAck < cfg.snFieldLength.mod)
  (hlimit : sizeofHeaderAckSn ≤ limit) (hn : x.snSize = cfg.snFieldLength) (hwf : x.Wf)
  (hord : Ordered cfg.snFieldLength base x.ackSn x.nacks)
include hbase hpeer hlimit hn hwf hord

theorem trimOk_of_cutOk (hacc : Accepts cfg peer x)
    (hcut : CutOk cfg.snFieldLength peer limit x.nacks) : TrimOk cfg peer base limit x := by
  have hfits : ∀ m ∈ x.nacks, m.Fits cfg.snFieldLength := hn ▸ hwf.fits
  rcases Nat.lt_or_ge limit x.packedSize with hbig | hfit
  · obtain ⟨pre, nk, hc⟩ := exists_cut hlimit x.nacks (hwf.size ▸ hbig)
    have htrim := trim_of_cut hlimit hwf.size hc
    rw [hn] at hc
    obtain ⟨hne, hhidden⟩ := hcut pre nk hc
    obtain ⟨post, hx, hpre, -⟩ := hc
    have hord' := hord
    have hfits' := hfits
    rw [hx] at hord' hfits'
    have hsub : kept pre nk <+: pre := rdropWhile_prefix _ _
    refine ⟨by rw [htrim], ?_, ?_, ?_, ?_, ?_⟩
    · rw [htrim, hn]
      have hsize : nacksSize cfg.snFieldLength (kept pre nk) ≤ nacksSize cfg.snFieldLength pre := by
        obtain ⟨rest, hrest⟩ := hsub
        calc nacksSize cfg.snFieldLength (kept pre nk)
            ≤ nacksSize cfg.snFieldLength (kept pre nk ++ rest) := by rw [nacksSize_append]; omega
          _ = nacksSize cfg.snFieldLength pre := by rw [hrest]
      simp only
      omega
    · rw [htrim, hx]
      exact hsub.trans (prefix_append _ _)
    · intro m hm i hi
      rw [htrim] at hm ⊢
      have hpre' := ((mem_kept hbase hord' hfits' m).1 hm).1
      rw [modBase_last hbase (hord'.below m (by simp [hpre'])) hi]
      have := kept_before hbase hord' hfits' hhidden hm
      simp only
      omega
    · intro sn byte hlt hd
      rw [htrim] at hlt ⊢
      exact denotes_of_lt_cut hbase hord' hfits' hlt (hx ▸ hd)
    · rw [htrim]
      exact accepts_cut hbase hpeer hacc hord hfits hx hne hhidden
  · have htrim := trim_of_fits hfit
    refine ⟨by rw [htrim], by rw [htrim]; exact hfit, by rw [htrim], ?_, ?_, by rw [htrim]; exact hacc⟩
    · intro m hm i hi
      rw [htrim] at hm ⊢
      rw [modBase_last hbase (hord.below m hm) hi]
      have := (hord.below m hm).before
      simp only
      omega
    · intro sn byte _ hd
      rw [htrim]
      exact hd

theorem cutOk_of_trimOk (h : TrimOk cfg peer base limit x) : CutOk cfg.snFieldLength peer limit x.nacks := by
  intro pre nk hc
  have htrim := trim_of_cut hlimit hwf.size (hn ▸ hc)
  have hfits : ∀ m ∈ x.nacks, m.Fits cfg.snFieldLength := hn ▸ hwf.fits
  obtain ⟨post, hx, -, -⟩ := hc
  refine ⟨?_, ?_⟩
  · intro heq
    have hα : peer.st.txNextAck ≤ 2 ^ 32 := by have := mod_le cfg.snFieldLength; omega
    have hack := (validAckSn_iff cfg peer _).1 h.accepted.ack
    rw [htrim] at hack
    simp only [heq, txModBase, modBase_self (mod_dvd _) hα (mod_pos _)] at hack
    omega
  · intro m hm hne heq
    rw [hx] at hord hfits
    have hpos := (hord.below m (by simp [hm])).pos
    have hbefore := h.before m (by rw [htrim]; exact (mem_kept hbase hord hfits m).2 ⟨hm, hne⟩) (m.range - 1) (by omega)
    rw [htrim, heq] at hbefore
    simp at hbefore

end

/-- When trim leaves a right report. For every report built by pushing NACKs in increasing (SN, offset) order below
ACK_SN, every limit of at least the size of an empty report, and every peer that would accept the whole report: the
trimmed report fits, keeps its NACKs unchanged and before the new ACK_SN, goes on reporting everything missing below it
and is accepted by the peer if and only if, at the first NACK that does not fit, no earlier NACK range ends on its SN
and its SN is not the peer's TX_Next_Ack. -/
theorem trimOk_iff (cfg : RlcTxAmConfig) (peer : RlcTxAmEntity) (base ackSn limit : ℕ) (ns : List RlcAmStatusNack)
    (hbase : base < cfg.snFieldLength.mod) (hpeer : peer.st.txNextAck < cfg.snFieldLength.mod)
    (hfits : ∀ nack ∈ ns, nack.Fits cfg.snFieldLength) (hbelow : ∀ nack ∈ ns, Below cfg.snFieldLength base ackSn nack)
    (hsorted : ns.IsChain (Precedes cfg.snFieldLength base)) (hlimit : sizeofHeaderAckSn ≤ limit)
    (hacc : Accepts cfg peer (build cfg.snFieldLength ackSn ns)) :
    TrimOk cfg peer base limit (build cfg.snFieldLength ackSn ns) ↔
      CutOk cfg.snFieldLength peer limit (build cfg.snFieldLength ackSn ns).nacks := by
  have hwf : (build cfg.snFieldLength ackSn ns).Wf := build_wf hfits
  have hord : Ordered cfg.snFieldLength base (build cfg.snFieldLength ackSn ns).ackSn
      (build cfg.snFieldLength ackSn ns).nacks := by
    rw [build_ackSn]
    exact build_ordered hbase hbelow hsorted
  exact ⟨cutOk_of_trimOk hbase hpeer hlimit (build_snSize _ _ _) hwf hord,
    trimOk_of_cutOk hbase hpeer hlimit (build_snSize _ _ _) hwf hord hacc⟩

/-- a 12-bit bearer -/
def trimCfg : RlcTxAmConfig :=
  { snFieldLength := .size12bits, pdcpSnLen := .size12bits, tPollRetx := 45, maxRetxThresh := 4, pollPdu := 4,
    pollByte := 25, queueSize := 16, queueSizeBytes := 4096, maxWindow := 0, isSrb := false }

/-- a transmitter that waits for SN 4 and has sent up to SN 7 -/
def trimPeer : RlcTxAmEntity := { init trimCfg with st := { txNextAck := 4, txNext := 8 } }

/-- SN 5 is missing, and two pieces of SN 6; the first piece merges into a range with SN 5 -/
def hiddenNacks : List RlcAmStatusNack :=
  [{ nackSn := 5 }, { nackSn := 6, hasSo := true, soEnd := 9 },
   { nackSn := 6, hasSo := true, soStart := 20, soEnd := 29 }]

/-- SN 5 is missing, and a piece of SN 7 -/
def apartNacks : List RlcAmStatusNack := [{ nackSn := 5 }, { nackSn := 7, hasSo := true, soStart := 20, soEnd := 29 }]

theorem below_iff (n : RlcAmSnSize) (base ackSn : ℕ) (nack : RlcAmStatusNack) : Below n base ackSn nack ↔
    1 ≤ nack.range ∧ modBase n.mod base nack.nackSn + nack.range ≤ modBase n.mod base ackSn :=
  ⟨fun h => ⟨h.pos, h.before⟩, fun h => ⟨h.1, h.2⟩⟩

instance (n : RlcAmSnSize) (base ackSn : ℕ) (nack : RlcAmStatusNack) : Decidable (Below n base ackSn nack) :=
  decidable_of_iff _ (below_iff n base ackSn nack).symm

instance (n : RlcAmSnSize) (base : ℕ) (left right : RlcAmStatusNack) : Decidable (Precedes n base left right) := by
  unfold Precedes
  infer_instance

instance (cfg : RlcTxAmConfig) (peer : RlcTxAmEntity) (st : RlcAmStatusPdu) : Decidable (Accepts cfg peer st) :=
  decidable_of_iff (peer.validAckSn cfg st.ackSn = true ∧
      peer.txModBase cfg st.ackSn ≤ peer.txModBase cfg (peer.st.txNext + 1) ∧
      ∀ nack ∈ st.nacks, peer.validNack cfg st.ackSn nack = true)
    ⟨fun h => ⟨h.1, h.2.1, h.2.2⟩, fun h => ⟨h.ack, h.next, h.nacks⟩⟩

theorem trimOk_apart : TrimOk trimCfg trimPeer 5 8 (build .size12bits 8 apartNacks) := by
  refine (trimOk_iff trimCfg trimPeer 5 8 8 apartNacks (by decide) (by decide) (by decide) (by decide) (by decide)
    (by decide) (by decide)).2 ?_
  rintro pre nk ⟨post, h, h1, h2⟩
  rw [show (build trimCfg.snFieldLength 8 apartNacks).nacks = apartNacks by decide, apartNacks] at h
  match pre, h with
  | [], h =>
    obtain ⟨rfl, -⟩ : _ = nk ∧ _ = post := by simpa using h
    exact absurd h2 (by decide)
  | [a], h =>
    obtain ⟨rfl, rfl, -⟩ : _ = a ∧ _ = nk ∧ [] = post := by simpa using h
    exact ⟨by decide, by decide⟩
  | a :: b :: pre, h => simp at h

/-- trimmed to 12 bytes, the report keeps a range that ends on SN 6 while ACK_SN becomes 6 -/
theorem trim_keeps_range_ending_on_ackSn :
    (∀ nack ∈ hiddenNacks, nack.Fits .size12bits) ∧ (∀ nack ∈ hiddenNacks, Below .size12bits 5 8 nack) ∧
    hiddenNacks.IsChain (Precedes .size12bits 5) ∧ Accepts trimCfg trimPeer (build .size12bits 8 hiddenNacks) ∧
    ¬ TrimOk trimCfg trimPeer 5 12 (build .size12bits 8 hiddenNacks) := by
  refine ⟨by decide, by decide, by decide, by decide, ?_⟩
  intro h
  have hrange : ({ nackSn := 5, hasSo := true, soEnd := 9, hasNackRange := true, nackRange := 2 } : RlcAmStatusNack) ∈
      ((build .size12bits 8 hiddenNacks).trim 12).2.nacks := by decide
  have hlt := h.before _ hrange 1 (by decide)
  revert hlt
  decide

end OcuduRan.Rlc.RlcAmStatusPdu
