/-
Resource block groups (lib/scheduler/cell/resource_block_group.cpp) and their expansion to PRBs
(`convert_rbgs_to_prbs`, lib/scheduler/cell/vrb_alloc.cpp).

A BWP is an interval of CRBs. Its RBGs are the CRB groups of the nominal size P that it meets, so the first and the last
one may be partial: PRB i belongs to RBG (i + start mod P) / P. The sizes and positions are computed as in the source,
in `unsigned` arithmetic, from the size of the first RBG; a failing assertion is `none`.

Results:
- `convertLoop_spec`: the loop over the selected RBGs sets exactly the PRBs of the selected RBGs it has not yet passed;
- `rbgs_to_prbs_iff`: the sizes sum to the BWP length and the conversion returns the PRBs of the selected RBGs exactly
  if the BWP fits in a PRB bitmap, its only RBG (if it has one only) ends where the BWP ends, and RBG 0 is not selected
  in a BWP that starts inside a group.
Witnesses:
- `rbgs_to_prbs_aligned`: a BWP of 10 PRBs from CRB 0 in groups of 4, RBGs 0 and 2 selected;
- `partial_first_rbg_fails`: a BWP of 10 PRBs from CRB 2 in groups of 4 with RBG 0 selected: its first PRB is computed
  as 2^32 - 2, and the fill fails its assertion; a BWP of 3 PRBs from CRB 0 has one RBG, of size 4.
-/
import OcuduRan.Adt.Bitset

namespace OcuduRan.Sched

open Bitset Nat Finset

/-! ## Model -/

/-- an interval of CRBs, the constructor's assertion kept as a field -/
structure CrbInterval where
  start : UInt32
  stop : UInt32
  le : start ≤ stop

def CrbInterval.length (crbs : CrbInterval) : UInt32 := crbs.stop - crbs.start

inductive NominalRbgSize where
  | P2 | P4 | P8 | P16
deriving DecidableEq, Repr

def NominalRbgSize.toUnderlying : NominalRbgSize → UInt32
  | .P2 => 2
  | .P4 => 4
  | .P8 => 8
  | .P16 => 16

def MAX_NOF_PRBS : ℕ := 275

def divideCeil (num den : UInt32) : UInt32 := (num + (den - 1)) / den

def getNofRbgs (bwp_rbs : CrbInterval) (P : NominalRbgSize) : UInt32 :=
  divideCeil (bwp_rbs.length + bwp_rbs.start % P.toUnderlying) P.toUnderlying

def getRbgSize (bwp_rbs : CrbInterval) (P : NominalRbgSize) (rbg_idx : UInt32) : Option UInt32 :=
  let nof_rbgs := getNofRbgs bwp_rbs P
  if rbg_idx < nof_rbgs then
    if rbg_idx = 0 then some (P.toUnderlying - bwp_rbs.start % P.toUnderlying)
    else if rbg_idx = nof_rbgs - 1 then
      let ret := bwp_rbs.stop % P.toUnderlying
      some (if 0 < ret then ret else P.toUnderlying)
    else some P.toUnderlying
  else none

/-- the do-while loop; each round moves past at least one RBG, so `rbgs.length + 1` rounds are enough -/
def convertLoop (rbgs : Bits) (P first_rbg_size : UInt32) : ℕ → ℕ → Bits → Option Bits
  | 0, _, _ => none
  | fuel + 1, idx, prbs => do
    match ← findLowest rbgs idx rbgs.length true with
    | none => pure prbs
    | some idx =>
      let prb_idx := (UInt32.ofNat idx - 1) * P + first_rbg_size
      let prb_end := min (prb_idx + (if idx = 0 then first_rbg_size else P)) (UInt32.ofNat prbs.length)
      let prbs ← fill prbs prb_idx.toNat prb_end.toNat true
      if idx + 1 ≠ prbs.length then convertLoop rbgs P first_rbg_size fuel (idx + 1) prbs else pure prbs

def convertRbgsToPrbs (rbgs : Bits) (bwp_rbs : CrbInterval) (P : NominalRbgSize) : Option Bits := do
  let first_rbg_size ← getRbgSize bwp_rbs P 0
  let prbs ← make MAX_NOF_PRBS bwp_rbs.length.toNat
  convertLoop rbgs P.toUnderlying first_rbg_size (rbgs.length + 1) 0 prbs

/-! ## Groups in numbers -/

/-- the size of a group -/
def NominalRbgSize.size (P : NominalRbgSize) : ℕ := P.toUnderlying.toNat

section

variable (bwp : CrbInterval)

/-- how far into a group the BWP starts -/
def phase (P : NominalRbgSize) : ℕ := bwp.start.toNat % P.size

/-- the RBG of PRB i -/
def rbgOf (P : NominalRbgSize) (i : ℕ) : ℕ := (i + phase bwp P) / P.size

def nofRbgs (P : NominalRbgSize) : ℕ := (getNofRbgs bwp P).toNat

/-- the size the code gives RBG k -/
def rbgSize (P : NominalRbgSize) (k : ℕ) : ℕ :=
  ((getRbgSize bwp P (UInt32.ofNat k)).getD 0).toNat

/-- the first PRB of RBG k when the RBGs follow each other from PRB 0 -/
def rbgStart (P : NominalRbgSize) (k : ℕ) : ℕ := ∑ j ∈ range k, rbgSize bwp P j

end

variable {bwp : CrbInterval} {P : NominalRbgSize} {rbgs prbs prbs' : Bits} {k : ℕ} {first : UInt32}

theorem NominalRbgSize.size_pos : 0 < P.size := by cases P <;> decide

theorem NominalRbgSize.size_le : P.size ≤ 16 := by cases P <;> decide

theorem NominalRbgSize.two_le_size : 2 ≤ P.size := by cases P <;> decide

theorem phase_lt : phase bwp P < P.size := mod_lt _ P.size_pos

theorem CrbInterval.length_toNat : bwp.length.toNat = bwp.stop.toNat - bwp.start.toNat :=
  UInt32.toNat_sub_of_le _ _ bwp.le

theorem CrbInterval.stop_toNat : bwp.stop.toNat = bwp.start.toNat + bwp.length.toNat := by
  have := UInt32.le_iff_toNat_le.1 bwp.le
  rw [bwp.length_toNat]
  omega

/-- no BWP that fits in a PRB bitmap makes the arithmetic wrap -/
def Fits (bwp : CrbInterval) : Prop := bwp.length.toNat ≤ MAX_NOF_PRBS

theorem nofRbgs_eq (h : Fits bwp) : nofRbgs bwp P = (bwp.length.toNat + phase bwp P + (P.size - 1)) / P.size := by
  have hle : bwp.length.toNat ≤ 275 := h
  have hph : bwp.start.toNat % P.toUnderlying.toNat < P.toUnderlying.toNat := phase_lt
  have hP : P.toUnderlying.toNat ≤ 16 := P.size_le
  have hone : (P.toUnderlying - 1).toNat = P.toUnderlying.toNat - 1 := by cases P <;> rfl
  simp only [nofRbgs, getNofRbgs, divideCeil, phase, NominalRbgSize.size, UInt32.toNat_div, UInt32.toNat_add,
    UInt32.toNat_mod, hone]
  congr 1
  omega

/-- the BWP ends in the last of its groups -/
theorem nofRbgs_bounds (h : Fits bwp) (hpos : 0 < bwp.length.toNat) :
    (nofRbgs bwp P - 1) * P.size < bwp.length.toNat + phase bwp P ∧
      bwp.length.toNat + phase bwp P ≤ nofRbgs bwp P * P.size ∧ 0 < nofRbgs bwp P := by
  have hP := P.size_pos
  have hlt := lt_div_mul_add hP (a := bwp.length.toNat + phase bwp P + (P.size - 1))
  have hle := div_mul_le_self (bwp.length.toNat + phase bwp P + (P.size - 1)) P.size
  rw [← nofRbgs_eq h] at hlt hle
  have hsub : (nofRbgs bwp P - 1) * P.size = nofRbgs bwp P * P.size - P.size := by rw [Nat.sub_mul, Nat.one_mul]
  have hnof : 0 < nofRbgs bwp P := by
    rw [nofRbgs_eq h]
    exact div_pos (by omega) hP
  refine ⟨?_, ?_, hnof⟩ <;> omega

/-- every group of the BWP has one of its PRBs -/
theorem nofRbgs_le_length (h : Fits bwp) (hpos : 0 < bwp.length.toNat) : nofRbgs bwp P ≤ bwp.length.toNat := by
  obtain ⟨hlt, -, hnof⟩ := nofRbgs_bounds (P := P) h hpos
  have hph : phase bwp P < P.size := phase_lt
  have h2 := P.two_le_size
  obtain ⟨n, hn⟩ : ∃ n, nofRbgs bwp P = n + 1 := ⟨_, (succ_pred_eq_of_pos hnof).symm⟩
  rw [hn] at hlt ⊢
  rcases n with - | n
  · omega
  · simp only [Nat.add_sub_cancel, Nat.add_mul, Nat.one_mul] at hlt
    have : n * 2 ≤ n * P.size := mul_le_mul_left n h2
    omega

theorem first_toNat : (P.toUnderlying - bwp.start % P.toUnderlying).toNat = P.size - phase bwp P := by
  rw [UInt32.toNat_sub_of_le]
  · simp only [UInt32.toNat_mod, NominalRbgSize.size, phase]
  · rw [UInt32.le_iff_toNat_le, UInt32.toNat_mod]
    exact le_of_lt phase_lt

theorem rbgSize_eq (hk : k < nofRbgs bwp P) :
    rbgSize bwp P k = if k = 0 then P.size - phase bwp P
      else if k = nofRbgs bwp P - 1 then
        (if 0 < (bwp.length.toNat + phase bwp P) % P.size then (bwp.length.toNat + phase bwp P) % P.size else P.size)
      else P.size := by
  have hlt : nofRbgs bwp P < 2 ^ 32 := (getNofRbgs bwp P).toNat_lt
  have hkn : (UInt32.ofNat k).toNat = k := UInt32.toNat_ofNat_of_lt' (lt_trans hk hlt)
  have hmem : UInt32.ofNat k < getNofRbgs bwp P := by rw [UInt32.lt_iff_toNat_lt, hkn]; exact hk
  have h0 : UInt32.ofNat k = 0 ↔ k = 0 := by rw [← UInt32.toNat_inj, hkn]; rfl
  have hlast : UInt32.ofNat k = getNofRbgs bwp P - 1 ↔ k = nofRbgs bwp P - 1 := by
    have hle : (1 : UInt32) ≤ getNofRbgs bwp P := UInt32.le_iff_toNat_le.2 (show 1 ≤ nofRbgs bwp P by omega)
    rw [← UInt32.toNat_inj, hkn, UInt32.toNat_sub_of_le _ _ hle]
    rfl
  have hstop : (bwp.stop % P.toUnderlying).toNat = (bwp.length.toNat + phase bwp P) % P.size := by
    rw [UInt32.toNat_mod, bwp.stop_toNat, add_comm]
    simp [phase, NominalRbgSize.size]
  unfold rbgSize getRbgSize
  simp only [hmem, if_true, h0, hlast]
  split_ifs with c1 c2 c3 c4 c4
  · exact first_toNat
  · exact hstop
  · exact absurd (by rw [UInt32.lt_iff_toNat_lt, hstop] at c3; exact c3) c4
  · exact absurd (by rw [UInt32.lt_iff_toNat_lt, hstop]; exact c4) c3
  · rfl
  · rfl

/-- the BWP's only group, if it has one only, ends with it -/
def EndsWithGroup (bwp : CrbInterval) (P : NominalRbgSize) : Prop :=
  nofRbgs bwp P = 1 → bwp.stop.toNat % P.size = 0

theorem stop_mod : bwp.stop.toNat % P.size = (bwp.length.toNat + phase bwp P) % P.size := by
  rw [bwp.stop_toNat, add_comm]
  simp [phase]

/-- all groups but the first and the last start at a multiple of P -/
theorem rbgStart_add_phase (hk : k + 1 < nofRbgs bwp P) : rbgStart bwp P (k + 1) + phase bwp P = (k + 1) * P.size := by
  have hph : phase bwp P < P.size := phase_lt
  induction k with
  | zero =>
    rw [rbgStart, sum_range_one, rbgSize_eq (by omega), if_pos rfl]
    omega
  | succ k ih =>
    have hsucc : rbgStart bwp P (k + 1 + 1) = rbgStart bwp P (k + 1) + rbgSize bwp P (k + 1) :=
      sum_range_succ _ _
    have hsize : rbgSize bwp P (k + 1) = P.size := by
      rw [rbgSize_eq (by omega), if_neg (by omega), if_neg (by omega)]
    rw [hsucc, hsize, add_mul _ 1, one_mul, ← ih (by omega)]
    omega

section

variable (h : Fits bwp) (hpos : 0 < bwp.length.toNat)
include h hpos

/-- the last group, when it is not the first, takes what is left of the BWP -/
theorem rbgSize_last (hn : 1 < nofRbgs bwp P) :
    rbgSize bwp P (nofRbgs bwp P - 1) + (nofRbgs bwp P - 1) * P.size = bwp.length.toNat + phase bwp P := by
  obtain ⟨hlt, hle, -⟩ := nofRbgs_bounds (P := P) h hpos
  rw [rbgSize_eq (by omega), if_neg (by omega), if_pos rfl]
  generalize hx : bwp.length.toNat + phase bwp P = x at hlt hle ⊢
  obtain ⟨n, hn'⟩ : ∃ n, nofRbgs bwp P = n + 1 := ⟨_, (succ_pred_eq_of_pos (by omega)).symm⟩
  rw [hn', Nat.add_sub_cancel] at hlt ⊢
  rw [hn', add_mul, one_mul] at hle
  obtain ⟨r, rfl⟩ := Nat.exists_eq_add_of_lt hlt
  rcases lt_or_ge (r + 1) P.size with hr | hr
  · have hmod : (n * P.size + r + 1) % P.size = r + 1 := by
      rw [add_assoc, mul_comm, mul_add_mod, mod_eq_of_lt hr]
    rw [hmod, if_pos (by omega)]
    omega
  · have hmod : (n * P.size + r + 1) % P.size = 0 := by
      rw [show n * P.size + r + 1 = (n + 1) * P.size by rw [add_mul]; omega, mul_mod_left]
    rw [hmod, if_neg (by omega)]
    omega

/-- the sizes sum to the length of the BWP, unless its only group sticks out of it -/
theorem rbgStart_nofRbgs_iff : rbgStart bwp P (nofRbgs bwp P) = bwp.length.toNat ↔ EndsWithGroup bwp P := by
  obtain ⟨hlt, hle, hnof⟩ := nofRbgs_bounds (P := P) h hpos
  have hph : phase bwp P < P.size := phase_lt
  unfold EndsWithGroup
  rw [stop_mod]
  rcases lt_or_ge 1 (nofRbgs bwp P) with hn | hn
  · have hlast := rbgSize_last h hpos hn
    have hprev : rbgStart bwp P (nofRbgs bwp P - 2 + 1) + phase bwp P = (nofRbgs bwp P - 2 + 1) * P.size :=
      rbgStart_add_phase (by omega)
    rw [show nofRbgs bwp P - 2 + 1 = nofRbgs bwp P - 1 by omega] at hprev
    have hsum : rbgStart bwp P (nofRbgs bwp P) =
        rbgStart bwp P (nofRbgs bwp P - 1) + rbgSize bwp P (nofRbgs bwp P - 1) := by
      rw [rbgStart, ← Nat.sub_add_cancel hnof, sum_range_succ]
      rfl
    constructor
    · intro _ hone
      omega
    · intro _
      omega
  · have hone : nofRbgs bwp P = 1 := by omega
    rw [hone, one_mul] at hle
    have hsum : rbgStart bwp P 1 = P.size - phase bwp P := by
      rw [rbgStart, sum_range_one, rbgSize_eq (by omega), if_pos rfl]
    rw [hone, hsum]
    constructor
    · intro heq _
      rw [← heq, Nat.sub_add_cancel hph.le, Nat.mod_self]
    · intro hmod
      have hdvd := dvd_of_mod_eq_zero (hmod rfl)
      have hge := le_of_dvd (by omega) hdvd
      omega

/-- PRB i lies in the stretch of RBG k exactly if k is the group of i -/
theorem mem_rbg_iff (hend : EndsWithGroup bwp P) {i : ℕ} (hk : k < nofRbgs bwp P) :
    (rbgStart bwp P k ≤ i ∧ i < rbgStart bwp P k + rbgSize bwp P k) ↔ i < bwp.length.toNat ∧ rbgOf bwp P i = k := by
  obtain ⟨hlt, hle, hnof⟩ := nofRbgs_bounds (P := P) h hpos
  have hph : phase bwp P < P.size := phase_lt
  have hsum := (rbgStart_nofRbgs_iff h hpos).2 hend
  have hsucc : rbgStart bwp P k + rbgSize bwp P k = rbgStart bwp P (k + 1) := (sum_range_succ _ _).symm
  have hmul : (k + 1) * P.size = k * P.size + P.size := by rw [Nat.add_mul, Nat.one_mul]
  -- where the group starts and where the next one does, in the numbering of groups
  have hstart : rbgStart bwp P k = k * P.size - phase bwp P := by
    rcases k with - | k
    · simp [rbgStart]
    · have := rbgStart_add_phase hk
      omega
  have hstop : i < rbgStart bwp P (k + 1) ↔ i < bwp.length.toNat ∧ i + phase bwp P < (k + 1) * P.size := by
    rcases Nat.lt_or_ge (k + 1) (nofRbgs bwp P) with hk' | hk'
    · have hnext := rbgStart_add_phase hk'
      have hmono : (k + 1) * P.size ≤ (nofRbgs bwp P - 1) * P.size := Nat.mul_le_mul_right _ (by omega)
      omega
    · have hkn : k + 1 = nofRbgs bwp P := by omega
      rw [hkn, hsum]
      omega
  rw [hsucc, hstop, hstart, rbgOf, Nat.div_eq_iff P.size_pos]
  rcases k with - | k
  · simp
    omega
  · have : P.size ≤ (k + 1) * P.size := Nat.le_mul_of_pos_left _ (by omega)
    omega

end

/-! ## The loop -/

/-- the position the source computes for RBG k, as `unsigned` -/
def prbIdx (P first_rbg_size : UInt32) (k : ℕ) : UInt32 := (UInt32.ofNat k - 1) * P + first_rbg_size

/-- one size below 2^32 is subtracted for RBG 0: the position wraps unless the first group is whole -/
theorem prbIdx_zero (hf : first.toNat = P.size - phase bwp P) :
    (prbIdx P.toUnderlying first 0).toNat = if phase bwp P = 0 then 0 else 2 ^ 32 - phase bwp P := by
  have hph : phase bwp P < P.size := phase_lt
  have h0 : ((UInt32.ofNat 0 - 1) * P.toUnderlying).toNat = 2 ^ 32 - P.size := by cases P <;> rfl
  have hP := P.size_le
  rw [prbIdx, UInt32.toNat_add, h0, hf]
  split_ifs <;> omega

theorem prbIdx_succ (hf : first.toNat = P.size - phase bwp P) (hk : (k + 1) * P.size < 2 ^ 32) :
    (prbIdx P.toUnderlying first (k + 1)).toNat = (k + 1) * P.size - phase bwp P := by
  have hph : phase bwp P < P.size := phase_lt
  have hP := P.size_pos
  have hmul : (k + 1) * P.size = k * P.size + P.size := by rw [add_mul, one_mul]
  have hk1 : k + 1 ≤ (k + 1) * P.size := Nat.le_mul_of_pos_right _ hP
  have hkn : (UInt32.ofNat (k + 1)).toNat = k + 1 := UInt32.toNat_ofNat_of_lt' (lt_of_le_of_lt hk1 hk)
  have hsub : (UInt32.ofNat (k + 1) - 1).toNat = k := by
    rw [UInt32.toNat_sub_of_le _ _ (UInt32.le_iff_toNat_le.2 (by rw [hkn]; simp)), hkn]
    rfl
  have hrow : ((UInt32.ofNat (k + 1) - 1) * P.toUnderlying).toNat = k * P.size := by
    rw [UInt32.toNat_mul, hsub]
    exact mod_eq_of_lt (by rw [NominalRbgSize.size] at hk hmul; omega)
  rw [prbIdx, UInt32.toNat_add, hrow, hf, mod_eq_of_lt (by omega)]
  omega

/-- RBG 0 is whole or not selected -/
def FirstWhole (bwp : CrbInterval) (P : NominalRbgSize) (rbgs : Bits) : Prop := phase bwp P = 0 ∨ ¬ On rbgs 0

section

variable (h : Fits bwp) (hpos : 0 < bwp.length.toNat) (hf : first.toNat = P.size - phase bwp P)
  (hw : FirstWhole bwp P rbgs)
include h hpos hf hw

/-- the stretch filled for a selected RBG: from its start to its end or the end of the BWP -/
theorem fill_range (hon : On rbgs k) (hk : k < nofRbgs bwp P) :
    (prbIdx P.toUnderlying first k).toNat = k * P.size - phase bwp P ∧
      (min (prbIdx P.toUnderlying first k + (if k = 0 then first else P.toUnderlying))
        (UInt32.ofNat bwp.length.toNat)).toNat = min ((k + 1) * P.size - phase bwp P) bwp.length.toNat := by
  obtain ⟨hlt, -, -⟩ := nofRbgs_bounds (P := P) h hpos
  have hph : phase bwp P < P.size := phase_lt
  have hP := P.size_le
  have hle : bwp.length.toNat ≤ 275 := h
  have hmul : (k + 1) * P.size = k * P.size + P.size := by rw [add_mul, one_mul]
  have hkP : k * P.size ≤ (nofRbgs bwp P - 1) * P.size := mul_le_mul_right _ (by omega)
  have hlen : (UInt32.ofNat bwp.length.toNat).toNat = bwp.length.toNat := by simp
  rw [UInt32.toNat_min, hlen, UInt32.toNat_add]
  rcases k with - | k
  · have h0 : phase bwp P = 0 := hw.resolve_right (not_not.2 hon)
    have hidx : (prbIdx P.toUnderlying first 0).toNat = 0 := by rw [prbIdx_zero hf, if_pos h0]
    rw [hidx, if_pos rfl, hf]
    omega
  · have hidx := prbIdx_succ hf (k := k) (by omega)
    have hsize : P.toUnderlying.toNat = P.size := rfl
    rw [hidx, if_neg (succ_ne_zero k), hsize, mod_eq_of_lt (by omega)]
    have hge : P.size ≤ (k + 1) * P.size := Nat.le_mul_of_pos_left _ (Nat.succ_pos k)
    refine ⟨rfl, ?_⟩
    rw [hmul, Nat.sub_add_comm (by omega)]

/-- the loop, entered at `idx`, adds the PRBs of the selected RBGs from `idx` on -/
theorem convertLoop_spec (hn : rbgs.length = nofRbgs bwp P) :
    ∀ (fuel idx : ℕ) (prbs : Bits), prbs.length = bwp.length.toNat → idx ≤ rbgs.length → rbgs.length < fuel + idx →
      ∃ prbs', convertLoop rbgs P.toUnderlying first fuel idx prbs = some prbs' ∧ prbs'.length = bwp.length.toNat ∧
        ∀ i, On prbs' i ↔ On prbs i ∨ i < bwp.length.toNat ∧ idx ≤ rbgOf bwp P i ∧ On rbgs (rbgOf bwp P i) := by
  intro fuel
  induction fuel with
  | zero => intro idx prbs _ hidx hfuel; omega
  | succ fuel ih =>
    intro idx prbs hlen hidx hfuel
    obtain ⟨r, hr⟩ := findLowest_isSome (v := true) (b := rbgs) ⟨hidx, le_refl _⟩
    rcases r with - | k
    · -- nothing selected from idx on
      refine ⟨prbs, by simp [convertLoop, hr], hlen, fun i => ⟨.inl, ?_⟩⟩
      rintro (hi | ⟨-, hge, hon⟩)
      · exact hi
      · exact absurd hon (findLowest_none hr _ hge hon.lt)
    · obtain ⟨hge, hlt, hon, hno⟩ := findLowest_some hr
      have hk : k < nofRbgs bwp P := by omega
      obtain ⟨hstart, hstop⟩ := fill_range h hpos hf hw hon hk
      obtain ⟨hlow, -, -⟩ := nofRbgs_bounds (P := P) h hpos
      have hkP : k * P.size ≤ (nofRbgs bwp P - 1) * P.size := mul_le_mul_right _ (by omega)
      have hmul : (k + 1) * P.size = k * P.size + P.size := by rw [add_mul, one_mul]
      have hrange : InRange prbs (k * P.size - phase bwp P)
          (min ((k + 1) * P.size - phase bwp P) bwp.length.toNat) := ⟨by omega, by omega⟩
      obtain ⟨b, hb⟩ := fill_isSome (v := true) hrange
      obtain ⟨-, hblen, hbon⟩ := fill_spec hb
      rw [hlen] at hblen
      have hstep : convertLoop rbgs P.toUnderlying first (fuel + 1) idx prbs =
          if k + 1 ≠ b.length then convertLoop rbgs P.toUnderlying first fuel (k + 1) b else some b := by
        rw [prbIdx] at hstart hstop
        simp only [convertLoop, hr, Option.bind_eq_bind, Option.bind_some, hlen, hstart, hstop, hb]
        rfl
      -- the filled stretch is group k
      have hgroup : ∀ i, (k * P.size - phase bwp P ≤ i ∧ i < min ((k + 1) * P.size - phase bwp P) bwp.length.toNat) ↔
          i < bwp.length.toNat ∧ rbgOf bwp P i = k := by
        intro i
        have h0 : k = 0 → phase bwp P = 0 := by
          rintro rfl
          exact hw.resolve_right (not_not.2 hon)
        have hP : k ≠ 0 → P.size ≤ k * P.size := fun h => Nat.le_mul_of_pos_left _ (by omega)
        have hph : phase bwp P < P.size := phase_lt
        rw [rbgOf, Nat.div_eq_iff P.size_pos]
        rcases Nat.eq_zero_or_pos k with rfl | hkpos
        · simp [h0 rfl]
          omega
        · have := hP (by omega)
          omega
      have hbset : ∀ i, On b i ↔ On prbs i ∨ i < bwp.length.toNat ∧ rbgOf bwp P i = k := by
        intro i
        rw [hbon]
        by_cases hi : k * P.size - phase bwp P ≤ i ∧ i < min ((k + 1) * P.size - phase bwp P) bwp.length.toNat
        · rw [if_pos hi]
          exact ⟨fun _ => .inr ((hgroup i).1 hi), fun _ => rfl⟩
        · rw [if_neg hi, ← hgroup]
          exact ⟨.inl, fun h => h.resolve_right hi⟩
      -- selected groups from idx on are group k and those after it
      have hsplit : ∀ g, (idx ≤ g ∧ On rbgs g) ↔ g = k ∨ (k + 1 ≤ g ∧ On rbgs g) := by
        intro g
        constructor
        · rintro ⟨hidxg, hg⟩
          rcases lt_trichotomy g k with hlt | rfl | hgt
          · exact absurd hg (hno g hidxg hlt)
          · exact .inl rfl
          · exact .inr ⟨hgt, hg⟩
        · rintro (rfl | ⟨hgt, hg⟩)
          · exact ⟨hge, hon⟩
          · exact ⟨by omega, hg⟩
      by_cases hlast : k + 1 = b.length
      · -- the BWP has no more groups than PRBs, so none is left
        refine ⟨b, by rw [hstep, if_neg (not_not.2 hlast)], hblen, fun i => ?_⟩
        have hall := nofRbgs_le_length (P := P) h hpos
        rw [hbset]
        simp only [hsplit]
        refine or_congr_right (and_congr_right fun _ => ⟨.inl, ?_⟩)
        rintro (hg | ⟨hg, hgon⟩)
        · exact hg
        · exact absurd hgon.lt (by omega)
      · obtain ⟨prbs', hrun, hlen', hon'⟩ := ih (k + 1) b hblen (by omega) (by omega)
        refine ⟨prbs', by rw [hstep, if_pos hlast, hrun], hlen', fun i => ?_⟩
        rw [hon', hbset]
        simp only [hsplit]
        tauto

end

/-- RBG 0 of a BWP that starts inside a group makes the fill fail -/
theorem convertLoop_first (h : Fits bwp) (hf : first.toNat = P.size - phase bwp P)
    (hph : phase bwp P ≠ 0) (hon : On rbgs 0) {fuel : ℕ} (hlen : prbs.length = bwp.length.toNat) :
    convertLoop rbgs P.toUnderlying first fuel 0 prbs = none := by
  rcases fuel with - | fuel
  · rfl
  obtain ⟨r, hr⟩ := findLowest_isSome (v := true) (b := rbgs) ⟨zero_le _, le_refl _⟩
  obtain rfl : r = some 0 := by
    rcases r with - | k
    · exact absurd hon (findLowest_none hr 0 (le_refl _) hon.lt)
    · obtain ⟨-, -, -, hno⟩ := findLowest_some hr
      rcases Nat.eq_zero_or_pos k with rfl | hk
      · rfl
      · exact absurd hon (hno 0 (le_refl _) hk)
  have hidx : (prbIdx P.toUnderlying first 0).toNat = 2 ^ 32 - phase bwp P := by rw [prbIdx_zero hf, if_neg hph]
  have hphlt : phase bwp P < P.size := phase_lt
  have hP := P.size_le
  have hle : bwp.length.toNat ≤ 275 := h
  have hout : ¬ InRange prbs (prbIdx P.toUnderlying first 0).toNat
      (min (prbIdx P.toUnderlying first 0 + first) (UInt32.ofNat prbs.length)).toNat := by
    rintro ⟨h1, h2⟩
    omega
  simp only [convertLoop, hr, Option.bind_eq_bind, Option.bind_some, if_true]
  rw [show (UInt32.ofNat 0 - 1) * P.toUnderlying + first = prbIdx P.toUnderlying first 0 from rfl, fill_eq_none hout]
  rfl

/-! ## The conversion -/

/-- the sizes sum to the BWP length, and the conversion returns the PRBs of the selected RBGs -/
structure Exact (bwp : CrbInterval) (P : NominalRbgSize) (rbgs : Bits) : Prop where
  sizes : ∑ k ∈ range (nofRbgs bwp P), rbgSize bwp P k = bwp.length.toNat
  prbs : ∃ prbs, convertRbgsToPrbs rbgs bwp P = some prbs ∧ prbs.length = bwp.length.toNat ∧
    (∀ i, On prbs i ↔ ∃ k, On rbgs k ∧ rbgStart bwp P k ≤ i ∧ i < rbgStart bwp P k + rbgSize bwp P k) ∧
    count prbs = ∑ k ∈ (range (nofRbgs bwp P)).filter (fun k => On rbgs k), rbgSize bwp P k

/-- the BWPs and selections the conversion is right for -/
structure Supported (bwp : CrbInterval) (P : NominalRbgSize) (rbgs : Bits) : Prop where
  pos : 0 < bwp.length.toNat
  fits : bwp.length.toNat ≤ MAX_NOF_PRBS
  ends : nofRbgs bwp P = 1 → bwp.stop.toNat % P.size = 0
  first : bwp.start.toNat % P.size = 0 ∨ ¬ On rbgs 0

theorem getRbgSize_zero (hnof : 0 < nofRbgs bwp P) :
    ∃ first, getRbgSize bwp P 0 = some first ∧ first.toNat = P.size - phase bwp P := by
  have hlt : (0 : UInt32) < getNofRbgs bwp P := UInt32.lt_iff_toNat_lt.2 hnof
  exact ⟨P.toUnderlying - bwp.start % P.toUnderlying, by simp [getRbgSize, hlt], first_toNat⟩

/-- the number of PRBs of the selected groups, counted group by group -/
theorem count_eq_sum (h : Fits bwp) (hpos : 0 < bwp.length.toNat) (hend : EndsWithGroup bwp P)
    (hn : rbgs.length = nofRbgs bwp P) (hlen : prbs.length = bwp.length.toNat)
    (hon : ∀ i, On prbs i ↔ i < bwp.length.toNat ∧ On rbgs (rbgOf bwp P i)) :
    count prbs = ∑ k ∈ (range (nofRbgs bwp P)).filter (fun k => On rbgs k), rbgSize bwp P k := by
  rw [count_eq_card, hlen]
  rw [card_eq_sum_card_fiberwise (f := rbgOf bwp P)
    (t := (range (nofRbgs bwp P)).filter (fun k => On rbgs k))]
  · refine sum_congr rfl fun k hk => ?_
    obtain ⟨hkn, hkon⟩ := mem_filter.1 hk
    have hfiber : ((range bwp.length.toNat).filter (fun i => On prbs i)).filter (fun i => rbgOf bwp P i = k) =
        Finset.Ico (rbgStart bwp P k) (rbgStart bwp P k + rbgSize bwp P k) := by
      ext i
      rw [mem_Ico, mem_rbg_iff h hpos hend (mem_range.1 hkn)]
      simp only [mem_filter, mem_range, hon]
      constructor
      · rintro ⟨⟨hi, -⟩, hg⟩
        exact ⟨hi, hg⟩
      · rintro ⟨hi, rfl⟩
        exact ⟨⟨hi, hi, hkon⟩, rfl⟩
    rw [hfiber, card_Ico]
    omega
  · intro i hi
    obtain ⟨-, hi⟩ := mem_filter.1 hi
    obtain ⟨-, hg⟩ := (hon i).1 hi
    exact mem_filter.2 ⟨mem_range.2 (hn ▸ hg.lt), hg⟩

theorem Supported.exact (h : Supported bwp P rbgs) (hn : rbgs.length = nofRbgs bwp P) : Exact bwp P rbgs := by
  obtain ⟨hpos, hfits, hend, hfirst⟩ := h
  obtain ⟨-, -, hnof⟩ := nofRbgs_bounds (P := P) hfits hpos
  obtain ⟨first, hget, hf⟩ := getRbgSize_zero hnof
  obtain ⟨prbs, hrun, hlen, hon⟩ := convertLoop_spec hfits hpos hf hfirst hn (rbgs.length + 1) 0
    (List.replicate bwp.length.toNat false) (by simp) (zero_le _) (by omega)
  have hset : ∀ i, On prbs i ↔ i < bwp.length.toNat ∧ On rbgs (rbgOf bwp P i) := by
    intro i
    rw [hon]
    simp
  refine ⟨(rbgStart_nofRbgs_iff hfits hpos).2 hend, prbs, ?_, hlen, fun i => ?_,
    count_eq_sum hfits hpos hend hn hlen hset⟩
  · have hmake : make MAX_NOF_PRBS bwp.length.toNat = some (List.replicate bwp.length.toNat false) := if_pos hfits
    simpa [convertRbgsToPrbs, hget, hmake] using hrun
  · rw [hset]
    constructor
    · rintro ⟨hi, hg⟩
      exact ⟨_, hg, (mem_rbg_iff hfits hpos hend (hn ▸ hg.lt)).2 ⟨hi, rfl⟩⟩
    · rintro ⟨k, hk, hmem⟩
      obtain ⟨hi, rfl⟩ := (mem_rbg_iff hfits hpos hend (hn ▸ hk.lt)).1 hmem
      exact ⟨hi, hk⟩

theorem Exact.supported (h : Exact bwp P rbgs) : Supported bwp P rbgs := by
  obtain ⟨hsizes, prbs, hconv, -, -, -⟩ := h
  -- the conversion got past its assertions
  have hfits : Fits bwp := by
    by_contra hc
    have hmake : make MAX_NOF_PRBS bwp.length.toNat = none := if_neg hc
    rcases hg : getRbgSize bwp P 0 with - | first <;> simp [convertRbgsToPrbs, hmake, hg] at hconv
  have hnof : 0 < nofRbgs bwp P := by
    by_contra hc
    have hget : getRbgSize bwp P 0 = none := by
      have : ¬ (0 : UInt32) < getNofRbgs bwp P := fun hlt => hc (UInt32.lt_iff_toNat_lt.1 hlt)
      simp [getRbgSize, this]
    simp [convertRbgsToPrbs, hget] at hconv
  obtain ⟨first, hget, hf⟩ := getRbgSize_zero hnof
  have hph : phase bwp P < P.size := phase_lt
  have hpos : 0 < bwp.length.toNat := by
    -- an empty BWP has no group, or a first one that is not empty
    by_contra hc
    have hsize0 : rbgSize bwp P 0 = P.size - phase bwp P := by rw [rbgSize_eq hnof, if_pos rfl]
    have hle : rbgSize bwp P 0 ≤ ∑ k ∈ range (nofRbgs bwp P), rbgSize bwp P k :=
      single_le_sum (f := rbgSize bwp P) (fun _ _ => zero_le _) (mem_range.2 hnof)
    omega
  refine ⟨hpos, hfits, (rbgStart_nofRbgs_iff hfits hpos).1 hsizes, ?_⟩
  by_contra hc
  obtain ⟨hph0, hon⟩ := not_or.1 hc
  have hnone : convertLoop rbgs P.toUnderlying first (rbgs.length + 1) 0 (List.replicate bwp.length.toNat false) =
    none :=
    convertLoop_first hfits hf hph0 (not_not.1 hon) (by simp)
  have hmake : make MAX_NOF_PRBS bwp.length.toNat = some (List.replicate bwp.length.toNat false) := if_pos hfits
  simp [convertRbgsToPrbs, hget, hmake, hnone] at hconv

/-- for a bitmap with one bit per RBG, sizes and conversion are right exactly for the supported BWPs and selections -/
theorem rbgs_to_prbs_iff (bwp : CrbInterval) (P : NominalRbgSize) (rbgs : Bits) (hn : rbgs.length = nofRbgs bwp P) :
    Exact bwp P rbgs ↔ Supported bwp P rbgs :=
  ⟨fun h => h.supported, fun h => h.exact hn⟩

theorem rbgs_to_prbs_aligned : Exact ⟨0, 10, by decide⟩ .P4 [true, false, true] :=
  (rbgs_to_prbs_iff ⟨0, 10, by decide⟩ .P4 [true, false, true] (by decide)).2
    ⟨by decide, by decide, by decide, by decide⟩

theorem partial_first_rbg_fails :
    nofRbgs ⟨2, 12, by decide⟩ .P4 = 3 ∧ convertRbgsToPrbs [true, false, false] ⟨2, 12, by decide⟩ .P4 = none ∧
      nofRbgs ⟨0, 3, by decide⟩ .P4 = 1 ∧ rbgSize ⟨0, 3, by decide⟩ .P4 0 = 4 := by
  decide

end OcuduRan.Sched
