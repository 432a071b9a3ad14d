/-
The interleaved VRB-to-PRB mapping (include/ocudu/ran/resource_allocation/vrb_to_prb.h and
lib/ran/resource_allocation/vrb_to_prb.cpp).

A configuration cuts nof_rbs virtual resource blocks into bundles. The constructor of the mapping fills two tables of
16 bit indices, one bundle at a time: bundle j of the VRBs gets the PRBs of bundle f(j) of a two-row block interleaver,
and the second table is filled by walking the first. An assertion that fails is `none`; `unsigned` sums wrap at 2^32.

`Bundles` (Core.BlockInterleaver) is what the tables are for: `vrbToPrb_eq` and `prbToVrb_eq` say that the tables hold
its two maps of positions, shifted by the CORESET start.

Result: `vrb_to_prb_interleaved`. For every configuration the three creators give that has at least two bundles, the
bundle sizes sum to nof_rbs and the mapping can be constructed exactly if coreset_start + nof_rbs fits in 275. Then the
two lookups are inverse bijections, the conversions of bitmaps and CRBs are images under them and the two PRB intervals
of a VRB interval cover its image.
Witness: `vrb_to_prb_interleaved_ten`: 10 VRBs at CORESET start 3 in a BWP that starts at an even CRB, so that the first
and the last bundle have one block each.
-/
import OcuduRan.Adt.Bitset
import OcuduRan.Core.BlockInterleaver
import OcuduRan.Core.ExceptFold

namespace OcuduRan.Ran.VrbToPrb

open OcuduRan.Core Bitset List Option Bundles Nat

/-! ## Model -/

def MAX_NOF_PRBS : ℕ := 275

/-- the value of an `unsigned` expression -/
def unsigned (x : ℕ) : ℕ := x % 2 ^ 32

def divideCeil (num den : ℕ) : ℕ := unsigned (num + (den - 1)) / den

inductive MappingType where
  | nonInterleaved
  | interleavedN2
  | interleavedN4
deriving DecidableEq, Repr

def MappingType.toUnsigned : MappingType → ℕ
  | .nonInterleaved => 0
  | .interleavedN2 => 2
  | .interleavedN4 => 4

structure Configuration where
  nofBundles : ℕ
  coresetStart : ℕ
  nofRbs : ℕ
  firstBundleSize : ℕ
  otherBundleSize : ℕ
  lastBundleSize : ℕ
deriving DecidableEq, Repr

def createInterleavedCoreset0 (nStartCoreset nBwpInitSize : ℕ) : Configuration where
  nofBundles := divideCeil nBwpInitSize 2
  coresetStart := nStartCoreset
  nofRbs := nBwpInitSize
  firstBundleSize := 2
  otherBundleSize := 2
  lastBundleSize := if 0 < nBwpInitSize % 2 then nBwpInitSize % 2 else 2

def createInterleavedCommonSs (nStartCoreset nBwpIStart nBwpInitSize : ℕ) : Configuration where
  nofBundles := divideCeil (unsigned (nBwpInitSize + unsigned (nBwpIStart + nStartCoreset) % 2)) 2
  coresetStart := nStartCoreset
  nofRbs := nBwpInitSize
  firstBundleSize := 2 - unsigned (nBwpIStart + nStartCoreset) % 2
  otherBundleSize := 2
  lastBundleSize :=
    let rest := unsigned (nBwpInitSize + nBwpIStart + nStartCoreset) % 2
    if 0 < rest then rest else 2

def createInterleavedOther (nBwpIStart nBwpISize : ℕ) (lI : MappingType) : Option Configuration :=
  let L := lI.toUnsigned
  if L = 2 ∨ L = 4 then
    some
      { nofBundles := divideCeil (unsigned (nBwpISize + nBwpIStart % L)) L
        coresetStart := 0
        nofRbs := nBwpISize
        firstBundleSize := L - nBwpIStart % L
        otherBundleSize := L
        lastBundleSize := let rest := unsigned (nBwpIStart + nBwpISize) % L; if 0 < rest then rest else L }
  else none

/-- the configurations the three creators give for `unsigned` arguments -/
inductive Created : Configuration → Prop where
  | coreset0 (start size : ℕ) (hstart : start < 2 ^ 32) (hsize : size < 2 ^ 32) :
      Created (createInterleavedCoreset0 start size)
  | commonSs (start bwpStart size : ℕ) (hstart : start < 2 ^ 32) (hbwp : bwpStart < 2 ^ 32) (hsize : size < 2 ^ 32) :
      Created (createInterleavedCommonSs start bwpStart size)
  | other (bwpStart size : ℕ) (L : MappingType) (cfg : Configuration) (hbwp : bwpStart < 2 ^ 32) (hsize : size < 2 ^ 32)
      (h : createInterleavedOther bwpStart size L = some cfg) : Created cfg

/-- `std::iota` over the span of `count` indices at `pos`; every index is a `uint16_t` -/
def iota (indices : List ℕ) (pos count value : ℕ) : Option (List ℕ) :=
  if pos + count ≤ indices.length then
    some (indices.mapIdx fun i x => if pos ≤ i ∧ i < pos + count then (value + (i - pos)) % 2 ^ 16 else x)
  else none

/-- one round of the two loops, for column c and row r; the first and the last bundle are skipped -/
def fillBundle (offset nofBundles first other c : ℕ) (indices : List ℕ) (r : ℕ) : Option (List ℕ) :=
  let j := c * 2 + r
  if j = 0 ∨ unsigned (nofBundles + 2 ^ 32 - 2) < j then some indices
  else
    let f_j := r * (nofBundles / 2) + c
    iota indices (unsigned ((j - 1) * other + first)) other (offset + (f_j - 1) * other + first)

def vrbToPrbMapperGetInterleavedPrb (indices : List ℕ) (offset nofBundles first other last : ℕ) :
    Option (List ℕ) := do
  let indices ← iota indices 0 first offset
  let indices ← iota indices (indices.length - last) last (offset + unsigned (nofBundles + 2 ^ 32 - 2) * other + first)
  (range (nofBundles / 2)).foldlM
    (fun indices c => [0, 1].foldlM (fillBundle offset nofBundles first other c) indices) indices

structure InterleavedMapping where
  config : Configuration
  vrbToPrbIndices : List ℕ
  prbToVrbIndices : List ℕ
deriving DecidableEq, Repr

/-- `prb_to_vrb_indices[vrb_to_prb_indices[vrb]] = vrb` -/
def invertAt (vrbToPrbIndices prbToVrbIndices : List ℕ) (vrb : ℕ) : Option (List ℕ) := do
  let prb ← vrbToPrbIndices[vrb]?
  if prb < prbToVrbIndices.length then some (prbToVrbIndices.set prb vrb) else none

def interleavedMapping (config : Configuration) : Option InterleavedMapping := do
  let size := unsigned (config.coresetStart + config.nofRbs)
  if config.nofRbs ≤ MAX_NOF_PRBS ∧ size ≤ MAX_NOF_PRBS ∧ config.nofBundles ≠ 0 then
    let vrbToPrbIndices ← vrbToPrbMapperGetInterleavedPrb (replicate config.nofRbs 0) config.coresetStart
      config.nofBundles config.firstBundleSize config.otherBundleSize config.lastBundleSize
    let prbToVrbIndices ← (range config.nofRbs).foldlM (invertAt vrbToPrbIndices) (replicate size 0)
    some ⟨config, vrbToPrbIndices, prbToVrbIndices⟩
  else none

/-- a half-open interval of resource blocks -/
structure RbInterval where
  start : ℕ
  stop : ℕ
  start_le : start ≤ stop
deriving DecidableEq, Repr

def RbInterval.Has (I : RbInterval) (rb : ℕ) : Prop := I.start ≤ rb ∧ rb < I.stop

def RbInterval.empty : RbInterval := ⟨0, 0, le_rfl⟩

/-- the run of set bits from a set bit on -/
def runFrom (bits : Bits) (start : ℕ) : RbInterval :=
  ⟨start, runEnd bits (start + 1), (le_succ start).trans (le_runEnd bits _)⟩

namespace InterleavedMapping

variable (m : InterleavedMapping)

/-- `config.coreset_start + config.nof_rbs` -/
def stop : ℕ := unsigned (m.config.coresetStart + m.config.nofRbs)

def vrbToPrb (vrb : ℕ) : Option ℕ := if vrb ≤ m.config.nofRbs then m.vrbToPrbIndices[vrb]? else none

def prbToVrb (prb : ℕ) : Option ℕ :=
  if m.config.coresetStart ≤ prb ∧ prb ≤ m.stop then m.prbToVrbIndices[prb]? else none

/-- the first two runs of set bits. With no bit set the source asserts on the interval [-1, 0) -/
def firstTwoRuns (bits : Bits) : Option (RbInterval × RbInterval) := do
  match ← findLowest bits 0 bits.length true with
  | none => none
  | some start₁ =>
    let first := runFrom bits start₁
    if first.stop = bits.length then some (first, .empty)
    else
      match ← findLowest bits first.stop bits.length true with
      | none => some (first, .empty)
      | some start₂ => some (first, runFrom bits start₂)

def vrbToPrbInterval (vrbs : RbInterval) : Option (RbInterval × RbInterval) :=
  if vrbs.start = vrbs.stop then some (.empty, .empty)
  else do
    let bits ← make MAX_NOF_PRBS m.stop
    let bits ← setEach m.vrbToPrb bits (range' vrbs.start (vrbs.stop - vrbs.start))
    firstTwoRuns bits

def vrbToPrbBitmap (bwpSize : ℕ) (vrbs : Bits) : Option Bits :=
  if vrbs.length ≤ m.config.nofRbs ∧ m.stop ≤ bwpSize then do
    let prbs ← make MAX_NOF_PRBS bwpSize
    setEach m.vrbToPrb prbs (positions vrbs 0 vrbs.length)
  else none

def prbToVrbBitmap (prbs : Bits) : Option Bits :=
  if prbs.length = m.stop ∧ InRange prbs 0 m.config.coresetStart ∧ ∀ i < m.config.coresetStart, ¬ On prbs i then do
    let vrbs ← make MAX_NOF_PRBS m.config.nofRbs
    setEach m.prbToVrb vrbs (positions prbs 0 prbs.length)
  else none

def vrbToCrb (bwpStart bwpSize : ℕ) (vrbs : Bits) : Option Bits :=
  if vrbs.length ≤ m.config.nofRbs ∧ m.stop ≤ bwpSize then do
    let crbs ← make MAX_NOF_PRBS (unsigned (bwpStart + bwpSize))
    setEach (fun vrb => (m.vrbToPrb vrb).map fun prb => unsigned (bwpStart + prb)) crbs (positions vrbs 0 vrbs.length)
  else none

def vrbToCrbIndices (bwpStart bwpSize : ℕ) (vrbs : Bits) : Option (List ℕ) := do
  let _ ← make MAX_NOF_PRBS (unsigned (bwpStart + bwpSize))
  let result ← (positions vrbs 0 vrbs.length).mapM fun vrb => (m.vrbToPrb vrb).map fun prb => (bwpStart + prb) % 2 ^ 16
  if result.length ≤ MAX_NOF_PRBS then some result else none

end InterleavedMapping

/-! ## The bundles of a configuration -/

/-- the configuration cuts its blocks the way B does -/
structure Cuts (cfg : Configuration) (B : Bundles) : Prop where
  count : B.count = cfg.nofBundles
  first : B.first = cfg.firstBundleSize
  other : B.other = cfg.otherBundleSize
  last : B.last = cfg.lastBundleSize
  size : B.size = cfg.nofRbs
  start_lt : cfg.coresetStart < 2 ^ 32

/-- the blocks fill units of L blocks after x blocks that stand before the first one; with two bundles nothing wraps -/
theorem exists_cuts (cfg : Configuration) (x : ℕ) (hL : cfg.otherBundleSize = 2 ∨ cfg.otherBundleSize = 4)
    (hx : x < cfg.otherBundleSize) (hn : cfg.nofRbs < 2 ^ 32) (hstart : cfg.coresetStart < 2 ^ 32)
    (hbundles : cfg.nofBundles = divideCeil (unsigned (cfg.nofRbs + x)) cfg.otherBundleSize)
    (hfirst : cfg.firstBundleSize = cfg.otherBundleSize - x) (hlast : cfg.lastBundleSize =
      if 0 < (cfg.nofRbs + x) % cfg.otherBundleSize then (cfg.nofRbs + x) % cfg.otherBundleSize
      else cfg.otherBundleSize) (h2 : 2 ≤ cfg.nofBundles) : ∃ B, Cuts cfg B := by
  obtain ⟨N, start, n, F, L, last⟩ := cfg
  dsimp only at *
  unfold divideCeil unsigned at hbundles
  have hwidth : (0 < last ∧ last ≤ L) ∧ F + (N - 2) * L + last = n := by
    rcases hL with rfl | rfl <;> split_ifs at hlast <;> omega
  exact ⟨⟨N, F, L, last, h2, by omega, by omega, hwidth.1.1, hwidth.1.2⟩, rfl, rfl, rfl, rfl, hwidth.2, hstart⟩

theorem Created.cuts {cfg : Configuration} (h : Created cfg) (h2 : 2 ≤ cfg.nofBundles) : ∃ B, Cuts cfg B := by
  cases h with
  | coreset0 start size hstart hsize =>
    have hsame : unsigned (size + 0) = size := mod_eq_of_lt hsize
    exact exists_cuts _ 0 (.inl rfl) two_pos hsize hstart (congrArg (divideCeil · 2) hsame.symm) rfl rfl h2
  | commonSs start bwpStart size hstart hbwp hsize =>
    have hrest : unsigned (size + bwpStart + start) % 2 = (size + unsigned (bwpStart + start) % 2) % 2 := by
      unfold unsigned
      omega
    exact exists_cuts _ (unsigned (bwpStart + start) % 2) (.inl rfl) (mod_lt _ two_pos) hsize hstart rfl rfl
      (congrArg (fun rest => if 0 < rest then rest else 2) hrest) h2
  | other bwpStart size L _ hbwp hsize h =>
    have hrest : ∀ L, L ∣ 2 ^ 32 → unsigned (bwpStart + size) % L = (size + bwpStart % L) % L := by
      intro L hL
      rw [unsigned, mod_mod_of_dvd _ hL, add_comm, add_mod_mod]
    cases L with
    | nonInterleaved => simp [createInterleavedOther, MappingType.toUnsigned] at h
    | interleavedN2 =>
      obtain rfl := some.inj h
      exact exists_cuts _ (bwpStart % 2) (.inl rfl) (Nat.mod_lt _ (by decide : 0 < 2)) hsize (Nat.two_pow_pos 32) rfl
        rfl
        (congrArg (fun rest => if 0 < rest then rest else 2) (hrest 2 (by decide))) h2
    | interleavedN4 =>
      obtain rfl := some.inj h
      exact exists_cuts _ (bwpStart % 4) (.inr rfl) (Nat.mod_lt _ (by decide : 0 < 4)) hsize (Nat.two_pow_pos 32) rfl
        rfl
        (congrArg (fun rest => if 0 < rest then rest else 4) (hrest 4 (by decide))) h2

/-! ## The tables -/

section

variable {B : Bundles} {offset j k c r : ℕ} {indices : List ℕ} {P : ℕ → Prop}

/-- the bundles that satisfy P hold their PRBs -/
structure Filled (B : Bundles) (offset : ℕ) (P : ℕ → Prop) (indices : List ℕ) : Prop where
  length : indices.length = B.size
  get : ∀ j < B.count, P j → ∀ o < B.width j,
    indices[B.start j + o]? = some ((offset + B.start (interleave B.count j) + o) % 2 ^ 16)

theorem Filled.mono {Q : ℕ → Prop} (h : Filled B offset P indices) (hQ : ∀ j < B.count, Q j → P j) :
    Filled B offset Q indices := ⟨h.length, fun j hj hq => h.get j hj (hQ j hj hq)⟩

/-- bundle j is filled and no other one is touched -/
theorem iota_bundle (h : Filled B offset P indices) (hj : j < B.count) :
    ∃ indices', iota indices (B.start j) (B.width j) (offset + B.start (interleave B.count j)) = some indices' ∧
      Filled B offset (fun k => k = j ∨ P k) indices' := by
  have hend : B.start j + B.width j ≤ indices.length := by
    rw [h.length]
    exact B.start_add_width_le_size hj
  refine ⟨_, if_pos hend, by rw [length_mapIdx, h.length], fun k hk hkj o ho => ?_⟩
  rw [getElem?_mapIdx]
  rcases lt_trichotomy k j with hlt | rfl | hgt
  · -- a bundle before j
    have hbefore := start_add_lt_start ho hlt
    rw [h.get k hk (hkj.resolve_left hlt.ne) o ho, map_some, if_neg (by omega)]
  · have hin : B.start k + o < indices.length := by omega
    rw [getElem?_eq_getElem hin, map_some, if_pos (by omega), Nat.add_sub_cancel_left]
  · have hafter : B.start j + B.width j ≤ B.start k :=
      (B.start_add_width_le j).trans (start_mono hgt)
    rw [h.get k hk (hkj.resolve_left hgt.ne') o ho, map_some, if_neg (by omega)]

theorem unsigned_count (hlt : B.size < 2 ^ 32) : unsigned (B.count + 2 ^ 32 - 2) = B.count - 2 := by
  have h2 := B.two_le
  have hcount := B.count_le_size
  unfold unsigned
  omega

/-- one round fills its bundle; the two bundles it skips were filled before the loops -/
theorem fillBundle_spec (hlt : B.size < 2 ^ 32) (hc : c < B.count / 2) (hr : r < 2) (h : Filled B offset P indices)
    (hfirst : P 0) (hlast : P (B.count - 1)) :
    ∃ indices', fillBundle offset B.count B.first B.other c indices r = some indices' ∧
      Filled B offset (fun k => k = c * 2 + r ∨ P k) indices' := by
  obtain ⟨j, hj⟩ : ∃ j, j = c * 2 + r := ⟨_, rfl⟩
  have hjlt : j < B.count := by omega
  simp only [fillBundle, unsigned_count hlt, ← hj]
  split_ifs with hskip
  · refine ⟨indices, rfl, h.mono ?_⟩
    rintro k - (rfl | hk)
    · rcases hskip with h0 | hend
      · rwa [h0]
      · rwa [show k = B.count - 1 by omega]
    · exact hk
  · obtain ⟨i, rfl⟩ : ∃ i, j = i + 1 := exists_eq_succ_of_ne_zero fun h0 => hskip (.inl h0)
    have hne : i + 1 + 1 ≠ B.count := by omega
    have hwidth : B.width (i + 1) = B.other := by rw [width, if_neg (succ_ne_zero i), if_neg hne]
    have hpos : unsigned ((i + 1 - 1) * B.other + B.first) = B.start (i + 1) := by
      have hsize := B.start_add_width_le_size hjlt
      rw [start_succ] at hsize ⊢
      rw [unsigned, Nat.add_sub_cancel, Nat.mod_eq_of_lt (by omega), Nat.add_comm]
    have hto : r * (B.count / 2) + c = interleave B.count (i + 1) := by
      rw [Core.interleave, if_neg hne, show (i + 1) % 2 = r by omega, show (i + 1) / 2 = c by omega]
    obtain ⟨q, hq⟩ : ∃ q, r * (B.count / 2) + c = q + 1 := by
      apply exists_eq_succ_of_ne_zero
      rcases Nat.lt_succ_iff_lt_or_eq.1 hr with hr0 | rfl
      · omega
      · omega
    have hvalue : offset + (r * (B.count / 2) + c - 1) * B.other + B.first =
        offset + B.start (interleave B.count (i + 1)) := by
      rw [← hto, hq, start_succ, Nat.add_sub_cancel]
      omega
    rw [hpos, hvalue, ← hwidth]
    exact iota_bundle h hjlt

/-- after k columns the first 2 k bundles are filled -/
theorem fillColumns_spec (hlt : B.size < 2 ^ 32) (h : Filled B offset P indices) (hfirst : P 0)
    (hlast : P (B.count - 1)) (hk : k ≤ B.count / 2) : ∃ indices', (range k).foldlM
        (fun indices c => [0, 1].foldlM (fillBundle offset B.count B.first B.other c) indices) indices = some indices' ∧
      Filled B offset (fun j => j < 2 * k ∨ P j) indices' := by
  induction k with
  | zero => exact ⟨indices, by simp, h.mono fun j _ hj => hj.resolve_left (not_lt_zero j)⟩
  | succ k ih =>
    have hk' : k < B.count / 2 := hk
    obtain ⟨indices₁, hrun, h₁⟩ := ih hk'.le
    obtain ⟨indices₂, hrow₀, h₂⟩ := fillBundle_spec hlt hk' two_pos h₁ (.inr hfirst) (.inr hlast)
    obtain ⟨indices₃, hrow₁, h₃⟩ := fillBundle_spec hlt hk' one_lt_two h₂ (.inr (.inr hfirst))
      (.inr (.inr hlast))
    refine ⟨indices₃, ?_, h₃.mono fun j _ hj => ?_⟩
    · rw [range_succ, foldlM_append, hrun]
      simp only [Option.bind_eq_bind, Option.bind_some, foldlM_cons, foldlM_nil]
      rw [hrow₀, Option.bind_some, hrow₁]
      simp only [Option.bind_some, Option.pure_def]
    · rcases hj with hj | hj
      · omega
      · exact .inr (.inr (.inr hj))

/-- the table of the PRBs holds the interleaver -/
theorem getInterleavedPrb_spec (hlt : B.size < 2 ^ 32) (offset : ℕ) :
    ∃ indices, vrbToPrbMapperGetInterleavedPrb (replicate B.size 0) offset B.count B.first B.other B.last =
        some indices ∧
      indices.length = B.size ∧ ∀ i < B.size, indices[i]? = some ((offset + B.forward i) % 2 ^ 16) := by
  have h2 := B.two_le
  have h₀ : Filled B offset (fun _ => False) (replicate B.size 0) := ⟨length_replicate, fun _ _ h => h.elim⟩
  obtain ⟨indices₁, hfirst, h₁⟩ := iota_bundle h₀ (by omega : 0 < B.count)
  obtain ⟨indices₂, hlast, h₂⟩ := iota_bundle h₁ (by omega : B.count - 1 < B.count)
  obtain ⟨indices, hrun, h⟩ := fillColumns_spec hlt h₂ (.inr (.inl rfl)) (.inl rfl) le_rfl
  rw [interleave_zero, start_zero, width_zero, add_zero] at hfirst
  have hstay : interleave B.count (B.count - 1) = B.count - 1 := if_pos (by omega)
  have hpos : indices₁.length - B.last = B.start (B.count - 1) := by
    rw [h₁.length, ← start_last_add_last, Nat.add_sub_cancel]
  have hvalue : offset + unsigned (B.count + 2 ^ 32 - 2) * B.other + B.first = offset + B.start (B.count - 1) := by
    rw [unsigned_count hlt, start_last]
    omega
  rw [hstay, width_last] at hlast
  refine ⟨indices, ?_, h.length, fun i hi => ?_⟩
  · simp only [vrbToPrbMapperGetInterleavedPrb, hfirst, bind_eq_bind, bind_some, hpos, hvalue, hlast]
    exact hrun
  · obtain ⟨j, hj, o, ho, rfl⟩ := exists_offset hi
    rw [h.get j hj (by omega) o ho, forward_start_add ho, add_assoc]

theorem forward_inj {v w : ℕ} (hv : v < B.size) (hw : w < B.size) (h : B.forward v = B.forward w) : v = w := by
  rw [← backward_forward hv, h, backward_forward hw]

/-- after k VRBs the second table leads back from the PRBs of each of them -/
theorem invert_spec {start : ℕ} (hget : ∀ v < B.size, indices[v]? = some (start + B.forward v)) (hk : k ≤ B.size) :
    ∃ table, (range k).foldlM (invertAt indices) (replicate (start + B.size) 0) = some table ∧
      table.length = start + B.size ∧ ∀ v < k, table[start + B.forward v]? = some v := by
  induction k with
  | zero => exact ⟨_, rfl, length_replicate, fun v hv => absurd hv (not_lt_zero v)⟩
  | succ k ih =>
    obtain ⟨table, hrun, hlen, hinv⟩ := ih (by omega)
    have hlt : start + B.forward k < table.length := by
      rw [hlen]
      exact Nat.add_lt_add_left (forward_lt hk) start
    have hstep : invertAt indices table k = some (table.set (start + B.forward k) k) := by
      simp [invertAt, hget k hk, hlt]
    refine ⟨table.set (start + B.forward k) k, ?_, length_set.trans hlen, fun v hv => ?_⟩
    · rw [range_succ, foldlM_append, hrun]
      simp [hstep]
    · rcases Nat.lt_succ_iff_lt_or_eq.1 hv with hlt' | rfl
      · have hne : start + B.forward k ≠ start + B.forward v := by
          intro h
          have := forward_inj hk (by omega) (add_left_cancel h)
          omega
        rw [getElem?_set_ne hne]
        exact hinv v hlt'
      · exact getElem?_set_self hlt

end

/-- the tables of the mapping hold the two maps of the interleaver -/
structure Holds (m : InterleavedMapping) (B : Bundles) : Prop where
  size : B.size = m.config.nofRbs
  fits : m.config.coresetStart + m.config.nofRbs ≤ MAX_NOF_PRBS
  vrbToPrb_eq : ∀ v, m.vrbToPrb v = if v < m.config.nofRbs then some (m.config.coresetStart + B.forward v) else none
  prbToVrb_eq : ∀ p, m.prbToVrb p =
    if m.config.coresetStart ≤ p ∧ p < m.config.coresetStart + m.config.nofRbs then
      some (B.backward (p - m.config.coresetStart))
    else none

section

variable {cfg : Configuration} {B : Bundles} {m : InterleavedMapping}

theorem unsigned_of_le {x : ℕ} (h : x ≤ MAX_NOF_PRBS) : unsigned x = x := by
  have hlt : x < 2 ^ 32 := lt_of_le_of_lt h (by decide)
  rw [unsigned, mod_eq_of_lt hlt]

theorem interleavedMapping_of_fits (h : Cuts cfg B) (hfits : cfg.coresetStart + cfg.nofRbs ≤ MAX_NOF_PRBS) :
    ∃ m, interleavedMapping cfg = some m ∧ m.config = cfg ∧ Holds m B := by
  have hmax : MAX_NOF_PRBS = 275 := rfl
  have hsize := h.size
  have h2 := B.two_le
  have hcount := h.count
  obtain ⟨indices, hfill, hlen, hget⟩ := getInterleavedPrb_spec (by omega : B.size < 2 ^ 32) cfg.coresetStart
  have hget' : ∀ v < B.size, indices[v]? = some (cfg.coresetStart + B.forward v) := by
    intro v hv
    have := forward_lt hv
    rw [hget v hv, mod_eq_of_lt (by omega)]
  obtain ⟨table, hinvert, htable, hinv⟩ := invert_spec hget' le_rfl
  rw [hsize] at hfill hinvert htable hinv hlen
  rw [h.count, h.first, h.other, h.last] at hfill
  have hstop : unsigned (cfg.coresetStart + cfg.nofRbs) = cfg.coresetStart + cfg.nofRbs := unsigned_of_le hfits
  refine ⟨⟨cfg, indices, table⟩, ?_, rfl, hsize, hfits, fun v => ?_, fun p => ?_⟩
  · rw [interleavedMapping]
    simp only [hstop]
    rw [if_pos ⟨by omega, hfits, by omega⟩, hfill]
    simp [hinvert]
  · rw [InterleavedMapping.vrbToPrb]
    dsimp only
    split_ifs with hle hlt
    · exact hget' v (by omega)
    · exact getElem?_eq_none (by omega)
    · omega
    · rfl
  · rw [InterleavedMapping.prbToVrb, InterleavedMapping.stop]
    dsimp only
    rw [hstop]
    split_ifs with hle hlt
    · have hp : p - cfg.coresetStart < B.size := by omega
      have hback := hinv _ (hsize ▸ backward_lt hp)
      rwa [forward_backward hp, Nat.add_sub_cancel' hle.1] at hback
    · exact getElem?_eq_none (by omega)
    · omega
    · rfl

/-- a CORESET start so large that the sum wraps leaves the first index outside the second table -/
theorem fits_of_interleavedMapping (h : Cuts cfg B) (hm : interleavedMapping cfg = some m) :
    cfg.coresetStart + cfg.nofRbs ≤ MAX_NOF_PRBS := by
  have hmax : MAX_NOF_PRBS = 275 := rfl
  have hsize := h.size
  have hstart := h.start_lt
  by_contra hfits
  rw [interleavedMapping] at hm
  split_ifs at hm with hbounds
  obtain ⟨hn, hstop, -⟩ := hbounds
  obtain ⟨indices, hfill, hlen, hget⟩ := getInterleavedPrb_spec (by omega : B.size < 2 ^ 32) cfg.coresetStart
  rw [h.size, h.count, h.first, h.other, h.last] at hfill
  rw [hfill, bind_eq_bind, bind_some] at hm
  unfold unsigned at hstop hm
  have hzero : indices[0]? = some (cfg.coresetStart % 2 ^ 16) := by
    rw [hget 0 (by omega), forward_zero, add_zero]
  have hout : invertAt indices (replicate ((cfg.coresetStart + cfg.nofRbs) % 2 ^ 32) 0) 0 = none := by
    simp only [invertAt, hzero, bind_eq_bind, bind_some, length_replicate]
    exact if_neg (by omega)
  obtain ⟨n, hn1⟩ : ∃ n, cfg.nofRbs = n + 1 := exists_eq_succ_of_ne_zero (by omega)
  rw [hn1, range_succ_eq_map, foldlM_cons, ← hn1, hout] at hm
  simp at hm

/-! ## Conversions -/

/-- `vrbToPrb` is one-to-one from [0, nof_rbs) onto [coreset_start, coreset_start + nof_rbs) and `prbToVrb` undoes it -/
structure Bijective (m : InterleavedMapping) : Prop where
  bijOn : Set.BijOn m.vrbToPrb (Set.Iio m.config.nofRbs)
    (some '' Set.Ico m.config.coresetStart (m.config.coresetStart + m.config.nofRbs))
  inverse : ∀ v p, m.vrbToPrb v = some p ↔ m.prbToVrb p = some v

/-- for arguments that meet its assertions, every conversion of a bitmap gives the image under the lookups -/
structure Images (m : InterleavedMapping) : Prop where
  prbs : ∀ bwpSize vrbs, vrbs.length ≤ m.config.nofRbs → m.config.coresetStart + m.config.nofRbs ≤ bwpSize →
    bwpSize ≤ MAX_NOF_PRBS →
    ∃ prbs, m.vrbToPrbBitmap bwpSize vrbs = some prbs ∧ prbs.length = bwpSize ∧
      ∀ p, On prbs p ↔ ∃ v, On vrbs v ∧ m.vrbToPrb v = some p
  vrbs : ∀ prbs, prbs.length = m.config.coresetStart + m.config.nofRbs → (∀ p < m.config.coresetStart, ¬ On prbs p) →
    ∃ vrbs, m.prbToVrbBitmap prbs = some vrbs ∧ vrbs.length = m.config.nofRbs ∧
      ∀ v, On vrbs v ↔ ∃ p, On prbs p ∧ m.prbToVrb p = some v
  crbs : ∀ bwpStart bwpSize vrbs, vrbs.length ≤ m.config.nofRbs →
    m.config.coresetStart + m.config.nofRbs ≤ bwpSize → bwpStart + bwpSize ≤ MAX_NOF_PRBS →
    ∃ crbs, m.vrbToCrb bwpStart bwpSize vrbs = some crbs ∧ crbs.length = bwpStart + bwpSize ∧
      ∀ c, On crbs c ↔ ∃ v p, On vrbs v ∧ m.vrbToPrb v = some p ∧ c = bwpStart + p
  crbIndices : ∀ bwpStart bwpSize vrbs, vrbs.length ≤ m.config.nofRbs → bwpStart + bwpSize ≤ MAX_NOF_PRBS →
    ∃ crbs, m.vrbToCrbIndices bwpStart bwpSize vrbs = some crbs ∧
      List.Forall₂ (fun v c => ∃ p, m.vrbToPrb v = some p ∧ c = bwpStart + p) (positions vrbs 0 vrbs.length) crbs

/-- the two PRB intervals of every VRB interval cover exactly its image -/
def CoversIntervals (m : InterleavedMapping) : Prop :=
  ∀ I : RbInterval, I.stop ≤ m.config.nofRbs →
    ∃ first second, m.vrbToPrbInterval I = some (first, second) ∧
      ∀ p, (first.Has p ∨ second.Has p) ↔ ∃ v, I.Has v ∧ m.vrbToPrb v = some p

theorem Holds.stop_eq (h : Holds m B) : m.stop = m.config.coresetStart + m.config.nofRbs := unsigned_of_le h.fits

theorem Holds.vrbToPrb_of_lt (h : Holds m B) {v : ℕ} (hv : v < m.config.nofRbs) :
    m.vrbToPrb v = some (m.config.coresetStart + B.forward v) ∧
      m.config.coresetStart + B.forward v < m.config.coresetStart + m.config.nofRbs := by
  refine ⟨by rw [h.vrbToPrb_eq, if_pos hv], Nat.add_lt_add_left ?_ _⟩
  rw [← h.size] at hv ⊢
  exact forward_lt hv

/-- a PRB is the image of a VRB exactly if the way back leads to it -/
theorem Holds.vrbToPrb_eq_some (h : Holds m B) {v p : ℕ} :
    m.vrbToPrb v = some p ↔ (m.config.coresetStart ≤ p ∧ p < m.config.coresetStart + m.config.nofRbs) ∧
      B.backward (p - m.config.coresetStart) = v := by
  have hsize := h.size
  rw [h.vrbToPrb_eq]
  constructor
  · intro hv
    split_ifs at hv with hlt
    obtain rfl := some.inj hv
    have hlt' : v < B.size := by omega
    have hf := forward_lt hlt'
    refine ⟨by omega, ?_⟩
    rw [Nat.add_sub_cancel_left, backward_forward hlt']
  · rintro ⟨⟨hle, hlt⟩, rfl⟩
    have hp : p - m.config.coresetStart < B.size := by omega
    rw [if_pos (hsize ▸ backward_lt hp), forward_backward hp, Nat.add_sub_cancel' hle]

theorem Holds.inverse (h : Holds m B) (v p : ℕ) : m.vrbToPrb v = some p ↔ m.prbToVrb p = some v := by
  rw [h.vrbToPrb_eq_some, h.prbToVrb_eq]
  split_ifs with hp
  · simp [hp]
  · simp [hp]

theorem Holds.bijective (h : Holds m B) : Bijective m := by
  refine ⟨⟨?_, ?_, ?_⟩, h.inverse⟩
  · intro v hv
    obtain ⟨heq, hlt⟩ := h.vrbToPrb_of_lt hv
    exact ⟨_, ⟨Nat.le_add_right .., hlt⟩, heq.symm⟩
  · intro v hv w hw hvw
    obtain ⟨p, hp⟩ : ∃ p, m.vrbToPrb v = some p := ⟨_, (h.vrbToPrb_of_lt hv).1⟩
    have hback := (h.inverse v p).1 hp
    have hback' := (h.inverse w p).1 (hvw ▸ hp)
    exact some.inj (hback.symm.trans hback')
  · rintro _ ⟨p, hp, rfl⟩
    have heq := h.vrbToPrb_eq_some.2 ⟨hp, rfl⟩
    refine ⟨_, ?_, heq⟩
    by_contra hge
    rw [h.vrbToPrb_eq, if_neg (Set.notMem_Iio.1 hge).not_gt] at heq
    exact nomatch heq

/-- the bits that the set bits of a bitmap are sent to, set in an empty one -/
theorem image_of_bits {g : ℕ → Option ℕ} {bits : Bits} {n : ℕ} (h : ∀ v, On bits v → ∃ q, g v = some q ∧ q < n) :
    ∃ image, setEach g (replicate n false) (positions bits 0 bits.length) = some image ∧ image.length = n ∧
      ∀ i, On image i ↔ ∃ v, On bits v ∧ g v = some i := by
  have hin : ∀ v ∈ positions bits 0 bits.length, ∃ q, g v = some q ∧ q < (replicate n false).length := by
    intro v hv
    rw [length_replicate]
    exact h v (mem_positions.1 hv).2.2
  obtain ⟨image, heq, hlen, hon⟩ := setEach_spec g _ hin
  refine ⟨image, heq, hlen.trans length_replicate, fun i => ?_⟩
  rw [hon]
  constructor
  · rintro (hno | ⟨v, hv, hgv⟩)
    · exact absurd hno not_on_replicate
    · exact ⟨v, (mem_positions.1 hv).2.2, hgv⟩
  · rintro ⟨v, hv, hgv⟩
    exact .inr ⟨v, mem_positions.2 ⟨zero_le _, hv.lt, hv⟩, hgv⟩

theorem make_of_le {n : ℕ} (h : n ≤ MAX_NOF_PRBS) : make MAX_NOF_PRBS n = some (replicate n false) := if_pos h

theorem Holds.images (h : Holds m B) : Images m := by
  have hmax : MAX_NOF_PRBS = 275 := rfl
  have hfits := h.fits
  constructor
  case prbs =>
    intro bwpSize vrbs hlen hbwp hle
    obtain ⟨prbs, heq, hspec⟩ := image_of_bits (n := bwpSize) fun v (hv : On vrbs v) =>
      have hp := h.vrbToPrb_of_lt (hv.lt.trans_le hlen)
      ⟨_, hp.1, hp.2.trans_le hbwp⟩
    refine ⟨prbs, ?_, hspec⟩
    rw [InterleavedMapping.vrbToPrbBitmap, if_pos ⟨hlen, h.stop_eq.trans_le hbwp⟩, make_of_le hle]
    exact heq
  case vrbs =>
    intro prbs hlen hnone
    obtain ⟨vrbs, heq, hspec⟩ := image_of_bits (n := m.config.nofRbs) fun p (hp : On prbs p) => by
      have hlt := hp.lt
      have hle : m.config.coresetStart ≤ p := by
        by_contra hcon
        exact hnone p (not_le.1 hcon) hp
      obtain ⟨v, hv, hvp⟩ := h.bijective.bijOn.surjOn ⟨p, ⟨hle, by omega⟩, rfl⟩
      exact ⟨v, (h.inverse v p).1 hvp, hv⟩
    refine ⟨vrbs, ?_, hspec⟩
    rw [InterleavedMapping.prbToVrbBitmap,
      if_pos ⟨hlen.trans h.stop_eq.symm, ⟨zero_le _, by omega⟩, hnone⟩, make_of_le (by omega)]
    exact heq
  case crbs =>
    intro bwpStart bwpSize vrbs hlen hbwp hle
    obtain ⟨crbs, heq, hlen', hon⟩ := image_of_bits (n := bwpStart + bwpSize)
      (g := fun v => (m.vrbToPrb v).map fun prb => unsigned (bwpStart + prb)) fun v (hv : On vrbs v) => by
        obtain ⟨hp, hlt⟩ := h.vrbToPrb_of_lt (hv.lt.trans_le hlen)
        refine ⟨_, by rw [hp, map_some], ?_⟩
        rw [unsigned_of_le (by omega)]
        omega
    refine ⟨crbs, ?_, hlen', fun c => ?_⟩
    · rw [InterleavedMapping.vrbToCrb, if_pos ⟨hlen, h.stop_eq.trans_le hbwp⟩, unsigned_of_le hle, make_of_le hle]
      exact heq
    · rw [hon]
      apply exists_congr
      intro v
      constructor
      · rintro ⟨hv, hc⟩
        obtain ⟨p, hp, hpc⟩ := map_eq_some_iff.1 hc
        have hlt := (h.vrbToPrb_eq_some.1 hp).1.2
        rw [unsigned_of_le (by omega)] at hpc
        exact ⟨p, hv, hp, hpc.symm⟩
      · rintro ⟨p, hv, hp, rfl⟩
        have hlt := (h.vrbToPrb_eq_some.1 hp).1.2
        rw [hp, map_some, unsigned_of_le (by omega)]
        exact ⟨hv, rfl⟩
  case crbIndices =>
    intro bwpStart bwpSize vrbs hlen hle
    obtain ⟨crbs, heq, hspec⟩ := ExceptFold.mapM_of_forall
      (g := fun v => (m.vrbToPrb v).map fun prb => (bwpStart + prb) % 2 ^ 16)
      (R := fun v c => ∃ p, m.vrbToPrb v = some p ∧ c = bwpStart + p) (positions vrbs 0 vrbs.length) fun v hv => by
        obtain ⟨hp, hlt⟩ := h.vrbToPrb_of_lt ((mem_positions.1 hv).2.1.trans_le hlen)
        refine ⟨_, by rw [hp, map_some], _, hp, mod_eq_of_lt (by omega)⟩
    have hshort : crbs.length ≤ MAX_NOF_PRBS := by
      rw [← hspec.length_eq, positions]
      refine (length_filter_le ..).trans ?_
      rw [length_range']
      omega
    refine ⟨crbs, ?_, hspec⟩
    simp only [InterleavedMapping.vrbToCrbIndices, unsigned_of_le hle, make_of_le hle, heq, bind_eq_bind,
      bind_some, if_pos hshort]

/-- bits that are order-convex on either side of some index are covered by the two runs -/
theorem firstTwoRuns_spec {bits : Bits} (mid : ℕ) {p₀ : ℕ} (hne : On bits p₀)
    (hconv : ∀ x y z, x < y → y < z → (z < mid ∨ mid ≤ x) → On bits x → On bits z → On bits y) :
    ∃ first second, InterleavedMapping.firstTwoRuns bits = some (first, second) ∧
      ∀ p, (first.Has p ∨ second.Has p) ↔ On bits p := by
  have hrun : ∀ {s p}, On bits s → (runFrom bits s).Has p → On bits p := fun hs hp => on_of_run hs hp.1 hp.2
  have hempty : ∀ p, ¬ RbInterval.empty.Has p := fun p hp => not_lt_zero p hp.2
  obtain ⟨r₁, h₁⟩ := findLowest_isSome (v := true) (⟨zero_le _, le_rfl⟩ : InRange bits 0 bits.length)
  unfold InterleavedMapping.firstTwoRuns
  rw [h₁]
  cases r₁ with
  | none => exact absurd hne (findLowest_none h₁ p₀ (zero_le _) hne.lt)
  | some s₁ =>
    obtain ⟨-, hs₁, hon₁, hlow₁⟩ := findLowest_some h₁
    have hge : ∀ p, On bits p → s₁ ≤ p := fun p hp => not_lt.1 fun hlt => hlow₁ p (zero_le _) hlt hp
    dsimp only [bind_eq_bind, bind_some]
    split_ifs with hend
    · refine ⟨_, _, rfl, fun p => ⟨fun hp => hrun hon₁ (hp.resolve_right (hempty p)), fun hp => .inl ⟨hge p hp, ?_⟩⟩⟩
      rw [hend]
      exact hp.lt
    · have hr : InRange bits (runFrom bits s₁).stop bits.length := ⟨runEnd_le hs₁, le_rfl⟩
      obtain ⟨r₂, h₂⟩ := findLowest_isSome (v := true) hr
      rw [h₂]
      cases r₂ with
      | none =>
        refine ⟨_, _, rfl, fun p => ⟨fun hp => hrun hon₁ (hp.resolve_right (hempty p)), fun hp => .inl ⟨hge p hp, ?_⟩⟩⟩
        by_contra hout
        exact findLowest_none h₂ p (not_lt.1 hout) hp.lt hp
      | some s₂ =>
        obtain ⟨-, -, hon₂, -⟩ := findLowest_some h₂
        refine ⟨_, _, rfl, fun p => ⟨?_, fun hp => two_runs hconv h₁ h₂ hp⟩⟩
        rintro (hp | hp)
        · exact hrun hon₁ hp
        · exact hrun hon₂ hp

theorem Holds.coversIntervals (h : Holds m B) : CoversIntervals m := by
  intro I hstop
  have hsize := h.size
  rw [InterleavedMapping.vrbToPrbInterval]
  split_ifs with hempty
  · refine ⟨_, _, rfl, fun p => ⟨?_, ?_⟩⟩
    · rintro (hp | hp) <;> exact absurd hp.2 (not_lt_zero p)
    · rintro ⟨v, hv, -⟩
      exact absurd (hv.1.trans_lt hv.2) (by omega)
  · have hle := I.start_le
    have hmem : ∀ v, v ∈ range' I.start (I.stop - I.start) ↔ I.Has v := by
      intro v
      rw [mem_range'_1, Nat.add_sub_cancel' hle]
      rfl
    obtain ⟨bits, heq, -, hon⟩ := setEach_spec m.vrbToPrb (b := replicate m.stop false)
      (range' I.start (I.stop - I.start)) fun v hv => by
        obtain ⟨hp, hlt⟩ := h.vrbToPrb_of_lt (((hmem v).1 hv).2.trans_le hstop)
        exact ⟨_, hp, by rwa [length_replicate, h.stop_eq]⟩
    -- a bit is set if the way back from it ends inside the interval
    have himage : ∀ p, On bits p ↔ ∃ v, I.Has v ∧ m.vrbToPrb v = some p := by
      intro p
      rw [hon]
      simp [hmem]
    have hback : ∀ p, On bits p ↔
        (m.config.coresetStart ≤ p ∧ p < m.config.coresetStart + m.config.nofRbs) ∧
          I.Has (B.backward (p - m.config.coresetStart)) := by
      intro p
      rw [himage]
      constructor
      · rintro ⟨v, hv, hvp⟩
        obtain ⟨hp, rfl⟩ := h.vrbToPrb_eq_some.1 hvp
        exact ⟨hp, hv⟩
      · rintro ⟨hp, hv⟩
        exact ⟨_, hv, h.vrbToPrb_eq_some.2 ⟨hp, rfl⟩⟩
    obtain ⟨hfirst, -⟩ := h.vrbToPrb_of_lt (by omega : I.start < m.config.nofRbs)
    have hne : On bits (m.config.coresetStart + B.forward I.start) :=
      (himage _).2 ⟨I.start, ⟨le_rfl, by omega⟩, hfirst⟩
    obtain ⟨first, second, hruns, hcover⟩ := firstTwoRuns_spec (m.config.coresetStart + B.middle) hne (by
      intro x y z hxy hyz hside hx hz
      rw [hback] at hx hz ⊢
      obtain ⟨hx, hxI⟩ := hx
      obtain ⟨hz, hzI⟩ := hz
      refine ⟨by omega, ?_⟩
      exact backward_mem_of_between (by omega) (by omega) (by omega : z - m.config.coresetStart < B.size)
        (by omega) hxI.1 hzI.2)
    refine ⟨first, second, ?_, fun p => (hcover p).trans (himage p)⟩
    have hfits : m.stop ≤ MAX_NOF_PRBS := h.stop_eq.trans_le h.fits
    rw [make_of_le hfits, bind_eq_bind, bind_some, heq]
    exact hruns

/-- every created configuration with two bundles or more: its sizes sum up, and its mapping, which exists exactly if the
PRBs fit, is a bijection that all conversions follow -/
theorem vrb_to_prb_interleaved (cfg : Configuration) (hcreated : Created cfg) (h2 : 2 ≤ cfg.nofBundles) :
    cfg.firstBundleSize + (cfg.nofBundles - 2) * cfg.otherBundleSize + cfg.lastBundleSize = cfg.nofRbs ∧
      ((interleavedMapping cfg).isSome ↔ cfg.coresetStart + cfg.nofRbs ≤ MAX_NOF_PRBS) ∧
      ∀ m, interleavedMapping cfg = some m → m.config = cfg ∧ Bijective m ∧ Images m ∧ CoversIntervals m := by
  obtain ⟨B, hB⟩ := hcreated.cuts h2
  refine ⟨?_, ⟨fun hsome => ?_, fun hfits => ?_⟩, fun m hm => ?_⟩
  · rw [← hB.first, ← hB.count, ← hB.other, ← hB.last, ← hB.size]
    rfl
  · obtain ⟨m, hm⟩ := isSome_iff_exists.1 hsome
    exact fits_of_interleavedMapping hB hm
  · obtain ⟨m, hm, -⟩ := interleavedMapping_of_fits hB hfits
    rw [hm]
    rfl
  · obtain ⟨m', hm', hcfg, hholds⟩ := interleavedMapping_of_fits hB (fits_of_interleavedMapping hB hm)
    obtain rfl : m' = m := some.inj (hm'.symm.trans hm)
    exact ⟨hcfg, hholds.bijective, hholds.images, hholds.coversIntervals⟩

theorem vrb_to_prb_interleaved_ten :
    ∃ m, interleavedMapping (createInterleavedCommonSs 3 0 10) = some m ∧
      m.vrbToPrbIndices = [3, 8, 9, 4, 5, 10, 11, 6, 7, 12] ∧
      m.vrbToPrbInterval ⟨0, 5, by decide⟩ = some (⟨3, 6, by decide⟩, ⟨8, 10, by decide⟩) ∧
      Bijective m ∧ Images m ∧ CoversIntervals m := by
  obtain ⟨-, -, hall⟩ := vrb_to_prb_interleaved (createInterleavedCommonSs 3 0 10)
    (.commonSs 3 0 10 (by decide) (by decide) (by decide)) (by decide)
  have hvalue : interleavedMapping (createInterleavedCommonSs 3 0 10) =
      some ⟨createInterleavedCommonSs 3 0 10, [3, 8, 9, 4, 5, 10, 11, 6, 7, 12],
      [0, 0, 0, 0, 3, 4, 7, 8, 1, 2, 5, 6, 9]⟩ := by
    decide
  obtain ⟨-, hm⟩ := hall _ hvalue
  exact ⟨_, hvalue, rfl, by decide, hm⟩

end

end OcuduRan.Ran.VrbToPrb
