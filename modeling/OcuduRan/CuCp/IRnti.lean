/-
Identities of inactive UEs (include/ocudu/ran/i_rnti.h) and the search for a free one
(`increase_full_i_rnti`, `increase_short_i_rnti` and the two halves of `allocate_i_rntis` in
lib/cu_cp/ue_manager/ue_manager_impl.{h,cpp}).

An I-RNTI is a profile, the identifier of the node and a reference to the UE context in that node. A manager keeps the
first two for good and counts the reference up, so the I-RNTIs it can hand out are the `2 ^ nofUeRefBits` values of
`space`.

Results:
- `value_injective`: different references give different values.
- `takeIRnti_some`: what the search returns is free and of the same node.
- `takeIRnti_eq_none_iff`: it finds nothing within one turn exactly when every value of the node is in use.
- `takeIRnti_forever`: then it never ends.
-/
import OcuduRan.Core.CounterSearch
import OcuduRan.Core.TreeMaps

namespace OcuduRan.CuCp

open Std (ExtTreeMap)
open CounterSearch Nat

/-- `full_i_rnti_profile` -/
inductive FullIRntiProfile where
  | profile0
  | profile1
  | profile2
  | profile3
deriving DecidableEq, Repr

/-- `short_i_rnti_profile` -/
inductive ShortIRntiProfile where
  | profile0
  | profile1
deriving DecidableEq, Repr

/-- widths of an I-RNTI, from its most significant bit: profile, node identifier, UE reference -/
structure IRntiLayout where
  profile : ℕ
  nofBits : ℕ
  nofProfileBits : ℕ
  nofNodeIdBits : ℕ
  fits : nofProfileBits + nofNodeIdBits ≤ nofBits
deriving DecidableEq, Repr

namespace IRntiLayout

def nofUeRefBits (L : IRntiLayout) : ℕ := L.nofBits - L.nofProfileBits - L.nofNodeIdBits

def maxUeRef (L : IRntiLayout) : ℕ := 1 <<< L.nofUeRefBits - 1

def toLocalNodeId (L : IRntiLayout) (gnbId : ℕ) : ℕ := gnbId &&& (1 <<< L.nofNodeIdBits - 1)

theorem maxUeRef_succ (L : IRntiLayout) : L.maxUeRef + 1 = 2 ^ L.nofUeRefBits := by
  rw [maxUeRef, one_shiftLeft]
  exact Nat.sub_add_cancel Nat.one_le_two_pow

end IRntiLayout

def FullIRntiProfile.layout : FullIRntiProfile → IRntiLayout
  | .profile0 => ⟨0, 40, 2, 21, by decide⟩
  | .profile1 => ⟨1, 40, 2, 18, by decide⟩
  | .profile2 => ⟨2, 40, 2, 15, by decide⟩
  | .profile3 => ⟨3, 40, 2, 12, by decide⟩

def ShortIRntiProfile.layout : ShortIRntiProfile → IRntiLayout
  | .profile0 => ⟨0, 24, 1, 8, by decide⟩
  | .profile1 => ⟨1, 24, 1, 6, by decide⟩

/-- `full_i_rnti_t` and `short_i_rnti_t`; the reference fits the width the layout leaves for it -/
structure IRnti where
  layout : IRntiLayout
  nodeId : ℕ
  ueRef : ℕ
  ueRef_le : ueRef ≤ layout.maxUeRef
deriving DecidableEq, Repr

namespace IRnti

/-- the constructors mask both fields to their widths -/
def make (L : IRntiLayout) (nodeId ueRef : ℕ) : IRnti :=
  ⟨L, nodeId &&& (1 <<< L.nofNodeIdBits - 1), ueRef &&& L.maxUeRef, and_le_right⟩

def value (r : IRnti) : ℕ :=
  r.layout.profile <<< (r.layout.nofBits - r.layout.nofProfileBits) ||| r.nodeId <<< r.layout.nofUeRefBits ||| r.ueRef

/-- `increase_full_i_rnti`, `increase_short_i_rnti`: the constructor masks once more, without effect on the reference -/
def increase (r : IRnti) : IRnti :=
  make r.layout r.nodeId (if r.ueRef = r.layout.maxUeRef then 0 else r.ueRef + 1)

variable {r r' : IRnti} {v : ℕ}

@[ext] theorem ext (hlayout : r.layout = r'.layout) (hnode : r.nodeId = r'.nodeId)
    (href : r.ueRef = r'.ueRef) : r = r' := by
  cases r
  cases r'
  simp_all

theorem and_maxUeRef {L : IRntiLayout} {ref : ℕ} (h : ref ≤ L.maxUeRef) : ref &&& L.maxUeRef = ref := by
  have hlt : ref < 2 ^ L.nofUeRefBits := by
    rw [← L.maxUeRef_succ]
    exact lt_succ_of_le h
  rw [IRntiLayout.maxUeRef, one_shiftLeft, and_two_pow_sub_one_eq_mod, mod_eq_of_lt hlt]

@[simp] theorem layout_increase (r : IRnti) : r.increase.layout = r.layout := rfl

/-- the reference is a counter over `0 .. maxUeRef` -/
@[simp] theorem ueRef_increase (r : IRnti) : r.increase.ueRef = wrapNext r.layout.maxUeRef r.ueRef :=
  and_maxUeRef (wrapNext_le r.ueRef_le)

/-- the node identifier fits its width, as the constructor leaves it -/
def Masked (r : IRnti) : Prop := r.nodeId &&& (1 <<< r.layout.nofNodeIdBits - 1) = r.nodeId

theorem masked_make (L : IRntiLayout) (nodeId ueRef : ℕ) : (make L nodeId ueRef).Masked := by
  simp [Masked, make]

theorem masked_increase (r : IRnti) : r.increase.Masked := masked_make _ _ _

theorem nodeId_increase (h : r.Masked) : r.increase.nodeId = r.nodeId := h

theorem layout_iterate_increase (r : IRnti) (k : ℕ) : (increase^[k] r).layout = r.layout := by
  induction k with
  | zero => rfl
  | succ k ih => rw [Function.iterate_succ_apply', layout_increase, ih]

theorem nodeId_iterate_increase (h : r.Masked) (k : ℕ) :
    (increase^[k] r).nodeId = r.nodeId ∧ (increase^[k] r).Masked := by
  induction k with
  | zero => exact ⟨rfl, h⟩
  | succ k ih =>
    rw [Function.iterate_succ_apply']
    exact ⟨(nodeId_increase ih.2).trans ih.1, masked_increase _⟩

variable (r)

theorem ueRef_iterate_increase (k : ℕ) : (increase^[k] r).ueRef = (wrapNext r.layout.maxUeRef)^[k] r.ueRef := by
  induction k with
  | zero => rfl
  | succ k ih =>
    rw [Function.iterate_succ_apply', Function.iterate_succ_apply', ueRef_increase, layout_iterate_increase, ih]

/-! ## The values of one node -/

/-- the reference stands in the lowest bits -/
theorem value_mod : r.value % 2 ^ r.layout.nofUeRefBits = r.ueRef := by
  have hlt : r.ueRef < 2 ^ r.layout.nofUeRefBits := by
    rw [← r.layout.maxUeRef_succ]
    exact lt_succ_of_le r.ueRef_le
  have hbits : r.layout.nofUeRefBits ≤ r.layout.nofBits - r.layout.nofProfileBits := sub_le _ _
  have hprofile : r.layout.profile <<< (r.layout.nofBits - r.layout.nofProfileBits) % 2 ^ r.layout.nofUeRefBits =
    0 := by
    rw [shiftLeft_eq]
    exact mod_eq_zero_of_dvd (Dvd.dvd.mul_left (pow_dvd_pow 2 hbits) _)
  have hnode : r.nodeId <<< r.layout.nofUeRefBits % 2 ^ r.layout.nofUeRefBits = 0 := by
    rw [shiftLeft_eq]
    exact mul_mod_left _ _
  rw [value, or_mod_two_pow, or_mod_two_pow, hprofile, hnode, mod_eq_of_lt hlt]
  simp

/-- same layout and node identifier, another reference -/
def withRef (ref : Fin (r.layout.maxUeRef + 1)) : IRnti :=
  ⟨r.layout, r.nodeId, ref, le_of_lt_succ ref.isLt⟩

/-- different references give different values -/
theorem value_injective : Function.Injective fun ref => (r.withRef ref).value := by
  intro a b hab
  have ha := (r.withRef a).value_mod
  have hb := (r.withRef b).value_mod
  have hval : (r.withRef a).value = (r.withRef b).value := hab
  rw [hval] at ha
  exact Fin.ext (ha.symm.trans hb)

/-- the I-RNTIs a node can hand out -/
def space : Finset ℕ := Finset.univ.image fun ref => (r.withRef ref).value

theorem card_space : r.space.card = 2 ^ r.layout.nofUeRefBits := by
  rw [space, Finset.card_image_of_injective _ r.value_injective, Finset.card_univ, Fintype.card_fin,
    r.layout.maxUeRef_succ]

variable {r}

theorem mem_space : v ∈ r.space ↔ ∃ ref, (r.withRef ref).value = v := by
  simp [space]

/-- one of the node's I-RNTIs: same layout, same node -/
def SameNode (r r' : IRnti) : Prop := r'.layout = r.layout ∧ r'.nodeId = r.nodeId

theorem space_congr (h : r.SameNode r') : r'.space = r.space := by
  obtain ⟨L', node', ref', href'⟩ := r'
  obtain ⟨rfl, rfl⟩ := h
  rfl

theorem value_mem_space (r : IRnti) : r.value ∈ r.space :=
  mem_space.2 ⟨⟨r.ueRef, lt_succ_of_le r.ueRef_le⟩, rfl⟩

theorem sameNode_increase (h : r.Masked) : r.SameNode r.increase := ⟨rfl, nodeId_increase h⟩

theorem sameNode_iterate_increase (h : r.Masked) (k : ℕ) : r.SameNode (increase^[k] r) :=
  ⟨layout_iterate_increase r k, (nodeId_iterate_increase h k).1⟩

/-- one turn of the counter comes back to the same I-RNTI -/
theorem iterate_increase_round (h : r.Masked) : increase^[r.layout.maxUeRef + 1] r = r := by
  obtain ⟨hlayout, hnode⟩ := sameNode_iterate_increase h (r.layout.maxUeRef + 1)
  exact ext hlayout hnode ((ueRef_iterate_increase r _).trans (iterate_wrapNext_round r.ueRef_le))

/-- and passes every value of the node -/
theorem exists_iterate_increase (h : r.Masked) (hv : v ∈ r.space) :
    ∃ k < r.layout.maxUeRef + 1, (increase^[k + 1] r).value = v := by
  obtain ⟨ref, rfl⟩ := mem_space.1 hv
  obtain ⟨k, hk, href⟩ := exists_iterate_wrapNext r.ueRef_le (le_of_lt_succ ref.isLt)
  obtain ⟨hlayout, hnode⟩ := sameNode_iterate_increase h (k + 1)
  refine ⟨k, hk, congrArg value (ext hlayout hnode ?_)⟩
  rw [ueRef_iterate_increase, href]
  rfl

end IRnti

/-! ## Taking a free I-RNTI -/

/-- one half of `allocate_i_rntis`: the stored I-RNTI if it is free, otherwise the next free one; the loop is given up
after as many rounds as there are UE references -/
def takeIRnti (stored : IRnti) (inUse : ExtTreeMap ℕ ℕ) : Option IRnti :=
  if stored.value ∉ inUse then some stored
  else search IRnti.increase (fun r => r.value ∉ inUse) (stored.layout.maxUeRef + 1) stored

section Take

variable {stored r : IRnti} {inUse : ExtTreeMap ℕ ℕ}

theorem takeIRnti_some (hm : stored.Masked) (h : takeIRnti stored inUse = some r) :
    r.value ∉ inUse ∧ stored.SameNode r ∧ r.Masked := by
  unfold takeIRnti at h
  by_cases hfree : stored.value ∉ inUse
  · rw [if_pos hfree, Option.some.injEq] at h
    subst h
    exact ⟨hfree, ⟨rfl, rfl⟩, hm⟩
  · rw [if_neg hfree] at h
    obtain ⟨hr, k, rfl⟩ := search_eq_some h
    exact ⟨of_decide_eq_true hr, IRnti.sameNode_iterate_increase hm _, (IRnti.nodeId_iterate_increase hm _).2⟩

/-- the search finds nothing exactly when every I-RNTI of the node is in use -/
theorem takeIRnti_eq_none_iff (hm : stored.Masked) : takeIRnti stored inUse = none ↔ ∀ v ∈ stored.space, v ∈ inUse := by
  unfold takeIRnti
  constructor
  · intro h v hv
    split_ifs at h with hfree
    rw [← Option.not_isSome_iff_eq_none, search_isSome_iff] at h
    obtain ⟨k, hk, rfl⟩ := IRnti.exists_iterate_increase hm hv
    by_contra hnot
    exact h ⟨k, hk, decide_eq_true hnot⟩
  · intro h
    rw [if_neg (not_not.2 (h _ stored.value_mem_space)), ← Option.not_isSome_iff_eq_none, search_isSome_iff]
    rintro ⟨k, -, hk⟩
    apply of_decide_eq_true hk
    apply h
    rw [← IRnti.space_congr (IRnti.sameNode_iterate_increase hm (k + 1))]
    exact IRnti.value_mem_space _

/-- a search that finds nothing in one turn runs forever -/
theorem takeIRnti_forever (hm : stored.Masked) (h : takeIRnti stored inUse = none) (rounds : ℕ) :
    search IRnti.increase (fun r => r.value ∉ inUse) rounds stored = none := by
  unfold takeIRnti at h
  split_ifs at h
  exact search_forever stored.layout.maxUeRef.succ_pos (IRnti.iterate_increase_round hm) h rounds

/-- counted: with keys among the values of the node, the search finds nothing exactly when there are as many keys as UE
references -/
theorem takeIRnti_eq_none_iff_size (hm : stored.Masked) (hsub : ∀ v, v ∈ inUse → v ∈ stored.space) :
    takeIRnti stored inUse = none ↔ 2 ^ stored.layout.nofUeRefBits ≤ inUse.size := by
  rw [takeIRnti_eq_none_iff hm, ← stored.card_space]
  constructor
  · intro h
    exact TreeMaps.card_le_size h
  · intro h v hv
    exact TreeMaps.mem_of_card_le_size hsub h hv

end Take

end OcuduRan.CuCp
