/-
Identities of RRC_INACTIVE UEs: `set_inactive` gives a UE a full and a short I-RNTI, `set_active` and `remove_ue` take
them back, `get_full_i_rnti` looks the full one up.

`Tracked` runs the manager next to the set of UEs that are inactive: in after a `set_inactive` that succeeded, out
after `set_active` or `remove_ue`. `Fulfilled` is what every call owes: it returns, afterwards every inactive UE has
exactly one I-RNTI of each kind and no other UE has any, and `get_full_i_rnti` gives an inactive UE its own.

`fulfilled_iff`: in every run every call fulfils this exactly when every call meets `Permitted`:
- `set_inactive`, unless it refuses, is for a UE that is not inactive yet (it does not check, and a second call gives
  the UE a second pair), that has an RRC context, and finds a free UE reference of either kind (the search loops have no
  other end, and the check before them is against the number of UEs, not of references);
- `get_full_i_rnti`, for a UE whose RRC state is inactive, finds the lookup empty or that UE in its first entry: the
  loop over the lookup does not advance its iterator.
`second_inactive_ue_hangs` has a run for each of the two.
-/
import OcuduRan.CuCp.UeRegistry

namespace OcuduRan.CuCp

open Std (ExtTreeMap)
open UeManager IRnti Option CuCpUe Finset Coded

/-! ## One I-RNTI lookup -/

/-- exactly the UEs of `S` have an I-RNTI in the lookup, each exactly one -/
structure OneEach (m : ExtTreeMap ℕ ℕ) (S : Finset ℕ) : Prop where
  one : ∀ u ∈ S, ∃! v : ℕ, m[v]? = some u
  others : ∀ u ∉ S, ∀ v : ℕ, m[v]? ≠ some u

namespace OneEach

variable {m : ExtTreeMap ℕ ℕ} {S : Finset ℕ} {u v : ℕ}

theorem empty : OneEach ∅ ∅ := ⟨by simp, by simp⟩

theorem filter (h : OneEach m S) (u : ℕ) : OneEach (m.filter fun _ w => w ≠ u) (S.erase u) := by
  have hget : ∀ v w : ℕ, (m.filter fun _ w => w ≠ u)[v]? = some w ↔ m[v]? = some w ∧ w ≠ u := by
    intro v w
    simp [filter_eq_some_iff]
  refine ⟨fun w hw => ?_, fun w hw v hv => ?_⟩
  · obtain ⟨hne, hmem⟩ := mem_erase.1 hw
    obtain ⟨v, hv, huniq⟩ := h.one w hmem
    exact ⟨v, (hget v w).2 ⟨hv, hne⟩, fun v' hv' => huniq v' ((hget v' w).1 hv').1⟩
  · obtain ⟨hmw, hne⟩ := (hget v w).1 hv
    exact h.others w (fun hmem => hw (mem_erase.2 ⟨hne, hmem⟩)) v hmw

theorem getElem?_insertIfNew (hv : v ∉ m) (u k : ℕ) :
    (m.insertIfNew v u)[k]? = if v = k then some u else m[k]? := by
  simp [ExtTreeMap.getElem?_insertIfNew, hv]

theorem getElem?_insertIfNew_self (hv : v ∉ m) (u : ℕ) : (m.insertIfNew v u)[v]? = some u := by
  rw [getElem?_insertIfNew hv, if_pos rfl]

theorem insert (h : OneEach m S) (hv : v ∉ m) (hu : u ∉ S) : OneEach (m.insertIfNew v u) (insert u S) := by
  refine ⟨fun w hw => ?_, fun w hw k hk => ?_⟩
  · by_cases hwu : w = u
    · subst hwu
      refine ⟨v, getElem?_insertIfNew_self hv w, fun k hk => ?_⟩
      have hk' : (m.insertIfNew v w)[k]? = some w := hk
      rw [getElem?_insertIfNew hv] at hk'
      split_ifs at hk' with hvk
      · exact hvk.symm
      · exact absurd hk' (h.others w hu k)
    · obtain ⟨k, hk, huniq⟩ := h.one w ((mem_insert.1 hw).resolve_left hwu)
      have hk0 : m[k]? = some w := hk
      have hvk : v ≠ k := by
        rintro rfl
        exact hv (ExtTreeMap.mem_iff_isSome_getElem?.2 (by simp [hk0]))
      refine ⟨k, by simp [getElem?_insertIfNew hv, hvk, hk0], fun k' hk' => ?_⟩
      have hk1 : (m.insertIfNew v u)[k']? = some w := hk'
      rw [getElem?_insertIfNew hv] at hk1
      split_ifs at hk1 with hvk'
      · exact absurd (some.inj hk1).symm hwu
      · exact huniq k' hk1
  · rw [getElem?_insertIfNew hv] at hk
    rw [mem_insert, not_or] at hw
    split_ifs at hk with hvk
    · exact hw.1 (some.inj hk).symm
    · exact h.others w hw.2 k hk

/-- a second I-RNTI for the same UE breaks it -/
theorem not_insert_of_mem (h : OneEach m S) (hv : v ∉ m) (hu : u ∈ S) : ¬OneEach (m.insertIfNew v u) S := by
  intro h'
  obtain ⟨k, hk, -⟩ := h.one u hu
  have hk0 : m[k]? = some u := hk
  have hvk : v ≠ k := by
    rintro rfl
    exact hv (ExtTreeMap.mem_iff_isSome_getElem?.2 (by simp [hk0]))
  exact hvk ((h'.one u hu).unique (getElem?_insertIfNew_self hv u) (by simp [getElem?_insertIfNew hv, hvk, hk0]))

end OneEach

/-! ## The tracked manager -/

/-- the manager and the UEs that are inactive -/
structure Tracked where
  mgr : UeManager
  inactive : Finset ℕ

inductive IdentityOp where
  | addUe (duIndex : ℕ)
  | setRrcUe (ueIndex : ℕ)
  | rrcConnected (ueIndex : ℕ)
  | setInactive (ueIndex : ℕ)
  | setActive (ueIndex : ℕ)
  | removeUe (ueIndex : ℕ)
  | getFullIRnti (ueIndex : ℕ)

namespace Tracked

def init (cfg : UeManagerConfig) : Tracked := ⟨.init cfg, ∅⟩

/-- one call. The RRC context is attached once; an RRC procedure moves a UE to RRC_CONNECTED only after `set_active`. -/
def step (t : Tracked) : IdentityOp → Tracked
  | .addUe duIndex => { t with mgr := (addUe duIndex t.mgr).2 }
  | .setRrcUe u => { t with mgr := t.mgr.modifyUe u fun ue => { ue with rrcUe := some (ue.rrcUe.getD .idle) } }
  | .rrcConnected u =>
    if u ∈ t.inactive then t
    else { t with mgr := t.mgr.modifyUe u fun ue => { ue with rrcUe := ue.rrcUe.map fun _ => .connected } }
  | .setInactive u =>
    match setInactive u t.mgr with
    | (.ok (some _), s) => ⟨s, insert u t.inactive⟩
    | (_, s) => ⟨s, t.inactive⟩
  | .setActive u => ⟨t.mgr.setActive u, t.inactive.erase u⟩
  | .removeUe u => ⟨t.mgr.removeUe u, t.inactive.erase u⟩
  | .getFullIRnti u => { t with mgr := (getFullIRnti u t.mgr).2 }

/-- every inactive UE has one I-RNTI of each kind, and nobody else has any -/
structure Identities (t : Tracked) : Prop where
  full : OneEach t.mgr.fullIRntiToUeIndex t.inactive
  short : OneEach t.mgr.shortIRntiToUeIndex t.inactive

/-- the call comes back, and `get_full_i_rnti` with the UE's own I-RNTI -/
def Answers (t : Tracked) : IdentityOp → Prop
  | .addUe duIndex => ∃ i s, addUe duIndex t.mgr = (.ok i, s)
  | .setInactive u => ∃ r s, setInactive u t.mgr = (.ok r, s)
  | .getFullIRnti u =>
    ∃ r s, getFullIRnti u t.mgr = (.ok r, s) ∧
      (if u ∈ t.inactive then ∃ v : ℕ, r = some v ∧ t.mgr.fullIRntiToUeIndex[v]? = some u else r = none)
  | _ => True

/-- what a call owes -/
def Fulfilled (t : Tracked) (o : IdentityOp) : Prop := t.Answers o ∧ (t.step o).Identities

/-- `set_inactive` returns without allocating anything -/
def Refused (t : Tracked) (u : ℕ) : Prop :=
  u = ueIndexInvalid ∨ u ∉ t.mgr.ues ∨ t.mgr.shortIRntiToUeIndex.size = t.mgr.maxNofUes ∨
    t.mgr.fullIRntiToUeIndex.size = t.mgr.maxNofUes

/-- the condition on a call -/
def Permitted (cfg : UeManagerConfig) (t : Tracked) : IdentityOp → Prop
  | .setInactive u =>
    t.Refused u ∨
      u ∉ t.inactive ∧ (t.mgr.ues[u]?.bind rrcUe).isSome ∧
        t.mgr.fullIRntiToUeIndex.size < 2 ^ cfg.fullIRntiProf.layout.nofUeRefBits ∧
        t.mgr.shortIRntiToUeIndex.size < 2 ^ cfg.shortIRntiProf.layout.nofUeRefBits
  | .getFullIRnti u =>
    u ∈ t.mgr.ues →
      (t.mgr.ues[u]?.bind rrcUe).isSome ∧
        (t.mgr.ues[u]?.bind rrcUe = some .inactive →
          ∀ e ∈ t.mgr.fullIRntiToUeIndex.toList.head?, e.2 = u)
  | _ => True

/-! ## Invariant -/

/-- the counters stay with their node, the lookups hold values of the node, and an inactive UE is live with its RRC
state inactive -/
structure Inv (cfg : UeManagerConfig) (t : Tracked) : Prop where
  bounds : t.mgr.Bounds
  fullMasked : t.mgr.nextFull.Masked
  shortMasked : t.mgr.nextShort.Masked
  fullLayout : t.mgr.nextFull.layout = cfg.fullIRntiProf.layout
  shortLayout : t.mgr.nextShort.layout = cfg.shortIRntiProf.layout
  fullSpace : ∀ v, v ∈ t.mgr.fullIRntiToUeIndex → v ∈ t.mgr.nextFull.space
  shortSpace : ∀ v, v ∈ t.mgr.shortIRntiToUeIndex → v ∈ t.mgr.nextShort.space
  live : ∀ u ∈ t.inactive, t.mgr.ues[u]?.bind rrcUe = some .inactive
  ids : t.Identities

theorem inv_init (cfg : UeManagerConfig) : Inv cfg (init cfg) where
  bounds := bounds_init cfg
  fullMasked := masked_make _ _ _
  shortMasked := masked_make _ _ _
  fullLayout := rfl
  shortLayout := rfl
  fullSpace := by simp [init, UeManager.init]
  shortSpace := by simp [init, UeManager.init]
  live := by simp [init]
  ids := ⟨OneEach.empty, OneEach.empty⟩

variable {cfg : UeManagerConfig} {t : Tracked} {s : UeManager} {u : ℕ} {m : ExtTreeMap ℕ ℕ}

section

variable (h : Inv cfg t)
include h

/-- a step that leaves counters and I-RNTI lookups alone -/
theorem Inv.of_same (hb : s.Bounds) (hfull : s.nextFull = t.mgr.nextFull)
    (hshort : s.nextShort = t.mgr.nextShort) (hfm : s.fullIRntiToUeIndex = t.mgr.fullIRntiToUeIndex)
    (hsm : s.shortIRntiToUeIndex = t.mgr.shortIRntiToUeIndex)
    (hlive : ∀ u ∈ t.inactive, s.ues[u]?.bind rrcUe = some .inactive) : Inv cfg { t with mgr := s } where
  bounds := hb
  fullMasked := hfull ▸ h.fullMasked
  shortMasked := hshort ▸ h.shortMasked
  fullLayout := hfull ▸ h.fullLayout
  shortLayout := hshort ▸ h.shortLayout
  fullSpace := by simpa only [hfull, hfm] using h.fullSpace
  shortSpace := by simpa only [hshort, hsm] using h.shortSpace
  live := hlive
  ids := ⟨by simpa only [hfm] using h.ids.full, by simpa only [hsm] using h.ids.short⟩

/-- writing an RRC state that leaves the inactive UEs inactive -/
theorem Inv.modifyRrc (u : ℕ) (g : Option RrcState → Option RrcState)
    (hg : u ∈ t.inactive → g (some .inactive) = some .inactive) :
    Inv cfg { t with mgr := t.mgr.modifyUe u fun ue => { ue with rrcUe := g ue.rrcUe } } := by
  refine h.of_same (h.bounds.modify (u := u) rfl rfl) rfl rfl rfl rfl fun v hv => ?_
  have hlive := h.live v hv
  rw [getElem?_modifyUe]
  split_ifs with huv
  · subst huv
    obtain ⟨ue, hue, hrrc⟩ := bind_eq_some_iff.1 hlive
    simp only [hue, map_some, bind_some, hrrc]
    exact hg hv
  · exact hlive

/-- taking a UE out of both lookups -/
theorem Inv.drop (u : ℕ) (hb : s.Bounds) (hfull : s.nextFull = t.mgr.nextFull) (hshort : s.nextShort = t.mgr.nextShort)
    (hfm : s.fullIRntiToUeIndex = t.mgr.fullIRntiToUeIndex.filter fun _ w => w ≠ u)
    (hsm : s.shortIRntiToUeIndex = t.mgr.shortIRntiToUeIndex.filter fun _ w => w ≠ u)
    (hues : ∀ v : ℕ, v ≠ u → s.ues[v]? = t.mgr.ues[v]?) : Inv cfg ⟨s, t.inactive.erase u⟩ where
  bounds := hb
  fullMasked := hfull ▸ h.fullMasked
  shortMasked := hshort ▸ h.shortMasked
  fullLayout := hfull ▸ h.fullLayout
  shortLayout := hshort ▸ h.shortLayout
  fullSpace := by
    intro v hv
    simp only [hfm, hfull] at hv ⊢
    exact h.fullSpace v (ExtTreeMap.mem_of_mem_filter hv)
  shortSpace := by
    intro v hv
    simp only [hsm, hshort] at hv ⊢
    exact h.shortSpace v (ExtTreeMap.mem_of_mem_filter hv)
  live := by
    intro v hv
    obtain ⟨hne, hmem⟩ := mem_erase.1 hv
    simp only [hues v hne]
    exact h.live v hmem
  ids := by
    constructor
    · simp only [hfm]
      exact h.ids.full.filter u
    · simp only [hsm]
      exact h.ids.short.filter u

theorem Inv.live_mem (hu : u ∈ t.inactive) : u ∈ t.mgr.ues := by
  obtain ⟨ue, hue, -⟩ := bind_eq_some_iff.1 (h.live u hu)
  exact ExtTreeMap.mem_iff_isSome_getElem?.2 (by simp [hue])

theorem Inv.ne_invalid (hu : u ∈ t.mgr.ues) : u ≠ ueIndexInvalid :=
  ((h.bounds.keys u hu).trans_lt ueIndexMax_lt_invalid).ne

theorem inv_addUe (duIndex : ℕ) : t.Answers (.addUe duIndex) ∧ Inv cfg (t.step (.addUe duIndex)) := by
  have hb := h.bounds.addUe duIndex
  obtain ⟨-, n, -, heq⟩ | ⟨-, -, i, n, -, -, hfree, heq⟩ := addUe_eq h.bounds duIndex
  · simp only [step, Answers]
    rw [heq] at hb ⊢
    exact ⟨⟨_, _, rfl⟩, h.of_same hb rfl rfl rfl rfl h.live⟩
  · simp only [step, Answers]
    rw [heq] at hb ⊢
    refine ⟨⟨_, _, rfl⟩, h.of_same hb rfl rfl rfl rfl fun u hu => ?_⟩
    have hne : i ≠ u := by
      rintro rfl
      exact hfree (h.live_mem hu)
    simpa [ExtTreeMap.getElem?_insertIfNew, hne] using h.live u hu

theorem inv_setActive (u : ℕ) : Inv cfg (t.step (.setActive u)) := by
  simp only [step, setActive]
  by_cases hmem : u ∈ t.mgr.ues
  · rw [if_neg (h.ne_invalid hmem), if_neg (not_not.2 hmem)]
    exact h.drop u ⟨h.bounds.next, h.bounds.keys, h.bounds.size⟩ rfl rfl rfl rfl fun _ _ => rfl
  · have hout : t.inactive.erase u = t.inactive := erase_eq_of_notMem fun hu => hmem (h.live_mem hu)
    rw [hout]
    split_ifs
    all_goals exact h

theorem inv_removeUe (u : ℕ) : Inv cfg (t.step (.removeUe u)) := by
  have hb := h.bounds.removeUe u
  simp only [step]
  cases hu : t.mgr.ues[u]? with
  | none =>
    have hout : t.inactive.erase u = t.inactive := by
      refine erase_eq_of_notMem fun hmem => ?_
      have hlive := h.live u hmem
      simp [hu] at hlive
    rw [hout, removeUe_of_none hu]
    exact h
  | some ue =>
    have hvalid : u ≠ ueIndexInvalid := h.ne_invalid (ExtTreeMap.mem_iff_isSome_getElem?.2 (by simp [hu]))
    have hues := (removeUe_of_some hvalid hu).1
    refine h.drop u hb ?_ ?_ ?_ ?_ fun v hv => ?_
    · simp [removeUe, hvalid, hu, dropIRntis]
    · simp [removeUe, hvalid, hu, dropIRntis]
    · simp [removeUe, hvalid, hu, dropIRntis]
    · simp [removeUe, hvalid, hu, dropIRntis]
    · rw [hues]
      simp [ExtTreeMap.getElem?_erase, hv.symm]

end

/-! ## `set_inactive` and `get_full_i_rnti` -/

theorem setInactive_of_refused (h : t.Refused u) : setInactive u t.mgr = (.ok none, t.mgr) := by
  unfold setInactive
  by_cases hvalid : u = ueIndexInvalid
  · rw [if_pos hvalid]
  by_cases hmem : u ∉ t.mgr.ues
  · rw [if_neg hvalid, if_pos hmem]
  rw [if_neg hvalid, if_neg hmem]
  have halloc : allocateIRntis t.mgr = (.ok none, t.mgr) := by
    unfold allocateIRntis
    rw [if_pos ((h.resolve_left hvalid).resolve_left hmem)]
  rw [bind_of_ok halloc]
  rfl

/-- the manager after a `set_inactive` that allocated `full` and `short` -/
def suspended (s : UeManager) (u : ℕ) (full short : IRnti) : UeManager :=
  { s.setRrcState u .inactive with
    nextFull := full.increase
    nextShort := short.increase
    fullIRntiToUeIndex := s.fullIRntiToUeIndex.insertIfNew full.value u
    shortIRntiToUeIndex := s.shortIRntiToUeIndex.insertIfNew short.value u }

/-- `set_inactive` past its checks: both searches find something and the RRC context is there, or it does not return -/
theorem setInactive_eq (h : ¬t.Refused u) :
    (∃ full short, takeIRnti t.mgr.nextFull t.mgr.fullIRntiToUeIndex = some full ∧
        takeIRnti t.mgr.nextShort t.mgr.shortIRntiToUeIndex = some short ∧ (t.mgr.ues[u]?.bind rrcUe).isSome ∧
        setInactive u t.mgr = (.ok (some ⟨short, full⟩), suspended t.mgr u full short)) ∨
      (takeIRnti t.mgr.nextFull t.mgr.fullIRntiToUeIndex = none ∨
          takeIRnti t.mgr.nextShort t.mgr.shortIRntiToUeIndex = none ∨ t.mgr.ues[u]?.bind rrcUe = none) ∧
        ∃ e s, setInactive u t.mgr = (.error e, s) := by
  simp only [Refused, not_or] at h
  obtain ⟨hvalid, hmem, hsizes⟩ := h
  unfold setInactive
  rw [if_neg hvalid, if_neg hmem]
  have hlimit : ¬(t.mgr.shortIRntiToUeIndex.size = t.mgr.maxNofUes ∨
      t.mgr.fullIRntiToUeIndex.size = t.mgr.maxNofUes) := not_or.2 hsizes
  cases hfull : takeIRnti t.mgr.nextFull t.mgr.fullIRntiToUeIndex with
  | none =>
    have halloc : allocateIRntis t.mgr = (.error (.code .diverges), t.mgr) := by
      simp only [allocateIRntis, if_neg hlimit, hfull]
    exact .inr ⟨.inl rfl, _, _, bind_of_error halloc⟩
  | some full =>
    cases hshort : takeIRnti t.mgr.nextShort t.mgr.shortIRntiToUeIndex with
    | none =>
      have halloc : allocateIRntis t.mgr = (.error (.code .diverges), { t.mgr with nextFull := full }) := by
        simp only [allocateIRntis, if_neg hlimit, hfull, hshort]
      exact .inr ⟨.inr (.inl rfl), _, _, bind_of_error halloc⟩
    | some short =>
      let s : UeManager := { t.mgr with nextFull := full.increase, nextShort := short.increase }
      have halloc : allocateIRntis t.mgr = (.ok (some ⟨short, full⟩), s) := by
        simp only [allocateIRntis, if_neg hlimit, hfull, hshort, s]
      rw [bind_of_ok halloc]
      cases hrrc : t.mgr.ues[u]?.bind rrcUe with
      | none =>
        exact .inr ⟨.inr (.inr rfl), _, _, bind_of_error (derefRrcUe_of_none (s := s) hrrc)⟩
      | some st =>
        exact .inl ⟨full, short, rfl, rfl, rfl, bind_of_ok (derefRrcUe_of_some (s := s) hrrc)⟩

/-- a new pair of I-RNTIs for a UE that had none keeps the invariant -/
theorem Inv.suspend (h : Inv cfg t) {full short : IRnti} (hmem : u ∈ t.mgr.ues) (hnew : u ∉ t.inactive)
    (hfull : takeIRnti t.mgr.nextFull t.mgr.fullIRntiToUeIndex = some full)
    (hshort : takeIRnti t.mgr.nextShort t.mgr.shortIRntiToUeIndex = some short) :
    Inv cfg ⟨suspended t.mgr u full short, insert u t.inactive⟩ := by
  obtain ⟨hff, hfnode, hfm⟩ := takeIRnti_some h.fullMasked hfull
  obtain ⟨hsf, hsnode, hsm⟩ := takeIRnti_some h.shortMasked hshort
  have hfspace : full.increase.space = t.mgr.nextFull.space :=
    (space_congr (sameNode_increase hfm)).trans (space_congr hfnode)
  have hsspace : short.increase.space = t.mgr.nextShort.space :=
    (space_congr (sameNode_increase hsm)).trans (space_congr hsnode)
  have hb : (suspended t.mgr u full short).Bounds :=
    h.bounds.modify (u := u) rfl rfl
  refine ⟨hb, masked_increase full, masked_increase short, hfnode.1.trans h.fullLayout,
    hsnode.1.trans h.shortLayout, fun v hv => ?_, fun v hv => ?_, fun v hv => ?_,
    ⟨h.ids.full.insert hff hnew, h.ids.short.insert hsf hnew⟩⟩
  · show v ∈ full.increase.space
    rw [hfspace]
    rcases ExtTreeMap.mem_insertIfNew.1 hv with hv | hv
    · rw [Std.LawfulEqCmp.compare_eq_iff_eq] at hv
      rw [← hv, ← space_congr hfnode]
      exact full.value_mem_space
    · exact h.fullSpace v hv
  · show v ∈ short.increase.space
    rw [hsspace]
    rcases ExtTreeMap.mem_insertIfNew.1 hv with hv | hv
    · rw [Std.LawfulEqCmp.compare_eq_iff_eq] at hv
      rw [← hv, ← space_congr hsnode]
      exact short.value_mem_space
    · exact h.shortSpace v hv
  · have hget := getElem?_modifyUe t.mgr u (fun ue => { ue with rrcUe := some .inactive }) v
    show ((t.mgr.modifyUe u fun ue => { ue with rrcUe := some .inactive }).ues[v]?).bind rrcUe = _
    rw [hget]
    split_ifs with huv
    · subst huv
      obtain ⟨ue, hue⟩ := isSome_iff_exists.1 (ExtTreeMap.mem_iff_isSome_getElem?.1 hmem)
      simp [hue]
    · exact h.live v ((mem_insert.1 hv).resolve_left fun hvu => huv hvu.symm)

/-- `set_inactive` fulfils its part exactly when it is permitted, and then keeps the invariant -/
theorem setInactive_iff (h : Inv cfg t) (u : ℕ) : (t.Fulfilled (.setInactive u) ↔ Permitted cfg t (.setInactive u)) ∧
      (t.Fulfilled (.setInactive u) → Inv cfg (t.step (.setInactive u))) := by
  simp only [Fulfilled, Answers, Permitted, step]
  by_cases href : t.Refused u
  · rw [setInactive_of_refused href]
    exact ⟨iff_of_true ⟨⟨_, _, rfl⟩, h.ids⟩ (.inl href), fun _ => h⟩
  have hmem : u ∈ t.mgr.ues := by
    by_contra hmem
    exact href (.inr (.inl hmem))
  have hfsize := takeIRnti_eq_none_iff_size h.fullMasked h.fullSpace
  have hssize := takeIRnti_eq_none_iff_size h.shortMasked h.shortSpace
  rw [h.fullLayout] at hfsize
  rw [h.shortLayout] at hssize
  obtain ⟨full, short, hfull, hshort, hrrc, heq⟩ | ⟨hcause, e, s, heq⟩ := setInactive_eq href
  · rw [heq]
    have hroom : t.mgr.fullIRntiToUeIndex.size < 2 ^ cfg.fullIRntiProf.layout.nofUeRefBits ∧
        t.mgr.shortIRntiToUeIndex.size < 2 ^ cfg.shortIRntiProf.layout.nofUeRefBits := by
      rw [← not_le, ← not_le, ← hfsize, ← hssize, hfull, hshort]
      simp
    by_cases hnew : u ∉ t.inactive
    · have hinv := h.suspend hmem hnew hfull hshort
      exact ⟨iff_of_true ⟨⟨_, _, rfl⟩, hinv.ids⟩ (.inr ⟨hnew, hrrc, hroom⟩), fun _ => hinv⟩
    · -- already inactive: the new full I-RNTI is the UE's second one
      rw [not_not] at hnew
      have hbroken : ¬Identities ⟨suspended t.mgr u full short, insert u t.inactive⟩ := by
        intro hids
        have htwo := hids.full
        rw [insert_eq_of_mem hnew] at htwo
        exact h.ids.full.not_insert_of_mem (takeIRnti_some h.fullMasked hfull).1 hnew htwo
      refine ⟨iff_of_false (fun hf => hbroken hf.2) ?_, fun hf => absurd hf.2 hbroken⟩
      rintro (hr | ⟨hn, -⟩)
      · exact href hr
      · exact hn hnew
  · rw [heq]
    have hstuck : ¬∃ (r : Option IRntis) (s' : UeManager), ((.error e, s) : Except (Fault Stuck) _ × UeManager) =
        (.ok r, s') := by
      rintro ⟨r, s', hrs⟩
      cases hrs
    refine ⟨iff_of_false (fun hf => hstuck hf.1) ?_, fun hf => absurd hf.1 hstuck⟩
    rintro (hr | ⟨-, hrrc, hf, hs⟩)
    · exact href hr
    · rcases hcause with hc | hc | hc
      · exact absurd (hfsize.1 hc) (not_le.2 hf)
      · exact absurd (hssize.1 hc) (not_le.2 hs)
      · rw [hc] at hrrc
        cases hrrc

/-- the first entry of a lookup is one of its entries -/
theorem getElem?_of_head? {e : ℕ × ℕ} (h : m.toList.head? = some e) : m[e.1]? = some e.2 :=
  ExtTreeMap.mem_toList_iff_getElem?_eq_some.1 (List.mem_of_mem_head? h)

theorem eq_empty_of_head? (h : m.toList.head? = none) (v : ℕ) : m[v]? = none := by
  rw [List.head?_eq_none_iff] at h
  by_contra hne
  obtain ⟨u, hu⟩ := ne_none_iff_exists'.1 hne
  have hmem := ExtTreeMap.mem_toList_iff_getElem?_eq_some.2 hu
  rw [h] at hmem
  cases hmem

/-- `get_full_i_rnti` answers exactly when it is permitted -/
theorem getFullIRnti_iff (h : Inv cfg t) (u : ℕ) :
    t.Answers (.getFullIRnti u) ↔ Permitted cfg t (.getFullIRnti u) := by
  simp only [Answers, Permitted, getFullIRnti]
  by_cases hmem : u ∈ t.mgr.ues
  · rw [if_neg (h.ne_invalid hmem), if_neg (not_not.2 hmem)]
    simp only [hmem, true_imp_iff]
    cases hrrc : t.mgr.ues[u]?.bind rrcUe with
    | none =>
      rw [bind_of_error (derefRrcUe_of_none hrrc)]
      simp
    | some st =>
      rw [bind_of_ok (derefRrcUe_of_some hrrc)]
      by_cases hst : st = .inactive
      · subst hst
        rw [if_neg (not_not.2 rfl)]
        cases hhead : t.mgr.fullIRntiToUeIndex.toList.head? with
        | none =>
          have hout : u ∉ t.inactive := by
            intro hu
            obtain ⟨v, hv, -⟩ := h.ids.full.one u hu
            rw [eq_empty_of_head? hhead v] at hv
            cases hv
          simp [hout]
        | some e =>
          have hentry := getElem?_of_head? hhead
          by_cases he : e.2 = u
          · have hin : u ∈ t.inactive := by
              by_contra hout
              exact h.ids.full.others u hout e.1 (he ▸ hentry)
            simp only [if_pos he, if_pos hin]
            exact iff_of_true ⟨_, _, rfl, e.1, rfl, he ▸ hentry⟩ ⟨rfl, fun _ e' he' => by cases he'; exact he⟩
          · simp [he]
      · have hout : u ∉ t.inactive := by
          intro hu
          have hlive := h.live u hu
          rw [hrrc] at hlive
          exact hst (some.inj hlive)
        rw [if_pos hst]
        simp [hst, hout]
  · have hout : u ∉ t.inactive := fun hu => hmem (h.live_mem hu)
    simp [hmem, hout]

/-! ## Runs -/

theorem getFullIRnti_state (s : UeManager) (u : ℕ) : (getFullIRnti u s).2 = s := by
  unfold getFullIRnti
  split_ifs
  · rfl
  · refine bind_inv (I := fun s' => s' = s) (fun s' hs' => ?_) (fun st s' hs' => ?_) rfl
    · rw [Frame.derefRrcUe]
      exact hs'
    · split_ifs
      · exact hs'
      · cases s.fullIRntiToUeIndex.toList.head? with
        | none => exact hs'
        | some e =>
          dsimp only
          split_ifs
          · exact hs'
          · exact hs'
  · rfl

theorem fulfilled_step_iff (cfg : UeManagerConfig) (t : Tracked) (o : IdentityOp) (h : Inv cfg t) :
    (t.Fulfilled o ↔ Permitted cfg t o) ∧ (t.Fulfilled o → Inv cfg (t.step o)) := by
  cases o with
  | addUe duIndex =>
    obtain ⟨hans, hinv⟩ := inv_addUe h duIndex
    exact ⟨iff_of_true ⟨hans, hinv.ids⟩ trivial, fun _ => hinv⟩
  | setRrcUe u =>
    have hinv : Inv cfg (t.step (.setRrcUe u)) := h.modifyRrc u (fun st => some (st.getD .idle)) fun _ => rfl
    exact ⟨iff_of_true ⟨trivial, hinv.ids⟩ trivial, fun _ => hinv⟩
  | rrcConnected u =>
    have hinv : Inv cfg (t.step (.rrcConnected u)) := by
      simp only [step]
      split_ifs with hu
      · exact h
      · exact h.modifyRrc u (fun st => st.map fun _ => .connected) fun hin => absurd hin hu
    exact ⟨iff_of_true ⟨trivial, hinv.ids⟩ trivial, fun _ => hinv⟩
  | setInactive u => exact setInactive_iff h u
  | setActive u =>
    have hinv := inv_setActive h u
    exact ⟨iff_of_true ⟨trivial, hinv.ids⟩ trivial, fun _ => hinv⟩
  | removeUe u =>
    have hinv := inv_removeUe h u
    exact ⟨iff_of_true ⟨trivial, hinv.ids⟩ trivial, fun _ => hinv⟩
  | getFullIRnti u =>
    have hsame : t.step (.getFullIRnti u) = t := by
      simp only [step, getFullIRnti_state]
    rw [Fulfilled, hsame, and_iff_left h.ids]
    exact ⟨getFullIRnti_iff h u, fun _ => h⟩

/-- **Identities of inactive UEs.** In a run of the manager every call returns, leaves every inactive UE with exactly
one full and one short I-RNTI and all others with none, and `get_full_i_rnti` finds the one of an inactive UE, exactly
when every call is permitted. -/
theorem fulfilled_iff (cfg : UeManagerConfig) (ops : List IdentityOp) :
    Machine.Always step Fulfilled (init cfg) ops ↔ Machine.Always step (Permitted cfg) (init cfg) ops :=
  Machine.always_congr (fun t o h => (fulfilled_step_iff cfg t o h).1) (fun t o h => (fulfilled_step_iff cfg t o h).2)
    (init cfg) ops (inv_init cfg)

/-- two UEs that are inactive at the same time -/
def twoInactive : Tracked :=
  Machine.run step (init defaultConfig)
    [.addUe 0, .setRrcUe 0, .addUe 0, .setRrcUe 1, .setInactive 0, .setInactive 1]

/-- one UE that is set inactive a second time -/
def inactiveTwice : Tracked :=
  Machine.run step (init defaultConfig) [.addUe 0, .setRrcUe 0, .setInactive 0, .setInactive 0]

/-- the full I-RNTI of the UE that became inactive second is never found, while the one of the first is; and a UE set
inactive twice has two I-RNTIs of each kind -/
theorem second_inactive_ue_hangs :
    (twoInactive.inactive = {0, 1} ∧ twoInactive.mgr.fullIRntiToUeIndex.toList.map Prod.snd = [0, 1] ∧
      (getFullIRnti 0 twoInactive.mgr).1.toOption.isSome = true ∧
      (getFullIRnti 1 twoInactive.mgr).1 = .error (.code .diverges)) ∧
    inactiveTwice.inactive = {0} ∧ inactiveTwice.mgr.fullIRntiToUeIndex.toList.map Prod.snd = [0, 0] ∧
      inactiveTwice.mgr.shortIRntiToUeIndex.toList.map Prod.snd = [0, 0] := by
  decide +kernel

end Tracked

end OcuduRan.CuCp
