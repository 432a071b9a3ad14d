/-
What `calculate_update` plans (lib/cu_cp/up_resource_manager/up_resource_manager_helpers.cpp).

- `allocateDrbId_spec`: `allocate_drb_id` returns a free ID, or the invalid one when the context is at its limit or no
  ID is free.
- `Made`: each flow of a list has a DRB, the IDs of the DRBs are in range, not in use, not used since the last key
  change and differ, and there is no other DRB in the plan.
- `calculateSetup_ok`, `calculateModify_ok`: the computation comes to an end when the preferred IDs of a setup can be
  looked at and a modification releases flows of the sessions it names, and its plan is made for the first flows that
  the request has to add, in the order of sessions and QFIs, as many as there is `room` for. `calculateRelease_ok` is
  the plan of a release.
-/
import OcuduRan.Core.TreeMaps
import OcuduRan.CuCp.UpResourceManager

namespace OcuduRan.CuCp.Up

open Std (ExtTreeMap)
open ExceptFold TreeMaps UpConfigUpdate List

variable {ctx : UpContext} {cfg : UpCfg} {update : UpConfigUpdate} {new : UpPduSessionContextUpdate}
  {d p q s sNssai : ℕ} {preferred : Option ℕ} {drb : UpDrbContext} {params : QosParams}
  {new' : UpPduSessionContextUpdate} {oldFlow : Option (ExtTreeMap ℕ ℕ)} {session : UpPduSessionContext}

/-! ## DRB IDs -/

/-- a DRB ID that `get_used_drb_index` accepts -/
def InRange (d : ℕ) : Prop := 1 ≤ d ∧ d ≤ maxNofDrbs

instance (d : ℕ) : Decidable (InRange d) := inferInstanceAs (Decidable (_ ∧ _))

theorem InRange.ne_invalid (h : InRange d) : d ≠ drbIdInvalid := by
  have := h.2
  unfold maxNofDrbs at this
  unfold drbIdInvalid
  omega

theorem getUsedDrbIndex_of_inRange (h : InRange d) : getUsedDrbIndex d = .ok (d - 1) := if_pos h

/-- neither allocated nor used since the last key change -/
def Free (ctx : UpContext) (update : UpConfigUpdate) (new : UpPduSessionContextUpdate) (d : ℕ) : Prop :=
  isAllocated ctx update new d = false ∧ d ∉ ctx.usedDrbIds

instance (d : ℕ) : Decidable (Free ctx update new d) := inferInstanceAs (Decidable (_ ∧ _))

theorem isDrbIdFree_of_inRange (h : InRange d) :
    isDrbIdFree ctx update new d = .ok (decide (Free ctx update new d)) := by
  unfold isDrbIdFree
  cases halloc : isAllocated ctx update new d with
  | true =>
    rw [if_pos rfl]
    simp [Free, halloc]
  | false =>
    rw [if_neg Bool.false_ne_true, getUsedDrbIndex_of_inRange h, ok_bind]
    simp [Free, halloc]

/-- the scan from `d` on: the first free ID, or the invalid one when there is none -/
theorem scanDrbIds_spec (ctx : UpContext) (update : UpConfigUpdate) (new : UpPduSessionContextUpdate) (fuel : ℕ)
    (hd : 1 ≤ d) (hfuel : d + fuel = drbIdInvalid) (hpos : 0 < fuel) : ∃ r, scanDrbIds ctx update new fuel d = .ok r ∧
      (r = drbIdInvalid ∧ (∀ e, d ≤ e → e ≤ maxNofDrbs → ¬Free ctx update new e) ∨
        InRange r ∧ Free ctx update new r) := by
  induction fuel generalizing d with
  | zero => omega
  | succ fuel ih =>
    have hrange : InRange d := ⟨hd, by unfold drbIdInvalid at hfuel; unfold maxNofDrbs; omega⟩
    unfold scanDrbIds
    rw [isDrbIdFree_of_inRange hrange]
    by_cases hfree : Free ctx update new d
    · refine ⟨d, ?_, .inr ⟨hrange, hfree⟩⟩
      rw [ok_bind, if_pos (decide_eq_true hfree)]
    · rw [ok_bind, if_neg (by simpa using hfree)]
      by_cases hlast : d + 1 = drbIdInvalid
      · refine ⟨drbIdInvalid, if_pos hlast, .inl ⟨rfl, fun e hde he => ?_⟩⟩
        have heq : e = d := by unfold maxNofDrbs at he; unfold drbIdInvalid at hlast; omega
        exact heq ▸ hfree
      · obtain ⟨r, hr, hcases⟩ := ih (d := d + 1) (by omega) (by omega) (by omega)
        refine ⟨r, (if_neg hlast).trans hr, hcases.imp (fun ⟨hinv, hnone⟩ => ⟨hinv, fun e hde he => ?_⟩) id⟩
        rcases Nat.eq_or_lt_of_le hde with rfl | hlt
        · exact hfree
        · exact hnone e hlt he

/-- a preferred ID that can be looked at -/
def PreferredOk (preferred : Option ℕ) : Prop := ∀ p ∈ preferred, InRange p ∨ p = drbIdInvalid

instance (preferred : Option ℕ) : Decidable (PreferredOk preferred) := inferInstanceAs (Decidable (∀ p ∈ preferred, _))

/-- `allocate_drb_id`: a free ID; the invalid one only at the limit or when no ID is free -/
theorem allocateDrbId_spec (new : UpPduSessionContextUpdate) (ctx : UpContext) (update : UpConfigUpdate)
    (maxNofDrbsPerUe : ℕ) (hp : PreferredOk preferred) :
    ∃ r, allocateDrbId new ctx update maxNofDrbsPerUe preferred = .ok r ∧
      (r = drbIdInvalid ∧ (maxNofDrbsPerUe ≤ ctx.drbMap.size ∨ ∀ d, InRange d → ¬Free ctx update new d) ∨
        ctx.drbMap.size < maxNofDrbsPerUe ∧ InRange r ∧ Free ctx update new r) := by
  unfold allocateDrbId
  by_cases hlimit : maxNofDrbsPerUe ≤ ctx.drbMap.size
  · exact ⟨drbIdInvalid, if_pos hlimit, .inl ⟨rfl, .inl hlimit⟩⟩
  rw [if_neg hlimit]
  have hscan := scanDrbIds_spec ctx update new maxNofDrbs (d := 1) (le_refl 1) rfl (by decide)
  have hfallback : ∃ r, scanDrbIds ctx update new maxNofDrbs 1 = .ok r ∧
      (r = drbIdInvalid ∧ (maxNofDrbsPerUe ≤ ctx.drbMap.size ∨ ∀ d, InRange d → ¬Free ctx update new d) ∨
        ctx.drbMap.size < maxNofDrbsPerUe ∧ InRange r ∧ Free ctx update new r) := by
    obtain ⟨r, hr, ⟨hinv, hnone⟩ | hfree⟩ := hscan
    · exact ⟨r, hr, .inl ⟨hinv, .inr fun d hd => hnone d hd.1 hd.2⟩⟩
    · exact ⟨r, hr, .inr ⟨not_le.1 hlimit, hfree⟩⟩
  cases preferred with
  | none =>
    rw [reusePreferred, ok_bind, if_neg Bool.false_ne_true]
    exact hfallback
  | some p =>
    by_cases hpinv : p = drbIdInvalid
    · rw [reusePreferred, if_neg (not_not.2 hpinv), ok_bind, if_neg Bool.false_ne_true]
      exact hfallback
    · have hrange : InRange p := (hp p rfl).resolve_right hpinv
      rw [reusePreferred, if_pos hpinv, isDrbIdFree_of_inRange hrange, ok_bind]
      by_cases hfree : Free ctx update new p
      · rw [if_pos (decide_eq_true hfree)]
        exact ⟨p, rfl, .inr ⟨not_le.1 hlimit, hrange, hfree⟩⟩
      · rw [if_neg (by simpa using hfree)]
        exact hfallback

/-! ## QoS flows -/

/-- the DRB carries the flow `q` and no other -/
def Carries (drb : UpDrbContext) (q : ℕ) : Prop := ∀ k, k ∈ drb.qosFlows ↔ k = q

/-- a DRB carries one QoS flow -/
def OneFlow (drb : UpDrbContext) : Prop := ∃ q, Carries drb q

theorem carries_drbForFlow (new : UpPduSessionContextUpdate) (d q : ℕ) (params : QosParams) (dflt conf : Bool)
    (pdcp : PdcpConfig) : Carries (drbForFlow new d q params dflt conf pdcp) q := by
  intro k
  rw [eq_comm]
  simp [drbForFlow]

theorem OneFlow.size (h : OneFlow drb) : drb.qosFlows.size = 1 := by
  obtain ⟨q, hq⟩ := h
  rw [← card_keySet, Finset.card_eq_one]
  exact ⟨q, by ext k; simp [hq k]⟩

/-- the session plan with one more DRB -/
structure Extends (new new' : UpPduSessionContextUpdate) (d : ℕ) (drb : UpDrbContext) : Prop where
  id : new'.id = new.id
  remove : new'.drbToRemove = new.drbToRemove
  add : ∀ k : ℕ, new'.drbToAdd[k]? = if d = k then some drb else new.drbToAdd[k]?

theorem getFiveQi_mem (h : getFiveQi cfg params ≠ fiveQiInvalid) :
    getFiveQi cfg params = params.fiveQi ∧ params.fiveQi ∈ cfg.fiveQiConfig := by
  unfold getFiveQi at h ⊢
  split_ifs at h ⊢ with h1 h2
  · exact absurd rfl h
  · exact ⟨rfl, h2⟩
  · exact absurd rfl h

theorem setRrcPdcpConfig_ok {fiveQi : ℕ} (h : fiveQi ∈ cfg.fiveQiConfig) (integrity ciphering : Bool) :
    ∃ pdcp, setRrcPdcpConfig fiveQi cfg integrity ciphering = .ok pdcp := by
  obtain ⟨pdcp, hget⟩ := (mem_iff_exists _ _).1 h
  unfold setRrcPdcpConfig
  rw [hget]
  exact ⟨_, rfl⟩

/-- `allocate_qos_flow`: a new DRB under a free ID, or nothing at the limit and when no ID is free -/
theorem allocateQosFlow_spec (new : UpPduSessionContextUpdate) (q : ℕ) (update : UpConfigUpdate)
    (ctx : UpContext) (hqi : getFiveQi cfg params ≠ fiveQiInvalid)
    (hp : ctx.drbMap.size < cfg.maxNofDrbsPerUe → PreferredOk preferred) :
    ∃ r, allocateQosFlow new q params update ctx cfg preferred = .ok r ∧
      (r = (drbIdInvalid, new) ∧
          (cfg.maxNofDrbsPerUe ≤ ctx.drbMap.size ∨ ∀ d, InRange d → ¬Free ctx update new d) ∨
        ctx.drbMap.size < cfg.maxNofDrbsPerUe ∧ InRange r.1 ∧ Free ctx update new r.1 ∧
          ∃ drb, Carries drb q ∧ Extends new r.2 r.1 drb) := by
  unfold allocateQosFlow
  rw [if_neg hqi]
  by_cases hlimit : cfg.maxNofDrbsPerUe ≤ ctx.drbMap.size
  · exact ⟨_, if_pos hlimit, .inl ⟨rfl, .inl hlimit⟩⟩
  rw [if_neg hlimit]
  obtain ⟨d, hd, ⟨hinv, hnone⟩ | ⟨hbelow, hrange, hfree⟩⟩ :=
    allocateDrbId_spec new ctx update cfg.maxNofDrbsPerUe (hp (not_le.1 hlimit))
  · refine ⟨(drbIdInvalid, new), ?_, .inl ⟨rfl, hnone⟩⟩
    rw [hd, ok_bind, if_pos hinv]
  · obtain ⟨hqieq, hmem⟩ := getFiveQi_mem hqi
    obtain ⟨pdcp, hpdcp⟩ :=
      setRrcPdcpConfig_ok hmem new.integrityProtectionResult new.confidentialityProtectionResult
    let drb := drbForFlow new d q params ctx.drbMap.isEmpty (preferred = some d) pdcp
    refine ⟨(d, { new with drbToAdd := new.drbToAdd.insertIfNew d drb }), ?_,
      .inr ⟨hbelow, hrange, hfree, drb, carries_drbForFlow _ _ _ _ _ _ _, rfl, rfl, fun k => ?_⟩⟩
    · rw [hd, ok_bind, if_neg hrange.ne_invalid, hqieq, hpdcp, ok_bind]
    · have hnew : d ∉ new.drbToAdd := by
        have halloc := hfree.1
        simp only [isAllocated, Bool.or_eq_false_iff, decide_eq_false_iff_not] at halloc
        exact halloc.2
      simp [ExtTreeMap.getElem?_insertIfNew, hnew]

/-- `modify_qos_flow` adds no DRB -/
theorem modifyQosFlow_spec (new : UpPduSessionContextUpdate)
    (hq : ctx.qosFlowMap[q]? = some d) (hqi : getFiveQi cfg params ≠ fiveQiInvalid) :
    ∃ r, modifyQosFlow new q params ctx cfg = .ok r ∧ r.1 = d ∧ d ∈ r.2.drbToModify ∧ r.2.id = new.id ∧
      r.2.drbToRemove = new.drbToRemove ∧ r.2.drbToAdd = new.drbToAdd := by
  obtain ⟨pdcp, hpdcp⟩ := setRrcPdcpConfig_ok (getFiveQi_mem hqi).2 new.integrityProtectionResult
    new.confidentialityProtectionResult
  unfold modifyQosFlow
  rw [hq]
  simp only [hpdcp, ok_bind]
  refine ⟨_, rfl, rfl, ?_, rfl, rfl, rfl⟩
  simp [ExtTreeMap.mem_insertIfNew]

/-! ## Plans -/

/-- the plan adds DRB `d` to session `s` -/
def Adds (update : UpConfigUpdate) (s d : ℕ) (drb : UpDrbContext) : Prop :=
  ∃ su, (update.pduSessionsToSetupList[s]? = some su ∨ update.pduSessionsToModifyList[s]? = some su) ∧
    su.drbToAdd[d]? = some drb

theorem containsDrb_iff (update : UpConfigUpdate) (d : ℕ) :
    update.containsDrb d = true ↔ ∃ s drb, Adds update s d drb := by
  simp only [containsDrb, Bool.or_eq_true, any_eq_true, decide_eq_true_eq, Prod.exists,
    ExtTreeMap.mem_toList_iff_getElem?_eq_some, mem_iff_exists, Adds]
  constructor
  · rintro (⟨s, su, hsu, drb, hd⟩ | ⟨s, su, hsu, drb, hd⟩)
    · exact ⟨s, drb, su, .inl hsu, hd⟩
    · exact ⟨s, drb, su, .inr hsu, hd⟩
  · rintro ⟨s, drb, su, hsu | hsu, hd⟩
    · exact .inl ⟨s, su, hsu, drb, hd⟩
    · exact .inr ⟨s, su, hsu, drb, hd⟩

/-- the plan with the session under construction adds DRB `d` to session `s` -/
def AddsIn (update : UpConfigUpdate) (new : UpPduSessionContextUpdate) (s d : ℕ) (drb : UpDrbContext) : Prop :=
  Adds update s d drb ∨ s = new.id ∧ new.drbToAdd[d]? = some drb

/-- an ID for a new DRB: in range, not in use, not used since the last key change -/
def NewId (ctx : UpContext) (d : ℕ) : Prop := InRange d ∧ d ∉ ctx.drbMap ∧ d ∉ ctx.usedDrbIds

theorem free_iff (h : InRange d) :
    Free ctx update new d ↔ NewId ctx d ∧ ∀ s drb, ¬AddsIn update new s d drb := by
  have hcontains : update.containsDrb d = false ↔ ∀ s drb, ¬Adds update s d drb := by
    rw [← Bool.not_eq_true, containsDrb_iff]
    push Not
    rfl
  simp only [Free, NewId, isAllocated, Bool.or_eq_false_iff, decide_eq_false_iff_not, hcontains, AddsIn, not_or,
    mem_iff_exists new.drbToAdd, h, true_and]
  constructor
  · rintro ⟨⟨⟨hmap, hadds⟩, hnew⟩, hused⟩
    exact ⟨⟨hmap, hused⟩, fun s drb => ⟨hadds s drb, fun hd => hnew ⟨drb, hd.2⟩⟩⟩
  · rintro ⟨⟨hmap, hused⟩, hadds⟩
    exact ⟨⟨⟨hmap, fun s drb => (hadds s drb).1⟩, fun ⟨drb, hd⟩ => (hadds new.id drb).2 ⟨rfl, hd⟩⟩, hused⟩

/-- each flow of `given` has a DRB, their IDs are new and differ, and no other DRB is added -/
structure Made (ctx : UpContext) (given : List (ℕ × ℕ)) (adds : ℕ → ℕ → UpDrbContext → Prop) : Prop where
  fresh : ∀ s d drb, adds s d drb → NewId ctx d ∧ ∃ q, Carries drb q ∧ (s, q) ∈ given
  unique : ∀ s s' d drb drb', adds s d drb → adds s' d drb' → s = s' ∧ drb = drb'
  one : ∀ s d d' drb drb' q, adds s d drb → adds s d' drb' → q ∈ drb.qosFlows → q ∈ drb'.qosFlows → d = d'
  ids : ∃ T : Finset ℕ, T.card = given.length ∧ ∀ d, d ∈ T ↔ ∃ s drb, adds s d drb

section Made

variable {given l : List (ℕ × ℕ)} {adds adds' : ℕ → ℕ → UpDrbContext → Prop}

theorem made_nil (h : ∀ s d drb, ¬adds s d drb) : Made ctx [] adds where
  fresh s d drb hadd := absurd hadd (h s d drb)
  unique s _ d drb _ hadd _ := absurd hadd (h s d drb)
  one s d _ drb _ _ hadd _ _ _ := absurd hadd (h s d drb)
  ids := ⟨∅, rfl, by simp [h]⟩

theorem Made.congr (h : Made ctx given adds) (hadds : ∀ s d drb, adds' s d drb ↔ adds s d drb) :
    Made ctx given adds' := by
  have heq : adds' = adds := by
    funext s d drb
    exact propext (hadds s d drb)
  exact heq ▸ h

/-- one more flow, with a DRB of its own -/
theorem Made.extend (h : Made ctx given adds) (hnew : NewId ctx d) (hfree : ∀ s drb, ¬adds s d drb)
    (hflow : Carries drb q) (hq : (s, q) ∉ given)
    (hadds : ∀ s' d' drb', adds' s' d' drb' ↔ adds s' d' drb' ∨ s' = s ∧ d' = d ∧ drb' = drb) :
    Made ctx (given ++ [(s, q)]) adds' := by
  -- no other DRB of the session carries the flow
  have hother : ∀ d' drb' q', adds s d' drb' → q' ∈ drb'.qosFlows → q' ∉ drb.qosFlows := by
    intro d' drb' q' hadd hq' hq''
    obtain ⟨-, k, hk, hmem⟩ := h.fresh s d' drb' hadd
    rw [← (hk q').1 hq', (hflow q').1 hq''] at hmem
    exact hq hmem
  obtain ⟨T, hcard, hT⟩ := h.ids
  refine ⟨?_, ?_, ?_, insert d T, ?_, fun d' => ?_⟩
  · intro s' d' drb' hadd
    rcases (hadds s' d' drb').1 hadd with hadd | ⟨rfl, rfl, rfl⟩
    · obtain ⟨hid, k, hk, hmem⟩ := h.fresh s' d' drb' hadd
      exact ⟨hid, k, hk, mem_append_left _ hmem⟩
    · exact ⟨hnew, q, hflow, by simp⟩
  · intro s₁ s₂ d' drb₁ drb₂ h₁ h₂
    rcases (hadds _ _ _).1 h₁ with h₁ | ⟨rfl, rfl, rfl⟩
    · rcases (hadds _ _ _).1 h₂ with h₂ | ⟨rfl, rfl, rfl⟩
      · exact h.unique s₁ s₂ d' drb₁ drb₂ h₁ h₂
      · exact absurd h₁ (hfree _ _)
    · rcases (hadds _ _ _).1 h₂ with h₂ | ⟨rfl, -, rfl⟩
      · exact absurd h₂ (hfree _ _)
      · exact ⟨rfl, rfl⟩
  · intro s' d₁ d₂ drb₁ drb₂ q' h₁ h₂ hq₁ hq₂
    rcases (hadds _ _ _).1 h₁ with h₁ | ⟨rfl, rfl, rfl⟩
    · rcases (hadds _ _ _).1 h₂ with h₂ | ⟨rfl, rfl, rfl⟩
      · exact h.one s' d₁ d₂ drb₁ drb₂ q' h₁ h₂ hq₁ hq₂
      · exact absurd hq₂ (hother d₁ drb₁ q' h₁ hq₁)
    · rcases (hadds _ _ _).1 h₂ with h₂ | ⟨-, rfl, -⟩
      · exact absurd hq₁ (hother d₂ drb₂ q' h₂ hq₂)
      · rfl
  · rw [Finset.card_insert_of_notMem, hcard, length_append, length_singleton]
    rw [hT]
    rintro ⟨s', drb', hadd⟩
    exact hfree s' drb' hadd
  · simp only [Finset.mem_insert, hT, hadds, exists_or, ← and_assoc]
    simp [or_comm]

/-- the IDs that new DRBs may get -/
def freeIds (ctx : UpContext) : Finset ℕ :=
  (Finset.Icc 1 maxNofDrbs).filter fun d => d ∉ ctx.drbMap ∧ d ∉ ctx.usedDrbIds

theorem mem_freeIds : d ∈ freeIds ctx ↔ NewId ctx d := by
  simp only [freeIds, Finset.mem_filter, Finset.mem_Icc, NewId, InRange]

/-- the number of DRBs a request may add; the limit on their number is compared with the DRBs in use before it only -/
def room (cfg : UpCfg) (ctx : UpContext) : ℕ :=
  if cfg.maxNofDrbsPerUe ≤ ctx.drbMap.size then 0 else (freeIds ctx).card

/-- a flow that gets no DRB is behind those there is room for -/
theorem Made.full (h : Made ctx (l.take (room cfg ctx)) (AddsIn update new))
    (hnone : cfg.maxNofDrbsPerUe ≤ ctx.drbMap.size ∨ ∀ d, InRange d → ¬Free ctx update new d) (f : ℕ × ℕ) :
    Made ctx ((l ++ [f]).take (room cfg ctx)) (AddsIn update new) := by
  have hle : room cfg ctx ≤ l.length := by
    by_cases hlimit : cfg.maxNofDrbsPerUe ≤ ctx.drbMap.size
    · rw [room, if_pos hlimit]
      exact Nat.zero_le _
    · obtain ⟨T, hcard, hT⟩ := h.ids
      have hsub : freeIds ctx ⊆ T := by
        intro d hd
        have hnew := mem_freeIds.1 hd
        by_contra hd'
        refine hnone.resolve_left hlimit d hnew.1 ((free_iff hnew.1).2 ⟨hnew, fun s drb hadd => ?_⟩)
        exact hd' ((hT d).2 ⟨s, drb, hadd⟩)
      have hlen := Finset.card_le_card hsub
      rw [hcard, length_take] at hlen
      rw [room, if_neg hlimit] at hlen ⊢
      omega
  rw [take_append_of_le_length hle]
  exact h

/-- a flow that gets a DRB is one of those there is room for -/
theorem Made.give (h : Made ctx (l.take (room cfg ctx)) (AddsIn update new))
    (hlimit : ctx.drbMap.size < cfg.maxNofDrbsPerUe) (hrange : InRange d) (hfree : Free ctx update new d)
    (hflow : Carries drb q) (hq : (new.id, q) ∉ l) (hext : Extends new new' d drb) :
    Made ctx ((l ++ [(new.id, q)]).take (room cfg ctx)) (AddsIn update new') := by
  obtain ⟨hnew, hadds⟩ := (free_iff hrange).1 hfree
  have hlt : l.length < room cfg ctx := by
    obtain ⟨T, hcard, hT⟩ := h.ids
    have hsub : T ⊂ freeIds ctx := by
      refine (Finset.ssubset_iff_of_subset fun d' hd' => ?_).2 ⟨d, mem_freeIds.2 hnew, fun hd => ?_⟩
      · obtain ⟨s, drb', hadd⟩ := (hT d').1 hd'
        exact mem_freeIds.2 (h.fresh s d' drb' hadd).1
      · obtain ⟨s, drb', hadd⟩ := (hT d).1 hd
        exact hadds s drb' hadd
    have hlen := Finset.card_lt_card hsub
    rw [hcard, length_take] at hlen
    rw [room, if_neg (not_le.2 hlimit)] at hlen ⊢
    omega
  rw [take_of_length_le hlt.le] at h
  rw [take_of_length_le (by simpa using hlt)]
  refine h.extend hnew hadds hflow hq fun s' d' drb' => ?_
  have hnone : new.drbToAdd[d]? = none := by
    by_contra hsome
    obtain ⟨drb₀, h₀⟩ := Option.ne_none_iff_exists'.1 hsome
    exact hadds new.id drb₀ (.inr ⟨rfl, h₀⟩)
  simp only [AddsIn, hext.id, hext.add, or_assoc, ← and_or_left]
  by_cases hd : d = d'
  · subst hd
    simp [hnone, eq_comm]
  · simp [hd, Ne.symm hd]

end Made

/-- a finished session joins the plan, in the list it belongs to -/
theorem addsIn_of_join (update : UpConfigUpdate) (new : UpPduSessionContextUpdate) {update' : UpConfigUpdate}
    (hlists : (new.id ∉ update.pduSessionsToSetupList ∧
        update'.pduSessionsToSetupList = update.pduSessionsToSetupList.insertIfNew new.id new ∧
        update'.pduSessionsToModifyList = update.pduSessionsToModifyList) ∨
      (new.id ∉ update.pduSessionsToModifyList ∧ update'.pduSessionsToSetupList = update.pduSessionsToSetupList ∧
        update'.pduSessionsToModifyList = update.pduSessionsToModifyList.insertIfNew new.id new))
    (s d : ℕ) (drb : UpDrbContext) : Adds update' s d drb ↔ AddsIn update new s d drb := by
  rcases hlists with ⟨hnot, hsetup, hmodify⟩ | ⟨hnot, hsetup, hmodify⟩
  all_goals
    have hnone := ExtTreeMap.getElem?_eq_none hnot
    simp only [AddsIn, Adds, hsetup, hmodify, ExtTreeMap.getElem?_insertIfNew, hnot, not_false_eq_true, and_true,
      Std.LawfulEqCmp.compare_eq_iff_eq]
    by_cases hs : new.id = s
    · subst hs
      simp [hnone, or_and_right, exists_or, or_comm]
    · simp [hs, Ne.symm hs]

/-! ## Setup -/

/-- the preferred DRB ID of a flow -/
def preferredId (old : OldDrbAssociation) (s q : ℕ) : Option ℕ := old[s]?.bind fun m => m[q]?

/-- one flow: the session plan gets a DRB for it if there is room -/
theorem setupFlow_spec {l : List (ℕ × ℕ)} (sNssai : ℕ) (h : Made ctx (l.take (room cfg ctx)) (AddsIn update new))
    (hq : (new.id, q) ∉ l) (hqi : getFiveQi cfg params ≠ fiveQiInvalid)
    (hp : ctx.drbMap.size < cfg.maxNofDrbsPerUe → PreferredOk (oldFlow.bind fun m => m[q]?)) :
    ∃ new', setupFlow ctx cfg update sNssai oldFlow new (q, params) = .ok new' ∧ new'.id = new.id ∧
      Made ctx ((l ++ [(new.id, q)]).take (room cfg ctx)) (AddsIn update new') := by
  unfold setupFlow
  obtain ⟨r, hr, ⟨hnone, hwhy⟩ | ⟨hlimit, hrange, hfree, drb, hflow, hext⟩⟩ :=
    allocateQosFlow_spec new q update ctx hqi hp
  · rw [hr, ok_bind, if_pos (by rw [hnone])]
    exact ⟨new, rfl, rfl, h.full hwhy _⟩
  · have hget : r.2.drbToAdd[r.1]? = some drb := by rw [hext.add, if_pos rfl]
    rw [hr, ok_bind, if_neg hrange.ne_invalid, hget]
    have hflow' : Carries { drb with sNssai := sNssai } q := hflow
    refine ⟨_, rfl, hext.id, h.give hlimit hrange hfree hflow' hq ⟨hext.id, hext.remove, fun k => ?_⟩⟩
    simp only [ExtTreeMap.getElem?_insert, Std.LawfulEqCmp.compare_eq_iff_eq, hext.add]
    split_ifs <;> rfl

theorem isValidSetup_iff (ctx : UpContext) (cfg : UpCfg) (items : SetupItems) :
    isValidSetup ctx cfg items = true ↔ items.isEmpty = false ∧
      ∀ e ∈ items.toList, e.1 ∉ ctx.pduSessions ∧
        ∀ flow ∈ e.2.qosFlowSetupRequestItems.toList, getFiveQi cfg flow.2 ≠ fiveQiInvalid := by
  simp only [isValidSetup, Bool.and_eq_true, all_eq_true, decide_eq_true_eq, Bool.not_eq_true']

/-- the flows of sessions to be set up -/
def setupFlows (items : List (ℕ × SetupItem)) : List (ℕ × ℕ) :=
  items.flatMap fun e => e.2.qosFlowSetupRequestItems.toList.map fun flow => (e.1, flow.1)

/-- the entries of a map before the one at hand have other keys -/
theorem fst_notMem_of_toList {V : Type} {m : ExtTreeMap ℕ V} {done rest : List (ℕ × V)} {e : ℕ × V}
    (h : m.toList = done ++ e :: rest) : ∀ e' ∈ done, e'.1 ≠ e.1 := by
  have hkeys : (m.toList.map Prod.fst).Nodup := by
    rw [ExtTreeMap.map_fst_toList_eq_keys]
    exact nodup_keys m
  rw [h, map_append, map_cons, nodup_append] at hkeys
  exact fun e' he' => hkeys.2.2 e'.1 (mem_map_of_mem he') e.1 mem_cons_self

/-- a plan for sessions to be set up -/
structure SetupPlan (cfg : UpCfg) (ctx : UpContext) (items : List (ℕ × SetupItem)) (update : UpConfigUpdate) :
    Prop where
  made : Made ctx ((setupFlows items).take (room cfg ctx)) (Adds update)
  id : ∀ (s : ℕ) su, update.pduSessionsToSetupList[s]? = some su → su.id = s
  modify : update.pduSessionsToModifyList = ∅
  remove : update.pduSessionsToRemoveList = []
  sessions : ∀ s, s ∈ update.pduSessionsToSetupList → s ∉ ctx.pduSessions ∧ ∃ e ∈ items, e.1 = s

theorem setupPlan_new (cfg : UpCfg) (ctx : UpContext) (initial : Bool) : SetupPlan cfg ctx [] (.new initial) where
  made := by
    rw [setupFlows, flatMap_nil, take_nil]
    exact made_nil (by simp [new, Adds])
  id := by simp [new]
  modify := rfl
  remove := rfl
  sessions := by simp [new]

section Setup

variable {items : SetupItems} {old : OldDrbAssociation} {done : List (ℕ × SetupItem)} {item : SetupItem}

/-- one session of a valid setup request -/
theorem setupSession_spec (hplan : SetupPlan cfg ctx done update) (hnot : ∀ e ∈ done, e.1 ≠ s)
    (hnew : s ∉ ctx.pduSessions)
    (hqi : ∀ flow ∈ item.qosFlowSetupRequestItems.toList, getFiveQi cfg flow.2 ≠ fiveQiInvalid)
    (hp : ctx.drbMap.size < cfg.maxNofDrbsPerUe →
      ∀ flow ∈ item.qosFlowSetupRequestItems.toList, PreferredOk (preferredId old s flow.1)) :
    ∃ update', setupSession ctx cfg old update (s, item) = .ok update' ∧
      SetupPlan cfg ctx (done ++ [(s, item)]) update' := by
  unfold setupSession
  rw [if_neg hnew]
  obtain ⟨new, hfold, hid, hmade⟩ := foldlM_ok
    (I := fun flows new => new.id = s ∧
      Made ctx ((setupFlows done ++ flows.map fun flow => (s, flow.1)).take (room cfg ctx)) (AddsIn update new))
    (f := setupFlow ctx cfg update item.sNssai old[s]?) (l := item.qosFlowSetupRequestItems.toList)
    (b := UpPduSessionContextUpdate.new s) (fun flows flow rest new hl hI => by
      have hflow : flow ∈ item.qosFlowSetupRequestItems.toList := by simp [hl]
      have hq : (new.id, flow.1) ∉ setupFlows done ++ flows.map fun flow => (s, flow.1) := by
        rw [hI.1, mem_append, not_or]
        constructor
        · simp only [setupFlows, mem_flatMap, mem_map, not_exists, not_and]
          intro e he flow' _ heq
          exact hnot e he (congrArg Prod.fst heq)
        · simp only [mem_map, not_exists, not_and]
          intro flow' hflow' heq
          exact fst_notMem_of_toList hl flow' hflow' (congrArg Prod.snd heq)
      obtain ⟨new', h', hid', hmade'⟩ := setupFlow_spec item.sNssai hI.2 hq (hqi flow hflow)
        fun hlimit => hp hlimit flow hflow
      rw [hI.1, append_assoc] at hmade'
      exact ⟨new', h', hid'.trans hI.1, by rwa [map_append]⟩)
    ⟨rfl, by
      rw [map_nil, append_nil]
      exact hplan.made.congr (by simp [AddsIn, UpPduSessionContextUpdate.new])⟩
  have hflows : setupFlows (done ++ [(s, item)]) =
      setupFlows done ++ item.qosFlowSetupRequestItems.toList.map fun flow => (s, flow.1) := by
    simp [setupFlows]
  rw [← hflows] at hmade
  have hsessions : ∀ k, k ∈ update.pduSessionsToSetupList →
      k ∉ ctx.pduSessions ∧ ∃ e ∈ done ++ [(s, item)], e.1 = k := by
    intro k hk
    obtain ⟨hk', e, he, hek⟩ := hplan.sessions k hk
    exact ⟨hk', e, mem_append_left _ he, hek⟩
  rw [hfold, ok_bind]
  split_ifs with hempty
  · refine ⟨update, rfl, hmade.congr fun k d drb => ?_, hplan.id, hplan.modify, hplan.remove, hsessions⟩
    simp [AddsIn, ExtTreeMap.isEmpty_iff.1 hempty]
  · have hnone : new.id ∉ update.pduSessionsToSetupList := by
      intro hmem
      obtain ⟨-, e, he, hek⟩ := hplan.sessions _ hmem
      exact hnot e he (hek.trans hid)
    refine ⟨_, rfl, hmade.congr (addsIn_of_join update new (.inl ⟨hnone, rfl, rfl⟩)), fun k su hk => ?_, hplan.modify,
      hplan.remove,
      fun k hk => ?_⟩
    · rw [ExtTreeMap.getElem?_insertIfNew] at hk
      split_ifs at hk with hks
      · cases hk
        exact Std.LawfulEqCmp.compare_eq_iff_eq.1 hks.1
      · exact hplan.id k su hk
    · rcases ExtTreeMap.mem_insertIfNew.1 hk with hk | hk
      · rw [Std.LawfulEqCmp.compare_eq_iff_eq, hid] at hk
        exact hk ▸ ⟨hnew, (s, item), by simp, rfl⟩
      · exact hsessions k hk

/-- a valid setup request with preferred IDs that can be looked at, if they are, is planned -/
theorem calculateSetup_ok (hvalid : isValidSetup ctx cfg items = true) (hp : ctx.drbMap.size < cfg.maxNofDrbsPerUe →
    ∀ f ∈ setupFlows items.toList, PreferredOk (preferredId old f.1 f.2)) :
    ∃ update, calculateSetup items ctx cfg old = .ok update ∧ SetupPlan cfg ctx items.toList update := by
  obtain ⟨-, hitems⟩ := (isValidSetup_iff ctx cfg items).1 hvalid
  refine foldlM_ok (I := SetupPlan cfg ctx) (fun done e rest update hl hplan => ?_) (setupPlan_new cfg ctx _)
  have he : e ∈ items.toList := by simp [hl]
  obtain ⟨hnew, hqi⟩ := hitems e he
  refine setupSession_spec hplan (fst_notMem_of_toList hl) hnew hqi fun hlimit flow hflow => ?_
  exact hp hlimit (e.1, flow.1) (mem_flatMap.2 ⟨e, he, mem_map_of_mem hflow⟩)

end Setup

/-! ## Modification -/

/-- flow `q` of session `s` sits on DRB `d` of the session -/
def OnDrb (ctx : UpContext) (s q d : ℕ) : Prop :=
  d ∈ ctx.qosFlowMap[q]? ∧ ∃ session ∈ ctx.pduSessions[s]?, ∃ drb ∈ session.drbs[d]?, q ∈ drb.qosFlows

/-- the DRB that `qos_flow_map` has for the flow -/
def drbOf (ctx : UpContext) (q : ℕ) : ℕ := (ctx.qosFlowMap[q]?).getD 0

theorem OnDrb.drbOf (h : OnDrb ctx s q d) : drbOf ctx q = d := by
  rw [Up.drbOf, Option.mem_def.1 h.1]
  rfl

/-- what a session plan that is in the making leaves of the plan -/
structure Kept (update update' : UpConfigUpdate) : Prop where
  setup : update'.pduSessionsToSetupList = update.pduSessionsToSetupList
  modify : update'.pduSessionsToModifyList = update.pduSessionsToModifyList
  remove : update'.pduSessionsToRemoveList = update.pduSessionsToRemoveList

/-- one flow to be added or modified: a new DRB in the session plan for a flow that is not known, if there is room -/
theorem modifyFlow_spec {l : List (ℕ × ℕ)} (h : Made ctx (l.take (room cfg ctx)) (AddsIn update new))
    (hq : (new.id, q) ∉ l) (hqi : getFiveQi cfg params ≠ fiveQiInvalid) :
    ∃ st, modifyFlow ctx cfg s (update, new) (q, params) = .ok st ∧ Kept update st.1 ∧ st.2.id = new.id ∧
      st.2.drbToRemove = new.drbToRemove ∧
      Made ctx ((if q ∈ ctx.qosFlowMap then l else l ++ [(new.id, q)]).take (room cfg ctx)) (AddsIn st.1 st.2) := by
  unfold modifyFlow addOrModifyFlow
  by_cases hknown : q ∈ ctx.qosFlowMap
  · obtain ⟨d, hqd⟩ := (mem_iff_exists _ _).1 hknown
    obtain ⟨r, hr, hrd, hmod, hid, hrem, hadd⟩ := modifyQosFlow_spec new hqd hqi
    have h' : Made ctx (l.take (room cfg ctx)) (AddsIn update r.2) := h.congr (by simp [AddsIn, hid, hadd])
    simp only [if_pos hknown]
    rw [hr, ok_bind]
    by_cases hinv : r.1 = drbIdInvalid
    · rw [if_pos hinv]
      exact ⟨_, rfl, ⟨rfl, rfl, rfl⟩, hid, hrem, h'⟩
    · rw [if_neg hinv, if_pos (.inr (by rw [hrd]; exact hmod))]
      exact ⟨_, rfl, ⟨rfl, rfl, rfl⟩, hid, hrem, h'⟩
  · have hp : ctx.drbMap.size < cfg.maxNofDrbsPerUe → PreferredOk none := fun _ p hp => nomatch hp
    simp only [if_neg hknown]
    obtain ⟨r, hr, ⟨hnone, hwhy⟩ | ⟨hlimit, hrange, hfree, drb, hflow, hext⟩⟩ :=
      allocateQosFlow_spec new q update ctx hqi hp
    · rw [hr, ok_bind, if_pos (by rw [hnone]), hnone]
      exact ⟨_, rfl, ⟨rfl, rfl, rfl⟩, rfl, rfl, h.full hwhy _⟩
    · have hget : r.1 ∈ r.2.drbToAdd := (mem_iff_exists _ _).2 ⟨drb, by rw [hext.add, if_pos rfl]⟩
      rw [hr, ok_bind, if_neg hrange.ne_invalid, if_pos (.inr hget)]
      exact ⟨_, rfl, ⟨rfl, rfl, rfl⟩, hext.id, hext.remove, h.give hlimit hrange hfree hflow hq hext⟩

/-- the DRBs of the flows to be released, when each sits on a DRB of the session -/
theorem releaseFlows_ok (hsession : ctx.pduSessions[s]? = some session)
    (hsingle : ∀ (d : ℕ) drb, session.drbs[d]? = some drb → OneFlow drb)
    (l : List ℕ) (hon : ∀ q ∈ l, ∃ d, OnDrb ctx s q d) (new : UpPduSessionContextUpdate) :
    l.foldlM (releaseFlow ctx session) new =
      .ok { new with drbToRemove := new.drbToRemove ++ l.map (drbOf ctx) } := by
  induction l generalizing new with
  | nil => simp [pure, Except.pure]
  | cons q l ih =>
    obtain ⟨d, hd⟩ := hon q mem_cons_self
    have hdrbOf := hd.drbOf
    obtain ⟨hq, session', hsession', drb, hdrb, hmem⟩ := hd
    cases hsession.symm.trans hsession'
    have hround : releaseFlow ctx session new q = .ok { new with drbToRemove := new.drbToRemove ++ [d] } := by
      unfold releaseFlow
      simp only [Option.mem_def.1 hq, Option.mem_def.1 hdrb]
      rw [if_neg (not_not.2 hmem), if_pos (hsingle d drb hdrb).size]
    rw [foldlM_cons, hround, ok_bind, ih fun q' hq' => hon q' (mem_cons_of_mem _ hq')]
    simp [hdrbOf]

/-- the flows of sessions to be modified that are not known -/
def addedFlows (ctx : UpContext) (items : List (ℕ × ModifyItem)) : List (ℕ × ℕ) :=
  items.flatMap fun e =>
    (e.2.qosFlowAddOrModifyRequestList.toList.filter fun flow => flow.1 ∉ ctx.qosFlowMap).map fun flow => (e.1, flow.1)

/-- the flows to be released -/
def releasedFlows (items : List (ℕ × ModifyItem)) : List (ℕ × ℕ) :=
  items.flatMap fun e => e.2.qosFlowToReleaseList.keys.map fun q => (e.1, q)

/-- a plan for sessions to be modified -/
structure ModifyPlan (cfg : UpCfg) (ctx : UpContext) (items : List (ℕ × ModifyItem)) (update : UpConfigUpdate) :
    Prop where
  made : Made ctx ((addedFlows ctx items).take (room cfg ctx)) (Adds update)
  id : ∀ (s : ℕ) su, update.pduSessionsToModifyList[s]? = some su → su.id = s
  setup : update.pduSessionsToSetupList = ∅
  remove : update.pduSessionsToRemoveList = []
  sessions : ∀ (s : ℕ) su, update.pduSessionsToModifyList[s]? = some su →
    ∃ item, (s, item) ∈ items ∧ su.drbToRemove = item.qosFlowToReleaseList.keys.map (drbOf ctx)
  entries : ∀ e ∈ items, e.1 ∈ update.pduSessionsToModifyList

theorem modifyPlan_new (cfg : UpCfg) (ctx : UpContext) (initial : Bool) : ModifyPlan cfg ctx [] (.new initial) where
  made := by
    rw [addedFlows, flatMap_nil, take_nil]
    exact made_nil (by simp [new, Adds])
  id := by simp [new]
  setup := rfl
  remove := rfl
  sessions := by simp [new]
  entries := by simp

theorem isValidModify_iff (ctx : UpContext) (cfg : UpCfg) (items : ModifyItems) :
    isValidModify ctx cfg items = true ↔ items.isEmpty = false ∧
      ∀ e ∈ items.toList, ((e.1 ∈ ctx.pduSessions ∧
        ∀ flow ∈ e.2.qosFlowAddOrModifyRequestList.toList, getFiveQi cfg flow.2 ≠ fiveQiInvalid) ∧
        ∀ q ∈ e.2.qosFlowToReleaseList.keys, q ∈ ctx.qosFlowMap) ∧
        e.2.qosFlowToReleaseList.size < ctx.qosFlowMap.size := by
  simp only [isValidModify, Bool.and_eq_true, all_eq_true, decide_eq_true_eq, Bool.not_eq_true']

section Modify

variable {items : ModifyItems} {item : ModifyItem} {done : List (ℕ × ModifyItem)}

/-- the flows to be added or modified never end the program -/
theorem modifyFlows_ok (item : ModifyItem) (new : UpPduSessionContextUpdate) (hplan : ModifyPlan cfg ctx done update)
    (hnot : ∀ e ∈ done, e.1 ≠ s)
    (hqi : ∀ flow ∈ item.qosFlowAddOrModifyRequestList.toList, getFiveQi cfg flow.2 ≠ fiveQiInvalid)
    (hid : new.id = s) (hempty : new.drbToAdd = ∅) (hremove : new.drbToRemove = []) :
    ∃ st, item.qosFlowAddOrModifyRequestList.toList.foldlM (modifyFlow ctx cfg s) (update, new) = .ok st ∧
      Kept update st.1 ∧ st.2.id = s ∧ st.2.drbToRemove = [] ∧
      Made ctx ((addedFlows ctx (done ++ [(s, item)])).take (room cfg ctx)) (AddsIn st.1 st.2) := by
  have hflows : addedFlows ctx (done ++ [(s, item)]) = addedFlows ctx done ++
      (item.qosFlowAddOrModifyRequestList.toList.filter fun flow => flow.1 ∉ ctx.qosFlowMap).map fun flow =>
        (s, flow.1) := by
    simp [addedFlows]
  rw [hflows]
  refine foldlM_ok (I := fun (flows : List (ℕ × QosParams)) (st : UpConfigUpdate × UpPduSessionContextUpdate) =>
    Kept update st.1 ∧ st.2.id = s ∧ st.2.drbToRemove = [] ∧
    Made ctx ((addedFlows ctx done ++ (flows.filter fun flow => flow.1 ∉ ctx.qosFlowMap).map fun flow =>
      (s, flow.1)).take (room cfg ctx)) (AddsIn st.1 st.2)) (fun flows flow rest st hl hI => ?_) ?_
  · obtain ⟨hkept, hid, hrem, hmade⟩ := hI
    have hq : (st.2.id, flow.1) ∉ addedFlows ctx done ++
        (flows.filter fun flow => flow.1 ∉ ctx.qosFlowMap).map fun flow => (s, flow.1) := by
      rw [hid, mem_append, not_or]
      constructor
      · simp only [addedFlows, mem_flatMap, mem_map, not_exists, not_and]
        intro e he flow' _ heq
        exact hnot e he (congrArg Prod.fst heq)
      · simp only [mem_map, not_exists, not_and]
        intro flow' hflow' heq
        exact fst_notMem_of_toList hl flow' (mem_of_mem_filter hflow') (congrArg Prod.snd heq)
    obtain ⟨st', h', hkept', hid', hrem', hmade'⟩ := modifyFlow_spec (s := s) hmade hq (hqi flow (by simp [hl]))
    refine ⟨st', h', ⟨hkept'.setup.trans hkept.setup, hkept'.modify.trans hkept.modify,
      hkept'.remove.trans hkept.remove⟩, hid'.trans hid, hrem'.trans hrem, ?_⟩
    by_cases hknown : flow.1 ∈ ctx.qosFlowMap
    · rw [if_pos hknown] at hmade'
      simpa [hknown] using hmade'
    · rw [if_neg hknown, hid, append_assoc] at hmade'
      simpa [hknown] using hmade'
  · refine ⟨⟨rfl, rfl, rfl⟩, hid, hremove, ?_⟩
    rw [filter_nil, map_nil, append_nil]
    exact hplan.made.congr (by simp [AddsIn, hempty])

/-- one session of a valid modify request whose released flows sit on DRBs of the session -/
theorem modifySession_spec (hplan : ModifyPlan cfg ctx done update) (hnot : ∀ e ∈ done, e.1 ≠ s)
    (hsession : ctx.pduSessions[s]? = some session)
    (hsingle : ∀ (d : ℕ) drb, session.drbs[d]? = some drb → OneFlow drb)
    (hqi : ∀ flow ∈ item.qosFlowAddOrModifyRequestList.toList, getFiveQi cfg flow.2 ≠ fiveQiInvalid)
    (hon : ∀ q ∈ item.qosFlowToReleaseList.keys, ∃ d, OnDrb ctx s q d) :
    ∃ update', modifySession ctx cfg update (s, item) = .ok update' ∧
      ModifyPlan cfg ctx (done ++ [(s, item)]) update' := by
  unfold modifySession
  simp only [hsession]
  obtain ⟨st, hst, hkept, hid, hrem, hmade⟩ := modifyFlows_ok item
    { UpPduSessionContextUpdate.new s with
      integrityProtectionResult := session.integrityProtectionResult
      confidentialityProtectionResult := session.confidentialityProtectionResult } hplan hnot hqi rfl rfl rfl
  rw [hst, ok_bind, releaseFlows_ok hsession hsingle _ hon, ok_bind, hrem, nil_append]
  have hnone : st.2.id ∉ st.1.pduSessionsToModifyList := by
    rw [hkept.modify, hid]
    intro hmem
    obtain ⟨su, hsu⟩ := (mem_iff_exists _ _).1 hmem
    obtain ⟨item', hitem', -⟩ := hplan.sessions s su hsu
    exact hnot _ hitem' rfl
  refine ⟨_, rfl, hmade.congr (addsIn_of_join st.1
    { st.2 with drbToRemove := item.qosFlowToReleaseList.keys.map (drbOf ctx) } (.inr ⟨hnone, rfl, rfl⟩)),
    fun k su hk => ?_, hkept.setup.trans hplan.setup, hkept.remove.trans hplan.remove, fun k su hk => ?_, fun e he =>
      ?_⟩
  · rw [ExtTreeMap.getElem?_insertIfNew, hkept.modify] at hk
    split_ifs at hk with hks
    · cases hk
      exact Std.LawfulEqCmp.compare_eq_iff_eq.1 hks.1
    · exact hplan.id k su hk
  · rw [ExtTreeMap.getElem?_insertIfNew, hkept.modify] at hk
    split_ifs at hk with hks
    · cases hk
      rw [← Std.LawfulEqCmp.compare_eq_iff_eq.1 hks.1, hid]
      exact ⟨item, by simp, rfl⟩
    · obtain ⟨item', hitem', hrem'⟩ := hplan.sessions k su hk
      exact ⟨item', mem_append_left _ hitem', hrem'⟩
  · rw [ExtTreeMap.mem_insertIfNew, Std.LawfulEqCmp.compare_eq_iff_eq, hid, hkept.modify]
    rcases mem_append.1 he with he | he
    · exact .inr (hplan.entries e he)
    · exact .inl (by rw [mem_singleton.1 he])

/-- a valid modify request that releases flows of the sessions it names is planned -/
theorem calculateModify_ok (hsingle : ∀ (s : ℕ) session, ctx.pduSessions[s]? = some session →
      ∀ (d : ℕ) drb, session.drbs[d]? = some drb → OneFlow drb) (hvalid : isValidModify ctx cfg items = true)
    (hon : ∀ f ∈ releasedFlows items.toList, ∃ d, OnDrb ctx f.1 f.2 d) :
    ∃ update, calculateModify items ctx cfg = .ok update ∧ ModifyPlan cfg ctx items.toList update := by
  obtain ⟨-, hitems⟩ := (isValidModify_iff ctx cfg items).1 hvalid
  refine foldlM_ok (I := ModifyPlan cfg ctx) (fun done e rest update hl hplan => ?_) (modifyPlan_new cfg ctx _)
  have he : e ∈ items.toList := by simp [hl]
  obtain ⟨⟨⟨hmem, hqi⟩, -⟩, -⟩ := hitems e he
  obtain ⟨session, hsession⟩ := (mem_iff_exists _ _).1 hmem
  refine modifySession_spec hplan (fst_notMem_of_toList hl) hsession (hsingle e.1 session hsession) hqi fun q hq => ?_
  exact hon (e.1, q) (mem_flatMap.2 ⟨e, he, mem_map_of_mem hq⟩)

end Modify

/-! ## Release -/

/-- a release of existing sessions is planned as it stands -/
theorem calculateRelease_ok {items : ReleaseItems} (hvalid : isValidRelease ctx items = true) :
    ∃ update, calculateRelease items ctx = .ok update ∧ update.pduSessionsToSetupList = ∅ ∧
      update.pduSessionsToModifyList = ∅ ∧ update.pduSessionsToRemoveList = items.keys := by
  have hall : ∀ psi ∈ items.keys, psi ∈ ctx.pduSessions := by
    simp only [isValidRelease, Bool.and_eq_true, all_eq_true, decide_eq_true_eq] at hvalid
    exact hvalid.2
  have hloop : ∀ (l : List ℕ) (update : UpConfigUpdate), (∀ psi ∈ l, psi ∈ ctx.pduSessions) →
      ∃ update', l.foldlM (releaseSession ctx) update = .ok update' ∧
        update'.pduSessionsToSetupList = update.pduSessionsToSetupList ∧
        update'.pduSessionsToModifyList = update.pduSessionsToModifyList ∧
        update'.pduSessionsToRemoveList = update.pduSessionsToRemoveList ++ l := by
    intro l
    induction l with
    | nil =>
      intro update _
      exact ⟨update, rfl, rfl, rfl, by simp⟩
    | cons psi l ih =>
      intro update hmem
      obtain ⟨session, hsession⟩ := (mem_iff_exists _ _).1 (hmem psi mem_cons_self)
      have hround : releaseSession ctx update psi = .ok { update with
          drbToRemoveList := update.drbToRemoveList ++ session.drbs.keys
          pduSessionsToRemoveList := update.pduSessionsToRemoveList ++ [psi] } := by
        simp only [releaseSession, hsession]
      rw [foldlM_cons, hround, ok_bind]
      obtain ⟨update', h', hs, hm, hr⟩ := ih _ fun p hp => hmem p (mem_cons_of_mem _ hp)
      exact ⟨update', h', hs, hm, by rw [hr]; simp⟩
  obtain ⟨update, h, hs, hm, hr⟩ := hloop items.keys (.new true) hall
  exact ⟨update, h, hs, hm, by rw [hr]; rfl⟩

end OcuduRan.CuCp.Up
