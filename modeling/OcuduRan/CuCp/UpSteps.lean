/-
One request on the user-plane resource manager: `validate_request`, `calculate_update` and `apply_config_update` in a
row (lib/cu_cp/up_resource_manager/up_resource_manager_impl.cpp).

A request is described by the flows for which it wants a DRB, in the order of sessions and QFIs, the DRB IDs preferred
for them and the flows it releases. `admitted` are the flows that get a DRB. `Outcome` lists what a request that returns
has done: nothing when it was refused, `Updated` after a setup or a modification, `Released` after a release, and the
used DRB IDs rebuilt after a key change. `perform_of_planable`: a request returns, with one of the outcomes, when the
preferred DRB IDs of a setup can be looked at and the flows a modification releases are on DRBs of the session it
releases them from. Once there is a plan nothing stands in the way of applying it.
-/
import OcuduRan.CuCp.UpApply

namespace OcuduRan.CuCp.Up

open Std (ExtTreeMap)
open ExceptFold TreeMaps UpPduSessionContextUpdate List

variable {ctx ctx' : UpContext} {cfg : UpCfg} {update : UpConfigUpdate} {given : List (ℕ × ℕ)} {s d q : ℕ}
  {m : ExtTreeMap ℕ UpPduSessionContextUpdate} {su : UpPduSessionContextUpdate} {items : SetupItems} {o : UpOp}

/-! ## The sessions of a plan, as the loops visit them -/

/-- the sessions of a list of the plan -/
def sessionsOf (m : ExtTreeMap ℕ UpPduSessionContextUpdate) : List UpPduSessionContextUpdate := m.toList.map Prod.snd

theorem mem_sessionsOf : su ∈ sessionsOf m ↔ ∃ s : ℕ, m[s]? = some su := by
  simp only [sessionsOf, mem_map, Prod.exists, exists_eq_right, ExtTreeMap.mem_toList_iff_getElem?_eq_some]

theorem getElem?_of_mem_sessionsOf
    (hid : ∀ (s : ℕ) (su : UpPduSessionContextUpdate), m[s]? = some su → su.id = s) (h : su ∈ sessionsOf m) :
    m[su.id]? = some su := by
  obtain ⟨s, hs⟩ := mem_sessionsOf.1 h
  rw [hid s su hs]
  exact hs

/-- a loop over no session changes nothing -/
theorem foldlM_sessionsOf_empty (f : UpContext → UpPduSessionContextUpdate → Except UpFault UpContext)
    (ctx : UpContext) : (sessionsOf ∅).foldlM f ctx = .ok ctx := rfl

/-- different entries of a list are for different sessions -/
theorem pairwise_sessionsOf (hid : ∀ (s : ℕ) (su : UpPduSessionContextUpdate), m[s]? = some su → su.id = s) :
    (sessionsOf m).Pairwise fun su su' => su.id ≠ su'.id := by
  have hkeys : (m.toList.map Prod.fst).Nodup := by
    rw [ExtTreeMap.map_fst_toList_eq_keys]
    exact nodup_keys m
  rw [sessionsOf, pairwise_map]
  refine (pairwise_map.1 hkeys).imp_of_mem ?_
  intro e e' he he' hne heq
  have h1 := hid e.1 e.2 (ExtTreeMap.mem_toList_iff_getElem?_eq_some.1 he)
  have h2 := hid e'.1 e'.2 (ExtTreeMap.mem_toList_iff_getElem?_eq_some.1 he')
  exact hne (h1.symm.trans (heq.trans h2))

/-- the DRBs of a plan that fills one of its lists -/
theorem adds_iff_sessionsOf (hid : ∀ (s : ℕ) (su : UpPduSessionContextUpdate), m[s]? = some su → su.id = s)
    (hm : update.pduSessionsToSetupList = m ∧ update.pduSessionsToModifyList = ∅ ∨
      update.pduSessionsToSetupList = ∅ ∧ update.pduSessionsToModifyList = m) (s d : ℕ) (drb : UpDrbContext) :
    Adds update s d drb ↔ ∃ su ∈ sessionsOf m, su.id = s ∧ su.drbToAdd[d]? = some drb := by
  have hlists : ∀ su, update.pduSessionsToSetupList[s]? = some su ∨ update.pduSessionsToModifyList[s]? = some su ↔
      m[s]? = some su := by
    rcases hm with ⟨h1, h2⟩ | ⟨h1, h2⟩ <;> simp [h1, h2]
  simp only [Adds, hlists]
  constructor
  · rintro ⟨su, hsu, hd⟩
    exact ⟨su, mem_sessionsOf.2 ⟨s, hsu⟩, hid s su hsu, hd⟩
  · rintro ⟨su, hsu, rfl, hd⟩
    exact ⟨su, getElem?_of_mem_sessionsOf hid hsu, hd⟩

/-- one of the two lists of a plan can be applied session after session -/
theorem Made.batch (hmade : Made ctx given (Adds update))
    {rem : UpPduSessionContextUpdate → List ℕ}
    (hid : ∀ (s : ℕ) (su : UpPduSessionContextUpdate), m[s]? = some su → su.id = s)
    (hadds : ∀ (s d : ℕ) (su : UpPduSessionContextUpdate) (drb : UpDrbContext), m[s]? = some su →
      su.drbToAdd[d]? = some drb → Adds update s d drb)
    (hrem : ∀ (s : ℕ) (su : UpPduSessionContextUpdate), m[s]? = some su →
      (∀ d ∈ rem su, ∃ drb, Live ctx s d drb) ∧ (rem su).Nodup) : Batch ctx rem (sessionsOf m) := by
  have hids := pairwise_sessionsOf hid
  refine ⟨fun su hsu => ?_, hids, hids.imp_of_mem ?_⟩
  · have hget := getElem?_of_mem_sessionsOf hid hsu
    obtain ⟨hown, hnodup⟩ := hrem su.id su hget
    refine ⟨fun d drb hd => ?_, hown, hnodup⟩
    obtain ⟨hnew, q, hcarries, -⟩ := hmade.fresh su.id d drb (hadds su.id d su drb hget hd)
    exact ⟨hnew.1, hnew.2.1, q, hcarries⟩
  · intro su su' hsu hsu' hne d hd hd'
    obtain ⟨drb, hdrb⟩ := (mem_iff_exists _ _).1 hd
    obtain ⟨drb', hdrb'⟩ := (mem_iff_exists _ _).1 hd'
    exact hne (hmade.unique _ _ d drb drb' (hadds _ d su drb (getElem?_of_mem_sessionsOf hid hsu) hdrb)
      (hadds _ d su' drb' (getElem?_of_mem_sessionsOf hid hsu') hdrb')).1

theorem applyConfigUpdate_eq (ctx : UpContext) (update : UpConfigUpdate) :
    applyConfigUpdate ctx update = ((sessionsOf update.pduSessionsToSetupList).foldlM applyAdded ctx >>= fun ctx =>
      (sessionsOf update.pduSessionsToModifyList).foldlM applyModified ctx >>= fun ctx =>
        update.pduSessionsToRemoveList.foldlM applyRemoved ctx) := rfl

/-! ## What a request asks for -/

def isValid (cfg : UpCfg) (ctx : UpContext) : UpOp → Bool
  | .setup items _ => isValidSetup ctx cfg items
  | .modify items => isValidModify ctx cfg items
  | .release items => isValidRelease ctx items
  | .keyChange => true

/-- the flows that are to get a DRB, each with its session -/
def flowsToAdd (ctx : UpContext) : UpOp → List (ℕ × ℕ)
  | .setup items _ => setupFlows items.toList
  | .modify items => addedFlows ctx items.toList
  | _ => []

/-- the DRB IDs preferred for them -/
def preferredIds (ctx : UpContext) : UpOp → List (Option ℕ)
  | .setup items old => (setupFlows items.toList).map fun f => preferredId old f.1 f.2
  | .modify items => (addedFlows ctx items.toList).map fun _ => none
  | _ => []

/-- the flows a modification releases -/
def flowsToRelease : UpOp → List (ℕ × ℕ)
  | .modify items => releasedFlows items.toList
  | _ => []

/-- the flows that get a DRB: the first ones, as many as there is room for -/
def admitted (cfg : UpCfg) (ctx : UpContext) (o : UpOp) : List (ℕ × ℕ) := (flowsToAdd ctx o).take (room cfg ctx)

/-- the preferred IDs can be looked at, at the limit none is, and released flows are on DRBs of the sessions named -/
def Planable (cfg : UpCfg) (ctx : UpContext) (o : UpOp) : Prop :=
  (ctx.drbMap.size < cfg.maxNofDrbsPerUe → ∀ p ∈ preferredIds ctx o, PreferredOk p) ∧
    ∀ f ∈ flowsToRelease o, ∃ d, OnDrb ctx f.1 f.2 d

instance (f : ℕ × ℕ) : Decidable (∃ d, OnDrb ctx f.1 f.2 d) :=
  inferInstanceAs (Decidable (∃ d ∈ ctx.qosFlowMap[f.2]?, ∃ session ∈ ctx.pduSessions[f.1]?, ∃ drb ∈ session.drbs[d]?,
    f.2 ∈ drb.qosFlows))

instance : Decidable (Planable cfg ctx o) := inferInstanceAs (Decidable (_ ∧ _))

theorem OnDrb.live (h : OnDrb ctx s q d) : ∃ drb, Live ctx s d drb ∧ q ∈ drb.qosFlows := by
  obtain ⟨-, session, hsession, drb, hdrb, hq⟩ := h
  exact ⟨drb, ⟨session, hsession, hdrb⟩, hq⟩

/-- a DRB is of one session and carries one flow -/
theorem OnDrb.unique {s' q' : ℕ} (hlinked : Linked ctx) (h : OnDrb ctx s q d) (h' : OnDrb ctx s' q' d) :
    s = s' ∧ q = q' := by
  obtain ⟨drb, hl, hq⟩ := h.live
  obtain ⟨drb', hl', hq'⟩ := h'.live
  obtain rfl := hlinked.session_unique hl hl'
  obtain rfl := hl.eq hl'
  obtain ⟨k, hk⟩ := hlinked.single s d drb hl
  exact ⟨rfl, ((hk q).1 hq).trans ((hk q').1 hq').symm⟩

/-! ## Outcomes -/

/-- the context after a setup or a modification -/
structure Updated (cfg : UpCfg) (ctx : UpContext) (o : UpOp) (update : UpConfigUpdate) (ctx' : UpContext) : Prop where
  linked : Linked ctx'
  live : ∀ s d drb, Live ctx' s d drb ↔
    Live ctx s d drb ∧ (¬∃ q, (s, q) ∈ flowsToRelease o ∧ OnDrb ctx s q d) ∨ Adds update s d drb
  used : ∀ d, d ∈ ctx.usedDrbIds → d ∈ ctx'.usedDrbIds
  flowsFound : FlowsFound ctx → (∀ f ∈ admitted cfg ctx o, f.2 ∉ ctx.qosFlowMap) →
    ((admitted cfg ctx o).map Prod.snd).Nodup → FlowsFound ctx'

/-- the flows of a plan are the flows of the sessions in the list that it fills -/
theorem Made.freshBatch (hmade : Made ctx given (Adds update)) {l : List UpPduSessionContextUpdate}
    (hadds : ∀ s d drb, Adds update s d drb ↔ ∃ su ∈ l, su.id = s ∧ su.drbToAdd[d]? = some drb)
    (hnew : ∀ f ∈ given, f.2 ∉ ctx.qosFlowMap) (hdiffer : (given.map Prod.snd).Nodup) : FreshBatch ctx l := by
  have hgiven : ∀ su ∈ l, ∀ (d : ℕ) drb q, su.drbToAdd[d]? = some drb → q ∈ drb.qosFlows →
      Adds update su.id d drb ∧ (su.id, q) ∈ given := by
    intro su hsu d drb q hd hq
    have hadd := (hadds su.id d drb).2 ⟨su, hsu, rfl, hd⟩
    obtain ⟨-, k, hk, hmem⟩ := hmade.fresh su.id d drb hadd
    rw [(hk q).1 hq]
    exact ⟨hadd, hmem⟩
  refine ⟨fun su hsu d drb q hd hq => hnew _ (hgiven su hsu d drb q hd hq).2, ?_⟩
  intro su hsu su' hsu' d d' drb drb' q hd hd' hq hq'
  obtain ⟨hadd, hmem⟩ := hgiven su hsu d drb q hd hq
  obtain ⟨hadd', hmem'⟩ := hgiven su' hsu' d' drb' q hd' hq'
  have hsame : su.id = su'.id := congrArg Prod.fst (inj_on_of_nodup_map hdiffer hmem hmem' rfl)
  exact hmade.one su.id d d' drb drb' q hadd (hsame ▸ hadd') hq hq'

theorem updated_of_changed {rem : UpPduSessionContextUpdate → List ℕ} {l : List UpPduSessionContextUpdate}
    (hmade : Made ctx (admitted cfg ctx o) (Adds update))
    (hadds : ∀ s d drb, Adds update s d drb ↔ ∃ su ∈ l, su.id = s ∧ su.drbToAdd[d]? = some drb)
    (hrem : ∀ s d, (∃ su ∈ l, su.id = s ∧ d ∈ rem su) ↔ ∃ q, (s, q) ∈ flowsToRelease o ∧ OnDrb ctx s q d)
    (hchanged : Changed ctx ctx' rem l) : Updated cfg ctx o update ctx' where
  linked := hchanged.linked
  live s d drb := by rw [hchanged.live, hrem, hadds]
  used d hd := (hchanged.used d).2 (.inl hd)
  flowsFound hf hnew hdiffer := hchanged.flowsFound hf (hmade.freshBatch hadds hnew hdiffer)

/-- nothing is removed when sessions are set up -/
def noRemoval : UpPduSessionContextUpdate → List ℕ := fun _ => []

theorem applyConfigUpdate_setup (old : OldDrbAssociation) (h : Linked ctx)
    (hplan : SetupPlan cfg ctx items.toList update) :
    ∃ ctx', applyConfigUpdate ctx update = .ok ctx' ∧ Updated cfg ctx (.setup items old) update ctx' := by
  have hb : Batch ctx noRemoval (sessionsOf update.pduSessionsToSetupList) :=
    hplan.made.batch hplan.id (fun s d su drb hs hd => ⟨su, .inl hs, hd⟩)
      fun _ _ _ => ⟨fun d hd => absurd hd not_mem_nil, nodup_nil⟩
  have hnew : ∀ su ∈ sessionsOf update.pduSessionsToSetupList, (su.id ∈ ctx.pduSessions ↔ False) := by
    intro su hsu
    have hget := getElem?_of_mem_sessionsOf hplan.id hsu
    exact iff_of_false (hplan.sessions su.id ((mem_iff_exists _ _).2 ⟨su, hget⟩)).1 id
  obtain ⟨ctx', h', hchanged⟩ := batch_spec (f := applyAdded)
    (fun ctx su hl hsu hready => applyAdded_spec hl (fun hmem => hsu.1 hmem) hready) hb h hnew
  refine ⟨ctx', ?_, updated_of_changed hplan.made (adds_iff_sessionsOf hplan.id (.inl ⟨rfl, hplan.modify⟩))
    (by simp [flowsToRelease]) hchanged⟩
  rw [applyConfigUpdate_eq, h', ok_bind, hplan.modify, foldlM_sessionsOf_empty, ok_bind, hplan.remove]
  rfl

theorem applyConfigUpdate_modify {items : ModifyItems} (h : Linked ctx) (hplan : ModifyPlan cfg ctx items.toList update)
    (hon : ∀ f ∈ releasedFlows items.toList, ∃ d, OnDrb ctx f.1 f.2 d)
    (hsessions : ∀ e ∈ items.toList, e.1 ∈ ctx.pduSessions) :
    ∃ ctx', applyConfigUpdate ctx update = .ok ctx' ∧ Updated cfg ctx (.modify items) update ctx' := by
  -- the DRBs to be removed are those of the flows to be released
  have hreleased : ∀ (s : ℕ) su, update.pduSessionsToModifyList[s]? = some su → ∃ item, (s, item) ∈ items.toList ∧
      su.drbToRemove = item.qosFlowToReleaseList.keys.map (drbOf ctx) ∧
      ∀ q ∈ item.qosFlowToReleaseList.keys, (s, q) ∈ flowsToRelease (.modify items) ∧ OnDrb ctx s q (drbOf ctx q) := by
    intro s su hsu
    obtain ⟨item, hitem, hrem⟩ := hplan.sessions s su hsu
    refine ⟨item, hitem, hrem, fun q hq => ?_⟩
    have hmem : (s, q) ∈ releasedFlows items.toList := mem_flatMap.2 ⟨(s, item), hitem, mem_map_of_mem hq⟩
    obtain ⟨d, hd⟩ := hon (s, q) hmem
    exact ⟨hmem, hd.drbOf.symm ▸ hd⟩
  have hrem : ∀ s d, (∃ su ∈ sessionsOf update.pduSessionsToModifyList, su.id = s ∧ d ∈ su.drbToRemove) ↔
      ∃ q, (s, q) ∈ flowsToRelease (.modify items) ∧ OnDrb ctx s q d := by
    intro s d
    constructor
    · rintro ⟨su, hsu, rfl, hd⟩
      obtain ⟨item, -, hrem, hkeys⟩ := hreleased su.id su (getElem?_of_mem_sessionsOf hplan.id hsu)
      rw [hrem] at hd
      obtain ⟨q, hq, rfl⟩ := mem_map.1 hd
      exact ⟨q, hkeys q hq⟩
    · rintro ⟨q, hq, hd⟩
      obtain ⟨e, he, hq⟩ := mem_flatMap.1 hq
      obtain ⟨q', hq', heq⟩ := mem_map.1 hq
      cases heq
      obtain ⟨su, hsu⟩ := (mem_iff_exists _ _).1 (hplan.entries e he)
      obtain ⟨item, hitem, hrem, -⟩ := hreleased e.1 su hsu
      refine ⟨su, mem_sessionsOf.2 ⟨e.1, hsu⟩, hplan.id e.1 su hsu, ?_⟩
      have hsame : items[e.1]? = some e.2 := ExtTreeMap.mem_toList_iff_getElem?_eq_some.1 he
      rw [ExtTreeMap.mem_toList_iff_getElem?_eq_some.1 hitem] at hsame
      cases hsame
      rw [hrem, ← hd.drbOf]
      exact mem_map_of_mem hq'
  have hb : Batch ctx drbToRemove (sessionsOf update.pduSessionsToModifyList) := by
    refine hplan.made.batch hplan.id (fun s d su drb hs hd => ⟨su, .inr hs, hd⟩) fun s su hs => ?_
    obtain ⟨item, -, hrem, hkeys⟩ := hreleased s su hs
    rw [hrem]
    refine ⟨fun d hd => ?_, (nodup_keys item.qosFlowToReleaseList).map_on fun q hq q' hq' heq => ?_⟩
    · obtain ⟨q, hq, rfl⟩ := mem_map.1 hd
      obtain ⟨drb, hl, -⟩ := (hkeys q hq).2.live
      exact ⟨drb, hl⟩
    · exact ((hkeys q hq).2.unique h (heq ▸ (hkeys q' hq').2)).2
  have hold : ∀ su ∈ sessionsOf update.pduSessionsToModifyList, (su.id ∈ ctx.pduSessions ↔ True) := by
    intro su hsu
    obtain ⟨item, hitem, -⟩ := hreleased su.id su (getElem?_of_mem_sessionsOf hplan.id hsu)
    exact iff_of_true (hsessions _ hitem) trivial
  obtain ⟨ctx', h', hchanged⟩ := batch_spec (f := applyModified)
    (fun ctx su hl hsu hready => applyModified_spec hl (hsu.2 trivial) hready) hb h hold
  refine ⟨ctx', ?_, updated_of_changed hplan.made (adds_iff_sessionsOf hplan.id (.inr ⟨hplan.setup, rfl⟩)) hrem
    hchanged⟩
  rw [applyConfigUpdate_eq, hplan.setup, foldlM_sessionsOf_empty, ok_bind, h', ok_bind, hplan.remove]
  rfl

/-- what a request that returns has done -/
inductive Outcome (cfg : UpCfg) (ctx : UpContext) : UpOp → UpContext → Prop where
  | refused {o : UpOp} (hvalid : isValid cfg ctx o = false) (hplan : plan cfg ctx o = .ok (.new false)) :
      Outcome cfg ctx o ctx
  | updated {o : UpOp} {update : UpConfigUpdate} {ctx' : UpContext} (hvalid : isValid cfg ctx o = true)
      (hplan : plan cfg ctx o = .ok update) (hmade : Made ctx (admitted cfg ctx o) (Adds update))
      (hupdated : Updated cfg ctx o update ctx') : Outcome cfg ctx o ctx'
  | release {items : ReleaseItems} {update : UpConfigUpdate} {ctx' : UpContext}
      (hplan : plan cfg ctx (.release items) = .ok update) (hnone : ∀ s d drb, ¬Adds update s d drb)
      (hreleased : Released ctx ctx' items.keys) : Outcome cfg ctx (.release items) ctx'
  | keyChange : Outcome cfg ctx .keyChange { ctx with usedDrbIds := keySet ctx.drbMap }

/-- a request that can be planned returns, with one of the outcomes -/
theorem perform_of_planable (h : Linked ctx) (hp : isValid cfg ctx o = true → Planable cfg ctx o) :
    ∃ ctx', perform cfg ctx o = .ok ctx' ∧ Outcome cfg ctx o ctx' := by
  have hrefused : isValid cfg ctx o = false → ∃ ctx', perform cfg ctx o = .ok ctx' ∧ Outcome cfg ctx o ctx' := by
    intro hvalid
    have hplan : plan cfg ctx o = .ok (.new false) := by
      cases o with
      | keyChange => cases hvalid
      | _ => exact if_neg (Bool.eq_false_iff.1 hvalid)
    refine ⟨ctx, ?_, .refused hvalid hplan⟩
    cases o with
    | keyChange => cases hvalid
    | _ =>
      simp only [perform, hplan, ok_bind]
      rfl
  cases hvalid : isValid cfg ctx o with
  | false => exact hrefused hvalid
  | true =>
    obtain ⟨hpref, hon⟩ := hp hvalid
    cases o with
    | setup items old =>
      obtain ⟨update, hupdate, hplan⟩ := calculateSetup_ok hvalid fun hlimit f hf =>
        hpref hlimit _ (mem_map_of_mem hf)
      obtain ⟨ctx', h', hupdated⟩ := applyConfigUpdate_setup old h hplan
      have hplanned : plan cfg ctx (.setup items old) = .ok update := (if_pos hvalid).trans hupdate
      refine ⟨ctx', ?_, .updated hvalid hplanned hplan.made hupdated⟩
      simp only [perform, hplanned, ok_bind, h']
    | modify items =>
      obtain ⟨update, hupdate, hplan⟩ := calculateModify_ok h.single_of hvalid hon
      have hsessions := fun e he => (((isValidModify_iff ctx cfg items).1 hvalid).2 e he).1.1.1
      obtain ⟨ctx', h', hupdated⟩ := applyConfigUpdate_modify h hplan hon hsessions
      have hplanned : plan cfg ctx (.modify items) = .ok update := (if_pos hvalid).trans hupdate
      refine ⟨ctx', ?_, .updated hvalid hplanned hplan.made hupdated⟩
      simp only [perform, hplanned, ok_bind, h']
    | release items =>
      have hall : ∀ s ∈ items.keys, s ∈ ctx.pduSessions := by
        simp only [isValid, isValidRelease, Bool.and_eq_true, all_eq_true, decide_eq_true_eq] at hvalid
        exact hvalid.2
      obtain ⟨update, hupdate, hsetup, hmodify, hremove⟩ := calculateRelease_ok hvalid
      obtain ⟨ctx', h', hreleased⟩ := applyRemoved_all h (nodup_keys items) hall
      have hplanned : plan cfg ctx (.release items) = .ok update := (if_pos hvalid).trans hupdate
      refine ⟨ctx', ?_, .release hplanned (by simp [Adds, hsetup, hmodify]) hreleased⟩
      simp only [perform, hplanned, ok_bind, applyConfigUpdate_eq, hsetup, hmodify, hremove, foldlM_sessionsOf_empty,
        h']
    | keyChange => exact ⟨_, refreshDrbIdAfterKeyChange_ok h.inRange, .keyChange⟩

theorem step_of_ok (hok : perform cfg ctx o = .ok ctx') : step cfg ctx o = ctx' := by
  simp only [step, hok]

theorem Outcome.linked (hout : Outcome cfg ctx o ctx') (h : Linked ctx) : Linked ctx' := by
  cases hout with
  | refused => exact h
  | updated _ _ _ hupdated => exact hupdated.linked
  | release _ _ hreleased => exact hreleased.linked
  | keyChange =>
    refine ⟨h.id, h.drb, fun d hd => ?_, fun d hd => ?_, h.single⟩
    · simpa using hd
    · exact h.inRange d (by simpa using hd)

/-- the DRBs a request adds: their flows were admitted -/
theorem Outcome.made (hout : Outcome cfg ctx o ctx') (ho : plan cfg ctx o = .ok update) :
    ∃ given, Made ctx given (Adds update) := by
  have hnew : plan cfg ctx o = .ok (.new false) → ∃ given, Made ctx given (Adds update) := by
    intro h
    cases ho.symm.trans h
    exact ⟨[], made_nil (by simp [UpConfigUpdate.new, Adds])⟩
  cases hout with
  | refused _ hplan => exact hnew hplan
  | updated _ hplan hmade _ =>
    cases ho.symm.trans hplan
    exact ⟨_, hmade⟩
  | release hplan hnone _ =>
    cases ho.symm.trans hplan
    exact ⟨[], made_nil hnone⟩
  | keyChange => exact hnew rfl

/-! ## The number of DRBs -/

/-- the limit is kept by the flows that get a DRB and those that are released -/
def WithinLimit (cfg : UpCfg) (ctx : UpContext) (o : UpOp) : Prop :=
  ctx.drbMap.size + (admitted cfg ctx o).length ≤ cfg.maxNofDrbsPerUe + (flowsToRelease o).length

instance : Decidable (WithinLimit cfg ctx o) := Nat.decLe _ _

theorem nodup_flowsToRelease (o : UpOp) : (flowsToRelease o).Nodup := by
  cases o with
  | modify items =>
    have hkeys : (items.toList.map Prod.fst).Nodup := by
      rw [ExtTreeMap.map_fst_toList_eq_keys]
      exact nodup_keys items
    refine nodup_flatMap.2 ⟨fun e _ => (nodup_keys _).map fun _ _ h => congrArg Prod.snd h, ?_⟩
    refine (pairwise_map.1 hkeys).imp fun {e e'} hne => ?_
    rintro f hf hf'
    obtain ⟨q, -, rfl⟩ := mem_map.1 hf
    obtain ⟨q', -, heq⟩ := mem_map.1 hf'
    exact hne (congrArg Prod.fst heq).symm
  | _ => exact nodup_nil

theorem Outcome.limit (hout : Outcome cfg ctx o ctx') (h : Linked ctx)
    (hon : isValid cfg ctx o = true → Planable cfg ctx o)
    (hlimit : ctx.drbMap.size ≤ cfg.maxNofDrbsPerUe) (hwithin : isValid cfg ctx o = true → WithinLimit cfg ctx o) :
    ctx'.drbMap.size ≤ cfg.maxNofDrbsPerUe := by
  have hlinked := hout.linked h
  cases hout with
  | refused => exact hlimit
  | updated hvalid _ hmade hupdated =>
    obtain ⟨T, hcard, hT⟩ := hmade.ids
    have hdrb : ∀ f ∈ flowsToRelease o, OnDrb ctx f.1 f.2 (drbOf ctx f.2) := by
      intro f hf
      obtain ⟨d, hd⟩ := (hon hvalid).2 f hf
      exact hd.drbOf.symm ▸ hd
    -- as many DRBs go as flows are released
    have hR : ((flowsToRelease o).map fun f => drbOf ctx f.2).toFinset.card = (flowsToRelease o).length := by
      rw [toFinset_card_of_nodup, length_map]
      refine (nodup_flowsToRelease o).map_on fun f hf f' hf' heq => ?_
      obtain ⟨h1, h2⟩ := (hdrb f hf).unique h (heq ▸ hdrb f' hf')
      exact Prod.ext h1 h2
    have hsize := h.size_le hlinked (R := ((flowsToRelease o).map fun f => drbOf ctx f.2).toFinset) (T := T) (by
      intro d hd
      obtain ⟨f, hf, rfl⟩ := mem_map.1 (mem_toFinset.1 hd)
      obtain ⟨drb, hl, -⟩ := (hdrb f hf).live
      exact h.mem_drbMap.2 ⟨f.1, drb, hl⟩) (by
      intro s d drb hl
      rcases (hupdated.live s d drb).1 hl with ⟨hl, hnot⟩ | hadd
      · refine .inl ⟨⟨drb, hl⟩, fun hd => ?_⟩
        obtain ⟨f, hf, rfl⟩ := mem_map.1 (mem_toFinset.1 hd)
        obtain ⟨drb', hl', -⟩ := (hdrb f hf).live
        obtain rfl := h.session_unique hl hl'
        exact hnot ⟨f.2, hf, hdrb f hf⟩
      · exact .inr ((hT d).2 ⟨s, drb, hadd⟩))
    have hfits := hwithin hvalid
    unfold WithinLimit at hfits
    omega
  | release _ _ hreleased =>
    have hsize := h.size_le hlinked (R := ∅) (T := ∅) (by simp) fun s d drb hl =>
      .inl ⟨⟨drb, ((hreleased.live s d drb).1 hl).1⟩, by simp⟩
    simp only [Finset.card_empty] at hsize
    omega
  | keyChange => exact hlimit

/-! ## Small requests -/

/-- one 5QI is configured -/
def smallCfg (maxNofDrbsPerUe : Fin (2 ^ 8)) : UpCfg :=
  ⟨(∅ : ExtTreeMap ℕ PdcpConfig).insert 9 ⟨.am, false, false⟩, maxNofDrbsPerUe, maxNofDrbsPerUe.isLt⟩

/-- a setup request: sessions with the QFIs of their flows -/
def setupItemsOf (sessions : List (ℕ × List ℕ)) : SetupItems :=
  sessions.foldl (fun m e => m.insert e.1 ⟨1, e.2.foldl (fun f q => f.insert q ⟨9⟩) ∅⟩) ∅

end OcuduRan.CuCp.Up
