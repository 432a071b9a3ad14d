/-
What `apply_config_update` does to the context (lib/cu_cp/up_resource_manager/up_resource_manager_impl.cpp).

`Live ctx s d drb`: session `s` has DRB `d`. The other views of the context are tied to this relation:
- `Linked`: `drb_map` is exactly the relation, its IDs are marked as used and in range, a DRB carries one flow;
- `FlowsFound`: `qos_flow_map` leads from the QFIs to the DRBs they are on.

`Linked` survives every plan (`Changed`, `Released`). `FlowsFound` survives when the flows a plan adds have QFIs that
differ from each other and from those in the map: the map has one entry for a QFI, whatever the session.
-/
import OcuduRan.CuCp.UpPlan

namespace OcuduRan.CuCp.Up

open Std (ExtTreeMap)
open ExceptFold TreeMaps List UpContext Prod

variable {ctx ctx' : UpContext}

/-- session `s` has DRB `d` -/
def Live (ctx : UpContext) (s d : ℕ) (drb : UpDrbContext) : Prop :=
  ∃ session, ctx.pduSessions[s]? = some session ∧ session.drbs[d]? = some drb

theorem Live.eq {s d : ℕ} {drb drb' : UpDrbContext} (h : Live ctx s d drb) (h' : Live ctx s d drb') : drb = drb' := by
  obtain ⟨session, hsession, hdrb⟩ := h
  obtain ⟨session', hsession', hdrb'⟩ := h'
  cases hsession.symm.trans hsession'
  exact Option.some.inj (hdrb.symm.trans hdrb')

/-- the DRBs: sessions, `drb_map` and the used IDs agree -/
structure Linked (ctx : UpContext) : Prop where
  id : ∀ (s : ℕ) session, ctx.pduSessions[s]? = some session → session.id = s
  drb : ∀ d s : ℕ, ctx.drbMap[d]? = some s ↔ ∃ drb, Live ctx s d drb
  used : ∀ d, d ∈ ctx.drbMap → d ∈ ctx.usedDrbIds
  range : ∀ d ∈ ctx.usedDrbIds, InRange d
  single : ∀ s d drb, Live ctx s d drb → OneFlow drb

/-- every flow of every DRB is found under its DRB -/
def FlowsFound (ctx : UpContext) : Prop :=
  ∀ s d drb q, Live ctx s d drb → q ∈ drb.qosFlows → ctx.qosFlowMap[q]? = some d

namespace Linked

theorem mem_drbMap (h : Linked ctx) {d : ℕ} : d ∈ ctx.drbMap ↔ ∃ s drb, Live ctx s d drb := by
  simp only [mem_iff_exists, h.drb]

/-- a DRB belongs to one session -/
theorem session_unique (h : Linked ctx) {s s' d : ℕ} {drb drb' : UpDrbContext} (hl : Live ctx s d drb)
    (hl' : Live ctx s' d drb') : s = s' := by
  have h1 := (h.drb d s).2 ⟨drb, hl⟩
  have h2 := (h.drb d s').2 ⟨drb', hl'⟩
  rw [h1] at h2
  exact Option.some.inj h2

theorem inRange (h : Linked ctx) (d : ℕ) (hd : d ∈ ctx.drbMap) : InRange d := h.range d (h.used d hd)

/-- the number of DRBs, when those of `R` are gone and no others than those of `T` are new -/
theorem size_le (h : Linked ctx) (h' : Linked ctx') {R T : Finset ℕ} (hR : ∀ d ∈ R, d ∈ ctx.drbMap)
    (hlive : ∀ s d drb, Live ctx' s d drb → (∃ drb', Live ctx s d drb') ∧ d ∉ R ∨ d ∈ T) :
    ctx'.drbMap.size + R.card ≤ ctx.drbMap.size + T.card := by
  have hsub : keySet ctx'.drbMap ⊆ (keySet ctx.drbMap \ R) ∪ T := by
    intro d hd
    obtain ⟨s, drb, hl⟩ := h'.mem_drbMap.1 ((mem_keySet _ _).1 hd)
    simp only [Finset.mem_union, Finset.mem_sdiff, mem_keySet]
    exact (hlive s d drb hl).imp_left fun hold => ⟨h.mem_drbMap.2 ⟨s, hold.1⟩, hold.2⟩
  have hcard := (Finset.card_le_card hsub).trans (Finset.card_union_le _ _)
  have hdiff := Finset.card_sdiff_add_card_eq_card fun d hd => (mem_keySet ctx.drbMap d).2 (hR d hd)
  rw [card_keySet] at hcard hdiff
  omega

theorem single_of (h : Linked ctx) (s : ℕ) (session : UpPduSessionContext) (hs : ctx.pduSessions[s]? = some session)
    (d : ℕ) (drb : UpDrbContext) (hd : session.drbs[d]? = some drb) : OneFlow drb :=
  h.single s d drb ⟨session, hs, hd⟩

end Linked

theorem linked_init : Linked init where
  id := by simp [init]
  drb := by simp [init, Live]
  used := by simp [init]
  range := by simp [init]
  single := by simp [init, Live]

theorem flowsFound_init : FlowsFound init := by simp [FlowsFound, init, Live]

/-! ## The two loops over DRBs -/

/-- the flows of a list of DRBs, each with its DRB -/
def flowsOf (l : List (ℕ × UpDrbContext)) : List (ℕ × ℕ) := l.flatMap fun e => e.2.qosFlows.keys.map fun q => (q, e.1)

theorem mem_flowsOf {l : List (ℕ × UpDrbContext)} {q d : ℕ} :
    (q, d) ∈ flowsOf l ↔ ∃ drb, (d, drb) ∈ l ∧ q ∈ drb.qosFlows := by
  simp only [flowsOf, mem_flatMap, mem_map, ExtTreeMap.mem_keys, Prod.mk.injEq, Prod.exists]
  constructor
  · rintro ⟨d', drb, hmem, q', hq, rfl, rfl⟩
    exact ⟨drb, hmem, hq⟩
  · rintro ⟨drb, hmem, hq⟩
    exact ⟨d, drb, hmem, q, hq, rfl, rfl⟩

/-- the session once its new DRBs are stored -/
def grown (session : UpPduSessionContext) (l : List (ℕ × UpDrbContext)) : UpPduSessionContext :=
  { session with drbs := l.foldl (fun m e => m.insertIfNew e.1 e.2) session.drbs }

/-- the session once its DRBs to be removed are gone -/
def pruned (session : UpPduSessionContext) (remove : List ℕ) : UpPduSessionContext :=
  { session with drbs := remove.foldl (fun m d => m.erase d) session.drbs }

/-- `apply_update_for_new_drbs` in closed form -/
theorem applyNewDrbs_eq (session : UpPduSessionContext) (ctx : UpContext) (l : List (ℕ × UpDrbContext))
    (hrange : ∀ e ∈ l, InRange e.1) : applyNewDrbs session ctx l =
      .ok (grown session l, { ctx with
          drbMap := (l.map fun e => (e.1, session.id)).foldl (fun m e => m.insertIfNew e.1 e.2) ctx.drbMap
          usedDrbIds := ctx.usedDrbIds ∪ (l.map fst).toFinset
          qosFlowMap := (flowsOf l).foldl (fun m e => m.insertIfNew e.1 e.2) ctx.qosFlowMap }) := by
  induction l generalizing session ctx with
  | nil => simp [applyNewDrbs, flowsOf, grown]
  | cons e l ih =>
    rw [applyNewDrbs, getUsedDrbIndex_of_inRange (hrange e mem_cons_self), ok_bind,
      ih _ _ fun e' he' => hrange e' (mem_cons_of_mem _ he')]
    simp only [foldl_cons, map_cons, toFinset_cons, flowsOf, flatMap_cons, foldl_append,
      foldl_map, Finset.insert_union, Finset.union_insert, grown]

/-- the flows on the DRBs of a list, as the session has them -/
def flowsOn (session : UpPduSessionContext) (l : List ℕ) : List ℕ :=
  l.flatMap fun d => (session.drbs[d]?).elim [] fun drb => drb.qosFlows.keys

theorem mem_flowsOn {session : UpPduSessionContext} {l : List ℕ} {q : ℕ} :
    q ∈ flowsOn session l ↔ ∃ d ∈ l, ∃ drb, session.drbs[d]? = some drb ∧ q ∈ drb.qosFlows := by
  simp only [flowsOn, mem_flatMap]
  refine exists_congr fun d => and_congr_right fun _ => ?_
  cases session.drbs[d]? <;> simp

/-- `apply_update_for_removed_drbs` in closed form -/
theorem applyRemovedDrbs_eq (session : UpPduSessionContext) (ctx : UpContext) (l : List ℕ) (hnodup : l.Nodup)
    (hmem : ∀ d ∈ l, d ∈ session.drbs) : applyRemovedDrbs session ctx l =
      .ok (pruned session l, { ctx with
          qosFlowMap := (flowsOn session l).foldl (fun m q => m.erase q) ctx.qosFlowMap
          drbMap := l.foldl (fun m d => m.erase d) ctx.drbMap }) := by
  induction l generalizing session ctx with
  | nil => simp [applyRemovedDrbs, flowsOn, pruned]
  | cons d l ih =>
    obtain ⟨hd, hnodup⟩ := nodup_cons.1 hnodup
    obtain ⟨drb, hdrb⟩ := (mem_iff_exists _ _).1 (hmem d mem_cons_self)
    have hne : ∀ d' ∈ l, d ≠ d' := fun d' hd' heq => hd (heq ▸ hd')
    -- erasing `d` leaves the DRBs of the rest of the list
    have hrest : flowsOn { session with drbs := session.drbs.erase d } l = flowsOn session l := by
      refine flatMap_congr fun d' hd' => ?_
      simp [ExtTreeMap.getElem?_erase, hne d' hd']
    have hmem' : ∀ d' ∈ l, d' ∈ session.drbs.erase d := by
      intro d' hd'
      simpa [ExtTreeMap.mem_erase, hne d' hd'] using hmem d' (mem_cons_of_mem _ hd')
    simp only [applyRemovedDrbs, hdrb]
    rw [ih _ _ hnodup hmem', hrest]
    simp only [foldl_cons, flowsOn, flatMap_cons, hdrb, Option.elim_some, foldl_append, pruned]

/-! ## One session -/

/-- the DRBs a session is to get and to lose fit the context -/
structure Ready (ctx : UpContext) (s : ℕ) (add : ExtTreeMap ℕ UpDrbContext) (remove : List ℕ) : Prop where
  fresh : ∀ (d : ℕ) drb, add[d]? = some drb → InRange d ∧ d ∉ ctx.drbMap ∧ OneFlow drb
  own : ∀ d ∈ remove, ∃ drb, Live ctx s d drb
  nodup : remove.Nodup

/-- the context after session `s` got the DRBs of `add` and lost those of `remove` -/
structure Applied (ctx ctx' : UpContext) (s : ℕ) (add : ExtTreeMap ℕ UpDrbContext) (remove : List ℕ) : Prop where
  sessions : ∀ k, k ∈ ctx'.pduSessions ↔ k ∈ ctx.pduSessions ∨ k = s
  id : ∀ (k : ℕ) session, ctx'.pduSessions[k]? = some session →
    session.id = k ∨ ctx.pduSessions[k]? = some session
  live : ∀ k d drb, Live ctx' k d drb ↔
    Live ctx k d drb ∧ ¬(k = s ∧ d ∈ remove) ∨ k = s ∧ add[d]? = some drb
  drb : ∀ d : ℕ, ctx'.drbMap[d]? =
    if d ∈ remove then none else ctx.drbMap[d]?.or (if d ∈ add then some s else none)
  used : ctx'.usedDrbIds = ctx.usedDrbIds ∪ keySet add
  flowGone : ∀ (q d : ℕ) drb, d ∈ remove → Live ctx s d drb → q ∈ drb.qosFlows → ctx'.qosFlowMap[q]? = none
  flowKept : ∀ q : ℕ, (∀ d ∈ remove, ∀ drb, Live ctx s d drb → q ∉ drb.qosFlows) →
    ctx'.qosFlowMap[q]? = ctx.qosFlowMap[q]?.or (((flowsOf add.toList).find? fun e => e.1 = q).map snd)

theorem find?_map_const {V : Type} (add : ExtTreeMap ℕ V) (s d : ℕ) :
    (((add.toList.map fun e => (e.1, s)).find? fun e => e.1 = d).map snd) = if d ∈ add then some s else none := by
  have hfind := find?_toList add d
  rw [find?_map, Option.map_map]
  cases hd : add.toList.find? ((fun e : ℕ × ℕ => decide (e.1 = d)) ∘ fun e => (e.1, s)) with
  | none =>
    have hnone : add[d]? = none := by
      rw [← hfind]
      exact congrArg (Option.map snd) hd
    have hmem : d ∉ add := by simpa using hnone
    rw [if_neg hmem]
    rfl
  | some e =>
    have hsome : add[d]? = some e.2 := by
      rw [← hfind]
      exact congrArg (Option.map snd) hd
    rw [if_pos ((mem_iff_exists _ _).2 ⟨_, hsome⟩)]
    rfl

/-- the context after both loops -/
def closed (ctx : UpContext) (s : ℕ) (session : UpPduSessionContext) (add : ExtTreeMap ℕ UpDrbContext)
    (remove : List ℕ) : UpContext :=
  { pduSessions := ctx.pduSessions.insert s (pruned (grown session add.toList) remove)
    drbMap := remove.foldl (fun m d => m.erase d)
      ((add.toList.map fun e => (e.1, s)).foldl (fun m e => m.insertIfNew e.1 e.2) ctx.drbMap)
    qosFlowMap := (flowsOn (grown session add.toList) remove).foldl (fun m q => m.erase q)
      ((flowsOf add.toList).foldl (fun m e => m.insertIfNew e.1 e.2) ctx.qosFlowMap)
    usedDrbIds := ctx.usedDrbIds ∪ (add.toList.map fst).toFinset }

section Closed

variable {s : ℕ} {session : UpPduSessionContext} {add : ExtTreeMap ℕ UpDrbContext} {remove : List ℕ}

theorem getElem?_grown (session : UpPduSessionContext) (add : ExtTreeMap ℕ UpDrbContext) (d : ℕ) :
    (grown session add.toList).drbs[d]? = session.drbs[d]?.or add[d]? := by
  rw [grown, getElem?_foldl_insertIfNew, find?_toList]

theorem getElem?_pruned (session : UpPduSessionContext) (remove : List ℕ) (d : ℕ) :
    (pruned session remove).drbs[d]? = if d ∈ remove then none else session.drbs[d]? := by
  rw [pruned, getElem?_foldl_erase]

theorem applied_closed (hid : session.id = s) (hold : ∀ d drb, session.drbs[d]? = some drb ↔ Live ctx s d drb)
    (hlinked : Linked ctx) (hready : Ready ctx s add remove) :
    Applied ctx (closed ctx s session add remove) s add remove := by
  -- a new DRB is not one of the session's
  have hnew : ∀ (d : ℕ) drb, add[d]? = some drb → session.drbs[d]? = none := by
    intro d drb hadd
    by_contra hne
    obtain ⟨drb', hdrb'⟩ := Option.ne_none_iff_exists'.1 hne
    exact (hready.fresh d drb hadd).2.1 (hlinked.mem_drbMap.2 ⟨s, drb', (hold d drb').1 hdrb'⟩)
  have hgrown : ∀ (d : ℕ) drb, (session.drbs[d]?.or add[d]?) = some drb ↔ Live ctx s d drb ∨ add[d]? = some drb := by
    intro d drb
    rw [Option.or_eq_some_iff, hold]
    constructor
    · rintro (h | ⟨-, h⟩)
      · exact .inl h
      · exact .inr h
    · rintro (h | h)
      · exact .inl h
      · exact .inr ⟨hnew d drb h, h⟩
  have hremove : ∀ (d : ℕ) drb, d ∈ remove → add[d]? ≠ some drb := by
    intro d drb hd hadd
    obtain ⟨drb', hlive⟩ := hready.own d hd
    exact (hready.fresh d drb hadd).2.1 (hlinked.mem_drbMap.2 ⟨s, drb', hlive⟩)
  have hget : ∀ k : ℕ, (closed ctx s session add remove).pduSessions[k]? =
      if s = k then some (pruned (grown session add.toList) remove) else ctx.pduSessions[k]? := by
    intro k
    simp [closed, ExtTreeMap.getElem?_insert]
  refine ⟨fun k => ?_, fun k session' hk => ?_, fun k d drb => ?_, fun d => ?_, ?_, fun q d drb hd hlive hq => ?_,
    fun q hq => ?_⟩
  · rw [mem_iff_exists, mem_iff_exists, hget]
    split_ifs with hsk
    · exact iff_of_true ⟨_, rfl⟩ (.inr hsk.symm)
    · simp [Ne.symm hsk]
  · rw [hget] at hk
    split_ifs at hk with hsk
    · cases hk
      exact .inl (hid.trans hsk)
    · exact .inr hk
  · by_cases hks : k = s
    · subst hks
      simp only [Live, hget, if_pos, Option.some.injEq, exists_eq_left', getElem?_pruned, getElem?_grown, true_and]
      by_cases hd : d ∈ remove
      · have hne := hremove d drb hd
        simp [hd, hne]
      · rw [if_neg hd, hgrown]
        simp [hd, Live]
    · have hsk : s ≠ k := fun h => hks h.symm
      simp [Live, hget, hks, hsk]
  · simp only [closed]
    rw [getElem?_foldl_erase, getElem?_foldl_insertIfNew, find?_map_const]
  · simp only [closed, keySet, ExtTreeMap.map_fst_toList_eq_keys]
  · simp only [closed]
    rw [getElem?_foldl_erase, if_pos]
    rw [mem_flowsOn]
    exact ⟨d, hd, drb, by rw [getElem?_grown, hgrown]; exact .inl hlive, hq⟩
  · simp only [closed]
    rw [getElem?_foldl_erase, if_neg, getElem?_foldl_insertIfNew]
    rw [mem_flowsOn]
    rintro ⟨d, hd, drb, hdrb, hqd⟩
    rw [getElem?_grown, hgrown] at hdrb
    exact hq d hd drb (hdrb.resolve_right (hremove d drb hd)) hqd

theorem inRange_of_ready (hready : Ready ctx s add remove) : ∀ e ∈ add.toList, InRange e.1 := fun e he =>
  (hready.fresh e.1 e.2 (ExtTreeMap.mem_toList_iff_getElem?_eq_some.1 he)).1

/-- a session that is set up -/
theorem applyAdded_spec {su : UpPduSessionContextUpdate} (hlinked : Linked ctx) (hnew : su.id ∉ ctx.pduSessions)
    (hready : Ready ctx su.id su.drbToAdd []) :
    ∃ ctx', applyAdded ctx su = .ok ctx' ∧ Applied ctx ctx' su.id su.drbToAdd [] := by
  let session : UpPduSessionContext :=
    ⟨su.id, ∅, su.integrityProtectionResult, su.confidentialityProtectionResult⟩
  refine ⟨closed ctx su.id session su.drbToAdd [], ?_, applied_closed rfl (fun d drb => ?_) hlinked hready⟩
  · unfold applyAdded
    rw [applyNewDrbs_eq _ _ _ (inRange_of_ready hready), ok_bind]
    have hinsert : ∀ v : UpPduSessionContext, ctx.pduSessions.insertIfNew su.id v = ctx.pduSessions.insert su.id v := by
      intro v
      refine ExtTreeMap.ext_getElem? fun k => ?_
      rw [ExtTreeMap.getElem?_insertIfNew, ExtTreeMap.getElem?_insert]
      simp [hnew]
    simp only [closed, session, hinsert, pruned, grown, foldl_nil, flowsOn, flatMap_nil]
  · have hnone : ctx.pduSessions[su.id]? = none := by simpa using hnew
    simp [session, Live, hnone]

/-- a session that is modified -/
theorem applyModified_spec {su : UpPduSessionContextUpdate} (hlinked : Linked ctx) (hold : su.id ∈ ctx.pduSessions)
    (hready : Ready ctx su.id su.drbToAdd su.drbToRemove) :
    ∃ ctx', applyModified ctx su = .ok ctx' ∧ Applied ctx ctx' su.id su.drbToAdd su.drbToRemove := by
  obtain ⟨session, hsession⟩ := (mem_iff_exists _ _).1 hold
  have hlive : ∀ d drb, session.drbs[d]? = some drb ↔ Live ctx su.id d drb := by
    intro d drb
    simp [Live, hsession]
  have hid := hlinked.id su.id session hsession
  refine ⟨closed ctx su.id session su.drbToAdd su.drbToRemove, ?_, applied_closed hid hlive hlinked hready⟩
  unfold applyModified
  simp only [hsession]
  rw [applyNewDrbs_eq _ _ _ (inRange_of_ready hready), ok_bind, applyRemovedDrbs_eq _ _ _ hready.nodup, ok_bind]
  · simp only [closed, hid]
  · intro d hd
    obtain ⟨drb, hdrb⟩ := hready.own d hd
    rw [mem_iff_exists]
    exact ⟨drb, by rw [getElem?_grown, (hlive d drb).2 hdrb]; rfl⟩

end Closed

/-! ## What one session's change keeps -/

section Applied

variable {s : ℕ} {add : ExtTreeMap ℕ UpDrbContext} {remove : List ℕ}

theorem Applied.linked (happ : Applied ctx ctx' s add remove) (h : Linked ctx) (hready : Ready ctx s add remove) :
    Linked ctx' := by
  have hrem : ∀ d ∈ remove, ctx.drbMap[d]? = some s := fun d hd => (h.drb d s).2 (hready.own d hd)
  refine ⟨fun k session hk => ?_, fun d k => ?_, fun d hd => ?_, fun d hd => ?_, fun k d drb hl => ?_⟩
  · exact (happ.id k session hk).elim (fun hid => hid) (h.id k session)
  · rw [happ.drb]
    by_cases hd : d ∈ remove
    · rw [if_pos hd]
      refine iff_of_false (fun hn => nomatch hn) ?_
      rintro ⟨drb, hl⟩
      rcases (happ.live k d drb).1 hl with ⟨hl, hnot⟩ | ⟨-, hadd⟩
      · have hk := (h.drb d k).2 ⟨drb, hl⟩
        rw [hrem d hd] at hk
        exact hnot ⟨(Option.some.inj hk).symm, hd⟩
      · exact (hready.fresh d drb hadd).2.1 ((mem_iff_exists _ _).2 ⟨s, hrem d hd⟩)
    · rw [if_neg hd, Option.or_eq_some_iff, h.drb]
      constructor
      · rintro (⟨drb, hl⟩ | ⟨-, hadd⟩)
        · exact ⟨drb, (happ.live k d drb).2 (.inl ⟨hl, fun hc => hd hc.2⟩)⟩
        · split_ifs at hadd with hmem
          cases hadd
          obtain ⟨drb, hdrb⟩ := (mem_iff_exists _ _).1 hmem
          exact ⟨drb, (happ.live s d drb).2 (.inr ⟨rfl, hdrb⟩)⟩
      · rintro ⟨drb, hl⟩
        rcases (happ.live k d drb).1 hl with ⟨hl, -⟩ | ⟨rfl, hadd⟩
        · exact .inl ⟨drb, hl⟩
        · refine .inr ⟨?_, if_pos ((mem_iff_exists _ _).2 ⟨drb, hadd⟩)⟩
          simpa using (hready.fresh d drb hadd).2.1
  · obtain ⟨k, hk⟩ := (mem_iff_exists _ _).1 hd
    rw [happ.drb] at hk
    rw [happ.used, Finset.mem_union, mem_keySet]
    split_ifs at hk with h1 h2
    · exact .inr h2
    · exact .inl (h.used d ((mem_iff_exists _ _).2 ⟨k, by simpa using hk⟩))
  · rw [happ.used, Finset.mem_union, mem_keySet] at hd
    rcases hd with hd | hd
    · exact h.range d hd
    · obtain ⟨drb, hdrb⟩ := (mem_iff_exists _ _).1 hd
      exact (hready.fresh d drb hdrb).1
  · rcases (happ.live k d drb).1 hl with ⟨hl, -⟩ | ⟨-, hadd⟩
    · exact h.single k d drb hl
    · exact (hready.fresh d drb hadd).2.2

/-- the flows to be added have QFIs that are new and differ from each other -/
structure FreshAdds (ctx : UpContext) (add : ExtTreeMap ℕ UpDrbContext) : Prop where
  unknown : ∀ (d : ℕ) drb q, add[d]? = some drb → q ∈ drb.qosFlows → q ∉ ctx.qosFlowMap
  differ : ∀ (d d' : ℕ) drb drb' q, add[d]? = some drb → add[d']? = some drb' → q ∈ drb.qosFlows → q ∈ drb'.qosFlows →
    d = d'

/-- the first entry for a QFI among the new flows is the only one -/
theorem FreshAdds.find? (h : FreshAdds ctx add) {d q : ℕ} {drb : UpDrbContext} (hd : add[d]? = some drb)
    (hq : q ∈ drb.qosFlows) : ((flowsOf add.toList).find? fun e => e.1 = q).map snd = some d := by
  cases hfind : (flowsOf add.toList).find? fun e => e.1 = q with
  | none =>
    rw [find?_eq_none] at hfind
    have hmem : (q, d) ∈ flowsOf add.toList :=
      mem_flowsOf.2 ⟨drb, ExtTreeMap.mem_toList_iff_getElem?_eq_some.2 hd, hq⟩
    exact absurd (decide_eq_true rfl) (hfind (q, d) hmem)
  | some e =>
    have hkey : e.1 = q := by simpa using find?_some hfind
    obtain ⟨drb', hmem, hq'⟩ := mem_flowsOf.1 (mem_of_find?_eq_some hfind : (e.1, e.2) ∈ _)
    have hd' := ExtTreeMap.mem_toList_iff_getElem?_eq_some.1 hmem
    exact congrArg some (h.differ e.2 d drb' drb q hd' hd (hkey ▸ hq') hq)

section

variable (happ : Applied ctx ctx' s add remove)
include happ

/-- an entry of the flow map is an old one whose DRB stays, or one of a new DRB -/
theorem Applied.flow_cases {q d : ℕ} (hmap : ctx'.qosFlowMap[q]? = some d) :
    (ctx.qosFlowMap[q]? = some d ∧ ∀ d' ∈ remove, ∀ drb, Live ctx s d' drb → q ∉ drb.qosFlows) ∨
      ∃ drb, add[d]? = some drb ∧ q ∈ drb.qosFlows := by
  by_cases hrm : ∃ d' ∈ remove, ∃ drb', Live ctx s d' drb' ∧ q ∈ drb'.qosFlows
  · obtain ⟨d', hd', drb', hl', hq'⟩ := hrm
    rw [happ.flowGone q d' drb' hd' hl' hq'] at hmap
    cases hmap
  · have hkept : ∀ d ∈ remove, ∀ drb, Live ctx s d drb → q ∉ drb.qosFlows := fun d' hd' drb' hl' hq' =>
      hrm ⟨d', hd', drb', hl', hq'⟩
    rw [happ.flowKept q hkept, Option.or_eq_some_iff] at hmap
    rcases hmap with hmap | ⟨-, hmap⟩
    · exact .inl ⟨hmap, hkept⟩
    · obtain ⟨e, hfind, rfl⟩ := Option.map_eq_some_iff.1 hmap
      have hkey : e.1 = q := by simpa using find?_some hfind
      obtain ⟨drb, hmem, hq⟩ := mem_flowsOf.1 (mem_of_find?_eq_some hfind : (e.1, e.2) ∈ _)
      exact .inr ⟨drb, ExtTreeMap.mem_toList_iff_getElem?_eq_some.1 hmem, hkey ▸ hq⟩

theorem Applied.flowsFound (h : Linked ctx) (hflows : FlowsFound ctx) (hfresh : FreshAdds ctx add) :
    FlowsFound ctx' := by
  -- a flow on a removed DRB is on no other
  have hgone : ∀ k d drb q, Live ctx k d drb → q ∈ drb.qosFlows → ∀ d' ∈ remove, ∀ drb', Live ctx s d' drb' →
      q ∈ drb'.qosFlows → k = s ∧ d ∈ remove := by
    intro k d drb q hl hq d' hd' drb' hl' hq'
    have hsame := (hflows k d drb q hl hq).symm.trans (hflows s d' drb' q hl' hq')
    cases hsame
    exact ⟨h.session_unique hl hl', hd'⟩
  intro k d drb q hl hq
  rcases (happ.live k d drb).1 hl with ⟨hl, hnot⟩ | ⟨-, hadd⟩
  · rw [happ.flowKept q fun d' hd' drb' hl' hq' => hnot (hgone k d drb q hl hq d' hd' drb' hl' hq'),
      hflows k d drb q hl hq]
    rfl
  · have hnone : ctx.qosFlowMap[q]? = none := by simpa using hfresh.unknown d drb q hadd hq
    rw [happ.flowKept q fun d' hd' drb' hl' hq' => ?_, hnone, hfresh.find? hadd hq]
    · rfl
    · have hsome := hflows s d' drb' q hl' hq'
      rw [hnone] at hsome
      cases hsome

end

end Applied

/-! ## The sessions of a plan -/

/-- sessions that can be changed one after the other -/
structure Batch (ctx : UpContext) (rem : UpPduSessionContextUpdate → List ℕ) (l : List UpPduSessionContextUpdate) :
    Prop where
  ready : ∀ su ∈ l, Ready ctx su.id su.drbToAdd (rem su)
  ids : l.Pairwise fun su su' => su.id ≠ su'.id
  apart : l.Pairwise fun su su' => ∀ d, d ∈ su.drbToAdd → d ∉ su'.drbToAdd

/-- the flows the sessions are to get have QFIs that are new and differ from each other -/
structure FreshBatch (ctx : UpContext) (l : List UpPduSessionContextUpdate) : Prop where
  unknown : ∀ su ∈ l, ∀ (d : ℕ) drb q, su.drbToAdd[d]? = some drb → q ∈ drb.qosFlows → q ∉ ctx.qosFlowMap
  differ : ∀ su ∈ l, ∀ su' ∈ l, ∀ (d d' : ℕ) drb drb' q, su.drbToAdd[d]? = some drb → su'.drbToAdd[d']? = some drb' →
    q ∈ drb.qosFlows → q ∈ drb'.qosFlows → d = d'

/-- the context after the sessions of `l` were changed -/
structure Changed (ctx ctx' : UpContext) (rem : UpPduSessionContextUpdate → List ℕ)
    (l : List UpPduSessionContextUpdate) : Prop where
  linked : Linked ctx'
  sessions : ∀ k, k ∈ ctx'.pduSessions ↔ k ∈ ctx.pduSessions ∨ ∃ su ∈ l, su.id = k
  live : ∀ k d drb, Live ctx' k d drb ↔
    Live ctx k d drb ∧ (¬∃ su ∈ l, su.id = k ∧ d ∈ rem su) ∨ ∃ su ∈ l, su.id = k ∧ su.drbToAdd[d]? = some drb
  used : ∀ d, d ∈ ctx'.usedDrbIds ↔ d ∈ ctx.usedDrbIds ∨ ∃ su ∈ l, d ∈ su.drbToAdd
  flowsFound : FlowsFound ctx → FreshBatch ctx l → FlowsFound ctx'

section Batch

variable {rem : UpPduSessionContextUpdate → List ℕ} {su : UpPduSessionContextUpdate}
  {l : List UpPduSessionContextUpdate}

theorem changed_nil (h : Linked ctx) : Changed ctx ctx rem [] :=
  ⟨h, by simp, by simp, by simp, fun hf _ => hf⟩

/-- the rest of a batch is still one once the first session is changed -/
theorem Batch.tail (hb : Batch ctx rem (su :: l)) (h : Linked ctx) (h' : Linked ctx')
    (happ : Applied ctx ctx' su.id su.drbToAdd (rem su)) : Batch ctx' rem l := by
  obtain ⟨hids, hids'⟩ := pairwise_cons.1 hb.ids
  obtain ⟨hapart, hapart'⟩ := pairwise_cons.1 hb.apart
  refine ⟨fun su' hsu' => ?_, hids', hapart'⟩
  have hready := hb.ready su' (mem_cons_of_mem _ hsu')
  refine ⟨fun d drb hadd => ?_, fun d hd => ?_, hready.nodup⟩
  · obtain ⟨hrange, hnot, hone⟩ := hready.fresh d drb hadd
    refine ⟨hrange, fun hmem => ?_, hone⟩
    obtain ⟨k, drb', hl⟩ := h'.mem_drbMap.1 hmem
    rcases (happ.live k d drb').1 hl with ⟨hl, -⟩ | ⟨-, hadd'⟩
    · exact hnot (h.mem_drbMap.2 ⟨k, drb', hl⟩)
    · exact hapart su' hsu' d ((mem_iff_exists _ _).2 ⟨_, hadd'⟩) ((mem_iff_exists _ _).2 ⟨_, hadd⟩)
  · obtain ⟨drb, hl⟩ := hready.own d hd
    exact ⟨drb, (happ.live _ _ _).2 (.inl ⟨hl, fun hc => hids su' hsu' hc.1.symm⟩)⟩

theorem FreshBatch.head (hf : FreshBatch ctx (su :: l)) : FreshAdds ctx su.drbToAdd :=
  ⟨hf.unknown su mem_cons_self, hf.differ su mem_cons_self su mem_cons_self⟩

theorem FreshBatch.tail (hf : FreshBatch ctx (su :: l)) (hb : Batch ctx rem (su :: l))
    (happ : Applied ctx ctx' su.id su.drbToAdd (rem su)) : FreshBatch ctx' l := by
  obtain ⟨hapart, -⟩ := pairwise_cons.1 hb.apart
  refine ⟨fun su' hsu' d drb q hadd hq hmem => ?_, fun su1 h1 su2 h2 =>
    hf.differ su1 (mem_cons_of_mem _ h1) su2 (mem_cons_of_mem _ h2)⟩
  obtain ⟨d', hmap⟩ := (mem_iff_exists _ _).1 hmem
  rcases happ.flow_cases hmap with ⟨hmap, -⟩ | ⟨drb', hadd', hq'⟩
  · exact hf.unknown su' (mem_cons_of_mem _ hsu') d drb q hadd hq ((mem_iff_exists _ _).2 ⟨_, hmap⟩)
  · have heq := hf.differ su mem_cons_self su' (mem_cons_of_mem _ hsu') d' d drb' drb q hadd' hadd hq' hq
    subst heq
    exact hapart su' hsu' d' ((mem_iff_exists _ _).2 ⟨_, hadd'⟩) ((mem_iff_exists _ _).2 ⟨_, hadd⟩)

/-- one session and then the others -/
theorem Changed.cons {ctx₁ : UpContext} (hb : Batch ctx rem (su :: l)) (h : Linked ctx)
    (happ : Applied ctx ctx₁ su.id su.drbToAdd (rem su)) (hrest : Changed ctx₁ ctx' rem l) :
    Changed ctx ctx' rem (su :: l) := by
  obtain ⟨hids, -⟩ := pairwise_cons.1 hb.ids
  refine ⟨hrest.linked, fun k => ?_, fun k d drb => ?_, fun d => ?_,
    fun hf hfresh => hrest.flowsFound (happ.flowsFound h hf hfresh.head) (hfresh.tail hb happ)⟩
  · rw [hrest.sessions, happ.sessions, exists_mem_cons_iff, or_assoc, eq_comm]
  · rw [hrest.live, happ.live, exists_mem_cons_iff, exists_mem_cons_iff]
    by_cases hk : su.id = k
    · subst hk
      have hno : ∀ P : UpPduSessionContextUpdate → Prop, ¬∃ su' ∈ l, su'.id = su.id ∧ P su' := by
        rintro P ⟨su', hmem, heq, -⟩
        exact hids su' hmem heq.symm
      simp [hno]
    · have hk' : k ≠ su.id := Ne.symm hk
      simp [hk, hk']
  · rw [hrest.used, happ.used, Finset.mem_union, mem_keySet, exists_mem_cons_iff, or_assoc]

/-- a loop over the sessions of a batch, each of which is `old` or not -/
theorem batch_spec {f : UpContext → UpPduSessionContextUpdate → Except UpFault UpContext} {old : Prop}
    (hf : ∀ ctx su, Linked ctx → (su.id ∈ ctx.pduSessions ↔ old) → Ready ctx su.id su.drbToAdd (rem su) →
      ∃ ctx', f ctx su = .ok ctx' ∧ Applied ctx ctx' su.id su.drbToAdd (rem su))
    (hb : Batch ctx rem l) (h : Linked ctx) (hold : ∀ su ∈ l, (su.id ∈ ctx.pduSessions ↔ old)) :
    ∃ ctx', l.foldlM f ctx = .ok ctx' ∧ Changed ctx ctx' rem l := by
  induction l generalizing ctx with
  | nil => exact ⟨ctx, rfl, changed_nil h⟩
  | cons su l ih =>
    have hready := hb.ready su mem_cons_self
    obtain ⟨ctx₁, h₁, happ⟩ := hf ctx su h (hold su mem_cons_self) hready
    have hlinked := happ.linked h hready
    obtain ⟨hids, -⟩ := pairwise_cons.1 hb.ids
    have hold' : ∀ su' ∈ l, (su'.id ∈ ctx₁.pduSessions ↔ old) := by
      intro su' hsu'
      have hne : su'.id ≠ su.id := fun heq => hids su' hsu' heq.symm
      rw [happ.sessions, ← hold su' (mem_cons_of_mem _ hsu')]
      simp [hne]
    obtain ⟨ctx', h', hchanged⟩ := ih (hb.tail h hlinked happ) hlinked hold'
    exact ⟨ctx', by rw [foldlM_cons, h₁, ok_bind, h'], .cons hb h happ hchanged⟩

end Batch

/-! ## Released sessions -/

/-- the context after the sessions of `l` were released -/
structure Released (ctx ctx' : UpContext) (l : List ℕ) : Prop where
  linked : Linked ctx'
  sessions : ∀ k, k ∈ ctx'.pduSessions ↔ k ∈ ctx.pduSessions ∧ k ∉ l
  live : ∀ k d drb, Live ctx' k d drb ↔ Live ctx k d drb ∧ k ∉ l
  used : ctx'.usedDrbIds = ctx.usedDrbIds
  flowsFound : FlowsFound ctx → FlowsFound ctx'

theorem released_nil (h : Linked ctx) : Released ctx ctx [] := ⟨h, by simp, by simp, rfl, id⟩

theorem Released.trans {ctx₁ : UpContext} {l₁ l₂ : List ℕ} (h₁ : Released ctx ctx₁ l₁) (h₂ : Released ctx₁ ctx' l₂) :
    Released ctx ctx' (l₁ ++ l₂) := by
  refine ⟨h₂.linked, fun k => ?_, fun k d drb => ?_, h₂.used.trans h₁.used, fun hf => h₂.flowsFound (h₁.flowsFound hf)⟩
  · rw [h₂.sessions, h₁.sessions, mem_append, not_or, and_assoc]
  · rw [h₂.live, h₁.live, mem_append, not_or, and_assoc]

/-- the flow map once a session is gone -/
theorem getElem?_flowsErased (l : List (ℕ × UpDrbContext)) (m : ExtTreeMap ℕ ℕ) (q : ℕ) :
    (l.foldl (fun m e => e.2.qosFlows.keys.foldl (fun m qfi => m.erase qfi) m) m)[q]? =
      if q ∈ (flowsOf l).map fst then none else m[q]? := by
  rw [← getElem?_foldl_erase, foldl_map, flowsOf, foldl_flatMap]
  simp only [foldl_map]

theorem mem_flowsOf_fst {m : ExtTreeMap ℕ UpDrbContext} {q : ℕ} :
    q ∈ (flowsOf m.toList).map Prod.fst ↔ ∃ (d : ℕ) (drb : UpDrbContext), m[d]? = some drb ∧ q ∈ drb.qosFlows := by
  simp only [mem_map, Prod.exists, exists_and_right, exists_eq_right, mem_flowsOf,
    ExtTreeMap.mem_toList_iff_getElem?_eq_some]

theorem applyRemoved_spec {s : ℕ} (h : Linked ctx) (hs : s ∈ ctx.pduSessions) :
    ∃ ctx', applyRemoved ctx s = .ok ctx' ∧ Released ctx ctx' [s] := by
  obtain ⟨session, hsession⟩ := (mem_iff_exists _ _).1 hs
  have hown : ∀ d drb, session.drbs[d]? = some drb ↔ Live ctx s d drb := by simp [Live, hsession]
  let ctx' : UpContext :=
    { ctx with
      qosFlowMap := session.drbs.toList.foldl (fun m e => e.2.qosFlows.keys.foldl (fun m qfi => m.erase qfi) m)
        ctx.qosFlowMap
      drbMap := session.drbs.keys.foldl (fun m drbId => m.erase drbId) ctx.drbMap
      pduSessions := ctx.pduSessions.erase s }
  have hget : ∀ k : ℕ, ctx'.pduSessions[k]? = if s = k then none else ctx.pduSessions[k]? := by
    intro k
    simp [ctx', ExtTreeMap.getElem?_erase]
  have hlive : ∀ k d drb, Live ctx' k d drb ↔ Live ctx k d drb ∧ k ∉ [s] := by
    intro k d drb
    rw [mem_singleton]
    by_cases hk : s = k
    · simp [Live, hget, hk]
    · simp [Live, hget, hk, Ne.symm hk]
  have hdrb : ∀ d : ℕ, ctx'.drbMap[d]? = if d ∈ session.drbs then none else ctx.drbMap[d]? := by
    intro d
    simp only [ctx', getElem?_foldl_erase, ExtTreeMap.mem_keys]
  have hmap : ∀ q : ℕ, ctx'.qosFlowMap[q]? =
      if q ∈ (flowsOf session.drbs.toList).map fst then none else ctx.qosFlowMap[q]? :=
    getElem?_flowsErased _ _
  have hsub : ∀ d, d ∈ ctx'.drbMap → d ∈ ctx.drbMap := by
    intro d hd
    obtain ⟨k, hk⟩ := (mem_iff_exists _ _).1 hd
    rw [hdrb] at hk
    split_ifs at hk
    exact (mem_iff_exists _ _).2 ⟨k, hk⟩
  refine ⟨ctx', by simp only [applyRemoved, hsession, ctx'], ⟨fun k session' hk => ?_, fun d k => ?_, fun d hd => ?_,
    h.range, fun k d drb hl => ?_⟩, fun k => ?_, hlive, rfl, fun hf k d drb q hl hq => ?_⟩
  · rw [hget] at hk
    split_ifs at hk
    exact h.id k session' hk
  · -- the session's DRBs are the ones that leave the map
    have hmem : d ∈ session.drbs ↔ ctx.drbMap[d]? = some s := by
      rw [mem_iff_exists, h.drb]
      exact exists_congr (hown d)
    simp only [hlive, mem_singleton, exists_and_right]
    rw [hdrb, ← h.drb]
    by_cases hd : d ∈ session.drbs
    · rw [if_pos hd, hmem.1 hd]
      simp [eq_comm]
    · rw [if_neg hd, iff_self_and]
      rintro hk rfl
      exact hd (hmem.2 hk)
  · exact h.used d (hsub d hd)
  · exact h.single k d drb ((hlive k d drb).1 hl).1
  · rw [mem_iff_exists, mem_iff_exists, hget, mem_singleton]
    by_cases hk : s = k
    · simp [hk]
    · simp [hk, Ne.symm hk]
  · obtain ⟨hl, hk⟩ := (hlive k d drb).1 hl
    rw [hmap, if_neg, hf k d drb q hl hq]
    rw [mem_flowsOf_fst]
    rintro ⟨d', drb', hdrb', hq'⟩
    have hl' := (hown d' drb').1 hdrb'
    -- both DRBs are the one the map has for the flow
    have hsame := (hf k d drb q hl hq).symm.trans (hf s d' drb' q hl' hq')
    cases hsame
    exact hk (mem_singleton.2 (h.session_unique hl hl'))

theorem applyRemoved_all {l : List ℕ} (h : Linked ctx) (hnodup : l.Nodup) (hall : ∀ s ∈ l, s ∈ ctx.pduSessions) :
    ∃ ctx', l.foldlM applyRemoved ctx = .ok ctx' ∧ Released ctx ctx' l := by
  induction l generalizing ctx with
  | nil => exact ⟨ctx, rfl, released_nil h⟩
  | cons s l ih =>
    obtain ⟨hs, hnodup⟩ := nodup_cons.1 hnodup
    obtain ⟨ctx₁, h₁, hrel₁⟩ := applyRemoved_spec h (hall s mem_cons_self)
    have hall' : ∀ s' ∈ l, s' ∈ ctx₁.pduSessions := by
      intro s' hs'
      rw [hrel₁.sessions, mem_singleton]
      exact ⟨hall s' (mem_cons_of_mem _ hs'), fun heq => hs (heq ▸ hs')⟩
    obtain ⟨ctx', h', hrel⟩ := ih hrel₁.linked hnodup hall'
    exact ⟨ctx', by rw [foldlM_cons, h₁, ok_bind, h'], hrel₁.trans hrel⟩

/-! ## Key changes -/

/-- after a key change the used IDs are those of the DRBs -/
theorem refreshDrbIdAfterKeyChange_ok (h : ∀ d, d ∈ ctx.drbMap → InRange d) :
    refreshDrbIdAfterKeyChange ctx = .ok { ctx with usedDrbIds := keySet ctx.drbMap } := by
  have hloop : ∀ (l : List ℕ) (used : Finset ℕ), (∀ d ∈ l, InRange d) →
      l.foldlM (fun (used : Finset ℕ) drbId => do
        let _ ← getUsedDrbIndex drbId
        Except.ok (insert drbId used)) used = .ok (used ∪ l.toFinset) := by
    intro l
    induction l with
    | nil => simp [pure, Except.pure]
    | cons d l ih =>
      intro used hrange
      rw [foldlM_cons, getUsedDrbIndex_of_inRange (hrange d mem_cons_self), ok_bind, ok_bind,
        ih _ fun d' hd' => hrange d' (mem_cons_of_mem _ hd')]
      simp
  unfold refreshDrbIdAfterKeyChange
  rw [hloop _ _ fun d hd => h d (by simpa using hd), ok_bind, Finset.empty_union]
  rfl

end OcuduRan.CuCp.Up
