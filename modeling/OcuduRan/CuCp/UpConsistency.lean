/-
The user-plane context stays consistent over whole runs (lib/cu_cp/up_resource_manager).

A run is any sequence of setup, modify and release requests with any contents and of key changes, from the empty
context. `Fulfilled`: the request returns, the context it leaves is `Consistent` (`drb_map` is what the sessions have,
every flow of every DRB is found under its DRB and session, the limit on the number of DRBs is kept), and a flow that
was not to be released is still there. `consistent_of_permitted`: this holds of every request of a run in which every
request is `Permitted`, that is refused by `is_valid` or such that
- the preferred DRB IDs of a setup can be looked at (1 .. 29, or 30, which stands for none);
- a modification releases flows from the session they are in;
- the flows that get a DRB, the first ones of the request for which there is a free ID, have QFIs that differ and are
  not in `qos_flow_map`;
- the DRBs in use with those for these flows and without those of the flows it releases are within the limit.

None of the conditions is guaranteed by `is_valid`: `qos_flow_map` is keyed by the QFI alone, although a QFI is unique
in a PDU session only, and the limit is checked against the DRBs in use before the request.
Witnesses (`inconsistent_runs`): two sessions with QFI 7 in one request leave the second session's flow on the first
session's DRB; a second session with QFI 7 set up later and released takes the first session's entry with it; two flows
under a limit of one DRB give two DRBs; a modification of session 1 that releases the flow of session 2 looks up a DRB
that session 1 does not have.
-/
import OcuduRan.Core.Machine
import OcuduRan.CuCp.UpSteps

namespace OcuduRan.CuCp.Up

open Std (ExtTreeMap)
open ExceptFold TreeMaps Machine UpContext

variable {ctx ctx' : UpContext} {cfg : UpCfg} {o : UpOp} {s d : ℕ}

/-! ## The property -/

/-- the maps agree with the sessions, and the limit is kept -/
structure Consistent (cfg : UpCfg) (ctx : UpContext) : Prop where
  drb : ∀ d s : ℕ, ctx.drbMap[d]? = some s ↔ ∃ drb, Live ctx s d drb
  flow : ∀ s d drb q, Live ctx s d drb → q ∈ drb.qosFlows → ctx.qosFlowMap[q]? = some d ∧ ctx.drbMap[d]? = some s
  limit : ctx.drbMap.size ≤ cfg.maxNofDrbsPerUe

/-- flow `q` of session `s` is to be released -/
def ReleasedBy : UpOp → ℕ → ℕ → Prop
  | .modify items, s, q => (s, q) ∈ releasedFlows items.toList
  | .release items, s, _ => s ∈ items
  | .setup _ _, _, _ => False
  | .keyChange, _, _ => False

/-- the flows that are not to be released stay on their DRBs and are found there -/
def Keeps (ctx : UpContext) (o : UpOp) (ctx' : UpContext) : Prop :=
  ∀ s d drb q, Live ctx s d drb → q ∈ drb.qosFlows → ¬ReleasedBy o s q →
    Live ctx' s d drb ∧ ctx'.qosFlowMap[q]? = some d

/-- the request returns, leaves a consistent context and keeps the flows that are not to be released -/
def Fulfilled (cfg : UpCfg) (ctx : UpContext) (o : UpOp) : Prop :=
  ∃ ctx', perform cfg ctx o = .ok ctx' ∧ Consistent cfg ctx' ∧ Keeps ctx o ctx'

/-! ## The condition -/

/-- the flows that get a DRB have QFIs that differ and are not in use -/
def FreshFlows (cfg : UpCfg) (ctx : UpContext) (o : UpOp) : Prop :=
  (∀ f ∈ admitted cfg ctx o, f.2 ∉ ctx.qosFlowMap) ∧ ((admitted cfg ctx o).map Prod.snd).Nodup

def Permitted (cfg : UpCfg) (ctx : UpContext) (o : UpOp) : Prop :=
  isValid cfg ctx o = true → Planable cfg ctx o ∧ WithinLimit cfg ctx o ∧ FreshFlows cfg ctx o

instance : Decidable (FreshFlows cfg ctx o) := inferInstanceAs (Decidable (_ ∧ _))

instance : Decidable (Permitted cfg ctx o) := inferInstanceAs (Decidable (_ → _))

/-! ## One request -/

/-- what holds between the requests of a run whose requests are all permitted -/
structure Inv (cfg : UpCfg) (ctx : UpContext) : Prop where
  linked : Linked ctx
  found : FlowsFound ctx
  limit : ctx.drbMap.size ≤ cfg.maxNofDrbsPerUe

theorem inv_init (cfg : UpCfg) : Inv cfg init := ⟨linked_init, flowsFound_init, by simp [init]⟩

theorem Inv.consistent (h : Inv cfg ctx) : Consistent cfg ctx :=
  ⟨h.linked.drb, fun s d drb q hl hq => ⟨h.found s d drb q hl hq, (h.linked.drb d s).2 ⟨drb, hl⟩⟩, h.limit⟩

/-- a permitted request leaves every flow where it can be found -/
theorem Outcome.flowsFound (hout : Outcome cfg ctx o ctx') (h : FlowsFound ctx)
    (hfresh : isValid cfg ctx o = true → FreshFlows cfg ctx o) : FlowsFound ctx' := by
  cases hout with
  | refused => exact h
  | updated hvalid _ _ hupdated => exact hupdated.flowsFound h (hfresh hvalid).1 (hfresh hvalid).2
  | release _ _ hreleased => exact hreleased.flowsFound h
  | keyChange => exact h

/-- a DRB of a flow that is not to be released stays with its session -/
theorem Outcome.kept (hout : Outcome cfg ctx o ctx') (h : Linked ctx) {s d q : ℕ} {drb : UpDrbContext}
    (hl : Live ctx s d drb) (hq : q ∈ drb.qosFlows) (hnot : ¬ReleasedBy o s q) : Live ctx' s d drb := by
  cases hout with
  | refused => exact hl
  | updated _ _ _ hupdated =>
    refine (hupdated.live s d drb).2 (.inl ⟨hl, ?_⟩)
    rintro ⟨q', hq', hon⟩
    -- the DRB carries one flow, so that flow is to be released
    obtain ⟨drb', hl', hmem⟩ := hon.live
    obtain rfl := hl.eq hl'
    obtain ⟨k, hk⟩ := h.single s d drb hl
    rw [(hk q').1 hmem, ← (hk q).1 hq] at hq'
    cases o with
    | modify items => exact hnot hq'
    | _ => cases hq'
  | release _ _ hreleased =>
    refine (hreleased.live s d drb).2 ⟨hl, fun hmem => hnot ?_⟩
    exact ExtTreeMap.mem_keys.1 hmem
  | keyChange => exact hl

theorem Inv.step (h : Inv cfg ctx) (hp : Permitted cfg ctx o) : Fulfilled cfg ctx o ∧ Inv cfg (step cfg ctx o) := by
  have hplan := fun hvalid => (hp hvalid).1
  obtain ⟨ctx', hok, hout⟩ := perform_of_planable h.linked hplan
  have hinv : Inv cfg ctx' := ⟨hout.linked h.linked, hout.flowsFound h.found fun hvalid => (hp hvalid).2.2,
    hout.limit h.linked hplan h.limit fun hvalid => (hp hvalid).2.1⟩
  rw [step_of_ok hok]
  refine ⟨⟨ctx', hok, hinv.consistent, fun s d drb q hl hq hnot => ?_⟩, hinv⟩
  have hl' := hout.kept h.linked hl hq hnot
  exact ⟨hl', hinv.found s d drb q hl' hq⟩

/-! ## Whole runs -/

/-- a modification of session `s` that adds flow `q` and releases flow `q'` -/
def exchangeFlow (s q q' : ℕ) : UpOp :=
  .modify ((∅ : ExtTreeMap ℕ ModifyItem).insert s
    ⟨(∅ : ExtTreeMap ℕ QosParams).insert q ⟨9⟩, (∅ : ExtTreeMap ℕ Unit).insert q' ()⟩)

/-- the release of session `s` -/
def releaseOf (s : ℕ) : UpOp := .release ((∅ : ExtTreeMap ℕ Unit).insert s ())

/-- every request of a run is fulfilled if every one is permitted -/
theorem consistent_of_permitted (cfg : UpCfg) (ops : List UpOp)
    (h : Always (step cfg) (Permitted cfg) UpContext.init ops) :
    Always (step cfg) (Fulfilled cfg) UpContext.init ops :=
  always_imp (I := Inv cfg) (fun _ _ hinv hp => hinv.step hp) UpContext.init ops (inv_init cfg) h

theorem consistent_of_permitted_exchange : Always (step (smallCfg 3)) (Fulfilled (smallCfg 3)) UpContext.init
    [.setup (setupItemsOf [(1, [7]), (2, [8])]) ∅, exchangeFlow 1 9 7, .keyChange, releaseOf 2] :=
  consistent_of_permitted _ _ (by decide +kernel)

/-! ## Runs that end badly -/

/-- the QFIs on DRB `d` of session `s` -/
def flowsOnDrb (ctx : UpContext) (s d : ℕ) : Option (List ℕ) :=
  (ctx.pduSessions[s]?.bind fun session => session.drbs[d]?).map fun drb => drb.qosFlows.keys

theorem live_of_flowsOnDrb {l : List ℕ} (h : flowsOnDrb ctx s d = some l) :
    ∃ drb, Live ctx s d drb ∧ ∀ q ∈ l, q ∈ drb.qosFlows := by
  obtain ⟨drb, hdrb, rfl⟩ := Option.map_eq_some_iff.1 h
  obtain ⟨session, hsession, hd⟩ := Option.bind_eq_some_iff.1 hdrb
  exact ⟨drb, ⟨session, hsession, hd⟩, fun q hq => ExtTreeMap.mem_keys.1 hq⟩

theorem inconsistent_runs :
    ¬Always (step (smallCfg 8)) (Fulfilled (smallCfg 8)) UpContext.init [.setup (setupItemsOf [(1, [7]), (2, [7])]) ∅] ∧
    ¬Always (step (smallCfg 1)) (Fulfilled (smallCfg 1)) UpContext.init [.setup (setupItemsOf [(1, [7, 8])]) ∅] ∧
    ¬Always (step (smallCfg 8)) (Fulfilled (smallCfg 8)) UpContext.init
      [.setup (setupItemsOf [(1, [7]), (2, [8])]) ∅, exchangeFlow 1 9 8] ∧
    let ctx := run (step (smallCfg 8)) UpContext.init
      [.setup (setupItemsOf [(1, [7])]) ∅, .setup (setupItemsOf [(2, [7])]) ∅]
    ctx.qosFlowMap[7]? = some 1 ∧ ¬Keeps ctx (releaseOf 2) (step (smallCfg 8) ctx (releaseOf 2)) := by
  refine ⟨?_, ?_, ?_, by decide +kernel, ?_⟩
  · -- the second session's flow is on DRB 2 and found under DRB 1
    rintro ⟨⟨ctx', hok, hcons, -⟩, -⟩
    have hdrb : (perform (smallCfg 8) init (.setup (setupItemsOf [(1, [7]), (2, [7])]) ∅)).toOption.bind
        (fun ctx => flowsOnDrb ctx 2 2) = some [7] := by decide +kernel
    have hmap : (perform (smallCfg 8) init (.setup (setupItemsOf [(1, [7]), (2, [7])]) ∅)).toOption.bind
        (fun ctx => ctx.qosFlowMap[7]?) = some 1 := by decide +kernel
    rw [hok] at hdrb hmap
    obtain ⟨drb, hl, hq⟩ := live_of_flowsOnDrb hdrb
    have hfound := (hcons.flow 2 2 drb 7 hl (hq 7 List.mem_cons_self)).1
    rw [show ctx'.qosFlowMap[7]? = some 1 from hmap] at hfound
    cases hfound
  · -- two DRBs under a limit of one
    rintro ⟨⟨ctx', hok, hcons, -⟩, -⟩
    have hsize : (perform (smallCfg 1) init (.setup (setupItemsOf [(1, [7, 8])]) ∅)).toOption.map
        (fun ctx => ctx.drbMap.size) = some 2 := by decide +kernel
    rw [hok] at hsize
    have hlimit := hcons.limit
    rw [show ctx'.drbMap.size = 2 from Option.some.inj hsize] at hlimit
    exact absurd hlimit (by decide)
  · -- the DRB of session 2 is looked up in session 1
    rintro ⟨-, ⟨ctx', hok, -⟩, -⟩
    have hfault : (perform (smallCfg 8) (step (smallCfg 8) init (.setup (setupItemsOf [(1, [7]), (2, [8])]) ∅))
        (exchangeFlow 1 9 8)).toOption.isSome = false := by decide +kernel
    rw [hok] at hfault
    cases hfault
  · -- the entry of session 1 goes with session 2
    intro hkeeps
    have hdrb : flowsOnDrb (run (step (smallCfg 8)) UpContext.init
        [.setup (setupItemsOf [(1, [7])]) ∅, .setup (setupItemsOf [(2, [7])]) ∅]) 1 1 = some [7] := by decide +kernel
    obtain ⟨drb, hl, hq⟩ := live_of_flowsOnDrb hdrb
    have hfound := (hkeeps 1 1 drb 7 hl (hq 7 List.mem_cons_self) (by simp [ReleasedBy, releaseOf])).2
    revert hfound
    decide +kernel

end OcuduRan.CuCp.Up
