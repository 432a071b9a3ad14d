/-
User-plane resources of one UE in the CU-CP (lib/cu_cp/up_resource_manager/up_resource_manager_impl.cpp and
up_resource_manager_helpers.cpp): PDU sessions, the DRBs of each session, the QoS flow on each DRB.

A request (setup, modify or release of PDU sessions) is validated against the context, turned into a plan by
`calculate_update` and applied by `apply_config_update`. The context keeps four views of the same thing: the sessions
with their DRBs, `drb_map` from DRB to session, `qos_flow_map` from QFI to DRB, and the DRB IDs used since the last key
change. A failed assertion is the fault `assertion`, an `at()` of a missing key is `outOfRange`.

Identifiers are numbers: DRB IDs run from 1 to 29 and 30 is `drb_id_t::invalid`. The slotted vectors of a request and
the `std::map`s of the context are ordered maps; a loop over one is a loop over its entries in key order. NAS PDUs,
transport addresses and session types are handed through by the source and left out.
-/
import Mathlib
import OcuduRan.Core.ExceptFold

namespace OcuduRan.CuCp.Up

open Std (ExtTreeMap)

/-- `MAX_NOF_DRBS` -/
def maxNofDrbs : ℕ := 29

/-- `drb_id_t::invalid` -/
def drbIdInvalid : ℕ := 30

/-- `five_qi_t::invalid` -/
def fiveQiInvalid : ℕ := 256

/-- what ends the program in a call -/
inductive UpFault where
  | assertion
  | outOfRange
deriving DecidableEq, Repr

/-! ## Context -/

inductive PdcpRlcMode where
  | um
  | am
deriving DecidableEq, Repr

inductive RlcMode where
  | umBidir
  | am
deriving DecidableEq, Repr

/-- the part of `pdcp_config` that is computed here -/
structure PdcpConfig where
  rlcMode : PdcpRlcMode
  integrityProtectionRequired : Bool
  cipheringRequired : Bool
deriving DecidableEq, Repr

/-- `sdap_config_t`; both headers are absent -/
structure SdapConfig where
  pduSession : ℕ
  defaultDrb : Bool
  mappedQosFlowsToAdd : List ℕ
deriving DecidableEq, Repr

/-- `qos_flow_level_qos_parameters`, as far as it is read -/
structure QosParams where
  fiveQi : ℕ
deriving DecidableEq, Repr

/-- `up_drb_context`; the key of a QoS flow is its QFI -/
structure UpDrbContext where
  drbId : ℕ
  pduSessionId : ℕ
  sNssai : ℕ
  defaultDrb : Bool
  rlcMod : RlcMode
  qosParams : QosParams
  qosFlows : ExtTreeMap ℕ QosParams
  sourceDrbIdConfirmed : Bool
  pdcpCfg : PdcpConfig
  sdapCfg : SdapConfig

/-- `up_pdu_session_context`; the two results say whether protection is performed -/
structure UpPduSessionContext where
  id : ℕ
  drbs : ExtTreeMap ℕ UpDrbContext
  integrityProtectionResult : Bool
  confidentialityProtectionResult : Bool

/-- `up_context`; `usedDrbIds` holds the DRB IDs whose bit is set -/
structure UpContext where
  pduSessions : ExtTreeMap ℕ UpPduSessionContext
  drbMap : ExtTreeMap ℕ ℕ
  qosFlowMap : ExtTreeMap ℕ ℕ
  usedDrbIds : Finset ℕ

def UpContext.init : UpContext := ⟨∅, ∅, ∅, ∅⟩

/-- `up_resource_manager_cfg` -/
structure UpCfg where
  fiveQiConfig : ExtTreeMap ℕ PdcpConfig
  maxNofDrbsPerUe : ℕ
  maxNofDrbsPerUe_lt : maxNofDrbsPerUe < 2 ^ 8

/-! ## Plans -/

/-- `up_pdu_session_context_update` -/
structure UpPduSessionContextUpdate where
  id : ℕ
  drbToAdd : ExtTreeMap ℕ UpDrbContext
  drbToModify : ExtTreeMap ℕ UpDrbContext
  drbToRemove : List ℕ
  integrityProtectionResult : Bool
  confidentialityProtectionResult : Bool

/-- a plan for a session with nothing in it; protection is assumed until the CU-UP reports otherwise -/
def UpPduSessionContextUpdate.new (id : ℕ) : UpPduSessionContextUpdate := ⟨id, ∅, ∅, [], true, true⟩

/-- `up_config_update` -/
structure UpConfigUpdate where
  initialContextCreation : Bool
  pduSessionsToSetupList : ExtTreeMap ℕ UpPduSessionContextUpdate
  pduSessionsToModifyList : ExtTreeMap ℕ UpPduSessionContextUpdate
  pduSessionsToRemoveList : List ℕ
  pduSessionsFailedToModifyList : List ℕ
  drbToRemoveList : List ℕ

def UpConfigUpdate.new (initial : Bool) : UpConfigUpdate := ⟨initial, ∅, ∅, [], [], []⟩

/-! ## Requests -/

/-- `cu_cp_pdu_session_res_setup_item`: the QoS flows to set up, by QFI -/
structure SetupItem where
  sNssai : ℕ
  qosFlowSetupRequestItems : ExtTreeMap ℕ QosParams

/-- `ngap_pdu_session_res_modify_item_mod_req` -/
structure ModifyItem where
  qosFlowAddOrModifyRequestList : ExtTreeMap ℕ QosParams
  qosFlowToReleaseList : ExtTreeMap ℕ Unit

/-- `up_old_drb_association`: the DRB a source node used for a QoS flow, by session and QFI -/
abbrev OldDrbAssociation : Type := ExtTreeMap ℕ (ExtTreeMap ℕ ℕ)

/-- requests by PDU session ID -/
abbrev SetupItems : Type := ExtTreeMap ℕ SetupItem

abbrev ModifyItems : Type := ExtTreeMap ℕ ModifyItem

abbrev ReleaseItems : Type := ExtTreeMap ℕ Unit

/-- `get_five_qi` -/
def getFiveQi (cfg : UpCfg) (params : QosParams) : ℕ :=
  if params.fiveQi = fiveQiInvalid then fiveQiInvalid
  else if params.fiveQi ∉ cfg.fiveQiConfig then fiveQiInvalid
  else params.fiveQi

variable (ctx : UpContext)

/-- `is_valid` of a setup request -/
def isValidSetup (cfg : UpCfg) (items : SetupItems) : Bool :=
  !items.isEmpty && items.toList.all fun e =>
    e.1 ∉ ctx.pduSessions && e.2.qosFlowSetupRequestItems.toList.all fun flow => getFiveQi cfg flow.2 ≠ fiveQiInvalid

/-- `is_valid` of a modify request -/
def isValidModify (cfg : UpCfg) (items : ModifyItems) : Bool :=
  !items.isEmpty && items.toList.all fun e =>
    e.1 ∈ ctx.pduSessions &&
      (e.2.qosFlowAddOrModifyRequestList.toList.all fun flow => getFiveQi cfg flow.2 ≠ fiveQiInvalid) &&
      (e.2.qosFlowToReleaseList.keys.all fun qfi => qfi ∈ ctx.qosFlowMap) &&
      e.2.qosFlowToReleaseList.size < ctx.qosFlowMap.size

/-- `is_valid` of a release command -/
def isValidRelease (items : ReleaseItems) : Bool :=
  !items.isEmpty && items.keys.all fun psi => psi ∈ ctx.pduSessions

/-! ## DRB IDs -/

/-- `get_used_drb_index`: the subtraction is unsigned, so 0 is out of range too -/
def getUsedDrbIndex (drbId : ℕ) : Except UpFault ℕ :=
  if 1 ≤ drbId ∧ drbId ≤ maxNofDrbs then .ok (drbId - 1) else .error .assertion

variable (update : UpConfigUpdate)

/-- `contains_drb` of a plan -/
def UpConfigUpdate.containsDrb (drbId : ℕ) : Bool :=
  (update.pduSessionsToSetupList.toList.any fun e => drbId ∈ e.2.drbToAdd) ||
    update.pduSessionsToModifyList.toList.any fun e => drbId ∈ e.2.drbToAdd

variable (new : UpPduSessionContextUpdate)

/-- the ID is in the context, in the plan or in the session under construction -/
def isAllocated (drbId : ℕ) : Bool :=
  drbId ∈ ctx.drbMap || update.containsDrb drbId || drbId ∈ new.drbToAdd

def isDrbIdFree (drbId : ℕ) :
    Except UpFault Bool :=
  if isAllocated ctx update new drbId then .ok false
  else do
    let _ ← getUsedDrbIndex drbId
    .ok (drbId ∉ ctx.usedDrbIds)

/-- the loop of `allocate_drb_id` from `drbId` on -/
def scanDrbIds (ctx : UpContext) (update : UpConfigUpdate) (new : UpPduSessionContextUpdate) :
    ℕ → ℕ → Except UpFault ℕ
  | 0, drbId => .ok drbId
  | fuel + 1, drbId => do
    let free ← isDrbIdFree ctx update new drbId
    if free then .ok drbId
    else if drbId + 1 = drbIdInvalid then .ok drbIdInvalid
    else scanDrbIds ctx update new fuel (drbId + 1)

/-- the source's DRB ID is taken when it is free; it is only looked at when it is not the invalid one -/
def reusePreferred :
    Option ℕ → Except UpFault Bool
  | some p => if p ≠ drbIdInvalid then isDrbIdFree ctx update new p else .ok false
  | none => .ok false

/-- `allocate_drb_id` -/
def allocateDrbId (ctx : UpContext) (update : UpConfigUpdate) (maxNofDrbsPerUe : ℕ)
    (preferred : Option ℕ) : Except UpFault ℕ :=
  if maxNofDrbsPerUe ≤ ctx.drbMap.size then .ok drbIdInvalid
  else do
    let reuse ← reusePreferred ctx update new preferred
    if reuse then .ok (preferred.getD drbIdInvalid) else scanDrbIds ctx update new maxNofDrbs 1

/-! ## QoS flows -/

/-- `set_rrc_pdcp_config` -/
def setRrcPdcpConfig (fiveQi : ℕ) (cfg : UpCfg) (integrity ciphering : Bool) : Except UpFault PdcpConfig :=
  match cfg.fiveQiConfig[fiveQi]? with
  | none => .error .assertion
  | some pdcp => .ok { pdcp with integrityProtectionRequired := integrity, cipheringRequired := ciphering }

/-- the DRB made for one QoS flow, by `allocate_qos_flow` and `modify_qos_flow` alike -/
def drbForFlow (drbId qfi : ℕ) (params : QosParams) (defaultDrb confirmed : Bool)
    (pdcp : PdcpConfig) : UpDrbContext where
  drbId := drbId
  pduSessionId := new.id
  sNssai := 0
  defaultDrb := defaultDrb
  rlcMod := if pdcp.rlcMode = .am then .am else .umBidir
  qosParams := params
  qosFlows := (∅ : ExtTreeMap ℕ QosParams).insertIfNew qfi params
  sourceDrbIdConfirmed := confirmed
  pdcpCfg := pdcp
  sdapCfg := ⟨new.id, defaultDrb, [qfi]⟩

/-- `allocate_qos_flow`: a new DRB for the flow, or the invalid ID and an unchanged session -/
def allocateQosFlow (qfi : ℕ) (params : QosParams) (update : UpConfigUpdate)
    (ctx : UpContext) (cfg : UpCfg) (preferred : Option ℕ) : Except UpFault (ℕ × UpPduSessionContextUpdate) :=
  if getFiveQi cfg params = fiveQiInvalid then .error .assertion
  else if cfg.maxNofDrbsPerUe ≤ ctx.drbMap.size then .ok (drbIdInvalid, new)
  else do
    let drbId ← allocateDrbId new ctx update cfg.maxNofDrbsPerUe preferred
    if drbId = drbIdInvalid then .ok (drbIdInvalid, new)
    else do
      let pdcp ← setRrcPdcpConfig (getFiveQi cfg params) cfg new.integrityProtectionResult
        new.confidentialityProtectionResult
      let drb := drbForFlow new drbId qfi params ctx.drbMap.isEmpty (preferred = some drbId) pdcp
      .ok (drbId, { new with drbToAdd := new.drbToAdd.insertIfNew drbId drb })

/-- `modify_qos_flow` -/
def modifyQosFlow (qfi : ℕ) (params : QosParams) (ctx : UpContext) (cfg : UpCfg) :
    Except UpFault (ℕ × UpPduSessionContextUpdate) :=
  match ctx.qosFlowMap[qfi]? with
  | none => .ok (drbIdInvalid, new)
  | some drbId => do
    let pdcp ← setRrcPdcpConfig params.fiveQi cfg new.integrityProtectionResult new.confidentialityProtectionResult
    let drb := drbForFlow new drbId qfi params false false pdcp
    .ok (drbId, { new with drbToModify := new.drbToModify.insertIfNew drbId drb })

/-! ## `calculate_update` -/

/-- one QoS flow of a session to be set up -/
def setupFlow (cfg : UpCfg) (update : UpConfigUpdate) (sNssai : ℕ)
    (oldFlowToDrbId : Option (ExtTreeMap ℕ ℕ)) (new : UpPduSessionContextUpdate) (flow : ℕ × QosParams) :
    Except UpFault UpPduSessionContextUpdate := do
  let r ← allocateQosFlow new flow.1 flow.2 update ctx cfg (oldFlowToDrbId.bind fun m => m[flow.1]?)
  if r.1 = drbIdInvalid then .ok new
  else
    match r.2.drbToAdd[r.1]? with
    | none => .error .outOfRange
    | some drb => .ok { r.2 with drbToAdd := r.2.drbToAdd.insert r.1 { drb with sNssai := sNssai } }

/-- one session of a setup request -/
def setupSession (cfg : UpCfg) (old : OldDrbAssociation) (update : UpConfigUpdate)
    (item : ℕ × SetupItem) : Except UpFault UpConfigUpdate :=
  if item.1 ∈ ctx.pduSessions then .error .assertion
  else do
    let new ← item.2.qosFlowSetupRequestItems.toList.foldlM (setupFlow ctx cfg update item.2.sNssai old[item.1]?)
      (.new item.1)
    if new.drbToAdd.isEmpty then .ok update
    else .ok { update with pduSessionsToSetupList := update.pduSessionsToSetupList.insertIfNew new.id new }

def calculateSetup (items : SetupItems) (ctx : UpContext) (cfg : UpCfg) (old : OldDrbAssociation) :
    Except UpFault UpConfigUpdate :=
  items.toList.foldlM (setupSession ctx cfg old) (.new ctx.pduSessions.isEmpty)

/-- a flow the context knows is modified, another one gets a DRB -/
def addOrModifyFlow (cfg : UpCfg) (st : UpConfigUpdate × UpPduSessionContextUpdate)
    (flow : ℕ × QosParams) : Except UpFault (ℕ × UpPduSessionContextUpdate) :=
  if flow.1 ∈ ctx.qosFlowMap then modifyQosFlow st.2 flow.1 flow.2 ctx cfg
  else allocateQosFlow st.2 flow.1 flow.2 st.1 ctx cfg none

/-- one QoS flow to be added or modified; the plan records the sessions for which that fails -/
def modifyFlow (cfg : UpCfg) (psi : ℕ) (st : UpConfigUpdate × UpPduSessionContextUpdate)
    (flow : ℕ × QosParams) : Except UpFault (UpConfigUpdate × UpPduSessionContextUpdate) := do
  let r ← addOrModifyFlow ctx cfg st flow
  if r.1 = drbIdInvalid then
    .ok ({ st.1 with pduSessionsFailedToModifyList := st.1.pduSessionsFailedToModifyList ++ [psi] }, r.2)
  else if r.1 ∈ ctx.drbMap ∨ (if flow.1 ∈ ctx.qosFlowMap then r.1 ∈ r.2.drbToModify else r.1 ∈ r.2.drbToAdd) then
    .ok (st.1, r.2)
  else .error .assertion

/-- one QoS flow to be released from session `session`: its DRB goes with it when no other flow is on it -/
def releaseFlow (session : UpPduSessionContext) (new : UpPduSessionContextUpdate) (qfi : ℕ) :
    Except UpFault UpPduSessionContextUpdate :=
  match ctx.qosFlowMap[qfi]? with
  | none => .error .outOfRange
  | some drbId =>
    match session.drbs[drbId]? with
    | none => .error .outOfRange
    | some drb =>
      if qfi ∉ drb.qosFlows then .error .assertion
      else if drb.qosFlows.size = 1 then .ok { new with drbToRemove := new.drbToRemove ++ [drbId] }
      else .ok new

/-- one session of a modify request -/
def modifySession (cfg : UpCfg) (update : UpConfigUpdate) (item : ℕ × ModifyItem) :
    Except UpFault UpConfigUpdate :=
  match ctx.pduSessions[item.1]? with
  | none => .error .assertion
  | some session => do
    let start : UpPduSessionContextUpdate :=
      { UpPduSessionContextUpdate.new item.1 with
        integrityProtectionResult := session.integrityProtectionResult
        confidentialityProtectionResult := session.confidentialityProtectionResult }
    let st ← item.2.qosFlowAddOrModifyRequestList.toList.foldlM (modifyFlow ctx cfg item.1) (update, start)
    let new ← item.2.qosFlowToReleaseList.keys.foldlM (releaseFlow ctx session) st.2
    .ok { st.1 with pduSessionsToModifyList := st.1.pduSessionsToModifyList.insertIfNew new.id new }

def calculateModify (items : ModifyItems) (ctx : UpContext) (cfg : UpCfg) : Except UpFault UpConfigUpdate :=
  items.toList.foldlM (modifySession ctx cfg) (.new false)

def releaseSession (psi : ℕ) : Except UpFault UpConfigUpdate :=
  match ctx.pduSessions[psi]? with
  | none => .error .outOfRange
  | some session =>
    .ok { update with
      drbToRemoveList := update.drbToRemoveList ++ session.drbs.keys
      pduSessionsToRemoveList := update.pduSessionsToRemoveList ++ [psi] }

def calculateRelease (items : ReleaseItems) (ctx : UpContext) : Except UpFault UpConfigUpdate :=
  items.keys.foldlM (releaseSession ctx) (.new true)

/-! ## `apply_config_update` -/

/-- `apply_update_for_new_drbs`: session and context after the DRBs of a list -/
def applyNewDrbs (session : UpPduSessionContext) (ctx : UpContext) :
    List (ℕ × UpDrbContext) → Except UpFault (UpPduSessionContext × UpContext)
  | [] => .ok (session, ctx)
  | e :: rest => do
    let _ ← getUsedDrbIndex e.1
    applyNewDrbs { session with drbs := session.drbs.insertIfNew e.1 e.2 }
      { ctx with
        drbMap := ctx.drbMap.insertIfNew e.1 session.id
        usedDrbIds := insert e.1 ctx.usedDrbIds
        qosFlowMap := e.2.qosFlows.keys.foldl (fun m qfi => m.insertIfNew qfi e.1) ctx.qosFlowMap } rest

/-- `apply_update_for_removed_drbs` -/
def applyRemovedDrbs (session : UpPduSessionContext) (ctx : UpContext) :
    List ℕ → Except UpFault (UpPduSessionContext × UpContext)
  | [] => .ok (session, ctx)
  | drbId :: rest =>
    match session.drbs[drbId]? with
    | none => .error .outOfRange
    | some drb =>
      applyRemovedDrbs { session with drbs := session.drbs.erase drbId }
        { ctx with
          qosFlowMap := drb.qosFlows.keys.foldl (fun m qfi => m.erase qfi) ctx.qosFlowMap
          drbMap := ctx.drbMap.erase drbId } rest

/-- an added session -/
def applyAdded (session : UpPduSessionContextUpdate) : Except UpFault UpContext := do
  let r ← applyNewDrbs ⟨session.id, ∅, session.integrityProtectionResult, session.confidentialityProtectionResult⟩ ctx
    session.drbToAdd.toList
  .ok { r.2 with pduSessions := r.2.pduSessions.insertIfNew r.1.id r.1 }

/-- a modified session: its DRBs to be modified are not looked at -/
def applyModified (mod : UpPduSessionContextUpdate) : Except UpFault UpContext :=
  match ctx.pduSessions[mod.id]? with
  | none => .error .assertion
  | some session => do
    let r ← applyNewDrbs session ctx mod.drbToAdd.toList
    let r' ← applyRemovedDrbs r.1 r.2 mod.drbToRemove
    .ok { r'.2 with pduSessions := r'.2.pduSessions.insert mod.id r'.1 }

/-- a removed session -/
def applyRemoved (psi : ℕ) : Except UpFault UpContext :=
  match ctx.pduSessions[psi]? with
  | none => .error .assertion
  | some session =>
    .ok { ctx with
      qosFlowMap := session.drbs.toList.foldl (fun m e => e.2.qosFlows.keys.foldl (fun m qfi => m.erase qfi) m)
        ctx.qosFlowMap
      drbMap := session.drbs.keys.foldl (fun m drbId => m.erase drbId) ctx.drbMap
      pduSessions := ctx.pduSessions.erase psi }

/-- `apply_config_update` of a plan carried out in full -/
def applyConfigUpdate : Except UpFault UpContext := do
  let ctx ← (update.pduSessionsToSetupList.toList.map Prod.snd).foldlM applyAdded ctx
  let ctx ← (update.pduSessionsToModifyList.toList.map Prod.snd).foldlM applyModified ctx
  update.pduSessionsToRemoveList.foldlM applyRemoved ctx

/-! ## Key changes and counters -/

/-- `refresh_drb_id_after_key_change` -/
def refreshDrbIdAfterKeyChange : Except UpFault UpContext := do
  let used ← ctx.drbMap.keys.foldlM (fun (used : Finset ℕ) drbId => do
    let _ ← getUsedDrbIndex drbId
    .ok (insert drbId used)) ∅
  .ok { ctx with usedDrbIds := used }

def getNofDrbs : ℕ := ctx.drbMap.size

def getNofUsedDrbIds : ℕ := ctx.usedDrbIds.card

/-- `get_nof_stale_drb_ids`; `size_t` arithmetic -/
def getNofStaleDrbIds : ℕ := (2 ^ 64 + getNofUsedDrbIds ctx - getNofDrbs ctx) % 2 ^ 64

def getNofAvailableDrbIds : ℕ := (2 ^ 64 + maxNofDrbs - getNofUsedDrbIds ctx) % 2 ^ 64

/-- the number of DRBs `key_refresh_useful` provides for -/
def nofDrbsNeeded (cfg : UpCfg) : ℕ :=
  min ((2 ^ 64 + cfg.maxNofDrbsPerUe - getNofDrbs ctx) % 2 ^ 64) 8

def keyRefreshUseful (cfg : UpCfg) : Bool :=
  getNofAvailableDrbIds ctx < nofDrbsNeeded ctx cfg &&
    nofDrbsNeeded ctx cfg ≤ getNofStaleDrbIds ctx + getNofAvailableDrbIds ctx

/-! ## Requests on the manager -/

inductive UpOp where
  | setup (items : SetupItems) (old : OldDrbAssociation)
  | modify (items : ModifyItems)
  | release (items : ReleaseItems)
  | keyChange

/-- the plan for a request that passes `validate_request`; nothing is planned for one that does not -/
def plan (cfg : UpCfg) (ctx : UpContext) : UpOp → Except UpFault UpConfigUpdate
  | .setup items old => if isValidSetup ctx cfg items then calculateSetup items ctx cfg old else .ok (.new false)
  | .modify items => if isValidModify ctx cfg items then calculateModify items ctx cfg else .ok (.new false)
  | .release items => if isValidRelease ctx items then calculateRelease items ctx else .ok (.new false)
  | .keyChange => .ok (.new false)

/-- a request is planned and applied in full -/
def perform (cfg : UpCfg) (ctx : UpContext) (o : UpOp) : Except UpFault UpContext :=
  match o with
  | .keyChange => refreshDrbIdAfterKeyChange ctx
  | o => plan cfg ctx o >>= applyConfigUpdate ctx

/-- the context after a call; a call that ends the program leaves it as it was -/
def step (cfg : UpCfg) (ctx : UpContext) (o : UpOp) : UpContext :=
  match perform cfg ctx o with
  | .ok ctx' => ctx'
  | .error _ => ctx

end OcuduRan.CuCp.Up
