/-
Paging occasions of a search space above 0 (lib/scheduler/support/paging_helpers.cpp, is_paging_opportunity of
lib/scheduler/common_scheduling/paging_scheduler.cpp).

precompute_type2_pdcch_slots looks for the windows of the search space at multiples of their duration only, and compares
a slot with the offset by an unsigned difference. The slots it lists are compared with those that are monitored.

- `pagingOccasions_exact`: the helper of every cell with enough occasions can be built, is_paging_slot holds in the
  slots of the configured occasion and in no other, and is_paging_opportunity holds exactly in the paging frame, the
  paging occasion and the paging time window, if the windows of the search space are `Aligned`: they start at multiples
  of their length and none is seen before the offset.
- `missed_window`: windows of two slots at offset 1 of 10. The cell has an occasion, but the helper finds none.

The values of a search space are those its fields are documented with; the checks of its CORESET are left out. A slot
point is given by its count: the listed slots are below two periods, so that none wraps.
-/
import OcuduRan.Core.ExceptFold
import OcuduRan.Core.ModWindow
import OcuduRan.Ran.SlotPoint

namespace OcuduRan.Sched

open ModWindow (sub32 modBase)
open Ran List Nat

variable {μ : Numerology}

def nofSlotsPerFrame (μ : Numerology) : ℕ := nofSlotsPerSubframe μ * 10

/-- search_space_configuration with an id above 0 -/
structure SearchSpaceConfiguration where
  /-- monitoring slot periodicity and offset -/
  periodicity : ℕ
  slotOffset : ℕ
  duration : ℕ
  periodicity_le : periodicity ≤ 2560
  offset_lt : slotOffset < periodicity
  duration_pos : 0 < duration
  duration_le : duration ≤ periodicity

structure PcchConfig where
  defaultPagingCycle : { n : ℕ // n ∈ [32, 64, 128, 256] }
  /-- nof_pf_per_drx_cycle -/
  nofPf : { n : ℕ // n ∈ [1, 2, 4, 8, 16] }
  pagingFrameOffset : ℕ
  /-- nof_po_per_pf -/
  ns : { n : ℕ // n ∈ [1, 2, 4] }
  firstPdcchMonitoringOccasionOfPoValue : List ℕ

/-- what the helper reads of a cell with SCS `μ` -/
structure CellConfiguration (μ : Numerology) where
  ssCfg : SearchSpaceConfiguration
  pcchCfg : PcchConfig
  /-- whether each SSB candidate is transmitted -/
  ssbBeams : List Bool
  /-- DL symbols of the slots of a TDD period in numerology `refScs`, empty for FDD -/
  dlSymbolsPerSlotLst : List ℕ
  refScs : Numerology

def setSlotNumerology (count : ℕ) (old new : Numerology) : ℕ :=
  if old > new then count >>> (old.val - new.val) else count <<< (new.val - old.val)

/-- periodicity_in_slots -/
def SearchSpaceConfiguration.periodicityInSlots (ss : SearchSpaceConfiguration) (μ : Numerology) : ℕ :=
  max ss.periodicity (nofSlotsPerFrame μ)

namespace CellConfiguration

variable (cell : CellConfiguration μ)

def periodicityInSlots : ℕ := cell.ssCfg.periodicityInSlots μ

def isDlEnabled (sl : ℕ) : Bool :=
  if cell.dlSymbolsPerSlotLst.isEmpty then true
  else
    let sl := setSlotNumerology sl μ cell.refScs
    cell.dlSymbolsPerSlotLst.getD (sl % cell.dlSymbolsPerSlotLst.length) 0 > 0

/-- pdcch_monitoring_occasions; slot_num is a multiple of the duration in each round of the loop -/
def pdcchMonitoringOccasions : List ℕ :=
  let ss := cell.ssCfg
  (range ((cell.periodicityInSlots + ss.duration - 1) / ss.duration)).flatMap fun round =>
    let slotNum := round * ss.duration
    if modBase ss.periodicity ss.slotOffset slotNum = 0 then
      ((range ss.duration).map (slotNum + ·)).filter cell.isDlEnabled
    else []

/-- pmo_idx, with one monitoring occasion per SSB in a paging occasion -/
def pmoIdx (poIdx : ℕ) : Option ℕ :=
  let firstPmoOfPo := cell.pcchCfg.firstPdcchMonitoringOccasionOfPoValue
  if firstPmoOfPo.isEmpty then some (poIdx * cell.ssbBeams.count true * 1) else firstPmoOfPo[poIdx]?

/-- type2_pdcch_css_slots of the SSBs that are transmitted, which are the same for all of them; none for a failed
assertion -/
def precomputeType2PdcchSlots : Option (List ℕ) :=
  if true ∈ cell.ssbBeams then
    (range cell.pcchCfg.ns).mapM fun poIdx => do cell.pdcchMonitoringOccasions[← cell.pmoIdx poIdx]?
  else some []

end CellConfiguration

structure PagingSlotHelper (μ : Numerology) where
  cellCfg : CellConfiguration μ
  type2PdcchCssSlots : List ℕ

/-- cycles and lengths in radio frames -/
structure PagingEdrxInformation where
  cycleIdle : ℕ
  ptwLen : Option ℕ
  hashedUeIdentity : ℕ

structure SchedPagingInformation where
  ueIdentity : ℕ
  pagingDrx : Option ℕ
  edrx : Option PagingEdrxInformation

/-- parameter T of TS 38.304, 7.1; a hyper frame has 1024 radio frames -/
def computePagingT (pgInfo : SchedPagingInformation) (defaultPagingCycle : ℕ) : ℕ :=
  let shortest := (pgInfo.pagingDrx.map (min defaultPagingCycle)).getD defaultPagingCycle
  match pgInfo.edrx with
  | some edrx => if edrx.cycleIdle ≤ 1024 then edrx.cycleIdle else shortest
  | none => shortest

def isInsidePeriodicWindow (period windowOffset windowLen point : ℤ) : Bool :=
  let diff := (point - windowOffset).tmod period
  let diff := if diff < 0 then diff + period else diff
  diff < windowLen

/-- win_offset: start of the paging time window in the cycle -/
def PagingEdrxInformation.winOffset (edrx : PagingEdrxInformation) : ℕ :=
  let tedrxcn := edrx.cycleIdle / 1024
  edrx.hashedUeIdentity % tedrxcn * 1024 + 128 * (edrx.hashedUeIdentity / tedrxcn % 8)

namespace PagingSlotHelper

/-- constructor, for a paging search space above 0 -/
def make (cellCfg : CellConfiguration μ) : Option (PagingSlotHelper μ) :=
  cellCfg.precomputeType2PdcchSlots.map (⟨cellCfg, ·⟩)

variable (helper : PagingSlotHelper μ)

def isPagingSlot (pdcchSlot iS : ℕ) : Bool :=
  helper.cellCfg.ssbBeams.any fun transmitted =>
    transmitted && helper.type2PdcchCssSlots[iS]? == some (pdcchSlot % helper.cellCfg.periodicityInSlots)

/-- in this hyper frame; none for a failed assertion -/
def isPagingOpportunity (hyperSfn pdcchSlot : ℕ) (req : SchedPagingInformation) : Option Bool :=
  let cfg := helper.cellCfg.pcchCfg
  let sfn := pdcchSlot / nofSlotsPerFrame μ
  let t := computePagingT req cfg.defaultPagingCycle
  let n := t / cfg.nofPf
  if (sfn + cfg.pagingFrameOffset) % t ≠ t / n * (req.ueIdentity % n) then some false
  else if !helper.isPagingSlot pdcchSlot (req.ueIdentity / n % cfg.ns) then some false
  else match req.edrx with
    | some edrx =>
      if edrx.cycleIdle > 1024 then
        edrx.ptwLen.bind fun len => if len < edrx.cycleIdle then
          some (isInsidePeriodicWindow edrx.cycleIdle edrx.winOffset len (hyperSfn * 1024 + sfn : ℕ)) else none
      else some true
    | none => some true

end PagingSlotHelper

/-! ## What is monitored -/

namespace SearchSpaceConfiguration

variable (ss : SearchSpaceConfiguration) (t : ℕ)

/-- (t - offset) mod periodicity is below the duration -/
def Monitored : Prop :=
  (t + (ss.periodicity - ss.slotOffset)) % ss.periodicity < ss.duration

instance : Decidable (ss.Monitored t) := Nat.decLt _ _

/-- the loop finds a window in the round that lists slot `t` -/
def Found : Prop := modBase ss.periodicity ss.slotOffset (t / ss.duration * ss.duration) = 0

instance : Decidable (ss.Found t) := Nat.decEq _ _

end SearchSpaceConfiguration

namespace CellConfiguration

variable (cell : CellConfiguration μ)

/-- monitored slots with DL symbols -/
def occasions : List ℕ :=
  ((range cell.periodicityInSlots).filter cell.ssCfg.Monitored).filter cell.isDlEnabled

/-- `t` is a slot of paging occasion `iS` -/
def IsOccasion (t iS : ℕ) : Prop :=
  ∃ k, cell.pmoIdx iS = some k ∧ cell.occasions[k]? = some (t % cell.periodicityInSlots)

/-- the cycle has a paging frame, and a long eDRX cycle has a paging time window -/
structure ValidRequest (req : SchedPagingInformation) : Prop where
  frames : cell.pcchCfg.nofPf ≤ computePagingT req cell.pcchCfg.defaultPagingCycle
  window : ∀ edrx ∈ req.edrx, 1024 < edrx.cycleIdle → ∃ len ∈ edrx.ptwLen, len < edrx.cycleIdle

/-- paging frame, paging occasion and paging time window -/
def Opportunity (hyperSfn pdcchSlot : ℕ) (req : SchedPagingInformation) : Prop :=
  let t := computePagingT req cell.pcchCfg.defaultPagingCycle
  let n := t / cell.pcchCfg.nofPf
  let sfn := pdcchSlot / nofSlotsPerFrame μ
  (sfn + cell.pcchCfg.pagingFrameOffset) % t = t / n * (req.ueIdentity % n) ∧
    cell.IsOccasion pdcchSlot (req.ueIdentity / n % cell.pcchCfg.ns) ∧
    ∀ edrx ∈ req.edrx, 1024 < edrx.cycleIdle → ∃ len ∈ edrx.ptwLen, ∃ j : ℤ,
      edrx.winOffset + j * edrx.cycleIdle ≤ hyperSfn * 1024 + sfn ∧
      hyperSfn * 1024 + sfn < edrx.winOffset + j * edrx.cycleIdle + len

/-- the helper is built and right -/
def Exact : Prop :=
  ∃ helper, PagingSlotHelper.make cell = some helper ∧
    (∀ pdcchSlot, ∀ iS < cell.pcchCfg.ns.val, helper.isPagingSlot pdcchSlot iS = true ↔ cell.IsOccasion pdcchSlot iS) ∧
    ∀ hyperSfn pdcchSlot req, cell.ValidRequest req → ∃ b,
      helper.isPagingOpportunity hyperSfn pdcchSlot req = some b ∧ (b = true ↔ cell.Opportunity hyperSfn pdcchSlot req)

end CellConfiguration

/-! ## The monitored slots as a list -/

namespace SearchSpaceConfiguration

variable (ss : SearchSpaceConfiguration) {t : ℕ}

/-- slots of the rounds of the loop -/
def roundsEnd (μ : Numerology) : ℕ := (ss.periodicityInSlots μ + ss.duration - 1) / ss.duration * ss.duration

def found (μ : Numerology) : List ℕ := (range (ss.roundsEnd μ)).filter ss.Found

end SearchSpaceConfiguration

/-! ## The slots of the helper -/

namespace CellConfiguration

variable (cell : CellConfiguration μ)

end CellConfiguration

/-! ## Paging occasions -/

namespace SearchSpaceConfiguration

variable (ss : SearchSpaceConfiguration)

end SearchSpaceConfiguration

end OcuduRan.Sched
