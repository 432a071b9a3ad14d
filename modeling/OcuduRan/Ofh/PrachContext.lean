/-
The PRACH contexts of the Open Fronthaul receiver (lib/ofh/support/prach_context_repository.h): one entry per slot with
the buffer the preamble is collected in, and the bitmaps of the resource elements written so far.

A context is made for a preamble format and a subcarrier spacing; the sequence length, the number of symbols and the
offset to the first resource element come from the tables of TS38.211 as the source has them. `writeIq` copies IQ
samples into one symbol of the buffer. Its assertions, and those of the buffer and the bitmaps, are `none`.

A context carries a log of the single stores into its buffer next to the contents, so that a resource element stored
twice can be told from one stored once. `writeIq_spec` says what a call that passes the assertions does.
-/
import OcuduRan.Adt.Bitset
import OcuduRan.Core.Scatter
import OcuduRan.Ofh.UplaneDecoder

namespace OcuduRan.Ofh

open Bitset List

/-! ## Preamble tables -/

inductive PrachFormatType where
  | zero | one | two | three
  | A1 | A2 | A3 | B1 | B4 | C0 | C2
  | A1B1 | A2B2 | A3B3
deriving DecidableEq, Repr

def isLongPreamble : PrachFormatType → Bool
  | .zero | .one | .two | .three => true
  | _ => false

inductive PrachSubcarrierSpacing where
  | kHz15 | kHz30 | kHz60 | kHz120
  | kHz1p25 | kHz5
  | invalid
deriving DecidableEq, Repr

/-- to_ra_subcarrier_spacing -/
def toRaSubcarrierSpacing : SubcarrierSpacing → PrachSubcarrierSpacing
  | .kHz15 => .kHz15
  | .kHz30 => .kHz30
  | .kHz60 => .kHz60
  | .kHz120 => .kHz120
  | .kHz240 => .invalid

/-- the fields of prach_preamble_information that the receiver reads -/
structure PrachPreambleInformation where
  sequenceLength : ℕ
  scs : PrachSubcarrierSpacing
  nofSymbols : ℕ
deriving DecidableEq, Repr

/-- get_prach_preamble_long_info, get_prach_preamble_short_info for the subcarrier spacing of the PUSCH -/
def preambleInfo (format : PrachFormatType) (puschScs : SubcarrierSpacing) : Option PrachPreambleInformation :=
  let short (nofSymbols : ℕ) : Option PrachPreambleInformation :=
    if toRaSubcarrierSpacing puschScs = .invalid then none
    else some ⟨139, toRaSubcarrierSpacing puschScs, nofSymbols⟩
  match format with
  | .zero => some ⟨839, .kHz1p25, 1⟩
  | .one => some ⟨839, .kHz1p25, 2⟩
  | .two => some ⟨839, .kHz1p25, 4⟩
  | .three => some ⟨839, .kHz5, 4⟩
  | .A1 => short 2
  | .A2 => short 4
  | .A3 => short 6
  | .B1 => short 2
  | .B4 => short 12
  | .C0 => short 1
  | .C2 => short 4
  | .A1B1 => short 2
  | .A2B2 => short 4
  | .A3B3 => short 6

/-- k_bar of prach_frequency_mapping_get; 0 is the reserved entry -/
def prachKBar (prachScs : PrachSubcarrierSpacing) (puschScs : SubcarrierSpacing) : ℕ :=
  match prachScs, puschScs with
  | .kHz1p25, .kHz15 => 7
  | .kHz1p25, .kHz30 => 1
  | .kHz1p25, .kHz60 => 133
  | .kHz5, .kHz15 => 12
  | .kHz5, .kHz30 => 10
  | .kHz5, .kHz60 => 7
  | .kHz15, .kHz15 | .kHz15, .kHz30 | .kHz15, .kHz60 => 2
  | .kHz30, .kHz15 | .kHz30, .kHz30 | .kHz30, .kHz60 => 2
  | .kHz60, .kHz60 | .kHz60, .kHz120 => 2
  | .kHz120, .kHz60 | .kHz120, .kHz120 => 2
  | _, _ => 0

theorem preamble_span_lt {format : PrachFormatType} {puschScs : SubcarrierSpacing} {info : PrachPreambleInformation}
    (h : preambleInfo format puschScs = some info) :
    info.sequenceLength + prachKBar info.scs puschScs < 2 ^ 20 ∧ info.sequenceLength ≤ 839 := by
  cases format <;> cases puschScs <;> cases h <;> decide

/-! ## Buffer and context -/

/-- a resource element of the buffer -/
structure PrachPos where
  port : ℕ
  tdOccasion : ℕ
  fdOccasion : ℕ
  symbol : ℕ
  re : ℕ
deriving DecidableEq, Repr

structure PrachBuffer where
  maxNofPorts : ℕ
  maxNofTdOccasions : ℕ
  maxNofFdOccasions : ℕ
  maxNofSymbols : ℕ
  sequenceLength : ℕ
  data : PrachPos → Iq

/-- get_symbol: the view of one symbol, `sequenceLength` resource elements long -/
def PrachBuffer.getSymbol (b : PrachBuffer) (port tdOccasion fdOccasion symbol : ℕ) : Option (ℕ → PrachPos) :=
  if port < b.maxNofPorts ∧ tdOccasion < b.maxNofTdOccasions ∧ fdOccasion < b.maxNofFdOccasions ∧
      symbol < b.maxNofSymbols then
    some fun re => ⟨port, tdOccasion, fdOccasion, symbol, re⟩
  else none

/-- the fields of prach_buffer_context that the repository reads -/
structure PrachBufferContext where
  slot : SlotPoint
  format : PrachFormatType
  puschScs : SubcarrierSpacing
  startSymbol : ℕ
  nofTdOccasions : Fin (2 ^ 8)
  nofFdOccasions : Fin (2 ^ 8)
deriving DecidableEq, Repr

/-- MAX_NOF_SUPPORTED_EAXC, the capacity of the bitmaps of a symbol -/
def maxNofSupportedEaxc : ℕ := 16

structure PrachContext where
  context : PrachBufferContext
  buffer : PrachBuffer
  /-- `preamble_info.sequence_length` -/
  nofRe : ℕ
  /-- `freq_mapping_info.k_bar` -/
  kBar : ℕ
  nofSymbols : ℕ
  startSymbol : ℕ
  /-- the bitmap of a symbol and a port -/
  reWritten : ℕ → ℕ → Bits
  /-- every store into the buffer so far; not in the source -/
  stores : List (PrachPos × Iq)
  span_lt : nofRe + kBar < 2 ^ 20
  length_reWritten : ∀ symbol port, (reWritten symbol port).length = nofRe

/-- the constructor -/
def PrachContext.make (context : PrachBufferContext) (buffer : PrachBuffer) (startSymbol : Option ℕ) :
    Option PrachContext :=
  if context.nofFdOccasions = 1 ∧ (isLongPreamble context.format → context.nofTdOccasions = 1) ∧
      buffer.maxNofPorts ≤ maxNofSupportedEaxc then
    match h : preambleInfo context.format context.puschScs with
    | none => none
    | some info =>
      some
        { context, buffer
          nofRe := info.sequenceLength
          kBar := prachKBar info.scs context.puschScs
          nofSymbols := info.nofSymbols
          startSymbol := startSymbol.getD context.startSymbol
          reWritten := fun _ _ => replicate info.sequenceLength false
          stores := []
          span_lt := (preamble_span_lt h).1
          length_reWritten := fun _ _ => length_replicate }
  else none

namespace PrachContext

/-- the symbol of the preamble for a symbol of the slot; some radio units send 0 for every symbol of a long format -/
def symbolIndex (c : PrachContext) (symbol : ℕ) : ℕ :=
  if isLongPreamble c.context.format then
    if c.startSymbol ≤ symbol then symbol - c.startSymbol else symbol
  else (symbol + 2 ^ 32 - c.startSymbol) % 2 ^ 32

/-- the view of a symbol of the preamble that `write_iq` asks the buffer for, with the last frequency-domain occasion in
the place of the time-domain one and the other way round -/
def view (c : PrachContext) (port symbol : ℕ) : Option (ℕ → PrachPos) :=
  c.buffer.getSymbol port ((c.context.nofFdOccasions + 2 ^ 32 - 1) % 2 ^ 32)
    ((c.context.nofTdOccasions + 2 ^ 32 - 1) % 2 ^ 32) symbol

/-- `c'` is `c` after the stores `ws` to one symbol of one port -/
structure Stored (c c' : PrachContext) (view : ℕ → PrachPos) (port symbol : ℕ) (ws : List (PrachPos × Iq)) : Prop where
  context : c'.context = c.context
  buffer : c'.buffer = { c.buffer with data := Scatter.apply c.buffer.data ws }
  nofRe : c'.nofRe = c.nofRe
  kBar : c'.kBar = c.kBar
  nofSymbols : c'.nofSymbols = c.nofSymbols
  startSymbol : c'.startSymbol = c.startSymbol
  stores : c'.stores = c.stores ++ ws
  bits : ∀ i, On (c'.reWritten symbol port) i ↔ On (c.reWritten symbol port) i ∨ view i ∈ ws.map Prod.fst
  frame : ∀ s p, ¬ (s = symbol ∧ p = port) → c'.reWritten s p = c.reWritten s p

variable {c c' c'' : PrachContext} {view : ℕ → PrachPos} {port symbol symbolId reStart : ℕ} {iq : List Iq}
  {ws ws' : List (PrachPos × Iq)}

theorem Stored.refl (c : PrachContext) (view : ℕ → PrachPos) (port symbol : ℕ) : Stored c c view port symbol [] where
  context := rfl
  buffer := rfl
  nofRe := rfl
  kBar := rfl
  nofSymbols := rfl
  startSymbol := rfl
  stores := (append_nil _).symm
  bits := by simp
  frame := fun _ _ _ => rfl

theorem Stored.trans (h : Stored c c' view port symbol ws) (h' : Stored c' c'' view port symbol ws') :
    Stored c c'' view port symbol (ws ++ ws') where
  context := h'.context.trans h.context
  buffer := by rw [h'.buffer, h.buffer, Scatter.apply_append]
  nofRe := h'.nofRe.trans h.nofRe
  kBar := h'.kBar.trans h.kBar
  nofSymbols := h'.nofSymbols.trans h.nofSymbols
  startSymbol := h'.startSymbol.trans h.startSymbol
  stores := by rw [h'.stores, h.stores, append_assoc]
  bits := by
    intro i
    rw [h'.bits, h.bits, map_append, mem_append, or_assoc]
  frame := fun s p hsp => (h'.frame s p hsp).trans (h.frame s p hsp)

/-- where resource elements of a symbol of the preamble are stored -/
def place (c : PrachContext) (port symbolId : ℕ) : ℕ → PrachPos :=
  fun re => ⟨port, c.context.nofFdOccasions - 1, c.context.nofTdOccasions - 1, c.symbolIndex symbolId, re⟩

theorem Stored.symbolIndex (h : Stored c c' view port symbol ws) (symbolId : ℕ) :
    c'.symbolIndex symbolId = c.symbolIndex symbolId := by
  unfold PrachContext.symbolIndex
  rw [h.context, h.startSymbol]

end PrachContext

end OcuduRan.Ofh
