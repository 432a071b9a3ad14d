/-
What the Open Fronthaul User-Plane decoder of the uplink (`uplane_message_decoder_impl`) hands to the receive path, and
the generic BFP decompression of one PRB, over the bytes of one message.

A call returns a value, gives the message up (`Refused`), or ends the program: a failed assertion, and a byte read
outside of the view handed to a decompressor, are both `Fault.assertion`.

IQ samples are the integers the decompressor unpacks, with the gain they are divided by; the rounding of that quotient
to a brain float is left out, as nothing on the receive path looks at the value.
-/
import OcuduRan.Core.Coded

namespace OcuduRan.Ofh

/-! ## Constants and field types -/

/-- MAX_NOF_PRBS -/
def maxNofPrbs : ℕ := 275

/-- NOF_SUBCARRIERS_PER_RB -/
def nofSubcarriersPerRb : ℕ := 12

/-- MAX_NSYMB_PER_SLOT -/
def maxNsymbPerSlot : ℕ := 14

/-- NOF_SUBFRAMES_PER_FRAME -/
def nofSubframesPerFrame : ℕ := 10

/-- MAX_IQ_WIDTH, also Q_BIT_WIDTH -/
def maxIqWidth : ℕ := 16

inductive SubcarrierSpacing where
  | kHz15
  | kHz30
  | kHz60
  | kHz120
  | kHz240
deriving DecidableEq, Repr

def toNumerologyValue : SubcarrierSpacing → ℕ
  | .kHz15 => 0
  | .kHz30 => 1
  | .kHz60 => 2
  | .kHz120 => 3
  | .kHz240 => 4

/-- get_nof_slots_per_subframe -/
def nofSlotsPerSubframe (scs : SubcarrierSpacing) : ℕ := 2 ^ toNumerologyValue scs

/-- slot_point: system frame number and slot in the frame; the numerology is the cell's -/
structure SlotPoint where
  sfn : ℕ
  slotIndex : ℕ
deriving DecidableEq, Repr

inductive CompressionType where
  | none
  | BFP
  | blockScaling
  | muLaw
  | modulation
  | bfpSelective
  | modSelective
  | reserved
deriving DecidableEq, Repr

structure RuCompressionParams where
  type : CompressionType
  dataWidth : ℕ
deriving DecidableEq, Repr

/-- one IQ sample: (re / gain, im / gain) -/
structure Iq where
  re : ℤ
  im : ℤ
  gain : ℕ
deriving DecidableEq, Repr

/-- uplane_section_params -/
structure UplaneSectionParams where
  sectionId : ℕ
  isEveryRbUsed : Bool
  useCurrentSymbolNumber : Bool
  startPrb : ℕ
  nofPrbs : ℕ
  udCompHdr : RuCompressionParams
  udCompLen : Option ℕ
  iqSamples : List Iq
deriving DecidableEq, Repr

/-- why a message, or a section of it, was given up -/
inductive Refused where
  | dropped
  | incomplete
  | malformed
deriving DecidableEq, Repr

/-! ## Decompression -/

section Decompress

variable {σ : Type}

/-- buffer[i] -/
def byteAt (buffer : List UInt8) (i : ℕ) : Coded Refused σ ℕ := fun s =>
  match buffer[i]? with
  | some b => (.ok b.toNat, s)
  | none => (.error .assertion, s)

/-- bit_buffer_reader::extract: `count` bits from bit `startpos` -/
def extract (buffer : List UInt8) (startpos count : ℕ) : Coded Refused σ ℕ := do
  Coded.assert (count ≤ 8)
  Coded.assert (startpos + count ≤ buffer.length * 8)
  let word ← byteAt buffer (startpos / 8)
  if startpos % 8 = 0 then pure (word / 2 ^ (8 - count))
  else if startpos % 8 + count ≤ 8 then pure (word / 2 ^ (8 - startpos % 8 - count) % 2 ^ count)
  else do
    let next ← byteAt buffer (startpos / 8 + 1)
    pure ((word * 256 + next) / 2 ^ (16 - startpos % 8 - count) % 2 ^ count)

/-- the loop of unpack_bits; an int16_t holds the value, and every full octet replaces it -/
def unpackBitsFrom (buffer : List UInt8) : ℕ → ℕ → ℕ → ℕ → Coded Refused σ ℕ
  | 0, _, _, value => pure value
  | fuel + 1, offset, left, value =>
    if left = 0 then pure value
    else if 8 < left then do
      let x ← extract buffer offset 8
      unpackBitsFrom buffer fuel (offset + 8) (left - 8) (x * 2 ^ (left - 8) % 2 ^ 16)
    else do
      let x ← extract buffer offset left
      pure (value ||| x)

def unpackBits (buffer : List UInt8) (offset length : ℕ) : Coded Refused σ ℕ :=
  unpackBitsFrom buffer length offset length 0

/-- quantizer::sign_extend -/
def signExtend (width value : ℕ) : ℤ := ((value % 2 ^ width) ^^^ 2 ^ (width - 1) : ℕ) - (2 ^ (width - 1) : ℕ)

/-- the samples of one PRB, `n` of them left, from bit `readPos` -/
def unpackSamples (buffer : List UInt8) (width : ℕ) (scaler : ℤ) (gain : ℕ) : ℕ → ℕ → Coded Refused σ (List Iq)
  | 0, _ => pure []
  | n + 1, readPos => do
    let re ← unpackBits buffer readPos width
    let im ← unpackBits buffer (readPos + width) width
    let rest ← unpackSamples buffer width scaler gain n (readPos + width * 2)
    pure (⟨signExtend width re * scaler, signExtend width im * scaler, gain⟩ :: rest)

/-- iq_compression_bfp_impl::decompress_prb_generic: the exponent octet, then the mantissas -/
def decompressPrbGeneric (width : ℕ) (prb : List UInt8) : Coded Refused σ (List Iq) := do
  let exponent ← byteAt prb 0
  unpackSamples (prb.drop 1) width (2 ^ (exponent % 16)) (2 ^ (maxIqWidth - 1) - 1) nofSubcarriersPerRb 0

end Decompress

end OcuduRan.Ofh
