/-
The downlink half of the CU-UP F1-U bearer (lib/f1u/cu_up/f1u_bearer_impl.cpp): SDUs, and the PDCP SNs that PDCP
discards, which the bearer collects in blocks of consecutive SNs until an SDU, the notification timer or a full
container sends them.

- `discardBlocks_exact`: after any sequence of SDUs, discards and timer expiries, the blocks of the emitted messages, in
  order, followed by the pending ones, expand to exactly the discarded SNs; every emitted block has between 1 and 255
  SNs; no SN has been refused for want of a block; and the notification timer runs while blocks are pending.

The notification timer is a flag. Its expiry may come at any time, also when it is not running.
-/
import OcuduRan.Core.Machine

namespace OcuduRan.F1u

open Machine List

/-! ## Model -/

def nruMaxNofPdcpSnDiscardBlocks : ℕ := 16

def nruMaxDiscardBlockSize : BitVec 8 := 255

structure NruPdcpSnDiscardBlock where
  pdcpSnStart : BitVec 32
  blockSize : BitVec 8
deriving DecidableEq, Repr

/-- the members of nru_dl_message that the bearer fills -/
structure NruDlMessage where
  tPdu : Option (List UInt8) := none
  retransmissionFlag : Bool := false
  discardBlocks : Option (List NruPdcpSnDiscardBlock) := none
deriving DecidableEq, Repr

structure F1uBearer where
  stopped : Bool := false
  /-- the downlink notification timer is running -/
  dlNotifTimer : Bool := false
  discardBlocks : List NruPdcpSnDiscardBlock := []
  /-- the messages handed to the notifier, in order -/
  onNewPdu : List NruDlMessage := []
  /-- the SNs for which "Maximum number of discard blocks reached" was logged -/
  refused : List (BitVec 32) := []
deriving DecidableEq, Repr

namespace F1uBearer

/-- the message with the pending blocks attached, and the bearer without them -/
def fillDiscardBlocks (b : F1uBearer) (msg : NruDlMessage) : F1uBearer × NruDlMessage :=
  if b.discardBlocks.isEmpty then (b, msg)
  else ({ b with discardBlocks := [] }, { msg with discardBlocks := some b.discardBlocks })

def handleSdu (b : F1uBearer) (sdu : List UInt8) (isRetx : Bool) : F1uBearer :=
  if b.stopped then b
  else
    let (b, msg) := b.fillDiscardBlocks { tPdu := some sdu, retransmissionFlag := isRetx };
    { b with dlNotifTimer := false, onNewPdu := b.onNewPdu ++ [msg] }

def flushDiscardBlocks (b : F1uBearer) : F1uBearer :=
  let (b, msg) := b.fillDiscardBlocks {};
  let b := { b with dlNotifTimer := false };
  if msg.discardBlocks.isSome then { b with onNewPdu := b.onNewPdu ++ [msg] } else b

def onExpiredDlNotifTimer (b : F1uBearer) : F1uBearer := if b.stopped then b else b.flushDiscardBlocks

def discardSdu (b : F1uBearer) (pdcpSn : BitVec 32) : F1uBearer :=
  let b := { b with dlNotifTimer := true };
  match b.discardBlocks.getLast? with
  | none => { b with discardBlocks := [⟨pdcpSn, 1⟩] }
  | some last =>
    -- the sum is an uint32_t and wraps
    if last.pdcpSnStart + last.blockSize.setWidth 32 = pdcpSn ∧ last.blockSize < nruMaxDiscardBlockSize then
      { b with discardBlocks := b.discardBlocks.dropLast ++ [{ last with blockSize := last.blockSize + 1 }] }
    else if b.discardBlocks.length = nruMaxNofPdcpSnDiscardBlocks then { b with refused := b.refused ++ [pdcpSn] }
    else
      let b := { b with discardBlocks := b.discardBlocks ++ [⟨pdcpSn, 1⟩] };
      if b.discardBlocks.length = nruMaxNofPdcpSnDiscardBlocks then b.flushDiscardBlocks else b

end F1uBearer

inductive BearerOp
  | handleSdu (sdu : List UInt8) (isRetx : Bool)
  | discardSdu (pdcpSn : BitVec 32)
  | expiry
deriving DecidableEq, Repr

def F1uBearer.step (b : F1uBearer) : BearerOp → F1uBearer
  | .handleSdu sdu isRetx => b.handleSdu sdu isRetx
  | .discardSdu pdcpSn => b.discardSdu pdcpSn
  | .expiry => b.onExpiredDlNotifTimer

/-- the SNs that `ops` discards, in order -/
def discardedSns (ops : List BearerOp) : List (BitVec 32) :=
  ops.filterMap fun
    | .discardSdu pdcpSn => some pdcpSn
    | _ => none

/-! ## What blocks stand for -/

namespace NruPdcpSnDiscardBlock

/-- the SNs of a block -/
def expand (block : NruPdcpSnDiscardBlock) : List (BitVec 32) :=
  (range block.blockSize.toNat).map fun i => block.pdcpSnStart + BitVec.ofNat 32 i

/-- a size that the message format has -/
def Sized (block : NruPdcpSnDiscardBlock) : Prop := 1 ≤ block.blockSize ∧ block.blockSize ≤ nruMaxDiscardBlockSize

theorem sized_one (sn : BitVec 32) : Sized ⟨sn, 1⟩ := by simp [Sized, nruMaxDiscardBlockSize, BitVec.le_def]

@[simp] theorem expand_one (sn : BitVec 32) : expand ⟨sn, 1⟩ = [sn] := by simp [expand]

variable {block : NruPdcpSnDiscardBlock}

theorem toNat_grown (h : block.blockSize < nruMaxDiscardBlockSize) :
    (block.blockSize + 1).toNat = block.blockSize.toNat + 1 := by
  have hlt : block.blockSize.toNat < 255 := h
  rw [BitVec.toNat_add, Nat.mod_eq_of_lt] <;> simp
  omega

/-- a block with room that its next SN joins -/
theorem expand_grown (h : block.blockSize < nruMaxDiscardBlockSize) :
    expand { block with blockSize := block.blockSize + 1 } =
      block.expand ++ [block.pdcpSnStart + block.blockSize.setWidth 32] := by
  simp only [expand, toNat_grown h, range_succ, map_append, map_cons, map_nil]
  rw [BitVec.ofNat_toNat]

theorem sized_grown (h : block.blockSize < nruMaxDiscardBlockSize) :
    Sized { block with blockSize := block.blockSize + 1 } := by
  have hlt : block.blockSize.toNat < 255 := h
  simp only [Sized, BitVec.le_def, toNat_grown h]
  exact ⟨Nat.le_add_left _ _, hlt⟩

end NruPdcpSnDiscardBlock

open NruPdcpSnDiscardBlock

def NruDlMessage.blocks (msg : NruDlMessage) : List NruPdcpSnDiscardBlock := msg.discardBlocks.getD []

namespace F1uBearer

/-- every block of the bearer, the emitted ones first -/
def allBlocks (b : F1uBearer) : List NruPdcpSnDiscardBlock := b.onNewPdu.flatMap (·.blocks) ++ b.discardBlocks

/-- a bearer that is not stopped and whose blocks are the record of `sns` -/
structure Records (b : F1uBearer) (sns : List (BitVec 32)) : Prop where
  running : b.stopped = false
  expanded : b.allBlocks.flatMap expand = sns
  sized : ∀ block ∈ b.allBlocks, block.Sized
  refused : b.refused = []

/-- such a bearer between two calls -/
structure Inv (b : F1uBearer) (sns : List (BitVec 32)) : Prop extends Records b sns where
  room : b.discardBlocks.length < nruMaxNofPdcpSnDiscardBlocks
  timer : b.discardBlocks ≠ [] → b.dlNotifTimer = true

/-! ## The steps keep the record -/

variable {b : F1uBearer} {sns : List (BitVec 32)}

theorem fillDiscardBlocks_eq (msg : NruDlMessage) :
    b.fillDiscardBlocks msg = ({ b with discardBlocks := [] },
        if b.discardBlocks.isEmpty then msg else { msg with discardBlocks := some b.discardBlocks }) := by
  obtain ⟨stopped, timer, blocks, emitted, refused⟩ := b
  cases blocks with
  | nil => rfl
  | cons block blocks => rfl

section

variable (h : b.Records sns)
include h

/-- the record depends on the blocks only, wherever they are -/
theorem Records.congr {b' : F1uBearer} (hstop : b'.stopped = b.stopped)
    (hrefused : b'.refused = b.refused) (hall : b'.allBlocks = b.allBlocks) : b'.Records sns where
  running := hstop.trans h.running
  expanded := hall ▸ h.expanded
  sized := hall ▸ h.sized
  refused := hrefused.trans h.refused

/-- the bearer that has sent its pending blocks with `msg` -/
theorem Records.sent {msg : NruDlMessage} (hmsg : msg.blocks = b.discardBlocks) :
    Inv { b with discardBlocks := [], dlNotifTimer := false, onNewPdu := b.onNewPdu ++ [msg] } sns where
  toRecords := h.congr rfl rfl (by simp [allBlocks, hmsg])
  room := by simp [nruMaxNofPdcpSnDiscardBlocks]
  timer := by simp

theorem Records.handleSdu (sdu : List UInt8) (isRetx : Bool) : (b.handleSdu sdu isRetx).Inv sns := by
  rw [F1uBearer.handleSdu, if_neg (by simp [h.running]), fillDiscardBlocks_eq]
  apply h.sent
  cases hb : b.discardBlocks with
  | nil => simp [NruDlMessage.blocks]
  | cons block blocks => simp [NruDlMessage.blocks]

theorem Records.flushDiscardBlocks : b.flushDiscardBlocks.Inv sns := by
  rw [F1uBearer.flushDiscardBlocks, fillDiscardBlocks_eq]
  cases hb : b.discardBlocks with
  | nil =>
    exact
      { toRecords := h.congr rfl rfl (by simp [allBlocks, hb])
        room := by simp [nruMaxNofPdcpSnDiscardBlocks]
        timer := by simp }
  | cons block blocks => exact h.sent hb.symm

/-- a new block of one SN at the end -/
theorem Records.push (sn : BitVec 32) :
    Records { b with dlNotifTimer := true, discardBlocks := b.discardBlocks ++ [⟨sn, 1⟩] } (sns ++ [sn]) where
  running := h.running
  expanded := by simp only [← h.expanded, allBlocks, ← append_assoc, flatMap_append, flatMap_singleton,
    expand_one]
  sized := by
    intro block hblock
    have hmem : block ∈ b.allBlocks ∨ block = ⟨sn, 1⟩ := by simpa [allBlocks, or_assoc] using hblock
    rcases hmem with hold | rfl
    · exact h.sized block hold
    · exact sized_one sn
  refused := h.refused

/-- the last block with the SN that follows it -/
theorem Records.grow {blocks : List NruPdcpSnDiscardBlock} {last : NruPdcpSnDiscardBlock}
    (hb : b.discardBlocks = blocks ++ [last]) (hlt : last.blockSize < nruMaxDiscardBlockSize) :
    Records { b with
      dlNotifTimer := true
      discardBlocks := blocks ++ [{ last with blockSize := last.blockSize + 1 }] }
      (sns ++ [last.pdcpSnStart + last.blockSize.setWidth 32]) where
  running := h.running
  expanded := by simp only [← h.expanded, allBlocks, hb, flatMap_append, flatMap_singleton, expand_grown hlt,
    append_assoc]
  sized := by
    intro block hblock
    have hmem : block ∈ b.onNewPdu.flatMap (·.blocks) ++ blocks ∨
        block = { last with blockSize := last.blockSize + 1 } := by
      simpa [allBlocks, or_assoc] using hblock
    rcases hmem with hold | rfl
    · exact h.sized block (by simp only [allBlocks, hb, ← append_assoc]; exact mem_append_left _ hold)
    · exact sized_grown hlt
  refused := h.refused

end

theorem Inv.discardSdu (h : b.Inv sns) (sn : BitVec 32) : (b.discardSdu sn).Inv (sns ++ [sn]) := by
  rcases eq_nil_or_concat b.discardBlocks with hb | ⟨blocks, last, hb⟩
  · -- the first block is pushed without a look at the capacity
    have hpush := h.push sn
    simp only [hb, nil_append] at hpush
    simp only [F1uBearer.discardSdu, hb, getLast?_nil]
    exact { hpush with room := by simp [nruMaxNofPdcpSnDiscardBlocks], timer := by simp }
  · rw [concat_eq_append] at hb
    have hroom := h.room
    simp only [F1uBearer.discardSdu, hb, getLast?_concat, dropLast_concat]
    split_ifs with hnext hfull hnow
    · have hgrow := h.grow hb hnext.2
      rw [hnext.1] at hgrow
      exact { hgrow with room := by simpa [hb] using hroom, timer := by simp }
    · -- a container that is full has been flushed
      rw [← hb] at hfull
      exact absurd hfull hroom.ne
    · simpa only [hb] using (h.push sn).flushDiscardBlocks
    · have hpush := h.push sn
      simp only [hb] at hpush
      rw [← hb] at hnow hpush ⊢
      refine { hpush with room := lt_of_le_of_ne ?_ hnow, timer := by simp }
      simpa using hroom

theorem Inv.step (h : b.Inv sns) (op : BearerOp) : (b.step op).Inv (sns ++ discardedSns [op]) := by
  cases op with
  | handleSdu sdu isRetx => simpa [discardedSns, F1uBearer.step] using h.handleSdu sdu isRetx
  | discardSdu sn => exact h.discardSdu sn
  | expiry =>
    have hflush := h.flushDiscardBlocks
    simpa [discardedSns, F1uBearer.step, onExpiredDlNotifTimer, h.running] using hflush

theorem Inv.run (h : b.Inv sns) (ops : List BearerOp) :
    (Machine.run F1uBearer.step b ops).Inv (sns ++ discardedSns ops) := by
  induction ops generalizing b sns with
  | nil => simpa [discardedSns] using h
  | cons op ops ih =>
    have hrest := ih (h.step op)
    rw [append_assoc, discardedSns, discardedSns, ← filterMap_append] at hrest
    exact hrest

theorem inv_init : Inv {} [] where
  running := rfl
  expanded := rfl
  sized := by simp [allBlocks]
  refused := rfl
  room := by simp [nruMaxNofPdcpSnDiscardBlocks]
  timer := by simp

theorem discardBlocks_exact (ops : List BearerOp) :
    let b := run F1uBearer.step {} ops
    (b.onNewPdu.flatMap (·.blocks)).flatMap expand ++ b.discardBlocks.flatMap expand = discardedSns ops ∧
      (∀ msg ∈ b.onNewPdu, ∀ block ∈ msg.blocks, 1 ≤ block.blockSize ∧ block.blockSize ≤ nruMaxDiscardBlockSize) ∧
      b.refused = [] ∧
      (b.discardBlocks ≠ [] → b.dlNotifTimer = true) := by
  intro b
  have h : b.Inv (discardedSns ops) := inv_init.run ops
  refine ⟨?_, ?_, h.refused, h.timer⟩
  · rw [← flatMap_append]
    exact h.expanded
  · intro msg hmsg block hblock
    exact h.sized block (mem_append_left _ (mem_flatMap.mpr ⟨msg, hmsg, hblock⟩))

end F1uBearer

end OcuduRan.F1u
