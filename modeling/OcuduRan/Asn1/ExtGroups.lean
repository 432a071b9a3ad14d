/-
Extension groups and open fields of the PER codec (asn1_utils.h, asn1_utils.cpp, X.691 sections 11.2 and 19.9).

A message puts the presence flags of its extension groups in front and each present group into a field of its own: a
length in octets, and the bits of the group padded to octets. A decoder that knows fewer groups skips the others by
their lengths, with one of two classes:

  ext_groups_unpacker        reads group after group and hands out a view of the last one (`ExtGroupsUnpacker`).
  ext_groups_unpacker_guard  reads the flags; the known groups are read in scopes of varlength_field_unpack_guard, and
                             its destructor skips the present groups behind them (`ExtGroupsUnpackerGuard`).

A scope does not look at the code of unpack_length. A length in the form for 16K octets and more is 0; one that cannot
be read to its end is not initialised or only part of it, and `left` is what stands there.
-/
import OcuduRan.Asn1.WholeNumber

namespace OcuduRan.Asn1

open BitStream Coded

/-! ## Writer -/

namespace ExtGroupsPackerGuard

/-- one more than the index of the last group that is present, from `i` down -/
def nofGroupsLoop (groups : List Bool) : ℕ → ℕ
  | 0 => 0
  | i + 1 => if groups.getD i false then i + 1 else nofGroupsLoop groups i

def nofGroups (groups : List Bool) : ℕ := nofGroupsLoop groups groups.length

def pack (groups : List Bool) : Packer := do
  packNormSmallNonNegWholeNumber ((nofGroups groups + (2 ^ 32 - 1)) % 2 ^ 32)
  forEach (fun b : Bool => BitRef.pack b.toNat 1) (groups.take (nofGroups groups))

end ExtGroupsPackerGuard

/-- a scope of varlength_field_pack_guard around `body`: what it writes goes to a buffer of its own -/
def varlengthFieldPack (align : Bool) (body : Packer) : Packer := fun brefstart =>
  let (res, bref) := body ⟨[], 0⟩
  -- fill the spare bits
  let leftover := 7 - (bref.distance + (2 ^ 32 - 1)) % 2 ^ 32 % 8
  let bref := (BitRef.pack 0 leftover bref).2
  let nofBytes := bref.distance % 2 ^ 32 / 8
  let brefstart := (packLength nofBytes align brefstart).2
  (res, (BitRef.packBytes bref.writer brefstart).2)

/-- the bits of a group, or nothing if it is not present -/
abbrev ExtGroup : Type := Option (List Bool)

/-- the contents of a group, bit by bit -/
def packBits (bits : List Bool) : Packer := forEach (fun b : Bool => BitRef.pack b.toNat 1) bits

/-- a group that is present, in its scope -/
def packExtGroup (aligned : Bool) : ExtGroup → Packer
  | none => pure ()
  | some bits => varlengthFieldPack aligned (packBits bits)

/-- the flags, then the groups -/
def packExtGroups (aligned : Bool) (groups : List ExtGroup) : Packer := do
  ExtGroupsPackerGuard.pack (groups.map Option.isSome)
  forEach (packExtGroup aligned) groups

/-! ## ext_groups_unpacker -/

inductive ExtGroupsState where
  | unpackPresenceFlags
  | unpackGroups
  | done
deriving DecidableEq, Repr

structure ExtGroupsUnpacker where
  aligned : Bool
  state : ExtGroupsState
  nofUnpackedGroups : ℕ
  nextGroupIdx : ℕ
  outerBref : CbitRef
  groupBref : CbitRef
  groups : List Bool
deriving DecidableEq, Repr

namespace ExtGroupsUnpacker

abbrev Call (α : Type) : Type := Coded AsnError ExtGroupsUnpacker α

def init (bref : CbitRef) (aligned : Bool) : ExtGroupsUnpacker :=
  ⟨aligned, .unpackPresenceFlags, 0, 0, bref, bref.empty, []⟩

/-- a call on outer_bref -/
def onOuter {α : Type} (d : Unpacker α) : Call α := fun u =>
    ((d u.outerBref).1, { u with outerBref := (d u.outerBref).2 })

/-- the presence flags from index `i` on -/
def unpackFlagsLoop : ℕ → ℕ → Call Unit
  | 0, _ => pure ()
  | n + 1, i => do
    let flag ← onOuter CbitRef.unpackBool
    modify fun u => { u with groups := u.groups.set i flag }
    unpackFlagsLoop n (i + 1)

def unpackPresenceFlags : Call Unit := do
  let nofExtGroups ← onOuter (unpackNormSmallNonNegWholeNumber 32)
  let nof := (nofExtGroups + 1) % 2 ^ 32
  modify fun u => { u with nofUnpackedGroups := nof, groups := List.replicate nof false }
  unpackFlagsLoop nof 0

/-- behind the presence flags -/
def unpackGroup : Call Unit := fun u =>
  if u.nextGroupIdx ≥ u.nofUnpackedGroups then (.ok (), { u with state := .done })
  else
    let present := u.groups.getD u.nextGroupIdx false
    let u := { u with nextGroupIdx := u.nextGroupIdx + 1 }
    if present then
      (do
        let groupLen ← onOuter (unpackLength u.aligned)
        modify fun u => { u with groupBref := u.outerBref.subview 0 groupLen }
        onOuter (CbitRef.advanceBytes groupLen) : Call Unit) u
    else (.ok (), u)

def unpackNextGroup : Call Unit := fun u =>
  if u.state = .unpackPresenceFlags then
    (do unpackPresenceFlags; unpackGroup : Call Unit) { u with state := .unpackGroups }
  else unpackGroup u

/-- the view of the last group, if it is present -/
def getLastGroupRange : Call (Option CbitRef) := fun u =>
  if u.nextGroupIdx > 0 then
    (.ok (if u.state ≠ .done ∧ u.groups.getD (u.nextGroupIdx - 1) false then some u.groupBref else none), u)
  else (.error .assertion, u)

/-- at most `fuel` turns of the loop; each takes one group -/
def consumeLoop : ℕ → Call Unit
  | 0 => pure ()
  | fuel + 1 => fun u =>
    if u.nextGroupIdx < u.nofUnpackedGroups then (do unpackNextGroup; consumeLoop fuel : Call Unit) u else (.ok (), u)

/-- the reader that is handed back -/
def consumeRemainingGroups : Call CbitRef := fun u =>
  (do
    consumeLoop (u.nofUnpackedGroups - u.nextGroupIdx)
    fun u => (.ok u.outerBref, u) : Call CbitRef) u

/-- a decoder that knows `k` groups: what it sees of them, and where it goes on -/
def decode (aligned : Bool) (k : ℕ) (bref : CbitRef) : Except (Fault AsnError) (List (Option CbitRef) × CbitRef) :=
  ((do
    let views ← times (do unpackNextGroup; getLastGroupRange) k
    let bref ← consumeRemainingGroups
    pure (views, bref) : Call _) (init bref aligned)).1

end ExtGroupsUnpacker

/-! ## varlength_field_unpack_guard and ext_groups_unpacker_guard -/

/-- the two bits that mark the form of a length are set -/
def longForm (align : Bool) : Unpacker Bool := do
  when align CbitRef.alignBytes
  let ext ← CbitRef.unpackBool
  let ext₂ ← CbitRef.unpackBool
  pure (ext && ext₂)

/-- what unpack_length leaves in its variable when it fails -/
def lengthLeft (left : CbitRef → ℕ) (align : Bool) (bref : CbitRef) : ℕ :=
  match (longForm align bref).1 with
  | .ok true => 0
  | _ => left bref

/-- a scope of varlength_field_unpack_guard around `body`, which reads in the view of the field -/
def varlengthFieldUnpack {α : Type} (left : CbitRef → ℕ) (align : Bool) (body : Unpacker α) : Unpacker α := do
  let len ← fun bref => ignore (lengthLeft left align bref) (unpackLength align) bref
  fun bref₀ =>
    let (res, bref) := body (bref₀.subview 0 len)
    if len * 8 % 2 ^ 32 < (bref.distance bref₀ % 2 ^ 32).toNat then (res, bref)
    else (res, (CbitRef.advanceBytes len bref₀).2)

namespace ExtGroupsUnpackerGuard

/-- the presence flags, at least as many as there are known groups, and their number on the wire -/
def unpack (nofSupportedGroups : ℕ) : Unpacker (List Bool × ℕ) := do
  let nofExtGroups ← unpackNormSmallNonNegWholeNumber 32
  let nofUnpackedGroups := (nofExtGroups + 1) % 2 ^ 32
  let flags ← times CbitRef.unpackBool nofUnpackedGroups
  pure (flags ++ List.replicate (nofSupportedGroups - nofUnpackedGroups) false, nofUnpackedGroups)

/-- the known groups: the view of each that is present, of which the decoder takes `used i` bits -/
def readKnown (left : CbitRef → ℕ) (align : Bool) (used : ℕ → ℕ) (groups : List Bool) :
    ℕ → ℕ → Unpacker (List (Option CbitRef))
  | 0, _ => pure []
  | n + 1, i => do
    let view ← (if groups.getD i false then varlengthFieldUnpack left align fun v => (.ok (some v), v.skip (used i))
      else pure none)
    let views ← readKnown left align used groups n (i + 1)
    pure (view :: views)

/-- the destructor: `n` groups from index `i` on -/
def skipUnknown (left : CbitRef → ℕ) (groups : List Bool) : ℕ → ℕ → Unpacker Unit
  | 0, _ => pure ()
  | n + 1, i => do
    when (groups.getD i false) (varlengthFieldUnpack left false (pure ()))
    skipUnknown left groups n (i + 1)

/-- a decoder that knows `k` groups: what it sees of them, and where it goes on -/
def decode (left : CbitRef → ℕ) (align : Bool) (used : ℕ → ℕ) (k : ℕ) : Unpacker (List (Option CbitRef)) := do
  let (groups, nofUnpackedGroups) ← unpack k
  let views ← readKnown left align used groups k 0
  skipUnknown left groups (nofUnpackedGroups - k) k
  pure views

end ExtGroupsUnpackerGuard

end OcuduRan.Asn1
