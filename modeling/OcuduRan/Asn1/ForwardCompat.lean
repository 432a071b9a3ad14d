/-
Forward compatibility of extension groups: a decoder that knows only the first k groups of a message sees exactly those
and goes on right behind the last one.

- `forward_compatible`: for every list of groups (at least one present, at most 64, each below 16K octets), written at
  any bit offset, ext_groups_unpacker decodes them in both variants and for every k ≥ 1, and ext_groups_unpacker_guard
  does where `SkipsRight` holds.
- `SkipsRight`: the destructor of the guard skips unknown groups with unaligned lengths. In the aligned variant that is
  right when it starts at an octet boundary: a known group is present, or the flags end at one, or there is nothing to
  skip.

A reader is a view of less than 4 GiB: subview takes the number of bytes that are left as a uint32_t. The view of a
group has up to seven bits of the next field behind the group, since it ends with a byte.
-/
import OcuduRan.Asn1.ExtGroups

namespace OcuduRan.Asn1

open BitStream List CbitRef Coded Nat ExtGroupsPackerGuard Writes ExtGroupsUnpacker List.Forall₂ Reads

/-! ## Groups on the wire -/

/-- a group in its field, at bit `p` -/
def openBits (aligned : Bool) (p : ℕ) (bits : List Bool) : List Bool :=
  alignment aligned p ++ lengthBits (toBytes bits).length ++ bitsOf (toBytes bits)

/-- the groups that are present, from bit `p` on -/
def groupBits (aligned : Bool) : ℕ → List ExtGroup → List Bool
  | _, [] => []
  | p, none :: gs => groupBits aligned p gs
  | p, some bits :: gs => openBits aligned p bits ++ groupBits aligned (p + (openBits aligned p bits).length) gs

/-- number of groups up to the last that is present -/
def nofGroups (gs : List ExtGroup) : ℕ := ExtGroupsPackerGuard.nofGroups (gs.map Option.isSome)

def extBits (aligned : Bool) (p : ℕ) (gs : List ExtGroup) : List Bool :=
  natBits 7 (nofGroups gs - 1) ++ ((gs.map Option.isSome).take (nofGroups gs) ++
    groupBits aligned (p + 7 + nofGroups gs) gs)

/-- the lists a message may carry -/
structure ExtGroup.Writable (gs : List ExtGroup) : Prop where
  present : ∃ bits, some bits ∈ gs
  few : gs.length ≤ 64
  short : ∀ bits, some bits ∈ gs → (toBytes bits).length < asn16K

theorem Writes.packBits (bits : List Bool) (p : ℕ) : Writes (Asn1.packBits bits) p bits := by
  have h := forEach bits (fun b _ q => pack (v := Bool.toNat b) (n := 1) (by decide) q) p
  have hbit (b : Bool) : natBits 1 b.toNat = [b] := by cases b <;> rfl
  simp only [hbit, flatMap_singleton'] at h
  exact h

theorem BitRef.distance_ofBits (bits : List Bool) : (BitRef.ofBits bits).distance = bits.length := by
  show 8 * ((toBytes bits).length - if bits.length % 8 = 0 then 0 else 1) + bits.length % 8 = bits.length
  rw [length_toBytes]
  split_ifs with h <;> omega

/-- a scope writes the field of what its body writes -/
theorem Writes.varlengthFieldPack {body : Packer} {bits : List Bool} (h : Writes body 0 bits)
    (hlen : (toBytes bits).length < asn16K) (align : Bool) (p : ℕ) :
    Writes (Asn1.varlengthFieldPack align body) p (openBits align p bits) := by
  intro pre hpre
  have hbody : body ⟨[], 0⟩ = (.ok (), BitRef.ofBits bits) := h [] rfl
  have hlt : bits.length + 7 < 2 ^ 32 := by
    rw [length_toBytes] at hlen
    unfold asn16K at hlen
    omega
  have hleft : 7 - (bits.length + (2 ^ 32 - 1)) % 2 ^ 32 % 8 = BitRef.padding bits.length := by
    unfold BitRef.padding
    omega
  have hpadlt : BitRef.padding bits.length < 64 := by
    omega
  have hzeros : natBits (BitRef.padding bits.length) 0 = replicate (BitRef.padding bits.length) false := by
    have h := natBits_ofBits (replicate (BitRef.padding bits.length) false)
    rwa [length_replicate, ofBits_replicate_false] at h
  have hfill : BitRef.pack 0 (BitRef.padding bits.length) (BitRef.ofBits bits) =
      (.ok (), BitRef.ofBits (bits ++ replicate (BitRef.padding bits.length) false)) := by
    rw [pack hpadlt _ bits rfl, hzeros]
  have hbytes : (BitRef.ofBits (bits ++ replicate (BitRef.padding bits.length) false)).writer = toBytes bits := by
    rw [BitRef.ofBits_padding]
    rfl
  have hnof : (bits.length + BitRef.padding bits.length) % 2 ^ 32 / 8 = (toBytes bits).length := by
    rw [length_toBytes]
    omega
  have hlength := packLength hlen align p pre hpre
  have hpack := packBytes (toBytes bits) _ (pre ++ (alignment align p ++ lengthBits (toBytes bits).length)) rfl
  unfold Asn1.varlengthFieldPack openBits
  simp only [hbody, BitRef.distance_ofBits, hleft, hfill, hbytes, length_append, length_replicate, hnof, hlength,
    hpack, append_assoc]

/-- one field after the other -/
theorem Writes.groups {gs : List ExtGroup} (h : ∀ bits, some bits ∈ gs → (toBytes bits).length < asn16K)
    (aligned : Bool) (p : ℕ) : Writes (Coded.forEach (packExtGroup aligned) gs) p (groupBits aligned p gs) := by
  induction gs generalizing p with
  | nil => exact nil p
  | cons g gs ih =>
    have htail := ih (fun bits hbits => h bits (mem_cons_of_mem g hbits))
    cases g with
    | none => exact (nil p).bind (htail p)
    | some bits =>
      exact (varlengthFieldPack (packBits bits 0) (h bits mem_cons_self) aligned p).bind (htail _)

theorem nofGroupsLoop_le (groups : List Bool) (i : ℕ) : nofGroupsLoop groups i ≤ i := by
  induction i with
  | zero => exact le_rfl
  | succ i ih =>
    unfold nofGroupsLoop
    split_ifs
    · exact le_rfl
    · omega

theorem getD_of_nofGroupsLoop_le {groups : List Bool} {i j : ℕ} (h : nofGroupsLoop groups i ≤ j)
    (hj : j < i) : groups.getD j false = false := by
  induction i with
  | zero => omega
  | succ i ih =>
    unfold nofGroupsLoop at h
    split_ifs at h with hi
    · omega
    · by_cases hji : j = i
      · rw [hji]
        exact Bool.eq_false_iff.2 hi
      · exact ih h (by omega)

variable {gs : List ExtGroup}

theorem nofGroups_le (gs : List ExtGroup) : nofGroups gs ≤ gs.length := by
  exact (nofGroupsLoop_le (gs.map Option.isSome) (gs.map Option.isSome).length).trans_eq (length_map _)

/-- behind the last group that is present -/
theorem eq_none_of_mem_drop {g : ExtGroup} (h : g ∈ gs.drop (nofGroups gs)) : g = none := by
  obtain ⟨j, hj, rfl⟩ := getElem_of_mem h
  rw [length_drop] at hj
  rw [getElem_drop]
  have hflag : (gs.map Option.isSome).getD (nofGroups gs + j) false = false :=
    getD_of_nofGroupsLoop_le (le_add_right _ _) (by rw [length_map]; omega)
  rw [getD_eq_getElem?_getD, getElem?_map, getElem?_eq_getElem (by omega)] at hflag
  refine Option.not_isSome_iff_eq_none.1 ?_
  rw [show (gs[nofGroups gs + j]).isSome = false from hflag]
  exact Bool.false_ne_true

theorem groupBits_append (aligned : Bool) (p : ℕ) (xs ys : List ExtGroup) : groupBits aligned p (xs ++ ys) =
      groupBits aligned p xs ++ groupBits aligned (p + (groupBits aligned p xs).length) ys := by
  induction xs generalizing p with
  | nil => rfl
  | cons g xs ih =>
    cases g with
    | none => exact ih p
    | some bits =>
      show openBits _ _ _ ++ groupBits _ _ (xs ++ ys) = openBits _ _ _ ++ groupBits _ _ xs ++ _
      rw [ih, append_assoc]
      congr 3
      show _ = p + (openBits _ _ _ ++ groupBits _ _ xs).length
      rw [length_append, add_assoc]

theorem groupBits_of_none (aligned : Bool) (p : ℕ) (h : ∀ g ∈ gs, g = none) : groupBits aligned p gs = [] := by
  induction gs with
  | nil => rfl
  | cons g gs ih =>
    obtain rfl := h g mem_cons_self
    exact ih fun g' hg' => h g' (mem_cons_of_mem _ hg')

/-- the groups whose flags are on the wire -/
def trim (gs : List ExtGroup) : List ExtGroup := gs.take (nofGroups gs)

theorem length_trim (gs : List ExtGroup) : (trim gs).length = nofGroups gs := by
  rw [trim, length_take, min_eq_left (nofGroups_le gs)]

theorem length_flags (gs : List ExtGroup) : ((trim gs).map Option.isSome).length = nofGroups gs := by
  rw [length_map, length_trim]

theorem trim_append (gs : List ExtGroup) : trim gs ++ gs.drop (nofGroups gs) = gs := take_append_drop _ _

theorem groupBits_trim (aligned : Bool) (p : ℕ) (gs : List ExtGroup) :
    groupBits aligned p (trim gs) = groupBits aligned p gs := by
  have h := groupBits_append aligned p (trim gs) (gs.drop (nofGroups gs))
  rw [trim_append, groupBits_of_none _ _ fun g hg => eq_none_of_mem_drop hg, append_nil] at h
  exact h.symm

theorem ExtGroup.Writable.nofGroups_pos (h : ExtGroup.Writable gs) : 0 < nofGroups gs := by
  obtain ⟨bits, hbits⟩ := h.present
  by_contra hz
  have hmem : some bits ∈ gs.drop (nofGroups gs) := by
    rw [Nat.eq_zero_of_not_pos hz]
    exact hbits
  cases eq_none_of_mem_drop hmem

theorem Writes.packExtGroups (h : ExtGroup.Writable gs) (aligned : Bool) (p : ℕ) :
    Writes (Asn1.packExtGroups aligned gs) p (extBits aligned p gs) := by
  have hpos := h.nofGroups_pos
  have hle := (nofGroups_le gs).trans h.few
  have hnof : (nofGroups gs + (2 ^ 32 - 1)) % 2 ^ 32 = nofGroups gs - 1 := by omega
  have hflags (q : ℕ) : Writes (Coded.forEach (fun b : Bool => BitRef.pack b.toNat 1)
      ((gs.map Option.isSome).take (nofGroups gs))) q ((gs.map Option.isSome).take (nofGroups gs)) := packBits _ q
  have hnumber (q : ℕ) : Writes (packNormSmallNonNegWholeNumber (nofGroups gs - 1)) q
    (natBits 7 (nofGroups gs - 1)) := by
    unfold packNormSmallNonNegWholeNumber
    rw [if_pos (by omega)]
    exact pack (by decide) q
  have hguard : Writes (ExtGroupsPackerGuard.pack (gs.map Option.isSome)) p
      (natBits 7 (nofGroups gs - 1) ++ (gs.map Option.isSome).take (nofGroups gs)) := by
    unfold ExtGroupsPackerGuard.pack
    rw [show ExtGroupsPackerGuard.nofGroups (gs.map Option.isSome) = nofGroups gs from rfl, hnof]
    exact (hnumber p).bind (hflags _)
  have hlen : (natBits 7 (nofGroups gs - 1) ++ (gs.map Option.isSome).take (nofGroups gs)).length =
    7 + nofGroups gs := by
    rw [length_append, length_natBits, length_take, length_map, min_eq_left (nofGroups_le gs)]
  have hbind := hguard.bind (groups h.short aligned _)
  rw [hlen, append_assoc, ← add_assoc] at hbind
  exact hbind

/-! ## A reader in front of them -/

/-- these bits are next, at offset `p` in the byte; behind them is `fin` -/
structure Ahead (r : CbitRef) (p : ℕ) (bits : List Bool) (fin : CbitRef) : Prop where
  valid : r.Valid
  small : r.remaining < 2 ^ 32
  offset : r.pos % 8 = p % 8
  next : ∃ tail, r.rest = bits ++ tail
  fin_eq : fin = r.skip bits.length

namespace CbitRef

variable {r : CbitRef} {n : ℕ}

theorem Valid.offset_eq (h : r.Valid) : r.pos % 8 = r.offset := by
  have := h.offset_lt
  unfold pos
  omega

theorem remaining_skip_le (r : CbitRef) (n : ℕ) : (r.skip n).remaining ≤ r.remaining := by
  show r.stop - (r.pos + n) / 8 ≤ r.stop - r.it
  unfold pos
  omega

theorem take_bitsOf (bytes : List UInt8) (n : ℕ) : bitsOf (bytes.take n) = (bitsOf bytes).take (8 * n) := by
  have hsplit : bitsOf bytes = bitsOf (bytes.take n) ++ bitsOf (bytes.drop n) := by
    conv_lhs => rw [← take_append_drop n bytes]
    exact flatMap_append
  by_cases hle : n ≤ bytes.length
  · rw [hsplit, take_left' (by rw [length_bitsOf, length_take, min_eq_left hle])]
  · rw [take_of_length_le (by omega), take_of_length_le (by rw [length_bitsOf]; omega)]

/-- whole octets, and the byte the cursor is in -/
theorem Valid.octets_fit (h : r.Valid) (hn : 8 * n ≤ r.rest.length) : n + r.partialByte ≤ r.remaining := by
  have hlen := h.length_rest
  have hle := h.pos_le
  unfold partialByte remaining
  unfold pos at hlen hle
  split_ifs <;> omega

theorem Valid.advanceBytes_eq (h : r.Valid) (hsmall : r.remaining < 2 ^ 32) (hn : 8 * n ≤ r.rest.length) :
    advanceBytes n r = (.ok (), r.skip (8 * n)) := by
  have hfit := h.octets_fit hn
  have hlt := h.offset_lt
  have hit : (r.pos + 8 * n) / 8 = r.it + n := by
    unfold pos
    omega
  have hoff : (r.pos + 8 * n) % 8 = r.offset := by
    unfold pos
    omega
  unfold advanceBytes CbitRef.skip
  rw [if_neg (by omega), hit, hoff]

/-- the octets of a field, and what is left of the byte they end in -/
theorem Valid.subview_spec (h : r.Valid) (hsmall : r.remaining < 2 ^ 32) (hn : 8 * n ≤ r.rest.length) :
    (r.subview 0 n).Valid ∧ (r.subview 0 n).it = r.it ∧ (r.subview 0 n).offset = r.offset ∧
      ∃ extra, extra.length < 8 ∧ (r.subview 0 n).rest = r.rest.take (8 * n) ++ extra := by
  have hfit := h.octets_fit hn
  have hlt := h.offset_lt
  have hview : r.subview 0 n = ⟨r.bytes, r.it, r.it + (n + r.partialByte), r.it, r.offset⟩ := by
    unfold subview
    dsimp only
    rw [zero_add, mod_mod, mod_eq_of_lt (by omega), mod_eq_of_lt (by omega), if_neg (by omega), add_zero]
  have hvalid : (r.subview 0 n).Valid := by
    rw [hview]
    have hstop := h.stop_le
    unfold remaining at hfit
    have hit := h.it_le
    refine ⟨le_rfl, le_add_right _ _, ?_, hlt, fun ho => ?_⟩
    · show r.it + (n + r.partialByte) ≤ r.bytes.length
      omega
    · show r.it < r.it + (n + r.partialByte)
      have hpart : r.partialByte = 1 := if_pos ho
      omega
  refine ⟨hvalid, by rw [hview], by rw [hview], (r.rest.take (8 * (n + r.partialByte) - r.offset)).drop (8 * n), ?_, ?_⟩
  · rw [length_drop, length_take]
    unfold partialByte
    split_ifs <;> omega
  · have hrest : (r.subview 0 n).rest = r.rest.take (8 * (n + r.partialByte) - r.offset) := by
      rw [hview]
      unfold rest
      have htake : (r.bytes.take (r.it + (n + r.partialByte))).drop r.it =
          ((r.bytes.take r.stop).drop r.it).take (n + r.partialByte) := by
        unfold remaining at hfit
        rw [take_drop, take_take, min_eq_left (by have := h.it_le; omega)]
      rw [htake, ← drop_take, take_bitsOf]
    have hle : 8 * n ≤ 8 * (n + r.partialByte) - r.offset := by
      unfold partialByte
      split_ifs <;> omega
    rw [hrest]
    conv_lhs => rw [← take_append_drop (8 * n) (r.rest.take (8 * (n + r.partialByte) - r.offset))]
    rw [take_take, min_eq_left hle]

end CbitRef

namespace Ahead

variable {r fin : CbitRef} {p : ℕ} {a b : List Bool}

theorem skip (h : Ahead r p (a ++ b) fin) : Ahead (r.skip a.length) (p + a.length) b fin := by
  obtain ⟨tail, hrest⟩ := h.next
  rw [append_assoc] at hrest
  have hoff := h.offset
  refine ⟨h.valid.skip ?_, (remaining_skip_le r _).trans_lt h.small, ?_, ⟨tail, ?_⟩, ?_⟩
  · rw [hrest, length_append]
    omega
  · rw [pos_skip]
    omega
  · rw [rest_skip, hrest, drop_left]
  · rw [h.fin_eq, skip_skip, length_append]

/-- the first of two calls -/
theorem reads {α : Type} {d : Unpacker α} {v : α} (h : Ahead r p (a ++ b) fin) (hd : Reads d p a v) :
    d r = (.ok v, r.skip a.length) := by
  obtain ⟨tail, hrest⟩ := h.next
  rw [append_assoc] at hrest
  exact hd r _ h.valid h.offset hrest

theorem eq_fin (h : Ahead r p [] fin) : r = fin := by
  rw [h.fin_eq, length_nil, skip_zero h.valid]

end Ahead

/-- the view of a group: its octets, and less than a byte behind them -/
structure Shows (aligned : Bool) (bits : List Bool) (v : CbitRef) : Prop where
  valid : v.Valid
  octets : ∃ extra, extra.length < 8 ∧ v.rest = bitsOf (toBytes bits) ++ extra
  start : aligned = true → v.offset = 0

/-- presence, and the contents of a group that is present -/
inductive Sees (aligned : Bool) : Option CbitRef → ExtGroup → Prop
  | absent : Sees aligned none none
  | present {v : CbitRef} {bits : List Bool} (h : Shows aligned bits v) : Sees aligned (some v) (some bits)

/-- what a decoder of `k` groups is to see -/
def known (k : ℕ) (gs : List ExtGroup) : List ExtGroup := (gs ++ replicate k none).take k

/-- an aligned length ends at an octet boundary -/
theorem length_end (p n : ℕ) : (p + (alignment true p ++ lengthBits n).length) % 8 = 0 := by
  have hpad : (alignment true p).length = BitRef.padding p := length_replicate
  have h8 : (lengthBits n).length % 8 = 0 := by
    unfold lengthBits
    split_ifs <;> rw [length_natBits]
  rw [length_append, hpad]
  unfold BitRef.padding
  omega

/-- these groups are next, and each is below 16K octets -/
structure GroupsAhead (aligned : Bool) (r : CbitRef) (p : ℕ) (gs : List ExtGroup) (fin : CbitRef) : Prop where
  ahead : Ahead r p (groupBits aligned p gs) fin
  short : ∀ bits, some bits ∈ gs → (toBytes bits).length < asn16K

section Field

variable {aligned : Bool} {r fin : CbitRef} {p : ℕ} {bits rest : List Bool}

theorem GroupsAhead.absent (h : GroupsAhead aligned r p (none :: gs) fin) : GroupsAhead aligned r p gs fin :=
  ⟨h.ahead, fun bits hbits => h.short bits (mem_cons_of_mem _ hbits)⟩

theorem GroupsAhead.present (h : GroupsAhead aligned r p (some bits :: gs) fin) :
    GroupsAhead aligned (r.skip (openBits aligned p bits).length) (p + (openBits aligned p bits).length) gs fin :=
  ⟨h.ahead.skip, fun bits hbits => h.short bits (mem_cons_of_mem _ hbits)⟩

/-- a field: its length is read, its view shows the group, and it can be skipped -/
theorem Ahead.field (h : Ahead r p (openBits aligned p bits ++ rest) fin) (hlen : (toBytes bits).length < asn16K) :
    ∃ r₁, unpackLength aligned r = (.ok (toBytes bits).length, r₁) ∧ r₁.Valid ∧ r₁.remaining < 2 ^ 32 ∧
      8 * (toBytes bits).length ≤ r₁.rest.length ∧ Shows aligned bits (r₁.subview 0 (toBytes bits).length) ∧
      advanceBytes (toBytes bits).length r₁ = (.ok (), r.skip (openBits aligned p bits).length) := by
  have hsplit : openBits aligned p bits ++ rest = (alignment aligned p ++ lengthBits (toBytes bits).length) ++
      (bitsOf (toBytes bits) ++ rest) := by
    unfold openBits
    rw [append_assoc]
  rw [hsplit] at h
  have hread := h.reads (Reads.unpackLength hlen aligned p rfl)
  have hnext := h.skip
  obtain ⟨tail, hrest⟩ := hnext.next
  have hn : 8 * (toBytes bits).length ≤ (r.skip
    (alignment aligned p ++ lengthBits (toBytes bits).length).length).rest.length := by
    rw [hrest, length_append, length_append, length_bitsOf]
    omega
  obtain ⟨hvalid, -, hoff, extra, hextra, hview⟩ := hnext.valid.subview_spec hnext.small hn
  refine ⟨_, hread, hnext.valid, hnext.small, hn, ⟨hvalid, ⟨extra, hextra, ?_⟩, fun ha => ?_⟩, ?_⟩
  · rw [hview, hrest, append_assoc, take_left' (length_bitsOf _)]
  · have hpos := hnext.offset
    rw [hnext.valid.offset_eq] at hpos
    rw [hoff, hpos, ha, length_end]
  · rw [hnext.valid.advanceBytes_eq hnext.small hn, skip_skip]
    simp only [openBits, length_append, length_bitsOf]

end Field

theorem Reads.unpackNormSmall {n : ℕ} (hn : n ≤ 63) (p : ℕ) :
    Reads (unpackNormSmallNonNegWholeNumber 32) p (natBits 7 n) n := by
  have hbits : natBits 7 n = false :: natBits 6 n := by
    rw [natBits, testBit_lt_two_pow (show n < 2 ^ 6 by omega)]
  rw [hbits]
  exact (unpackBool p false).bind (unpack_lt (by decide) (by omega) _)

theorem known_cons (n : ℕ) (g : ExtGroup) (gs : List ExtGroup) : known (n + 1) (g :: gs) = g :: known n gs := by
  unfold known
  rw [cons_append, take_succ_cons, replicate_succ', ← append_assoc, take_append_of_le_length]
  rw [length_append, length_replicate]
  omega

theorem known_trim (k : ℕ) (gs : List ExtGroup) : known k (trim gs) = known k gs := by
  have hdrop : gs.drop (nofGroups gs) = replicate (gs.drop (nofGroups gs)).length none :=
    eq_replicate_iff.2 ⟨rfl, fun g hg => eq_none_of_mem_drop hg⟩
  have hsplit : gs ++ replicate k none =
      trim gs ++ replicate k none ++ replicate (gs.drop (nofGroups gs)).length none := by
    conv_lhs => rw [← trim_append gs, hdrop]
    rw [append_assoc, append_assoc, ← replicate_add, ← replicate_add, add_comm]
  unfold known
  rw [hsplit]
  refine (take_append_of_le_length ?_).symm
  rw [length_append, length_replicate]
  omega

/-! ## ext_groups_unpacker -/

namespace ExtGroupsUnpacker

/-- the flags are read and these groups are next -/
structure At (u : ExtGroupsUnpacker) (gs : List ExtGroup) : Prop where
  started : u.state ≠ .unpackPresenceFlags
  going : gs ≠ [] → u.state = .unpackGroups
  nof : u.nofUnpackedGroups = u.groups.length
  some_ : 0 < u.groups.length
  le : u.nextGroupIdx ≤ u.groups.length
  flags : u.groups.drop u.nextGroupIdx = gs.map Option.isSome

variable {u : ExtGroupsUnpacker} {g : ExtGroup} {gs : List ExtGroup} {p : ℕ} {fin : CbitRef} {aligned : Bool}
  {r : CbitRef}

namespace At

theorem index (h : At u gs) : u.nextGroupIdx + gs.length = u.groups.length := by
  have hlen := congrArg length h.flags
  have hle := h.le
  rw [length_drop, length_map] at hlen
  omega

theorem flag (h : At u (g :: gs)) : u.groups.getD u.nextGroupIdx false = g.isSome := by
  have hget := congrArg (fun l => l.getD 0 false) h.flags
  simp only [getD_eq_getElem?_getD, getElem?_drop, add_zero] at hget ⊢
  exact hget

end At

theorem onOuter_of_ok {α : Type} {d : Unpacker α} {a : α} {r' : CbitRef} (h : d u.outerBref = (.ok a, r')) :
    onOuter d u = (.ok a, { u with outerBref := r' }) := by
  unfold onOuter
  rw [h]

/-- past the last group the state is done -/
theorem unpackGroup_nil (h : At u []) :
    unpackGroup u = (.ok (), { u with state := .done }) ∧ At { u with state := .done } [] := by
  have hidx := h.index
  refine ⟨?_, ⟨by simp, fun hne => absurd rfl hne, h.nof, h.some_, h.le, h.flags⟩⟩
  unfold unpackGroup
  rw [if_pos (by rw [h.nof]; simp only [length_nil] at hidx; omega)]

/-- one group: it is skipped, and seen if it is present -/
theorem unpackGroup_cons (h : At u (g :: gs)) (hr : GroupsAhead u.aligned u.outerBref p (g :: gs) fin) :
    ∃ u', unpackGroup u = (.ok (), u') ∧ At u' gs ∧ u'.aligned = u.aligned ∧ u'.state = .unpackGroups ∧
      0 < u'.nextGroupIdx ∧ Sees u.aligned (if u'.groups.getD (u'.nextGroupIdx - 1) false then some
      u'.groupBref else none) g ∧ ∃ p', GroupsAhead u.aligned u'.outerBref p' gs fin := by
  have hidx := h.index
  have hflag := h.flag
  have hstate := h.going (cons_ne_nil g gs)
  have hnext : u.groups.drop (u.nextGroupIdx + 1) = gs.map Option.isSome := by
    have hdrop := congrArg (drop 1) h.flags
    rwa [drop_drop] at hdrop
  rw [length_cons] at hidx
  unfold unpackGroup
  rw [if_neg (by rw [h.nof]; omega)]
  rw [hflag]
  cases g with
  | none =>
    refine ⟨{ u with nextGroupIdx := u.nextGroupIdx + 1 }, rfl, ⟨h.started, fun _ => hstate, h.nof, h.some_, ?_, hnext⟩,
      rfl, hstate, succ_pos _, ?_, p, hr.absent⟩
    · show u.nextGroupIdx + 1 ≤ u.groups.length
      omega
    · show Sees u.aligned (if u.groups.getD (u.nextGroupIdx + 1 - 1) false then some u.groupBref else none) none
      rw [Nat.add_sub_cancel, hflag]
      exact Sees.absent
  | some bits =>
    obtain ⟨r₁, hlen, hvalid, -, -, hshows, hadv⟩ := hr.ahead.field (hr.short bits mem_cons_self)
    refine ⟨{ u with
        nextGroupIdx := u.nextGroupIdx + 1
        groupBref := r₁.subview 0 (toBytes bits).length
        outerBref := u.outerBref.skip (openBits u.aligned p bits).length }, ?_,
      ⟨h.started, fun _ => hstate, h.nof, h.some_, ?_, hnext⟩, rfl, hstate, succ_pos _, ?_, _, hr.present⟩
    · refine (if_pos rfl).trans ?_
      have houter : onOuter (unpackLength u.aligned) { u with nextGroupIdx := u.nextGroupIdx + 1 } =
          (.ok (toBytes bits).length, { u with nextGroupIdx := u.nextGroupIdx + 1, outerBref := r₁ }) :=
          onOuter_of_ok hlen
      rw [bind_of_ok houter, bind_of_ok (modify_apply _ _)]
      exact onOuter_of_ok hadv
    · show u.nextGroupIdx + 1 ≤ u.groups.length
      omega
    · show Sees u.aligned (if u.groups.getD (u.nextGroupIdx + 1 - 1) false then _ else none) (some bits)
      rw [Nat.add_sub_cancel, hflag]
      exact Sees.present hshows

theorem unpackNextGroup_at (h : At u gs) : unpackNextGroup u = unpackGroup u := if_neg h.started

/-- one call for the next group and one for its view -/
def call : Call (Option CbitRef) := do unpackNextGroup; getLastGroupRange

theorem call_nil (h : At u []) : call u = (.ok none, { u with state := .done }) ∧ At { u with state := .done } [] := by
  obtain ⟨hgroup, hat⟩ := unpackGroup_nil h
  have hidx := h.index
  have hsome := h.some_
  have hgo : unpackNextGroup u = (.ok (), { u with state := .done }) := (unpackNextGroup_at h).trans hgroup
  refine ⟨?_, hat⟩
  unfold call
  rw [bind_of_ok hgo]
  unfold getLastGroupRange
  rw [length_nil] at hidx
  rw [if_pos (show u.nextGroupIdx > 0 by omega)]
  simp

theorem call_cons (h : At u (g :: gs)) (hr : GroupsAhead u.aligned u.outerBref p (g :: gs) fin) :
    ∃ u' view, call u = (.ok view, u') ∧ At u' gs ∧ u'.aligned = u.aligned ∧ Sees u.aligned view g ∧
      ∃ p', GroupsAhead u.aligned u'.outerBref p' gs fin := by
  obtain ⟨u', hgroup, hat, haligned, hstate, hpos, hsees, hahead⟩ := unpackGroup_cons h hr
  have hgo : unpackNextGroup u = (.ok (), u') := (unpackNextGroup_at h).trans hgroup
  refine ⟨u', _, ?_, hat, haligned, hsees, hahead⟩
  unfold call
  rw [bind_of_ok hgo]
  unfold getLastGroupRange
  rw [if_pos hpos]
  simp [hstate]

/-- `k` calls see the first `k` groups -/
theorem calls (k : ℕ) (h : At u gs) (hr : GroupsAhead u.aligned u.outerBref p gs fin) :
    ∃ u' views, times call k u = (.ok views, u') ∧ At u' (gs.drop k) ∧ u'.aligned = u.aligned ∧
      List.Forall₂ (Sees u.aligned) views (known k gs) ∧
      ∃ p', GroupsAhead u.aligned u'.outerBref p' (gs.drop k) fin := by
  induction k generalizing u gs p with
  | zero => exact ⟨u, [], rfl, h, rfl, by rw [known, take_zero]; exact nil, p, hr⟩
  | succ k ih =>
    cases gs with
    | nil =>
      obtain ⟨hcall, hat⟩ := call_nil h
      obtain ⟨u', views, htimes, hat', haligned, hsees, hahead⟩ := ih hat hr
      refine ⟨u', none :: views, times_succ hcall htimes, ?_, haligned, cons Sees.absent ?_, ?_⟩
      · rwa [drop_nil] at hat' ⊢
      · rw [known, nil_append] at hsees
        exact hsees
      · rwa [drop_nil] at hahead ⊢
    | cons g gs =>
      obtain ⟨u₁, view, hcall, hat, haligned₁, hsee, p₁, hahead₁⟩ := call_cons h hr
      rw [← haligned₁] at hahead₁
      obtain ⟨u', views, htimes, hat', haligned, hsees, hahead⟩ := ih hat hahead₁
      rw [haligned₁] at haligned hsees hahead
      refine ⟨u', view :: views, times_succ hcall htimes, hat', haligned, ?_, hahead⟩
      rw [known_cons]
      exact cons hsee hsees

/-- the remaining groups are skipped -/
theorem consumeLoop_eq (h : At u gs) (hr : GroupsAhead u.aligned u.outerBref p gs fin) :
    ∃ u', consumeLoop gs.length u = (.ok (), u') ∧ u'.outerBref = fin := by
  induction gs generalizing u p with
  | nil => exact ⟨u, rfl, hr.ahead.eq_fin⟩
  | cons g gs ih =>
    have hidx := h.index
    rw [length_cons] at hidx
    obtain ⟨u₁, hgroup, hat, haligned, -, -, -, p₁, hahead⟩ := unpackGroup_cons h hr
    rw [← haligned] at hahead
    obtain ⟨u', hloop, hfin⟩ := ih hat hahead
    refine ⟨u', ?_, hfin⟩
    show (if u.nextGroupIdx < u.nofUnpackedGroups then _ else _) = _
    rw [if_pos (by rw [h.nof]; omega), bind_of_ok ((unpackNextGroup_at h).trans hgroup)]
    exact hloop

theorem consumeRemainingGroups_eq (h : At u gs) (hr : GroupsAhead u.aligned u.outerBref p gs fin) :
    ∃ u', consumeRemainingGroups u = (.ok fin, u') := by
  have hidx := h.index
  obtain ⟨u', hloop, hfin⟩ := consumeLoop_eq h hr
  refine ⟨u', ?_⟩
  unfold consumeRemainingGroups
  rw [show u.nofUnpackedGroups - u.nextGroupIdx = gs.length by rw [h.nof]; omega]
  exact (bind_of_ok hloop).trans (by rw [← hfin])

theorem unpackFlagsLoop_eq {fs rest pre : List Bool} (h : Ahead u.outerBref p (fs ++ rest) fin)
    (hgroups : u.groups = pre ++ replicate fs.length false) : unpackFlagsLoop fs.length pre.length u =
      (.ok (), { u with outerBref := u.outerBref.skip fs.length, groups := pre ++ fs }) := by
  induction fs generalizing u p pre with
  | nil =>
    rw [length_nil, replicate_zero] at hgroups
    rw [length_nil, skip_zero h.valid, ← hgroups]
    rfl
  | cons b fs ih =>
    have hread : onOuter unpackBool u = (.ok b, { u with outerBref := u.outerBref.skip 1 }) :=
      onOuter_of_ok (Ahead.reads (show Ahead u.outerBref p ([b] ++ (fs ++ rest)) fin from h) (unpackBool p b))
    have hset : u.groups.set pre.length b = (pre ++ [b]) ++ replicate fs.length false := by
      rw [hgroups, set_append_right _ _ le_rfl, Nat.sub_self, length_cons, replicate_succ, set_cons_zero,
        append_assoc]
      rfl
    have hnext := (show Ahead u.outerBref p ([b] ++ (fs ++ rest)) fin from h).skip
    show (onOuter unpackBool >>= fun flag => _) u = _
    rw [bind_of_ok hread, bind_of_ok (modify_apply _ _)]
    have hlen : pre.length + 1 = (pre ++ [b]).length := by rw [length_append]; rfl
    rw [hlen]
    refine (ih hnext hset).trans ?_
    simp only [skip_skip, length_cons, append_assoc, singleton_append, add_comm 1]

/-- the state behind the presence flags -/
def flagged (aligned : Bool) (gs : List ExtGroup) (r : CbitRef) : ExtGroupsUnpacker :=
  ⟨aligned, .unpackGroups, nofGroups gs, 0, r.skip (7 + nofGroups gs), r.empty, (trim gs).map Option.isSome⟩

theorem extBits_eq (aligned : Bool) (p : ℕ) (gs : List ExtGroup) :
    extBits aligned p gs = natBits 7 (nofGroups gs - 1) ++ ((trim gs).map Option.isSome ++
      groupBits aligned (p + 7 + nofGroups gs) (trim gs)) := by
  rw [groupBits_trim, trim, map_take]
  rfl

/-- the groups behind the number and the flags -/
theorem groupsAhead_of_extBits (h : ExtGroup.Writable gs) (hr : Ahead r p (extBits aligned p gs) fin) :
    GroupsAhead aligned (r.skip (7 + nofGroups gs)) (p + 7 + nofGroups gs) (trim gs) fin := by
  rw [extBits_eq] at hr
  have hnext := hr.skip.skip
  rw [length_natBits, length_flags, skip_skip] at hnext
  exact ⟨hnext, fun bits hbits => h.short bits (mem_of_mem_take hbits)⟩

theorem unpackPresenceFlags_eq (h : ExtGroup.Writable gs) (hr : Ahead r p (extBits aligned p gs) fin) :
    unpackPresenceFlags { init r aligned with state := .unpackGroups } = (.ok (), flagged aligned gs r) := by
  have hpos := h.nofGroups_pos
  have hle := (nofGroups_le gs).trans h.few
  rw [extBits_eq] at hr
  have hnumber : onOuter (unpackNormSmallNonNegWholeNumber 32) { init r aligned with state := .unpackGroups } =
      (.ok (nofGroups gs - 1), { init r aligned with state := .unpackGroups, outerBref := r.skip 7 }) := by
    have hread := hr.reads (unpackNormSmall (by omega) p)
    rw [length_natBits] at hread
    exact onOuter_of_ok hread
  have hmod : (nofGroups gs - 1 + 1) % 2 ^ 32 = nofGroups gs := by omega
  have hnext := hr.skip
  rw [length_natBits] at hnext
  unfold unpackPresenceFlags
  rw [bind_of_ok hnumber]
  simp only [hmod]
  rw [bind_of_ok (modify_apply _ _)]
  have hloop := @unpackFlagsLoop_eq ⟨aligned, .unpackGroups, nofGroups gs, 0, r.skip 7, r.empty,
    replicate (nofGroups gs) false⟩ (p + 7) fin _ _ [] hnext (by rw [length_flags]; rfl)
  rw [length_flags] at hloop
  refine hloop.trans ?_
  rw [skip_skip]
  rfl

/-- the groups behind the flags -/
theorem at_flagged (h : ExtGroup.Writable gs) : At (flagged aligned gs r) (trim gs) := by
  have hlen := length_flags gs
  exact ⟨ExtGroupsState.noConfusion, fun _ => rfl, hlen.symm, hlen ▸ h.nofGroups_pos, zero_le _, rfl⟩

theorem decode_eq {k : ℕ} (h : ExtGroup.Writable gs) (hk : 0 < k) (hr : Ahead r p (extBits aligned p gs) fin) :
    ∃ views, decode aligned k r = .ok (views, fin) ∧ List.Forall₂ (Sees aligned) views (known k gs) := by
  have hflags := unpackPresenceFlags_eq h hr
  have hat := @at_flagged gs aligned r h
  have hahead := groupsAhead_of_extBits h hr
  -- the first call reads the flags, the others start behind them
  have hfirst : unpackNextGroup (init r aligned) = unpackNextGroup (flagged aligned gs r) := by
    rw [unpackNextGroup_at hat]
    exact (if_pos rfl).trans (bind_of_ok hflags)
  have htimes : times call k (init r aligned) = times call k (flagged aligned gs r) := by
    obtain ⟨k, rfl⟩ := Nat.exists_eq_add_of_le' hk
    exact bind_congr (bind_congr hfirst)
  obtain ⟨u', views, hviews, hat', haligned, hsees, p', hahead'⟩ := calls k hat hahead
  rw [← haligned] at hahead'
  obtain ⟨u'', hrest⟩ := consumeRemainingGroups_eq hat' hahead'
  refine ⟨views, ?_, ?_⟩
  · unfold decode
    have hrun : (times call k >>= fun views => consumeRemainingGroups >>= fun bref => pure (views, bref))
        (init r aligned) = (.ok (views, fin), u'') := by
      rw [bind_of_ok (htimes.trans hviews), bind_of_ok hrest]
      rfl
    exact congrArg Prod.fst hrun
  · rw [known_trim] at hsees
    exact hsees

end ExtGroupsUnpacker

/-! ## ext_groups_unpacker_guard -/

section Scope

variable {α : Type} {align : Bool} {n p : ℕ} {r fin : CbitRef} {bits rest : List Bool}

/-- a scope whose body takes no more than the field ends behind the field -/
theorem varlengthFieldUnpack_eq (left : CbitRef → ℕ) (body : Unpacker α)
    (h : Ahead r p (openBits align p bits ++ rest) fin)
    (hlen : (toBytes bits).length < asn16K) (hn : n ≤ 8 * (toBytes bits).length)
    (hbody : ∀ v : CbitRef, v.Valid → (body v).2 = v.skip n) : ∃ view, Shows align bits view ∧
      varlengthFieldUnpack left align body r = ((body view).1, r.skip (openBits align p bits).length) := by
  obtain ⟨r₁, hread, hvalid, hsmall, hfit, hshows, hadv⟩ := h.field hlen
  obtain ⟨hview, hit, hoff, -⟩ := hvalid.subview_spec hsmall hfit
  refine ⟨_, hshows, ?_⟩
  have hdist : ((r₁.subview 0 (toBytes bits).length).skip n).distance r₁ = n := by
    unfold distance skip pos
    rw [hit, hoff]
    push_cast
    omega
  unfold asn16K at hlen
  have hcheck : ¬(toBytes bits).length * 8 % 2 ^ 32 < ((n : ℤ) % 2 ^ 32).toNat := by omega
  refine (bind_of_ok (ignore_of_ok hread)).trans ?_
  simp only [hbody _ hview, hdist, if_neg hcheck, hadv]

end Scope

namespace ExtGroupsUnpackerGuard

variable {align aligned : Bool} {left : CbitRef → ℕ} {i n k p : ℕ} {used : ℕ → ℕ} {flags : List Bool}
  {gs : List ExtGroup} {r fin : CbitRef}

/-- from index `i` on the flags are those of the groups -/
def FlagsOf (flags : List Bool) (i : ℕ) (gs : List ExtGroup) : Prop :=
  ∀ j, flags.getD (i + j) false = (gs.getD j none).isSome

theorem FlagsOf.next {g : ExtGroup} (h : FlagsOf flags i (g :: gs)) : FlagsOf flags (i + 1) gs := by
  intro j
  have hj := h (j + 1)
  rwa [getD_cons_succ, show i + (j + 1) = i + 1 + j by omega] at hj

theorem FlagsOf.head {g : ExtGroup} (h : FlagsOf flags i (g :: gs)) : flags.getD i false = g.isSome := h 0

/-- groups that are not on the wire are not present -/
theorem FlagsOf.pad (h : FlagsOf flags i gs) (k : ℕ) : FlagsOf flags i (gs ++ replicate k none) := by
  intro j
  rw [h j, getD_eq_getElem?_getD, getD_eq_getElem?_getD, getElem?_append]
  split_ifs with hj
  · rfl
  · rw [getElem?_eq_none (not_lt.1 hj), getElem?_replicate]
    split_ifs <;> rfl

/-- an aligned field ends at an octet boundary -/
theorem openBits_end (p : ℕ) (bits : List Bool) : (p + (openBits true p bits).length) % 8 = 0 := by
  have hlen := length_end p (toBytes bits).length
  rw [openBits, length_append, length_bitsOf]
  omega

/-- the flags, the known groups, and the destructor -/
theorem decode_of {nof : ℕ} {views : List (Option CbitRef)} {r₁ r₂ r₃ : CbitRef}
    (hflags : unpack k r = (.ok (flags, nof), r₁)) (hknown : readKnown left align used flags k 0 r₁ = (.ok views, r₂))
    (hskip : skipUnknown left flags (nof - k) k r₂ = (.ok (), r₃)) : decode left align used k r = (.ok views, r₃) := by
  unfold decode
  rw [bind_of_ok hflags]
  dsimp only
  rw [bind_of_ok hknown, bind_of_ok hskip]
  rfl

/-- what the reading of `n` known groups leaves -/
structure Read (align : Bool) (gs : List ExtGroup) (n p : ℕ) (r fin : CbitRef) (views : List (Option CbitRef))
    (r' : CbitRef) (p' : ℕ) : Prop where
  sees : List.Forall₂ (Sees align) views (gs.take n)
  next : Ahead r' p' (groupBits align p' (gs.drop n)) fin
  octet : align = true → p % 8 = 0 ∨ (∃ bits, some bits ∈ gs.take n) → p' % 8 = 0

theorem readKnown_succ {view : Option CbitRef} {views : List (Option CbitRef)} {r₁ r₂ : CbitRef}
    (hview : (if flags.getD i false then varlengthFieldUnpack left align fun v => (.ok (some v), v.skip (used i))
      else pure none) r = (.ok view, r₁)) (hviews : readKnown left align used flags n (i + 1) r₁ = (.ok views, r₂)) :
    readKnown left align used flags (n + 1) i r = (.ok (view :: views), r₂) :=
  (bind_of_ok hview).trans ((bind_of_ok hviews).trans rfl)

/-- the known groups are seen; the decoder takes at most a group's octets in its scope -/
theorem readKnown_eq (hn : n ≤ gs.length) (hflags : FlagsOf flags i gs) (hr : GroupsAhead align r p gs fin)
    (hused : ∀ j bits, gs[j]? = some (some bits) → used (i + j) ≤ 8 * (toBytes bits).length) :
    ∃ views r' p', readKnown left align used flags n i r = (.ok views, r') ∧ Read align gs n p r fin views r' p' := by
  induction n generalizing i gs r p with
  | zero =>
    refine ⟨[], r, p, rfl, ⟨nil, hr.ahead, fun _ h => h.resolve_right ?_⟩⟩
    rintro ⟨bits, hbits⟩
    cases hbits
  | succ n ih =>
    obtain ⟨g, gs, rfl⟩ := exists_cons_of_length_pos (zero_lt_of_lt hn)
    have hn' : n ≤ gs.length := le_of_succ_le_succ hn
    have hused' (j : ℕ) (bits : List Bool) (hj : gs[j]? = some (some bits)) : used (i + 1 + j) ≤
      8 * (toBytes bits).length := by
      rw [show i + 1 + j = i + (j + 1) by omega]
      exact hused (j + 1) bits hj
    have hhead := hflags.head
    cases g with
    | none =>
      obtain ⟨views, r', p', hread, hres⟩ := ih hn' hflags.next hr.absent hused'
      refine ⟨none :: views, r', p', readKnown_succ (by rw [hhead]; rfl) hread,
        ⟨cons Sees.absent hres.sees, hres.next, fun ha h => ?_⟩⟩
      refine hres.octet ha (h.imp_right ?_)
      rintro ⟨bits, hbits⟩
      rw [take_succ_cons, mem_cons] at hbits
      exact ⟨bits, hbits.resolve_left (Option.some_ne_none bits)⟩
    | some bits =>
      obtain ⟨view, hshows, hscope⟩ := varlengthFieldUnpack_eq left (fun v => (.ok (some v), v.skip (used i))) hr.ahead
        (hr.short bits mem_cons_self) (hused 0 bits rfl) fun _ _ => rfl
      obtain ⟨views, r', p', hread, hres⟩ := ih hn' hflags.next hr.present hused'
      refine ⟨some view :: views, r', p', readKnown_succ (by rw [hhead]; exact hscope) hread,
        ⟨cons (Sees.present hshows) hres.sees, hres.next, fun ha _ => hres.octet ha (.inl ?_)⟩⟩
      rw [ha]
      exact openBits_end p bits

/-- unknown groups without alignment are skipped -/
theorem skipUnknown_eq (hflags : FlagsOf flags i gs) (hr : GroupsAhead false r p gs fin) :
    skipUnknown left flags gs.length i r = (.ok (), fin) := by
  induction gs generalizing i r p with
  | nil =>
    rw [← hr.ahead.eq_fin]
    rfl
  | cons g gs ih =>
    show (when _ _ >>= fun _ => _) r = _
    rw [hflags.head]
    cases g with
    | none => exact (bind_of_ok rfl).trans (ih hflags.next hr.absent)
    | some bits =>
      obtain ⟨_, -, hscope⟩ := varlengthFieldUnpack_eq left (pure ()) hr.ahead (hr.short bits mem_cons_self)
        (zero_le _) fun v hv => (skip_zero hv).symm
      exact (bind_of_ok hscope).trans (ih hflags.next hr.present)

theorem FlagsOf.drop (h : FlagsOf flags i gs) (n : ℕ) : FlagsOf flags (i + n) (gs.drop n) := by
  intro j
  have hj := h (n + j)
  rw [← add_assoc] at hj
  rw [hj, getD_eq_getElem?_getD, getD_eq_getElem?_getD, getElem?_drop]

theorem flagsOf_trim (k : ℕ) (gs : List ExtGroup) :
    FlagsOf ((trim gs).map Option.isSome ++ replicate k false) 0 (trim gs) := by
  intro j
  rw [zero_add, getD_eq_getElem?_getD, getD_eq_getElem?_getD]
  by_cases hj : j < (trim gs).length
  · rw [getElem?_append_left (by rwa [length_map]), getElem?_map, getElem?_eq_getElem hj]
    rfl
  · rw [getElem?_eq_none (not_lt.1 hj), getElem?_append_right (by rw [length_map]; omega)]
    rw [getElem?_replicate]
    split_ifs <;> rfl

theorem unpack_eq (h : ExtGroup.Writable gs) (hr : Ahead r p (extBits aligned p gs) fin) :
    unpack k r = (.ok ((trim gs).map Option.isSome ++ replicate (k - nofGroups gs) false, nofGroups gs),
      r.skip (7 + nofGroups gs)) := by
  have hpos := h.nofGroups_pos
  have hle := (nofGroups_le gs).trans h.few
  have hmod : (nofGroups gs - 1 + 1) % 2 ^ 32 = nofGroups gs := by omega
  have hlen := length_flags gs
  have hflags (q : ℕ) : Reads (times unpackBool (nofGroups gs)) q ((trim gs).map Option.isSome)
      ((trim gs).map Option.isSome) := by
    have htimes := times ((trim gs).map Option.isSome) (fun b _ q => unpackBool q b) q
    rwa [flatMap_singleton', hlen] at htimes
  rw [extBits_eq, ← append_assoc] at hr
  have hreads : Reads (unpack k) p (natBits 7 (nofGroups gs - 1) ++ (trim gs).map Option.isSome)
      ((trim gs).map Option.isSome ++ replicate (k - nofGroups gs) false, nofGroups gs) := by
    refine (unpackNormSmall (by omega) p).bind ?_
    simp only [hmod]
    exact (hflags _).bind_pure (g := fun flags => (flags ++ replicate (k - nofGroups gs) false, nofGroups gs))
  have hread := hr.reads hreads
  rwa [length_append, length_natBits, hlen] at hread

/-- at an octet boundary alignment does nothing -/
theorem groupBits_octet (h : p % 8 = 0) (gs : List ExtGroup) : groupBits true p gs = groupBits false p gs := by
  induction gs generalizing p with
  | nil => rfl
  | cons g gs ih =>
    cases g with
    | none => exact ih h
    | some bits =>
      have hopen : openBits true p bits = openBits false p bits := by
        have hpad : alignment true p = [] := by
          show replicate (BitRef.padding p) false = []
          rw [show BitRef.padding p = 0 by unfold BitRef.padding; omega]
          rfl
        unfold openBits
        rw [hpad]
        rfl
      show openBits true p bits ++ _ = openBits false p bits ++ _
      rw [ih (openBits_end p bits), hopen]

/-- where a decoder of `k` groups is right about the groups behind them -/
def SkipsRight (aligned : Bool) (gs : List ExtGroup) (k p : ℕ) : Prop :=
  aligned = false ∨ (∃ bits, some bits ∈ gs.take k) ∨ (∀ g ∈ gs.drop k, g = none) ∨ (p + 7 + nofGroups gs) % 8 = 0

theorem mem_trim_take {bits : List Bool} (h : some bits ∈ gs.take k) : some bits ∈ (trim gs).take k := by
  rw [← trim_append gs, take_append, mem_append] at h
  refine h.resolve_right fun hmem => ?_
  cases eq_none_of_mem_drop (mem_of_mem_take hmem)

theorem decode_of_skipsRight (h : ExtGroup.Writable gs) (hr : Ahead r p (extBits aligned p gs) fin)
    (hused : ∀ i bits, gs[i]? = some (some bits) → used i ≤ 8 * (toBytes bits).length)
    (hskip : SkipsRight aligned gs k p) :
    ∃ views, decode left aligned used k r = (.ok views, fin) ∧ List.Forall₂ (Sees aligned) views (known k gs) := by
  have hunpack := @unpack_eq aligned k p gs r fin h hr
  obtain ⟨hnext, hshort⟩ := groupsAhead_of_extBits h hr
  have hflags := flagsOf_trim (k - nofGroups gs) gs
  have hnone (g : ExtGroup) (n : ℕ) (hg : g ∈ (replicate k none).drop n) : g = none :=
    eq_of_mem_replicate (mem_of_mem_drop hg)
  have hused' (j : ℕ) (bits : List Bool) (hj : (trim gs ++ replicate k none)[j]? = some (some bits)) :
      used (0 + j) ≤ 8 * (toBytes bits).length := by
    rw [getElem?_append, trim, getElem?_take, getElem?_replicate] at hj
    rw [zero_add]
    split_ifs at hj
    · exact hused j bits hj
    · cases hj
  rw [← append_nil (groupBits _ _ (trim gs)), ← groupBits_of_none aligned _ fun g hg => hnone g 0 hg,
    ← groupBits_append] at hnext
  obtain ⟨views, r', p', hread, hres⟩ := @readKnown_eq aligned left 0 k _ used _ _ _ fin (by simp) (hflags.pad k)
    ⟨hnext, fun bits hbits => hshort bits ((mem_append.1 hbits).resolve_right fun hmem => by cases hnone _ 0 hmem)⟩
    hused'
  have hunknown : groupBits aligned p' ((trim gs).drop k) = groupBits false p' ((trim gs).drop k) := by
    cases aligned with
    | false => rfl
    | true =>
      obtain hfalse | hpresent | hnone | hoctet := hskip
      · cases hfalse
      · obtain ⟨bits, hbits⟩ := hpresent
        refine groupBits_octet (hres.octet rfl (.inr ⟨bits, ?_⟩)) _
        rw [take_append]
        exact mem_append_left _ (mem_trim_take hbits)
      · have htrim : ∀ g ∈ (trim gs).drop k, g = none := by
          intro g hg
          refine hnone g ?_
          conv => arg 1; rw [← trim_append gs, drop_append]
          exact mem_append_left _ hg
        rw [groupBits_of_none _ _ htrim, groupBits_of_none _ _ htrim]
      · exact groupBits_octet (hres.octet rfl (.inl hoctet)) _
  have hrest := hres.next
  rw [drop_append, groupBits_append, groupBits_of_none _ _ fun g hg => hnone g _ hg, append_nil, hunknown] at hrest
  have hdrop : ((trim gs).drop k).length = nofGroups gs - k := by rw [length_drop, length_trim]
  have hskipped := @skipUnknown_eq left (0 + k) p' _ _ r' fin (hflags.drop k)
    ⟨hrest, fun bits hbits => hshort bits (mem_of_mem_drop hbits)⟩
  rw [hdrop, zero_add] at hskipped
  refine ⟨views, decode_of hunpack hread hskipped, ?_⟩
  rw [← known_trim]
  exact hres.sees

/-- every decoder of `k` groups, whatever its scopes take of a group, sees them and goes on behind these bits -/
def Decodes (aligned : Bool) (gs : List ExtGroup) (k p : ℕ) (bits : List Bool) : Prop :=
  ∀ (r fin : CbitRef) (left : CbitRef → ℕ) (used : ℕ → ℕ), Ahead r p bits fin → (∀ r', left r' < 2 ^ 32) →
    (∀ i group, gs[i]? = some (some group) → used i ≤ 8 * (toBytes group).length) →
      ∃ views, decode left aligned used k r = (.ok views, fin) ∧ List.Forall₂ (Sees aligned) views (known k gs)

end ExtGroupsUnpackerGuard

/-- the same of ext_groups_unpacker -/
def ExtGroupsUnpacker.Decodes (aligned : Bool) (gs : List ExtGroup) (k p : ℕ) (bits : List Bool) : Prop :=
  ∀ r fin : CbitRef, Ahead r p bits fin →
    ∃ views, decode aligned k r = .ok (views, fin) ∧ List.Forall₂ (Sees aligned) views (known k gs)

/-- extension groups are forward compatible with ext_groups_unpacker; with the guard where its destructor skips right -/
theorem forward_compatible (h : ExtGroup.Writable gs) (aligned : Bool) (k : ℕ) (pre : List Bool) :
    ∃ bits, packExtGroups aligned gs (BitRef.ofBits pre) = (.ok (), BitRef.ofBits (pre ++ bits)) ∧
      (1 ≤ k → ExtGroupsUnpacker.Decodes aligned gs k pre.length bits) ∧
      (ExtGroupsUnpackerGuard.SkipsRight aligned gs k pre.length →
        ExtGroupsUnpackerGuard.Decodes aligned gs k pre.length bits) := by
  refine ⟨extBits aligned pre.length gs, Writes.packExtGroups h aligned pre.length pre rfl, ?_, ?_⟩
  · intro hk r fin hr
    exact decode_eq h hk hr
  · intro hskip r fin left used hr _ hused
    exact ExtGroupsUnpackerGuard.decode_of_skipsRight h hr hused hskip

/-- a second group that a decoder of the first one skips, since the first one is there -/
theorem forward_compatible_two_present :
    ExtGroup.Writable [some [true], some [true, true]] ∧
      ExtGroupsUnpackerGuard.SkipsRight true [some [true], some [true, true]] 1 0 ∧
      ∃ bits, packExtGroups true [some [true], some [true, true]] (BitRef.ofBits []) =
          (.ok (), BitRef.ofBits ([] ++ bits)) ∧
        ExtGroupsUnpacker.Decodes true [some [true], some [true, true]] 1 0 bits ∧
        ExtGroupsUnpackerGuard.Decodes true [some [true], some [true, true]] 1 0 bits := by
  have h : ExtGroup.Writable [some [true], some [true, true]] := by
    refine ⟨⟨[true], by decide⟩, by decide, fun bits hbits => ?_⟩
    simp only [mem_cons, Option.some.injEq, not_mem_nil, or_false] at hbits
    obtain rfl | rfl := hbits <;> decide
  have hskip : ExtGroupsUnpackerGuard.SkipsRight true [some [true], some [true, true]] 1 0 :=
    .inr (.inl ⟨[true], by decide⟩)
  obtain ⟨bits, hpack, hunpacker, hguard⟩ := forward_compatible h true 1 []
  exact ⟨h, hskip, bits, hpack, hunpacker le_rfl, hguard hskip⟩

/-- a message of two groups, the second present; behind it an octet of something else. A decoder of one group that uses
the guard goes on inside the second one -/
theorem guard_skips_wrong :
    packExtGroups true [none, some [true, true]] (BitRef.ofBits []) = (.ok (), ⟨[0x02, 0x80, 0x01, 0xc0], 0⟩) ∧
      ExtGroupsUnpacker.decode true 1 (CbitRef.ofBuffer [0x02, 0x80, 0x01, 0xc0, 0xaa]) =
        .ok ([none], { CbitRef.ofBuffer [0x02, 0x80, 0x01, 0xc0, 0xaa] with it := 4, offset := 0 }) ∧
      ExtGroupsUnpackerGuard.decode (fun _ => 0) true (fun _ => 0) 1
          (CbitRef.ofBuffer [0x02, 0x80, 0x01, 0xc0, 0xaa]) =
        (.ok [none], { CbitRef.ofBuffer [0x02, 0x80, 0x01, 0xc0, 0xaa] with it := 2, offset := 1 }) := by
  decide +kernel

/-- the destructor may also end at the right place without reason: here the length that it reads first has both marker
bits set and is 0 -/
example : ExtGroupsUnpackerGuard.decode (fun _ => 0) true (fun _ => 0) 1
    (CbitRef.ofBuffer [0x0c, 0x1c, 0x03, 0x06, 0xaa, 0xbb, 0x01, 0x11, 0x01, 0x22]) =
      (.ok [none], { CbitRef.ofBuffer [0x0c, 0x1c, 0x03, 0x06, 0xaa, 0xbb, 0x01, 0x11, 0x01, 0x22] with it := 10
      }) := by
  decide +kernel

end OcuduRan.Asn1
