/-
SEQUENCE OF and bounded OCTET STRING of the PER decoder (asn1_utils.h, asn1_utils.cpp). Sizes are uint32_t.
-/
import OcuduRan.Asn1.WholeNumber

namespace OcuduRan.Asn1

open BitStream

/-! ## SEQUENCE OF -/

def unpackDynSeqOf {α : Type} (item : Unpacker α) (lb ub : ℕ) (aligned : Bool) : Unpacker (List α) := do
  let nofItems ← unpackLengthBounded .uint32 lb ub aligned
  Coded.times item nofItems.toNat

theorem length_of_times_ok {α : Type} {item : Unpacker α} {r r' : CbitRef} {n : ℕ} {items : List α}
    (hok : Coded.times item n r = (.ok items, r')) : items.length = n := by
  induction n generalizing r r' items with
  | zero =>
    obtain rfl := Except.ok.inj (Prod.mk.inj hok).1
    rfl
  | succ n ih =>
    obtain ⟨a, r₁, -, hok⟩ := Coded.bind_eq_ok.1 hok
    obtain ⟨as, r₂, h₂, hok⟩ := Coded.bind_eq_ok.1 hok
    obtain rfl := Except.ok.inj (Prod.mk.inj hok).1
    rw [List.length_cons, ih h₂]

/-! ## OCTET STRING -/

def unpackOctet : Unpacker UInt8 := do
  let val ← CbitRef.unpack 8 8
  pure (UInt8.ofNat val)

namespace BoundedOctstring

def unpack (lb ub : ℕ) (aligned : Bool) : Unpacker (List UInt8) := do
  let len ← unpackLengthBounded .uint32 lb ub aligned
  Coded.when aligned CbitRef.alignBytes
  Coded.times unpackOctet len.toNat

end BoundedOctstring

end OcuduRan.Asn1
