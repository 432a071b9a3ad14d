/-
Headers of PDCP PDUs, and the security interface of an entity (lib/pdcp/pdcp_pdu.h, security/security.h,
lib/security/security_engine_impl.cpp).

A data PDU starts with two or three bytes that hold the SN below a D/C bit, which SRBs leave zero; a control PDU starts
with one byte of D/C bit and type. The security engine appends a MAC-I and ciphers everything behind the header; the
algorithms themselves are parameters, functions of key, COUNT, bearer, direction and message.
-/
import OcuduRan.Core.BitStream
import OcuduRan.Pdcp.Count

namespace OcuduRan.Pdcp

open Rlc (Bytes PdcpSnSize)

/-- largest control PDU, TS 38.323 section 4.3.1 -/
def pdcpControlPduMaxSize : ℕ := 9000

inductive PdcpControlPduType where
  | statusReport
  | interspersedRohcFeedback
  | ehcFeedback
  | udcFeedback
deriving DecidableEq, Repr

def PdcpControlPduType.toNumber : PdcpControlPduType → ℕ
  | statusReport => 0
  | interspersedRohcFeedback => 1
  | ehcFeedback => 2
  | udcFeedback => 3

/-- D/C field: 0 control, 1 data -/
def pdcpPduGetDc (firstByte : UInt8) : ℕ := (firstByte.toNat >>> 7) &&& 0x01

def pdcpControlPduGetCpt (firstByte : UInt8) : ℕ := (firstByte.toNat >>> 4) &&& 0x07

inductive RohcType where
  | rohc
  | uplinkOnlyRohc
deriving DecidableEq, Repr

/-! ## Data PDU header -/

/-- `prepend_data_pdu_header` once room for the header was reserved -/
def prependDataPduHeader (rbType : PdcpRbType) (n : PdcpSnSize) (sn : ℕ) (buf : Bytes) : Bytes :=
  let dc := if rbType = .srb then 0x00 else 0x80
  match n with
  | .size12bits => UInt8.ofNat (dc ||| (sn &&& 0xf00) >>> 8) :: UInt8.ofNat (sn &&& 0xff) :: buf
  | .size18bits => UInt8.ofNat (dc ||| (sn &&& 0x30000) >>> 16) :: UInt8.ofNat ((sn &&& 0xff00) >>> 8) ::
      UInt8.ofNat (sn &&& 0xff) :: buf

/-- `read_data_pdu_header`: the SN, if there is a byte behind the header -/
def readDataPduHeader (n : PdcpSnSize) (buf : Bytes) : Option ℕ :=
  if buf.length ≤ n.dataPduHeaderSize then none
  else
    match n, buf with
    | .size12bits, b0 :: b1 :: _ => some ((b0.toNat &&& 0x0f) <<< 8 ||| b1.toNat &&& 0xff)
    | .size18bits, b0 :: b1 :: b2 :: _ =>
        some ((b0.toNat &&& 0x03) <<< 16 ||| (b1.toNat &&& 0xff) <<< 8 ||| b2.toNat &&& 0xff)
    | _, _ => none

/-! ## Security -/

inductive CipheringAlgorithm where
  | nea0
  | nea1
  | nea2
  | nea3
deriving DecidableEq, Repr

inductive IntegrityAlgorithm where
  | nia0
  | nia1
  | nia2
  | nia3
deriving DecidableEq, Repr

inductive IntegrityEnabled where
  | off
  | on
  | smcTransition
deriving DecidableEq, Repr

/-- a 128-bit key -/
abbrev Sec128Key := BitVec 128

structure Sec128AsConfig where
  k128Int : Option Sec128Key
  k128Enc : Sec128Key
  integAlgo : Option IntegrityAlgorithm
  cipherAlgo : CipheringAlgorithm
deriving DecidableEq, Repr

/-- what a key stream depends on -/
structure SecurityContext where
  key : Sec128Key
  count : ℕ
  bearer : ℕ
  direction : PdcpSecurityDirection
deriving DecidableEq, Repr

/-- the algorithms of a security engine: MAC-I over a message, and ciphering of a message -/
structure SecurityAlgorithms where
  integrity : IntegrityAlgorithm → SecurityContext → Bytes → Bytes
  ciphering : CipheringAlgorithm → SecurityContext → Bytes → Bytes

inductive SecurityStatus where
  | success
  | successUnprotected
  | integrityFailure
  | cipheringFailure
  | bufferFailure
  | engineFailure
deriving DecidableEq, Repr

def SecurityStatus.isSuccess : SecurityStatus → Bool
  | success | successUnprotected => true
  | _ => false

/-- length of a MAC-I -/
def secMacLen : ℕ := 4

end OcuduRan.Pdcp
