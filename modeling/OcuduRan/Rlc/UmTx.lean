/-
The RLC UM transmitter (lib/rlc/rlc_tx_um_entity.cpp) as a machine of SDU arrivals, discards and MAC grants, and the
headers it can produce.

The entity keeps the SDU under transmission with the offset of its next byte and the SN of the next segmented SDU. A
pull of `grantLen` bytes loads an SDU if none is under transmission, decides the segmentation info from what fits,
writes the header and copies as much payload as is left of the grant. The offset is a 32-bit counter cut to the 16 bits
of the header field.

Results:
- `run_txNext_lt`: in every run the SN stays in its range, so every header of a run fits its field widths;
- `umHeader_codec_iff`: a header of any run is read back with its payload exactly if a middle or last segment has an
  offset different from 0 modulo 2^16 (and a complete SDU, whose SN is not sent, has SN 0), and the receiver strips
  exactly the parsed header of an accepted byte string exactly if SO is not 0 on a middle or last segment.
Witnesses:
- `umHeader_codec_segments`: the three segments of an SDU of 9 bytes in grants of 5, 6 and 6 bytes;
- `strips_too_little`: the last segment 81 00 00 aa has the payload aa, and the receiver stores 00 00 aa.
-/
import OcuduRan.Rlc.AmTx
import OcuduRan.Rlc.UmPdu

namespace OcuduRan.Rlc

open Machine

/-! ## Model -/

structure RlcTxUmConfig where
  snFieldLength : RlcUmSnSize
  pdcpSnLen : PdcpSnSize
  queueSize : ℕ
  queueSizeBytes : ℕ
deriving DecidableEq, Repr

def rlcUmPduHeaderSizeCompleteSdu : ℕ := 1

def rlcUmPduHeaderSizeNoSo : RlcUmSnSize → ℕ
  | .size6bits => 1
  | .size12bits => 2

def rlcUmPduHeaderSizeWithSo : RlcUmSnSize → ℕ
  | .size6bits => 3
  | .size12bits => 4

structure RlcTxUmEntity where
  txNext : ℕ
  /-- the SDU under transmission, empty if there is none -/
  sdu : Bytes
  nextSo : ℕ
  sduQueue : RlcSduQueue
deriving DecidableEq, Repr

namespace RlcTxUmEntity

variable (cfg : RlcTxUmConfig)

def init : RlcTxUmEntity := ⟨0, [], 0, ⟨cfg.queueSize, cfg.queueSizeBytes, []⟩⟩

section

variable (s : RlcTxUmEntity)

def handleSdu (buf : Bytes) : RlcTxUmEntity :=
  { s with sduQueue := (s.sduQueue.write ⟨buf, false, getPdcpSn buf cfg.pdcpSnLen false⟩).2 }

def discardSdu (pdcpSnStart blockSize : ℕ) : RlcTxUmEntity :=
  let mask := cfg.pdcpSnLen.mask
  if blockSize = 0 then s
  else if pdcpSnStart > mask then s
  -- the loop ends on reaching (start + block_size) & mask
  else { s with sduQueue := RlcTxAmEntity.discardLoop mask (blockSize % (mask + 1)) pdcpSnStart s.sduQueue }

/-- the segmentation info of the next PDU; `none` if the grant has no room for payload -/
def getSiAndExpectedHeaderSize (grantLen : ℕ) : Option RlcSiField :=
  if s.nextSo = 0 then
    if s.sdu.length ≤ grantLen - rlcUmPduHeaderSizeCompleteSdu then some .fullSdu
    else if grantLen ≤ rlcUmPduHeaderSizeNoSo cfg.snFieldLength then none
    else some .firstSegment
  else if grantLen ≤ rlcUmPduHeaderSizeWithSo cfg.snFieldLength then none
  else if s.sdu.length - s.nextSo ≤ grantLen - rlcUmPduHeaderSizeWithSo cfg.snFieldLength then some .lastSegment
  else some .middleSegment

/-- an SDU under transmission, a new one if there was none; `none` if the queue is empty -/
def loadSdu : Option RlcTxUmEntity × RlcTxUmEntity :=
  if s.sdu.isEmpty then
    match s.sduQueue.read with
    | (none, q) => (none, { s with sduQueue := q })
    | (some sdu, q) => (some { s with sdu := sdu.buf, sduQueue := q }, { s with sdu := sdu.buf, sduQueue := q })
  else (some s, s)

/-- the header of the next PDU with the given segmentation info -/
def nextHeader (si : RlcSiField) : RlcUmPduHeader :=
  ⟨si, cfg.snFieldLength, s.txNext, s.nextSo % 2 ^ 16⟩

/-- the payload behind a header: what is left of the SDU, or as much as the grant has room for -/
def nextPayload (header : RlcUmPduHeader) (grantLen : ℕ) : Bytes :=
  let space := grantLen - (rlcUmWriteDataPduHeader header).length
  let payloadLen := if space ≥ s.sdu.length - s.nextSo then s.sdu.length - s.nextSo else space
  (s.sdu.drop s.nextSo).take payloadLen

/-- releases the SDU behind its last byte, or moves on in it; the SN is used up by a segmented SDU -/
def advance (si : RlcSiField) (payloadLen : ℕ) : RlcTxUmEntity :=
  let s := if si = .fullSdu ∨ si = .lastSegment then { s with sdu := [], nextSo := 0 }
    else { s with nextSo := s.nextSo + payloadLen }
  if si = .lastSegment then { s with txNext := (s.txNext + 1) % cfg.snFieldLength.mod } else s

/-- the PDU written into the grant, as header and payload -/
def pullPdu (grantLen : ℕ) : Option (RlcUmPduHeader × Bytes) × RlcTxUmEntity :=
  if grantLen ≤ rlcUmPduHeaderSizeCompleteSdu then (none, s)
  else
    match s.loadSdu with
    | (none, s) => (none, s)
    | (some s, _) =>
      match s.getSiAndExpectedHeaderSize cfg grantLen with
      | none => (none, s)
      | some si =>
        let header := s.nextHeader cfg si
        let payload := s.nextPayload header grantLen
        if payload.length = 0 then (none, s)
        else (some (header, payload), s.advance cfg si payload.length)

inductive Op where
  | handleSdu (buf : Bytes)
  | discardSdu (pdcpSnStart blockSize : ℕ)
  | pullPdu (grantLen : ℕ)
deriving DecidableEq, Repr

def step : Op → RlcTxUmEntity
  | .handleSdu buf => s.handleSdu cfg buf
  | .discardSdu start block => s.discardSdu cfg start block
  | .pullPdu grantLen => (s.pullPdu cfg grantLen).2

/-! ## Headers of a run -/

end

variable {cfg} {s : RlcTxUmEntity}

theorem mod_pos : 0 < cfg.snFieldLength.mod := by cases cfg.snFieldLength <;> decide

theorem loadSdu_txNext : s.loadSdu.2.txNext = s.txNext ∧ ∀ t, s.loadSdu.1 = some t → t = s.loadSdu.2 := by
  unfold loadSdu
  split_ifs
  · split
    · exact ⟨rfl, fun t h => nomatch h⟩
    · exact ⟨rfl, fun t h => (Option.some.inj h).symm⟩
  · exact ⟨rfl, fun t h => (Option.some.inj h).symm⟩

theorem advance_txNext_lt {si : RlcSiField} {len : ℕ} (h : s.txNext < cfg.snFieldLength.mod) :
    (s.advance cfg si len).txNext < cfg.snFieldLength.mod := by
  unfold advance
  by_cases hlast : si = .lastSegment
  · simp only [hlast, if_true]
    exact Nat.mod_lt _ mod_pos
  · simp only [hlast, if_false, or_false]
    split_ifs <;> exact h

/-- what a pull returns and leaves: the header of the loaded state, if it returns a PDU -/
theorem pullPdu_cases (cfg : RlcTxUmConfig) (s : RlcTxUmEntity) (grantLen : ℕ) :
    ((s.pullPdu cfg grantLen).1 = none ∧ (s.pullPdu cfg grantLen).2.txNext = s.txNext) ∨
      ∃ (t : RlcTxUmEntity) (si : RlcSiField) (payload : Bytes), t.txNext = s.txNext ∧ t.getSiAndExpectedHeaderSize cfg
      grantLen = some si ∧
        s.pullPdu cfg grantLen = (some (t.nextHeader cfg si, payload), t.advance cfg si payload.length) := by
  obtain ⟨htx, hload⟩ := loadSdu_txNext (s := s)
  unfold pullPdu
  split_ifs
  · exact .inl ⟨rfl, rfl⟩
  · rcases hl : s.loadSdu with ⟨- | t, t'⟩
    · rw [hl] at htx
      exact .inl ⟨rfl, htx⟩
    · rw [hl] at htx hload
      obtain rfl := hload t rfl
      dsimp only at htx ⊢
      rcases hsi : t.getSiAndExpectedHeaderSize cfg grantLen with - | si
      · exact .inl ⟨rfl, htx⟩
      · dsimp only
        split_ifs
        · exact .inl ⟨rfl, htx⟩
        · exact .inr ⟨t, si, _, htx, hsi, rfl⟩

theorem step_txNext_lt (s : RlcTxUmEntity) (op : Op) (h : s.txNext < cfg.snFieldLength.mod) :
    (s.step cfg op).txNext < cfg.snFieldLength.mod := by
  cases op with
  | handleSdu buf => exact h
  | discardSdu start block =>
    simp only [step, discardSdu]
    split_ifs <;> exact h
  | pullPdu grantLen =>
    rcases pullPdu_cases cfg s grantLen with ⟨-, htx⟩ | ⟨t, si, payload, htx, -, heq⟩
    · simp only [step, htx]
      exact h
    · simp only [step, heq]
      exact advance_txNext_lt (htx ▸ h)

/-- the SN stays in its range in every run -/
theorem run_txNext_lt (cfg : RlcTxUmConfig) (ops : List Op) :
    (run (step cfg) (init cfg) ops).txNext < cfg.snFieldLength.mod :=
  run_inv_all step_txNext_lt _ ops mod_pos

/-- offsets belong to middle and last segments only -/
theorem nextHeader_fits {grantLen : ℕ} {si : RlcSiField} (h : s.txNext < cfg.snFieldLength.mod)
    (hsi : s.getSiAndExpectedHeaderSize cfg grantLen = some si) : (s.nextHeader cfg si).Fits := by
  refine ⟨h, Nat.mod_lt _ (by norm_num), ?_⟩
  unfold getSiAndExpectedHeaderSize at hsi
  split_ifs at hsi with h0 <;> cases hsi
  · intro _
    simp [nextHeader, h0]
  · intro _
    simp [nextHeader, h0]
  · intro hno
    exact nomatch hno
  · intro hno
    exact nomatch hno

/-- the header of a PDU pulled in any run fits its field widths -/
theorem pullPdu_header_fits {ops : List Op} {grantLen : ℕ} {h : RlcUmPduHeader} {payload : Bytes}
    (hpull : ((run (step cfg) (init cfg) ops).pullPdu cfg grantLen).1 = some (h, payload)) :
    h.Fits ∧ h.snSize = cfg.snFieldLength := by
  have hlt := run_txNext_lt cfg ops
  generalize run (step cfg) (init cfg) ops = s at hpull hlt
  rcases pullPdu_cases cfg s grantLen with ⟨hnone, -⟩ | ⟨t, si, p, htx, hsi, heq⟩
  · exact nomatch hnone.symm.trans hpull
  · rw [heq] at hpull
    obtain ⟨rfl, -⟩ := Prod.mk.inj (Option.some.inj hpull)
    exact ⟨nextHeader_fits (htx ▸ hlt) hsi, rfl⟩

end RlcTxUmEntity

open RlcTxUmEntity in
/-- the headers the transmitter produces are read back, and the receiver strips what the reader parsed, exactly where a
middle or last segment carries an offset different from 0 -/
theorem umHeader_codec_iff (cfg : RlcTxUmConfig) :
    (∀ (ops : List Op) (grantLen : ℕ) (h : RlcUmPduHeader) (payload : Bytes),
      ((Machine.run (step cfg) (init cfg) ops).pullPdu cfg grantLen).1 = some (h, payload) →
        (rlcUmReadDataPduHeader cfg.snFieldLength (rlcUmWriteDataPduHeader h ++ payload) = some (h, payload) ↔
          h.SoSet ∧ (h.si = .fullSdu → h.sn = 0))) ∧
    (∀ (pdu rest : Bytes) (h : RlcUmPduHeader), rlcUmReadDataPduHeader cfg.snFieldLength pdu = some (h, rest) →
      ((rlcUmNrPackedLength h + rest.length = pdu.length ∧
        ∀ payload, stripHeader cfg.snFieldLength pdu = some (h, payload) → payload = rest) ↔ h.SoSet)) := by
  refine ⟨fun ops grantLen h payload hpull => ?_, fun pdu rest h hread => ?_⟩
  · obtain ⟨hfits, hn⟩ := pullPdu_header_fits hpull
    rw [← hn]
    exact read_write_iff hfits payload
  · obtain ⟨hfits, -, hrest, hlen⟩ := readDataPduHeader_parsed hread
    rw [← packedLength_iff hfits]
    constructor
    · rintro ⟨hpacked, -⟩
      omega
    · intro heq
      refine ⟨heq ▸ hlen, fun payload hstrip => ?_⟩
      rw [stripHeader_payload hread hstrip, heq, hrest]

open RlcTxUmEntity in
theorem umHeader_codec_segments :
    let cfg : RlcTxUmConfig := ⟨.size6bits, .size12bits, 8, 1000⟩
    let h : RlcUmPduHeader := ⟨.lastSegment, .size6bits, 0, 7⟩
    ((Machine.run (step cfg) (init cfg)
        [.handleSdu [0x80, 1, 2, 3, 4, 5, 6, 7, 8], .pullPdu 5, .pullPdu 6]).pullPdu cfg 6).1 = some (h, [7, 8]) ∧
      rlcUmReadDataPduHeader .size6bits (rlcUmWriteDataPduHeader h ++ [7, 8]) = some (h, [7, 8]) := by
  intro cfg h
  have hpull : ((run (step cfg) (init cfg)
      [.handleSdu [0x80, 1, 2, 3, 4, 5, 6, 7, 8], .pullPdu 5, .pullPdu 6]).pullPdu cfg 6).1 = some (h, [7, 8]) := by
    decide
  exact ⟨hpull, ((umHeader_codec_iff cfg).1 _ 6 h [7, 8] hpull).2 ⟨by decide, by decide⟩⟩

theorem strips_too_little :
    rlcUmReadDataPduHeader .size6bits [0x81, 0x00, 0x00, 0xaa] = some (⟨.lastSegment, .size6bits, 1, 0⟩, [0xaa]) ∧
      stripHeader .size6bits [0x81, 0x00, 0x00, 0xaa] =
      some (⟨.lastSegment, .size6bits, 1, 0⟩, [0x00, 0x00, 0xaa]) := by
  decide

end OcuduRan.Rlc
