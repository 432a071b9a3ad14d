/-
The two queues of the AM transmitter.

  SDU queue    rlc_sdu_queue_lockfree.h: SDUs from upper layers in order of arrival. An SDU with a PDCP SN occupies the
               slot pdcp_sn % capacity until it is popped; discarding it only marks it, so that it stays in the queue
               (and keeps its slot) while no longer counting towards the number of SDUs and bytes.
  RETX queue   rlc_retx_queue.h: pieces of SDUs to be sent again, with cached totals that every push, pop and
               replacement of the front updates. Invalidating elements by SN is not used by the entity.

The PDCP SN of an SDU is read from its first bytes (ran/pdcp/pdcp_sn_util.h); control PDUs have none.
-/
import OcuduRan.Rlc.AmPdu

namespace OcuduRan.Rlc

/-! ## PDCP SN of an SDU -/

inductive PdcpSnSize where
  | size12bits
  | size18bits
deriving DecidableEq, Repr

/-- mask selecting the low SN bits -/
def PdcpSnSize.mask : PdcpSnSize → ℕ
  | .size12bits => 2 ^ 12 - 1
  | .size18bits => 2 ^ 18 - 1

def getPdcpSn (pdcpPdu : Bytes) (pdcpSnLen : PdcpSnSize) (isSrb : Bool) : Option ℕ :=
  match pdcpPdu with
  | [] => none
  | b0 :: r =>
    if isSrb && pdcpSnLen ≠ .size12bits then none
    else
      let dcField := b0.toNat >>> 7
      if !isSrb && dcField = 0 then none
      else if isSrb && dcField = 1 then none
      else
        match pdcpSnLen, r with
        | .size12bits, b1 :: _ =>
          let reserved := b0.toNat >>> 4 &&& 0x07
          if reserved ≠ 0 then none else some ((b0.toNat &&& 0x0f) <<< 8 ||| b1.toNat)
        | .size18bits, b1 :: b2 :: _ =>
          let reserved := b0.toNat >>> 2 &&& 0x1f
          if reserved ≠ 0 then none else some ((b0.toNat &&& 0x03) <<< 16 ||| b1.toNat <<< 8 ||| b2.toNat)
        | _, _ => none

/-! ## SDU queue -/

structure RlcSdu where
  buf : Bytes
  isRetx : Bool
  pdcpSn : Option ℕ
deriving DecidableEq, Repr

structure QueuedSdu where
  sdu : RlcSdu
  discarded : Bool
deriving DecidableEq, Repr

structure RlcSduQueue where
  capacity : ℕ
  byteLimit : ℕ
  queue : List QueuedSdu
deriving DecidableEq, Repr

namespace RlcSduQueue

variable (q : RlcSduQueue)

/-- SDUs that are not marked as discarded -/
def valid : List RlcSdu := (q.queue.filter fun e => !e.discarded).map (·.sdu)

def nSdus : ℕ := q.valid.length

def nBytes : ℕ := (q.valid.map (·.buf.length)).sum

def isEmpty : Bool := q.queue.isEmpty

/-- whether some SDU of the queue, valid or discarded, holds the slot of this PDCP SN -/
def slotTaken (pdcpSn : ℕ) : Bool :=
  q.queue.any fun e => e.sdu.pdcpSn.any fun sn => sn % q.capacity = pdcpSn % q.capacity

def write (sdu : RlcSdu) : Bool × RlcSduQueue :=
  if sdu.buf.length + q.nBytes > q.byteLimit then (false, q)
  else if sdu.pdcpSn.any q.slotTaken then (false, q)
  else if q.queue.length ≥ q.capacity then (false, q)
  else (true, { q with queue := q.queue ++ [⟨sdu, false⟩] })

def tryDiscard (pdcpSn : ℕ) : Bool × RlcSduQueue :=
  if q.queue.any fun e => !e.discarded && e.sdu.pdcpSn = some pdcpSn then
    (true, { q with
      queue := q.queue.map fun e => if e.sdu.pdcpSn = some pdcpSn then { e with discarded := true } else e })
  else (false, q)

/-- pops discarded SDUs up to and including the first valid one -/
def read : Option RlcSdu × RlcSduQueue :=
  match q.queue.dropWhile (·.discarded) with
  | [] => (none, { q with queue := [] })
  | e :: rest => (some e.sdu, { q with queue := rest })

/-- looking at the front pops the discarded SDUs before it -/
def front : Option RlcSdu × RlcSduQueue :=
  let queue := q.queue.dropWhile (·.discarded)
  (queue.head?.map (·.sdu), { q with queue := queue })

end RlcSduQueue

/-! ## RETX queue -/

structure RlcTxAmdRetx where
  sn : ℕ
  so : ℕ
  length : ℕ
deriving DecidableEq, Repr

structure RlcRetxQueue where
  capacity : ℕ
  queue : List RlcTxAmdRetx
  retxBytes : ℕ
  nRetxSoZero : ℕ
  nRetxSoNonzero : ℕ
deriving DecidableEq, Repr

namespace RlcRetxQueue

def empty (capacity : ℕ) : RlcRetxQueue := ⟨capacity, [], 0, 0, 0⟩

variable (q : RlcRetxQueue)

def add (elem : RlcTxAmdRetx) : RlcRetxQueue :=
  { q with
    retxBytes := q.retxBytes + elem.length
    nRetxSoZero := if elem.so = 0 then q.nRetxSoZero + 1 else q.nRetxSoZero
    nRetxSoNonzero := if elem.so = 0 then q.nRetxSoNonzero else q.nRetxSoNonzero + 1 }

/-- totals saturate at zero -/
def subtract (elem : RlcTxAmdRetx) : RlcRetxQueue :=
  { q with
    retxBytes := q.retxBytes - elem.length
    nRetxSoZero := if elem.so = 0 then q.nRetxSoZero - 1 else q.nRetxSoZero
    nRetxSoNonzero := if elem.so = 0 then q.nRetxSoNonzero else q.nRetxSoNonzero - 1 }

def isEmpty : Bool := q.queue.isEmpty

def tryPush (retx : RlcTxAmdRetx) : Bool × RlcRetxQueue :=
  if q.queue.length ≥ q.capacity then (false, q)
  else (true, { q.add retx with queue := q.queue ++ [retx] })

def pop : RlcRetxQueue :=
  match q.queue with
  | [] => q
  | front :: rest => { q.subtract front with queue := rest }

def replaceFront (retx : RlcTxAmdRetx) : RlcRetxQueue :=
  match q.queue with
  | [] => q
  | front :: rest => { (q.subtract front).add retx with queue := retx :: rest }

/-- pops while the front satisfies `p` -/
def popWhile (p : RlcTxAmdRetx → Bool) : ℕ → RlcRetxQueue → RlcRetxQueue
  | 0, q => q
  | fuel + 1, q =>
    match q.queue with
    | [] => q
    | front :: _ => if p front then popWhile p fuel q.pop else q

@[simp] theorem pop_queue : q.pop.queue = q.queue.tail := by
  unfold pop
  cases h : q.queue with
  | nil => simp [h]
  | cons r rest => rfl

@[simp] theorem pop_capacity : q.pop.capacity = q.capacity := by
  unfold pop
  cases q.queue <;> rfl

theorem popWhile_queue (p : RlcTxAmdRetx → Bool) (fuel : ℕ) (q : RlcRetxQueue) (h : q.queue.length ≤ fuel) :
    (popWhile p fuel q).queue = q.queue.dropWhile p := by
  induction fuel generalizing q with
  | zero =>
    have : q.queue = [] := List.length_eq_zero_iff.1 (by omega)
    simp [popWhile, this]
  | succ fuel ih =>
    unfold popWhile
    cases hq : q.queue with
    | nil => simp [hq]
    | cons r rest =>
      have hlen : q.pop.queue.length ≤ fuel := by
        rw [pop_queue, hq]
        simpa [hq] using h
      cases hp : p r with
      | true => simp [hp, ih q.pop hlen, hq]
      | false => simp [hp, hq]

theorem tryPush_queue {q : RlcRetxQueue} {retx : RlcTxAmdRetx} :
    (q.tryPush retx).2.queue = if q.queue.length ≥ q.capacity then q.queue else q.queue ++ [retx] := by
  unfold tryPush
  split_ifs <;> rfl

theorem replaceFront_queue (retx : RlcTxAmdRetx) :
    (q.replaceFront retx).queue = if q.queue = [] then [] else retx :: q.queue.tail := by
  unfold replaceFront
  cases h : q.queue with
  | nil => simp [h]
  | cons r rest => simp

end RlcRetxQueue

end OcuduRan.Rlc
