/-
A byte_buffer_reader: a pair of iterators into a byte string. The bytes are given by a function on positions, so that a
read outside of the string has a value like any other; `reads` records the positions that were read.
-/
import Mathlib.Tactic

namespace OcuduRan

/-- positions [first, stop) of a byte string, a byte_buffer_view -/
structure ByteView where
  first : ℕ
  stop : ℕ
deriving DecidableEq, Repr

structure ByteReader where
  pos : ℕ
  stop : ℕ
  reads : List ℕ := []
deriving DecidableEq, Repr

namespace ByteReader

def ofView (v : ByteView) : ByteReader := ⟨v.first, v.stop, []⟩

/-- it_end - it as a size_t: huge when the reader is beyond its end -/
def length (r : ByteReader) : ℕ := if r.pos ≤ r.stop then r.stop - r.pos else 2 ^ 64 - (r.pos - r.stop)

def empty (r : ByteReader) : Bool := decide (r.pos = r.stop)

/-- the byte at the reader, which moves on -/
def next (mem : ℕ → UInt8) (r : ByteReader) : UInt8 × ByteReader :=
  (mem r.pos, { r with pos := r.pos + 1, reads := r.reads ++ [r.pos] })

/-- split_and_advance -/
def splitAndAdvance (r : ByteReader) (n : ℕ) : ByteView × ByteReader :=
  (⟨r.pos, r.pos + n⟩, { r with pos := r.pos + n })

/-- inside its string, with every read so far inside [lo, stop) -/
structure Within (lo : ℕ) (r : ByteReader) : Prop where
  le : r.pos ≤ r.stop
  reads : ∀ i ∈ r.reads, lo ≤ i ∧ i < r.stop

variable {lo : ℕ} {r : ByteReader}

theorem Within.length_eq (h : Within lo r) : r.length = r.stop - r.pos := if_pos h.le

theorem Within.next (h : Within lo r) (mem : ℕ → UInt8) (hlo : lo ≤ r.pos) (hlt : r.pos < r.stop) :
    Within lo (r.next mem).2 := by
  refine ⟨hlt, fun i hi => ?_⟩
  rcases List.mem_append.1 hi with hi | hi
  · exact h.reads i hi
  · rw [List.mem_singleton.1 hi]
    exact ⟨hlo, hlt⟩

theorem Within.moved (h : Within lo r) {pos : ℕ} (hpos : pos ≤ r.stop) : Within lo { r with pos := pos } :=
  ⟨hpos, h.reads⟩

end ByteReader

end OcuduRan
