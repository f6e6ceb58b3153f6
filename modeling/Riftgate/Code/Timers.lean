import Mathlib.Data.Prod.Lex
import Mathlib.Data.Finset.Card
import Riftgate.Lib.Heap
import Riftgate.Lib.Table

/-!
# The timers of a shard

`timers.rs`. An instant is a number of nanoseconds. A callback is a value, and `tick` returns those it calls, in
their order.
-/

namespace Riftgate.Timers

/-- `Reverse((deadline, id))`: the first in time is on top of the heap. -/
structure Entry where
  deadline : ℕ
  id : UInt64
deriving DecidableEq, Repr

def Entry.key (e : Entry) : ℕ ×ₗ ℕ := toLex (e.deadline, e.id.toNat)

theorem Entry.key_injective : Function.Injective Entry.key := by
  rintro ⟨d, i⟩ ⟨d', i'⟩ h
  simp only [Entry.key, EmbeddingLike.apply_eq_iff_eq, Prod.mk.injEq] at h
  obtain ⟨rfl, hid⟩ := h
  rw [UInt64.toNat_inj.mp hid]

instance : LinearOrder Entry := LinearOrder.lift' Entry.key Entry.key_injective

theorem Entry.le_iff (e e' : Entry) :
    e ≤ e' ↔ e.deadline < e'.deadline ∨ e.deadline = e'.deadline ∧ e.id.toNat ≤ e'.id.toNat :=
  Prod.Lex.toLex_le_toLex

structure BinaryHeapTimers (κ : Type) where
  heap : Array Entry
  callbacks : Lib.Table UInt64 κ
  cancelled : Finset UInt64
  nextId : UInt64
  /-- `(live as f32 * self.compaction_ratio) as usize`. -/
  threshold : ℕ → ℕ

namespace BinaryHeapTimers

variable {κ : Type}

def withCompaction (threshold : ℕ → ℕ) : BinaryHeapTimers κ := ⟨#[], ∅, ∅, 1, threshold⟩

def compact (s : BinaryHeapTimers κ) : BinaryHeapTimers κ :=
  let kept := (Lib.Heap.popAll s.heap.size s.heap).filter fun e => e.id ∉ s.cancelled
  { s with heap := Lib.Heap.rebuild kept.toArray, cancelled := ∅ }

def maybeCompact (s : BinaryHeapTimers κ) : BinaryHeapTimers κ :=
  if s.heap.size = 0 then s
  else if s.threshold s.heap.size < s.cancelled.card then s.compact
  else s

def schedule (s : BinaryHeapTimers κ) (deadline : ℕ) (onFire : κ) : UInt64 × BinaryHeapTimers κ :=
  (s.nextId,
    { s with
      nextId := s.nextId + 1
      heap := Lib.Heap.push s.heap ⟨deadline, s.nextId⟩
      callbacks := s.callbacks.insert s.nextId onFire })

def cancel (s : BinaryHeapTimers κ) (handle : UInt64) : Bool × BinaryHeapTimers κ :=
  if (s.callbacks.lookup handle).isSome then
    (true, maybeCompact
      { s with callbacks := s.callbacks.erase handle, cancelled := insert handle s.cancelled })
  else (false, s)

/-- One pass of the loop of `tick` takes the entry on top, if it is due. -/
def tickLoop (now : ℕ) : ℕ → BinaryHeapTimers κ → List (Entry × κ) × BinaryHeapTimers κ
  | 0, s => ([], s)
  | fuel + 1, s =>
    match s.heap[0]?, Lib.Heap.pop s.heap with
    | some e, some (_, heap) =>
      if now < e.deadline then ([], s)
      else if e.id ∈ s.cancelled then
        tickLoop now fuel { s with heap := heap, cancelled := s.cancelled.erase e.id }
      else
        match s.callbacks.lookup e.id with
        | none => tickLoop now fuel { s with heap := heap }
        | some k =>
          let next := tickLoop now fuel { s with heap := heap, callbacks := s.callbacks.erase e.id }
          ((e, k) :: next.1, next.2)
    | _, _ => ([], s)

/-- Each pass takes one entry from the heap. -/
def tick (s : BinaryHeapTimers κ) (now : ℕ) : List (Entry × κ) × BinaryHeapTimers κ :=
  tickLoop now s.heap.size s

def len (s : BinaryHeapTimers κ) : ℕ := s.callbacks.keys.length

/-- The walk follows the array of the heap. -/
def nextDeadline (s : BinaryHeapTimers κ) : Option ℕ :=
  (s.heap.toList.find? fun e => e.id ∉ s.cancelled).map Entry.deadline

end BinaryHeapTimers

end Riftgate.Timers
