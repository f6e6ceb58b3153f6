import Mathlib.Data.List.Induction
import Riftgate.Code.Frame

/-!
# The shards of the WAL: `riftgate-replay/src/file_wal.rs`

What `open`, `append` and `do_flush` do to one shard: its segment files, the `BufWriter` over
the last of them, and its bookkeeping. Each operation is a function on `ShardState`, and runs
under the mutex of the shard. Who calls it when is in `Code/FileWalThreads.lean`.

The disk can fail. A failed write says how many bytes reached the file first. When a write
succeeds, `BufWriter` decides how much of its buffer goes to the file, and that is a number too.
-/

open Lib

namespace Riftgate.FileWal

open Riftgate.Frame

structure FileWalConfig where
  shards : Nat
  segmentSizeMax : Nat
  shards_pos : 0 < shards -- the assertion of `open`
  deriving DecidableEq, Repr

/-- A segment file: its bytes, and how many of them `sync_data` has made durable. -/
structure Segment where
  seqno : Nat
  bytes : List Byte
  synced : Nat
  deriving DecidableEq, Repr

/-- The segment files of one shard, in the order of their seqno. -/
structure ShardDir where
  segments : List Segment
  sorted : (segments.map (·.seqno)).Pairwise (· < ·)

structure ShardState where
  closed : List Segment -- the files before the current one
  current : Segment -- the file under `writer`
  buf : List Byte -- the buffer of `writer`
  segmentBytes : Nat
  lastBuffered : Option UInt64
  lastDurable : Option UInt64
  shutdown : Bool
  sorted : (closed.map (·.seqno) ++ [current.seqno]).Pairwise (· < ·)
  deriving DecidableEq, Repr

/-! ## Opening -/

def highest (seqnos : List Nat) : Option Nat :=
  seqnos.foldl (fun h n => some (h.elim n fun h => max h n)) none

/-- `open_segment`: `create` makes an empty file, `append` keeps the one that is there. -/
def openSegment (segments : List Segment) (seqno : Nat) : Segment :=
  (segments.find? fun s => s.seqno = seqno).getD ⟨seqno, [], 0⟩

def openInitialSegment (segments : List Segment) : Segment :=
  openSegment segments ((highest (segments.map (·.seqno))).getD 0)

theorem openSegment_seqno (segments : List Segment) (seqno : Nat) :
    (openSegment segments seqno).seqno = seqno := by
  unfold openSegment
  cases h : segments.find? fun s => s.seqno = seqno with
  | none => rfl
  | some f => simpa using List.find?_some h

theorem highest_append_one (ns : List Nat) (n : Nat) :
    highest (ns ++ [n]) = some ((highest ns).elim n fun h => max h n) := by
  simp [highest, List.foldl_append]

theorem highest_ge (ns : List Nat) : ∀ n ∈ ns, ∃ h, highest ns = some h ∧ n ≤ h := by
  induction ns using List.reverseRecOn with
  | nil => simp
  | append_singleton ns k ih =>
    intro n hn
    rw [List.mem_append, List.mem_singleton] at hn
    refine ⟨_, highest_append_one ns k, ?_⟩
    rcases hn with hn | rfl
    · obtain ⟨h, hh, hle⟩ := ih n hn
      rw [hh, Option.elim]
      omega
    · cases highest ns with
      | none => exact le_rfl
      | some h => exact Nat.le_max_right h n

theorem openShard_sorted (dir : ShardDir) :
    ((dir.segments.filter fun s => s.seqno ≠ (openInitialSegment dir.segments).seqno).map (·.seqno) ++
      [(openInitialSegment dir.segments).seqno]).Pairwise (· < ·) := by
  rw [List.pairwise_append]
  refine ⟨dir.sorted.sublist ( List.filter_sublist.map _), by simp, ?_⟩
  intro n hn m hm
  rw [List.mem_singleton] at hm
  subst hm
  obtain ⟨c, hc, rfl⟩ := List.mem_map.mp hn
  obtain ⟨hc, hne⟩ := List.mem_filter.mp hc
  obtain ⟨h, hh, hle⟩ := highest_ge (dir.segments.map (·.seqno)) c.seqno (List.mem_map_of_mem hc)
  rw [decide_eq_true_eq, openInitialSegment, hh, Option.getD_some, openSegment_seqno] at hne
  rw [openInitialSegment, hh, Option.getD_some, openSegment_seqno]
  omega

def openShard (dir : ShardDir) : ShardState :=
  let file := openInitialSegment dir.segments
  { closed := dir.segments.filter fun s => s.seqno ≠ file.seqno
    current := file
    buf := []
    segmentBytes := file.bytes.length
    lastBuffered := none
    lastDurable := none
    shutdown := false
    sorted := openShard_sorted dir }

/-! ## Appending -/

def frameLen (payload : List Byte) : Nat := entryHeaderBytes + payload.length

def needsRollover (segmentSizeMax : Nat) (st : ShardState) (payload : List Byte) : Bool :=
  decide (segmentSizeMax < st.segmentBytes + frameLen payload) && decide (0 < st.segmentBytes)

-- `n` bytes of the buffer go to the file.
def ShardState.drain (st : ShardState) (n : Nat) : ShardState :=
  { st with
    current := { st.current with bytes := st.current.bytes ++ st.buf.take n }
    buf := st.buf.drop n }

def ShardState.flush (st : ShardState) : ShardState := st.drain st.buf.length

theorem pairwise_succ {ns : List Nat} {n : Nat} (h : (ns ++ [n]).Pairwise (· < ·)) :
    (ns ++ [n] ++ [n + 1]).Pairwise (· < ·) := by
  rw [List.pairwise_append]
  refine ⟨h, by simp, fun a ha b hb => ?_⟩
  rw [List.mem_singleton] at hb
  rw [List.mem_append, List.mem_singleton] at ha
  rcases ha with ha | rfl
  · have := (List.pairwise_append.mp h).2.2 a ha n (by simp)
    omega
  · omega

/-- The new file and the new writer of a rollover, after the flush of the old ones. -/
def ShardState.nextSegment (st : ShardState) : ShardState :=
  { st with
    closed := st.closed ++ [st.current]
    current := ⟨st.current.seqno + 1, [], 0⟩
    buf := []
    segmentBytes := 0
    sorted := by
      rw [List.map_append, List.map_singleton]
      exact pairwise_succ st.sorted }

/-- `writer.write_all(data)`, when it succeeds and hands `n` bytes to the file. -/
def ShardState.writeAll (st : ShardState) (data : List Byte) (n : Nat) : ShardState :=
  { st with buf := st.buf ++ data }.drain n

/-- `writer.write_all(data)`, when the disk fails after `n` bytes. What was in the buffer stays
there, and the rest of `data` is lost. -/
def ShardState.writeAllFailed (st : ShardState) (data : List Byte) (n : Nat) : ShardState :=
  { st with
    current := { st.current with bytes := st.current.bytes ++ (st.buf ++ data).take n }
    buf := st.buf.drop n }

def entryHeader (e : Entry) : List Byte :=
  header (UInt32.ofNat e.payload.length) (durabilityTag e.durability) entryKindDefault
    e.timestampNanos e.entryId

def ShardState.writeFrame (st : ShardState) (e : Entry) (n m : Nat) : ShardState :=
  let st := (st.writeAll (entryHeader e) n).writeAll e.payload m
  { st with
    segmentBytes := st.segmentBytes + frameLen e.payload
    lastBuffered := some e.entryId }

def ShardState.offset (st : ShardState) : Nat := st.current.bytes.length + st.buf.length

/-! ## Flushing -/

/-- `do_flush`, when both calls succeed: the file is durable up to its last byte. -/
def ShardState.doFlush (st : ShardState) : ShardState :=
  let st := st.flush
  { st with current := { st.current with synced := st.current.bytes.length } }

def behind (d : Option UInt64) (id : UInt64) : Bool := d.elim true fun d => decide (d < id)

/-! ## The files of a shard -/

def ShardState.segments (st : ShardState) : List Segment := st.closed ++ [st.current]

/-- What is left in the directory when the writer is dropped, which flushes it. -/
def ShardState.dir (st : ShardState) : ShardDir where
  segments := st.flush.segments
  sorted := by
    have h := st.flush.sorted
    simpa [ShardState.segments] using h

/-- A call of `append` on its own, with no failure and nobody else: rollover, then write. -/
def ShardState.append (segmentSizeMax : Nat) (st : ShardState) (e : Entry) (n m : Nat) : ShardState :=
  let st := if needsRollover segmentSizeMax st e.payload then st.flush.nextSegment else st
  st.writeFrame e n m

end Riftgate.FileWal
