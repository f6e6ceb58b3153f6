import Riftgate.Code.FileWalThreads

/-!
# Crashes of the WAL: `riftgate-replay/src/file_wal.rs`

What the program finds at its next `open`. A killed process takes the buffers of its writers with it, and the files stay
as they are. After a power cut a file has what was synced, and behind that anything. But a file may also be gone, synced
or not: nothing syncs the directory in which its entry is.
-/

open Lib

namespace Riftgate.FileWal

def Segment.durable (f : Segment) : List Byte := f.bytes.take f.synced

/-- `behind` is what the disk has after the synced bytes. Without it the directory has no entry of the file. -/
def Segment.powerCut (f : Segment) (behind : Option (List Byte)) : Option Segment :=
  behind.map fun b => { f with bytes := f.durable ++ b }

theorem powerCut_some {f g : Segment} {behind : Option (List Byte)} (h : f.powerCut behind = some g) :
    ∃ b, behind = some b ∧ g = { f with bytes := f.durable ++ b } := by
  obtain ⟨b, hb, rfl⟩ := Option.map_eq_some_iff.mp h
  exact ⟨b, hb, rfl⟩

theorem powerCut_sorted {fs : List Segment} (behind : Nat → Option (List Byte))
    (h : (fs.map (·.seqno)).Pairwise (· < ·)) :
    ((fs.filterMap fun f => f.powerCut (behind f.seqno)).map (·.seqno)).Pairwise (· < ·) := by
  rw [List.pairwise_map] at h ⊢
  refine h.filterMap _ ?_
  intro f f' hlt g hg g' hg'
  obtain ⟨b, -, rfl⟩ := powerCut_some hg
  obtain ⟨b', -, rfl⟩ := powerCut_some hg'
  exact hlt

def ShardDir.powerCut (dir : ShardDir) (behind : Nat → Option (List Byte)) : ShardDir where
  segments := dir.segments.filterMap fun f => f.powerCut (behind f.seqno)
  sorted := powerCut_sorted behind dir.sorted

/-- The files of an open shard, without the buffer of its writer. -/
def ShardState.files (st : ShardState) : ShardDir where
  segments := st.segments
  sorted := by
    rw [ShardState.segments, List.map_append]
    exact st.sorted

def Root.files (s : Root) (i : Nat) : ShardDir :=
  match s.wal with
  | none => s.dirs i
  | some (cfg, w) => if i < cfg.shards then (w.shards i).state.files else s.dirs i

inductive CrashLabel where
  | root (a : RootLabel)
  | kill
  | powerCut (behind : Nat → Nat → Option (List Byte))

def Root.crash (s : Root) (dirs : Nat → ShardDir) : Root where
  dirs := dirs
  frames i := s.frames i ++ s.wal.elim [] fun w => (w.2.shards i).frames
  wal := none

def Root.crashStep (s : Root) : CrashLabel → Option Root
  | .root a => s.step a
  | .kill => some (s.crash s.files)
  | .powerCut behind => some (s.crash fun i => (s.files i).powerCut (behind i))

/-- All lifetimes of a WAL on a root directory that is empty at first. Each ends with a drop or with a crash. -/
def crashes : Machine Root CrashLabel where
  init := lifetimes.init
  step := Root.crashStep

end Riftgate.FileWal
