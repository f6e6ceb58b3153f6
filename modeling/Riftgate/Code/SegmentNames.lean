import Riftgate.Lib.Table
import Riftgate.Lib.Text
import Riftgate.Code.FileWal

/-!
# The names of segment files: `riftgate-replay/src/file_wal.rs`

All shards have their files in one directory. How `open` finds those of a shard by their names. The directory is a table
from names to the bytes of a file and the number of them that are synced, in the order in which `read_dir` lists it.
-/

open Lib

namespace Riftgate.FileWal

def segmentStart (shardIdx : Nat) : List Char := "seg-".toList ++ (padded 4 shardIdx ++ ['-'])

def segmentName (shardIdx seqno : Nat) : List Char := segmentStart shardIdx ++ (padded 20 seqno ++ ".wal".toList)

/-- What the loop of `open_initial_segment` reads from a name. -/
def seqnoOf (shardIdx : Nat) (name : List Char) : Option Nat :=
  (stripStart (segmentStart shardIdx) name).bind fun rest =>
    (stripEnd ".wal".toList rest).bind (parseUnsigned 18446744073709551616)

def highestSeqno (shardIdx : Nat) (names : List (List Char)) : Option Nat :=
  highest (names.filterMap (seqnoOf shardIdx))

abbrev RootDir := Table (List Char) (List Byte × Nat)

/-- `open_segment` creates a file that is not there. -/
def openNamed (root : RootDir) (shardIdx seqno : Nat) : RootDir × Segment :=
  match root.lookup (segmentName shardIdx seqno) with
  | some file => (root, ⟨seqno, file.1, file.2⟩)
  | none => (root.insert (segmentName shardIdx seqno) ([], 0), ⟨seqno, [], 0⟩)

def openInitialNamed (root : RootDir) (shardIdx : Nat) : RootDir × Segment :=
  openNamed root shardIdx ((highestSeqno shardIdx root.keys).getD 0)

/-- The first loop of `open`, and the file of each shard. -/
def openShards (root : RootDir) (shards : Nat) : RootDir × List Segment :=
  (List.range shards).foldl (fun r shardIdx =>
    let opened := openInitialNamed r.1 shardIdx
    (opened.1, r.2 ++ [opened.2])) (root, [])

end Riftgate.FileWal
