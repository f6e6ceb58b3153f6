import Mathlib.Data.Char
import Mathlib.Data.List.Lex
import Riftgate.Lib.Text
import Riftgate.Code.Replay

/-!
# The runs of the replay tool: `riftgate-replay/src/bin/riftgate-replay.rs`

Which files the tool reads, and what `dump` and `replay` make of their entries. A path is the list of its components. What
the file system answers is a parameter. How the entries are written as JSON is left out.
-/

open Lib

namespace Riftgate.Replay

abbrev Path := List (List Char)

def display (p : Path) : String := String.ofList (['/'].intercalate p)

/-- `Path::extension` of the last component: what is behind its last dot, if something is before that. -/
def extension (name : List Char) : Option (List Char) :=
  match name.reverse.dropWhile (· ≠ '.') with
  | '.' :: before => if before = [] then none else some (name.reverse.takeWhile (· ≠ '.')).reverse
  | _ => none

def isWalFile (p : Path) : Bool := decide (p.getLast?.bind extension = some "wal".toList)

/-- The errors are the texts of the operating system. -/
structure Disk where
  isDir : Path → Bool
  readDir : Path → Except String (List (Except String Path))
  openFile : Path → Except String (List Byte)

/-! ## decode_segments -/

variable (disk : Disk) (base64 : List Byte → String)

/-- One round of the loop of `collect_segment_paths`. -/
def collectOne (p : Path) : Except String (List Path) :=
  if disk.isDir p then
    match disk.readDir p with
    | .error e => .error ("failed to read directory " ++ display p ++ ": " ++ e)
    | .ok read => (read.mapM id).map fun paths => paths.filter isWalFile
  else if isWalFile p then .ok [p]
  else .error ("path is neither a .wal file nor directory: " ++ display p)

def collectSegmentPaths (inputs : List Path) : Except String (List Path) :=
  (inputs.mapM (collectOne disk)).bind fun found =>
    let out := found.flatten.mergeSort fun p q => decide (p ≤ q)
    if out = [] then .error "no WAL segment files found" else .ok out

/-- The loop of `decode_segments`. -/
def decodePaths : List Path → List DecodedEntry → Except String (List DecodedEntry)
  | [], out => .ok out
  | p :: paths, out =>
    match disk.openFile p with
    | .error e => .error ("open " ++ display p ++ " failed: " ++ e)
    | .ok data =>
      match decodeOneSegment base64 (display p) data out with
      | (_, .error e) => .error e
      | (out', .ok ()) => decodePaths paths out'

def decodeInputs (inputs : List Path) : Except String (List DecodedEntry) :=
  (collectSegmentPaths disk inputs).bind fun paths =>
    (decodePaths disk base64 paths []).map fun out => out.mergeSort fun a b => decide (a.entryId ≤ b.entryId)

/-! ## The commands -/

structure DumpArgs where
  segments : List Path
  fromId : Option UInt64 := none
  toId : Option UInt64 := none
  limit : Option Nat := none

def withinRange (id : UInt64) (fromId toId : Option UInt64) : Bool :=
  if fromId.any fun f => decide (id < f) then false
  else if toId.any fun t => decide (t < id) then false
  else true

def truncate {α : Type} (limit : Option Nat) (l : List α) : List α := limit.elim l l.take

def runDump (args : DumpArgs) : Except String (List DecodedEntry) :=
  (decodeInputs disk base64 args.segments).map fun entries =>
    truncate args.limit (entries.filter fun e => withinRange e.entryId args.fromId args.toId)

/-- What `run_replay` finds out itself. The rest of its summary repeats its arguments. -/
structure ReplaySummary where
  entries : Nat
  bytes : Nat
  deriving DecidableEq, Repr

def runReplay (segments : List Path) : Except String ReplaySummary :=
  (decodeInputs disk base64 segments).map fun entries => ⟨entries.length, (entries.map fun e => e.payloadLen.toNat).sum⟩

end Riftgate.Replay
