import Riftgate.Code.Frame

/-!
# The dump of the replay tool: `riftgate-replay/src/bin/riftgate-replay.rs`

The tool has a decoder of its own, with its own helper for the end of a file. A segment file is
its path and its bytes. Base64 is a parameter.
-/

open Lib

namespace Riftgate.Replay

open Riftgate.Frame

structure DecodedEntry where
  sourcePath : String
  offset : UInt64
  entryId : UInt64
  timestampNanos : UInt64
  durability : String
  entryKind : Byte
  payloadLen : UInt32
  payloadBase64 : String
  deriving DecidableEq, Repr

def decodeDurability (tag : Byte) : String :=
  if tag = 0 then "async"
  else if tag = 1 then "fdatasync"
  else if tag = 2 then "fsync"
  else "unknown-" ++ toString tag.toNat

section

variable (base64 : List Byte → String) (path : String)

def decodedEntry (offset : UInt64) (header payload : List Byte) : DecodedEntry where
  sourcePath := path
  offset := offset
  entryId := fieldU64 header 14 22
  timestampNanos := fieldU64 header 6 14
  durability := decodeDurability (header.getD 4 0)
  entryKind := header.getD 5 0
  payloadLen := fieldU32 header 0 4
  payloadBase64 := base64 payload

/-- The texts of the two errors of a read, the first one from `read_exact_or_eof`. -/
def truncatedHeader : String := "read header " ++ path ++ " failed: truncated WAL header"

def truncatedPayload (offset : UInt64) : String :=
  "read payload " ++ path ++ " failed at offset " ++ toString offset.toNat ++ ": failed to fill whole buffer"

/-- The loop of `decode_one_segment`: the entries that it pushes, and how it ends. -/
def decodeLoop (offset : UInt64) (data : List Byte) : List DecodedEntry × Except String Unit :=
  match _h : readExactOrEof entryHeaderBytes data with
  | .eof => ([], .ok ())
  | .early => ([], .error (truncatedHeader path))
  | .read header rest =>
    let len := fieldU32 header 0 4
    match _h' : readExact len.toNat rest with
    | none => ([], .error (truncatedPayload path offset))
    | some (payload, rest') =>
      let (pushed, result) := decodeLoop (offset + (UInt64.ofNat entryHeaderBytes + len.toUInt64)) rest'
      (decodedEntry base64 path offset header payload :: pushed, result)
termination_by data.length
decreasing_by
  have h1 := readExact_length (readExactOrEof_read _h)
  have h2 := readExact_length _h'
  simp only [entryHeaderBytes] at h1
  omega

/-- `out` keeps what was pushed before an error. -/
def decodeOneSegment (data : List Byte) (out : List DecodedEntry) : List DecodedEntry × Except String Unit :=
  let (pushed, result) := decodeLoop base64 path 0 data
  (out ++ pushed, result)

end

/-- The loop of `decode_segments` over the files that were found. The first error ends it. -/
def decodeFiles (base64 : List Byte → String) :
    List (String × List Byte) → List DecodedEntry → Except String (List DecodedEntry)
  | [], out => .ok out
  | (path, data) :: files, out =>
    match decodeOneSegment base64 path data out with
    | (_, .error e) => .error e
    | (out', .ok ()) => decodeFiles base64 files out'

def decodeSegments (base64 : List Byte → String) (files : List (String × List Byte)) :
    Except String (List DecodedEntry) :=
  (decodeFiles base64 files []).map fun out => out.mergeSort fun a b => decide (a.entryId ≤ b.entryId)

end Riftgate.Replay
