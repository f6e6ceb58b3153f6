import Mathlib.Order.Basic
import Riftgate.Lib.Bytes

/-!
# The WAL frame: `riftgate-replay/src/frame.rs`

Also the part of `FileWal::append` that lays out a frame, and the durability levels of
`riftgate-core/src/wal.rs`. The writer and the reader are two pieces of code, so they are
two definitions here.
-/

open Lib

namespace Riftgate.Frame

/-! ## The writer -/

inductive Durability where
  | async
  | fsync
  | fdataSync
  deriving DecidableEq, Repr

def Durability.waits : Durability → Bool
  | .async => false
  | .fsync | .fdataSync => true

def entryHeaderBytes : Nat := 4 + 1 + 1 + 8 + 8

def durabilityAsync : Byte := 0
def durabilityFdataSync : Byte := 1
def durabilityFsync : Byte := 2
def entryKindDefault : Byte := 0

def durabilityTag : Durability → Byte
  | .async => durabilityAsync
  | .fdataSync => durabilityFdataSync
  | .fsync => durabilityFsync

-- What one call of `append` writes: its id, its clock reading, and its two arguments.
structure Entry where
  entryId : UInt64
  timestampNanos : UInt64
  durability : Durability
  payload : List Byte
  deriving DecidableEq, Repr

def payloadLen (payload : List Byte) : Option UInt32 :=
  if payload.length < 2 ^ 32 then some (UInt32.ofNat payload.length) else none

def header (len : UInt32) (tag kind : Byte) (nanos id : UInt64) : List Byte :=
  toLe 4 len.toNat ++ [tag, kind] ++ toLe 8 nanos.toNat ++ toLe 8 id.toNat

def encodeEntry (e : Entry) : List Byte :=
  header (UInt32.ofNat e.payload.length) (durabilityTag e.durability) entryKindDefault
    e.timestampNanos e.entryId ++ e.payload

/-! ## The reader -/

structure ParsedFrame where
  entryId : UInt64
  timestampNanos : UInt64
  durabilityTag : Byte
  entryKind : Byte
  payload : List Byte
  deriving DecidableEq, Repr

/-- Only an oversized length is reported on a cursor: an early end stops the loop instead. -/
inductive ParseFrameError where
  | payloadOverflow (declared : UInt32)
  deriving DecidableEq, Repr

def maxPayloadBytes : UInt32 := 16 * 1024 * 1024

/-- `Read::read_exact` on a cursor: the bytes and what is left, or `UnexpectedEof`. -/
def readExact (n : Nat) (data : List Byte) : Option (List Byte × List Byte) :=
  if n ≤ data.length then some (data.take n, data.drop n) else none

/-- The three answers of `read_exact_or_eof`: `Ok(true)`, an early end, `Ok(false)`. -/
inductive ReadResult where
  | eof
  | early
  | read (buf rest : List Byte)

def readExactOrEof (n : Nat) (data : List Byte) : ReadResult :=
  if data = [] then .eof
  else match readExact n data with
    | none => .early
    | some (buf, rest) => .read buf rest

/-- A `Read`: how many bytes `read` puts into a buffer with room for `n`. It may stop short, and it gives nothing only
at the end. -/
structure Reader where
  give : Nat → List Byte → Nat
  give_le : ∀ n data, give n data ≤ min n data.length
  give_pos : ∀ n data, 0 < n → data ≠ [] → 0 < give n data

def cursor : Reader where
  give n data := min n data.length
  give_le _ _ := le_rfl
  give_pos n data hn hdata := by
    have := List.length_pos_iff.mpr hdata
    omega

/-- The loop of `read_exact_or_eof`, with `buf` read so far. -/
def Reader.readExactOrEof (r : Reader) (n : Nat) (buf data : List Byte) : ReadResult :=
  if buf.length < n then
    let k := r.give (n - buf.length) data
    if k = 0 then (if buf.length = 0 then .eof else .early)
    else r.readExactOrEof n (buf ++ data.take k) (data.drop k)
  else .read buf data
termination_by n - buf.length
decreasing_by
  have hk := r.give_le (n - buf.length) data
  rw [List.length_append, List.length_take]
  omega

-- `u32::from_le_bytes` and `u64::from_le_bytes` on a slice of the header.
def fieldU32 (header : List Byte) (start stop : Nat) : UInt32 :=
  UInt32.ofNat (ofLe ((header.drop start).take (stop - start)))

def fieldU64 (header : List Byte) (start stop : Nat) : UInt64 :=
  UInt64.ofNat (ofLe ((header.drop start).take (stop - start)))

def parsedFrame (header payload : List Byte) : ParsedFrame where
  entryId := fieldU64 header 14 22
  timestampNanos := fieldU64 header 6 14
  durabilityTag := header.getD 4 0
  entryKind := header.getD 5 0
  payload := payload

theorem readExact_length {n : Nat} {data buf rest : List Byte} (h : readExact n data = some (buf, rest)) :
    rest.length = data.length - n ∧ n ≤ data.length := by
  unfold readExact at h
  split at h
  · simp only [Option.some.injEq, Prod.mk.injEq] at h
    obtain ⟨-, rfl⟩ := h
    exact ⟨by simp, by assumption⟩
  · cases h

theorem readExactOrEof_read {n : Nat} {data buf rest : List Byte}
    (h : readExactOrEof n data = .read buf rest) : readExact n data = some (buf, rest) := by
  unfold readExactOrEof at h
  split at h
  · cases h
  · split at h
    · cases h
    · rename_i hr
      cases h
      exact hr

/-- `try_parse_frames`. Its loop reads from a cursor, here the bytes that are left. -/
def tryParseFrames (data : List Byte) : List (Except ParseFrameError ParsedFrame) :=
  match _h : readExactOrEof entryHeaderBytes data with
  | .eof => []
  | .early => []
  | .read header rest =>
    let len := fieldU32 header 0 4
    if maxPayloadBytes < len then [.error (.payloadOverflow len)]
    else match _h' : readExact len.toNat rest with
      | none => [] -- a truncated final frame stops the loop without a report
      | some (payload, rest') => .ok (parsedFrame header payload) :: tryParseFrames rest'
termination_by data.length
decreasing_by
  have h1 := readExact_length (readExactOrEof_read _h)
  have h2 := readExact_length _h'
  simp only [entryHeaderBytes] at h1
  omega

end Riftgate.Frame
