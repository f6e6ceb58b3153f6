import Mathlib.Logic.Function.Basic
import Riftgate.Lib.Machine
import Riftgate.Code.FileWal

/-!
# The threads of the WAL: `riftgate-replay/src/file_wal.rs`

The calls of `append` and `flush`, the flusher of each shard and `shutdown`, step by step. A
call that runs under the mutex of its shard holds it from step to step. Where the source locks,
does one thing and unlocks, that is one step, which needs the mutex to be free.

A condvar may wake a waiter at any time, so waking up is always possible. Only what the waiter
then finds counts. `notify_all` and the intervals are left out of the first machine for that
reason. The second one has the condvars, for what depends on who is woken.
-/

open Lib

namespace Riftgate.FileWal

open Riftgate.Frame

structure Placed where
  entry : Entry
  seqno : Nat
  offset : Nat
  deriving DecidableEq, Repr

inductive Call where
  | idle
  | numbered (id : UInt64) (payload : List Byte) (durability : Durability)
  | stamped (e : Entry)
  | locked (e : Entry) -- holds the mutex
  | rolled (e : Entry) -- holds the mutex
  | written (p : Placed) -- holds the mutex
  | parked (p : Placed)
  | acked (p : Placed) -- `append` has returned `Ok(id)`
  | failed -- `append` has returned `Err`
  | flushing (before : Nat → List Placed) (i : Nat)
  | flushWaiting (before : Nat → List Placed) (i : Nat) (target : UInt64)
  | flushed (before : Nat → List Placed) -- `flush` has returned `Ok(())`

/-- The flusher of a shard. `flushed` is after `do_flush` and before its result is published. -/
inductive Flusher where
  | top
  | chosen (target : UInt64)
  | flushed (target : UInt64) (ok : Bool)
  | exited
  deriving DecidableEq, Repr

structure Shard where
  state : ShardState
  lock : Option Nat -- the call that holds the mutex
  flusher : Flusher
  frames : List Placed -- all frames written so far. The program does not keep this.

structure Wal where
  nextEntryId : UInt64
  shards : Nat → Shard
  calls : Nat → Call

/-! ## What the disk answers -/

-- A number says how many bytes reached the file.
inductive RollIo where
  | ok
  | flushFailed (n : Nat)
  | openFailed

inductive WriteIo where
  | ok (n m : Nat)
  | headerFailed (n : Nat)
  | payloadFailed (n m : Nat)

inductive FlushIo where
  | ok
  | flushFailed (n : Nat)
  | syncFailed

/-! ## append -/

def shardFor (cfg : FileWalConfig) (id : UInt64) : Nat := id.toNat % cfg.shards

/-- One step of a call of `append` after it has its id, with what the outside answers. -/
inductive Move where
  | stamp (nanos : UInt64)
  | lock
  | roll (io : RollIo)
  | write (io : WriteIo)
  | wait
  | wake

def Shard.roll (max : Nat) (sh : Shard) (e : Entry) : RollIo → Shard × Call
  | io =>
    if needsRollover max sh.state e.payload then
      match io with
      | .ok => ({ sh with state := sh.state.flush.nextSegment }, .rolled e)
      | .flushFailed n => ({ sh with state := sh.state.drain n, lock := none }, .failed)
      | .openFailed => ({ sh with state := sh.state.flush, lock := none }, .failed)
    else (sh, .rolled e)

def Shard.write (sh : Shard) (e : Entry) : WriteIo → Shard × Call
  | .ok n m =>
    let p : Placed := ⟨e, sh.state.current.seqno, sh.state.offset⟩
    ({ sh with state := sh.state.writeFrame e n m, frames := sh.frames ++ [p] }, .written p)
  | .headerFailed n => ({ sh with state := sh.state.writeAllFailed (entryHeader e) n, lock := none }, .failed)
  | .payloadFailed n m =>
    ({ sh with state := (sh.state.writeAll (entryHeader e) n).writeAllFailed e.payload m, lock := none }, .failed)

/-- The `match durability` at the end, with the first test of its loop. Both ways out unlock. -/
def Shard.wait (sh : Shard) (p : Placed) : Shard × Call :=
  if p.entry.durability.waits && behind sh.state.lastDurable p.entry.entryId
  then ({ sh with lock := none }, .parked p)
  else ({ sh with lock := none }, .acked p)

/-- The wait is over. Either the call returns, or it tests its loop again. -/
def Shard.wake (sh : Shard) (p : Placed) : Call :=
  if behind sh.state.lastDurable p.entry.entryId then
    if sh.state.shutdown then .failed else .parked p
  else .acked p

def Shard.append (max c : Nat) (sh : Shard) : Call → Move → Option (Shard × Call)
  | .numbered id payload durability, .stamp nanos =>
    some (sh, if (payloadLen payload).isSome then .stamped ⟨id, nanos, durability, payload⟩ else .failed)
  | .stamped e, .lock => if sh.lock = none then some ({ sh with lock := some c }, .locked e) else none
  | .locked e, .roll io => some (sh.roll max e io)
  | .rolled e, .write io => some (sh.write e io)
  | .written p, .wait => some (sh.wait p)
  | .parked p, .wake => if sh.lock = none then some (sh, sh.wake p) else none
  | _, _ => none

def Call.id : Call → Option UInt64
  | .numbered id _ _ => some id
  | .stamped e | .locked e | .rolled e => some e.entryId
  | .written p | .parked p | .acked p => some p.entry.entryId
  | _ => none

/-! ## flush -/

/-- `flush` looks at one shard after the other. `before` is what had been written when it was called. -/
def flushNext (cfg : FileWalConfig) (before : Nat → List Placed) (i : Nat) : Call :=
  if i + 1 < cfg.shards then .flushing before (i + 1) else .flushed before

def Shard.flushCall (cfg : FileWalConfig) (sh : Shard) : Call → Option Call
  | .flushing before i =>
    if sh.lock = none then
      match sh.state.lastBuffered with
      | some target => some (.flushWaiting before i target)
      | none => some (flushNext cfg before i)
    else none
  | .flushWaiting before i target =>
    if sh.lock = none then
      if behind sh.state.lastDurable target && !sh.state.shutdown then some (.flushWaiting before i target)
      else some (flushNext cfg before i)
    else none
  | _ => none

/-! ## The flusher -/

inductive FlusherMove where
  | choose
  | doFlush (io : FlushIo)
  | publish

def Shard.choose (sh : Shard) : Flusher :=
  match sh.state.lastBuffered with
  | some target =>
    if behind sh.state.lastDurable target then .chosen target
    else if sh.state.shutdown then .exited else .top
  | none => if sh.state.shutdown then .exited else .top

def Shard.doFlush (sh : Shard) (target : UInt64) : FlushIo → Shard
  | .ok => { sh with state := sh.state.doFlush, flusher := .flushed target true }
  | .flushFailed n => { sh with state := sh.state.drain n, flusher := .flushed target false }
  | .syncFailed => { sh with state := sh.state.flush, flusher := .flushed target false }

def Shard.publish (sh : Shard) (target : UInt64) (ok : Bool) : Shard :=
  { sh with
    state := if ok then { sh.state with lastDurable := some target } else sh.state
    flusher := .top }

/-- One step of `flusher_loop`. Each of its three blocks locks and unlocks. -/
def Shard.flusherLoop (sh : Shard) (m : FlusherMove) : Option Shard :=
  if sh.lock = none then
    match sh.flusher, m with
    | .top, .choose => some { sh with flusher := sh.choose }
    | .chosen target, .doFlush io => some (sh.doFlush target io)
    | .flushed target ok, .publish => some (sh.publish target ok)
    | _, _ => none
  else none

/-! ## The machine -/

inductive Label where
  | fetchAdd (c : Nat) (payload : List Byte) (durability : Durability)
  | append (c : Nat) (m : Move)
  | flush (c : Nat)
  | flushStep (c : Nat)
  | flusher (i : Nat) (m : FlusherMove)
  | shutdown (i : Nat)

def Wal.setShard (s : Wal) (i : Nat) (sh : Shard) : Wal := { s with shards := Function.update s.shards i sh }

def Wal.setCall (s : Wal) (c : Nat) (call : Call) : Wal := { s with calls := Function.update s.calls c call }

def Wal.fetchAdd (s : Wal) (c : Nat) (payload : List Byte) (durability : Durability) : Option Wal :=
  match s.calls c with
  | .idle => some ({ s with nextEntryId := s.nextEntryId + 1 }.setCall c (.numbered s.nextEntryId payload durability))
  | _ => none

def Wal.append (cfg : FileWalConfig) (s : Wal) (c : Nat) (m : Move) : Option Wal :=
  (s.calls c).id.bind fun id =>
    let i := shardFor cfg id
    ((s.shards i).append cfg.segmentSizeMax c (s.calls c) m).map fun r => (s.setShard i r.1).setCall c r.2

def Wal.flushStep (cfg : FileWalConfig) (s : Wal) (c : Nat) : Option Wal :=
  match s.calls c with
  | .flushing before i => ((s.shards i).flushCall cfg (.flushing before i)).map (s.setCall c)
  | .flushWaiting before i target => ((s.shards i).flushCall cfg (.flushWaiting before i target)).map (s.setCall c)
  | _ => none

def Wal.step (cfg : FileWalConfig) (s : Wal) : Label → Option Wal
  | .fetchAdd c payload durability => s.fetchAdd c payload durability
  | .append c m => s.append cfg c m
  | .flush c =>
    match s.calls c with
    | .idle => some (s.setCall c (.flushing (fun i => (s.shards i).frames) 0))
    | _ => none
  | .flushStep c => s.flushStep cfg c
  | .flusher i m => ((s.shards i).flusherLoop m).map (s.setShard i)
  | .shutdown i =>
    if (s.shards i).lock = none
    then some (s.setShard i { s.shards i with state := { (s.shards i).state with shutdown := true } })
    else none

def openWal (dirs : Nat → ShardDir) : Wal where
  nextEntryId := 1
  shards i := ⟨openShard (dirs i), none, .top, []⟩
  calls _ := .idle

def fileWal (cfg : FileWalConfig) (dirs : Nat → ShardDir) : Machine Wal Label where
  init := openWal dirs
  step := Wal.step cfg

/-! ## The condvars

The flusher waits with a timeout, and `flush` waits for an id. Here are the waits of `append`,
who is woken by each `notify_all`, and wakeups for no reason.
-/

structure CvWal where
  wal : Wal
  inCondvar : Nat → Bool := fun _ => false -- the calls of `append` that nobody has woken yet

inductive CvLabel where
  | wal (a : Label)
  | spurious (c : Nat)

def Call.waitsIn (cfg : FileWalConfig) : Call → Option Nat
  | .parked p => some (shardFor cfg p.entry.entryId)
  | _ => none

/-- `segment_bytes` has the new frame in it already when the source tests it. -/
def needImmediateFlush (flushBufferBytes : Nat) (sh : Shard) (e : Entry) : Bool :=
  decide (flushBufferBytes ≤ sh.state.segmentBytes + frameLen e.payload) || e.durability.waits

/-- The shard whose condvar gets a `notify_all` in this step. -/
def notifies (cfg : FileWalConfig) (flushBufferBytes : Nat) (s : Wal) : Label → Option Nat
  | .append c (.write (.ok _ _)) => match s.calls c with
    | .rolled e =>
      if needImmediateFlush flushBufferBytes (s.shards (shardFor cfg e.entryId)) e
      then some (shardFor cfg e.entryId) else none
    | _ => none
  | .flushStep c => match s.calls c with
    | .flushing _ i => some i
    | _ => none
  | .flusher i .publish => some i
  | .shutdown i => some i
  | _ => none

def CvWal.notifyAll (cfg : FileWalConfig) (s : CvWal) (i : Option Nat) (c : Nat) : Bool :=
  s.inCondvar c && (i.isNone || decide ((s.wal.calls c).waitsIn cfg ≠ i))

def CvWal.step (cfg : FileWalConfig) (flushBufferBytes : Nat) (s : CvWal) : CvLabel → Option CvWal
  | .spurious c => some { s with inCondvar := Function.update s.inCondvar c false }
  | .wal (.append c .wait) => (s.wal.step cfg (.append c .wait)).map fun w =>
      ⟨w, Function.update s.inCondvar c ((w.calls c).waitsIn cfg).isSome⟩
  | .wal (.append c .wake) =>
    if s.inCondvar c then none
    else (s.wal.step cfg (.append c .wake)).map fun w =>
      ⟨w, Function.update s.inCondvar c ((w.calls c).waitsIn cfg).isSome⟩
  | .wal a => (s.wal.step cfg a).map fun w => ⟨w, s.notifyAll cfg (notifies cfg flushBufferBytes s.wal a)⟩

def condvars (cfg : FileWalConfig) (flushBufferBytes : Nat) (dirs : Nat → ShardDir) : Machine CvWal CvLabel where
  init := ⟨openWal dirs, fun _ => false⟩
  step := CvWal.step cfg flushBufferBytes

/-! ## Lifetimes

A WAL is opened, used, dropped, and opened again on the same root directory.
-/

structure Root where
  dirs : Nat → ShardDir
  frames : Nat → List Placed -- all frames written before the last `open`
  wal : Option (FileWalConfig × Wal)

inductive RootLabel where
  | open (cfg : FileWalConfig)
  | wal (a : Label)
  | close

/-- `drop` flushes each writer. Shards beyond those of this lifetime are not touched. -/
def Root.close (s : Root) (cfg : FileWalConfig) (w : Wal) : Root where
  dirs i := if i < cfg.shards then (w.shards i).state.dir else s.dirs i
  frames i := s.frames i ++ (w.shards i).frames
  wal := none

def Root.step (s : Root) : RootLabel → Option Root
  | .open cfg => match s.wal with
    | none => some { s with wal := some (cfg, openWal s.dirs) }
    | some _ => none
  | .wal a => match s.wal with
    | none => none
    | some (cfg, w) => (w.step cfg a).map fun w' => { s with wal := some (cfg, w') }
  | .close => match s.wal with
    | none => none
    | some (cfg, w) => some (s.close cfg w)

/-- All lifetimes of a WAL on a root directory that is empty at first. -/
def lifetimes : Machine Root RootLabel where
  init := ⟨fun _ => ⟨[], List.Pairwise.nil⟩, fun _ => [], none⟩
  step := Root.step

end Riftgate.FileWal
