import Mathlib.Data.Finset.Erase
import Mathlib.Data.Finset.Insert
import Mathlib.Logic.Function.Basic
import Riftgate.Code.Uring

/-!
# Polling with `mio`: `riftgate-io-epoll/src/mio_io.rs`

`mio` hands its calls to epoll, which watches open files. Closing a file ends its watch: no file has a second
descriptor here. A label says where epoll fails on its own, for want of memory or at a limit, and what it reports.
-/

open Lib

namespace Riftgate.Mio

open Uring

def Interest.isReadable : Interest → Bool
  | .readable | .readableAndWritable => true
  | .writable => false

def Interest.isWritable : Interest → Bool
  | .writable | .readableAndWritable => true
  | .readable => false

/-! ## epoll -/

inductive Errno where
  | badFd
  | «exists»
  | noEntry
  | fault
  deriving DecidableEq, Repr

/-- A watch has the token and the interest of its last `epoll_ctl`. -/
structure Epoll where
  isOpen : ℤ → Bool
  watched : ℤ → Option (UInt64 × Interest)

namespace Epoll

def set (k : Epoll) (fd : ℤ) (watch : Option (UInt64 × Interest)) : Epoll :=
  { k with watched := Function.update k.watched fd watch }

/-- `EPOLL_CTL_ADD`. -/
def add (k : Epoll) (fd : ℤ) (token : UInt64) (interest : Interest) (fault : Bool) : Except Errno Epoll :=
  if k.isOpen fd = false then .error .badFd
  else if (k.watched fd).isSome then .error .exists
  else if fault then .error .fault
  else .ok (k.set fd (some (token, interest)))

/-- `EPOLL_CTL_MOD`. -/
def modify (k : Epoll) (fd : ℤ) (token : UInt64) (interest : Interest) (fault : Bool) : Except Errno Epoll :=
  if k.isOpen fd = false then .error .badFd
  else if k.watched fd = none then .error .noEntry
  else if fault then .error .fault
  else .ok (k.set fd (some (token, interest)))

/-- `EPOLL_CTL_DEL`. -/
def delete (k : Epoll) (fd : ℤ) : Except Errno Epoll :=
  if k.isOpen fd = false then .error .badFd
  else if k.watched fd = none then .error .noEntry
  else .ok (k.set fd none)

def openFile (k : Epoll) (fd : ℤ) : Epoll := { k with isOpen := Function.update k.isOpen fd true }

def closeFile (k : Epoll) (fd : ℤ) : Epoll := { k.set fd none with isOpen := Function.update k.isOpen fd false }

end Epoll

/-- A file that `epoll_wait` reports. Neither flag is set where there is only an error or a hang-up. -/
structure Ready where
  fd : ℤ
  readable : Bool
  writable : Bool
  deriving DecidableEq, Repr

def eventsBufCapacity : ℕ := 1024

/-- What is reported is watched, once, and for what the interest asks. -/
def Epoll.reports (k : Epoll) (ready : List Ready) : Bool :=
  decide (ready.length ≤ eventsBufCapacity) && decide (ready.map Ready.fd).Nodup && ready.all fun r =>
    match k.watched r.fd with
    | some (_, interest) => (!r.readable || Interest.isReadable interest) && (!r.writable || Interest.isWritable interest)
    | none => false

def Epoll.event (k : Epoll) (r : Ready) : Option Event :=
  (k.watched r.fd).map fun watch => ⟨watch.1, r.readable, r.writable⟩

/-! ## MioIO -/

structure MioIO where
  registered : Finset ℤ := ∅

namespace MioIO

/-- The error is that of `epoll_ctl`. -/
def register (io : MioIO) (k : Epoll) (fd : ℤ) (token : UInt64) (interest : Interest) (fault : Bool) :
    MioIO × Epoll × Option Errno :=
  if fd ∈ io.registered then
    match k.modify fd token interest fault with
    | .ok k' => (io, k', none)
    | .error e => (io, k, some e)
  else
    match k.add fd token interest fault with
    | .ok k' => ({ registered := insert fd io.registered }, k', none)
    | .error e => (io, k, some e)

def deregister (io : MioIO) (k : Epoll) (fd : ℤ) : MioIO × Epoll × Option Errno :=
  if fd ∈ io.registered then
    let io := { registered := io.registered.erase fd : MioIO }
    match k.delete fd with
    | .ok k' => (io, k', none)
    | .error e => (io, k, some e)
  else (io, k, none)

/-- An answer of `epoll_wait`. -/
inductive Answer where
  | ready (ready : List Ready)
  | interrupted
  | failed
  deriving DecidableEq, Repr

/-- The loop of `poll`, which ends at the first answer that is not `EINTR`. -/
def poll (k : Epoll) : List Answer → Option (Except Errno (List Event))
  | [] => none
  | .interrupted :: answers => poll k answers
  | .failed :: _ => some (.error .fault)
  | .ready ready :: _ => if k.reports ready then some (.ok (ready.filterMap k.event)) else none

end MioIO

/-! ## Any calls -/

structure Client where
  io : MioIO := {}
  kernel : Epoll := ⟨fun _ => false, fun _ => none⟩
  /-- The error of the last call, and the events that it returned. -/
  error : Option Errno := none
  events : List Event := []
  /-- The calls of `register` that returned `Ok`, less what was deregistered or closed since. -/
  registrations : ℤ → Option (UInt64 × Interest) := fun _ => none
  /-- What was closed while it was registered, and not deregistered since. -/
  stale : Finset ℤ := ∅

inductive Label where
  | openFile (fd : ℤ)
  | closeFile (fd : ℤ)
  | register (fd : ℤ) (token : UInt64) (interest : Interest) (fault : Bool)
  | deregister (fd : ℤ)
  | poll (answers : List MioIO.Answer)
  deriving DecidableEq, Repr

namespace Client

def openFile (s : Client) (fd : ℤ) : Client :=
  { s with kernel := s.kernel.openFile fd, error := none, events := [] }

def closeFile (s : Client) (fd : ℤ) : Client :=
  { s with
    kernel := s.kernel.closeFile fd
    error := none
    events := []
    registrations := Function.update s.registrations fd none
    stale := if (s.registrations fd).isSome then insert fd s.stale else s.stale }

def register (s : Client) (fd : ℤ) (token : UInt64) (interest : Interest) (fault : Bool) : Client :=
  let r := s.io.register s.kernel fd token interest fault
  { s with
    io := r.1
    kernel := r.2.1
    error := r.2.2
    events := []
    registrations := if r.2.2 = none then Function.update s.registrations fd (some (token, interest))
      else s.registrations }

def deregister (s : Client) (fd : ℤ) : Client :=
  let r := s.io.deregister s.kernel fd
  { s with
    io := r.1
    kernel := r.2.1
    error := r.2.2
    events := []
    registrations := Function.update s.registrations fd none
    stale := s.stale.erase fd }

def poll (s : Client) (answers : List MioIO.Answer) : Option Client :=
  let answer := MioIO.poll s.kernel answers
  answer.map fun r =>
    { s with
      error := match r with
        | .ok _ => none
        | .error e => some e
      events := r.toOption.getD [] }

def step (s : Client) : Label → Option Client
  | .openFile fd => if s.kernel.isOpen fd then none else some (s.openFile fd)
  | .closeFile fd => if s.kernel.isOpen fd then some (s.closeFile fd) else none
  | .register fd token interest fault => some (s.register fd token interest fault)
  | .deregister fd => some (s.deregister fd)
  | .poll answers => s.poll answers

end Client

def clients : Machine Client Label where
  init := {}
  step := Client.step

end Riftgate.Mio
