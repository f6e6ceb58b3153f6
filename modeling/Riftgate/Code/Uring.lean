import Mathlib.Data.List.Perm.Basic
import Riftgate.Lib.Machine
import Riftgate.Lib.Table

/-!
# Polling with `io_uring`: `riftgate-io-uring/src/uring.rs`

The map of registrations is in the process, and the `PollAdd`s are in the kernel. A `PollAdd` is outstanding until
`poll` reads its one completion. The kernel chooses which completions there are, in what order and with what result,
and whether a submission fails.
-/

open Lib

namespace Riftgate.Uring

inductive Interest where
  | readable
  | writable
  | readableAndWritable
  deriving DecidableEq, Repr

def pollIn : UInt32 := 1

def pollOut : UInt32 := 4

def Interest.mask : Interest → UInt32
  | .readable => pollIn
  | .writable => pollOut
  | .readableAndWritable => pollIn ||| pollOut

/-- The `user_data` of an entry is the token of its registration. -/
structure PollAdd where
  fd : ℤ
  token : UInt64
  mask : UInt32
  deriving DecidableEq, Repr

structure Event where
  token : UInt64
  readable : Bool
  writable : Bool
  deriving DecidableEq, Repr

/-- A completion. A negative result is an `errno`. -/
structure Cqe where
  entry : PollAdd
  result : ℤ
  deriving DecidableEq, Repr

def Cqe.event (c : Cqe) : Option Event :=
  if c.result < 0 then none
  else
    let mask := UInt32.ofNat c.result.toNat
    some ⟨c.entry.token, mask &&& pollIn ≠ 0, mask &&& pollOut ≠ 0⟩

structure UringIO where
  /-- The depth of the submission queue. -/
  entries : ℕ
  registrations : Table ℤ (UInt64 × Interest) := ∅
  submission : List PollAdd := []
  outstanding : List PollAdd := []

namespace UringIO

/-- `ring.submit()`, when it succeeds. -/
def submit (s : UringIO) : UringIO :=
  { s with submission := [], outstanding := s.outstanding ++ s.submission }

def entryOf (r : ℤ × UInt64 × Interest) : PollAdd := ⟨r.1, r.2.1, r.2.2.mask⟩

/-- The second part tells whether the call returns `Ok`. -/
def submitPoll (s : UringIO) (r : ℤ × UInt64 × Interest) (submitted : Bool) : UringIO × Bool :=
  if s.entries ≤ s.submission.length then (s, false)
  else
    let pushed := { s with submission := s.submission ++ [entryOf r] }
    if submitted then (pushed.submit, true) else (pushed, false)

def register (s : UringIO) (fd : ℤ) (token : UInt64) (interest : Interest) (submitted : Bool) : UringIO × Bool :=
  submitPoll { s with registrations := s.registrations.insert fd (token, interest) } (fd, token, interest) submitted

def deregister (s : UringIO) (fd : ℤ) : UringIO := { s with registrations := s.registrations.erase fd }

/-- The loop that arms again. It ends at the first failure. -/
def rearm : List (ℤ × UInt64 × Interest) → List Bool → UringIO → UringIO × Bool
  | [], _, s => (s, true)
  | r :: rs, submitted, s =>
    match s.submitPoll r (submitted.headD true) with
    | (s', true) => rearm rs submitted.tail s'
    | (s', false) => (s', false)

def toRearm (s : UringIO) (events : List Event) : List (ℤ × UInt64 × Interest) :=
  s.registrations.pairs.filter fun r => events.any fun e => e.token = r.2.1

/-- The loop of `poll` over the completions, and what follows. `pending` is what stays outstanding. The events are
those of an `Ok`. -/
def handle (s : UringIO) (cqes : List Cqe) (pending : List PollAdd) (submitted : List Bool) :
    UringIO × Option (List Event) :=
  let events := cqes.filterMap Cqe.event
  let r := rearm (s.toRearm events) submitted { s with outstanding := pending }
  (r.1, if r.2 then some events else none)

end UringIO

/-- The answer of `submit_and_wait`. An interrupted call may have submitted or not. -/
inductive Wait where
  | done
  | interrupted (submitted : Bool)
  | failed
  deriving DecidableEq, Repr

def UringIO.waited (s : UringIO) : Wait → UringIO
  | .done | .interrupted true => s.submit
  | .interrupted false | .failed => s

def UringIO.poll (s : UringIO) (wait : Wait) (cqes : List Cqe) (pending : List PollAdd) (submitted : List Bool) :
    UringIO × Option (List Event) :=
  if wait = .failed then (s, none) else (s.waited wait).handle cqes pending submitted

/-! ## Any calls -/

structure Client where
  io : UringIO
  /-- Whether the last call returned `Ok`, and the events that it returned. -/
  ok : Bool := true
  events : List Event := []
  /-- The tokens of the registrations that `deregister` has removed. -/
  removed : List UInt64 := []
  /-- The tokens that have completed with an error since they were registered. -/
  failed : List UInt64 := []

inductive Label where
  | register (fd : ℤ) (token : UInt64) (interest : Interest) (submitted : Bool)
  | deregister (fd : ℤ)
  | poll (wait : Wait) (cqes : List Cqe) (pending : List PollAdd) (submitted : List Bool)
  deriving DecidableEq, Repr

namespace Client

def register (s : Client) (fd : ℤ) (token : UInt64) (interest : Interest) (submitted : Bool) : Client :=
  { s with
    io := (s.io.register fd token interest submitted).1
    ok := (s.io.register fd token interest submitted).2
    events := []
    failed := s.failed.filter (· ≠ token) }

def deregister (s : Client) (fd : ℤ) : Client :=
  { s with
    io := s.io.deregister fd
    ok := true
    events := []
    removed := s.removed ++ ((s.io.registrations.lookup fd).map Prod.fst).toList }

def poll (s : Client) (wait : Wait) (cqes : List Cqe) (pending : List PollAdd) (submitted : List Bool) : Client :=
  { s with
    io := (s.io.poll wait cqes pending submitted).1
    ok := (s.io.poll wait cqes pending submitted).2.isSome
    events := (s.io.poll wait cqes pending submitted).2.getD []
    failed := s.failed ++ (cqes.filter (·.result < 0)).map (·.entry.token) }

/-- A completion belongs to an outstanding entry, and there is one for each. -/
def step (s : Client) : Label → Option Client
  | .register fd token interest submitted => some (s.register fd token interest submitted)
  | .deregister fd => some (s.deregister fd)
  | .poll wait cqes pending submitted =>
    if (cqes.map Cqe.entry ++ pending).Perm (s.io.waited wait).outstanding ∧ (wait = .failed → cqes = []) then
      some (s.poll wait cqes pending submitted)
    else none

end Client

def clients (entries : ℕ) : Machine Client Label where
  init := { io := { entries := entries } }
  step := Client.step

end Riftgate.Uring
