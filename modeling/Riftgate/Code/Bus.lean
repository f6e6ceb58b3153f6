import Mathlib.Data.PNat.Defs
import Riftgate.Lib.Channel
import Riftgate.Lib.Machine

/-!
# The bus of the observability events: `riftgate-obs/src/bus.rs` and `multi_sink.rs`

Any number of threads publish, and one worker hands what it receives to all sinks. A channel of capacity 0 would be a
rendezvous; `validate` refuses that capacity.
-/

open Lib

namespace Riftgate.Obs

variable {τ : Type}

/-- `drain`: in `recv`, or in the loop of `MultiSink::publish`, before the sink `next`. -/
inductive Worker (τ : Type) where
  | recv
  | publish (event : τ) (next : ℕ)
  | exited

/-- `handles` counts the `Publisher`s, and the bus has one of its own. `given` is what each sink has been called with. -/
structure Bus (τ : Type) where
  channel : Channel τ
  sinks : ℕ
  dropped : UInt64 := 0
  handles : ℕ := 1
  worker : Worker τ := .recv
  given : ℕ → List τ := fun _ => []

namespace Bus

def new (capacity : ℕ+) (sinks : ℕ) : Bus τ := { channel := .bounded capacity, sinks := sinks }

/-- The `try_send` of `publish`. It fails when the channel is full, or when the worker has exited with the receiver. -/
def trySend (b : Bus τ) (event : τ) : Option (Bus τ) :=
  match b.worker with
  | .exited => none
  | _ =>
    match b.channel.trySend event with
    | .ok channel => some { b with channel := channel }
    | .error _ => none

/-- The `fetch_add` of `publish`. -/
def countDropped (b : Bus τ) : Bus τ := { b with dropped := b.dropped + 1 }

/-- `recv` waits while the channel is empty and a `Publisher` is left. -/
def recv (b : Bus τ) : Option (Bus τ) :=
  match b.channel.tryRecv with
  | some (event, channel) => some { b with channel := channel, worker := .publish event 0 }
  | none => if b.handles = 0 then some { b with worker := .exited } else none

/-- One turn of `drain`. A sink that blocks is a turn that does not come. -/
def drain (b : Bus τ) : Option (Bus τ) :=
  match b.worker with
  | .recv => b.recv
  | .publish event next =>
    if next < b.sinks then
      some { b with
        given := Function.update b.given next (b.given next ++ [event])
        worker := .publish event (next + 1) }
    else some { b with worker := .recv }
  | .exited => none

end Bus

/-! ## Threads that publish -/

/-- `published` is what the threads have passed to `publish`, in that order. The threads of `counting` are between a
`try_send` that has failed and the `fetch_add`. -/
structure Publishing (τ : Type) where
  bus : Bus τ
  positions : ℕ → ℕ := fun _ => 0
  counting : List ℕ := []
  published : List τ := []

inductive Label where
  | publish (t : ℕ)
  | count (t : ℕ)
  | clone
  | drop
  | drain
  deriving DecidableEq, Repr

namespace Publishing

/-- `Publisher::publish` by the thread `t`, up to its `try_send`. -/
def publish (s : Publishing τ) (t : ℕ) (event : τ) : Publishing τ where
  bus := (s.bus.trySend event).getD s.bus
  positions := Function.update s.positions t (s.positions t + 1)
  counting := if (s.bus.trySend event).isSome then s.counting else t :: s.counting
  published := s.published ++ [event]

/-- The thread `t` publishes the events of `scripts t`, and it can stop anywhere. -/
def step (scripts : ℕ → List τ) (s : Publishing τ) : Label → Option (Publishing τ)
  | .publish t =>
    if s.bus.handles = 0 ∨ t ∈ s.counting then none else ((scripts t)[s.positions t]?).map (s.publish t)
  | .count t =>
    if t ∈ s.counting then some { s with bus := s.bus.countDropped, counting := s.counting.erase t } else none
  | .clone =>
    if s.bus.handles = 0 then none else some { s with bus := { s.bus with handles := s.bus.handles + 1 } }
  | .drop => if s.bus.handles = 0 then none else some { s with bus := { s.bus with handles := s.bus.handles - 1 } }
  | .drain => s.bus.drain.map fun bus => { s with bus := bus }

end Publishing

def publishing (capacity : ℕ+) (sinks : ℕ) (scripts : ℕ → List τ) : Machine (Publishing τ) Label where
  init := { bus := .new capacity sinks }
  step := Publishing.step scripts

end Riftgate.Obs
