import Mathlib.Logic.Function.Basic
import Riftgate.Lib.Machine

/-!
# Backpressure: `riftgate-core/src/backpressure.rs`

A call of `on_enqueue` loads the flag, decides, and stores the flag when it has changed. The steps of different calls
interleave. Durations are nanoseconds.
-/

open Lib

namespace Riftgate.Backpressure

inductive DenialReason where
  | rateLimit
  | queueFull
  | circuitOpen
  deriving DecidableEq, Repr

inductive AdmissionDecision where
  | admitted
  | reject (reason : DenialReason) (retryAfter : Nat)
  deriving DecidableEq, Repr

/-- What `new` asserts. -/
structure HighWaterPolicy where
  highWater : Nat
  lowWater : Nat
  retryAfter : Nat
  low_pos : 0 < lowWater
  low_lt_high : lowWater < highWater

namespace HighWaterPolicy

variable (p : HighWaterPolicy)

def newShedding (shedding : Bool) (depth : Nat) : Bool :=
  if shedding then decide (p.lowWater < depth) else decide (p.highWater ≤ depth)

def decision (shedding : Bool) : AdmissionDecision :=
  if shedding then .reject .queueFull p.retryAfter else .admitted

/-- A whole call: the flag that it leaves, and its answer. -/
def onEnqueue (shedding : Bool) (depth : Nat) : Bool × AdmissionDecision :=
  (p.newShedding shedding depth, p.decision (p.newShedding shedding depth))

end HighWaterPolicy

/-! ## Many callers -/

inductive Call where
  | idle
  | loaded (depth : Nat) (shedding : Bool)
  | returned (answer : AdmissionDecision)
  deriving DecidableEq, Repr

structure State where
  shedding : Bool := false
  calls : Nat → Call := fun _ => .idle

inductive Label where
  | load (i depth : Nat)
  | store (i : Nat)
  deriving DecidableEq, Repr

def State.step (p : HighWaterPolicy) (s : State) : Label → Option State
  | .load i depth =>
    match s.calls i with
    | .idle => some { s with calls := Function.update s.calls i (.loaded depth s.shedding) }
    | _ => none
  | .store i =>
    match s.calls i with
    | .loaded depth shedding =>
      let new := p.newShedding shedding depth
      some
        { shedding := if new ≠ shedding then new else s.shedding
          calls := Function.update s.calls i (.returned (p.decision new)) }
    | _ => none

def policy (p : HighWaterPolicy) : Machine State Label where
  init := {}
  step := State.step p

end Riftgate.Backpressure
