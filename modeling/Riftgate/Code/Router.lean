import Mathlib.Logic.Function.Basic
import Riftgate.Lib.Bytes

/-!
# Routing types: `riftgate-core/src/router.rs`

An `f32` signal is its bits here: the routers only compare it with a constant.
-/

open Lib

namespace Riftgate.Router

structure BackendId where
  id : UInt16
  deriving DecidableEq, Repr

structure StatusCode where
  code : UInt16
  deriving DecidableEq, Repr

inductive CircuitState where
  | closed
  | «open»
  | halfOpen
  deriving DecidableEq, Repr

structure BackendSignal where
  circuitState : CircuitState := .closed
  gpuPressure : Option UInt32 := none
  recentP99Ms : UInt32 := 0
  deriving DecidableEq, Repr

/-- Indexed by backend id. -/
structure BackendSignals where
  signals : List BackendSignal
  deriving DecidableEq, Repr

def BackendSignals.get (s : BackendSignals) (b : BackendId) : BackendSignal :=
  (s.signals[b.id.toNat]?).getD {}

structure BackendPool where
  backends : List BackendId
  deriving DecidableEq, Repr

def BackendPool.getModulo (pool : BackendPool) (index : Nat) : Option BackendId :=
  pool.backends[index % pool.backends.length]?

inductive Body where
  | empty
  | bytes (v : List Byte)
  deriving DecidableEq, Repr

/-- The part of a request that a router reads. -/
structure Request where
  body : Body
  deriving DecidableEq, Repr

inductive RoutingDecision where
  | send (b : BackendId)
  | hedge (bs : List BackendId)
  | reject (status : StatusCode)
  deriving DecidableEq, Repr

structure Outcome where
  backend : BackendId
  status : Option StatusCode
  duration : Nat -- in nanoseconds
  ok : Bool
  deriving DecidableEq, Repr

end Riftgate.Router

/-- The trait. A router is its state: a call of `&self` gives back the state with its new atomics and
the contents of its mutexes. -/
class Riftgate.Router (ρ : Type) where
  route : ρ → Router.Request → Router.BackendPool → Router.BackendSignals → ρ × Router.RoutingDecision
  onResponse : ρ → Router.RoutingDecision → Router.Outcome → ρ := fun r _ _ => r
