import Riftgate.Lib.Machine
import Riftgate.Code.Circuit

/-!
# Threads in the circuit breaker: `riftgate-router/src/circuit.rs`

`route` and `on_response` cut at the points where they take or drop a mutex. Where the source
locks `breakers`, does one thing and unlocks, that is one step, which needs the mutex to be free.
Two functions take both mutexes. `maybe_transition_open_to_halfopen` takes `transitioned_at`
first, and `record_outcome` takes `breakers` first.

The inner router may answer anything. Guards are dropped in the reverse order of their `let`.
-/

open Lib

namespace Riftgate.Circuit

open Router

structure Shared where
  arbiter : Arbiter := {}
  breakersLock : Option Nat := none
  transitionedLock : Option Nat := none

structure RouteArgs where
  pool : BackendPool
  signals : BackendSignals
  rest : List BackendId

inductive Pc where
  | idle
  | ensure (r : RouteArgs) (b : BackendId)
  | readClock (r : RouteArgs) (b : BackendId)
  | wantTransitioned (r : RouteArgs) (b : BackendId) (now : Nat)
  | holdTransitioned (r : RouteArgs) (b : BackendId) (now : Nat) -- wants `breakers`
  | holdBoth (r : RouteArgs) (b : BackendId) (now : Nat)
  | dropTransitioned (r : RouteArgs)
  | build (r : RouteArgs)
  | inner (merged : BackendSignals)
  | probe (b : BackendId)
  | routed (decision : RoutingDecision)
  | recEnsure (o : Outcome)
  | recWantBreakers (o : Outcome)
  | recHoldBreakers (o : Outcome) -- wants `transitioned_at`
  | recHoldBoth (o : Outcome)
  | recDropBreakers (o : Outcome)
  | reported (o : Outcome)

/-- What a thread does next. The clock and the inner router answer from outside. -/
inductive Move where
  | go
  | clock (now : Nat)
  | decide (decision : RoutingDecision)

def RouteArgs.next (r : RouteArgs) : Pc :=
  match r.rest with
  | [] => .build r
  | b :: rest => .ensure { r with rest := rest } b

def startRoute (pool : BackendPool) (signals : BackendSignals) : Pc := (RouteArgs.mk pool signals pool.backends).next

def startOnResponse (o : Outcome) : Pc := .recEnsure o

/-- The last block of `route` is for `Send` only. -/
def afterInner : RoutingDecision → Pc
  | .send b => .probe b
  | d => .routed d

def move (cfg : CircuitBreakerConfig) (t : Nat) (sh : Shared) : Pc → Move → Option (Shared × Pc)
  | .ensure r b, .go =>
    if sh.breakersLock = none then some ({ sh with arbiter := ensureBackend sh.arbiter b }, .readClock r b) else none
  | .readClock r b, .clock now => some (sh, .wantTransitioned r b now)
  | .wantTransitioned r b now, .go =>
    if sh.transitionedLock = none then some ({ sh with transitionedLock := some t }, .holdTransitioned r b now)
    else none
  | .holdTransitioned r b now, .go =>
    if sh.breakersLock = none then some ({ sh with breakersLock := some t }, .holdBoth r b now) else none
  | .holdBoth r b now, .go =>
    some ({ sh with arbiter := maybeTransitionOpenToHalfopen cfg sh.arbiter b now, breakersLock := none },
      .dropTransitioned r)
  | .dropTransitioned r, .go => some ({ sh with transitionedLock := none }, r.next)
  | .build r, .go =>
    if sh.breakersLock = none then some (sh, .inner (buildSignals cfg sh.arbiter r.pool r.signals)) else none
  | .inner _, .decide d => some (sh, afterInner d)
  | .probe b, .go =>
    if sh.breakersLock = none then some ({ sh with arbiter := countProbe sh.arbiter b }, .routed (.send b)) else none
  | .recEnsure o, .go =>
    if sh.breakersLock = none then
      some ({ sh with arbiter := ensureBackend sh.arbiter o.backend }, .recWantBreakers o)
    else none
  | .recWantBreakers o, .go =>
    if sh.breakersLock = none then
      match sh.arbiter.breakers o.backend with
      | none => some (sh, .reported o)
      | some _ => some ({ sh with breakersLock := some t }, .recHoldBreakers o)
    else none
  | .recHoldBreakers o, .go =>
    if sh.transitionedLock = none then some ({ sh with transitionedLock := some t }, .recHoldBoth o) else none
  | .recHoldBoth o, .clock now =>
    (sh.arbiter.breakers o.backend).map fun br =>
      ({ sh with arbiter := recordOutcome cfg sh.arbiter o br now, transitionedLock := none }, .recDropBreakers o)
  | .recDropBreakers o, .go => some ({ sh with breakersLock := none }, .reported o)
  | _, _ => none

/-! ## Any threads that call `route` and `on_response` -/

structure Threads where
  shared : Shared := {}
  pcs : Nat → Pc := fun _ => .idle

inductive Label where
  | route (t : Nat) (pool : BackendPool) (signals : BackendSignals)
  | onResponse (t : Nat) (o : Outcome)
  | move (t : Nat) (m : Move)

def Pc.free : Pc → Bool
  | .idle | .routed _ | .reported _ => true
  | _ => false

def Threads.step (cfg : CircuitBreakerConfig) (s : Threads) : Label → Option Threads
  | .route t pool signals =>
    if (s.pcs t).free then some { s with pcs := Function.update s.pcs t (startRoute pool signals) } else none
  | .onResponse t o =>
    if (s.pcs t).free then some { s with pcs := Function.update s.pcs t (startOnResponse o) } else none
  | .move t m =>
    (Circuit.move cfg t s.shared (s.pcs t) m).map fun r => ⟨r.1, Function.update s.pcs t r.2⟩

def threads (cfg : CircuitBreakerConfig) : Machine Threads Label where
  init := {}
  step := Threads.step cfg

end Riftgate.Circuit
