import Riftgate.Code.Router

/-!
# The circuit breaker: `riftgate-router/src/circuit.rs`

What each function of `CircuitBreakerArbiter` does to the two maps while it holds their mutexes.
Who holds which mutex when is in `Code/CircuitThreads.lean`. Instants are nanoseconds.
-/

namespace Riftgate.Circuit

open Router

structure CircuitBreakerConfig where
  failureThreshold : UInt32 := 5
  resetTimeout : Nat := 30 * 1000000000
  halfOpenMax : UInt32 := 1
  deriving DecidableEq, Repr

/-! ## The packed state -/

def packState (tag failures : UInt32) : UInt64 := tag.toUInt64 <<< 32 ||| failures.toUInt64

def unpackState (s : UInt64) : UInt32 × UInt32 := ((s >>> 32).toUInt32, (s &&& 0xFFFFFFFF).toUInt32)

def tagClosed : UInt32 := 0
def tagOpen : UInt32 := 1
def tagHalfOpen : UInt32 := 2

def tagToState (tag : UInt32) : CircuitState :=
  if tag = tagOpen then .open else if tag = tagHalfOpen then .halfOpen else .closed

structure BackendBreaker where
  state : UInt64 := packState tagClosed 0
  halfOpenInflight : UInt64 := 0
  deriving DecidableEq, Repr

def BackendBreaker.tag (br : BackendBreaker) : UInt32 := (unpackState br.state).1
def BackendBreaker.failures (br : BackendBreaker) : UInt32 := (unpackState br.state).2

/-- The two maps. `resets` counts how often the probe counter of a backend was set to 0 by a
transition. The program does not keep it. -/
structure Arbiter where
  breakers : BackendId → Option BackendBreaker := fun _ => none
  transitionedAt : BackendId → Option Nat := fun _ => none
  resets : BackendId → Nat := fun _ => 0

def Arbiter.setBreaker (a : Arbiter) (b : BackendId) (br : BackendBreaker) : Arbiter :=
  { a with breakers := Function.update a.breakers b (some br) }

def Arbiter.setInstant (a : Arbiter) (b : BackendId) (now : Nat) : Arbiter :=
  { a with transitionedAt := Function.update a.transitionedAt b (some now) }

/-- The new state of a transition that also stores 0 into `half_open_inflight`. -/
def Arbiter.reset (a : Arbiter) (b : BackendId) (tag : UInt32) : Arbiter :=
  { a.setBreaker b ⟨packState tag 0, 0⟩ with resets := Function.update a.resets b (a.resets b + 1) }

def Arbiter.stateOf (a : Arbiter) (b : BackendId) : CircuitState :=
  (a.breakers b).elim .closed fun br => tagToState br.tag

def Arbiter.inflight (a : Arbiter) (b : BackendId) : UInt64 := (a.breakers b).elim 0 (·.halfOpenInflight)

/-! ## The functions -/

def ensureBackend (a : Arbiter) (b : BackendId) : Arbiter := a.setBreaker b ((a.breakers b).getD {})

def maybeTransitionOpenToHalfopen (cfg : CircuitBreakerConfig) (a : Arbiter) (b : BackendId) (now : Nat) :
    Arbiter :=
  match a.breakers b, a.transitionedAt b with
  | some br, some t =>
    if br.tag = tagOpen ∧ cfg.resetTimeout ≤ now - t then (a.reset b tagHalfOpen).setInstant b now else a
  | _, _ => a

/-- What the inner router is shown of one backend of the pool. -/
def signalOf (cfg : CircuitBreakerConfig) (a : Arbiter) (signals : BackendSignals) (b : BackendId) : BackendSignal :=
  match a.breakers b with
  | none => signals.get b
  | some br =>
    if br.tag = tagHalfOpen ∧ cfg.halfOpenMax.toUInt64 ≤ br.halfOpenInflight
    then { signals.get b with circuitState := .open } -- no probe is left
    else { signals.get b with circuitState := tagToState br.tag }

/-- `build_signals`. The vector goes up to the largest id of the pool. -/
def buildSignals (cfg : CircuitBreakerConfig) (a : Arbiter) (pool : BackendPool) (signals : BackendSignals) :
    BackendSignals :=
  let maxId := (pool.backends.map fun b => b.id.toNat).foldl max 0
  ⟨(List.range (maxId + 1)).map fun i =>
    match pool.backends.find? fun b => b.id.toNat = i with
    | none => {}
    | some b => signalOf cfg a signals b⟩

/-- The last block of `route`: a half-open probe is counted. -/
def countProbe (a : Arbiter) (b : BackendId) : Arbiter :=
  match a.breakers b with
  | none => a
  | some br =>
    if br.tag = tagHalfOpen then a.setBreaker b { br with halfOpenInflight := br.halfOpenInflight + 1 } else a

def countsAsFailure (s : StatusCode) : Bool := decide (500 ≤ s.code) || s.code = 408 || s.code = 429

def outcomeFails (outcome : Outcome) : Bool := !outcome.ok || outcome.status.any countsAsFailure

/-- `record_outcome` under both mutexes, on the breaker that it has found. -/
def recordOutcome (cfg : CircuitBreakerConfig) (a : Arbiter) (outcome : Outcome) (br : BackendBreaker) (now : Nat) :
    Arbiter :=
  let b := outcome.backend
  if br.tag = tagClosed then
    if outcomeFails outcome then
      let next := br.failures + 1
      if cfg.failureThreshold ≤ next
      then (a.setBreaker b { br with state := packState tagOpen 0 }).setInstant b now
      else a.setBreaker b { br with state := packState tagClosed next }
    else if 0 < br.failures then a.setBreaker b { br with state := packState tagClosed 0 } else a
  else if br.tag = tagHalfOpen then
    if outcomeFails outcome then (a.reset b tagOpen).setInstant b now else a.reset b tagClosed
  else a -- an outcome that arrives while the breaker is open changes nothing

/-! ## Whole calls, one after the other

The clock is read once for each backend of the pool. A list has the pool and the readings.
-/

structure CircuitBreakerArbiter (ρ : Type) where
  inner : ρ
  cfg : CircuitBreakerConfig
  arbiter : Arbiter := {}

/-- The loop of `route` over the pool. -/
def visit (cfg : CircuitBreakerConfig) (a : Arbiter) (looks : List (BackendId × Nat)) : Arbiter :=
  looks.foldl (fun a look => maybeTransitionOpenToHalfopen cfg (ensureBackend a look.1) look.1 look.2) a

def poolOf (looks : List (BackendId × Nat)) : BackendPool := ⟨looks.map (·.1)⟩

def countDecision (a : Arbiter) : RoutingDecision → Arbiter
  | .send b => countProbe a b
  | _ => a

variable {ρ : Type} [Router ρ]

def CircuitBreakerArbiter.route (s : CircuitBreakerArbiter ρ) (req : Request) (looks : List (BackendId × Nat))
    (signals : BackendSignals) : CircuitBreakerArbiter ρ × RoutingDecision :=
  let a := visit s.cfg s.arbiter looks
  let merged := buildSignals s.cfg a (poolOf looks) signals
  let r := Router.route s.inner req (poolOf looks) merged
  ({ s with inner := r.1, arbiter := countDecision a r.2 }, r.2)

def onOutcome (cfg : CircuitBreakerConfig) (a : Arbiter) (outcome : Outcome) (now : Nat) : Arbiter :=
  let a := ensureBackend a outcome.backend
  match a.breakers outcome.backend with
  | none => a
  | some br => recordOutcome cfg a outcome br now

def CircuitBreakerArbiter.onResponse (s : CircuitBreakerArbiter ρ) (decision : RoutingDecision) (outcome : Outcome)
    (now : Nat) : CircuitBreakerArbiter ρ :=
  { s with
    inner := Router.onResponse s.inner decision outcome
    arbiter := onOutcome s.cfg s.arbiter outcome now }

end Riftgate.Circuit
