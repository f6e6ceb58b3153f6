import Riftgate.Code.CircuitThreads
import Riftgate.Code.Proxy

/-!
# Many requests in flight: `riftgate/src/proxy.rs` over `riftgate-router/src/circuit.rs`

Each request runs `handle` from its call of `route` on. It shares the breakers with all others, and
its steps interleave with theirs. While it waits for the upstream, its future may be dropped.
-/

open Lib

namespace Riftgate.Gateway

open Router Circuit Proxy

inductive Phase where
  | routing (pc : Pc)
  | sent (b : BackendId) -- routed to `b`, and no answer yet
  | reporting (b : BackendId) (pc : Pc)
  | ended

/-- `mark` is set when the request was counted as a probe: the backend, and how often its counter
had been reset. The program does not keep it. -/
structure Handler where
  phase : Phase
  mark : Option (BackendId × Nat) := none

structure State where
  shared : Shared := {}
  requests : List Handler := []

inductive Label where
  | arrive (pool : BackendPool) (signals : BackendSignals)
  | move (k : Nat) (m : Move)
  | decided (k : Nat)
  | uriError (k : Nat)
  | upstream (k : Nat) (result : UpstreamResult) (duration : Nat)
  | drop (k : Nat)
  | finish (k : Nat)

def afterRoute : RoutingDecision → Phase
  | .send b => .sent b
  | _ => .ended

def afterUpstream (b : BackendId) (duration : Nat) : UpstreamResult → Phase
  | .response status _ => .reporting b (startOnResponse (buildOutcome b status duration))
  | .failed _ | .elapsed => .ended

def markAt (a : Arbiter) (mark : Option (BackendId × Nat)) : Pc → Option (BackendId × Nat)
  | .probe b => if (a.breakers b).any (·.tag = tagHalfOpen) then some (b, a.resets b) else mark
  | _ => mark

def State.set (s : State) (k : Nat) (sh : Shared) (r : Handler) : State := ⟨sh, s.requests.set k r⟩

def State.move (cfg : CircuitBreakerConfig) (s : State) (k : Nat) (r : Handler) (m : Move) : Option State :=
  match r.phase with
  | .routing pc => (Circuit.move cfg k s.shared pc m).map fun x =>
      s.set k x.1 ⟨.routing x.2, markAt s.shared.arbiter r.mark pc⟩
  | .reporting b pc => (Circuit.move cfg k s.shared pc m).map fun x => s.set k x.1 ⟨.reporting b x.2, r.mark⟩
  | _ => none

def nextPhase : Phase → Label → Option Phase
  | .routing (.routed d), .decided _ => some (afterRoute d)
  | .sent _, .uriError _ => some .ended
  | .sent b, .upstream _ result duration => some (afterUpstream b duration result)
  | .sent _, .drop _ => some .ended
  | .reporting _ (.reported _), .finish _ => some .ended
  | _, _ => none

def Label.request : Label → Option Nat
  | .arrive _ _ => none
  | .move k _ | .decided k | .uriError k | .upstream k _ _ | .drop k | .finish k => some k

def State.step (cfg : CircuitBreakerConfig) (s : State) : Label → Option State
  | .arrive pool signals => some { s with requests := s.requests ++ [⟨.routing (startRoute pool signals), none⟩] }
  | .move k m => (s.requests[k]?).bind fun r => s.move cfg k r m
  | a => a.request.bind fun k => (s.requests[k]?).bind fun r =>
      (nextPhase r.phase a).map fun phase => s.set k s.shared ⟨phase, r.mark⟩

def gateway (cfg : CircuitBreakerConfig) : Machine State Label where
  init := {}
  step := State.step cfg

/-! ## Requests in flight -/

/-- The backend that the request is routed to, as long as it is in flight. -/
def Handler.target (r : Handler) : Option BackendId :=
  match r.phase with
  | .routing (.probe b) | .routing (.routed (.send b)) => some b
  | .sent b | .reporting b _ => some b
  | _ => none

def State.inFlight (s : State) (b : BackendId) : Nat := s.requests.countP fun r => r.target = some b

end Riftgate.Gateway
