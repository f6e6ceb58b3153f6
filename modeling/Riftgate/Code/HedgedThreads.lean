import Riftgate.Lib.Machine
import Riftgate.Code.Hedged

/-!
# Threads in the hedged router: `riftgate-router/src/hedged.rs`

`route` cut at what it does to the shared state: the two counters and the mutex of the estimators. The inner
router may answer anything and change its own state as it likes. `on_response` holds the mutex while it observes.
-/

open Lib

namespace Riftgate.Hedged

open Router

variable {F : Type} [Arith F] {ρ : Type}

structure RouteArgs where
  pool : BackendPool
  signals : BackendSignals

inductive Pc where
  | idle
  | inner (r : RouteArgs)
  | count (r : RouteArgs) (decision : RoutingDecision)
  | quantile (r : RouteArgs) (primary : BackendId)
  | loadTotal (r : RouteArgs) (primary : BackendId)
  | loadFired (r : RouteArgs) (primary : BackendId) (total : UInt64)
  | pickSecondary (r : RouteArgs) (primary : BackendId) -- the budget allows it
  | fire (primary secondary : BackendId)
  | routed (decision : RoutingDecision)

/-- Only a `Send` can become a hedge. -/
def afterCount (r : RouteArgs) : RoutingDecision → Pc
  | .send primary => .quantile r primary
  | other => .routed other

def afterQuantile (cfg : HedgedConfig F) (r : RouteArgs) (primary : BackendId) : Option F → Pc
  | none => .routed (.send primary)
  | some qMs => if Arith.toF32 qMs < cfg.hedgeMinThresholdMs then .routed (.send primary) else .loadTotal r primary

def afterPick (primary : BackendId) : Option BackendId → Pc
  | some secondary => .fire primary secondary
  | none => .routed (.send primary)

/-- The two loads of `budget_allows` are two steps. -/
def move (sh : HedgedRouter F ρ) : Pc → Option (HedgedRouter F ρ × Pc)
  | .count r decision => some ({ sh with decisionsTotal := sh.decisionsTotal + 1 }, afterCount r decision)
  | .quantile r primary => some (sh, afterQuantile sh.cfg r primary (sh.quantileMs primary))
  | .loadTotal r primary =>
    some (sh, if sh.decisionsTotal = 0 then .pickSecondary r primary else .loadFired r primary sh.decisionsTotal)
  | .loadFired r primary total =>
    some (sh,
      if (sh.hedgesTotal.toNat : F) / (total.toNat : F) < sh.cfg.hedgeMaxFraction then .pickSecondary r primary
      else .routed (.send primary))
  | .pickSecondary r primary => some (sh, afterPick primary (Router.pickSecondary primary r.pool r.signals))
  | .fire primary secondary =>
    some ({ sh with hedgesTotal := sh.hedgesTotal + 1 }, .routed (.hedge [primary, secondary]))
  | _ => none

/-! ## Threads that call `route`, of which at most `k` run -/

structure Threads (F : Type) [Arith F] (ρ : Type) (k : Nat) where
  shared : HedgedRouter F ρ
  pcs : Fin k → Pc := fun _ => .idle

inductive Label (ρ : Type) (k : Nat) where
  | route (t : Fin k) (pool : BackendPool) (signals : BackendSignals)
  | decide (t : Fin k) (inner : ρ) (decision : RoutingDecision)
  | move (t : Fin k)
  | onResponse (decision : RoutingDecision) (outcome : Outcome)

def Pc.free : Pc → Bool
  | .idle | .routed _ => true
  | _ => false

def Threads.decide {k : Nat} (s : Threads F ρ k) (t : Fin k) (inner : ρ) (decision : RoutingDecision) :
    Option (Threads F ρ k) :=
  match s.pcs t with
  | .inner r => some ⟨{ s.shared with inner := inner }, Function.update s.pcs t (.count r decision)⟩
  | _ => none

variable [Router ρ] {k : Nat}

def Threads.step (s : Threads F ρ k) : Label ρ k → Option (Threads F ρ k)
  | .route t pool signals =>
    if (s.pcs t).free then some { s with pcs := Function.update s.pcs t (.inner ⟨pool, signals⟩) } else none
  | .decide t inner decision => s.decide t inner decision
  | .move t => (Hedged.move s.shared (s.pcs t)).map fun r => ⟨r.1, Function.update s.pcs t r.2⟩
  | .onResponse decision outcome => some { s with shared := s.shared.onResponse decision outcome }

def threads (inner : ρ) (cfg : HedgedConfig F) (k : Nat) : Machine (Threads F ρ k) (Label ρ k) where
  init := { shared := { inner := inner, cfg := cfg } }
  step := Threads.step

end Riftgate.Hedged
