import Riftgate.Breaker
import Riftgate.Code.Gateway

/-!
# What a step of the gateway is

One rule for each kind of step, for all proofs about requests in flight.
-/

open Lib

namespace Riftgate.Gateway

open Router Circuit Proxy

/-! ## The steps, one by one -/

inductive Phases : Phase → Label → Phase → Prop where
  | decided (d : RoutingDecision) (k : Nat) : Phases (.routing (.routed d)) (.decided k) (afterRoute d)
  | answered (b : BackendId) (k : Nat) (status : UInt16) (headers : Headers) (duration : Nat) :
      Phases (.sent b) (.upstream k (.response status headers) duration)
        (.reporting b (startOnResponse (buildOutcome b status duration)))
  | lost (b : BackendId) (a : Label) : Phases (.sent b) a .ended
  | finish (b : BackendId) (o : Outcome) (k : Nat) : Phases (.reporting b (.reported o)) (.finish k) .ended

theorem phases_of_nextPhase {phase phase' : Phase} {a : Label} (h : nextPhase phase a = some phase') :
    Phases phase a phase' := by
  unfold nextPhase at h
  split at h
  · cases h
    exact .decided _ _
  · cases h
    exact .lost _ _
  · rename_i b k result duration
    cases h
    cases result with
    | response status headers => exact .answered b k status headers duration
    | failed | elapsed => exact .lost _ _
  · cases h
    exact .lost _ _
  · cases h
    exact .finish _ _ _
  · cases h

theorem nextPhase_move (phase : Phase) (k : Nat) (m : Move) : nextPhase phase (.move k m) = none := by
  unfold nextPhase
  split <;> first | rfl | contradiction

inductive Steps (cfg : CircuitBreakerConfig) (s : State) : Label → State → Prop where
  | arrive (pool : BackendPool) (signals : BackendSignals) :
      Steps cfg s (.arrive pool signals)
        { s with requests := s.requests ++ [⟨.routing (startRoute pool signals), none⟩] }
  | routing {k : Nat} {r : Handler} {m : Move} {pc pc' : Pc} {sh' : Shared} (hk : s.requests[k]? = some r)
      (hphase : r.phase = .routing pc) (hm : Moves cfg k s.shared pc m sh' pc') :
      Steps cfg s (.move k m) (s.set k sh' ⟨.routing pc', markAt s.shared.arbiter r.mark pc⟩)
  | reporting {k : Nat} {r : Handler} {m : Move} {b : BackendId} {pc pc' : Pc} {sh' : Shared}
      (hk : s.requests[k]? = some r) (hphase : r.phase = .reporting b pc) (hm : Moves cfg k s.shared pc m sh' pc') :
      Steps cfg s (.move k m) (s.set k sh' ⟨.reporting b pc', r.mark⟩)
  | handler {k : Nat} {r : Handler} {a : Label} {phase : Phase} (hk : s.requests[k]? = some r)
      (hreq : a.request = some k) (hp : nextPhase r.phase a = some phase) :
      Steps cfg s a (s.set k s.shared ⟨phase, r.mark⟩)

theorem steps_of_step {cfg : CircuitBreakerConfig} {s s' : State} {a : Label} (h : s.step cfg a = some s') :
    Steps cfg s a s' := by
  unfold State.step at h
  split at h
  · cases h
    exact .arrive _ _
  · obtain ⟨r, hk, h⟩ := Option.bind_eq_some_iff.mp h
    unfold State.move at h
    split at h
    · rename_i pc hphase
      obtain ⟨x, hx, rfl⟩ := Option.map_eq_some_iff.mp h
      exact .routing hk hphase (moves_of_move hx)
    · rename_i b pc hphase
      obtain ⟨x, hx, rfl⟩ := Option.map_eq_some_iff.mp h
      exact .reporting hk hphase (moves_of_move hx)
    · cases h
  · obtain ⟨k, hreq, h⟩ := Option.bind_eq_some_iff.mp h
    obtain ⟨r, hk, h⟩ := Option.bind_eq_some_iff.mp h
    obtain ⟨phase, hp, rfl⟩ := Option.map_eq_some_iff.mp h
    exact .handler hk hreq hp

/-! ## The outcome that a request reports -/

def outcomeOf : Pc → Option Outcome
  | .recEnsure o | .recWantBreakers o | .recHoldBreakers o | .recHoldBoth o | .recDropBreakers o | .reported o =>
    some o
  | _ => none

theorem outcomeOf_next (r : RouteArgs) : outcomeOf r.next = none := by
  unfold RouteArgs.next
  split <;> rfl

theorem moves_outcome {cfg : CircuitBreakerConfig} {t : Nat} {sh sh' : Shared} {pc pc' : Pc} {m : Move}
    (h : Moves cfg t sh pc m sh' pc') : outcomeOf pc' = outcomeOf pc := by
  cases h with
  | dropTransitioned r => exact outcomeOf_next r
  | inner merged d => cases d <;> rfl
  | _ => rfl

/-! ## Traces -/

/-- The steps of request `k` through `route`, up to the upstream. -/
def routeTo (k : Nat) (b : BackendId) : List Label :=
  [.arrive ⟨[b]⟩ ⟨[]⟩, .move k .go, .move k (.clock 0), .move k .go, .move k .go, .move k .go, .move k .go,
    .move k .go, .move k (.decide (.send b)), .move k .go, .decided k]

/-- The steps of request `k` through `on_response`, after an answer with `status`. -/
def answerWith (k : Nat) (status : UInt16) : List Label :=
  [.upstream k (.response status []) 0, .move k .go, .move k .go, .move k .go, .move k (.clock 0), .move k .go,
    .finish k]

end Riftgate.Gateway
