import Mathlib.Data.Fin.VecNotation
import Mathlib.Data.List.Sort
import Riftgate.Code.Router

/-!
# Hedged requests: `riftgate-router/src/hedged.rs`

The estimators compute with `f64`. The code is the same over other numbers, so it is written once
for all of them. The counter that only telemetry reads is left out.
-/

namespace Riftgate.Router

/-- What the code does with a number. `toF32` is the cast to `f32`. -/
class Arith (F : Type) extends Zero F, One F, NatCast F, Add F, Sub F, Mul F, Div F, Neg F, LT F, LE F where
  decLt : DecidableLT F
  decLe : DecidableLE F
  toF32 : F → F

instance : Arith Float where
  zero := 0.0
  one := 1.0
  natCast := Float.ofNat
  decLt := inferInstance
  decLe := inferInstance
  toF32 x := x.toFloat32.toFloat

/-- Exact arithmetic. -/
instance : Arith Rat where
  decLt := inferInstance
  decLe := inferInstance
  toF32 x := x

variable {F : Type} [Arith F]

instance (a b : F) : Decidable (a < b) := Arith.decLt a b

instance (a b : F) : Decidable (a ≤ b) := Arith.decLe a b

/-! ## The P² estimator -/

structure P2Estimator (F : Type) where
  q : Fin 5 → F
  n : Fin 5 → F
  nPrime : Fin 5 → F
  dn : Fin 5 → F
  count : UInt32
  p : F

def P2Estimator.new (p : F) : P2Estimator F where
  q _ := 0
  n _ := 0
  nPrime _ := 0
  dn := ![0, p / (2 : Nat), p, (1 + p) / (2 : Nat), 1]
  count := 0
  p := p

/-- The first five observations are kept, and sorted when they are all there. -/
def P2Estimator.fill (e : P2Estimator F) (x : F) : P2Estimator F :=
  let q := Function.update e.q (Fin.ofNat 5 e.count.toNat) x
  let count := e.count + 1
  if count = 5 then
    let sorted := (List.ofFn q).insertionSort fun a b => ¬ b < a
    { e with
      q := fun i => sorted.getD i 0
      n := ![0, 1, (2 : Nat), (3 : Nat), (4 : Nat)]
      nPrime := ![0, (2 : Nat) * e.p, (4 : Nat) * e.p, (2 : Nat) + (2 : Nat) * e.p, (4 : Nat)]
      count := count }
  else { e with q := q, count := count }

/-- The cell of `x`. An outer marker moves when `x` is outside. -/
def P2Estimator.locate (e : P2Estimator F) (x : F) : (Fin 5 → F) × Fin 5 :=
  if x < e.q 0 then (Function.update e.q 0 x, 0)
  else if e.q 4 ≤ x then (Function.update e.q 4 x, 3)
  else (e.q, (([0, 1, 2, 3] : List (Fin 5)).find? fun i => e.q i ≤ x ∧ x < e.q (i + 1)).getD 3)

/-- It is only asked for the sign of a number that is at least 1 or at most -1. -/
def signum (d : F) : F := if d < 0 then -1 else 1

def P2Estimator.parabolic (e : P2Estimator F) (i : Fin 5) (dsign : F) : F :=
  let np := e.n (i + 1) - e.n i
  let nm := e.n (i - 1) - e.n i
  e.q i + dsign / (e.n (i + 1) - e.n (i - 1)) *
    ((e.n i - e.n (i - 1) + dsign) * (e.q (i + 1) - e.q i) / np +
      (e.n (i + 1) - e.n i - dsign) * (e.q i - e.q (i - 1)) / nm)

def P2Estimator.linear (e : P2Estimator F) (i : Fin 5) (dsign : F) : F :=
  let neighbour := if 0 < dsign then i + 1 else i - 1
  e.q i + dsign * (e.q neighbour - e.q i) / (e.n neighbour - e.n i)

/-- One of the markers 1 to 3. -/
def P2Estimator.adjust (e : P2Estimator F) (i : Fin 5) : P2Estimator F :=
  let d := e.nPrime i - e.n i
  let np := e.n (i + 1) - e.n i
  let nm := e.n (i - 1) - e.n i
  if (1 ≤ d ∧ 1 < np) ∨ (d ≤ -1 ∧ nm < -1) then
    let dsign := signum d
    let qp := e.parabolic i dsign
    let newQ := if e.q (i - 1) < qp ∧ qp < e.q (i + 1) then qp else e.linear i dsign
    { e with q := Function.update e.q i newQ, n := Function.update e.n i (e.n i + dsign) }
  else e

def P2Estimator.observe (e : P2Estimator F) (x : F) : P2Estimator F :=
  if e.count < 5 then e.fill x
  else
    let (q, k) := e.locate x
    let n := fun i => if k < i then e.n i + 1 else e.n i
    let nPrime := fun i => e.nPrime i + e.dn i
    let e := ([1, 2, 3] : List (Fin 5)).foldl P2Estimator.adjust { e with q := q, n := n, nPrime := nPrime }
    { e with count := if e.count = UInt32.ofNat (2 ^ 32 - 1) then e.count else e.count + 1 } -- saturating

def P2Estimator.quantile (e : P2Estimator F) : Option F := if e.count < 5 then none else some (e.q 2)

/-! ## The router -/

structure HedgedConfig (F : Type) [Arith F] where
  hedgeAfterQuantile : F := (95 : Nat) / (100 : Nat)
  hedgeMaxFraction : F := (5 : Nat) / (100 : Nat)
  hedgeMinThresholdMs : F := (50 : Nat)
  warmupObservations : UInt32 := 25

structure HedgedRouter (F : Type) [Arith F] (ρ : Type) where
  inner : ρ
  cfg : HedgedConfig F
  estimators : BackendId → Option (P2Estimator F) := fun _ => none
  decisionsTotal : UInt64 := 0
  hedgesTotal : UInt64 := 0

variable {ρ : Type}

def HedgedRouter.budgetAllows (r : HedgedRouter F ρ) : Bool :=
  decide (r.decisionsTotal = 0) ||
    decide ((r.hedgesTotal.toNat : F) / (r.decisionsTotal.toNat : F) < r.cfg.hedgeMaxFraction)

/-- The first closed backend that is not the primary. -/
def pickSecondary (primary : BackendId) (pool : BackendPool) (signals : BackendSignals) : Option BackendId :=
  pool.backends.find? fun b => b ≠ primary ∧ (signals.get b).circuitState = .closed

/-- The quantile of the primary, when its estimator is warm. -/
def HedgedRouter.quantileMs (r : HedgedRouter F ρ) (primary : BackendId) : Option F :=
  ((r.estimators primary).filter fun e => r.cfg.warmupObservations ≤ e.count).bind P2Estimator.quantile

/-- The part of `route` after the inner router said `Send`. -/
def HedgedRouter.promote (r : HedgedRouter F ρ) (primary : BackendId) (pool : BackendPool) (signals : BackendSignals) :
    HedgedRouter F ρ × RoutingDecision :=
  match r.quantileMs primary with
  | none => (r, .send primary)
  | some qMs =>
    if Arith.toF32 qMs < r.cfg.hedgeMinThresholdMs then (r, .send primary)
    else if !r.budgetAllows then (r, .send primary)
    else
      match pickSecondary primary pool signals with
      | some secondary => ({ r with hedgesTotal := r.hedgesTotal + 1 }, .hedge [primary, secondary])
      | none => (r, .send primary)

variable [Router ρ]

def HedgedRouter.route (r : HedgedRouter F ρ) (req : Request) (pool : BackendPool) (signals : BackendSignals) :
    HedgedRouter F ρ × RoutingDecision :=
  let (inner, decision) := Router.route r.inner req pool signals
  let r := { r with inner := inner, decisionsTotal := r.decisionsTotal + 1 }
  match decision with
  | .send primary => r.promote primary pool signals
  | other => (r, other)

/-- A duration is in nanoseconds. -/
def millis (duration : Nat) : F :=
  ((duration / 1000000000 : Nat) + (duration % 1000000000 : Nat) / (1000000000 : Nat)) * (1000 : Nat)

def HedgedRouter.onResponse (r : HedgedRouter F ρ) (decision : RoutingDecision) (outcome : Outcome) :
    HedgedRouter F ρ :=
  let e := (r.estimators outcome.backend).getD (.new r.cfg.hedgeAfterQuantile)
  { r with
    inner := Router.onResponse r.inner decision outcome
    estimators := Function.update r.estimators outcome.backend (some (e.observe (millis outcome.duration))) }

instance : Router (HedgedRouter F ρ) where
  route r := r.route
  onResponse r := r.onResponse

end Riftgate.Router
