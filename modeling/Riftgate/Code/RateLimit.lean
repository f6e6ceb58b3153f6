import Riftgate.Lib.Machine
import Riftgate.Code.Capability
import Riftgate.Code.Router

/-!
# The token bucket: `riftgate-core/src/rate_limit.rs`

A call of `check` reads the clock first. Then it takes the entry of its subject, and then it loads
the packed state, computes and compare-exchanges until that succeeds or the call is denied. Each of
these is one step, and the steps of any calls interleave.

A `Duration` is its nanoseconds. Products of `u64` wrap around, as they do in a release build.
-/

open Lib

namespace Riftgate.RateLimit

open Router Mcp

/-! ## Configuration -/

structure RouteId where
  id : UInt32
  deriving DecidableEq, Repr

structure SubjectKey where
  tenant : TenantId
  route : RouteId := ⟨0⟩
  backend : Option BackendId := none
  deriving DecidableEq, Repr

inductive LimitDecision where
  | allow
  | deny (retryAfter : Nat)
  deriving DecidableEq, Repr

inductive CostDimension where
  | request
  | promptTokens
  deriving DecidableEq, Repr

structure TokenBucketConfig where
  ratePerSec : UInt32 := 100
  burst : UInt32 := 100
  cost : CostDimension := .request
  retryAfterFloor : Nat := 50 * 1000000
  deriving DecidableEq, Repr

/-- What `new` asserts. -/
structure TokenBucketLimiter where
  cfg : TokenBucketConfig
  rate_pos : 0 < cfg.ratePerSec
  burst_pos : 0 < cfg.burst

/-! ## The packed state -/

def tokenBucketScale : UInt64 := (1 : UInt64) <<< 16

def pack (tokensScaled : UInt64) (lastRefillMs : UInt32) : UInt64 :=
  (min tokensScaled 0xFFFFFFFF).toUInt32.toUInt64 <<< 32 ||| lastRefillMs.toUInt64

def unpack (state : UInt64) : UInt64 × UInt32 :=
  ((state >>> 32).toUInt32.toUInt64, (state &&& 0xFFFFFFFF).toUInt32)

def saturatingScaledBurst (burst : UInt32) : UInt64 := min (burst.toUInt64 * tokenBucketScale) 0xFFFFFFFF

namespace TokenBucketLimiter

variable (l : TokenBucketLimiter)

def fullState (nowMs : UInt32) : UInt64 := pack (saturatingScaledBurst l.cfg.burst) nowMs

def costUnits (requested : UInt32) : UInt32 :=
  match l.cfg.cost with
  | .request => 1
  | .promptTokens => max requested 1

def retryAfterFor (deficitScaled : UInt64) : Nat :=
  let scaledPerMs := max (l.cfg.ratePerSec.toUInt64 * tokenBucketScale / 1000) 1
  let ms := (deficitScaled.toNat + scaledPerMs.toNat - 1) / scaledPerMs.toNat
  let retry := ms * 1000000
  if retry < l.cfg.retryAfterFloor then l.cfg.retryAfterFloor else retry

/-! ## One round of the loop -/

def refillScaled (elapsedMs : UInt32) : UInt64 :=
  elapsedMs.toUInt64 * l.cfg.ratePerSec.toUInt64 * tokenBucketScale / 1000

def afterRefill (nowMs : UInt32) (observed : UInt64) : UInt64 :=
  let elapsedMs := nowMs - (unpack observed).2
  min ((unpack observed).1 + l.refillScaled elapsedMs) (saturatingScaledBurst l.cfg.burst)

/-- The state that the round wants to store, and its answer. -/
def attempt (nowMs : UInt32) (costScaled observed : UInt64) : UInt64 × LimitDecision :=
  let tokens := l.afterRefill nowMs observed
  if tokens < costScaled then (pack tokens nowMs, .deny (l.retryAfterFor (costScaled - tokens)))
  else (pack (tokens - costScaled) nowMs, .allow)

end TokenBucketLimiter

/-! ## Calls -/

/-- `readAt` is the true time in ms, of which the program keeps the low 32 bits. -/
structure CheckArgs where
  subject : SubjectKey
  cost : UInt32
  readAt : Nat
  deriving DecidableEq, Repr

def CheckArgs.nowMs (c : CheckArgs) : UInt32 := UInt32.ofNat c.readAt

def CheckArgs.units (l : TokenBucketLimiter) (c : CheckArgs) : UInt32 := l.costUnits c.cost

def CheckArgs.attempt (l : TokenBucketLimiter) (c : CheckArgs) (observed : UInt64) : UInt64 × LimitDecision :=
  l.attempt c.nowMs ((c.units l).toUInt64 * tokenBucketScale) observed

inductive Call where
  | idle
  | read (c : CheckArgs)
  | entered (c : CheckArgs) -- at the head of the loop
  | loaded (c : CheckArgs) (observed : UInt64)
  | returned (c : CheckArgs) (decision : LimitDecision)
  deriving DecidableEq, Repr

/-- `refilledAt` is the true time whose low 32 bits are in `state`. The program does not keep it. -/
structure Entry where
  state : UInt64
  refilledAt : Nat
  deriving DecidableEq, Repr

structure Admission where
  call : CheckArgs
  storedAt : Nat
  deriving DecidableEq, Repr

/-- `admitted` are the calls that were allowed, in the order in which they stored their state. -/
structure State where
  clock : Nat := 0
  entries : SubjectKey → Option Entry := fun _ => none
  calls : Nat → Call := fun _ => .idle
  admitted : List Admission := []

inductive Label where
  | tick (ms : Nat)
  | check (i : Nat) (subject : SubjectKey) (cost : UInt32)
  | entry (i : Nat)
  | load (i : Nat)
  | compareExchange (i : Nat)

def State.setCall (s : State) (i : Nat) (call : Call) : State := { s with calls := Function.update s.calls i call }

def State.setEntry (s : State) (k : SubjectKey) (e : Entry) : State :=
  { s with entries := Function.update s.entries k (some e) }

/-- `compare_exchange` on the entry `e`. A denied call does not look at whether it has succeeded. -/
def State.exchange (l : TokenBucketLimiter) (s : State) (i : Nat) (c : CheckArgs) (observed : UInt64) (e : Entry) :
    State :=
  let r := c.attempt l observed
  if e.state = observed then
    let s := (s.setEntry c.subject ⟨r.1, c.readAt⟩).setCall i (.returned c r.2)
    if r.2 = .allow then { s with admitted := s.admitted ++ [⟨c, s.clock⟩] } else s
  else if r.2 = .allow then s.setCall i (.entered c) -- another writer raced
  else s.setCall i (.returned c r.2)

def State.step (l : TokenBucketLimiter) (s : State) : Label → Option State
  | .tick ms => some { s with clock := s.clock + ms }
  | .check i subject cost =>
    match s.calls i with
    | .idle => some (s.setCall i (.read ⟨subject, cost, s.clock⟩))
    | _ => none
  | .entry i =>
    match s.calls i with
    | .read c =>
      let e := (s.entries c.subject).getD ⟨l.fullState c.nowMs, c.readAt⟩
      some ((s.setEntry c.subject e).setCall i (.entered c))
    | _ => none
  | .load i =>
    match s.calls i with
    | .entered c => (s.entries c.subject).map fun e => s.setCall i (.loaded c e.state)
    | _ => none
  | .compareExchange i =>
    match s.calls i with
    | .loaded c observed => (s.entries c.subject).map fun e => s.exchange l i c observed e
    | _ => none

def limiter (l : TokenBucketLimiter) : Machine State Label where
  init := {}
  step := State.step l

/-! ## One caller at a time -/

/-- A whole call of `check` that no other call comes between: its first compare-exchange succeeds. -/
def TokenBucketLimiter.check (l : TokenBucketLimiter) (entries : SubjectKey → Option Entry) (c : CheckArgs) :
    (SubjectKey → Option Entry) × LimitDecision :=
  let e := (entries c.subject).getD ⟨l.fullState c.nowMs, c.readAt⟩
  let r := c.attempt l e.state
  (Function.update entries c.subject (some ⟨r.1, c.readAt⟩), r.2)

/-- The call of `i`, with the steps of the machine above taken at once. -/
def State.check (l : TokenBucketLimiter) (i : Nat) (s : State) (c : CheckArgs) : State where
  clock := c.readAt
  entries := (l.check s.entries c).1
  calls := Function.update s.calls i (.returned c (l.check s.entries c).2)
  admitted := if (l.check s.entries c).2 = .allow then s.admitted ++ [⟨c, c.readAt⟩] else s.admitted

/-- Calls one after the other, each with a number of its own. -/
def State.checks (l : TokenBucketLimiter) : State → Nat → List CheckArgs → State
  | s, _, [] => s
  | s, i, c :: calls => State.checks l (s.check l i c) (i + 1) calls

/-! ## What is admitted -/

/-- The total cost of the admitted calls of `k` whose time is from `w` to `w + T`. -/
def State.admittedIn (l : TokenBucketLimiter) (s : State) (time : Admission → Nat) (k : SubjectKey) (w T : Nat) : Nat :=
  ((s.admitted.filter fun a => a.call.subject = k ∧ w ≤ time a ∧ time a ≤ w + T).map
    fun a => (a.call.units l).toNat).sum

def Admission.readAt (a : Admission) : Nat := a.call.readAt

end Riftgate.RateLimit
