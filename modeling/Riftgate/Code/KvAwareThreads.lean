import Riftgate.Lib.Machine
import Riftgate.Code.Routers

/-!
# Threads in the KV-aware router: `riftgate-router/src/kv_aware.rs`

`route` cut at the two locks of the trie. The inner router may answer anything and change its own state as it likes.
-/

open Lib

namespace Riftgate.KvAware

open Router

variable {ρ : Type}

structure RouteArgs where
  req : Request
  pool : BackendPool
  signals : BackendSignals
  deriving DecidableEq, Repr

/-- Where a decision is from: a lookup after `n` insertions, or the inner router. The program does not keep this. -/
inductive Source where
  | trie (n : Nat)
  | inner
  deriving DecidableEq, Repr

inductive Pc where
  | idle
  | lookup (r : RouteArgs)
  | inner (r : RouteArgs)
  | record (r : RouteArgs) (b : BackendId)
  | routed (r : RouteArgs) (decision : RoutingDecision) (source : Source)
  deriving DecidableEq, Repr

structure Threads (ρ : Type) where
  shared : KvAwareRouter ρ
  pcs : Nat → Pc := fun _ => .idle
  /-- What the inner router has answered. The program does not keep this. -/
  answers : List (RouteArgs × RoutingDecision) := []
  /-- What was inserted, in the order of the write lock. The program does not keep this. -/
  records : List (RouteArgs × BackendId) := []

inductive Label (ρ : Type) where
  | route (t : Nat) (r : RouteArgs)
  | lookup (t : Nat)
  | decide (t : Nat) (inner : ρ) (decision : RoutingDecision)
  | record (t : Nat)
  | onResponse (inner : ρ)

def Pc.free : Pc → Bool
  | .idle | .routed _ _ _ => true
  | _ => false

/-- The test before the trie is looked at. -/
def tooShort (cfg : KvAwareConfig) (r : RouteArgs) : Bool :=
  decide (r.req.body.asSlice.length < cfg.minPrefixBytesToRoute)

def afterLookup (r : RouteArgs) (n : Nat) : Option BackendId → Pc
  | some b => if (r.signals.get b).circuitState = .closed then .routed r (.send b) (.trie n) else .inner r
  | none => .inner r

def afterDecide (cfg : KvAwareConfig) (r : RouteArgs) : RoutingDecision → Pc
  | .send b => if tooShort cfg r then .routed r (.send b) .inner else .record r b
  | other => .routed r other .inner

def Threads.setPc (s : Threads ρ) (t : Nat) (pc : Pc) : Threads ρ := { s with pcs := Function.update s.pcs t pc }

def Threads.step (s : Threads ρ) : Label ρ → Option (Threads ρ)
  | .route t r =>
    if (s.pcs t).free then some (s.setPc t (if tooShort s.shared.cfg r then .inner r else .lookup r)) else none
  | .lookup t =>
    match s.pcs t with
    | .lookup r =>
      let hit := s.shared.trie.longestMatch (s.shared.bodyHashes r.req.body.asSlice)
      some (s.setPc t (afterLookup r s.records.length hit))
    | _ => none
  | .decide t inner decision =>
    match s.pcs t with
    | .inner r =>
      some { s.setPc t (afterDecide s.shared.cfg r decision) with
        shared := { s.shared with inner := inner }
        answers := s.answers ++ [(r, decision)] }
    | _ => none
  | .record t =>
    match s.pcs t with
    | .record r b =>
      some { s.setPc t (.routed r (.send b) .inner) with
        shared := { s.shared with trie := s.shared.trie.insert (s.shared.bodyHashes r.req.body.asSlice) b }
        records := s.records ++ [(r, b)] }
    | _ => none
  | .onResponse inner => some { s with shared := { s.shared with inner := inner } }

def threads (inner : ρ) (cfg : KvAwareConfig) (xxh3 : List Byte → UInt64) : Machine (Threads ρ) (Label ρ) where
  init := { shared := .new inner cfg xxh3 }
  step := Threads.step

end Riftgate.KvAware
