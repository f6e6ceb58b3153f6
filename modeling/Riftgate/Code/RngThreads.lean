import Riftgate.Lib.CasLoop
import Riftgate.Code.Routers

/-!
# Threads that draw: `next_u64` of `riftgate-router/src/weighted.rs`

Any number of threads share a router and draw from it as often as they like. Their loads and exchanges of `rng_state`
interleave. A sample does the rest on its own.
-/

open Lib

namespace Riftgate.Router

/-- One turn of the loop: what the exchange expects, and what it stores and returns. -/
def WeightedRandomRouter.attempt (loaded : UInt64) : UInt64 × UInt64 :=
  let s := max loaded 1
  let next := xorshift64 s
  (s, next)

def nextU64Threads (seed : UInt64) : Machine (CasLoop.State UInt64) CasLoop.Label :=
  CasLoop.threads WeightedRandomRouter.attempt (max seed 1)

end Riftgate.Router
