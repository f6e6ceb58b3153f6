import Riftgate.Code.Dcgm
import Riftgate.Code.Router

/-!
# The signal store: `riftgate/src/signals.rs`, `scalar_pressure` of `riftgate-core/src/gpu.rs`, and the poller of `main.rs`

The poller alone writes the store, and a router reads a snapshot. `toBits` is that of `f32`.
-/

namespace Riftgate.Signals

open Router Dcgm

variable {F : Type} [Float64 F]

/-- `f32::max`: a number that is not itself does not count. -/
def maxNum (a b : F) : F := if a < b then b else if a ≤ a then a else b

def scalarPressure (p : GpuPressure F) : F :=
  Dcgm.clamp (maxNum p.utilizationPct p.memoryUsedPct / (100 : Nat)) 0 1

/-- `next[idx].gpu_pressure = Some(..)`, where `next` is made long enough first. -/
def setPressure (next : List BackendSignal) (idx : Nat) (pressure : UInt32) : List BackendSignal :=
  let next := if next.length ≤ idx then next ++ List.replicate (idx + 1 - next.length) ({} : BackendSignal) else next
  next.modify idx fun signal => { signal with gpuPressure := some pressure }

def applyGpuPressureUpdates (toBits : F → UInt32) (store : BackendSignals) (samples : List (GpuPressure F)) :
    BackendSignals :=
  match samples with
  | [] => store
  | _ =>
    let maxBackend := (samples.map fun s => s.backend.id.toNat).foldl max 0
    let next := (List.range (max maxBackend (store.signals.length - 1) + 1)).map fun idx =>
      store.get ⟨UInt16.ofNat idx⟩
    ⟨samples.foldl (fun next s => setPressure next s.backend.id.toNat (toBits (scalarPressure s))) next⟩

/-- One turn of the poller. A failed poll is logged. -/
def poll {E : Type} (toBits : F → UInt32) (store : BackendSignals) :
    Except E (List (GpuPressure F)) → BackendSignals
  | .ok samples => applyGpuPressureUpdates toBits store samples
  | .error _ => store

end Riftgate.Signals
