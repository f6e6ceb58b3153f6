import Riftgate.Lib.Table

/-!
# Token-level metrics: `token_level/mod.rs` and `token_level/reservoir.rs` of `riftgate-obs`

The histograms are from another crate. The draws of the random generator are arguments. A call holds the entry of its
dimension while it records.
-/

open Lib

namespace Riftgate.TokenLevel

/-! ## The reservoir -/

structure VitterReservoir (α : Type) where
  capacity : Nat
  items : List α := []
  count : Nat := 0
  deriving DecidableEq, Repr

/-- `j` is the draw from `0..n`, where there is one. -/
def VitterReservoir.add {α : Type} (r : VitterReservoir α) (item : α) (j : Nat) : VitterReservoir α :=
  let n := r.count + 1
  if n ≤ r.capacity then { r with items := r.items ++ [item], count := n }
  else if j < r.capacity then { r with items := r.items.set j item, count := n }
  else { r with count := n }

def VitterReservoir.samples {α : Type} (r : VitterReservoir α) : List α := r.items

/-! ## The metrics of a dimension -/

/-- What the code uses of a histogram. An error of `record` is dropped. -/
class Histogram (H : Type) where
  new : H
  record : H → UInt64 → H

structure TokenDimension where
  tenant : String
  model : String
  route : String
  deriving DecidableEq, Repr

def TokenDimension.other : TokenDimension := ⟨"other", "other", "other"⟩

structure DimensionMetrics (H : Type) where
  ttftHistogram : H
  interTokenHistogram : H
  ttftReservoir : VitterReservoir UInt64
  interTokenReservoir : VitterReservoir UInt64
  deriving DecidableEq

variable {H : Type} [Histogram H]

def DimensionMetrics.new (reservoirCapacity : Nat) : DimensionMetrics H :=
  ⟨Histogram.new, Histogram.new, { capacity := reservoirCapacity }, { capacity := reservoirCapacity }⟩

def DimensionMetrics.recordTtft (m : DimensionMetrics H) (latencyMicros : UInt64) (j : Nat) : DimensionMetrics H :=
  { m with
    ttftHistogram := Histogram.record m.ttftHistogram latencyMicros
    ttftReservoir := m.ttftReservoir.add latencyMicros j }

def DimensionMetrics.recordInterToken (m : DimensionMetrics H) (latencyMicros : UInt64) (j : Nat) :
    DimensionMetrics H :=
  { m with
    interTokenHistogram := Histogram.record m.interTokenHistogram latencyMicros
    interTokenReservoir := m.interTokenReservoir.add latencyMicros j }

/-! ## The aggregator -/

structure TokenLevelAggregator (H : Type) where
  dimensions : Table TokenDimension (DimensionMetrics H) := ∅
  dimensionCap : Nat
  reservoirCapacity : Nat

def TokenLevelAggregator.dimensionCount (agg : TokenLevelAggregator H) : Nat := agg.dimensions.entries.length

def TokenLevelAggregator.withCapacity (dimensionCap reservoirCapacity : Nat) : TokenLevelAggregator H :=
  { dimensionCap := dimensionCap, reservoirCapacity := reservoirCapacity }

/-- The entry of a dimension, made where it is missing. -/
def TokenLevelAggregator.entry (agg : TokenLevelAggregator H) (dim : TokenDimension)
    (f : DimensionMetrics H → DimensionMetrics H) : TokenLevelAggregator H :=
  let m := (agg.dimensions.lookup dim).getD (.new agg.reservoirCapacity)
  { agg with dimensions := agg.dimensions.insert dim (f m) }

def TokenLevelAggregator.recordMetric (agg : TokenLevelAggregator H) (dim : TokenDimension)
    (f : DimensionMetrics H → DimensionMetrics H) : TokenLevelAggregator H :=
  let targetDim := if agg.dimensionCap ≤ agg.dimensionCount then .other else dim
  agg.entry targetDim f

def TokenLevelAggregator.recordTtft (agg : TokenLevelAggregator H) (dim : TokenDimension) (latencyMicros : UInt64)
    (j : Nat) : TokenLevelAggregator H :=
  agg.recordMetric dim fun m => m.recordTtft latencyMicros j

def TokenLevelAggregator.recordInterToken (agg : TokenLevelAggregator H) (dim : TokenDimension)
    (latencyMicros : UInt64) (j : Nat) : TokenLevelAggregator H :=
  agg.recordMetric dim fun m => m.recordInterToken latencyMicros j

end Riftgate.TokenLevel
