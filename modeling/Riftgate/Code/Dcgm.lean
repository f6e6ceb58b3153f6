import Riftgate.Lib.Text
import Riftgate.Code.Hedged

/-!
# Scrapes of the DCGM exporter: `riftgate-obs/src/gpu/dcgm.rs`

How the body of a scrape becomes one sample. Its text is a list of characters. The time of the sample and the HTTP
request around the body are left out.
-/

open Lib

namespace Riftgate.Dcgm

open Router

/-- What the code does with an `f64`, on top of arithmetic. `toU64` is the saturating cast. -/
class Float64 (F : Type) extends Arith F where
  parse : List Char → Option F
  display : F → String
  toU64 : F → UInt64

variable {F : Type} [Float64 F]

/-- Of `GpuPressureError`, what the reader of a body returns. -/
inductive GpuPressureError where
  | parse (message : String)
  deriving DecidableEq, Repr

inductive GpuThrottleState where
  | none
  | swLimit
  | thermal
  | power
  | hwSlowdown
  deriving DecidableEq, Repr

structure GpuPressure (F : Type) where
  backend : BackendId
  utilizationPct : F
  memoryUsedPct : F
  throttleState : GpuThrottleState
  eccErrorsTotal : UInt64

/-! ## One line -/

structure MetricSample (F : Type) where
  name : List Char
  labels : List Char → Option (List Char)
  value : F

/-- The metric, and the rest of the line from the separator on. A blank separates outside of braces only. -/
def scanMetric : Nat → List Char → Option (List Char × List Char)
  | _, [] => none
  | braceDepth, c :: l =>
    if c = '\x7b' then (scanMetric (braceDepth + 1) l).map fun p => (c :: p.1, p.2)
    else if c = '\x7d' then (scanMetric (braceDepth - 1) l).map fun p => (c :: p.1, p.2)
    else if (c = ' ' ∨ c = '\t') ∧ braceDepth = 0 then some ([], c :: l)
    else (scanMetric braceDepth l).map fun p => (c :: p.1, p.2)

def splitMetricAndValue (line : List Char) : Except GpuPressureError (List Char × List Char) :=
  match scanMetric 0 line with
  | none => .error (.parse ("missing metric separator in line: " ++ String.ofList line))
  | some (metric, rest) =>
    match firstWord (trim rest) with
    | none => .error (.parse ("missing metric value in line: " ++ String.ofList line))
    | some value => .ok (metric, value)

def parsePair (pair : List Char) : Except GpuPressureError (List Char × List Char) :=
  match splitOnce '=' pair with
  | none => .error (.parse ("invalid label pair: " ++ String.ofList pair))
  | some (key, rawValue) =>
    match (stripStart ['"'] (trim rawValue)).bind (stripLast '"') with
    | none => .error (.parse ("invalid label value: " ++ String.ofList pair))
    | some value => .ok (trim key, value)

/-- One turn of the loop of `parse_labels`. -/
def insertPair (parsed : List Char → Option (List Char)) (pair : List Char) :
    Except GpuPressureError (List Char → Option (List Char)) := do
  let (key, value) ← parsePair pair
  pure (Function.update parsed key (some value))

def parseLabels (labels : List Char) : Except GpuPressureError (List Char → Option (List Char)) :=
  if trim labels = [] then .ok fun _ => none else (splitAll ',' labels).foldlM insertPair fun _ => none

def MetricSample.parse (line : List Char) : Except GpuPressureError (MetricSample F) := do
  let (metric, valueStr) ← splitMetricAndValue line
  let value ← match Float64.parse valueStr with
    | none => .error (.parse ("invalid metric value in line: " ++ String.ofList line))
    | some value => .ok value
  match splitOnce '\x7b' metric with
  | some (name, labelsBlob) =>
    match stripLast '\x7d' labelsBlob with
    | none => .error (.parse ("invalid labels in line: " ++ String.ofList line))
    | some labelsStr => do
      let labels ← parseLabels labelsStr
      pure ⟨name, labels, value⟩
  | none => pure ⟨metric, fun _ => none, value⟩

def MetricSample.labelValue (sample : MetricSample F) (keys : List String) : Option (List Char) :=
  keys.findSome? fun key => sample.labels key.toList

def MetricSample.matches (sample : MetricSample F) (gpuIndex : UInt32) (migUuid : Option (List Char)) : Bool :=
  (match migUuid with
    | some expectedMigUuid =>
      decide ((sample.labelValue ["UUID", "uuid", "mig_uuid"]).or (sample.labelValue ["gpu_uuid"]) =
        some expectedMigUuid)
    | none => true) &&
  match sample.labelValue ["gpu", "gpu_index", "minor_number", "device"] with
  | some raw => decide (parseUnsigned (2 ^ 32) raw = some gpuIndex.toNat)
  | none => migUuid.isSome

/-! ## The sample of a GPU -/

structure DcgmSnapshot (F : Type) where
  utilizationPct : Option F := none
  memoryUsedMib : Option F := none
  memoryFreeMib : Option F := none
  memoryTotalMib : Option F := none
  throttleReasons : Option UInt64 := none
  eccErrorsTotal : UInt64 := 0

def parsePercent (value : F) (metricName : List Char) : Except GpuPressureError F :=
  if 0 ≤ value ∧ value ≤ (100 : Nat) then .ok (Arith.toF32 value)
  else .error (.parse (String.ofList metricName ++ " out of range: " ++ Float64.display value))

def saturatingAdd (a b : UInt64) : UInt64 := UInt64.ofNat (min (a.toNat + b.toNat) (2 ^ 64 - 1))

/-- A counter, or a set of bits. -/
def parseCount (sample : MetricSample F) : Except GpuPressureError UInt64 :=
  if sample.value < 0 then .error (.parse (String.ofList sample.name ++ " must be non-negative"))
  else .ok (Float64.toU64 sample.value)

def DcgmSnapshot.observe (s : DcgmSnapshot F) (sample : MetricSample F) : Except GpuPressureError (DcgmSnapshot F) :=
  if sample.name = "DCGM_FI_DEV_GPU_UTIL".toList then do
    let pct ← parsePercent sample.value sample.name
    pure { s with utilizationPct := some pct }
  else if sample.name = "DCGM_FI_DEV_FB_USED".toList then pure { s with memoryUsedMib := some sample.value }
  else if sample.name = "DCGM_FI_DEV_FB_FREE".toList then pure { s with memoryFreeMib := some sample.value }
  else if sample.name = "DCGM_FI_DEV_FB_TOTAL".toList then pure { s with memoryTotalMib := some sample.value }
  else if sample.name = "DCGM_FI_DEV_CLOCK_THROTTLE_REASONS".toList then do
    let reasons ← parseCount sample
    pure { s with throttleReasons := some reasons }
  else if "DCGM_FI_DEV_ECC_".toList.isPrefixOf sample.name then do
    let errors ← parseCount sample
    pure { s with eccErrorsTotal := saturatingAdd s.eccErrorsTotal errors }
  else pure s

def clamp (x low high : F) : F := if x < low then low else if high < x then high else x

def DcgmSnapshot.memoryUsedPct (s : DcgmSnapshot F) : Except GpuPressureError F := do
  let used ← match s.memoryUsedMib with
    | none => .error (.parse "missing DCGM_FI_DEV_FB_USED metric")
    | some used => .ok used
  let total ← match s.memoryTotalMib with
    | some total => .ok total
    | none =>
      match s.memoryFreeMib with
      | none => .error (.parse "missing DCGM_FI_DEV_FB_TOTAL or DCGM_FI_DEV_FB_FREE metric")
      | some free => .ok (used + free)
  if total ≤ 0 then .error (.parse "framebuffer total must be positive")
  else .ok (Arith.toF32 (clamp (used / total * (100 : Nat)) 0 (100 : Nat)))

def throttleStateFromBits (bits : UInt64) : GpuThrottleState :=
  if bits &&& 0x08 ≠ 0 then .hwSlowdown
  else if bits &&& (0x20 ||| 0x40) ≠ 0 then .thermal
  else if bits &&& (0x04 ||| 0x80) ≠ 0 then .power
  else if bits = 0 then .none
  else .swLimit

def DcgmSnapshot.intoGpuPressure (s : DcgmSnapshot F) (backend : BackendId) :
    Except GpuPressureError (GpuPressure F) := do
  let utilizationPct ← match s.utilizationPct with
    | none => .error (.parse "missing DCGM_FI_DEV_GPU_UTIL metric")
    | some pct => .ok pct
  let memoryUsedPct ← s.memoryUsedPct
  pure ⟨backend, utilizationPct, memoryUsedPct, throttleStateFromBits (s.throttleReasons.getD 0), s.eccErrorsTotal⟩

structure DcgmScrapeSource where
  backend : BackendId
  gpuIndex : UInt32
  migUuid : Option (List Char) := none

/-- One turn of the loop of `parse_metrics`. -/
def DcgmScrapeSource.parseLine (source : DcgmScrapeSource) (snapshot : DcgmSnapshot F) (rawLine : List Char) :
    Except GpuPressureError (DcgmSnapshot F) :=
  let line := trim rawLine
  if line = [] ∨ line.head? = some '#' then .ok snapshot
  else do
    let sample ← MetricSample.parse line
    if !sample.matches source.gpuIndex source.migUuid then pure snapshot else snapshot.observe sample

def DcgmScrapeSource.parseMetrics (source : DcgmScrapeSource) (body : List Char) :
    Except GpuPressureError (GpuPressure F) := do
  let snapshot ← (lines body).foldlM source.parseLine {}
  snapshot.intoGpuPressure source.backend

end Riftgate.Dcgm
