import Riftgate.Code.Proxy

/-!
# The sink of JSON lines: `riftgate-obs/src/json_stdout_sink.rs` and `riftgate-core/src/obs.rs`

One line of JSON for each event, on any writer. `serde_json` is a parameter. The errors of the writer are ignored, and a
write that fails may have written a part of its line.
-/

open Lib

namespace Riftgate.JsonSink

open Mcp Proxy

/-! ## Events -/

inductive LabelKey where
  | route
  | backend
  | model
  | method
  | statusClass
  | tenant
  | event
  deriving DecidableEq, Repr

def LabelKey.asStr : LabelKey → String
  | .route => "route"
  | .backend => "backend"
  | .model => "model"
  | .method => "method"
  | .statusClass => "status_class"
  | .tenant => "tenant"
  | .event => "event"

structure Label where
  key : LabelKey
  value : String
  deriving DecidableEq, Repr

inductive AttrValue (F : Type) where
  | str (s : String)
  | i64 (n : ℤ)
  | f64 (x : F)
  | bool (b : Bool)

inductive ProfileKind where
  | onCpu
  | offCpu
  | syscall
  deriving DecidableEq, Repr

structure ProfileSample where
  stack : List String
  weight : UInt64
  deriving DecidableEq, Repr

/-- A duration is in nanoseconds. -/
inductive ObservabilityEvent (F : Type) where
  | spanStart (requestId : UInt64) (name : String) (attributes : List (String × AttrValue F))
  | spanEnd (requestId : UInt64) (name : String) (duration : Nat)
  | counter (name : String) (value : UInt64) (labels : List Label)
  | histogram (name : String) (value : F) (labels : List Label)
  | profile (kind : ProfileKind) (samples : List ProfileSample)

/-! ## What is written -/

/-- `f64`: `as f64` of a `u64`, and `is_finite`. -/
structure Floats (F : Type) where
  ofUInt64 : UInt64 → F
  isFinite : F → Bool

/-- `serde_json::Value`, as far as an attribute is one. -/
inductive Value (F : Type) where
  | null
  | bool (b : Bool)
  | i64 (n : ℤ)
  | f64 (x : F)
  | string (s : String)

structure OutAttr (F : Type) where
  key : String
  value : Value F

structure OutLabel where
  key : String
  value : String
  deriving DecidableEq, Repr

inductive OutBody (F : Type) where
  | span (requestId : String) (name : String) (attributes : List (OutAttr F)) (durationMs : Option Nat)
  | metric (name : String) (value : F) (labels : List OutLabel)
  | profile (kind : String) (sampleCount : Nat)

structure OutEnvelope (F : Type) where
  kind : String
  body : OutBody F

variable {F : Type} (floats : Floats F)

/-- `Value::from` of a float that is infinite or not a number is `Null`. -/
def attrToJson : AttrValue F → Value F
  | .str s => .string s
  | .i64 n => .i64 n
  | .f64 x => if floats.isFinite x then .f64 x else .null
  | .bool b => .bool b

def labelsToOut (labels : List Label) : List OutLabel := labels.map fun label => ⟨label.key.asStr, label.value⟩

def attributesToOut (attributes : List (String × AttrValue F)) : List (OutAttr F) :=
  attributes.map fun p => ⟨p.1, attrToJson floats p.2⟩

def millis (duration : Nat) : Nat := min (duration / 1000000) (UInt64.size - 1)

def profileKind : ProfileKind → String
  | .onCpu => "on_cpu"
  | .offCpu => "off_cpu"
  | .syscall => "syscall"

def envelope : ObservabilityEvent F → OutEnvelope F
  | .spanStart requestId name attributes =>
    ⟨"span_start", .span (requestIdText requestId) name (attributesToOut floats attributes) none⟩
  | .spanEnd requestId name duration =>
    ⟨"span_end", .span (requestIdText requestId) name [] (some (millis duration))⟩
  | .counter name value labels => ⟨"counter", .metric name (floats.ofUInt64 value) (labelsToOut labels)⟩
  | .histogram name value labels => ⟨"histogram", .metric name value (labelsToOut labels)⟩
  | .profile kind samples => ⟨"profile", .profile (profileKind kind) samples.length⟩

/-! ## The sink -/

/-- `serde_json::to_string`. -/
abbrev ToString (F : Type) := OutEnvelope F → Except String String

variable (toString : ToString F)

def newline : Byte := 10

/-- A write that has `failed` has written so many bytes of the line before. -/
def writeln (written : List Byte) (line : String) (failed : Option Nat) : List Byte :=
  match failed with
  | none => written ++ (bytesOf line ++ [newline])
  | some n => written ++ (bytesOf line ++ [newline]).take n

def publish (written : List Byte) (event : ObservabilityEvent F) (failed : Option Nat) : List Byte :=
  match toString (envelope floats event) with
  | .ok line => writeln written line failed
  | .error _ => written

/-- What is written after these calls of `publish`. -/
def publishAll (events : List (ObservabilityEvent F)) (failed : Nat → Option Nat) : List Byte :=
  events.zipIdx.foldl (fun written p => publish floats toString written p.1 (failed p.2)) []

end Riftgate.JsonSink
