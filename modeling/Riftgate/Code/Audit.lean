import Riftgate.Code.Broker
import Riftgate.Code.Frame

/-!
# The audit log: `riftgate-mcp/src/audit.rs`

Also `emit_audit` of `allowlist.rs`. The JSON writer is a parameter, and so is what the WAL answers to an append.
-/

open Lib

namespace Riftgate.Audit

open Mcp Proxy Broker

structure AuditRecord where
  correlationId : String
  tenant : UInt32
  subject : String
  argumentHash : String
  decision : String
  timestampUnixSecs : UInt64
  deriving DecidableEq, Repr

def hexEncode (bytes : List Byte) : String := signatureHex bytes

def decisionText : AuditDecision → String
  | .allow => "allow"
  | .deny => "deny"

def auditRecord (event : McpAuditEvent) : AuditRecord where
  correlationId := requestIdText event.correlationId
  tenant := event.tenant.id
  subject := event.subject
  argumentHash := hexEncode event.argumentHash
  decision := decisionText event.decision
  -- A time before the epoch is second 0.
  timestampUnixSecs := UInt64.ofNat (event.timestamp / 1000000000).toNat

/-- `serde_json::to_vec`. -/
abbrev ToVec := AuditRecord → Except String (List Byte)

/-- `WAL::append`, at one time. -/
abbrev WalAppend := List Byte → Frame.Durability → Except String UInt64

/-- One append and its answer. -/
structure AppendCall where
  bytes : List Byte
  durability : Frame.Durability
  result : Except String UInt64

/-- The appends, and what is returned. -/
def write (toVec : ToVec) (append : WalAppend) (event : McpAuditEvent) : List AppendCall × Except String Unit :=
  match toVec (auditRecord event) with
  | .error e => ([], .error e)
  | .ok bytes =>
    let line := bytes ++ [10]
    let result := append line .fsync
    ([⟨line, .fsync, result⟩], result.map fun _ => ())

/-- The appends, and the error of the warning if there is one. -/
def emitAudit (toVec : ToVec) (append : WalAppend) (event : McpAuditEvent) : List AppendCall × Option String :=
  match write toVec append event with
  | (log, .ok _) => (log, none)
  | (log, .error e) => (log, some e)

/-- A broker with its WAL: the appends are made before the decision is returned. -/
def audited (toVec : ToVec) (append : WalAppend)
    (authorize : McpRequest → TenantIdentity → CapabilityDecision × McpAuditEvent) (request : McpRequest)
    (identity : TenantIdentity) : CapabilityDecision × List AppendCall :=
  let (decision, event) := authorize request identity
  (decision, (emitAudit toVec append event).1)

end Riftgate.Audit
