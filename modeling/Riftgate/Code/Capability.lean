import Riftgate.Lib.Bytes

/-!
# MCP requests and decisions: `riftgate-core/src/capability.rs`
-/

open Lib

namespace Riftgate.Mcp

/-- Nanoseconds since the epoch. A clock can also stand before it. -/
abbrev SystemTime := Int

structure TenantId where
  id : UInt32
  deriving DecidableEq, Repr

inductive LifecycleMethod where
  | init -- the method `initialize`
  | ping
  | shutdown
  deriving DecidableEq, Repr

inductive McpRequest where
  | toolCall (tool : String) (argumentHash : List Byte)
  | toolList
  | resourceRead (resource : String)
  | resourceList
  | promptGet (name : String)
  | promptList
  | lifecycle (method : LifecycleMethod)
  deriving DecidableEq, Repr

structure TenantIdentity where
  tenant : TenantId
  principal : String
  deriving DecidableEq, Repr

structure AttestationHeaders where
  caller : TenantId
  subject : String
  decision : String
  signature : List Byte
  deriving DecidableEq, Repr

inductive DenialReason where
  | notInAllowlist
  | inDenylist
  | timeBoundGrantExpired
  | malformedMcpRequest
  | tenantUnknown
  deriving DecidableEq, Repr

def DenialReason.asHeaderValue : DenialReason → String
  | .notInAllowlist => "not_in_allowlist"
  | .inDenylist => "in_denylist"
  | .timeBoundGrantExpired => "time_bound_grant_expired"
  | .malformedMcpRequest => "malformed_mcp_request"
  | .tenantUnknown => "tenant_unknown"

inductive CapabilityDecision where
  | allow (attestation : AttestationHeaders)
  | deny (reason : DenialReason)
  deriving DecidableEq, Repr

inductive AuditDecision where
  | allow
  | deny
  deriving DecidableEq, Repr

structure McpAuditEvent where
  correlationId : UInt64
  tenant : TenantId
  subject : String
  argumentHash : List Byte
  decision : AuditDecision
  timestamp : SystemTime
  deriving DecidableEq, Repr

end Riftgate.Mcp
