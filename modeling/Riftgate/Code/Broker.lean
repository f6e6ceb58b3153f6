import Riftgate.Code.McpParser
import Riftgate.Code.Tenant

/-!
# The broker of the gateway: `riftgate/src/mcp.rs`

Also the `[mcp]` section of `riftgate-config/src/schema.rs`, and `riftgate-mcp/src/dryrun.rs`. The random
key of a gateway without one is a parameter. Where the audit events go is not part of a decision.
-/

open Lib

namespace Riftgate.Broker

open Mcp Proxy Tenant

structure McpTimeBoundedGrant where
  tool : String
  untilUnixSecs : UInt64
  deriving DecidableEq, Repr

structure McpTenantConfig where
  allowedTools : List String := []
  deniedTools : List String := []
  allowedResourcePrefixes : List String := []
  timeBoundedGrants : List McpTimeBoundedGrant := []
  deriving DecidableEq, Repr

structure McpConfig where
  enforce : Bool := true
  tenants : Table String McpTenantConfig := ∅
  signingKeyHex : Option String := none

/-- The same text as `tenant_id_from_str`, in another crate. -/
def tenantIdFromKey (key : String) : UInt32 := tenantIdFromStr key

/-! ## The signing key -/

def hexValue (b : Byte) : Option Byte :=
  if 48 ≤ b ∧ b ≤ 57 then some (b - 48)
  else if 97 ≤ b ∧ b ≤ 102 then some (b - 87)
  else if 65 ≤ b ∧ b ≤ 70 then some (b - 55)
  else none

/-- `u8::from_str_radix` on two characters. It takes a plus sign. -/
def hexByte (hi lo : Byte) : Option Byte :=
  if hi = 43 then hexValue lo
  else match hexValue hi, hexValue lo with
    | some h, some l => some (16 * h + l)
    | _, _ => none

def hexBytes : List Byte → Option (List Byte)
  | hi :: lo :: rest =>
    match hexByte hi lo, hexBytes rest with
    | some b, some bs => some (b :: bs)
    | _, _ => none
  | _ => some []

/-- A key that cannot be read is the zero key. -/
def parseHexKey (hex : String) : List Byte :=
  let hex := bytesOf (String.ofList (trim hex.toList))
  if hex.length ≠ 64 then List.replicate 32 0
  else (hexBytes hex).getD (List.replicate 32 0)

/-! ## Dry run -/

/-- `DryRunBroker::authorize`, over any broker. -/
def dryRunAuthorize (inner : McpRequest → TenantIdentity → CapabilityDecision × McpAuditEvent)
    (request : McpRequest) (identity : TenantIdentity) : CapabilityDecision × McpAuditEvent :=
  match inner request identity with
  | (.allow attestation, event) => (.allow attestation, event)
  | (.deny _, event) =>
    (.allow ⟨identity.tenant, requestSubject request, "allow-dry-run", List.replicate 32 0⟩, event)

/-! ## The broker -/

def tenantAllowlist (v : McpTenantConfig) : TenantAllowlist where
  allowedTools := v.allowedTools
  deniedTools := v.deniedTools
  allowedResourcePrefixes := v.allowedResourcePrefixes
  timeBoundedGrants := v.timeBoundedGrants.map fun g => ⟨g.tool, g.untilUnixSecs⟩

def tenantConfigs (mcp : McpConfig) : Table UInt32 TenantAllowlist :=
  Table.collect (mcp.tenants.pairs.map fun p => (tenantIdFromKey p.1, tenantAllowlist p.2))

def signingKey (ephemeral : SigningKey) (mcp : McpConfig) : SigningKey :=
  match mcp.signingKeyHex with
  | some hex => ⟨parseHexKey hex⟩
  | none => ephemeral

/-- The broker, as it answers one call: its correlation id and its clock are of that call. -/
def buildMcpBroker (hmac : Hmac) (ephemeral : SigningKey) (mcp : McpConfig) (correlationId : UInt64)
    (now : SystemTime) : Option (McpRequest → TenantIdentity → CapabilityDecision × McpAuditEvent) :=
  if mcp.tenants.entries = [] then none
  else
    let inner := (AllowlistBroker.new (fun id => (tenantConfigs mcp).lookup id) (signingKey ephemeral mcp)).authorize
      hmac correlationId now
    some (if mcp.enforce then inner else dryRunAuthorize inner)

/-- The handler with its parser and its broker, as both answer to one request. -/
def mcpGateway (libs : McpParser.ParserLibs) (hmac : Hmac) (ephemeral : SigningKey) (mcp : McpConfig)
    (correlationId : UInt64) (now : SystemTime) (st : HandlerState) : HandlerState :=
  { st with
    broker := (buildMcpBroker hmac ephemeral mcp correlationId now).map fun authorize r i => (authorize r i).1
    parseMcp := fun body => match McpParser.parse libs body with
      | .ok request => .ok request
      | .error e => .error e.text }

end Riftgate.Broker
