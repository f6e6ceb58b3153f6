import Mathlib.Data.List.DropRight
import Mathlib.Data.List.Sort
import Riftgate.Code.Capability

/-!
# The allowlist broker: `riftgate-mcp/src/allowlist.rs` and `attestation.rs`

HMAC-SHA256 is a parameter, a function of key and message. A grant whose seconds are beyond `i64::MAX` makes
`from_config` panic, and then there is no allowlist.
-/

open Lib

namespace Riftgate.Mcp

/-! ## Attestations -/

structure SigningKey where
  key : List Byte
  deriving DecidableEq, Repr

abbrev Hmac := SigningKey → List Byte → List Byte

def bytesOf (s : String) : List Byte := s.toUTF8.data.toList

def signedMessage (caller : TenantId) (subject decision : String) : List Byte :=
  toLe 4 caller.id.toNat ++ bytesOf "|" ++ bytesOf subject ++ bytesOf "|" ++ bytesOf decision

def sign (hmac : Hmac) (caller : TenantId) (subject : String) (key : SigningKey) : AttestationHeaders where
  caller := caller
  subject := subject
  decision := "allow"
  signature := hmac key (signedMessage caller subject "allow")

def verify (hmac : Hmac) (headers : AttestationHeaders) (key : SigningKey) : Bool :=
  hmac key (signedMessage headers.caller headers.subject headers.decision) = headers.signature

/-! ## The allowlist of a tenant -/

structure TimeBoundedGrant where
  tool : String
  untilUnixSecs : UInt64
  deriving DecidableEq, Repr

structure TenantAllowlist where
  allowedTools : List String := []
  deniedTools : List String := []
  allowedResourcePrefixes : List String := []
  timeBoundedGrants : List TimeBoundedGrant := []
  deriving DecidableEq, Repr

structure CompiledAllowlist where
  allowedTools : List String
  deniedTools : List String
  resourcePrefixes : List String
  timeBoundedGrants : List (SystemTime × String)
  deriving DecidableEq, Repr

/-- `trim_end_matches('*')`. -/
def trimStars (s : String) : String := String.ofList (s.toList.rdropWhile (· = '*'))

/-- `SystemTime::UNIX_EPOCH + Duration::from_secs(secs)`. -/
def unixTime (secs : UInt64) : SystemTime := secs.toNat * 1000000000

def fromConfig (cfg : TenantAllowlist) : CompiledAllowlist where
  allowedTools := cfg.allowedTools
  deniedTools := cfg.deniedTools
  resourcePrefixes := (cfg.allowedResourcePrefixes.map trimStars).insertionSort (· ≤ ·)
  timeBoundedGrants :=
    (cfg.timeBoundedGrants.map fun g => (unixTime g.untilUnixSecs, g.tool)).insertionSort fun a b => a.1 ≤ b.1

/-- `slice::partition_point` on a slice that is partitioned. -/
def partitionPoint {α : Type} (p : α → Bool) (l : List α) : Nat := (l.takeWhile p).length

def CompiledAllowlist.hasActiveGrant (al : CompiledAllowlist) (tool : String) (now : SystemTime) : Bool :=
  let start := partitionPoint (fun g => decide (g.1 ≤ now)) al.timeBoundedGrants
  (al.timeBoundedGrants.drop start).any fun g => g.2 = tool

/-- `None` is a permission. -/
def CompiledAllowlist.checkTool (al : CompiledAllowlist) (tool : String) (now : SystemTime) : Option DenialReason :=
  if tool ∈ al.deniedTools then some .inDenylist
  else if tool ∈ al.allowedTools then none
  else if al.hasActiveGrant tool now then none
  else some .notInAllowlist

def startsWith (uri p : String) : Bool := p.toList.isPrefixOf uri.toList

def CompiledAllowlist.resourcePrefixMatches (al : CompiledAllowlist) (uri : String) : Bool :=
  let pos := partitionPoint (fun p => decide (p ≤ uri)) al.resourcePrefixes
  (decide (0 < pos) && (al.resourcePrefixes[pos - 1]?).any (startsWith uri)) ||
    (al.resourcePrefixes[pos]?).any (startsWith uri)

def CompiledAllowlist.checkResource (al : CompiledAllowlist) (uri : String) : Option DenialReason :=
  if al.resourcePrefixMatches uri then none else some .notInAllowlist

/-! ## The broker -/

structure AllowlistBroker where
  tenants : UInt32 → Option CompiledAllowlist
  signingKey : SigningKey

def AllowlistBroker.new (configs : UInt32 → Option TenantAllowlist) (signingKey : SigningKey) : AllowlistBroker where
  tenants tid := (configs tid).map fromConfig
  signingKey := signingKey

def evaluate (al : CompiledAllowlist) (request : McpRequest) (now : SystemTime) : Option DenialReason :=
  match request with
  | .toolCall tool _ => al.checkTool tool now
  | .resourceRead resource => al.checkResource resource
  -- All other requests pass without a check.
  | .toolList | .resourceList | .promptList | .promptGet _ | .lifecycle _ => none

def requestSubject : McpRequest → String
  | .toolCall tool _ => tool
  | .resourceRead resource => resource
  | .promptGet name => name
  | .toolList => "tools/list"
  | .resourceList => "resources/list"
  | .promptList => "prompts/list"
  | .lifecycle .init => "initialize"
  | .lifecycle .ping => "ping"
  | .lifecycle .shutdown => "shutdown"

/-- The event that `emit_audit` hands to the WAL. The correlation id is drawn there. -/
def auditEvent (correlationId : UInt64) (request : McpRequest) (identity : TenantIdentity)
    (decision : AuditDecision) (now : SystemTime) : McpAuditEvent where
  correlationId := correlationId
  tenant := identity.tenant
  subject := requestSubject request
  argumentHash := match request with
    | .toolCall _ hash => hash
    | _ => List.replicate 32 0
  decision := decision
  timestamp := now

/-- The decision, and the audit event that is written before it is returned. -/
def AllowlistBroker.authorize (hmac : Hmac) (broker : AllowlistBroker) (correlationId : UInt64) (now : SystemTime)
    (request : McpRequest) (identity : TenantIdentity) : CapabilityDecision × McpAuditEvent :=
  match broker.tenants identity.tenant.id with
  | none => (.deny .tenantUnknown, auditEvent correlationId request identity .deny now)
  | some al =>
    match evaluate al request now with
    | some reason => (.deny reason, auditEvent correlationId request identity .deny now)
    | none =>
      (.allow (sign hmac identity.tenant (requestSubject request) broker.signingKey),
        auditEvent correlationId request identity .allow now)

end Riftgate.Mcp
