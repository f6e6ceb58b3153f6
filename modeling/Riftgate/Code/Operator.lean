import Riftgate.Code.Broker

/-!
# The operator: `riftgate-operator/src/reconciler.rs` and `render.rs`

It reads API keys out of Secrets and writes the configuration of the gateway as TOML. The Kubernetes API, the
debug form of a string and the TOML reader of the gateway are parameters.
-/

open Lib

namespace Riftgate.Operator

open Mcp Proxy Tenant Broker

/-! ## Custom resources -/

structure RiftgateSpec where
  listenAddr : String
  obsEndpoint : String
  logLevel : String
  deriving DecidableEq, Repr

structure RiftgateBackendSpec where
  url : Option String
  timeoutMs : UInt32
  deriving DecidableEq, Repr

structure McpRouteConfig where
  allowedTools : List String := []
  deniedTools : List String := []
  allowedResourcePrefixes : List String := []
  deriving DecidableEq, Repr

structure SecretKeyRef where
  name : String
  key : String
  deriving DecidableEq, Repr

structure MultitenancyRouteConfig where
  apiKeySecretRef : Option SecretKeyRef
  deriving DecidableEq, Repr

structure RiftgateRouteSpec where
  mcp : Option McpRouteConfig := none
  multitenancy : Option MultitenancyRouteConfig := none
  deriving DecidableEq, Repr

structure Secret where
  data : Option (Table String (List Byte))

/-! ## API keys -/

/-- The text of a route's Secret. A route without one, or one that cannot be read, is passed over. -/
def secretContent (getSecret : String → Option Secret) (route : RiftgateRouteSpec) : Option String :=
  route.multitenancy.bind fun mt => mt.apiKeySecretRef.bind fun secretRef =>
    (getSecret secretRef.name).bind fun secret => secret.data.bind fun data =>
      (data.lookup secretRef.key).bind fromUtf8

/-- A line of a Secret: what stands before and after its first equals sign. -/
def apiKeyLine (line : List Char) : Option (List Char × List Char) :=
  let line := trim line
  if line = [] ∨ line.head? = some '#' then none else splitOnce '=' line

def storedKey (sha256 : List Byte → List Byte) (k : List Char) : String :=
  if "sha256:".toList.isPrefixOf k then String.ofList k
  else "sha256:" ++ signatureHex (sha256 (bytesOf (String.ofList k)))

/-- The lines of all Secrets, in the order of the insertions. -/
def apiKeyLines (getSecret : String → Option Secret) (routes : List (String × RiftgateRouteSpec)) :
    List (List Char × List Char) :=
  (routes.filterMap fun route => secretContent getSecret route.2).flatMap fun content =>
    (lines content.toList).filterMap apiKeyLine

def collectApiKeys (sha256 : List Byte → List Byte) (getSecret : String → Option Secret)
    (routes : List (String × RiftgateRouteSpec)) : Table String String :=
  Table.collect ((apiKeyLines getSecret routes).map fun p => (storedKey sha256 p.1, String.ofList p.2))

/-! ## Rendering -/

def sanitizeTomlKey (s : String) : String :=
  String.ofList (s.toList.map fun c => if c = '-' ∨ c = '.' then '_' else c)

def toTomlStringArray (debug : String → String) (v : List String) : String :=
  "[" ++ ", ".intercalate (v.map debug) ++ "]"

def mcpRoutes (routes : List (String × RiftgateRouteSpec)) : List (String × McpRouteConfig) :=
  routes.filterMap fun route => route.2.mcp.map fun mcp => (route.1, mcp)

def renderTenant (debug : String → String) (name : String) (mcp : McpRouteConfig) : String :=
  "[mcp.tenants." ++ sanitizeTomlKey name ++ "]\n" ++
  "allowed_tools = " ++ toTomlStringArray debug mcp.allowedTools ++ "\n" ++
  "denied_tools = " ++ toTomlStringArray debug mcp.deniedTools ++ "\n" ++
  "allowed_resource_prefixes = " ++ toTomlStringArray debug mcp.allowedResourcePrefixes ++ "\n\n"

def renderMcp (debug : String → String) (routes : List (String × RiftgateRouteSpec)) : String :=
  if mcpRoutes routes = [] then ""
  else
    "[mcp]\nenforce = true\n\n" ++ String.join ((mcpRoutes routes).map fun route => renderTenant debug route.1 route.2)

def renderMultitenancy (debug : String → String) (apiKeys : Table String String) : String :=
  if apiKeys.entries = [] then ""
  else "[multitenancy]\nmode = \"api-key\"\n\n[multitenancy.api_keys]\n" ++
    String.join ((apiKeys.pairs.mergeSort fun a b => decide (a.1 ≤ b.1)).map fun p =>
      debug p.1 ++ " = " ++ debug p.2 ++ "\n") ++ "\n"

def renderBackend (debug : String → String) (backends : List (String × RiftgateBackendSpec)) : String :=
  match backends.head? with
  | none => ""
  | some (_, b) =>
    "[backend]\n" ++ ((b.url.map fun url => "url = " ++ debug url ++ "\n").getD "") ++
      "timeout_ms = " ++ toString b.timeoutMs.toNat ++ "\n\n"

def renderConfig (debug : String → String) (gateway : RiftgateSpec) (backends : List (String × RiftgateBackendSpec))
    (routes : List (String × RiftgateRouteSpec)) (apiKeys : Table String String) : String :=
  "[server]\nlisten_addr = " ++ debug gateway.listenAddr ++ "\n\n" ++ renderBackend debug backends ++
  "[obs]\notel_endpoint = " ++ debug gateway.obsEndpoint ++ "\n\n[log]\nlevel = " ++ debug gateway.logLevel ++ "\n\n" ++
  renderMcp debug routes ++ renderMultitenancy debug apiKeys

/-- The sections that the gateway reads back. -/
structure GatewayConfig where
  mcp : McpConfig := {}
  multitenancy : MultitenancyConfig := {}

end Riftgate.Operator
