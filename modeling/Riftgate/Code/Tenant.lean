import Riftgate.Lib.Table
import Riftgate.Lib.Text
import Riftgate.Code.Proxy

/-!
# Tenant identities: `riftgate-core/src/tenant.rs`

Also the `[multitenancy]` section of `riftgate-config/src/schema.rs`, and the choice of the resolver in
`riftgate/src/main.rs`. SHA-256 is a parameter.
-/

open Lib

namespace Riftgate.Tenant

open Mcp Proxy

/-! ## Names and ids -/

def fnvOffset : UInt32 := 2166136261
def fnvPrime : UInt32 := 16777619

def fnvStep (hash : UInt32) (b : Byte) : UInt32 := (hash ^^^ b.toUInt32) * fnvPrime

def fnv1a (bytes : List Byte) : UInt32 := bytes.foldl fnvStep fnvOffset

def tenantIdFromStr (s : String) : UInt32 :=
  match parseUnsigned 4294967296 s.toList with
  | some n => UInt32.ofNat n
  | none =>
    let hash := fnv1a (bytesOf s)
    if hash = 0 then 1 else hash

/-! ## Resolvers -/

abbrev TenantResolver := Headers → Option TenantIdentity

/-- `HeaderMap::get`: the first value. -/
def headerGet (headers : Headers) (name : String) : Option HeaderValue :=
  (headers.find? fun h => h.1 = name).map Prod.snd

/-- `HeaderMap::get_all`. -/
def headerValues (headers : Headers) (name : String) : List HeaderValue :=
  (headers.filter fun h => h.1 = name).map Prod.snd

/-- `HeaderValue::to_str`: visible ASCII, space and tab. -/
def toStr (v : HeaderValue) : Option String :=
  if v.all fun b => (decide (32 ≤ b) && decide (b < 127)) || b = 9 then
    some (String.ofList (v.map fun b => Char.ofNat b.toNat))
  else none

def headerTenantResolver : TenantResolver := fun headers =>
  let raw := ((headerGet headers "x-riftgate-tenant").bind toStr).getD "0"
  some ⟨⟨tenantIdFromStr raw⟩, raw⟩

structure MultitenancyConfig where
  mode : String := "api-key"
  apiKeys : Table String String := ∅

structure ApiKeyTenantResolver where
  registry : Table String (TenantId × String)

def ApiKeyTenantResolver.fromConfig (cfg : MultitenancyConfig) : ApiKeyTenantResolver where
  registry := Table.collect (cfg.apiKeys.pairs.map fun p => (p.1, (⟨tenantIdFromStr p.2⟩, p.2)))

def hashKey (sha256 : List Byte → List Byte) (rawKey : String) : String :=
  "sha256:" ++ signatureHex (sha256 (bytesOf rawKey))

def ApiKeyTenantResolver.resolve (sha256 : List Byte → List Byte) (r : ApiKeyTenantResolver) : TenantResolver :=
  fun headers =>
    match (headerGet headers "authorization").bind toStr with
    | none => none
    | some auth =>
      match stripStart "Bearer ".toList auth.toList with
      | none => none
      | some rawKey =>
        match r.registry.lookup (hashKey sha256 (String.ofList rawKey)) with
        | none => none
        | some (id, principal) => some ⟨id, principal⟩

def buildTenantResolver (sha256 : List Byte → List Byte) (cfg : MultitenancyConfig) : TenantResolver :=
  if cfg.mode = "trusted-header" then headerTenantResolver
  else if cfg.apiKeys.entries = [] then headerTenantResolver -- an empty registry, so that requests proceed
  else (ApiKeyTenantResolver.fromConfig cfg).resolve sha256

end Riftgate.Tenant
