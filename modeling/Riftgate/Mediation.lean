import Riftgate.Attested
import Riftgate.Grants
import Riftgate.Prefixes
import Riftgate.Tenants

/-!
# What a policy lets upstream

From the configuration to the wire: a key makes a tenant, a tenant has a policy, and no MCP request is routed against
it.
-/

open Lib

namespace Riftgate.Broker

open Mcp Proxy Tenant

/-! ## The policy of an id -/

/-- What a policy of the configuration permits at a time. -/
def Allowed (v : McpTenantConfig) (now : SystemTime) : McpRequest → Prop
  | .toolCall tool _ =>
    tool ∉ v.deniedTools ∧ (tool ∈ v.allowedTools ∨ Granted (tenantAllowlist v) tool now)
  | .resourceRead uri => GreatestMatches (tenantAllowlist v) uri
  | .toolList | .resourceList | .promptList | .promptGet _ | .lifecycle _ => True

theorem evaluate_eq_none (v : McpTenantConfig) (request : McpRequest) (now : SystemTime) :
    evaluate (fromConfig (tenantAllowlist v)) request now = none ↔ Allowed v now request := by
  cases request with
  | toolCall tool hash => exact checkTool_eq_none_iff (fromConfig_compiled (tenantAllowlist v)) tool now
  | resourceRead uri => exact permits_iff (tenantAllowlist v) uri
  | toolList | resourceList | promptList | promptGet _ | lifecycle _ => exact iff_of_true rfl trivial

variable {mcp : McpConfig}

/-- No two tenants share an id. -/
def DistinctIds (mcp : McpConfig) : Prop :=
  ∀ p ∈ mcp.tenants.pairs, ∀ q ∈ mcp.tenants.pairs, tenantIdFromKey p.1 = tenantIdFromKey q.1 → p = q

/-- The policy of a tenant with this id permits the request. -/
def Permitted (mcp : McpConfig) (now : SystemTime) (id : UInt32) (request : McpRequest) : Prop :=
  ∃ k v, (k, v) ∈ mcp.tenants.pairs ∧ tenantIdFromKey k = id ∧ Allowed v now request

theorem permitted_iff_lookup (hids : DistinctIds mcp) (now : SystemTime) (id : UInt32) (request : McpRequest) :
    Permitted mcp now id request ↔
      ∃ al, (tenantConfigs mcp).lookup id = some al ∧ evaluate (fromConfig al) request now = none := by
  constructor
  · rintro ⟨k, v, hk, rfl, hallowed⟩
    obtain ⟨k', v', hk', hid, hlookup⟩ := tenantConfigs_lookup mcp hk
    cases hids _ hk' _ hk hid
    exact ⟨_, hlookup, (evaluate_eq_none v request now).mpr hallowed⟩
  · rintro ⟨al, hlookup, heval⟩
    obtain ⟨⟨k, v⟩, hk, he⟩ := List.mem_map.mp (Table.mem_of_lookup_collect hlookup)
    obtain ⟨hid, rfl⟩ := Prod.mk.inj he
    exact ⟨k, v, hk, hid, (evaluate_eq_none v request now).mp heval⟩

/-! ## The broker -/

/-- What a request carries upstream: whose it is, what it asks for, and whether the policy permits it. -/
structure Attests (hmac : Hmac) (key : SigningKey) (mcp : McpConfig) (now : SystemTime) (id : UInt32)
    (request : McpRequest) (attestation : AttestationHeaders) : Prop where
  caller : attestation.caller = ⟨id⟩
  subject : attestation.subject = requestSubject request
  permitted : attestation.decision = "allow" ↔ Permitted mcp now id request
  signed : Permitted mcp now id request → verify hmac attestation key = true

variable (hmac : Hmac) (ephemeral : SigningKey) (correlationId : UInt64) (now : SystemTime)

/-- The allowlist broker of this configuration. -/
def configuredBroker (mcp : McpConfig) : AllowlistBroker :=
  .new (fun id => (tenantConfigs mcp).lookup id) (signingKey ephemeral mcp)

theorem authorize_permitted (hids : DistinctIds mcp) {request : McpRequest} {identity : TenantIdentity}
    (h : Permitted mcp now identity.tenant.id request) :
    ((configuredBroker ephemeral mcp).authorize hmac correlationId now request identity).1 =
      .allow (sign hmac identity.tenant (requestSubject request) (signingKey ephemeral mcp)) := by
  obtain ⟨al, hlookup, heval⟩ := (permitted_iff_lookup hids now identity.tenant.id request).mp h
  refine (authorize_allow_iff (c := ⟨correlationId, now, request, identity⟩)).mpr ⟨fromConfig al, ?_, heval, rfl⟩
  simp only [configuredBroker, AllowlistBroker.new, hlookup, Option.map_some]

theorem authorize_forbidden (hids : DistinctIds mcp) {request : McpRequest} {identity : TenantIdentity}
    (h : ¬ Permitted mcp now identity.tenant.id request) :
    ∃ reason,
      ((configuredBroker ephemeral mcp).authorize hmac correlationId now request identity).1 = .deny reason := by
  cases hd : ((configuredBroker ephemeral mcp).authorize hmac correlationId now request identity).1 with
  | deny reason => exact ⟨reason, rfl⟩
  | allow attestation =>
    obtain ⟨al, hal, heval, -⟩ := authorize_allow_iff (c := ⟨correlationId, now, request, identity⟩).mp hd
    obtain ⟨cfg, hcfg, rfl⟩ := Option.map_eq_some_iff.mp hal
    exact absurd ((permitted_iff_lookup hids now identity.tenant.id request).mpr ⟨cfg, hcfg, heval⟩) h

theorem dryRunAuthorize_decision (inner : McpRequest → TenantIdentity → CapabilityDecision × McpAuditEvent)
    (request : McpRequest) (identity : TenantIdentity) :
    (dryRunAuthorize inner request identity).1 = match (inner request identity).1 with
      | .allow attestation => .allow attestation
      | .deny _ => .allow ⟨identity.tenant, requestSubject request, "allow-dry-run", List.replicate 32 0⟩ := by
  unfold dryRunAuthorize
  generalize inner request identity = r
  obtain ⟨decision, event⟩ := r
  cases decision <;> rfl

/-- The broker that is built allows what the policy permits, and in a dry run everything. It does not attest a
permission that is not there. -/
theorem buildMcpBroker_decides (htenants : mcp.tenants.entries ≠ []) (hids : DistinctIds mcp) :
    ∃ authorize, buildMcpBroker hmac ephemeral mcp correlationId now = some authorize ∧ ∀ request identity,
      (∃ attestation, (authorize request identity).1 = .allow attestation ∧
        (mcp.enforce = false ∨ Permitted mcp now identity.tenant.id request) ∧
        Attests hmac (signingKey ephemeral mcp) mcp now identity.tenant.id request attestation) ∨
      ∃ reason, (authorize request identity).1 = .deny reason ∧ mcp.enforce = true ∧
        ¬ Permitted mcp now identity.tenant.id request := by
  unfold buildMcpBroker
  rw [if_neg htenants]
  refine ⟨_, rfl, fun request identity => ?_⟩
  have hinner : AllowlistBroker.new (fun id => (tenantConfigs mcp).lookup id) (signingKey ephemeral mcp) =
      configuredBroker ephemeral mcp := rfl
  rw [hinner]
  by_cases h : Permitted mcp now identity.tenant.id request
  · have hallow := authorize_permitted hmac ephemeral correlationId now hids h
    have hattests : Attests hmac (signingKey ephemeral mcp) mcp now identity.tenant.id request
        (sign hmac identity.tenant (requestSubject request) (signingKey ephemeral mcp)) :=
      ⟨rfl, rfl, iff_of_true rfl h, fun _ => decide_eq_true rfl⟩
    refine Or.inl ⟨_, ?_, Or.inr h, hattests⟩
    split
    · exact hallow
    · rw [dryRunAuthorize_decision, hallow]
  · obtain ⟨reason, hdeny⟩ := authorize_forbidden hmac ephemeral correlationId now hids h
    cases henforce : mcp.enforce with
    | true => exact Or.inr ⟨reason, hdeny, rfl, h⟩
    | false =>
      have hattests : Attests hmac (signingKey ephemeral mcp) mcp now identity.tenant.id request
          ⟨identity.tenant, requestSubject request, "allow-dry-run", List.replicate 32 0⟩ :=
        ⟨rfl, rfl, iff_of_false (show "allow-dry-run" ≠ "allow" by decide) h, fun hp => absurd hp h⟩
      refine Or.inl ⟨_, ?_, Or.inl rfl, hattests⟩
      simp only [Bool.false_eq_true, if_false]
      rw [dryRunAuthorize_decision, hdeny]

/-! ## The caller -/

variable (sha256 : List Byte → List Byte)

/-- The request has a bearer key, and the registry knows it as this tenant. -/
def Presents (tenants : MultitenancyConfig) (headers : Headers) (name : String) : Prop :=
  ∃ auth raw, (headerGet headers "authorization").bind toStr = some auth ∧
    stripStart "Bearer ".toList auth.toList = some raw ∧
    tenants.apiKeys.lookup (hashKey sha256 (String.ofList raw)) = some name

/-- The id that a request acts under. Without a known key it is that of the default identity. -/
def ActsAs (tenants : MultitenancyConfig) (headers : Headers) (id : UInt32) : Prop :=
  (∃ name, Presents sha256 tenants headers name ∧ id = tenantIdFromStr name) ∨
    (∀ name, ¬ Presents sha256 tenants headers name) ∧ id = 0

theorem resolve_eq_some {tenants : MultitenancyConfig} {headers : Headers} {identity : TenantIdentity} :
    (ApiKeyTenantResolver.fromConfig tenants).resolve sha256 headers = some identity ↔
      ∃ name, Presents sha256 tenants headers name ∧ identity = ⟨⟨tenantIdFromStr name⟩, name⟩ := by
  unfold ApiKeyTenantResolver.resolve Presents
  generalize "Bearer ".toList = start
  cases hauth : (headerGet headers "authorization").bind toStr with
  | none => simp
  | some auth =>
    cases hraw : stripStart start auth.toList with
    | none => simp [hraw]
    | some raw =>
      simp only [hraw, registry_lookup]
      cases hname : tenants.apiKeys.lookup (hashKey sha256 (String.ofList raw)) with
      | none => simp [hraw, hname]
      | some name => simp [hraw, hname, eq_comm]

theorem actsAs_resolved {tenants : MultitenancyConfig} (hmode : tenants.mode ≠ "trusted-header")
    (hkeys : tenants.apiKeys.entries ≠ []) (headers : Headers) :
    ActsAs sha256 tenants headers
      ((buildTenantResolver sha256 tenants headers).getD defaultIdentity).tenant.id := by
  have hbuild : buildTenantResolver sha256 tenants = (ApiKeyTenantResolver.fromConfig tenants).resolve sha256 := by
    rw [buildTenantResolver, if_neg hmode, if_neg hkeys]
  rw [hbuild]
  cases hresolve : (ApiKeyTenantResolver.fromConfig tenants).resolve sha256 headers with
  | none =>
    refine Or.inr ⟨fun name hname => ?_, rfl⟩
    have hsome := (resolve_eq_some sha256).mpr ⟨name, hname, rfl⟩
    rw [hresolve] at hsome
    cases hsome
  | some identity =>
    obtain ⟨name, hname, rfl⟩ := (resolve_eq_some sha256).mp hresolve
    exact Or.inl ⟨name, hname, rfl⟩

/-! ## The handler -/

variable (libs : McpParser.ParserLibs)

/-- The body is an MCP request, and it is permitted, or nothing is enforced. -/
def Admissible (mcp : McpConfig) (id : UInt32) (body : List Byte) (request : McpRequest) : Prop :=
  McpParser.parse libs body = .ok request ∧ (mcp.enforce = false ∨ Permitted mcp now id request)

theorem mcpAttestation_gateway (htenants : mcp.tenants.entries ≠ []) (hids : DistinctIds mcp) {st : HandlerState}
    {req : Request} (hpost : req.method = .post) (hpath : req.path = "/mcp") (body : List Byte) {id : UInt32}
    (hid : ((st.resolve req.headers).getD defaultIdentity).tenant.id = id) :
    (∃ log request attestation, mcpAttestation (mcpGateway libs hmac ephemeral mcp correlationId now st) req body =
        (log, .ok (some attestation)) ∧ Admissible now libs mcp id body request ∧
        Attests hmac (signingKey ephemeral mcp) mcp now id request attestation) ∨
      ∃ log code message, mcpAttestation (mcpGateway libs hmac ephemeral mcp correlationId now st) req body =
        (log, .error (.error code message)) ∧ (code = 400 ∨ code = 403) ∧
        ∀ request, ¬ Admissible now libs mcp id body request := by
  subst hid
  obtain ⟨authorize, hbuild, hdecides⟩ := buildMcpBroker_decides hmac ephemeral correlationId now htenants hids
  unfold mcpAttestation mcpGateway Admissible
  simp only [hpost, hpath, and_self, if_true, hbuild, Option.map_some]
  cases hparse : McpParser.parse libs body with
  | error e => exact Or.inr ⟨_, _, _, rfl, Or.inl rfl, fun request h => by cases h.1⟩
  | ok request =>
    rcases hdecides request ((st.resolve req.headers).getD defaultIdentity) with
      ⟨attestation, hallow, hpermit, hattests⟩ | ⟨reason, hdeny, henforce, hforbid⟩
    · simp only [hallow]
      exact Or.inl ⟨_, request, attestation, rfl, ⟨rfl, hpermit⟩, hattests⟩
    · simp only [hdeny]
      refine Or.inr ⟨_, _, _, rfl, Or.inr rfl, fun request' h => ?_⟩
      obtain ⟨hsame, hpermit⟩ := h
      cases hsame
      rcases hpermit with hdry | hpermit
      · rw [henforce] at hdry
        cases hdry
      · exact hforbid hpermit

theorem route_iff_admitted (st : HandlerState) (req : Request) :
    (∃ core d, Effect.route core d ∈ (handle st req).1) ↔ ∃ log v, beforeRouting st req = (log, .ok v) := by
  have hno : ∀ core d, Effect.route core d ∉ (beforeRouting st req).1 := by
    intro core d hmem
    obtain ⟨r, i, decision, he⟩ := beforeRouting_log st req _ hmem
    cases he
  unfold handle
  generalize beforeRouting st req = r at hno ⊢
  obtain ⟨log, admitted⟩ := r
  cases admitted with
  | error response => simp [hno]
  | ok v =>
    refine iff_of_true ⟨buildCoreRequest st.requestId req.method req.path v.1,
      st.route (buildCoreRequest st.requestId req.method req.path v.1), ?_⟩ ⟨log, v, rfl⟩
    cases hd : st.route (buildCoreRequest st.requestId req.method req.path v.1) <;> simp [hd]

/-- What the gateway does with an MCP request that acts under this id. -/
structure Mediated (mcp : McpConfig) (st : HandlerState) (req : Request) (body : List Byte) (id : UInt32) : Prop where
  routed : (∃ core d, Effect.route core d ∈
      (handle (mcpGateway libs hmac ephemeral mcp correlationId now st) req).1) ↔
    ∃ request, Admissible now libs mcp id body request
  refused : (∀ request, ¬ Admissible now libs mcp id body request) → ∃ code message,
    (handle (mcpGateway libs hmac ephemeral mcp correlationId now st) req).2 = .error code message ∧
      (code = 400 ∨ code = 403)
  dispatched : ∀ up t, Effect.dispatch up t ∈
      (handle (mcpGateway libs hmac ephemeral mcp correlationId now st) req).1 →
    ∃ request attestation, Admissible now libs mcp id body request ∧
      Attests hmac (signingKey ephemeral mcp) mcp now id request attestation ∧
      ∀ h ∈ attestedHeaders (requestSubject request) attestation, headerValues up.headers h.1 =
        headerValues req.headers h.1 ++ if st.fromStr (requestSubject request) = none then [] else [h.2]

theorem mediated_of_id (htenants : mcp.tenants.entries ≠ []) (hids : DistinctIds mcp) {st : HandlerState}
    (hfrom : FromStr st.fromStr) {req : Request} (hpost : req.method = .post) (hpath : req.path = "/mcp")
    {body : List Byte} (hbody : req.body = .ok body) {id : UInt32} (hid : ((st.resolve req.headers).getD defaultIdentity).tenant.id = id) :
    Mediated hmac ephemeral correlationId now libs mcp st req body id := by
  have hbefore :=
    @beforeRouting_mcp (mcpGateway libs hmac ephemeral mcp correlationId now st) req hpost hpath body hbody
  rcases mcpAttestation_gateway hmac ephemeral correlationId now libs htenants hids hpost hpath body hid with
    ⟨log, request, attestation, hmcp, hadmit, hattests⟩ | ⟨log, code, message, hmcp, hcode, hforbid⟩
  · rw [hmcp] at hbefore
    refine ⟨?_, fun hforbid => absurd hadmit (hforbid request), fun up t hdispatch => ?_⟩
    · rw [route_iff_admitted]
      exact iff_of_true ⟨_, _, hbefore⟩ ⟨request, hadmit⟩
    · obtain ⟨log', body', attestation', b, hbefore', -, hup, -⟩ := dispatch_admitted hdispatch
      rw [hbefore] at hbefore'
      cases hbefore'
      refine ⟨request, attestation, hadmit, hattests, ?_⟩
      rw [← hattests.subject]
      exact fun h => @attestation_values (mcpGateway libs hmac ephemeral mcp correlationId now st) hfrom req up b
        attestation hup h
  · rw [hmcp] at hbefore
    refine ⟨?_, fun _ => ⟨code, message, handle_error hbefore, hcode⟩, fun up t hdispatch => ?_⟩
    · rw [route_iff_admitted, hbefore]
      refine iff_of_false ?_ (not_exists.mpr hforbid)
      rintro ⟨log', v, h⟩
      cases h
    · obtain ⟨log', body', attestation', b, hbefore', -⟩ := handle_dispatched hdispatch
      rw [hbefore] at hbefore'
      cases hbefore'

/-- **No MCP request passes the policy by.** Where the gateway has keys and tenants, each with an id of its own, a
`POST /mcp` is routed exactly when its body is an MCP request that the policy of its tenant permits at that time, or
nothing is enforced. It is answered with 400 or 403 otherwise. What goes upstream has under the four names what the
client has sent there, and then, if `from_str` takes what is asked for, the attestation: it names the tenant and what it
asks for, and says that it is permitted exactly when it is, with a signature that verifies. -/
theorem mcp_mediated (htenants : mcp.tenants.entries ≠ []) (hids : DistinctIds mcp) {tenants : MultitenancyConfig}
    (hmode : tenants.mode ≠ "trusted-header") (hkeys : tenants.apiKeys.entries ≠ []) {st : HandlerState}
    (hresolve : st.resolve = buildTenantResolver sha256 tenants) (hfrom : FromStr st.fromStr) {req : Request}
    (hpost : req.method = .post) (hpath : req.path = "/mcp") {body : List Byte} (hbody : req.body = .ok body) :
    ∃ id, ActsAs sha256 tenants req.headers id ∧
      Mediated hmac ephemeral correlationId now libs mcp st req body id := by
  have hacts := actsAs_resolved sha256 hmode hkeys req.headers
  rw [← hresolve] at hacts
  exact ⟨_, hacts, mediated_of_id hmac ephemeral correlationId now libs htenants hids hfrom hpost hpath hbody rfl⟩

/-! ## One tenant with one tool -/

def searchBody : List Byte :=
  bytesOf "\x7b\"jsonrpc\":\"2.0\",\"id\":1,\"method\":\"tools/call\",\"params\":\x7b\"name\":\"search\"\x7d\x7d"

/-- `serde_json` on the body of this call, and SHA-256 of `null`, as it has no arguments. -/
def searchLibs : McpParser.ParserLibs where
  fromSlice body :=
    if body = searchBody then .ok ⟨"2.0", "tools/call", .object [("name", .string "search")]⟩
    else .error "expected value at line 1 column 1"
  toVec _ := .ok (bytesOf "null")
  sha256 _ := [116, 35, 78, 152, 175, 231, 73, 143, 181, 218, 241, 243, 106, 194, 215, 138, 204, 51, 148, 100, 249, 80,
    112, 59, 140, 1, 152, 146, 249, 130, 185, 11]

def searchConfig : McpConfig := { tenants := Table.collect [("acme", { allowedTools := ["search"] })] }

def searchRequest : Proxy.Request :=
  ⟨.post, "/mcp", none, [("authorization", bytesOf "Bearer sk-acme")], .ok searchBody⟩

def searchState : HandlerState :=
  { demoState (.response 200 []) with resolve := buildTenantResolver demoSha256 oneKey }

theorem search_distinctIds : DistinctIds searchConfig := by
  intro p hp q hq _
  have hpairs : searchConfig.tenants.pairs = [("acme", { allowedTools := ["search"] })] := rfl
  rw [hpairs, List.mem_singleton] at hp hq
  rw [hp, hq]

theorem search_mediated : ∃ id, ActsAs demoSha256 oneKey searchRequest.headers id ∧
    Mediated demoHmac demoKey 1 0 searchLibs searchConfig searchState searchRequest searchBody id :=
  mcp_mediated demoHmac demoKey 1 0 demoSha256 searchLibs (by decide) search_distinctIds (by decide) (by decide) rfl
    headerFromStr_ok rfl rfl rfl

end Riftgate.Broker
