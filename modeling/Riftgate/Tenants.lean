import Riftgate.Attestation
import Riftgate.Handler
import Riftgate.Code.Broker

/-!
# Who a request is from, and whose policy it gets

The resolver, the broker and the handler that puts the two together.
-/

open Lib

namespace Riftgate.Tenant

open Mcp Proxy Broker

/-! ## The registry of keys -/

theorem headerGet_eq_head (headers : Headers) (name : String) :
    headerGet headers name = (headerValues headers name).head? := by
  simp only [headerGet, headerValues, List.head?_map, List.head?_filter]

theorem registry_lookup (cfg : MultitenancyConfig) (hashed : String) :
    (ApiKeyTenantResolver.fromConfig cfg).registry.lookup hashed =
      (cfg.apiKeys.lookup hashed).map fun name => (⟨tenantIdFromStr name⟩, name) :=
  Table.lookup_collect_map cfg.apiKeys (fun name => ((⟨tenantIdFromStr name⟩ : TenantId), name)) hashed

theorem resolve_congr (sha256 : List Byte → List Byte) (r : ApiKeyTenantResolver) {headers headers' : Headers}
    (h : headerValues headers "authorization" = headerValues headers' "authorization") :
    r.resolve sha256 headers = r.resolve sha256 headers' := by
  unfold ApiKeyTenantResolver.resolve
  rw [headerGet_eq_head, headerGet_eq_head, h]

/-! ## Only the key counts -/

/-- Two requests with the same `Authorization` values have the same identity. -/
def OnlyTheKeyCounts (resolve : TenantResolver) : Prop :=
  ∀ headers headers' : Headers, headerValues headers "authorization" = headerValues headers' "authorization" →
    resolve headers = resolve headers'

theorem header_decides : headerTenantResolver [("x-riftgate-tenant", [49])] ≠ headerTenantResolver [] := by
  decide

/-- SHA-256 on the keys of the examples. -/
def demoSha256 (m : List Byte) : List Byte :=
  if m = bytesOf "sk-acme" then
    [95, 142, 238, 145, 44, 215, 192, 204, 178, 56, 86, 14, 138, 34, 231, 247, 137, 9, 230, 218, 193, 130, 136, 24, 143,
      127, 78, 163, 81, 18, 112, 13]
  else if m = bytesOf "sha256:8254c329a92850f6d539dd376f4816ee2764517da5e0235514af433164480d7a" then
    [168, 64, 23, 58, 126, 176, 94, 184, 76, 105, 251, 170, 218, 20, 232, 139, 50, 59, 57, 62, 136, 75, 83, 21, 67,
      6, 241, 191, 107, 197, 151, 190]
  else []

/-- A gateway with one key. -/
def oneKey : MultitenancyConfig where
  apiKeys := Table.collect [("sha256:5f8eee912cd7c0ccb238560e8a22e7f78909e6dac18288188f7f4ea35112700d", "acme")]

/-- **Noninterference, exactly.** Outside of the trusted mode the other headers do not count if and only if
the registry has a key: an empty one hands the choice of the tenant to the client. -/
theorem buildTenantResolver_onlyTheKeyCounts_iff (sha256 : List Byte → List Byte) (cfg : MultitenancyConfig)
    (hmode : cfg.mode ≠ "trusted-header") :
    OnlyTheKeyCounts (buildTenantResolver sha256 cfg) ↔ cfg.apiKeys.entries ≠ [] := by
  unfold buildTenantResolver
  rw [if_neg hmode]
  by_cases hempty : cfg.apiKeys.entries = []
  · rw [if_pos hempty]
    simp only [ne_eq, hempty, not_true_eq_false, iff_false]
    intro honly
    exact header_decides (honly [("x-riftgate-tenant", [49])] [] (by decide))
  · rw [if_neg hempty]
    simp only [ne_eq, hempty, not_false_eq_true, iff_true]
    intro headers headers' h
    exact resolve_congr sha256 _ h

theorem oneKey_onlyTheKeyCounts :
    oneKey.mode ≠ "trusted-header" ∧
    (OnlyTheKeyCounts (buildTenantResolver demoSha256 oneKey) ↔ oneKey.apiKeys.entries ≠ []) :=
  ⟨by decide, buildTenantResolver_onlyTheKeyCounts_iff demoSha256 oneKey (by decide)⟩

/-- No key in the registry: a client without a credential names its tenant. -/
theorem empty_registry_trusts_header :
    let cfg : MultitenancyConfig := { mode := "api-key" }
    cfg.mode ≠ "trusted-header" ∧
    buildTenantResolver demoSha256 cfg [("x-riftgate-tenant", [49])] = some ⟨⟨1⟩, "1"⟩ ∧
    buildTenantResolver demoSha256 cfg [] = some ⟨⟨0⟩, "0"⟩ ∧
    ¬ OnlyTheKeyCounts (buildTenantResolver demoSha256 cfg) := by
  refine ⟨by decide, by decide, by decide, ?_⟩
  intro honly
  exact header_decides (honly [("x-riftgate-tenant", [49])] [] (by decide))

/-! ## The two brokers -/

theorem dryRunAuthorize_event (inner : McpRequest → TenantIdentity → CapabilityDecision × McpAuditEvent)
    (request : McpRequest) (identity : TenantIdentity) :
    (dryRunAuthorize inner request identity).2 = (inner request identity).2 := by
  unfold dryRunAuthorize
  generalize inner request identity = r
  obtain ⟨decision, event⟩ := r
  cases decision <;> rfl

theorem buildMcpBroker_eq {hmac : Hmac} {ephemeral : SigningKey} {mcp : McpConfig} {correlationId : UInt64}
    {now : SystemTime} {authorize : McpRequest → TenantIdentity → CapabilityDecision × McpAuditEvent}
    (h : buildMcpBroker hmac ephemeral mcp correlationId now = some authorize) :
    mcp.tenants.entries ≠ [] ∧
      ∃ broker : AllowlistBroker, broker.signingKey = signingKey ephemeral mcp ∧
        (authorize = broker.authorize hmac correlationId now ∨
          authorize = dryRunAuthorize (broker.authorize hmac correlationId now)) := by
  unfold buildMcpBroker at h
  split at h
  · cases h
  · rename_i htenants
    rw [Option.some.injEq] at h
    refine ⟨htenants, .new (fun id => (tenantConfigs mcp).lookup id) (signingKey ephemeral mcp), rfl, ?_⟩
    split at h
    · exact .inl h.symm
    · exact .inr h.symm

theorem buildMcpBroker_attestation {hmac : Hmac} {ephemeral : SigningKey} {mcp : McpConfig} {correlationId : UInt64}
    {now : SystemTime} {authorize : McpRequest → TenantIdentity → CapabilityDecision × McpAuditEvent}
    (h : buildMcpBroker hmac ephemeral mcp correlationId now = some authorize) {request : McpRequest}
    {identity : TenantIdentity} {att : AttestationHeaders} (hallow : (authorize request identity).1 = .allow att) :
    att = sign hmac identity.tenant (requestSubject request) (signingKey ephemeral mcp) ∨
      att = ⟨identity.tenant, requestSubject request, "allow-dry-run", List.replicate 32 0⟩ := by
  obtain ⟨-, broker, hkey, hauthorize⟩ := buildMcpBroker_eq h
  have hinner : ∀ att, (broker.authorize hmac correlationId now request identity).1 = .allow att →
      att = sign hmac identity.tenant (requestSubject request) (signingKey ephemeral mcp) := by
    intro att h
    obtain ⟨al, -, -, rfl⟩ := authorize_allow_iff (c := ⟨correlationId, now, request, identity⟩).mp h
    rw [hkey]
  rcases hauthorize with rfl | rfl
  · exact .inl (hinner att hallow)
  · unfold dryRunAuthorize at hallow
    split at hallow
    · rename_i inner event heq
      cases hallow
      exact .inl (hinner att (by rw [heq]))
    · cases hallow
      exact .inr rfl

/-! ## The policy of a tenant -/

/-- A decision that is computed from one allowlist and nothing else. -/
def policyDecision (hmac : Hmac) (key : SigningKey) (enforce : Bool) (al : TenantAllowlist) (now : SystemTime)
    (request : McpRequest) (identity : TenantIdentity) : CapabilityDecision :=
  match evaluate (fromConfig al) request now with
  | none => .allow (sign hmac identity.tenant (requestSubject request) key)
  | some reason =>
    if enforce then .deny reason
    else .allow ⟨identity.tenant, requestSubject request, "allow-dry-run", List.replicate 32 0⟩

section

variable (hmac : Hmac) (ephemeral : SigningKey) (mcp : McpConfig) (correlationId : UInt64) (now : SystemTime)

theorem buildMcpBroker_decision {id : UInt32} {al : TenantAllowlist} (h : (tenantConfigs mcp).lookup id = some al) :
    ∃ broker, buildMcpBroker hmac ephemeral mcp correlationId now = some broker ∧
      ∀ request principal, (broker request ⟨⟨id⟩, principal⟩).1 =
        policyDecision hmac (signingKey ephemeral mcp) mcp.enforce al now request ⟨⟨id⟩, principal⟩ := by
  have hne : mcp.tenants.entries ≠ [] := by
    intro hempty
    have hmem := Table.mem_of_lookup_collect h
    simp [Table.pairs, hempty] at hmem
  unfold buildMcpBroker
  rw [if_neg hne]
  refine ⟨_, rfl, fun request principal => ?_⟩
  have hlookup : (AllowlistBroker.new (fun id => (tenantConfigs mcp).lookup id)
      (signingKey ephemeral mcp)).tenants id = some (fromConfig al) := by
    simp [AllowlistBroker.new, h]
  unfold policyDecision
  cases heval : evaluate (fromConfig al) request now with
  | none => cases mcp.enforce <;> simp [AllowlistBroker.authorize, dryRunAuthorize, hlookup, heval] <;> rfl
  | some reason => cases mcp.enforce <;> simp [AllowlistBroker.authorize, dryRunAuthorize, hlookup, heval]

/-- The allowlist of an id is that of a key with this id, and no other key of it is the last word. -/
theorem tenantConfigs_lookup {k : String} {v : McpTenantConfig} (hk : (k, v) ∈ mcp.tenants.pairs) :
    ∃ k' v', (k', v') ∈ mcp.tenants.pairs ∧ tenantIdFromKey k' = tenantIdFromKey k ∧
      (tenantConfigs mcp).lookup (tenantIdFromKey k) = some (tenantAllowlist v') := by
  have hmem : (tenantIdFromKey k, tenantAllowlist v) ∈
      mcp.tenants.pairs.map fun p => (tenantIdFromKey p.1, tenantAllowlist p.2) :=
    List.mem_map.mpr ⟨(k, v), hk, rfl⟩
  obtain ⟨al, hal⟩ := Table.exists_lookup_collect hmem
  obtain ⟨⟨k', v'⟩, hp, he⟩ := List.mem_map.mp (Table.mem_of_lookup_collect hal)
  obtain ⟨hid, rfl⟩ := Prod.mk.inj he
  exact ⟨k', v', hp, hid, hal⟩

theorem tenantIdFromStr_toString {n : Nat} (h : n < 4294967296) : tenantIdFromStr (toString n) = UInt32.ofNat n := by
  have hchars : (toString n).toList = Nat.toDigits 10 n := by
    rw [Nat.toString_eq_repr, Nat.toList_repr]
  unfold tenantIdFromStr
  rw [hchars, parseUnsigned_toDigits h]

/-- **Whose policy a tenant gets.** Numerals without a sign or leading zeros are ids of their own. The
decision for the id of a key is computed from the allowlist of a key with that id, and that is the key itself
unless another one shares its id. -/
theorem buildMcpBroker_policy :
    (∀ n m : Nat, n < 4294967296 → m < 4294967296 → n ≠ m →
      tenantIdFromKey (toString n) ≠ tenantIdFromKey (toString m)) ∧
    ∀ k v, (k, v) ∈ mcp.tenants.pairs →
      ∃ broker k' v', buildMcpBroker hmac ephemeral mcp correlationId now = some broker ∧
        (k', v') ∈ mcp.tenants.pairs ∧ tenantIdFromKey k' = tenantIdFromStr k ∧
        ((∀ k'' ∈ mcp.tenants.keys, tenantIdFromKey k'' = tenantIdFromKey k → k'' = k) → k' = k ∧ v' = v) ∧
        ∀ request principal, (broker request ⟨⟨tenantIdFromStr k⟩, principal⟩).1 =
          policyDecision hmac (signingKey ephemeral mcp) mcp.enforce (tenantAllowlist v') now request
            ⟨⟨tenantIdFromStr k⟩, principal⟩ := by
  refine ⟨?_, ?_⟩
  · intro n m hn hm hne heq
    unfold tenantIdFromKey at heq
    rw [tenantIdFromStr_toString hn, tenantIdFromStr_toString hm] at heq
    have := congrArg UInt32.toNat heq
    rw [UInt32.toNat_ofNat_of_lt' hn, UInt32.toNat_ofNat_of_lt' hm] at this
    exact hne this
  · intro k v hk
    obtain ⟨k', v', hk', hid, hlookup⟩ := tenantConfigs_lookup mcp hk
    obtain ⟨broker, hbroker, hdecision⟩ := buildMcpBroker_decision hmac ephemeral mcp correlationId now hlookup
    refine ⟨broker, k', v', hbroker, hk', hid, ?_, hdecision⟩
    intro hown
    have hkey : k' = k := hown k' (by rw [← Table.pairs_keys]; exact List.mem_map.mpr ⟨_, hk', rfl⟩) hid
    subst hkey
    refine ⟨rfl, ?_⟩
    rw [← Table.lookup_eq_some_iff] at hk hk'
    rw [hk] at hk'
    cases hk'
    rfl

end

def demoHmac : Hmac := fun key message => (key.key ++ message).take 32

def demoKey : SigningKey := ⟨List.replicate 32 7⟩

/-- Two tenants, each with a tool of its own. -/
def twoTenants (first second : String) : McpConfig where
  tenants := Table.collect [(first, { allowedTools := ["read"] }), (second, { allowedTools := ["write"] })]

theorem buildMcpBroker_policy_acme :
    let mcp := twoTenants "acme" "7"
    ("acme", { allowedTools := ["read"] }) ∈ mcp.tenants.pairs ∧
    ∃ broker k' v', buildMcpBroker demoHmac demoKey mcp 1 0 = some broker ∧
      (k', v') ∈ mcp.tenants.pairs ∧ tenantIdFromKey k' = tenantIdFromStr "acme" ∧
      ((∀ k'' ∈ mcp.tenants.keys, tenantIdFromKey k'' = tenantIdFromKey "acme" → k'' = "acme") →
        k' = "acme" ∧ v' = { allowedTools := ["read"] }) ∧
      ∀ request principal, (broker request ⟨⟨tenantIdFromStr "acme"⟩, principal⟩).1 =
        policyDecision demoHmac (signingKey demoKey mcp) mcp.enforce (tenantAllowlist v') 0 request
          ⟨⟨tenantIdFromStr "acme"⟩, principal⟩ := by
  intro mcp
  have hmem : ("acme", { allowedTools := ["read"] }) ∈ mcp.tenants.pairs := by decide
  exact ⟨hmem, (buildMcpBroker_policy demoHmac demoKey mcp 1 0).2 "acme" _ hmem⟩

/-- Two spellings of one number: the one that comes last overwrites the policy of the other. -/
theorem leading_zero_overwrites :
    let mcp := twoTenants "01" "1"
    mcp.tenants.keys = ["1", "01"] ∧ tenantIdFromKey "1" = tenantIdFromKey "01" ∧
    mcp.tenants.lookup "1" = some { allowedTools := ["write"] } ∧
    (tenantConfigs mcp).lookup (tenantIdFromStr "1") = some { allowedTools := ["read"] } ∧
    ∃ broker, buildMcpBroker demoHmac demoKey mcp 1 0 = some broker ∧
      (broker (.toolCall "write" []) ⟨⟨tenantIdFromStr "1"⟩, "1"⟩).1 = .deny .notInAllowlist ∧
      policyDecision demoHmac demoKey true (tenantAllowlist { allowedTools := ["write"] }) 0 (.toolCall "write" [])
        ⟨⟨tenantIdFromStr "1"⟩, "1"⟩ ≠ .deny .notInAllowlist :=
  ⟨by decide, by decide, by decide, by decide, _, rfl, by decide, by decide⟩

/-! ## A request without a credential -/

/-- The answer is 401, and the request is neither allowed by the broker nor sent upstream. -/
def Refused (st : HandlerState) (req : Request) : Prop :=
  (∃ message, (handle st req).2 = .error 401 message) ∧
  (∀ request identity attestation, Effect.authorize request identity (.allow attestation) ∉ (handle st req).1) ∧
  ∀ up t, Effect.dispatch up t ∉ (handle st req).1

theorem beforeRouting_mcp {st : HandlerState} {req : Request} (hpost : req.method = .post) (hpath : req.path = "/mcp")
    {body : List Byte} (hbody : req.body = .ok body) :
    beforeRouting st req = ((mcpAttestation st req body).1,
      (mcpAttestation st req body).2.map fun attestation => (body, attestation)) := by
  unfold beforeRouting
  simp [hpost, hpath, hbody]

theorem mcpAttestation_none {st : HandlerState} {req : Request} {body : List Byte} (h : st.broker = none) :
    mcpAttestation st req body = ([], .ok none) := by
  unfold mcpAttestation
  simp [h]

theorem mcpAttestation_unresolved {st : HandlerState} {req : Request} {body : List Byte} (hpost : req.method = .post)
    (hpath : req.path = "/mcp") (hnone : st.resolve req.headers = none)
    {authorize : McpRequest → TenantIdentity → CapabilityDecision} (hbroker : st.broker = some authorize) :
    (∃ message, mcpAttestation st req body = ([], .error (.error 400 message))) ∨
    (∃ request reason, mcpAttestation st req body =
      ([.authorize request defaultIdentity (.deny reason)], .error (.error 403 reason.asHeaderValue))) ∨
    ∃ request attestation, mcpAttestation st req body =
      ([.authorize request defaultIdentity (.allow attestation)], .ok (some attestation)) := by
  unfold mcpAttestation
  simp only [hpost, hpath, and_self, if_true, hbroker, hnone, Option.getD_none]
  cases hparse : st.parseMcp body with
  | error e => exact Or.inl ⟨_, rfl⟩
  | ok request =>
    simp only
    cases hdecision : authorize request defaultIdentity with
    | allow attestation => exact Or.inr (Or.inr ⟨request, attestation, rfl⟩)
    | deny reason => exact Or.inr (Or.inl ⟨request, reason, rfl⟩)

theorem handle_error {st : HandlerState} {req : Request} {log : List Effect} {response : Response}
    (h : beforeRouting st req = (log, .error response)) : (handle st req).2 = response := by
  unfold handle
  rw [h]

theorem handle_ok {st : HandlerState} {req : Request} {log : List Effect} {body : List Byte}
    {attestation : Option AttestationHeaders} (h : beforeRouting st req = (log, .ok (body, attestation))) :
    log ⊆ (handle st req).1 := by
  intro e he
  unfold handle
  rw [h]
  simp only
  cases st.route (buildCoreRequest st.requestId req.method req.path body) <;> simp [he]

theorem handle_silent {st : HandlerState} {req : Request} {body : List Byte}
    (h : beforeRouting st req = ([], .ok (body, none))) :
    Refused st req ↔ st.route (buildCoreRequest st.requestId req.method req.path body) = .reject ⟨401⟩ := by
  unfold Refused handle
  rw [h]
  simp only
  cases hroute : st.route (buildCoreRequest st.requestId req.method req.path body) with
  | hedge bs => simp
  | reject s =>
    obtain ⟨code⟩ := s
    simp only [List.append_nil, List.cons_append, List.nil_append, List.mem_cons, List.not_mem_nil, reduceCtorEq,
      or_self, not_false_eq_true, implies_true, and_true, Response.error.injEq, exists_eq_right',
      Router.RoutingDecision.reject.injEq, Router.StatusCode.mk.injEq]
    unfold rejectStatus
    split
    · rfl
    · rename_i hcode
      constructor
      · intro h500
        exact absurd h500 (by decide)
      · rintro rfl
        exact absurd (by decide) hcode
  | send b =>
    simp only [reduceCtorEq, iff_false]
    rintro ⟨⟨message, h401⟩, -, hdispatch⟩
    unfold forward at h401 hdispatch
    cases huri : buildUpstreamUri st.parseUri st.backend.url req.path req.query with
    | error text =>
      rw [huri] at h401
      simp at h401
    | ok uri =>
      rw [huri] at hdispatch
      exact hdispatch ⟨req.method, uri, upstreamHeaders st req b none, body⟩ st.backend.timeoutMs (by simp)

/-- **A missing credential, exactly.** A `POST /mcp` whose caller cannot be resolved is refused with 401 if and
only if there is no broker and the router itself rejects it with that code. -/
theorem unresolved_refused_iff (st : HandlerState) (req : Request) (hpost : req.method = .post)
    (hpath : req.path = "/mcp") (hnone : st.resolve req.headers = none) :
    Refused st req ↔ st.broker = none ∧
      ∃ body, req.body = .ok body ∧
        st.route (buildCoreRequest st.requestId req.method req.path body) = .reject ⟨401⟩ := by
  cases hbody : req.body with
  | error e =>
    have hbefore : beforeRouting st req = ([], .error (.error 400 ("body read error: " ++ e))) := by
      unfold beforeRouting
      simp [hpost, hpath, hbody]
    simp only [reduceCtorEq, false_and, exists_false, and_false, iff_false]
    rintro ⟨⟨message, h401⟩, -⟩
    rw [handle_error hbefore] at h401
    cases h401
  | ok body =>
    have hbefore := @beforeRouting_mcp st req hpost hpath body hbody
    cases hbroker : st.broker with
    | none =>
      rw [mcpAttestation_none hbroker] at hbefore
      rw [handle_silent hbefore]
      simp
    | some authorize =>
      simp only [reduceCtorEq, false_and, iff_false]
      rintro ⟨⟨message, h401⟩, hallow, -⟩
      obtain ⟨text, hmcp⟩ | ⟨request, reason, hmcp⟩ | ⟨request, attestation, hmcp⟩ :=
        @mcpAttestation_unresolved st req body hpost hpath hnone authorize hbroker
      · rw [hmcp] at hbefore
        rw [handle_error hbefore] at h401
        cases h401
      · rw [hmcp] at hbefore
        rw [handle_error hbefore] at h401
        cases h401
      · rw [hmcp] at hbefore
        exact hallow request defaultIdentity attestation (handle_ok hbefore List.mem_cons_self)

/-- A gateway with keys, and with a policy for tenant 0. -/
def tenantZero : HandlerState :=
  { demoState (.response 200 []) with
    broker := (buildMcpBroker demoHmac demoKey
      { tenants := Table.collect [("0", { allowedTools := ["search"] })] } 1 0).map fun f r i => (f r i).1
    resolve := buildTenantResolver demoSha256 oneKey
    parseMcp := fun _ => .ok (.toolCall "search" []) }

def noCredential : Request := ⟨.post, "/mcp", none, [], .ok [123, 125]⟩

theorem tenantZero_refused_iff :
    tenantZero.resolve noCredential.headers = none ∧
    (Refused tenantZero noCredential ↔ tenantZero.broker = none ∧
      ∃ body, noCredential.body = .ok body ∧
        tenantZero.route (buildCoreRequest tenantZero.requestId noCredential.method noCredential.path body) =
          .reject ⟨401⟩) :=
  ⟨by decide, unresolved_refused_iff tenantZero noCredential rfl rfl (by decide)⟩

/-- No key is sent, and the request has the rights of tenant 0. -/
theorem noCredential_allowed :
    tenantZero.resolve noCredential.headers = none ∧
    (∃ headers, (handle tenantZero noCredential).2 = .forwarded 200 headers) ∧
    (∃ attestation, Effect.authorize (.toolCall "search" []) ⟨⟨0⟩, "default"⟩ (.allow attestation) ∈
      (handle tenantZero noCredential).1) ∧
    ¬ Refused tenantZero noCredential := by
  have hforwarded : ∃ headers, (handle tenantZero noCredential).2 = .forwarded 200 headers := ⟨_, rfl⟩
  refine ⟨by decide, hforwarded, ⟨_, List.mem_cons_of_mem _ List.mem_cons_self⟩, ?_⟩
  rintro ⟨⟨message, h401⟩, -⟩
  obtain ⟨headers, h⟩ := hforwarded
  rw [h] at h401
  cases h401

end Riftgate.Tenant
