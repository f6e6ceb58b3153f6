import Riftgate.ApiKeys
import Riftgate.OwnedHeaders

/-!
# What an allowed request carries

The four headers of an attestation go in together or not at all. Which of the two it is depends on the subject, and
that can be any text of a JSON body.
-/

open Lib

namespace Riftgate.Proxy

open Mcp McpParser Tenant Broker Operator

/-! ## Header values -/

/-- What `http` documents of `HeaderValue::from_str`: it takes a visible text, and what it takes it keeps. -/
structure FromStr (fromStr : String → Option HeaderValue) : Prop where
  visible : ∀ {s : String}, (∀ c ∈ s.toList, Visible c) → fromStr s = some (bytesOf s)
  keeps : ∀ {s : String} {v : HeaderValue}, fromStr s = some v → v = bytesOf s

theorem headerFromStr_ok : FromStr headerFromStr := by
  constructor
  · intro s hs
    have hbytes : bytesOf s = s.toList.map fun c => UInt8.ofNat c.toNat := by
      have hascii := toUTF8_ascii (l := s.toList) fun c hc => by rcases hs c hc with h | h <;> omega
      rw [String.ofList_toList] at hascii
      exact hascii
    have hall : ((bytesOf s).all fun b => (decide (32 ≤ b) && decide (b ≠ 127)) || decide (b = 9)) = true := by
      rw [hbytes, List.all_map, List.all_eq_true]
      intro c hc
      have hbyte := (visible_byte (hs c hc)).1
      simp only [Bool.or_eq_true, Bool.and_eq_true, decide_eq_true_eq] at hbyte
      simp only [Function.comp_apply, Bool.or_eq_true, Bool.and_eq_true, decide_eq_true_eq]
      refine hbyte.imp_left fun h => ⟨h.1, fun hdelete => ?_⟩
      rw [hdelete] at h
      exact absurd h.2 (by decide)
    unfold headerFromStr
    rw [if_pos hall]
  · intro s v h
    unfold headerFromStr at h
    split at h
    · exact (Option.some.inj h).symm
    · cases h

theorem digitChar_visible {n : Nat} (h : n < 16) : Visible n.digitChar := by
  have hall : ∀ n < 16, Visible (Nat.digitChar n) := by decide
  exact hall n h

theorem signatureHex_visible (signature : List Byte) : ∀ c ∈ (signatureHex signature).toList, Visible c := by
  intro c hc
  simp only [signatureHex, String.toList_ofList, List.mem_flatMap, List.mem_cons, List.not_mem_nil, or_false] at hc
  obtain ⟨b, -, hc⟩ := hc
  have hlt := b.toNat_lt
  rcases hc with rfl | rfl
  · exact digitChar_visible (by omega)
  · exact digitChar_visible (by omega)

theorem decimal_visible (n : Nat) : ∀ c ∈ (toString n).toList, Visible c := by
  intro c hc
  rw [Nat.toString_eq_repr, Nat.toList_repr] at hc
  have hdigit := Nat.isDigit_of_mem_toDigits (by omega) (by omega) hc
  rw [Char.isDigit_iff_toNat] at hdigit
  have hlow : 48 ≤ c.toNat := hdigit.1
  have hhigh : c.toNat ≤ 57 := hdigit.2
  exact .inl ⟨by omega, by omega⟩

/-! ## The four headers -/

def attestedNames : List String :=
  ["riftgate-mcp-caller", "riftgate-mcp-tool", "riftgate-mcp-decision", "riftgate-mcp-signature"]

/-- The headers of an attestation with this subject. -/
def attestedHeaders (subject : String) (att : AttestationHeaders) : Headers :=
  [("riftgate-mcp-caller", bytesOf (toString att.caller.id.toNat)), ("riftgate-mcp-tool", bytesOf subject),
    ("riftgate-mcp-decision", bytesOf att.decision),
    ("riftgate-mcp-signature", bytesOf (signatureHex att.signature))]

section

variable {fromStr : String → Option HeaderValue} (hfrom : FromStr fromStr)

include hfrom

/-- The caller and the signature are always taken, so the subject decides. -/
theorem attestationHeaders_eq (att : AttestationHeaders) :
    attestationHeaders fromStr att = if fromStr att.subject = none then [] else attestedHeaders att.subject att := by
  unfold attestationHeaders attestedHeaders
  rw [hfrom.visible (decimal_visible _), hfrom.visible (signatureHex_visible _)]
  cases hsubject : fromStr att.subject with
  | none => rfl
  | some v =>
    rw [hfrom.keeps hsubject]
    rfl

end

theorem headerValues_gateway (st : HandlerState) (b : Router.BackendId) (att : AttestationHeaders) {subject : String}
    {h : String × HeaderValue} (hmem : h ∈ attestedHeaders subject att) :
    headerValues (gatewayHeaders st b (some att)) h.1 = headerValues (attestationHeaders st.fromStr att) h.1 := by
  have hname : h.1 ∈ attestedNames := List.mem_map_of_mem hmem
  have hother : ∀ name ∈ attestedNames,
      name ≠ "authorization" ∧ name ≠ "x-riftgate-request-id" ∧ name ≠ "x-riftgate-backend" := by decide
  obtain ⟨hauth, hid, hbackend⟩ := hother h.1 hname
  unfold gatewayHeaders
  rw [headerValues_append, Option.map_some, Option.getD_some, List.append_left_eq_self, headerValues_eq_nil_iff]
  intro g hg
  rcases List.mem_append.mp hg with hg | hg
  · split at hg
    · cases hg
    · simp only [Option.mem_toList, Option.map_eq_some_iff] at hg
      obtain ⟨v, -, rfl⟩ := hg
      exact hauth.symm
  · simp only [List.mem_cons, List.not_mem_nil, or_false] at hg
    rcases hg with rfl | rfl
    · exact hid.symm
    · exact hbackend.symm

theorem headerValues_attested {subject : String} {att : AttestationHeaders} {h : String × HeaderValue}
    (hmem : h ∈ attestedHeaders subject att) : headerValues (attestedHeaders subject att) h.1 = [h.2] := by
  simp only [attestedHeaders, List.mem_cons, List.not_mem_nil, or_false] at hmem
  rcases hmem with rfl | rfl | rfl | rfl <;> rfl

theorem attestation_values {st : HandlerState} (hfrom : FromStr st.fromStr) {req : Request} {up : UpstreamRequest}
    {b : Router.BackendId} {att : AttestationHeaders}
    (hup : up.headers = forwardedHeaders req ++ gatewayHeaders st b (some att)) {h : String × HeaderValue}
    (hmem : h ∈ attestedHeaders att.subject att) :
    headerValues up.headers h.1 =
      headerValues req.headers h.1 ++ if st.fromStr att.subject = none then [] else [h.2] := by
  have hname : h.1 ∈ attestedNames := List.mem_map_of_mem hmem
  have hforwarded : ∀ name ∈ attestedNames, isHopByHop name = false ∧ name ≠ "host" := by decide
  obtain ⟨hhop, hhost⟩ := hforwarded h.1 hname
  rw [hup, headerValues_append, headerValues_gateway st b att hmem, headerValues_forwarded req hhop hhost,
    attestationHeaders_eq hfrom]
  split
  · rfl
  · rw [headerValues_attested hmem]

/-! ## The gateway with its parser and its broker -/

/-- The gateway has added its four headers to those of the client, and the subject is the only tool. -/
def Attested (req : Request) (up : UpstreamRequest) (request : McpRequest) (att : AttestationHeaders) : Prop :=
  (∀ h ∈ attestedHeaders (requestSubject request) att,
    headerValues up.headers h.1 = headerValues req.headers h.1 ++ [h.2]) ∧
  headerValues up.headers "riftgate-mcp-tool" = [bytesOf (requestSubject request)]

section

variable (hmac : Hmac) (ephemeral : SigningKey) (mcp : McpConfig) (correlationId : UInt64) (now : SystemTime)

theorem mcpBroker_subject {authorize : McpRequest → TenantIdentity → CapabilityDecision × McpAuditEvent}
    (hbroker : buildMcpBroker hmac ephemeral mcp correlationId now = some authorize) {request : McpRequest}
    {identity : TenantIdentity} {att : AttestationHeaders} (hallow : (authorize request identity).1 = .allow att) :
    att.subject = requestSubject request := by
  rcases buildMcpBroker_attestation hbroker hallow with rfl | rfl
  · rfl
  · rfl

variable {hmac ephemeral mcp correlationId now} {libs : ParserLibs} {st : HandlerState}

/-- **Attestation, exactly.** A request that its broker has allowed goes upstream with the four headers, and with its
subject as the tool, if and only if `from_str` takes the subject as a header and the client has sent no tool of its
own. -/
theorem attested_iff (hfrom : FromStr st.fromStr) {req : Request} (hpost : req.method = .post)
    (hpath : req.path = "/mcp") {body : List Byte} (hbody : req.body = .ok body) {request : McpRequest}
    (hparse : parse libs body = .ok request)
    {authorize : McpRequest → TenantIdentity → CapabilityDecision × McpAuditEvent}
    (hbroker : buildMcpBroker hmac ephemeral mcp correlationId now = some authorize) {att : AttestationHeaders}
    (hallow : (authorize request ((st.resolve req.headers).getD defaultIdentity)).1 = .allow att)
    {up : UpstreamRequest} {t : UInt32}
    (hdispatch : Effect.dispatch up t ∈ (handle (mcpGateway libs hmac ephemeral mcp correlationId now st) req).1) :
    Attested req up request att ↔
      st.fromStr (requestSubject request) ≠ none ∧ ∀ h ∈ req.headers, h.1 ≠ "riftgate-mcp-tool" := by
  have hsubject := mcpBroker_subject hmac ephemeral mcp correlationId now hbroker hallow
  obtain ⟨log, body', attestation, b, hbefore, -, hup, -⟩ := dispatch_admitted hdispatch
  have hatt : attestation = some att := by
    rw [beforeRouting_mcp hpost hpath hbody] at hbefore
    simp only [mcpAttestation, hpost, hpath, mcpGateway, hbroker, hparse] at hbefore
    simp only [and_self, if_true, Option.map_some, hallow, Except.map, Prod.mk.injEq, Except.ok.injEq] at hbefore
    exact hbefore.2.2.symm
  subst hatt
  have hvalues : ∀ h ∈ attestedHeaders (requestSubject request) att, headerValues up.headers h.1 =
      headerValues req.headers h.1 ++ if st.fromStr (requestSubject request) = none then [] else [h.2] := by
    rw [← hsubject]
    exact fun h =>
      @attestation_values (mcpGateway libs hmac ephemeral mcp correlationId now st) hfrom req up b att hup h
  have htool : ("riftgate-mcp-tool", bytesOf (requestSubject request)) ∈
      attestedHeaders (requestSubject request) att := by
    simp [attestedHeaders]
  unfold Attested
  by_cases hrefused : st.fromStr (requestSubject request) = none
  · -- Not even the tool is there.
    simp only [hrefused, if_true, List.append_nil] at hvalues
    refine iff_of_false ?_ (fun h => h.1 hrefused)
    rintro ⟨hadded, -⟩
    have hboth := (hvalues _ htool).symm.trans (hadded _ htool)
    rw [List.self_eq_append_right] at hboth
    cases hboth
  · simp only [hrefused, if_false] at hvalues
    rw [and_iff_right hvalues, and_iff_right hrefused, hvalues _ htool, List.append_left_eq_self,
      headerValues_eq_nil_iff]

end

/-! ## Two prompts -/

/-- The body of a prompt whose name is written like this. -/
def promptBody (written : String) : List Byte :=
  bytesOf ("\x7b\"jsonrpc\":\"2.0\",\"id\":1,\"method\":\"prompts/get\",\"params\":\x7b\"name\":\"" ++ written ++
    "\"\x7d\x7d")

/-- `serde_json` on the body of one prompt. -/
def promptLibs (written name : String) : ParserLibs where
  fromSlice body :=
    if body = promptBody written then .ok ⟨"2.0", "prompts/get", .object [("name", .string name)]⟩
    else .error "expected value at line 1 column 1"
  toVec _ := .ok []
  sha256 := demoSha256

def promptRequest (written : String) : Request := ⟨.post, "/mcp", none, [], .ok (promptBody written)⟩

/-- Tenant 0 has an allowlist, and an empty one. -/
def promptConfig : McpConfig := { tenants := Table.collect [("0", {})] }

def promptGateway (written name : String) : HandlerState :=
  mcpGateway (promptLibs written name) demoHmac demoKey promptConfig 2 0 (demoState (.response 200 []))

def promptAttestation (name : String) : AttestationHeaders := sign demoHmac ⟨0⟩ name demoKey

def promptUpstream (written name : String) : UpstreamRequest :=
  ⟨.post, demoUri "/mcp",
    upstreamHeaders (promptGateway written name) (promptRequest written) ⟨0⟩ (some (promptAttestation name)),
    promptBody written⟩

theorem promptBody_parsed (written name : String) :
    parse (promptLibs written name) (promptBody written) = .ok (.promptGet name) := by
  simp [parse, promptLibs, stringField, Json.get, Json.asStr, Except.map]

theorem prompt_allowed (name : String) :
    ∃ authorize, buildMcpBroker demoHmac demoKey promptConfig 2 0 = some authorize ∧
      authorize (.promptGet name) defaultIdentity =
        (.allow (promptAttestation name), auditEvent 2 (.promptGet name) defaultIdentity .allow 0) :=
  ⟨_, rfl, rfl⟩

theorem prompt_admitted (written name : String) :
    beforeRouting (promptGateway written name) (promptRequest written) =
      ([.authorize (.promptGet name) defaultIdentity (.allow (promptAttestation name))],
        .ok (promptBody written, some (promptAttestation name))) := by
  obtain ⟨authorize, hbroker, hallow⟩ := prompt_allowed name
  rw [beforeRouting_mcp rfl rfl rfl]
  simp [mcpAttestation, promptGateway, mcpGateway, promptRequest, hbroker, promptBody_parsed, demoState, hallow,
    Except.map]

theorem mcp_uri : buildUpstreamUri readAbsolute "http://backend" "/mcp" none = .ok (demoUri "/mcp") := by
  decide

theorem prompt_dispatched (written name : String) :
    Effect.dispatch (promptUpstream written name) 1000 ∈
      (handle (promptGateway written name) (promptRequest written)).1 := by
  unfold handle
  rw [prompt_admitted]
  simp [promptGateway, mcpGateway, demoState, forward, mcp_uri, promptRequest, promptUpstream]

theorem attested_summary :
    let req := promptRequest "summary"
    let up := promptUpstream "summary" "summary"
    let att := promptAttestation "summary"
    FromStr (demoState (.response 200 [])).fromStr ∧
    Effect.dispatch up 1000 ∈ (handle (promptGateway "summary" "summary") req).1 ∧
    (Attested req up (.promptGet "summary") att ↔
      (demoState (.response 200 [])).fromStr (requestSubject (.promptGet "summary")) ≠ none ∧
        ∀ h ∈ req.headers, h.1 ≠ "riftgate-mcp-tool") := by
  intro req up att
  obtain ⟨authorize, hbroker, hallow⟩ := prompt_allowed "summary"
  have hidentity : ((demoState (.response 200 [])).resolve req.headers).getD defaultIdentity = defaultIdentity := rfl
  have hdispatch := prompt_dispatched "summary" "summary"
  rw [← hidentity] at hallow
  exact ⟨headerFromStr_ok, hdispatch, attested_iff headerFromStr_ok rfl rfl rfl
    (promptBody_parsed "summary" "summary") hbroker (congrArg Prod.fst hallow) hdispatch⟩

/-- A name with a line feed. The prompt is allowed and goes upstream, and nothing there says so. -/
theorem unattested_prompt :
    let st := promptGateway "a\\nb" "a\nb"
    let req := promptRequest "a\\nb"
    let att := promptAttestation "a\nb"
    parse (promptLibs "a\\nb" "a\nb") (promptBody "a\\nb") = .ok (.promptGet "a\nb") ∧
    (∃ authorize, buildMcpBroker demoHmac demoKey promptConfig 2 0 = some authorize ∧
      (authorize (.promptGet "a\nb") defaultIdentity).1 = .allow att) ∧
    (∃ up t, Effect.dispatch up t ∈ (handle st req).1 ∧
      (∀ name ∈ attestedNames, headerValues up.headers name = []) ∧
      ¬ Attested req up (.promptGet "a\nb") att) := by
  intro st req att
  have hnone : ∀ name ∈ attestedNames, headerValues (promptUpstream "a\\nb" "a\nb").headers name = [] := by decide
  obtain ⟨authorize, hbroker, hallow⟩ := prompt_allowed "a\nb"
  refine ⟨promptBody_parsed _ _, ⟨authorize, hbroker, congrArg Prod.fst hallow⟩, promptUpstream _ _, 1000,
    prompt_dispatched _ _, hnone, ?_⟩
  rintro ⟨-, htool⟩
  rw [hnone _ (by decide)] at htool
  cases htool

end Riftgate.Proxy
