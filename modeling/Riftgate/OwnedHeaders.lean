import Riftgate.Handler
import Riftgate.Code.Tenant

/-!
# The headers that the gateway sets

The upstream request has the headers of the client and then those of the gateway. A name that both use has
the values of both.
-/

open Lib

namespace Riftgate.Proxy

open Mcp Tenant

def ownedNames (st : HandlerState) : List String :=
  ["x-riftgate-request-id", "x-riftgate-backend", "riftgate-mcp-caller", "riftgate-mcp-tool", "riftgate-mcp-decision",
    "riftgate-mcp-signature"] ++ if st.backend.authHeader = "" then [] else ["authorization"]

/-! ## Two parts -/

def forwardedHeaders (req : Request) : Headers := req.headers.filter fun h => !(isHopByHop h.1 || h.1 = "host")

def gatewayHeaders (st : HandlerState) (b : Router.BackendId) (attestation : Option AttestationHeaders) : Headers :=
  (if st.backend.authHeader = "" then []
    else ((st.fromStr st.backend.authHeader).map fun v => ("authorization", v)).toList) ++
  [("x-riftgate-request-id", bytesOf (requestIdText st.requestId)),
    ("x-riftgate-backend", bytesOf (backendIdText b))] ++
  (attestation.map (attestationHeaders st.fromStr)).getD []

theorem upstreamHeaders_eq (st : HandlerState) (req : Request) (b : Router.BackendId)
    (attestation : Option AttestationHeaders) :
    upstreamHeaders st req b attestation = forwardedHeaders req ++ gatewayHeaders st b attestation := by
  simp only [upstreamHeaders, forwardedHeaders, gatewayHeaders, List.append_assoc]

/-- The values that the gateway itself sets under a name: the backend is the router's, the attestation the
broker's. -/
def gatewayValues (st : HandlerState) (req : Request) (name : String) : List HeaderValue :=
  match (beforeRouting st req).2 with
  | .error _ => []
  | .ok (body, attestation) =>
    match st.route (buildCoreRequest st.requestId req.method req.path body) with
    | .send b => headerValues (gatewayHeaders st b attestation) name
    | _ => []

theorem headerValues_append (l l' : Headers) (name : String) :
    headerValues (l ++ l') name = headerValues l name ++ headerValues l' name := by
  simp [headerValues]

theorem headerValues_eq_nil_iff (l : Headers) (name : String) : headerValues l name = [] ↔ ∀ h ∈ l, h.1 ≠ name := by
  simp [headerValues, List.filter_eq_nil_iff]

theorem headerValues_forwarded (req : Request) {name : String} (hhop : isHopByHop name = false)
    (hhost : name ≠ "host") : headerValues (forwardedHeaders req) name = headerValues req.headers name := by
  unfold headerValues forwardedHeaders
  rw [List.filter_filter]
  refine congrArg _ (List.filter_congr fun h _ => ?_)
  by_cases hname : h.1 = name
  · simp [hname, hhop, hhost]
  · simp [hname]

/-! ## What is dispatched -/

theorem forward_dispatch_eq {st : HandlerState} {req : Request} {body : List Byte}
    {attestation : Option AttestationHeaders} {b : Router.BackendId} {up : UpstreamRequest} {t : UInt32}
    (h : Effect.dispatch up t ∈ (forward st req body attestation b).1) :
    up.headers = upstreamHeaders st req b attestation ∧
      (forward st req body attestation b).2 = (finish st b (st.upstream up)).2 := by
  unfold forward at h ⊢
  split at h
  · simp at h
  · simp only [List.cons_append, List.nil_append, List.mem_cons, dispatch_finish, or_false, reduceCtorEq, false_or,
      Effect.dispatch.injEq] at h
    obtain ⟨rfl, -⟩ := h
    exact ⟨rfl, rfl⟩

theorem dispatch_admitted {st : HandlerState} {req : Request} {up : UpstreamRequest} {t : UInt32}
    (h : Effect.dispatch up t ∈ (handle st req).1) :
    ∃ log body attestation b, beforeRouting st req = (log, .ok (body, attestation)) ∧
      st.route (buildCoreRequest st.requestId req.method req.path body) = .send b ∧
      up.headers = forwardedHeaders req ++ gatewayHeaders st b attestation ∧
      (handle st req).2 = (finish st b (st.upstream up)).2 := by
  obtain ⟨log, body, attestation, b, hbefore, hroute, hforward, hhandle⟩ := handle_dispatched h
  obtain ⟨hheaders, hresponse⟩ := forward_dispatch_eq hforward
  rw [upstreamHeaders_eq] at hheaders
  refine ⟨log, body, attestation, b, hbefore, hroute, hheaders, ?_⟩
  rw [hhandle]
  exact hresponse

theorem dispatch_headers {st : HandlerState} {req : Request} {up : UpstreamRequest} {t : UInt32}
    (h : Effect.dispatch up t ∈ (handle st req).1) :
    ∃ b attestation, up.headers = forwardedHeaders req ++ gatewayHeaders st b attestation ∧
      ∀ name, gatewayValues st req name = headerValues (gatewayHeaders st b attestation) name := by
  obtain ⟨log, body, attestation, b, hbefore, hroute, hup, -⟩ := dispatch_admitted h
  refine ⟨b, attestation, hup, fun name => ?_⟩
  unfold gatewayValues
  rw [hbefore]
  simp only
  rw [hroute]

/-! ## Who sets them -/

theorem ownedNames_forwarded {st : HandlerState} {name : String} (h : name ∈ ownedNames st) :
    isHopByHop name = false ∧ name ≠ "host" := by
  have hall : ∀ n ∈ ["x-riftgate-request-id", "x-riftgate-backend", "riftgate-mcp-caller", "riftgate-mcp-tool",
      "riftgate-mcp-decision", "riftgate-mcp-signature", "authorization"], isHopByHop n = false ∧ n ≠ "host" := by
    decide
  refine hall name ?_
  unfold ownedNames at h
  split at h
  · simp only [List.append_nil] at h
    exact List.mem_append_left ["authorization"] h
  · exact h

/-- **Spoofing, exactly.** Every name that the gateway owns has the values of the gateway alone if and only if
the client sent none of these names. -/
theorem ownedHeaders_iff (st : HandlerState) (req : Request) (up : UpstreamRequest) (t : UInt32)
    (h : Effect.dispatch up t ∈ (handle st req).1) :
    (∀ name ∈ ownedNames st, headerValues up.headers name = gatewayValues st req name) ↔
      ∀ header ∈ req.headers, header.1 ∉ ownedNames st := by
  obtain ⟨b, attestation, hup, hgateway⟩ := dispatch_headers h
  have hname : ∀ name ∈ ownedNames st, headerValues up.headers name = gatewayValues st req name ↔
      ∀ header ∈ req.headers, header.1 ≠ name := by
    intro name howned
    obtain ⟨hhop, hhost⟩ := ownedNames_forwarded howned
    rw [hup, hgateway, headerValues_append, List.append_left_eq_self, headerValues_forwarded req hhop hhost,
      headerValues_eq_nil_iff]
  constructor
  · intro hvalues header hmem howned
    exact (hname header.1 howned).mp (hvalues header.1 howned) header hmem rfl
  · intro hnone name howned
    refine (hname name howned).mpr ?_
    rintro header hmem rfl
    exact hnone header hmem howned

/-- A request with any headers. -/
def headersRequest (headers : Headers) : Request := ⟨.get, "/v1/models", none, headers, .ok []⟩

def headersUpstream (result : UpstreamResult) (headers : Headers) : UpstreamRequest :=
  ⟨.get, demoUri "/v1/models",
    upstreamHeaders (demoState result) (headersRequest headers) ⟨0⟩ none, []⟩

theorem headers_dispatched (result : UpstreamResult) (headers : Headers) :
    Effect.dispatch (headersUpstream result headers) 1000 ∈ (handle (demoState result) (headersRequest headers)).1 := by
  simp [handle, beforeRouting, mcpAttestation, forward, buildCoreRequest, Except.map, demo_uri, demoState,
    headersRequest, headersUpstream]

/-- A request with a header of its own. -/
def withHeader (name : String) (value : String) : Request :=
  ⟨.get, "/v1/models", none, [(name, bytesOf value)], .ok []⟩

def withHeaderUpstream (name value : String) : UpstreamRequest :=
  ⟨.get, demoUri "/v1/models",
    upstreamHeaders (demoState (.response 200 [])) (withHeader name value) ⟨0⟩ none, []⟩

theorem withHeader_dispatched (name value : String) :
    Effect.dispatch (withHeaderUpstream name value) 1000 ∈
      (handle (demoState (.response 200 [])) (withHeader name value)).1 :=
  headers_dispatched (.response 200 []) [(name, bytesOf value)]

theorem ownedHeaders_accept :
    let st := demoState (.response 200 [])
    let req := withHeader "accept" "*/*"
    Effect.dispatch (withHeaderUpstream "accept" "*/*") 1000 ∈ (handle st req).1 ∧
    ((∀ name ∈ ownedNames st, headerValues (withHeaderUpstream "accept" "*/*").headers name =
        gatewayValues st req name) ↔ ∀ header ∈ req.headers, header.1 ∉ ownedNames st) := by
  intro st req
  have h := withHeader_dispatched "accept" "*/*"
  exact ⟨h, ownedHeaders_iff st req _ 1000 h⟩

/-- No broker has seen the request, and yet the upstream gets a decision. -/
theorem forged_decision_forwarded :
    let st := demoState (.response 200 [])
    let req := withHeader "riftgate-mcp-decision" "allow"
    let up := withHeaderUpstream "riftgate-mcp-decision" "allow"
    Effect.dispatch up 1000 ∈ (handle st req).1 ∧ "riftgate-mcp-decision" ∈ ownedNames st ∧
    headerValues up.headers "riftgate-mcp-decision" = [bytesOf "allow"] ∧
    gatewayValues st req "riftgate-mcp-decision" = [] := by
  refine ⟨withHeader_dispatched _ _, by decide, by decide, by decide⟩

end Riftgate.Proxy
