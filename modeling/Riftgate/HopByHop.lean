import Riftgate.OwnedHeaders
import Riftgate.BodyFraming

/-!
# Headers that are for one hop

A message lists in `Connection` which of its headers are for the next hop only, beside those that always are. The
filter of `handle` has a fixed list, and in it `trailers` for `trailer`.
-/

open Lib

namespace Riftgate.Proxy

open Mcp Tenant

/-! ## Hop-by-hop, as RFC 7230 has it -/

def hopByHopNames : List String :=
  ["connection", "keep-alive", "proxy-authenticate", "proxy-authorization", "te", "trailer", "transfer-encoding",
    "upgrade"]

/-- The options of all `Connection` headers. A list with commas has one syntax in all headers. -/
def connectionOptions (headers : Headers) : List (List Byte) :=
  (headerValues headers "connection").flatMap Http1.codings

/-- The name is an option of a `Connection` header, in any letter case. -/
def Listed (headers : Headers) (name : String) : Prop :=
  ∃ o ∈ connectionOptions headers, eqIgnoreAsciiCase o (bytesOf name) = true

def HopByHop (headers : Headers) (name : String) : Prop := name ∈ hopByHopNames ∨ Listed headers name

instance (headers : Headers) (name : String) : Decidable (Listed headers name) :=
  inferInstanceAs (Decidable (∃ o ∈ connectionOptions headers, _))

instance (headers : Headers) (name : String) : Decidable (HopByHop headers name) :=
  inferInstanceAs (Decidable (_ ∨ _))

/-- No header of the message that is copied is hop-by-hop in it. -/
def EndToEnd (headers copied : Headers) : Prop := ∀ h ∈ copied, ¬ HopByHop headers h.1

/-! ## What is copied -/

/-- What `handle` copies from the response of the upstream. -/
def returnedHeaders (headers : Headers) : Headers := headers.filter fun h => !isHopByHop h.1

theorem isHopByHop_or_trailer {name : String} (h : name ∈ hopByHopNames) :
    isHopByHop name = true ∨ name = "trailer" := by
  have hall : ∀ n ∈ hopByHopNames, isHopByHop n = true ∨ n = "trailer" := by decide
  exact hall name h

theorem endToEnd_filter_iff (headers : Headers) {skip : String → Bool}
    (hskip : ∀ name, isHopByHop name = true → skip name = true) (htrailer : skip "trailer" = false) :
    EndToEnd headers (headers.filter fun h => !skip h.1) ↔
      ∀ h ∈ headers, h.1 ≠ "trailer" ∧ (Listed headers h.1 → skip h.1 = true) := by
  unfold EndToEnd HopByHop
  constructor
  · intro hclean h hmem
    have hdropped : skip h.1 = false → h.1 ∉ hopByHopNames ∧ ¬ Listed headers h.1 := by
      intro hkept
      exact not_or.mp (hclean h (List.mem_filter.mpr ⟨hmem, by simp [hkept]⟩))
    constructor
    · intro hname
      rw [hname] at hdropped
      exact (hdropped htrailer).1 (by decide)
    · intro hlisted
      by_contra hkept
      exact (hdropped (Bool.not_eq_true _ ▸ hkept)).2 hlisted
  · rintro hseen h hcopied hhop
    obtain ⟨hmem, hkept⟩ := List.mem_filter.mp hcopied
    obtain ⟨hname, hlisted⟩ := hseen h hmem
    have hskipped : skip h.1 = true := by
      rcases hhop with hfixed | hoption
      · exact hskip h.1 ((isHopByHop_or_trailer hfixed).resolve_right hname)
      · exact hlisted hoption
    simp [hskipped] at hkept

/-! ## Both directions -/

theorem gatewayHeaders_owned (st : HandlerState) (b : Router.BackendId) (attestation : Option AttestationHeaders) :
    ∀ h ∈ gatewayHeaders st b attestation, h.1 ∈ ownedNames st := by
  intro h hmem
  unfold gatewayHeaders at hmem
  unfold ownedNames
  rcases List.mem_append.mp hmem with hmem | hmem
  · rcases List.mem_append.mp hmem with hmem | hmem
    · split at hmem
      · cases hmem
      · rename_i hauth
        simp only [Option.mem_toList, Option.map_eq_some_iff] at hmem
        obtain ⟨v, -, rfl⟩ := hmem
        simp [hauth]
    · simp only [List.mem_cons, List.not_mem_nil, or_false] at hmem
      rcases hmem with rfl | rfl <;> simp
  · cases attestation with
    | none => cases hmem
    | some att =>
      simp only [Option.map_some, Option.getD_some, attestationHeaders] at hmem
      split at hmem
      · simp only [List.mem_cons, List.not_mem_nil, or_false] at hmem
        rcases hmem with rfl | rfl | rfl | rfl <;> simp
      · cases hmem

/-- **One hop, exactly.** What `handle` sends on is what it copies and what it sets itself. In each direction the copied
headers are end-to-end if and only if the message has no `trailer`, and lists in `Connection` only headers that the
filter drops anyway. -/
theorem forwarded_endToEnd_iff (st : HandlerState) (req : Request) (up : UpstreamRequest) (t : UInt32)
    (h : Effect.dispatch up t ∈ (handle st req).1) :
    (∃ own, up.headers = forwardedHeaders req ++ own ∧ ∀ g ∈ own, g.1 ∈ ownedNames st) ∧
    (EndToEnd req.headers (forwardedHeaders req) ↔
      ∀ g ∈ req.headers, g.1 ≠ "trailer" ∧ (Listed req.headers g.1 → isHopByHop g.1 = true ∨ g.1 = "host")) ∧
    ∀ status headers, st.upstream up = .response status headers →
      (∃ own, (handle st req).2 = .forwarded status (returnedHeaders headers ++ own) ∧
        ∀ g ∈ own, g.1 ∈ ownedNames st) ∧
      (EndToEnd headers (returnedHeaders headers) ↔
        ∀ g ∈ headers, g.1 ≠ "trailer" ∧ (Listed headers g.1 → isHopByHop g.1 = true)) := by
  obtain ⟨log, body, attestation, b, -, -, hup, hresponse⟩ := dispatch_admitted h
  refine ⟨⟨_, hup, gatewayHeaders_owned st b attestation⟩, ?_, fun status headers hanswer => ⟨?_, ?_⟩⟩
  · have hfilter := @endToEnd_filter_iff req.headers (fun name => isHopByHop name || name = "host")
      (fun name hname => by simp [hname]) (by decide)
    simp only [Bool.or_eq_true, decide_eq_true_eq] at hfilter
    exact hfilter
  · refine ⟨[("x-riftgate-request-id", bytesOf (requestIdText st.requestId)),
      ("x-riftgate-backend", bytesOf (backendIdText b))], ?_, ?_⟩
    · rw [hresponse, hanswer]
      rfl
    · simp [ownedNames]
  · exact endToEnd_filter_iff headers (fun name hname => hname) (by decide)

/-! ## A message of each kind -/

theorem te_endToEnd :
    let result : UpstreamResult := .response 200 [("content-type", bytesOf "text/html")]
    let req := headersRequest [("connection", bytesOf "TE, close"), ("te", bytesOf "trailers"), ("accept", bytesOf "*")]
    Effect.dispatch (headersUpstream result req.headers) 1000 ∈ (handle (demoState result) req).1 ∧
    (EndToEnd req.headers (forwardedHeaders req) ↔
      ∀ g ∈ req.headers, g.1 ≠ "trailer" ∧ (Listed req.headers g.1 → isHopByHop g.1 = true ∨ g.1 = "host")) := by
  intro result req
  have h := headers_dispatched result req.headers
  exact ⟨h, (forwarded_endToEnd_iff (demoState result) req _ 1000 h).2.1⟩

/-- A client that asks the gateway to keep a header to itself, and an upstream that announces its trailers. Both headers
are passed on. -/
theorem hopByHop_forwarded :
    let result : UpstreamResult := .response 200 [("trailer", bytesOf "expires")]
    let req := headersRequest [("connection", bytesOf "close, X-Session"), ("x-session", bytesOf "7")]
    let up := headersUpstream result req.headers
    Effect.dispatch up 1000 ∈ (handle (demoState result) req).1 ∧
    ("x-session", bytesOf "7") ∈ up.headers ∧ HopByHop req.headers "x-session" ∧
    ¬ EndToEnd req.headers (forwardedHeaders req) ∧
    (∃ headers, (handle (demoState result) req).2 = .forwarded 200 headers ∧
      ("trailer", bytesOf "expires") ∈ headers) ∧
    ¬ EndToEnd [("trailer", bytesOf "expires")] (returnedHeaders [("trailer", bytesOf "expires")]) := by
  intro result req up
  have hlisted : HopByHop req.headers "x-session" := by decide
  have hcopied : ("x-session", bytesOf "7") ∈ forwardedHeaders req := by decide
  have hdispatch := headers_dispatched result req.headers
  obtain ⟨log, body, attestation, b, -, -, -, hresponse⟩ := dispatch_admitted hdispatch
  refine ⟨hdispatch, by decide, hlisted, ?_, ⟨_, hresponse, List.mem_append_left _ (by decide)⟩, ?_⟩
  · intro hclean
    exact hclean _ hcopied hlisted
  · intro hclean
    exact hclean ("trailer", bytesOf "expires") (by decide) (by decide)

end Riftgate.Proxy
