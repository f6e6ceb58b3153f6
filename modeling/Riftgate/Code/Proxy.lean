import Riftgate.Code.Router
import Riftgate.Code.Capability
import Riftgate.Code.Allowlist

/-!
# The request handler: `riftgate/src/proxy.rs`

`handle` as a function of the request and of what the outside answers. It returns the response,
and the list of what it has done on the way: spans, calls of the broker and of the router, and the
upstream request. JSON, header values, URIs and the upstream are parameters.
-/

open Lib

namespace Riftgate.Proxy

open Router Mcp

inductive Method where
  | get
  | post
  | put
  | delete
  | options
  | head
  | other (name : String)
  deriving DecidableEq, Repr

abbrev HeaderValue := List Byte

/-- In the order of arrival. Names are lowercase. -/
abbrev Headers := List (String × HeaderValue)

/-- `http::Uri`, as its accessors answer. -/
structure Uri where
  scheme : Option String
  authority : Option String
  path : String
  query : Option String
  deriving DecidableEq, Repr

structure Request where
  method : Method
  path : String
  query : Option String
  headers : Headers
  body : Except String (List Byte) -- what `collect` yields
  deriving Repr

structure CoreRequest where
  id : UInt64
  method : Method
  path : String
  body : Option (List Byte)
  deriving DecidableEq, Repr

structure UpstreamRequest where
  method : Method
  uri : Uri
  headers : Headers
  body : List Byte
  deriving DecidableEq, Repr

inductive UpstreamResult where
  | response (status : UInt16) (headers : Headers)
  | failed (error : String)
  | elapsed -- the timeout
  deriving DecidableEq, Repr

inductive Span where
  | requestReceived
  | requestQueued
  | requestDispatched
  | requestCompleted
  | requestRejected
  deriving DecidableEq, Repr

inductive Effect where
  | span (name : Span) (duration : Nat)
  | authorize (request : McpRequest) (identity : TenantIdentity) (decision : CapabilityDecision)
  | route (request : CoreRequest) (decision : RoutingDecision)
  | dispatch (request : UpstreamRequest) (timeoutMs : UInt32)
  | onResponse (decision : RoutingDecision) (outcome : Outcome)
  deriving DecidableEq, Repr

inductive Response where
  | health
  | ready (draining : Bool)
  | error (status : UInt16) (message : String)
  | forwarded (status : UInt16) (headers : Headers)
  deriving DecidableEq, Repr

structure BackendConfig where
  url : String
  authHeader : String
  timeoutMs : UInt32
  deriving DecidableEq, Repr

/-- What the handler calls, and what the clocks and the libraries answer. -/
structure HandlerState where
  backend : BackendConfig
  route : CoreRequest → RoutingDecision
  broker : Option (McpRequest → TenantIdentity → CapabilityDecision)
  resolve : Headers → Option TenantIdentity
  draining : Bool
  validJson : List Byte → Bool
  parseMcp : List Byte → Except String McpRequest
  parseUri : String → Except String Uri
  fromStr : String → Option HeaderValue -- `HeaderValue::from_str`
  upstream : UpstreamRequest → UpstreamResult
  requestId : UInt64
  elapsed : Span → Nat
  upstreamElapsed : Nat

/-! ## Before routing -/

def defaultIdentity : TenantIdentity := ⟨⟨0⟩, "default"⟩

/-- The `/mcp` block: the attestation, or the response that ends the request. -/
def mcpAttestation (st : HandlerState) (req : Request) (body : List Byte) :
    List Effect × Except Response (Option AttestationHeaders) :=
  if req.method = .post ∧ req.path = "/mcp" then
    match st.broker with
    | none => ([], .ok none)
    | some authorize =>
      match st.parseMcp body with
      | .error e => ([], .error (.error 400 ("invalid MCP request body: " ++ e)))
      | .ok mcp =>
        let identity := (st.resolve req.headers).getD defaultIdentity
        let decision := authorize mcp identity
        ([.authorize mcp identity decision], match decision with
          | .allow attestation => .ok (some attestation)
          | .deny reason => .error (.error 403 reason.asHeaderValue))
  else ([], .ok none)

/-- All that can end a request before it is routed. -/
def beforeRouting (st : HandlerState) (req : Request) :
    List Effect × Except Response (List Byte × Option AttestationHeaders) :=
  if req.method = .get ∧ req.path = "/health" then ([], .error .health)
  else if req.method = .get ∧ req.path = "/ready" then ([], .error (.ready st.draining))
  else match req.body with
    | .error e => ([], .error (.error 400 ("body read error: " ++ e)))
    | .ok body =>
      if req.method = .post ∧ req.path = "/v1/chat/completions" ∧ body ≠ [] ∧ st.validJson body = false
      then ([], .error (.error 400 "request body is not valid JSON"))
      else
        let (log, r) := mcpAttestation st req body
        (log, r.map fun attestation => (body, attestation))

def buildCoreRequest (id : UInt64) (method : Method) (path : String) (body : List Byte) : CoreRequest where
  id := id
  method := method
  path := path
  body := if body = [] then none else some body

/-! ## The upstream request -/

def isHopByHop (name : String) : Bool :=
  name ∈ ["connection", "keep-alive", "proxy-authenticate", "proxy-authorization", "te", "trailers",
    "transfer-encoding", "upgrade"]

/-- `trim_end_matches('/')`. -/
def trimSlashes (s : String) : String := String.ofList (s.toList.rdropWhile (· = '/'))

def buildUpstreamUri (parseUri : String → Except String Uri) (url path : String) (query : Option String) :
    Except String Uri :=
  let combined := match query with
    | some q => trimSlashes url ++ path ++ "?" ++ q
    | none => trimSlashes url ++ path
  match parseUri combined with
  | .ok uri => .ok uri
  | .error e => .error ("invalid upstream URI `" ++ combined ++ "`: " ++ e)

def hexDigits (n : Nat) : String := String.ofList (Nat.toDigits 16 n)

def requestIdText (id : UInt64) : String := "req-" ++ hexDigits id.toNat

def backendIdText (b : BackendId) : String := "backend-" ++ toString b.id.toNat

def signatureHex (signature : List Byte) : String :=
  String.ofList (signature.flatMap fun b => [Nat.digitChar (b.toNat / 16), Nat.digitChar (b.toNat % 16)])

/-- The four headers go in together or not at all. -/
def attestationHeaders (fromStr : String → Option HeaderValue) (attest : AttestationHeaders) : Headers :=
  match fromStr (toString attest.caller.id.toNat), fromStr attest.subject,
      fromStr (signatureHex attest.signature) with
  | some caller, some tool, some sig =>
    [("riftgate-mcp-caller", caller), ("riftgate-mcp-tool", tool),
      ("riftgate-mcp-decision", bytesOf attest.decision), ("riftgate-mcp-signature", sig)]
  | _, _, _ => []

def upstreamHeaders (st : HandlerState) (req : Request) (b : BackendId) (attestation : Option AttestationHeaders) :
    Headers :=
  req.headers.filter (fun h => !(isHopByHop h.1 || h.1 = "host")) ++
  (if st.backend.authHeader = "" then []
    else ((st.fromStr st.backend.authHeader).map fun v => ("authorization", v)).toList) ++
  -- The source expects that `from_str` takes the two identifiers: they are plain ASCII.
  [("x-riftgate-request-id", bytesOf (requestIdText st.requestId)),
    ("x-riftgate-backend", bytesOf (backendIdText b))] ++
  (attestation.map (attestationHeaders st.fromStr)).getD []

/-! ## After the upstream -/

def isSuccess (status : UInt16) : Bool := decide (200 ≤ status) && decide (status < 300)

def buildOutcome (b : BackendId) (status : UInt16) (duration : Nat) : Outcome where
  backend := b
  status := some ⟨status⟩
  duration := duration
  ok := isSuccess status

def responseHeaders (st : HandlerState) (b : BackendId) (headers : Headers) : Headers :=
  headers.filter (fun h => !isHopByHop h.1) ++
    [("x-riftgate-request-id", bytesOf (requestIdText st.requestId)),
      ("x-riftgate-backend", bytesOf (backendIdText b))]

/-- The end of `handle`. Only a response reaches the report to the router. -/
def finish (st : HandlerState) (b : BackendId) : UpstreamResult → List Effect × Response
  | .failed e => ([], .error 502 ("upstream error: " ++ e))
  | .elapsed =>
    ([.span .requestCompleted (st.elapsed .requestCompleted)],
      .error 504 "upstream did not respond before deadline")
  | .response status headers =>
    ([.onResponse (.send b) (buildOutcome b status st.upstreamElapsed)],
      .forwarded status (responseHeaders st b headers))

/-- `StatusCode::from_u16`, with 500 for a code that is none. -/
def rejectStatus (s : StatusCode) : UInt16 := if 100 ≤ s.code ∧ s.code < 1000 then s.code else 500

def forward (st : HandlerState) (req : Request) (body : List Byte) (attestation : Option AttestationHeaders)
    (b : BackendId) : List Effect × Response :=
  match buildUpstreamUri st.parseUri st.backend.url req.path req.query with
  | .error message => ([.span .requestQueued (st.elapsed .requestQueued)], .error 500 message)
  | .ok uri =>
    let up : UpstreamRequest := ⟨req.method, uri, upstreamHeaders st req b attestation, body⟩
    let (log, response) := finish st b (st.upstream up)
    ([.span .requestQueued (st.elapsed .requestQueued),
      .span .requestDispatched (st.elapsed .requestDispatched), .dispatch up st.backend.timeoutMs] ++ log,
      response)

def handle (st : HandlerState) (req : Request) : List Effect × Response :=
  let (log, admitted) := beforeRouting st req
  let log := [.span .requestReceived 0] ++ log
  match admitted with
  | .error response => (log, response)
  | .ok (body, attestation) =>
    let core := buildCoreRequest st.requestId req.method req.path body
    let decision := st.route core
    let log := log ++ [.route core decision]
    match decision with
    | .reject s =>
      (log ++ [.span .requestRejected (st.elapsed .requestRejected)],
        .error (rejectStatus s) "router rejected the request")
    | .hedge _ => (log, .error 500 "hedged routing lands in v0.3 (see Options 010)")
    | .send b =>
      let (log', response) := forward st req body attestation b
      (log ++ log', response)

end Riftgate.Proxy
