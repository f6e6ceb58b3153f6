import Riftgate.UpstreamUri

/-!
# What the router learns of a request

`handle` reports to the router after a response, and on no other way out.
-/

open Lib

namespace Riftgate.Proxy

open Router Mcp

def Effect.report : Effect → Option (RoutingDecision × Outcome)
  | .onResponse decision outcome => some (decision, outcome)
  | _ => none

def reports (log : List Effect) : List (RoutingDecision × Outcome) := log.filterMap Effect.report

/-- One call of `on_response`, for this decision and backend, and as a failure when there is no
response. -/
def Reported (log : List Effect) (b : BackendId) (result : UpstreamResult) : Prop :=
  ∃ outcome, reports log = [(.send b, outcome)] ∧ outcome.backend = b ∧
    ((∀ status headers, result ≠ .response status headers) → outcome.ok = false)

/-! ## The log of each part -/

theorem beforeRouting_log (st : HandlerState) (req : Request) :
    ∀ e ∈ (beforeRouting st req).1, ∃ r i d, e = .authorize r i d := by
  have hmcp : ∀ body, ∀ e ∈ (mcpAttestation st req body).1, ∃ r i d, e = .authorize r i d := by
    intro body
    unfold mcpAttestation
    split
    · split
      · simp
      · split
        · simp
        · simp
    · simp
  unfold beforeRouting
  split
  · simp
  · split
    · simp
    · split
      · simp
      · split
        · simp
        · exact hmcp _

theorem reports_beforeRouting (st : HandlerState) (req : Request) : reports (beforeRouting st req).1 = [] := by
  unfold reports
  rw [List.filterMap_eq_nil_iff]
  intro e he
  obtain ⟨r, i, d, rfl⟩ := beforeRouting_log st req e he
  rfl

theorem reports_append (l l' : List Effect) : reports (l ++ l') = reports l ++ reports l' := by
  simp [reports]

theorem reports_finish (st : HandlerState) (b : BackendId) (result : UpstreamResult) :
    reports (finish st b result).1 = match result with
      | .response status _ => [(.send b, buildOutcome b status st.upstreamElapsed)]
      | _ => [] := by
  unfold finish
  split <;> rfl

theorem dispatch_finish {st : HandlerState} {b : BackendId} {result : UpstreamResult} {up : UpstreamRequest}
    {t : UInt32} : Effect.dispatch up t ∉ (finish st b result).1 := by
  unfold finish
  split <;> simp

theorem forward_dispatch {st : HandlerState} {req : Request} {body : List Byte}
    {attestation : Option AttestationHeaders} {b : BackendId} {up : UpstreamRequest} {t : UInt32}
    (h : Effect.dispatch up t ∈ (forward st req body attestation b).1) :
    reports (forward st req body attestation b).1 = reports (finish st b (st.upstream up)).1 := by
  unfold forward at h ⊢
  split at h
  · simp at h
  · simp only [List.cons_append, List.nil_append, List.mem_cons, dispatch_finish, or_false, reduceCtorEq,
      false_or, Effect.dispatch.injEq] at h
    obtain ⟨rfl, -⟩ := h
    simp only [List.cons_append, List.nil_append]
    rfl

theorem route_forward {st : HandlerState} {req : Request} {body : List Byte}
    {attestation : Option AttestationHeaders} {b : BackendId} {core : CoreRequest} {d : RoutingDecision} :
    Effect.route core d ∉ (forward st req body attestation b).1 := by
  have hfinish : ∀ result, Effect.route core d ∉ (finish st b result).1 := by
    intro result
    unfold finish
    split <;> simp
  unfold forward
  split
  · simp
  · simp [hfinish]

theorem handle_dispatched {st : HandlerState} {req : Request} {up : UpstreamRequest} {t : UInt32}
    (h : Effect.dispatch up t ∈ (handle st req).1) :
    ∃ log body attestation b, beforeRouting st req = (log, .ok (body, attestation)) ∧
      st.route (buildCoreRequest st.requestId req.method req.path body) = .send b ∧
      Effect.dispatch up t ∈ (forward st req body attestation b).1 ∧
      handle st req = ([.span .requestReceived 0] ++ log ++
        [.route (buildCoreRequest st.requestId req.method req.path body) (.send b)] ++
        (forward st req body attestation b).1, (forward st req body attestation b).2) := by
  have hno : Effect.dispatch up t ∉ (beforeRouting st req).1 := by
    intro hmem
    obtain ⟨r, i, d, he⟩ := beforeRouting_log st req _ hmem
    cases he
  unfold handle at h ⊢
  generalize beforeRouting st req = r at h hno ⊢
  obtain ⟨log, admitted⟩ := r
  cases admitted with
  | error response => simp [hno] at h
  | ok v =>
    obtain ⟨body, attestation⟩ := v
    simp only at h hno ⊢
    cases hd : st.route (buildCoreRequest st.requestId req.method req.path body) with
    | reject status => simp [hd, hno] at h
    | hedge bs => simp [hd, hno] at h
    | send b =>
      simp only [hd, List.mem_append, List.mem_singleton, reduceCtorEq, hno, false_or] at h
      exact ⟨log, body, attestation, b, rfl, hd, h, rfl⟩

theorem handle_dispatch {st : HandlerState} {req : Request} {core : CoreRequest} {b : BackendId}
    {up : UpstreamRequest} {t : UInt32} (hroute : Effect.route core (.send b) ∈ (handle st req).1)
    (hdisp : Effect.dispatch up t ∈ (handle st req).1) :
    reports (handle st req).1 = reports (finish st b (st.upstream up)).1 := by
  have hrep := reports_beforeRouting st req
  have hadmit := beforeRouting_log st req
  obtain ⟨log, body, attestation, b', hbefore, -, hforward, hhandle⟩ := handle_dispatched hdisp
  rw [hbefore] at hrep hadmit
  simp only at hrep
  have hno : Effect.route core (.send b) ∉ log := by
    intro hmem
    obtain ⟨r, i, d, he⟩ := hadmit _ hmem
    cases he
  rw [hhandle] at hroute ⊢
  simp only [List.mem_append, List.mem_singleton, reduceCtorEq, hno, route_forward, false_or, or_false,
    Effect.route.injEq, RoutingDecision.send.injEq] at hroute
  obtain ⟨-, rfl⟩ := hroute
  rw [reports_append, reports_append, reports_append, hrep, forward_dispatch hforward]
  rfl

/-- **Reports, exactly.** For a request that was routed by `Send(b)` and dispatched, the router
gets its one correct report if and only if the upstream has answered with a response. -/
theorem handle_reported_iff (st : HandlerState) (req : Request) (core : CoreRequest) (b : BackendId)
    (up : UpstreamRequest) (t : UInt32) (hroute : Effect.route core (.send b) ∈ (handle st req).1)
    (hdisp : Effect.dispatch up t ∈ (handle st req).1) :
    Reported (handle st req).1 b (st.upstream up) ↔ ∃ status headers, st.upstream up = .response status headers := by
  unfold Reported
  rw [handle_dispatch hroute hdisp, reports_finish]
  cases st.upstream up with
  | response status headers => simp [buildOutcome]
  | failed e => simp
  | elapsed => simp

/-- `HeaderValue::from_str`, as `http` has it: it takes every byte from the blank on but the delete, and the tab. -/
def headerFromStr (s : String) : Option HeaderValue :=
  if (bytesOf s).all fun b => (decide (32 ≤ b) && decide (b ≠ 127)) || b = 9 then some (bytesOf s) else none

def demoState (result : UpstreamResult) : HandlerState where
  backend := ⟨"http://backend", "", 1000⟩
  route _ := .send ⟨0⟩
  broker := none
  resolve _ := none
  draining := false
  validJson _ := true
  parseMcp _ := .error "no MCP"
  parseUri := readAbsolute
  fromStr := headerFromStr
  upstream _ := result
  requestId := 1
  elapsed _ := 0
  upstreamElapsed := 7

def demoRequest : Request := ⟨.get, "/v1/models", none, [], .ok []⟩

def demoUri (path : String) : Uri := ⟨some "http", some "backend", path, none⟩

theorem demo_uri : buildUpstreamUri readAbsolute "http://backend" "/v1/models" none = .ok (demoUri "/v1/models") := by
  decide

def demoCore : CoreRequest := ⟨1, .get, "/v1/models", none⟩

def demoUpstream (result : UpstreamResult) : UpstreamRequest :=
  ⟨.get, demoUri "/v1/models", upstreamHeaders (demoState result) demoRequest ⟨0⟩ none, []⟩

theorem demo_dispatched (result : UpstreamResult) :
    Effect.route demoCore (.send ⟨0⟩) ∈ (handle (demoState result) demoRequest).1 ∧
      Effect.dispatch (demoUpstream result) 1000 ∈ (handle (demoState result) demoRequest).1 := by
  simp [handle, beforeRouting, mcpAttestation, forward, buildCoreRequest, Except.map, demo_uri, demoState,
    demoRequest, demoCore, demoUpstream]

theorem handle_reported_iff_ok :
    let st := demoState (.response 200 [])
    Effect.route demoCore (.send ⟨0⟩) ∈ (handle st demoRequest).1 ∧
      Effect.dispatch (demoUpstream (.response 200 [])) 1000 ∈ (handle st demoRequest).1 ∧
      (Reported (handle st demoRequest).1 ⟨0⟩ (st.upstream (demoUpstream (.response 200 []))) ↔
        ∃ status headers, st.upstream (demoUpstream (.response 200 [])) = .response status headers) := by
  intro st
  obtain ⟨hroute, hdisp⟩ := demo_dispatched (.response 200 [])
  exact ⟨hroute, hdisp, handle_reported_iff st demoRequest demoCore ⟨0⟩ _ 1000 hroute hdisp⟩

/-- The upstream does not answer in time, and the router hears nothing of it. -/
theorem handle_timeout_unreported :
    let st := demoState .elapsed
    Effect.route demoCore (.send ⟨0⟩) ∈ (handle st demoRequest).1 ∧
      Effect.dispatch (demoUpstream .elapsed) 1000 ∈ (handle st demoRequest).1 ∧
      reports (handle st demoRequest).1 = [] ∧
      ¬ Reported (handle st demoRequest).1 ⟨0⟩ (st.upstream (demoUpstream .elapsed)) := by
  intro st
  obtain ⟨hroute, hdisp⟩ := demo_dispatched .elapsed
  have hrep : reports (handle st demoRequest).1 = [] := handle_dispatch hroute hdisp
  refine ⟨hroute, hdisp, hrep, ?_⟩
  rintro ⟨outcome, ho, -⟩
  rw [hrep] at ho
  cases ho

end Riftgate.Proxy
