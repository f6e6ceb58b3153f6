import Riftgate.Handler
import Riftgate.Code.ObservedBody

/-!
# The last span of a request

`handle` publishes `request.rejected` when the router rejects, and `request.completed` when the upstream is too late.
The body of a response publishes `request.completed` when it is dropped. The other ways out publish neither.
-/

open Lib

namespace Riftgate.Proxy

open Router Mcp

def IsTerminal (e : SpanEnd) : Prop := e.name = .requestCompleted ∨ e.name = .requestRejected

instance (e : SpanEnd) : Decidable (IsTerminal e) := inferInstanceAs (Decidable (_ ∨ _))

/-- The terminal spans of a request. -/
def terminals (id : UInt64) (events : List SpanEnd) : List SpanEnd :=
  events.filter fun e => e.requestId = id ∧ IsTerminal e

/-- The request is received, and then it has exactly one terminal span. -/
def OneTerminal (id : UInt64) (events : List SpanEnd) : Prop :=
  ∃ duration rest, events = ⟨id, .requestReceived, duration⟩ :: rest ∧ ∃ e, terminals id rest = [e]

theorem terminals_append (id : UInt64) (l l' : List SpanEnd) :
    terminals id (l ++ l') = terminals id l ++ terminals id l' := List.filter_append ..

/-! ## The body -/

namespace ObservedBody

theorem pollFrame_keeps (b : ObservedBody) (result : FramePoll) (elapsed : Nat) :
    (b.pollFrame result elapsed).1.completed = b.completed ∧
      (b.pollFrame result elapsed).1.requestId = b.requestId ∧
      ∀ id, terminals id (b.pollFrame result elapsed).2 = [] := by
  unfold pollFrame
  split
  · split
    · exact ⟨rfl, rfl, fun id => by simp [terminals, IsTerminal]⟩
    · exact ⟨rfl, rfl, fun _ => rfl⟩
  · exact ⟨rfl, rfl, fun _ => rfl⟩

theorem pollAll_keeps (b : ObservedBody) (polls : List (FramePoll × Nat)) :
    (b.pollAll polls).1.completed = b.completed ∧ (b.pollAll polls).1.requestId = b.requestId ∧
      ∀ id, terminals id (b.pollAll polls).2 = [] := by
  induction polls generalizing b with
  | nil => exact ⟨rfl, rfl, fun _ => rfl⟩
  | cons p polls ih =>
    obtain ⟨result, elapsed⟩ := p
    obtain ⟨hcompleted, hid, hnone⟩ := b.pollFrame_keeps result elapsed
    obtain ⟨hcompleted', hid', hnone'⟩ := ih (b.pollFrame result elapsed).1
    refine ⟨hcompleted'.trans hcompleted, hid'.trans hid, fun id => ?_⟩
    rw [pollAll]
    simp only [terminals_append, hnone, hnone', List.append_nil]

/-- However it is polled, a body publishes one terminal span, and that when it is dropped. -/
theorem terminals_live (id : UInt64) (life : Life) :
    terminals id (live { requestId := id } life) = [⟨id, .requestCompleted, life.droppedAt⟩] := by
  obtain ⟨hcompleted, hid, hnone⟩ := pollAll_keeps { requestId := id } life.polls
  unfold live
  simp only [terminals_append, hnone, List.nil_append, drop, hcompleted, if_true, hid]
  simp [terminals, IsTerminal]

end ObservedBody

/-! ## Who gets a terminal span -/

/-- `GET /health` and `GET /ready`. -/
def IsProbe (req : Request) : Prop := req.method = .get ∧ (req.path = "/health" ∨ req.path = "/ready")

/-- The request has a body, valid JSON where that is asked for, and the leave of the broker where it needs one. -/
structure Admitted (st : HandlerState) (req : Request) (body : List Byte) (attestation : Option AttestationHeaders) :
    Prop where
  read : req.body = .ok body
  json : req.method = .post → req.path = "/v1/chat/completions" → body ≠ [] → st.validJson body = true
  allowed : ∀ authorize, req.method = .post → req.path = "/mcp" → st.broker = some authorize →
    ∃ mcp headers, st.parseMcp body = .ok mcp ∧
      authorize mcp ((st.resolve req.headers).getD defaultIdentity) = .allow headers ∧ attestation = some headers
  plain : (req.method = .post → req.path = "/mcp" → st.broker = none) → attestation = none

/-- The request is admitted. Then the router rejects it, or it goes to a backend whose URI can be built, and that
backend answers or is too late. -/
def EndsInSpan (st : HandlerState) (req : Request) : Prop :=
  ∃ body attestation, Admitted st req body attestation ∧
    ((∃ status, st.route (buildCoreRequest st.requestId req.method req.path body) = .reject status) ∨
      ∃ b uri, st.route (buildCoreRequest st.requestId req.method req.path body) = .send b ∧
        buildUpstreamUri st.parseUri st.backend.url req.path req.query = .ok uri ∧
        ∀ e, st.upstream ⟨req.method, uri, upstreamHeaders st req b attestation, body⟩ ≠ .failed e)

section Handle

variable {st : HandlerState} {req : Request} {body : List Byte} {attestation : Option AttestationHeaders}

theorem mcpAttestation_iff :
    (mcpAttestation st req body).2 = .ok attestation ↔
      (∀ authorize, req.method = .post → req.path = "/mcp" → st.broker = some authorize →
        ∃ mcp headers, st.parseMcp body = .ok mcp ∧
          authorize mcp ((st.resolve req.headers).getD defaultIdentity) = .allow headers ∧
          attestation = some headers) ∧
      ((req.method = .post → req.path = "/mcp" → st.broker = none) → attestation = none) := by
  unfold mcpAttestation
  by_cases hmcp : req.method = .post ∧ req.path = "/mcp"
  · rw [if_pos hmcp]
    cases hbroker : st.broker with
    | none => simp [eq_comm]
    | some authorize =>
      cases hparse : st.parseMcp body with
      | error e => simp [hmcp]
      | ok mcp =>
        simp only
        cases hdecision : authorize mcp ((st.resolve req.headers).getD defaultIdentity) with
        | allow headers => simp [hmcp, hdecision, eq_comm]
        | deny reason => simp [hmcp, hdecision]
  · rw [if_neg hmcp]
    rw [not_and] at hmcp
    constructor
    · intro h
      cases h
      exact ⟨fun _ hpost hpath => absurd hpath (hmcp hpost), fun _ => rfl⟩
    · intro h
      rw [h.2 fun hpost hpath => absurd hpath (hmcp hpost)]

theorem ok_of_map {α β ε : Type} {f : α → β} {x : Except ε α} {b : β} (h : x.map f = .ok b) :
    ∃ a, x = .ok a ∧ f a = b := by
  cases x with
  | error e => cases h
  | ok a => exact ⟨a, rfl, Except.ok.inj h⟩

theorem beforeRouting_iff (hprobe : ¬ IsProbe req) :
    (beforeRouting st req).2 = .ok (body, attestation) ↔ Admitted st req body attestation := by
  have hhealth : ¬ (req.method = .get ∧ req.path = "/health") := fun h => hprobe ⟨h.1, Or.inl h.2⟩
  have hready : ¬ (req.method = .get ∧ req.path = "/ready") := fun h => hprobe ⟨h.1, Or.inr h.2⟩
  rw [beforeRouting, if_neg hhealth, if_neg hready]
  cases hbody : req.body with
  | error e =>
    refine iff_of_false (fun h => by cases h) fun h => ?_
    have hread := h.read
    rw [hbody] at hread
    cases hread
  | ok bytes =>
    simp only
    by_cases hjson : req.method = .post ∧ req.path = "/v1/chat/completions" ∧ bytes ≠ [] ∧ st.validJson bytes = false
    · rw [if_pos hjson]
      refine iff_of_false (fun h => by cases h) fun h => ?_
      obtain ⟨hpost, hpath, hne, hinvalid⟩ := hjson
      have hread := h.read
      rw [hbody, Except.ok.injEq] at hread
      subst hread
      rw [h.json hpost hpath hne] at hinvalid
      cases hinvalid
    · rw [if_neg hjson]
      have hvalid : req.method = .post → req.path = "/v1/chat/completions" → bytes ≠ [] →
          st.validJson bytes = true := by
        intro hpost hpath hne
        by_contra hinvalid
        exact hjson ⟨hpost, hpath, hne, Bool.eq_false_iff.mpr hinvalid⟩
      constructor
      · intro h
        obtain ⟨a, hmcp, heq⟩ := ok_of_map h
        cases heq
        obtain ⟨hallowed, hplain⟩ := mcpAttestation_iff.mp hmcp
        exact ⟨hbody, hvalid, hallowed, hplain⟩
      · intro h
        have hread := h.read
        rw [hbody, Except.ok.injEq] at hread
        subst hread
        rw [mcpAttestation_iff.mpr ⟨h.allowed, h.plain⟩]
        rfl

/-! ## What is published on the way -/

/-- The terminal spans that the effects of `handle` publish. -/
def terminalsOf (id : UInt64) (log : List Effect) : List SpanEnd := terminals id (log.filterMap (Effect.published id))

@[simp] theorem terminalsOf_nil (id : UInt64) : terminalsOf id [] = [] := rfl

@[simp] theorem terminalsOf_dispatch (id : UInt64) (up : UpstreamRequest) (t : UInt32) (log : List Effect) :
    terminalsOf id (.dispatch up t :: log) = terminalsOf id log := rfl

@[simp] theorem terminalsOf_onResponse (id : UInt64) (d : RoutingDecision) (o : Outcome) (log : List Effect) :
    terminalsOf id (.onResponse d o :: log) = terminalsOf id log := rfl

@[simp] theorem terminalsOf_span (id : UInt64) (name : Span) (d : Nat) (log : List Effect) :
    terminalsOf id (.span name d :: log) =
      if name = .requestCompleted ∨ name = .requestRejected then ⟨id, name.spanName, d⟩ :: terminalsOf id log
      else terminalsOf id log := by
  cases name <;> simp [terminalsOf, terminals, IsTerminal, Effect.published, publishSpan, Span.spanName]

theorem published_beforeRouting {log : List Effect} {admitted : Except Response (List Byte × Option AttestationHeaders)}
    (h : beforeRouting st req = (log, admitted)) (id : UInt64) : log.filterMap (Effect.published id) = [] := by
  rw [List.filterMap_eq_nil_iff]
  intro e he
  obtain ⟨r, i, d, rfl⟩ := beforeRouting_log st req e (by rwa [h])
  rfl

theorem mcpAttestation_response {response : Response} (h : (mcpAttestation st req body).2 = .error response) :
    ∃ status message, response = .error status message := by
  unfold mcpAttestation at h
  split at h
  · split at h
    · cases h
    · split at h
      · cases h
        exact ⟨_, _, rfl⟩
      · simp only at h
        split at h
        · cases h
        · cases h
          exact ⟨_, _, rfl⟩
  · cases h

theorem bodySpans_beforeRouting {response : Response} (h : (beforeRouting st req).2 = .error response) (id : UInt64)
    (life : ObservedBody.Life) : bodySpans id response life = [] := by
  unfold beforeRouting at h
  split at h
  · cases h
    rfl
  · split at h
    · cases h
      rfl
    · split at h
      · cases h
        rfl
      · split at h
        · cases h
          rfl
        · rename_i bytes _ _
          simp only at h
          cases hmcp : (mcpAttestation st req bytes).2 with
          | error r =>
            rw [hmcp] at h
            cases h
            obtain ⟨status, message, rfl⟩ := mcpAttestation_response hmcp
            rfl
          | ok attestation =>
            rw [hmcp] at h
            cases h

theorem terminals_forward_iff (b : BackendId) (life : ObservedBody.Life) :
    (∃ e, terminalsOf st.requestId (forward st req body attestation b).1 ++
        terminals st.requestId (bodySpans st.requestId (forward st req body attestation b).2 life) = [e]) ↔
      ∃ uri, buildUpstreamUri st.parseUri st.backend.url req.path req.query = .ok uri ∧
        ∀ e, st.upstream ⟨req.method, uri, upstreamHeaders st req b attestation, body⟩ ≠ .failed e := by
  unfold forward
  cases huri : buildUpstreamUri st.parseUri st.backend.url req.path req.query with
  | error message => simp [bodySpans, terminals]
  | ok uri =>
    simp only
    cases hup : st.upstream ⟨req.method, uri, upstreamHeaders st req b attestation, body⟩ with
    | failed e => simp [hup, finish, bodySpans, terminals]
    | elapsed => simp [hup, finish, bodySpans, terminals]
    | response status headers => simp [hup, finish, bodySpans, ObservedBody.terminals_live]

theorem requestSpans_of_ok {log : List Effect} (life : ObservedBody.Life)
    (h : beforeRouting st req = (log, .ok (body, attestation))) :
    ∃ rest, requestSpans st req life = ⟨st.requestId, .requestReceived, 0⟩ :: rest ∧
      terminals st.requestId rest =
        match st.route (buildCoreRequest st.requestId req.method req.path body) with
        | .reject _ => [⟨st.requestId, .requestRejected, st.elapsed .requestRejected⟩]
        | .hedge _ => []
        | .send b =>
          terminalsOf st.requestId (forward st req body attestation b).1 ++
            terminals st.requestId (bodySpans st.requestId (forward st req body attestation b).2 life) := by
  have hlog : log.filterMap (Effect.published st.requestId) = [] := published_beforeRouting h _
  unfold requestSpans handle
  simp only [h]
  cases hd : st.route (buildCoreRequest st.requestId req.method req.path body) with
  | reject status =>
    refine ⟨[⟨st.requestId, .requestRejected, st.elapsed .requestRejected⟩], ?_, ?_⟩
    · simp only [List.filterMap_append, hlog]
      rfl
    · simp [terminals, IsTerminal]
  | hedge backends =>
    refine ⟨[], ?_, rfl⟩
    simp only [List.filterMap_append, hlog]
    rfl
  | send b =>
    refine ⟨(forward st req body attestation b).1.filterMap (Effect.published st.requestId) ++
      bodySpans st.requestId (forward st req body attestation b).2 life, ?_, terminals_append ..⟩
    simp only [List.filterMap_append, hlog]
    rfl

theorem requestSpans_of_error {log : List Effect} {response : Response} (life : ObservedBody.Life)
    (h : beforeRouting st req = (log, .error response)) :
    requestSpans st req life = [⟨st.requestId, .requestReceived, 0⟩] := by
  have hlog : log.filterMap (Effect.published st.requestId) = [] := published_beforeRouting h _
  have hbody : bodySpans st.requestId response life = [] := bodySpans_beforeRouting (congrArg Prod.snd h) _ _
  unfold requestSpans handle
  simp only [h, List.filterMap_append, hlog, hbody]
  rfl

end Handle

theorem oneTerminal_cons {id : UInt64} {d : Nat} {rest : List SpanEnd} :
    OneTerminal id (⟨id, .requestReceived, d⟩ :: rest) ↔ ∃ e, terminals id rest = [e] := by
  constructor
  · rintro ⟨d', rest', heq, hone⟩
    rw [List.cons.injEq] at heq
    rw [heq.2]
    exact hone
  · exact fun hone => ⟨d, rest, rfl, hone⟩

/-- **One terminal span, exactly.** A request other than the two probes has one terminal span after it is received if
and only if it is rejected by the router, or its backend answers or is too late. -/
theorem oneTerminal_iff_endsInSpan (st : HandlerState) {req : Request} (life : ObservedBody.Life)
    (hprobe : ¬ IsProbe req) : OneTerminal st.requestId (requestSpans st req life) ↔ EndsInSpan st req := by
  cases hbefore : beforeRouting st req with
  | mk log admitted =>
    have hadmitted : ∀ body attestation, Admitted st req body attestation ↔ admitted = .ok (body, attestation) := by
      intro body attestation
      rw [← beforeRouting_iff hprobe, hbefore]
    cases admitted with
    | error response =>
      rw [requestSpans_of_error life hbefore, oneTerminal_cons]
      refine iff_of_false (fun h => ?_) fun h => ?_
      · obtain ⟨e, he⟩ := h
        cases he
      · obtain ⟨body, attestation, hadmit, -⟩ := h
        cases (hadmitted body attestation).mp hadmit
    | ok v =>
      obtain ⟨body, attestation⟩ := v
      obtain ⟨rest, hspans, hrest⟩ := requestSpans_of_ok life hbefore
      -- the body and the attestation are those that came out
      have hends : EndsInSpan st req ↔
          (∃ status, st.route (buildCoreRequest st.requestId req.method req.path body) = .reject status) ∨
            ∃ b uri, st.route (buildCoreRequest st.requestId req.method req.path body) = .send b ∧
              buildUpstreamUri st.parseUri st.backend.url req.path req.query = .ok uri ∧
              ∀ e, st.upstream ⟨req.method, uri, upstreamHeaders st req b attestation, body⟩ ≠ .failed e := by
        constructor
        · rintro ⟨body', attestation', hadmit, h⟩
          cases (hadmitted body' attestation').mp hadmit
          exact h
        · exact fun h => ⟨body, attestation, (hadmitted body attestation).mpr rfl, h⟩
      rw [hspans, oneTerminal_cons, hrest, hends]
      cases hd : st.route (buildCoreRequest st.requestId req.method req.path body) with
      | reject status => simp
      | hedge backends => simp
      | send b =>
        simp only
        rw [terminals_forward_iff]
        simp

/-! ## Two requests -/

theorem not_isProbe_demo : ¬ IsProbe demoRequest := by
  simp [IsProbe, demoRequest]

/-- The response breaks off after its first frame. -/
theorem broken_response_completes :
    let st := demoState (.response 200 [])
    OneTerminal st.requestId (requestSpans st demoRequest
      { polls := [(.frame (.data [104]), 3), (.error "connection reset", 5)], droppedAt := 5 }) := by
  intro st
  have hadmit : Admitted st demoRequest [] none := by
    refine ⟨rfl, ?_, ?_, fun _ => rfl⟩
    · exact nofun
    · exact nofun
  have huri : buildUpstreamUri st.parseUri st.backend.url demoRequest.path demoRequest.query =
      .ok (demoUri "/v1/models") := demo_uri
  have hends : EndsInSpan st demoRequest := ⟨[], none, hadmit, Or.inr ⟨⟨0⟩, _, rfl, huri, fun _ => nofun⟩⟩
  exact (oneTerminal_iff_endsInSpan st _ not_isProbe_demo).mpr hends

/-- The upstream cannot be reached. -/
theorem failed_request_never_ends :
    let st := demoState (.failed "connection refused")
    ¬ IsProbe demoRequest ∧
      requestSpans st demoRequest {} =
        [⟨1, .requestReceived, 0⟩, ⟨1, .requestQueued, 0⟩, ⟨1, .requestDispatched, 0⟩] ∧
      ¬ OneTerminal st.requestId (requestSpans st demoRequest {}) := by
  intro st
  have hspans : requestSpans st demoRequest {} =
      [⟨1, .requestReceived, 0⟩, ⟨1, .requestQueued, 0⟩, ⟨1, .requestDispatched, 0⟩] := by
    simp [st, requestSpans, handle, beforeRouting, mcpAttestation, forward, buildCoreRequest, finish, Except.map,
      demo_uri, demoState, demoRequest, Effect.published, publishSpan, Span.spanName, bodySpans]
    rfl
  refine ⟨not_isProbe_demo, hspans, ?_⟩
  rw [hspans]
  intro h
  obtain ⟨e, he⟩ := oneTerminal_cons.mp h
  cases he

end Riftgate.Proxy
