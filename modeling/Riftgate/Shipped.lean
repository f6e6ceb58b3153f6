import Riftgate.Handler
import Riftgate.Stack

/-!
# The gateway as `main.rs` builds it

Its pool has one backend. So the routers of the stack have one choice left, and it is made by the breaker.
-/

open Lib

namespace Riftgate.Circuit

open Router

/-- A router that sends to `b` or rejects with 503, whatever it is asked, as long as `b` is the whole pool. -/
def Only {ρ : Type} [Router ρ] (b : BackendId) (I : ρ → Prop) : Prop :=
  ∀ r req signals, I r → (Router.route r req ⟨[b]⟩ signals).2 = .send b ∨
    (Router.route r req ⟨[b]⟩ signals).2 = .reject serviceUnavailable

theorem weighted_only (b : BackendId) :
    Only b fun r : WeightedRandomRouter => r.Built ∧ ∀ c ∈ r.backends, c ∈ [b] := by
  intro r req signals hr
  have hpool : (⟨[b]⟩ : BackendPool).backends ≠ [] := List.cons_ne_nil b []
  obtain ⟨-, hdec⟩ := (weighted_keeps hpool).route r req signals hr
  obtain ⟨-, drawn, -, heq⟩ := weighted_route r hr.1 hpool signals
  have hroute : (Router.route r req ⟨[b]⟩ signals).2 =
      sendOr503 (found ((drawn ++ [b]).foldlM (consider signals) none)) := heq
  cases hfound : found ((drawn ++ [b]).foldlM (consider signals) none) with
  | none =>
    rw [hfound] at hroute
    exact Or.inr hroute
  | some c =>
    rw [hfound] at hroute
    have hc := (hdec.target c (by rw [hroute]; exact List.mem_singleton_self c)).1
    rw [List.mem_singleton] at hc
    exact Or.inl (hroute.trans (congrArg RoutingDecision.send hc))

variable {ρ : Type} [Router ρ]

theorem kv_only {b : BackendId} {I : ρ → Prop} (h : Only b I) :
    Only b fun r : KvAwareRouter ρ => I r.inner ∧ ∀ c, r.trie.Names c → c ∈ [b] := by
  intro r req signals hr
  rcases kv_route r req ⟨[b]⟩ signals with ⟨c, hcached, heq⟩ | ⟨-, hd, -, -⟩
  · have hc := hr.2 c (cached_some hcached).1
    rw [List.mem_singleton] at hc
    left
    rw [show Router.route r req ⟨[b]⟩ signals = (r, .send c) from heq, hc]
  · rw [show (Router.route r req ⟨[b]⟩ signals).2 = _ from hd]
    exact h r.inner req signals hr.1

/-- There is no second backend to hedge to. -/
theorem hedged_only {F : Type} [Arith F] {b : BackendId} {I : ρ → Prop} (h : Only b I) :
    Only b fun r : HedgedRouter F ρ => I r.inner := by
  intro r req signals hr
  obtain ⟨-, hd⟩ := hedged_route r req ⟨[b]⟩ signals
  have hinner := h r.inner req signals hr
  rcases hd with hd | ⟨primary, secondary, hsend, hsec, -⟩
  · rw [show (Router.route r req ⟨[b]⟩ signals).2 = _ from hd]
    exact hinner
  · have hprimary : primary = b := by
      rw [hsend] at hinner
      rcases hinner with hb | hb
      · exact RoutingDecision.send.inj hb
      · cases hb
    subst hprimary
    exfalso
    have hne := List.find?_some hsec
    have hmem := List.mem_of_find?_eq_some hsec
    rw [List.mem_singleton] at hmem
    subst hmem
    simp at hne

theorem shippedStack_one {F : Type} [Arith F] (cfg : CircuitBreakerConfig) (hedged : HedgedConfig F)
    (kv : KvAwareConfig) (xxh3 : List Byte → UInt64) {b : BackendId} {weight : UInt32} {seed : UInt64}
    {weighted : WeightedRandomRouter} (hnew : WeightedRandomRouter.withSeed [(b, weight)] seed = some weighted)
    {events : List Event} (hover : ∀ e ∈ events, e.Over ⟨[b]⟩) (req : Request) (now : Nat) (signals : BackendSignals) :
    let s := events.foldl CircuitBreakerArbiter.handle (shippedStack cfg hedged kv xxh3 weighted)
    (s.route req [(b, now)] signals).2 = .send b ∧ ¬ Blocked cfg (visit cfg s.arbiter [(b, now)]) b ∨
      (s.route req [(b, now)] signals).2 = .reject serviceUnavailable ∧
        Blocked cfg (visit cfg s.arbiter [(b, now)]) b := by
  intro s
  obtain ⟨hbuilt, hbackends⟩ := built_withSeed hnew
  have hpool : (⟨[b]⟩ : BackendPool).backends ≠ [] := List.cons_ne_nil b []
  have hkeeps := @hedged_keeps _ _ F _ _ _ (kv_keeps (weighted_keeps hpool))
  have hempty : ∀ c, ¬ PrefixTrie.Names { cap := kv.maxTrieEntries } c := by
    rintro c ⟨path, hpath⟩
    rw [lookup_empty] at hpath
    cases hpath
  obtain ⟨hs, hcfg⟩ := keeps_run hkeeps (s := shippedStack cfg hedged kv xxh3 weighted)
    ⟨⟨hbuilt, fun c (hc : c ∈ weighted.backends) => by rw [hbackends] at hc; exact hc⟩, fun c hc => absurd hc (hempty c)⟩ events hover
  have hlooks : [(b, now)].map (·.1) = (⟨[b]⟩ : BackendPool).backends := rfl
  obtain ⟨-, htarget, hreject⟩ := breaker_respects hkeeps hs req hlooks signals
  have hscfg : s.cfg = cfg := hcfg
  rw [hscfg] at htarget hreject
  have honly : (s.route req [(b, now)] signals).2 = .send b ∨
      (s.route req [(b, now)] signals).2 = .reject serviceUnavailable :=
    hedged_only (kv_only (weighted_only b)) s.inner req _ hs
  rcases honly with hd | hd
  · refine Or.inl ⟨hd, htarget b ?_⟩
    rw [show (s.route req [(b, now)] signals).2 = .send b from hd]
    exact List.mem_singleton_self b
  · exact Or.inr ⟨hd, hreject.mp hd b (List.mem_singleton_self b)⟩

end Riftgate.Circuit

namespace Riftgate.Proxy

open Router Circuit

/-- What the router sees of a request. -/
def CoreRequest.toRouter (core : CoreRequest) : Router.Request := ⟨core.body.elim .empty .bytes⟩

def hedgedMessage : String := "hedged routing lands in v0.3 (see Options 010)"

/-! ## The answers of `handle` -/

theorem mcpAttestation_error {st : HandlerState} {req : Request} {body : List Byte} {response : Response}
    (h : (mcpAttestation st req body).2 = .error response) (message : String) : response ≠ .error 500 message := by
  unfold mcpAttestation at h
  split at h
  · split at h
    · cases h
    · split at h
      · cases h
        simp
      · dsimp only at h
        split at h
        · cases h
        · cases h
          simp
  · cases h

theorem beforeRouting_error {st : HandlerState} {req : Request} {response : Response}
    (h : (beforeRouting st req).2 = .error response) (message : String) : response ≠ .error 500 message := by
  unfold beforeRouting at h
  split at h
  · cases h
    nofun
  · split at h
    · cases h
      nofun
    · split at h
      · cases h
        simp
      · split at h
        · cases h
          simp
        · rename_i body _ _
          have herror : ∀ r, (mcpAttestation st req body).2 = .error r → r ≠ .error 500 message :=
            fun r hr => mcpAttestation_error hr message
          generalize mcpAttestation st req body = attested at h herror
          obtain ⟨log, r⟩ := attested
          cases r with
          | ok attestation => cases h
          | error r =>
            cases h
            exact herror response rfl

theorem buildUpstreamUri_error {parseUri : String → Except String Uri} {url path message : String}
    {query : Option String} (h : buildUpstreamUri parseUri url path query = .error message) :
    ∃ rest, message = "invalid upstream URI `" ++ rest := by
  simp only [buildUpstreamUri] at h
  split at h
  · cases h
  · cases h
    simp only [String.append_assoc]
    exact ⟨_, rfl⟩

theorem forward_response (st : HandlerState) (req : Request) (body : List Byte)
    (attestation : Option Mcp.AttestationHeaders) (b : BackendId) :
    (forward st req body attestation b).2 ≠ .error 500 hedgedMessage := by
  unfold forward
  split
  · rename_i message huri
    obtain ⟨rest, rfl⟩ := buildUpstreamUri_error huri
    intro h
    have hhead := congrArg (fun s : String => s.toList.head?) (Response.error.inj h).2
    simp [hedgedMessage] at hhead
  · dsimp only
    unfold finish
    split
    · simp
    · simp
    · simp

/-- **The shipped gateway.** It has one backend, and any calls lie behind it, each of them whole before the next. A
request that reaches the router goes to that backend, or, while its breaker does not let it through, is answered with 503 and not dispatched. No answer is the
one for a hedged decision. -/
theorem shipped_answers {F : Type} [Arith F] (cfg : CircuitBreakerConfig) (hedged : HedgedConfig F)
    (kv : KvAwareConfig) (xxh3 : List Byte → UInt64) (seed : UInt64) (weighted : WeightedRandomRouter)
    (hnew : WeightedRandomRouter.withSeed [(⟨0⟩, 1)] seed = some weighted) (events : List Event)
    (hover : ∀ e ∈ events, e.Over ⟨[⟨0⟩]⟩) (now : Nat) (signals : BackendSignals) (st : HandlerState)
    (hroute : ∀ core, st.route core =
      ((events.foldl CircuitBreakerArbiter.handle (shippedStack cfg hedged kv xxh3 weighted)).route core.toRouter
        [(⟨0⟩, now)] signals).2) (req : Request) :
    let s := events.foldl CircuitBreakerArbiter.handle (shippedStack cfg hedged kv xxh3 weighted)
    let blocked := Blocked cfg (visit cfg s.arbiter [(⟨0⟩, now)]) ⟨0⟩
    (∀ core d, Effect.route core d ∈ (handle st req).1 →
      (¬ blocked → d = .send ⟨0⟩) ∧
        (blocked → (handle st req).2 = .error 503 "router rejected the request" ∧
          ∀ up t, Effect.dispatch up t ∉ (handle st req).1)) ∧
      (handle st req).2 ≠ .error 500 "hedged routing lands in v0.3 (see Options 010)" := by
  intro s blocked
  have hno := beforeRouting_log st req
  have herror : ∀ r, (beforeRouting st req).2 = .error r → r ≠ .error 500 hedgedMessage :=
    fun r hr => beforeRouting_error hr hedgedMessage
  show (∀ core d, _ → _) ∧ (handle st req).2 ≠ .error 500 hedgedMessage
  unfold handle
  generalize beforeRouting st req = before at hno herror
  obtain ⟨log, admitted⟩ := before
  have hlog : ∀ core d, Effect.route core d ∉ log := by
    intro core d hmem
    obtain ⟨r, i, d', he⟩ := hno _ hmem
    cases he
  have hdispatch : ∀ up t, Effect.dispatch up t ∉ log := by
    intro up t hmem
    obtain ⟨r, i, d', he⟩ := hno _ hmem
    cases he
  cases admitted with
  | error response =>
    refine ⟨fun core d hmem => ?_, herror response rfl⟩
    simp [hlog] at hmem
  | ok v =>
    obtain ⟨body, attestation⟩ := v
    have hone := shippedStack_one cfg hedged kv xxh3 hnew hover
      (buildCoreRequest st.requestId req.method req.path body).toRouter now signals
    simp only [← hroute] at hone
    rcases hone with ⟨hd, hopen⟩ | ⟨hd, hblocked⟩
    · simp only [hd]
      refine ⟨fun core d hmem => ⟨fun _ => ?_, fun hblocked => absurd hblocked hopen⟩,
        forward_response st req body attestation ⟨0⟩⟩
      simp only [List.mem_append, List.mem_singleton, reduceCtorEq, false_or, hlog, route_forward, or_false,
        Effect.route.injEq] at hmem
      exact hmem.2
    · simp only [hd]
      refine ⟨fun core d _ => ⟨fun hopen => absurd hblocked hopen, fun _ => ⟨rfl, fun up t hmem => ?_⟩⟩, ?_⟩
      · simp [hdispatch] at hmem
      · simp [rejectStatus, serviceUnavailable]

/-! ## Two gateways -/

def oneFailure : CircuitBreakerConfig := ⟨1, 10, 1⟩

/-- The gateway after these calls. -/
def gatewayAfter (weighted : WeightedRandomRouter) (events : List Event) : HandlerState :=
  { demoState (.response 200 []) with
    route := fun core =>
      ((events.foldl CircuitBreakerArbiter.handle
        (shippedStack oneFailure ({} : HedgedConfig Float) {} (fun _ => 0) weighted)).route core.toRouter
          [(⟨0⟩, 5)] ⟨[]⟩).2 }

/-- A request was sent, and it has failed. -/
def sentAndFailed : List Event :=
  [.route ⟨.empty⟩ [(⟨0⟩, 1)] ⟨[]⟩, .onResponse (.send ⟨0⟩) ⟨⟨0⟩, some ⟨500⟩, 0, false⟩ 2]

theorem gatewayAfter_routed (weighted : WeightedRandomRouter) (events : List Event) :
    ∃ d, Effect.route demoCore d ∈ (handle (gatewayAfter weighted events) demoRequest).1 := by
  have hbefore : beforeRouting (gatewayAfter weighted events) demoRequest = ([], .ok ([], none)) := rfl
  refine ⟨(gatewayAfter weighted events).route demoCore, ?_⟩
  unfold handle
  rw [hbefore]
  have hcore : buildCoreRequest (gatewayAfter weighted events).requestId demoRequest.method demoRequest.path [] =
      demoCore := rfl
  simp only [hcore]
  cases (gatewayAfter weighted events).route demoCore <;> simp

/-- The first request is sent. After its failure the next one is refused. -/
theorem gatewayAfter_answers :
    ∃ weighted, WeightedRandomRouter.withSeed [(⟨0⟩, 1)] 1 = some weighted ∧
      Effect.route demoCore (.send ⟨0⟩) ∈ (handle (gatewayAfter weighted []) demoRequest).1 ∧
      (handle (gatewayAfter weighted sentAndFailed) demoRequest).2 = .error 503 "router rejected the request" ∧
      ∀ up t, Effect.dispatch up t ∉ (handle (gatewayAfter weighted sentAndFailed) demoRequest).1 := by
  obtain ⟨weighted, hnew⟩ := Option.isSome_iff_exists.mp
    (show (WeightedRandomRouter.withSeed [(⟨0⟩, 1)] 1).isSome = true by decide)
  have hover : ∀ e ∈ sentAndFailed, e.Over ⟨[⟨0⟩]⟩ := by
    simp [sentAndFailed, Event.Over]
  have hanswers := fun events hover => shipped_answers oneFailure ({} : HedgedConfig Float) {} (fun _ => 0) 1 weighted
    hnew events hover 5 ⟨[]⟩ (gatewayAfter weighted events) (fun _ => rfl) demoRequest
  obtain ⟨d, hsent⟩ := gatewayAfter_routed weighted []
  obtain ⟨d', hrefused⟩ := gatewayAfter_routed weighted sentAndFailed
  have hopen : Blocked oneFailure (visit oneFailure (sentAndFailed.foldl CircuitBreakerArbiter.handle
      (shippedStack oneFailure ({} : HedgedConfig Float) {} (fun _ => 0) weighted)).arbiter [(⟨0⟩, 5)]) ⟨0⟩ := by
    left
    cases hnew
    decide
  have hclosed : ¬ Blocked oneFailure (visit oneFailure
      (shippedStack oneFailure ({} : HedgedConfig Float) {} (fun _ => 0) weighted).arbiter [(⟨0⟩, 5)]) ⟨0⟩ := by
    have hstate : (visit oneFailure
        (shippedStack oneFailure ({} : HedgedConfig Float) {} (fun _ => 0) weighted).arbiter [(⟨0⟩, 5)]).stateOf ⟨0⟩ =
        .closed := by
      cases hnew
      decide
    unfold Blocked
    rw [hstate]
    simp
  have hsend : d = .send ⟨0⟩ := ((hanswers [] (by simp)).1 demoCore d hsent).1 hclosed
  exact ⟨weighted, hnew, hsend ▸ hsent, ((hanswers sentAndFailed hover).1 demoCore d' hrefused).2 hopen⟩

end Riftgate.Proxy
