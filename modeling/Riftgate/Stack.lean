import Riftgate.Automaton
import Riftgate.Breaker
import Riftgate.Lib.Machine
import Riftgate.Routing

/-!
# The breaker over other routers

The breaker only changes the signals that the inner router is shown. So it is as good as what the
inner router does with them. Each of the shipped routers that reads the signals keeps one contract,
and round robin does not read them.
-/

open Lib

namespace Riftgate.Circuit

open Router

/-! ## The contract of an inner router -/

/-- Only targets of the pool that are not open, and 503 when there is none. -/
structure Decides (pool : BackendPool) (signals : BackendSignals) (d : RoutingDecision) : Prop where
  target : ∀ b ∈ targets d, b ∈ pool.backends ∧ ¬ isOpen signals b
  reject : d = .reject serviceUnavailable ↔ ∀ b ∈ pool.backends, isOpen signals b

/-- A router that decides like this over one pool, in each state that meets `I`. -/
structure Keeps {ρ : Type} [Router ρ] (pool : BackendPool) (I : ρ → Prop) : Prop where
  route : ∀ r req signals, I r → I (Router.route r req pool signals).1 ∧
    Decides pool signals (Router.route r req pool signals).2
  onResponse : ∀ r d o, I r → I (Router.onResponse r d o)

theorem decides_send {pool : BackendPool} {signals : BackendSignals} {b : BackendId} (hb : b ∈ pool.backends)
    (hopen : ¬ isOpen signals b) : Decides pool signals (.send b) := by
  refine ⟨by simpa [targets] using ⟨hb, hopen⟩, ?_⟩
  simp only [reduceCtorEq, false_iff]
  exact fun hall => hopen (hall b hb)

theorem not_open_of_closed {signals : BackendSignals} {b : BackendId} (h : (signals.get b).circuitState = .closed) :
    ¬ isOpen signals b := by
  rw [isOpen, h]
  decide

/-! ## The shipped routers -/

theorem weighted_keeps {pool : BackendPool} (hpool : pool.backends ≠ []) :
    Keeps pool fun r : WeightedRandomRouter => r.Built ∧ ∀ b ∈ r.backends, b ∈ pool.backends := by
  refine ⟨fun r req signals hr => ?_, fun r d o hr => hr⟩
  obtain ⟨hsame, drawn, hdrawn, heq⟩ := weighted_route r hr.1 hpool signals
  have hmem : ∀ b ∈ drawn ++ pool.backends, b ∈ pool.backends := by
    intro b hb
    rcases List.mem_append.mp hb with hb | hb
    · exact hr.2 b (hdrawn b hb)
    · exact hb
  have hkept : (r.route pool signals).1.Built ∧ ∀ b ∈ (r.route pool signals).1.backends, b ∈ pool.backends := by
    refine ⟨hsame.built hr.1, ?_⟩
    rw [hsame.2]
    exact hr.2
  refine ⟨hkept, ?_⟩
  show Decides pool signals (r.route pool signals).2
  rw [heq]
  cases hfound : found ((drawn ++ pool.backends).foldlM (consider signals) none) with
  | none =>
    refine ⟨by simp [sendOr503, targets], ?_⟩
    simp only [sendOr503, true_iff]
    intro b hb
    exact (found_none.mp hfound).2 b (List.mem_append_right _ hb)
  | some b =>
    obtain ⟨hb, hopen⟩ := (found_some hfound).resolve_left (by simp)
    exact decides_send (hmem b hb) hopen

variable {ρ : Type} [Router ρ]

theorem kv_keeps {pool : BackendPool} {I : ρ → Prop} (h : Keeps pool I) :
    Keeps pool fun r : KvAwareRouter ρ => I r.inner ∧ ∀ b, r.trie.Names b → b ∈ pool.backends := by
  refine ⟨fun r req signals hr => ?_, fun r d o hr => ⟨h.onResponse _ d o hr.1, hr.2⟩⟩
  obtain ⟨hinner, hdec⟩ := h.route r.inner req signals hr.1
  rcases kv_route r req pool signals with ⟨b, hcached, heq⟩ | ⟨-, hd, hin, hlearn⟩
  · show _ ∧ Decides pool signals (r.route req pool signals).2
    rw [show Router.route r req pool signals = (r, .send b) from heq, heq]
    obtain ⟨hnames, hclosed⟩ := cached_some hcached
    exact ⟨hr, decides_send (hr.2 b hnames) (not_open_of_closed hclosed)⟩
  · refine ⟨⟨?_, fun b hb => ?_⟩, ?_⟩
    · show I (r.route req pool signals).1.inner
      rw [hin]
      exact hinner
    · rcases hlearn b hb with hold | hsend
      · exact hr.2 b hold
      · exact (hdec.target b (by simp [hsend, targets])).1
    · show Decides pool signals (r.route req pool signals).2
      rw [hd]
      exact hdec

theorem hedged_keeps {F : Type} [Arith F] {pool : BackendPool} {I : ρ → Prop} (h : Keeps pool I) :
    Keeps pool fun r : HedgedRouter F ρ => I r.inner := by
  refine ⟨fun r req signals hr => ?_, fun r d o hr => h.onResponse _ d o hr⟩
  obtain ⟨hinner, hdec⟩ := h.route r.inner req signals hr
  obtain ⟨hin, hd⟩ := hedged_route r req pool signals
  constructor
  · show I (r.route req pool signals).1.inner
    rw [hin]
    exact hinner
  · show Decides pool signals (r.route req pool signals).2
    rcases hd with hd | ⟨primary, secondary, hsend, hsec, hd⟩
    · rw [hd]
      exact hdec
    · -- the primary is there, so not all are open
      obtain ⟨hmem, hclosed⟩ := pickSecondary_mem hsec
      have hprimary := hdec.target primary (by simp [hsend, targets])
      rw [hd]
      refine ⟨?_, ?_⟩
      · simp only [targets, List.mem_cons, List.not_mem_nil, or_false, forall_eq_or_imp, forall_eq]
        exact ⟨hprimary, hmem, not_open_of_closed hclosed⟩
      · simp only [reduceCtorEq, false_iff]
        exact fun hall => hprimary.2 (hall primary hprimary.1)

/-! ## The breaker over a router that keeps the contract -/

/-- A backend that a call must not use. -/
def Blocked (cfg : CircuitBreakerConfig) (a : Arbiter) (b : BackendId) : Prop :=
  a.stateOf b = .open ∨ a.stateOf b = .halfOpen ∧ cfg.halfOpenMax.toUInt64 ≤ a.inflight b

theorem known_ensure (a : Arbiter) (b b' : BackendId) : Known (ensureBackend a b') b ↔ b = b' ∨ Known a b :=
  known_setBreaker a b b' _

theorem known_visit {cfg : CircuitBreakerConfig} {a : Arbiter} {b : BackendId} {looks : List (BackendId × Nat)}
    (h : b ∈ looks.map (·.1) ∨ Known a b) : Known (visit cfg a looks) b := by
  induction looks generalizing a with
  | nil => exact h.resolve_left (by simp)
  | cons look looks ih =>
    apply ih
    rw [List.map_cons, List.mem_cons] at h
    rcases h with (rfl | h) | h
    · exact Or.inr (known_transition _ _ ((known_ensure _ _ _).mpr (Or.inl rfl)))
    · exact Or.inl h
    · exact Or.inr (known_transition _ _ ((known_ensure _ _ _).mpr (Or.inr h)))

theorem isOpen_buildSignals {cfg : CircuitBreakerConfig} {a : Arbiter} {pool : BackendPool} {b : BackendId}
    (signals : BackendSignals) (hb : b ∈ pool.backends) (hknown : Known a b) :
    isOpen (buildSignals cfg a pool signals) b ↔ Blocked cfg a b := by
  obtain ⟨br, hbr⟩ := Option.isSome_iff_exists.mp hknown
  have hstate : a.stateOf b = tagToState br.tag := by simp [Arbiter.stateOf, hbr]
  have hin : a.inflight b = br.halfOpenInflight := by simp [Arbiter.inflight, hbr]
  unfold isOpen Blocked
  rw [buildSignals_get signals hb, hstate, hin]
  simp only [signalOf, hbr, tagToState_halfOpen_iff]
  split
  · rename_i hfull
    simp [hfull]
  · rename_i hfull
    simp [hfull]

theorem breaker_respects {pool : BackendPool} {I : ρ → Prop} (h : Keeps pool I) {s : CircuitBreakerArbiter ρ}
    (hs : I s.inner) (req : Request) {looks : List (BackendId × Nat)} (hlooks : looks.map (·.1) = pool.backends)
    (signals : BackendSignals) :
    let a := visit s.cfg s.arbiter looks
    let d := (s.route req looks signals).2
    I (s.route req looks signals).1.inner ∧ (∀ b ∈ targets d, ¬ Blocked s.cfg a b) ∧
      (d = .reject serviceUnavailable ↔ ∀ b ∈ pool.backends, Blocked s.cfg a b) := by
  intro a d
  have hpool : poolOf looks = pool := by
    cases pool
    simp only [poolOf, hlooks]
  have hshown : ∀ b ∈ pool.backends, isOpen (buildSignals s.cfg a pool signals) b ↔ Blocked s.cfg a b := by
    intro b hb
    apply isOpen_buildSignals signals hb
    apply known_visit
    rw [hlooks]
    exact Or.inl hb
  obtain ⟨hkept, hdec⟩ := h.route s.inner req (buildSignals s.cfg a pool signals) hs
  have hd : d = (Router.route s.inner req pool (buildSignals s.cfg a pool signals)).2 := by
    simp only [d, CircuitBreakerArbiter.route, hpool]
    rfl
  rw [hd]
  refine ⟨?_, fun b hb => ?_, ?_⟩
  · simp only [CircuitBreakerArbiter.route, hpool]
    exact hkept
  · obtain ⟨hmem, hopen⟩ := hdec.target b hb
    rwa [← hshown b hmem]
  · rw [hdec.reject]
    exact forall₂_congr hshown

/-! ## The shipped stack -/

/-- A call of `route` over this pool, or an outcome. -/
def Event.Over (pool : BackendPool) : Event → Prop
  | .route _ looks _ => looks.map (·.1) = pool.backends
  | .onResponse _ _ _ => True

theorem keeps_run {pool : BackendPool} {I : ρ → Prop} (h : Keeps pool I) {s : CircuitBreakerArbiter ρ}
    (hs : I s.inner) (events : List Event) (hover : ∀ e ∈ events, e.Over pool) :
    I (events.foldl CircuitBreakerArbiter.handle s).inner ∧
      (events.foldl CircuitBreakerArbiter.handle s).cfg = s.cfg := by
  induction events generalizing s with
  | nil => exact ⟨hs, rfl⟩
  | cons e events ih =>
    rw [List.forall_mem_cons] at hover
    rw [List.foldl_cons]
    have hstep : I (s.handle e).inner := by
      cases e with
      | route req looks signals => exact (breaker_respects h hs req hover.1 signals).1
      | onResponse decision outcome now => exact h.onResponse s.inner decision outcome hs
    have hcfg : (s.handle e).cfg = s.cfg := by cases e <;> rfl
    obtain ⟨hi, hc⟩ := ih hstep hover.2
    exact ⟨hi, hc.trans hcfg⟩

/-- The stack as it ships, in its initial state. -/
def shippedStack {F : Type} [Arith F] (cfg : CircuitBreakerConfig) (hedged : HedgedConfig F) (kv : KvAwareConfig)
    (xxh3 : List Byte → UInt64) (weighted : WeightedRandomRouter) :
    CircuitBreakerArbiter (HedgedRouter F (KvAwareRouter WeightedRandomRouter)) :=
  { inner := { inner := .new weighted kv xxh3, cfg := hedged }, cfg := cfg }

/-- **The shipped stack respects the breaker.** After each run over one pool that has the weighted ids, a
decision names no blocked backend, and it is 503 exactly when all backends of the pool are blocked. -/
theorem shippedStack_respects {F : Type} [Arith F] (cfg : CircuitBreakerConfig) (hedged : HedgedConfig F)
    (kv : KvAwareConfig) (xxh3 : List Byte → UInt64) (weights : List (BackendId × UInt32)) (seed : UInt64)
    (weighted : WeightedRandomRouter) (hnew : WeightedRandomRouter.withSeed weights seed = some weighted)
    (pool : BackendPool) (hpool : pool.backends ≠ []) (hids : ∀ b, b ∈ pool.backends ↔ b ∈ weights.map (·.1))
    (events : List Event) (hover : ∀ e ∈ events, e.Over pool) (req : Request) (looks : List (BackendId × Nat))
    (hlooks : looks.map (·.1) = pool.backends) (signals : BackendSignals) :
    let s := events.foldl CircuitBreakerArbiter.handle (shippedStack cfg hedged kv xxh3 weighted)
    let a := visit cfg s.arbiter looks
    let d := (s.route req looks signals).2
    (∀ b ∈ targets d, ¬ Blocked cfg a b) ∧
      (d = .reject serviceUnavailable ↔ ∀ b ∈ pool.backends, Blocked cfg a b) := by
  intro s a d
  obtain ⟨hbuilt, hbackends⟩ := built_withSeed hnew
  have hkeeps := @hedged_keeps _ _ F _ _ _ (kv_keeps (weighted_keeps hpool))
  have hempty : ∀ b, ¬ PrefixTrie.Names { cap := kv.maxTrieEntries } b := by
    rintro b ⟨path, hpath⟩
    rw [lookup_empty] at hpath
    cases hpath
  obtain ⟨hs, hcfg⟩ := keeps_run hkeeps (s := shippedStack cfg hedged kv xxh3 weighted)
    ⟨⟨hbuilt, fun b hb => (hids b).mpr (hbackends ▸ hb)⟩, fun b hb => absurd hb (hempty b)⟩ events hover
  have hcall := (breaker_respects hkeeps hs req hlooks signals).2
  rw [hcfg] at hcall
  exact hcall

/-- Two backends with the same weight. The first one has failed. -/
theorem shippedStack_respects_open :
    ∃ weighted, WeightedRandomRouter.withSeed [(⟨0⟩, 1), (⟨1⟩, 1)] 1 = some weighted ∧
      let cfg : CircuitBreakerConfig := ⟨1, 10, 1⟩
      let s := (shippedStack cfg ({} : HedgedConfig Float) {} (fun _ => 0) weighted).handle
        (.onResponse (.send ⟨0⟩) ⟨⟨0⟩, some ⟨500⟩, 0, true⟩ 0)
      let looks : List (BackendId × Nat) := [(⟨0⟩, 5), (⟨1⟩, 5)]
      (s.route ⟨.empty⟩ looks ⟨[]⟩).2 = .send ⟨1⟩ ∧ (visit cfg s.arbiter looks).stateOf ⟨0⟩ = .open ∧
        ¬ Blocked cfg (visit cfg s.arbiter looks) ⟨1⟩ := by
  obtain ⟨weighted, hnew⟩ := Option.isSome_iff_exists.mp
    (show (WeightedRandomRouter.withSeed [(⟨0⟩, 1), (⟨1⟩, 1)] 1).isSome = true by decide)
  refine ⟨weighted, hnew, ?_⟩
  intro cfg s looks
  have hcall := shippedStack_respects cfg ({} : HedgedConfig Float) {} (fun _ => 0) [(⟨0⟩, 1), (⟨1⟩, 1)] 1 weighted hnew
    ⟨[⟨0⟩, ⟨1⟩]⟩ (by decide) (fun b => by simp)
    [.onResponse (.send ⟨0⟩) ⟨⟨0⟩, some ⟨500⟩, 0, true⟩ 0] (by simp [Event.Over]) ⟨.empty⟩ looks rfl ⟨[]⟩
  have hrun : (s.route ⟨.empty⟩ looks ⟨[]⟩).2 = .send ⟨1⟩ ∧ (visit cfg s.arbiter looks).stateOf ⟨0⟩ = .open := by
    cases hnew
    decide
  have hmem : (⟨1⟩ : BackendId) ∈ targets (s.route ⟨.empty⟩ looks ⟨[]⟩).2 := by
    rw [hrun.1]
    exact List.mem_singleton_self _
  exact ⟨hrun.1, hrun.2, hcall.1 ⟨1⟩ hmem⟩

/-! ## Round robin under the breaker -/

/-- What a call of `route` has answered, over which pool, and the breakers after its loop. -/
structure Answer where
  pool : BackendPool
  arbiter : Arbiter
  decision : RoutingDecision

structure Answered (ρ : Type) where
  breaker : CircuitBreakerArbiter ρ
  answers : List Answer := []

def Answered.step (s : Answered ρ) : Event → Option (Answered ρ)
  | .route req looks signals =>
    let (breaker, decision) := s.breaker.route req looks signals
    some ⟨breaker, s.answers ++ [⟨poolOf looks, visit s.breaker.cfg s.breaker.arbiter looks, decision⟩]⟩
  | .onResponse decision outcome now => some ⟨s.breaker.onResponse decision outcome now, s.answers⟩

def answered (inner : ρ) (cfg : CircuitBreakerConfig) : Machine (Answered ρ) Event where
  init := ⟨⟨inner, cfg, {}⟩, []⟩
  step := Answered.step

/-- No `Send` to an open backend, and if a member of the pool is not open then one of these is it. -/
def Answer.SkipsOpen (e : Answer) : Prop :=
  (∀ b, e.decision = .send b → e.arbiter.stateOf b ≠ .open) ∧
    ((∃ b ∈ e.pool.backends, e.arbiter.stateOf b ≠ .open) →
      ∃ b ∈ e.pool.backends, e.arbiter.stateOf b ≠ .open ∧ e.decision = .send b)

/-- The breaker of the backend at the cursor is not open, or it is due. -/
def CursorNotOpen (s : Answered RoundRobinRouter) : Event → Prop
  | .route _ looks _ => ∀ b, (poolOf looks).getModulo s.breaker.inner.cursor.toNat = some b →
    s.breaker.arbiter.stateOf b ≠ .open ∨ ∃ now, (b, now) ∈ looks ∧ Due s.breaker.cfg s.breaker.arbiter b now
  | .onResponse _ _ _ => True

theorem visit_open_iff {cfg : CircuitBreakerConfig} {a : Arbiter} {b : BackendId} {looks : List (BackendId × Nat)} :
    (visit cfg a looks).stateOf b ≠ .open ↔
      a.stateOf b ≠ .open ∨ ∃ now, (b, now) ∈ looks ∧ Due cfg a b now := by
  rcases visit_cases cfg a b looks with ⟨hdue, htag, -⟩ | ⟨hnot, hsame⟩
  · have hhalf : (visit cfg a looks).stateOf b = .halfOpen := by
      rw [stateOf_cell, htag]
      rfl
    simp [hhalf, hdue]
  · have hstate : (visit cfg a looks).stateOf b = a.stateOf b := by
      rw [stateOf_cell, hsame, ← stateOf_cell]
    rw [hstate]
    constructor
    · exact Or.inl
    · rintro (h | ⟨now, hmem, hdue⟩)
      · exact h
      · exact absurd hdue (hnot now hmem)

theorem getModulo_none {pool : BackendPool} {i : Nat} (h : pool.getModulo i = none) : pool.backends = [] := by
  by_contra hne
  have hlen := List.length_pos_iff_ne_nil.mpr hne
  have hle := List.getElem?_eq_none_iff.mp h
  have hlt := Nat.mod_lt i hlen
  omega

/-- Round robin names the backend at the cursor. So the answer is right exactly when that one is not
open after the loop. -/
theorem roundRobin_skips {r : RoundRobinRouter} {pool : BackendPool} {a : Arbiter} :
    (Answer.mk pool a (r.route pool).2).SkipsOpen ↔
      ∀ b, pool.getModulo r.cursor.toNat = some b → a.stateOf b ≠ .open := by
  unfold RoundRobinRouter.route Answer.SkipsOpen
  cases h : pool.getModulo r.cursor.toNat with
  | none => simp [getModulo_none h]
  | some b =>
    have hmem : b ∈ pool.backends := List.mem_of_getElem? h
    simp only [RoutingDecision.send.injEq, Option.some.injEq, forall_eq']
    constructor
    · exact fun h => h.1
    · exact fun hopen => ⟨hopen, fun _ => ⟨b, hmem, hopen, rfl⟩⟩

/-- **Round robin under the breaker.** In each run all answers skip the open backends if and only if, at
each call of `route`, the breaker of the backend at the cursor is not open or its time is over. -/
theorem roundRobin_skips_iff (inner : RoundRobinRouter) (cfg : CircuitBreakerConfig) (events : List Event) :
    (answered inner cfg).Throughout (fun s => ∀ e ∈ s.answers, e.SkipsOpen) (answered inner cfg).init events ↔
      (answered inner cfg).Meets CursorNotOpen (answered inner cfg).init events := by
  apply @Machine.throughout_iff_meets _ _ (answered inner cfg) CursorNotOpen fun _ => True
  · exact fun _ _ _ _ _ _ _ => trivial
  · intro s ev s' _ hs hstep
    cases ev with
    | route req looks signals =>
      cases hstep
      have hnew : (Answer.mk (poolOf looks) (visit s.breaker.cfg s.breaker.arbiter looks)
          (s.breaker.route req looks signals).2).SkipsOpen ↔ CursorNotOpen s (.route req looks signals) := by
        refine roundRobin_skips.trans ?_
        simp only [CursorNotOpen, visit_open_iff]
      rw [← hnew]
      simp only [List.forall_mem_append, List.forall_mem_singleton]
      exact and_iff_right hs
    | onResponse decision outcome now =>
      cases hstep
      exact ⟨fun _ => trivial, fun _ => hs⟩
  · trivial
  · simp [answered]

/-- The first of two backends has failed and is open. The cursor is at it. -/
theorem roundRobin_sends_open :
    let fail : Event := .onResponse (.send ⟨0⟩) ⟨⟨0⟩, some ⟨500⟩, 0, true⟩ 0
    let call : Event := .route ⟨.empty⟩ [(⟨0⟩, 5), (⟨1⟩, 5)] ⟨[]⟩
    ∃ s, (answered ({} : RoundRobinRouter) ⟨1, 10, 1⟩).run [fail, call] = some s ∧
      ∃ e ∈ s.answers, e.decision = .send ⟨0⟩ ∧ e.arbiter.stateOf ⟨0⟩ = .open ∧ e.arbiter.stateOf ⟨1⟩ = .closed ∧
        ¬ e.SkipsOpen := by
  intro fail call
  have hrun : ((answered ({} : RoundRobinRouter) ⟨1, 10, 1⟩).run [fail, call]).any (fun s => s.answers.any fun e =>
      decide (e.decision = .send ⟨0⟩) && decide (e.arbiter.stateOf ⟨0⟩ = .open) &&
        decide (e.arbiter.stateOf ⟨1⟩ = .closed)) = true := by decide
  obtain ⟨s, hs, hp⟩ := (Option.any_eq_true _ _).mp hrun
  obtain ⟨e, he, hp⟩ := List.any_eq_true.mp hp
  simp only [Bool.and_eq_true, decide_eq_true_eq] at hp
  obtain ⟨⟨hsend, hopen⟩, hclosed⟩ := hp
  exact ⟨s, hs, e, he, hsend, hopen, hclosed, fun h => h.1 ⟨0⟩ hsend hopen⟩

end Riftgate.Circuit
