import Riftgate.Stack

/-!
# Pools that change

The alias table is made once, and the trie remembers backends from earlier calls. Neither of them is
compared with the pool of the call. The scan over the pool and the choice of a second target are.
-/

open Lib

namespace Riftgate.Circuit

open Router

/-! ## Runs with a pool for each call -/

def InPool (pool : BackendPool) (d : RoutingDecision) : Prop := ∀ b ∈ targets d, b ∈ pool.backends

structure Ask where
  req : Request
  pool : BackendPool
  signals : BackendSignals

/-- A router on its own, and what it has answered over which pool. -/
structure Asked (ρ : Type) where
  router : ρ
  answers : List (BackendPool × RoutingDecision) := []

def asked {ρ : Type} [Router ρ] (router : ρ) : Machine (Asked ρ) Ask where
  init := ⟨router, []⟩
  step s a :=
    let (router, decision) := Router.route s.router a.req a.pool a.signals
    some ⟨router, s.answers ++ [(a.pool, decision)]⟩

/-- What the trie answers is in the pool. If the weighted router answers, then each of its backends is
in the pool or is shown as open. -/
def StaysIn (r : KvAwareRouter WeightedRandomRouter) (req : Request) (pool : BackendPool) (signals : BackendSignals) :
    Prop :=
  match r.cached req signals with
  | some b => b ∈ pool.backends
  | none => pool.backends = [] ∨ ∀ b ∈ r.inner.backends, b ∈ pool.backends ∨ isOpen signals b

instance (signals : BackendSignals) (b : BackendId) : Decidable (isOpen signals b) :=
  inferInstanceAs (Decidable (_ = _))

instance (r : KvAwareRouter WeightedRandomRouter) (req : Request) (pool : BackendPool) (signals : BackendSignals) :
    Decidable (StaysIn r req pool signals) :=
  match h : r.cached req signals with
  | some b => decidable_of_iff (b ∈ pool.backends) (by rw [StaysIn, h])
  | none =>
    decidable_of_iff (pool.backends = [] ∨ ∀ b ∈ r.inner.backends, b ∈ pool.backends ∨ isOpen signals b)
      (by rw [StaysIn, h])

def AskStays (s : Asked (KvAwareRouter WeightedRandomRouter)) (a : Ask) : Prop :=
  StaysIn s.router a.req a.pool a.signals

instance (s : Asked (KvAwareRouter WeightedRandomRouter)) (a : Ask) : Decidable (AskStays s a) :=
  inferInstanceAs (Decidable (StaysIn _ _ _ _))

variable {F : Type} [Arith F]

/-- The same for the router inside the stack, with the signals that the breaker shows it. -/
def StackStays (s : Answered (HedgedRouter F (KvAwareRouter WeightedRandomRouter))) : Event → Prop
  | .route req looks signals =>
    StaysIn s.breaker.inner.inner req (poolOf looks)
      (buildSignals s.breaker.cfg (visit s.breaker.cfg s.breaker.arbiter looks) (poolOf looks) signals)
  | .onResponse _ _ _ => True

instance (s : Answered (HedgedRouter F (KvAwareRouter WeightedRandomRouter))) (e : Event) :
    Decidable (StackStays s e) :=
  match e with
  | .route _ _ _ => inferInstanceAs (Decidable (StaysIn _ _ _ _))
  | .onResponse _ _ _ => .isTrue trivial

/-! ## One call -/

theorem weighted_built {r : WeightedRandomRouter} (hr : r.Built) (pool : BackendPool) (signals : BackendSignals) :
    (r.route pool signals).1.Built := by
  by_cases hpool : pool.backends = []
  · unfold WeightedRandomRouter.route
    rw [if_pos hpool]
    exact hr
  · exact (weighted_route r hr hpool signals).1.built hr

theorem weighted_inPool {r : WeightedRandomRouter} (hr : r.Built) {pool : BackendPool} {signals : BackendSignals}
    (h : pool.backends = [] ∨ ∀ b ∈ r.backends, b ∈ pool.backends ∨ isOpen signals b) :
    InPool pool (r.route pool signals).2 := by
  by_cases hpool : pool.backends = []
  · unfold WeightedRandomRouter.route
    rw [if_pos hpool]
    simp [InPool, targets]
  · obtain ⟨-, drawn, hdrawn, heq⟩ := weighted_route r hr hpool signals
    rw [heq]
    cases hfound : found ((drawn ++ pool.backends).foldlM (consider signals) none) with
    | none => simp [sendOr503, InPool, targets]
    | some b =>
      obtain ⟨hb, hopen⟩ := (found_some hfound).resolve_left (by simp)
      simp only [sendOr503, InPool, targets, List.mem_singleton, forall_eq]
      rcases List.mem_append.mp hb with hb | hb
      · exact (h.resolve_left hpool b (hdrawn b hb)).resolve_right hopen
      · exact hb

theorem kv_built {r : KvAwareRouter WeightedRandomRouter} (hr : r.inner.Built) (req : Request) (pool : BackendPool)
    (signals : BackendSignals) : (r.route req pool signals).1.inner.Built := by
  rcases kv_route r req pool signals with ⟨b, -, heq⟩ | ⟨-, -, hin, -⟩
  · rw [heq]
    exact hr
  · rw [hin]
    exact weighted_built hr pool signals

theorem kv_inPool {r : KvAwareRouter WeightedRandomRouter} (hr : r.inner.Built) {req : Request} {pool : BackendPool}
    {signals : BackendSignals} (h : StaysIn r req pool signals) : InPool pool (r.route req pool signals).2 := by
  unfold StaysIn at h
  rcases kv_route r req pool signals with ⟨b, hcached, heq⟩ | ⟨hcached, hd, -, -⟩
  · rw [hcached] at h
    rw [heq]
    simpa [InPool, targets] using h
  · rw [hcached] at h
    rw [hd]
    exact weighted_inPool hr h

theorem hedged_inPool {r : HedgedRouter F (KvAwareRouter WeightedRandomRouter)} {req : Request} {pool : BackendPool}
    {signals : BackendSignals} (h : InPool pool (r.inner.route req pool signals).2) :
    InPool pool (r.route req pool signals).2 := by
  obtain ⟨-, hd⟩ := hedged_route r req pool signals
  rcases hd with hd | ⟨primary, secondary, hsend, hsec, hd⟩
  · rw [hd]
    exact h
  · rw [hd]
    have hprimary : primary ∈ pool.backends := by
      apply h
      rw [show (r.inner.route req pool signals).2 = .send primary from hsend]
      exact List.mem_singleton_self primary
    simp only [InPool, targets, List.mem_cons, List.not_mem_nil, or_false, forall_eq_or_imp, forall_eq]
    exact ⟨hprimary, (pickSecondary_mem hsec).1⟩

/-! ## Whole runs -/

theorem asked_inPool {router : KvAwareRouter WeightedRandomRouter} (hbuilt : router.inner.Built)
    {s : Asked (KvAwareRouter WeightedRandomRouter)} (hs : (asked router).Reach AskStays s) :
    ∀ e ∈ s.answers, InPool e.1 e.2 := by
  have h : s.router.inner.Built ∧ ∀ e ∈ s.answers, InPool e.1 e.2 := by
    apply Machine.Reach.invariant _ _ hs
    · exact ⟨hbuilt, by simp [asked]⟩
    · rintro s a s' - ⟨hr, hall⟩ hc hstep
      cases hstep
      refine ⟨kv_built hr a.req a.pool a.signals, ?_⟩
      rw [List.forall_mem_append, List.forall_mem_singleton]
      exact ⟨hall, kv_inPool hr hc⟩
  exact h.2

theorem answered_inPool {inner : HedgedRouter F (KvAwareRouter WeightedRandomRouter)} {cfg : CircuitBreakerConfig}
    (hbuilt : inner.inner.inner.Built) {s : Answered (HedgedRouter F (KvAwareRouter WeightedRandomRouter))}
    (hs : (answered inner cfg).Reach StackStays s) : ∀ e ∈ s.answers, InPool e.pool e.decision := by
  have h : s.breaker.inner.inner.inner.Built ∧ ∀ e ∈ s.answers, InPool e.pool e.decision := by
    apply Machine.Reach.invariant _ _ hs
    · exact ⟨hbuilt, by simp [answered]⟩
    · rintro s a s' - ⟨hr, hall⟩ hc hstep
      cases a with
      | route req looks signals =>
        cases hstep
        constructor
        · have hin := (hedged_route s.breaker.inner req (poolOf looks)
            (buildSignals s.breaker.cfg (visit s.breaker.cfg s.breaker.arbiter looks) (poolOf looks) signals)).1
          exact (congrArg (fun r => r.inner.Built) hin).mpr (kv_built hr req _ _)
        · rw [List.forall_mem_append, List.forall_mem_singleton]
          exact ⟨hall, hedged_inPool (kv_inPool hr hc)⟩
      | onResponse decision outcome now =>
        cases hstep
        exact ⟨hr, hall⟩
  exact h.2

/-- **Routing stays inside the pool**, alone and in the stack, in each run whose calls find nothing that
is not in their pool: neither in the trie for their body nor among the weighted ids. -/
theorem decisions_inPool (weights : List (BackendId × UInt32)) (seed : UInt64) (weighted : WeightedRandomRouter)
    (hnew : WeightedRandomRouter.withSeed weights seed = some weighted) (kv : KvAwareConfig)
    (xxh3 : List Byte → UInt64) (hedged : HedgedConfig F) (cfg : CircuitBreakerConfig) :
    (∀ s, (asked (KvAwareRouter.new weighted kv xxh3)).Reach AskStays s → ∀ e ∈ s.answers, InPool e.1 e.2) ∧
      ∀ s, (answered (shippedStack cfg hedged kv xxh3 weighted).inner cfg).Reach StackStays s →
        ∀ e ∈ s.answers, InPool e.pool e.decision := by
  have hbuilt := (built_withSeed hnew).1
  exact ⟨fun s hs => asked_inPool hbuilt hs, fun s hs => answered_inPool hbuilt hs⟩

def evenWeights : WeightedRandomRouter :=
  (WeightedRandomRouter.withSeed [(⟨0⟩, 1), (⟨1⟩, 1)] 2).get (by decide)

def shortPrefixes : KvAwareConfig := { prefixChunkBytes := 2, minPrefixBytesToRoute := 2 }

/-- The second pool has lost a backend, and the body of the second call is in the trie. -/
def shrinkingPools : List Ask :=
  [⟨⟨.bytes [97, 98]⟩, ⟨[⟨1⟩, ⟨0⟩]⟩, ⟨[]⟩⟩, ⟨⟨.bytes [97, 98, 99]⟩, ⟨[⟨0⟩]⟩, ⟨[]⟩⟩,
    ⟨⟨.empty⟩, ⟨[⟨2⟩, ⟨1⟩, ⟨0⟩]⟩, ⟨[]⟩⟩]

theorem shrinkingPools_inPool :
    (∃ s, (asked (KvAwareRouter.new evenWeights shortPrefixes fun _ => 0)).Reach AskStays s ∧
      s.answers.map (·.2) = [.send ⟨0⟩, .send ⟨0⟩, .send ⟨1⟩] ∧ ∀ e ∈ s.answers, InPool e.1 e.2) ∧
    ∃ s, (answered (shippedStack {} ({} : HedgedConfig Float) shortPrefixes (fun _ => 0) evenWeights).inner {}).Reach
        StackStays s ∧
      s.answers.map (·.decision) = [.send ⟨0⟩, .send ⟨0⟩, .send ⟨1⟩] ∧ ∀ e ∈ s.answers, InPool e.pool e.decision := by
  have hnew : WeightedRandomRouter.withSeed [(⟨0⟩, 1), (⟨1⟩, 1)] 2 = some evenWeights := (Option.some_get _).symm
  obtain ⟨halone, hstack⟩ :=
    decisions_inPool _ 2 evenWeights hnew shortPrefixes (fun _ => 0) ({} : HedgedConfig Float) {}
  constructor
  · have hrun : (((asked (KvAwareRouter.new evenWeights shortPrefixes fun _ => 0)).restrict
        fun s a => decide (AskStays s a)).run shrinkingPools).map
        (fun s => decide (s.answers.map (·.2) = [.send ⟨0⟩, .send ⟨0⟩, .send ⟨1⟩])) = some true := by decide +kernel
    obtain ⟨s, hs, hanswers⟩ := Machine.exists_of_restrict (fun _ _ _ ha => of_decide_eq_true ha) hrun
    exact ⟨s, hs, of_decide_eq_true hanswers, halone s hs⟩
  · have hrun : (((answered (shippedStack {} ({} : HedgedConfig Float) shortPrefixes (fun _ => 0) evenWeights).inner
        {}).restrict fun s e => decide (StackStays s e)).run
        (shrinkingPools.map fun a => .route a.req (a.pool.backends.map fun b => (b, 0)) a.signals)).map
        (fun s => decide (s.answers.map (·.decision) = [.send ⟨0⟩, .send ⟨0⟩, .send ⟨1⟩])) = some true := by
      decide +kernel
    obtain ⟨s, hs, hanswers⟩ := Machine.exists_of_restrict (fun _ _ _ ha => of_decide_eq_true ha) hrun
    exact ⟨s, hs, of_decide_eq_true hanswers, hstack s hs⟩

/-- The pool has only the second one, and the table gives the first one. -/
theorem decision_outside_pool :
    ∃ weighted, WeightedRandomRouter.withSeed [(⟨0⟩, 1), (⟨1⟩, 1)] 2 = some weighted ∧
      (∃ s, (asked (KvAwareRouter.new weighted {} fun _ => 0)).run [⟨⟨.empty⟩, ⟨[⟨1⟩]⟩, ⟨[]⟩⟩] = some s ∧
        ∃ e ∈ s.answers, ¬ InPool e.1 e.2) ∧
      ∃ s, (answered (shippedStack {} ({} : HedgedConfig Float) {} (fun _ => 0) weighted).inner {}).run
        [.route ⟨.empty⟩ [(⟨1⟩, 0)] ⟨[]⟩] = some s ∧ ∃ e ∈ s.answers, ¬ InPool e.pool e.decision := by
  obtain ⟨weighted, hnew⟩ := Option.isSome_iff_exists.mp
    (show (WeightedRandomRouter.withSeed [(⟨0⟩, 1), (⟨1⟩, 1)] 2).isSome = true by decide)
  have hout : ¬ InPool ⟨[⟨1⟩]⟩ (.send ⟨0⟩) := by simp [InPool, targets]
  refine ⟨weighted, hnew, ⟨_, rfl, _, List.mem_singleton_self _, ?_⟩, ⟨_, rfl, _, List.mem_singleton_self _, ?_⟩⟩
  · have hd : ((KvAwareRouter.new weighted {} fun _ => 0).route ⟨.empty⟩ ⟨[⟨1⟩]⟩ ⟨[]⟩).2 = .send ⟨0⟩ := by
      cases hnew
      decide
    exact hd ▸ hout
  · have hd : ((shippedStack {} ({} : HedgedConfig Float) {} (fun _ => 0) weighted).route ⟨.empty⟩ [(⟨1⟩, 0)] ⟨[]⟩).2 =
        .send ⟨0⟩ := by
      cases hnew
      decide
    exact hd ▸ hout

end Riftgate.Circuit
