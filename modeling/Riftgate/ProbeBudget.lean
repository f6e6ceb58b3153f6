import Riftgate.Breaker

/-!
# The probe budget

`build_signals` looks at the probe counter, and the counter goes up when the inner router has
answered. Other threads run between the two, and a `Hedge` is not counted at all.
-/

open Lib

namespace Riftgate.Circuit

open Router

/-! ## Decisions and the period they were made in -/

/-- The threads, and each decision that `route` has returned, with the number of resets at that
time. The program does not keep it. -/
structure Logged where
  threads : Threads := {}
  log : List (RoutingDecision × (BackendId → Nat)) := []

def decisionOf : Pc → Option RoutingDecision
  | .routed d => some d
  | _ => none

def Logged.step (cfg : CircuitBreakerConfig) (s : Logged) (a : Label) : Option Logged :=
  (s.threads.step cfg a).map fun s' =>
    match a with
    | .move t _ => ⟨s', s.log ++ ((decisionOf (s'.pcs t)).map fun d => (d, s'.shared.arbiter.resets)).toList⟩
    | _ => ⟨s', s.log⟩

def logged (cfg : CircuitBreakerConfig) : Machine Logged Label where
  init := {}
  step := Logged.step cfg

def Logged.arbiter (s : Logged) : Arbiter := s.threads.shared.arbiter

def decisionsAt (log : List (RoutingDecision × (BackendId → Nat))) (b : BackendId) (resets : Nat) : Nat :=
  log.countP fun e => decide (b ∈ targets e.1 ∧ e.2 b = resets)

/-- The decisions that name `b` and were made since its counter was last set to 0. An outcome that is
recorded for a half-open backend ends the period, so none of them has one. -/
def Logged.inPeriod (s : Logged) (b : BackendId) : Nat := decisionsAt s.log b (s.arbiter.resets b)

/-- No `Hedge` names a half-open backend, and a `Send` to one is counted while there is a slot. -/
def Counted (cfg : CircuitBreakerConfig) (s : Logged) : Label → Prop
  | .move t (.decide (.hedge bs)) => ∀ merged, s.threads.pcs t = .inner merged → ∀ b ∈ bs, ¬ HalfOpen s.arbiter b
  | .move t .go => ∀ b, s.threads.pcs t = .probe b → HalfOpen s.arbiter b →
    s.arbiter.inflight b < cfg.halfOpenMax.toUInt64
  | _ => True

/-! ## The invariant -/

structure WithinBudget (cfg : CircuitBreakerConfig) (s : Logged) : Prop where
  past : ∀ e ∈ s.log, ∀ b, e.2 b ≤ s.arbiter.resets b
  counted : ∀ b, HalfOpen s.arbiter b → s.inPeriod b = (s.arbiter.inflight b).toNat
  bound : ∀ b, HalfOpen s.arbiter b → s.inPeriod b ≤ cfg.halfOpenMax.toNat

theorem decisionsAt_later {log : List (RoutingDecision × (BackendId → Nat))} {b : BackendId} {resets : Nat}
    (h : ∀ e ∈ log, e.2 b < resets) : decisionsAt log b resets = 0 := by
  unfold decisionsAt
  rw [List.countP_eq_zero]
  intro e he
  have hlt := h e he
  simp only [decide_eq_true_eq]
  omega

theorem decisionsAt_append (log : List (RoutingDecision × (BackendId → Nat))) (d : RoutingDecision)
    (resets : BackendId → Nat) (b : BackendId) :
    decisionsAt (log ++ [(d, resets)]) b (resets b) =
      decisionsAt log b (resets b) + if b ∈ targets d then 1 else 0 := by
  simp [decisionsAt, List.countP_append, List.countP_singleton]

theorem WithinBudget.steady {cfg : CircuitBreakerConfig} {s : Logged} {s' : Threads} (h : WithinBudget cfg s)
    (hst : Steady s.arbiter s'.shared.arbiter) : WithinBudget cfg ⟨s', s.log⟩ := by
  have hcount : ∀ b, HalfOpen s'.shared.arbiter b →
      (decisionsAt s.log b (s'.shared.arbiter.resets b) = s.inPeriod b ∧
        s'.shared.arbiter.inflight b = s.arbiter.inflight b ∧ HalfOpen s.arbiter b) ∨
      (decisionsAt s.log b (s'.shared.arbiter.resets b) = 0 ∧ s'.shared.arbiter.inflight b = 0) := by
    intro b hb
    rcases hst b with ⟨hres, hin, hiff⟩ | ⟨hres, hin⟩
    · refine Or.inl ⟨?_, hin, hiff.mp hb⟩
      rw [hres]
      rfl
    · refine Or.inr ⟨decisionsAt_later fun e he => ?_, hin⟩
      have hle := h.past e he b
      omega
  refine ⟨fun e he b => (h.past e he b).trans (steady_resets hst b), fun b hb => ?_, fun b hb => ?_⟩
  · rcases hcount b hb with ⟨hc, hin, hb⟩ | ⟨hc, hin⟩
    · calc (Logged.mk s' s.log).inPeriod b = s.inPeriod b := hc
        _ = (s.arbiter.inflight b).toNat := h.counted b hb
        _ = (s'.shared.arbiter.inflight b).toNat := by rw [hin]
    · calc (Logged.mk s' s.log).inPeriod b = 0 := hc
        _ = (s'.shared.arbiter.inflight b).toNat := by rw [hin]; rfl
  · rcases hcount b hb with ⟨hc, -, hb⟩ | ⟨hc, -⟩
    · exact hc.trans_le (h.bound b hb)
    · exact hc.trans_le (Nat.zero_le _)

theorem past_append {s : Logged} {s' : Threads} (h : ∀ e ∈ s.log, ∀ b, e.2 b ≤ s'.shared.arbiter.resets b)
    (d : RoutingDecision) :
    ∀ e ∈ s.log ++ [(d, s'.shared.arbiter.resets)], ∀ b, e.2 b ≤ s'.shared.arbiter.resets b := by
  intro e he b
  rcases List.mem_append.mp he with he | he
  · exact h e he b
  · rw [List.mem_singleton.mp he]

theorem WithinBudget.decided {cfg : CircuitBreakerConfig} {s : Logged} {s' : Threads} (h : WithinBudget cfg s)
    (hsame : s'.shared.arbiter = s.arbiter) (d : RoutingDecision) (hd : ∀ b ∈ targets d, ¬ HalfOpen s.arbiter b) :
    WithinBudget cfg ⟨s', s.log ++ [(d, s'.shared.arbiter.resets)]⟩ := by
  have hcount : ∀ b, HalfOpen s'.shared.arbiter b →
      (Logged.mk s' (s.log ++ [(d, s'.shared.arbiter.resets)])).inPeriod b = s.inPeriod b := by
    intro b hb
    rw [hsame] at hb
    have happ := decisionsAt_append s.log d s'.shared.arbiter.resets b
    rw [if_neg fun hmem => hd b hmem hb] at happ
    exact happ.trans (by rw [hsame]; rfl)
  refine ⟨past_append (by rw [hsame]; exact h.past) d, fun b hb => ?_, fun b hb => ?_⟩
  · have hb' : HalfOpen s.arbiter b := hsame ▸ hb
    calc (Logged.mk s' (s.log ++ [(d, s'.shared.arbiter.resets)])).inPeriod b = s.inPeriod b := hcount b hb
      _ = (s.arbiter.inflight b).toNat := h.counted b hb'
      _ = (s'.shared.arbiter.inflight b).toNat := by rw [hsame]
  · exact (hcount b hb).trans_le (h.bound b (hsame ▸ hb))

theorem WithinBudget.probe {cfg : CircuitBreakerConfig} {s : Logged} {s' : Threads} {b : BackendId}
    (h : WithinBudget cfg s) (hb : HalfOpen s.arbiter b) (hslot : s.arbiter.inflight b < cfg.halfOpenMax.toUInt64)
    (hs' : s'.shared.arbiter = countProbe s.arbiter b) :
    WithinBudget cfg ⟨s', s.log ++ [(.send b, s'.shared.arbiter.resets)]⟩ := by
  obtain ⟨hres, hiff, hin⟩ := countProbe_halfOpen hb
  have hlt := UInt64.lt_iff_toNat_lt.mp hslot
  rw [UInt32.toNat_toUInt64] at hlt
  have hmax := cfg.halfOpenMax.toNat_lt
  have hnext : (s.arbiter.inflight b + 1).toNat = (s.arbiter.inflight b).toNat + 1 := by
    rw [UInt64.toNat_add, UInt64.toNat_one]
    omega
  have hcount : ∀ b', (Logged.mk s' (s.log ++ [(.send b, s'.shared.arbiter.resets)])).inPeriod b' =
      s.inPeriod b' + if b' = b then 1 else 0 := by
    intro b'
    have happ := decisionsAt_append s.log (.send b) s'.shared.arbiter.resets b'
    simp only [targets, List.mem_singleton] at happ
    refine happ.trans ?_
    rw [hs', hres]
    rfl
  have hold : ∀ b', HalfOpen s'.shared.arbiter b' → HalfOpen s.arbiter b' := by
    intro b' hb'
    rw [hs'] at hb'
    exact (hiff b').mp hb'
  refine ⟨past_append (by rw [hs', hres]; exact h.past) _, fun b' hb' => ?_, fun b' hb' => ?_⟩
  · have hc := h.counted b' (hold b' hb')
    rw [hcount, hc]
    show _ = (s'.shared.arbiter.inflight b').toNat
    rw [hs', hin]
    split
    · rename_i heq
      rw [heq, hnext]
    · rfl
  · rw [hcount]
    split
    · rename_i heq
      rw [heq, h.counted b hb]
      omega
    · exact h.bound b' (hold b' hb')

/-! ## Whole runs -/

theorem withinBudget_move {cfg : CircuitBreakerConfig} {s : Logged} {t : Nat} {m : Move} {sh' : Shared} {pc' : Pc}
    (h : WithinBudget cfg s) (hc : Counted cfg s (.move t m))
    (hm : Moves cfg t s.threads.shared (s.threads.pcs t) m sh' pc') :
    let s' : Threads := ⟨sh', Function.update s.threads.pcs t pc'⟩
    WithinBudget cfg ⟨s', s.log ++ ((decisionOf pc').map fun d => (d, sh'.arbiter.resets)).toList⟩ := by
  intro s'
  generalize hpc : s.threads.pcs t = pc at hm
  have hquiet : decisionOf pc' = none → (∀ b, pc ≠ .probe b) →
      WithinBudget cfg ⟨s', s.log ++ ((decisionOf pc').map fun d => (d, sh'.arbiter.resets)).toList⟩ := by
    intro hnone hprobe
    rw [hnone]
    simp only [Option.map_none, Option.toList_none, List.append_nil]
    exact h.steady (moves_steady hm hprobe)
  cases hm with
  | inner merged d =>
    cases d with
    | send b => exact hquiet rfl (by simp)
    | hedge bs => exact @WithinBudget.decided cfg s s' h rfl (.hedge bs) (hc merged hpc)
    | reject status => exact @WithinBudget.decided cfg s s' h rfl (.reject status) (by simp [targets])
  | probe b hl =>
    by_cases hb : HalfOpen s.arbiter b
    · exact h.probe hb (hc b hpc hb) rfl
    · exact h.decided (countProbe_closed hb) (.send b) (by simpa [targets] using hb)
  | dropTransitioned r =>
    refine hquiet ?_ (by simp)
    unfold RouteArgs.next
    split <;> rfl
  | _ => exact hquiet rfl (by simp)

theorem withinBudget_step {cfg : CircuitBreakerConfig} {s s' : Logged} {a : Label} (h : WithinBudget cfg s)
    (hc : Counted cfg s a) (hs : s.step cfg a = some s') : WithinBudget cfg s' := by
  obtain ⟨w, hw, rfl⟩ := Option.map_eq_some_iff.mp hs
  cases a with
  | route t pool signals =>
    simp only [Threads.step] at hw
    split at hw <;> cases hw
    exact h.steady (.refl _)
  | onResponse t o =>
    simp only [Threads.step] at hw
    split at hw <;> cases hw
    exact h.steady (.refl _)
  | move t m =>
    obtain ⟨⟨sh', pc'⟩, hm, rfl⟩ := Option.map_eq_some_iff.mp hw
    have hmove := withinBudget_move h hc (moves_of_move hm)
    simpa only [Function.update_self] using hmove

/-- **The probe budget.** In each state of each run in which no `Hedge` names a half-open backend and
each `Send` to one finds a free slot when it is counted, a half-open backend has at most
`half_open_max` decisions of this period. -/
theorem inPeriod_le_max (cfg : CircuitBreakerConfig) (s : Logged) (hs : (logged cfg).Reach (Counted cfg) s)
    (b : BackendId) (hb : s.arbiter.stateOf b = .halfOpen) : s.inPeriod b ≤ cfg.halfOpenMax.toNat := by
  have h : WithinBudget cfg s := by
    apply Machine.Reach.invariant _ _ hs
    · constructor <;> simp [logged, Logged.arbiter, HalfOpen]
    · intro s a s' _ h hc hstep
      exact withinBudget_step h hc hstep
  exact h.bound b (stateOf_halfOpen_iff.mp hb)

/-! ## Two runs -/

/-- A check that is enough for a counted step. -/
def counted (cfg : CircuitBreakerConfig) (s : Logged) : Label → Bool
  | .move _ (.decide (.hedge _)) => false
  | .move t .go => match s.threads.pcs t with
    | .probe b => decide (s.arbiter.inflight b < cfg.halfOpenMax.toUInt64)
    | _ => true
  | _ => true

theorem counted_of_check (cfg : CircuitBreakerConfig) (s : Logged) (a : Label) (h : counted cfg s a = true) :
    Counted cfg s a := by
  unfold Counted
  split
  · cases h
  · intro b hpc _
    simpa [counted, hpc] using h
  · trivial

/-- A call of `route` over the pool of `b` alone, up to the answer of the inner router. -/
def routeUntilInner (t : Nat) (b : BackendId) : List Label :=
  [.route t ⟨[b]⟩ ⟨[]⟩, .move t .go, .move t (.clock 0), .move t .go, .move t .go, .move t .go, .move t .go,
    .move t .go]

def sendTo (t : Nat) (b : BackendId) : List Label := [.move t (.decide (.send b)), .move t .go]

def failOn (t : Nat) (b : BackendId) : List Label :=
  [.onResponse t ⟨b, some ⟨500⟩, 0, true⟩, .move t .go, .move t .go, .move t .go, .move t (.clock 0), .move t .go]

/-- One failure opens the breaker, and the next request is a probe. -/
theorem inPeriod_le_max_probe :
    let cfg : CircuitBreakerConfig := ⟨1, 0, 1⟩
    let b : BackendId := ⟨0⟩
    ∃ s, (logged cfg).Reach (Counted cfg) s ∧ s.arbiter.stateOf b = .halfOpen ∧ s.inPeriod b = 1 ∧
      s.inPeriod b ≤ cfg.halfOpenMax.toNat := by
  intro cfg b
  have hrun : (((logged cfg).restrict (counted cfg)).run
      (routeUntilInner 0 b ++ sendTo 0 b ++ failOn 0 b ++ routeUntilInner 0 b ++ sendTo 0 b)).map
      (fun s => decide (s.arbiter.stateOf b = .halfOpen) && decide (s.inPeriod b = 1)) = some true := by decide
  obtain ⟨s, hs, hp⟩ := Machine.exists_of_restrict (fun s a _ => counted_of_check cfg s a) hrun
  rw [Bool.and_eq_true, decide_eq_true_eq, decide_eq_true_eq] at hp
  exact ⟨s, hs, hp.1, hp.2, inPeriod_le_max cfg s hs b hp.1⟩

/-- The breaker is open and its time is over. Two threads look at the counter before either of them
is counted. Two probes are then out, and nobody has reported anything. -/
theorem inPeriod_over_max :
    let cfg : CircuitBreakerConfig := ⟨1, 0, 1⟩
    let b : BackendId := ⟨0⟩
    let as := routeUntilInner 0 b ++ routeUntilInner 1 b ++ sendTo 0 b ++ sendTo 1 b
    ∃ s s', (logged cfg).Reachable s ∧ s.arbiter.stateOf b = .open ∧ (logged cfg).runFrom s as = some s' ∧
      (∀ t o, .onResponse t o ∉ as) ∧ s'.arbiter.stateOf b = .halfOpen ∧ cfg.halfOpenMax.toNat < s'.inPeriod b := by
  intro cfg b as
  have hrun : ((logged cfg).run (routeUntilInner 0 b ++ sendTo 0 b ++ failOn 0 b)).map
      (fun s => decide (s.arbiter.stateOf b = .open) && (((logged cfg).runFrom s as).map fun s' =>
        decide (s'.arbiter.stateOf b = .halfOpen) && decide (cfg.halfOpenMax.toNat < s'.inPeriod b)) = some true) =
      some true := by decide
  obtain ⟨s, hs, hp⟩ := Machine.exists_of_run hrun
  rw [Bool.and_eq_true, decide_eq_true_eq, decide_eq_true_eq] at hp
  obtain ⟨hopen, hp⟩ := hp
  obtain ⟨s', hs', hp⟩ := Option.map_eq_some_iff.mp hp
  rw [Bool.and_eq_true, decide_eq_true_eq, decide_eq_true_eq] at hp
  refine ⟨s, s', hs, hopen, hs', ?_, hp⟩
  simp [as, routeUntilInner, sendTo]

end Riftgate.Circuit
