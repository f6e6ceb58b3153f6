import Riftgate.Cell
import Riftgate.Code.Routers

/-!
# The breaker as an automaton

The breaker of a backend has three states and sees only what concerns the backend.
-/

open Lib

namespace Riftgate.Circuit

open Router

/-! ## The automaton -/

/-- The breaker as the documentation draws it. -/
inductive Phase where
  | closed (failures : Nat)
  | «open» (since : Nat)
  | halfOpen
  deriving DecidableEq, Repr

/-- All that a backend sees: a call of `route` over a pool that has it, and its own outcomes. -/
inductive Seen where
  | look (now : Nat)
  | outcome (fails : Bool) (now : Nat)
  deriving DecidableEq, Repr

def Phase.next (cfg : CircuitBreakerConfig) : Phase → Seen → Phase
  | .closed n, .outcome true now => if max 1 cfg.failureThreshold.toNat ≤ n + 1 then .open now else .closed (n + 1)
  | .closed _, .outcome false _ => .closed 0
  | .closed n, .look _ => .closed n
  | .open t, .look now => if t + cfg.resetTimeout ≤ now then .halfOpen else .open t
  | .open t, .outcome _ _ => .open t
  | .halfOpen, .outcome true now => .open now
  | .halfOpen, .outcome false _ => .closed 0
  | .halfOpen, .look _ => .halfOpen

def Phase.packed : Phase → UInt64
  | .closed n => packState tagClosed (UInt32.ofNat n)
  | .open _ => packState tagOpen 0
  | .halfOpen => packState tagHalfOpen 0

/-! ## Histories -/

variable {ρ : Type} [Router ρ]

inductive Event where
  | route (req : Request) (looks : List (BackendId × Nat)) (signals : BackendSignals)
  | onResponse (decision : RoutingDecision) (outcome : Outcome) (now : Nat)

def CircuitBreakerArbiter.handle (s : CircuitBreakerArbiter ρ) : Event → CircuitBreakerArbiter ρ
  | .route req looks signals => (s.route req looks signals).1
  | .onResponse decision outcome now => s.onResponse decision outcome now

/-- The readings of the clock, in their order. -/
def Event.times : Event → List Nat
  | .route _ looks _ => looks.map (·.2)
  | .onResponse _ _ now => [now]

def Event.seen (b : BackendId) : Event → List Seen
  | .route _ looks _ => (timesOf b looks).map .look
  | .onResponse _ outcome now => if outcome.backend = b then [.outcome (outcomeFails outcome) now] else []

/-! ## One step -/

structure Sim (cfg : CircuitBreakerConfig) (c : Cell) (p : Phase) : Prop where
  state : c.state = p.packed
  below : ∀ n, p = .closed n → n < max 1 cfg.failureThreshold.toNat
  since : ∀ t, p = .open t → c.since = some t

theorem sim_closed {cfg : CircuitBreakerConfig} {c : Cell} {n : Nat}
    (h : c.state = packState tagClosed (UInt32.ofNat n)) (hn : n < max 1 cfg.failureThreshold.toNat) :
    Sim cfg c (.closed n) := by
  refine ⟨h, ?_, ?_⟩
  · rintro m ⟨⟩
    exact hn
  · rintro t ⟨⟩

theorem sim_open {cfg : CircuitBreakerConfig} {c : Cell} {t : Nat} (h : c.state = packState tagOpen 0)
    (ht : c.since = some t) : Sim cfg c (.open t) := by
  refine ⟨h, ?_, ?_⟩
  · rintro m ⟨⟩
  · rintro t' ⟨⟩
    exact ht

theorem sim_halfOpen {cfg : CircuitBreakerConfig} {c : Cell} (h : c.state = packState tagHalfOpen 0) :
    Sim cfg c .halfOpen := by
  refine ⟨h, ?_, ?_⟩
  · rintro m ⟨⟩
  · rintro t ⟨⟩

def Phase.tag : Phase → UInt32
  | .closed _ => tagClosed
  | .open _ => tagOpen
  | .halfOpen => tagHalfOpen

theorem Sim.tag {cfg : CircuitBreakerConfig} {c : Cell} {p : Phase} (h : Sim cfg c p) : c.tag = p.tag := by
  rw [Cell.tag, h.state]
  cases p <;> simp only [Phase.packed, Phase.tag, unpack_pack]

/-- A breaker did not open in the future. -/
def Phase.Before (p : Phase) (now : Nat) : Prop := ∀ t, p = .open t → t ≤ now

theorem look_of_tag_ne {cfg : CircuitBreakerConfig} {c : Cell} (now : Nat) (h : c.tag ≠ tagOpen) :
    c.look cfg now = c := by
  unfold Cell.look
  split
  · rfl
  · rw [if_neg]
    exact fun hopen => h hopen.1

theorem Sim.look {cfg : CircuitBreakerConfig} {c : Cell} {p : Phase} {now : Nat} (h : Sim cfg c p)
    (hp : p.Before now) : Sim cfg (c.look cfg now) (p.next cfg (.look now)) := by
  have htag := h.tag
  cases p with
  | closed n =>
    rw [look_of_tag_ne now (by rw [htag]; exact tagOpen_ne_closed.symm)]
    exact h
  | «open» t =>
    have hle := hp t rfl
    unfold Cell.look Phase.next
    simp only [h.since t rfl, htag, Phase.tag, true_and]
    by_cases hdue : t + cfg.resetTimeout ≤ now
    · rw [if_pos (by omega), if_pos hdue]
      exact sim_halfOpen rfl
    · rw [if_neg (by omega), if_neg hdue]
      exact h
  | halfOpen =>
    rw [look_of_tag_ne now (by rw [htag]; decide)]
    exact h

theorem Sim.failures {cfg : CircuitBreakerConfig} {c : Cell} {n : Nat} (h : Sim cfg c (.closed n)) :
    c.failures = UInt32.ofNat n ∧ n + 1 < 2 ^ 32 := by
  have hn := h.below n rfl
  have hmax := cfg.failureThreshold.toNat_lt
  refine ⟨?_, by omega⟩
  rw [Cell.failures, h.state, Phase.packed, unpack_pack]

/-- The count of failures does not wrap, so the comparison of two words is one of two numbers. -/
theorem Sim.fail_closed {cfg : CircuitBreakerConfig} {c : Cell} {n : Nat} (h : Sim cfg c (.closed n)) (now : Nat) :
    Sim cfg (c.record cfg true now) (Phase.next cfg (.closed n) (.outcome true now)) := by
  obtain ⟨hfail, hn⟩ := h.failures
  have hnext : (c.failures + 1).toNat = n + 1 := by
    rw [hfail, UInt32.toNat_add, UInt32.toNat_ofNat', UInt32.toNat_one]
    omega
  have htag : c.tag = tagClosed := h.tag
  have hle : cfg.failureThreshold ≤ c.failures + 1 ↔ max 1 cfg.failureThreshold.toNat ≤ n + 1 := by
    rw [UInt32.le_iff_toNat_le, hnext]
    omega
  rw [Cell.record, if_pos htag, if_pos rfl, Phase.next]
  by_cases hopen : max 1 cfg.failureThreshold.toNat ≤ n + 1
  · rw [if_pos (hle.mpr hopen), if_pos hopen]
    exact sim_open rfl rfl
  · rw [if_neg (mt hle.mp hopen), if_neg hopen]
    apply sim_closed
    · show packState tagClosed (c.failures + 1) = packState tagClosed (UInt32.ofNat (n + 1))
      congr 1
      apply UInt32.toNat_inj.mp
      rw [hnext, UInt32.toNat_ofNat']
      omega
    · omega

theorem Sim.succeed_closed {cfg : CircuitBreakerConfig} {c : Cell} {n : Nat} (h : Sim cfg c (.closed n)) (now : Nat) :
    Sim cfg (c.record cfg false now) (.closed 0) := by
  have htag : c.tag = tagClosed := h.tag
  rw [Cell.record, if_pos htag, if_neg (by decide)]
  split
  · exact sim_closed rfl (by omega)
  · -- no store is needed: the count is 0 already
    rename_i hzero
    have hn0 : c.failures = 0 := by
      apply UInt32.toNat_inj.mp
      rw [UInt32.lt_iff_toNat_lt] at hzero
      exact Nat.eq_zero_of_not_pos hzero
    apply sim_closed
    · rw [h.state, Phase.packed, ← h.failures.1, hn0]
      rfl
    · omega

theorem Sim.record {cfg : CircuitBreakerConfig} {c : Cell} {p : Phase} (h : Sim cfg c p) (fails : Bool) (now : Nat) :
    Sim cfg (c.record cfg fails now) (p.next cfg (.outcome fails now)) := by
  cases p with
  | closed n =>
    cases fails with
    | true => exact h.fail_closed now
    | false => exact h.succeed_closed now
  | «open» t =>
    have htag : c.tag = tagOpen := h.tag
    rw [Cell.record, htag, if_neg tagOpen_ne_closed, if_neg (by decide)]
    exact h
  | halfOpen =>
    have htag : c.tag = tagHalfOpen := h.tag
    rw [Cell.record, htag, if_neg tagHalfOpen_ne_closed, if_pos rfl]
    cases fails with
    | true => exact sim_open rfl rfl
    | false => exact sim_closed rfl (by omega)

theorem Sim.probe {cfg : CircuitBreakerConfig} {c : Cell} {p : Phase} (h : Sim cfg c p) : Sim cfg c.probe p := by
  unfold Cell.probe
  split
  · exact ⟨h.state, h.below, h.since⟩
  · exact h

/-! ## Whole histories -/

def Seen.time : Seen → Nat
  | .look now => now
  | .outcome _ now => now

theorem next_open {cfg : CircuitBreakerConfig} {p : Phase} {e : Seen} {t : Nat} (h : p.next cfg e = .open t) :
    t = e.time ∨ p = .open t := by
  unfold Phase.next at h
  split at h
  · split at h
    · exact Or.inl (Phase.open.inj h).symm
    · cases h
  · cases h
  · cases h
  · split at h
    · cases h
    · exact Or.inr h
  · exact Or.inr h
  · exact Or.inl (Phase.open.inj h).symm
  · cases h
  · cases h

theorem before_foldl {cfg : CircuitBreakerConfig} {p : Phase} {now : Nat} (es : List Seen) (h : p.Before now)
    (hes : ∀ e ∈ es, e.time ≤ now) : (es.foldl (Phase.next cfg) p).Before now := by
  induction es generalizing p with
  | nil => exact h
  | cons e es ih =>
    rw [List.foldl_cons]
    apply ih
    · intro t ht
      rcases next_open ht with rfl | hopen
      · exact hes e List.mem_cons_self
      · exact h t hopen
    · intro e' he'
      exact hes e' (List.mem_cons_of_mem e he')

theorem timesOf_sublist (b : BackendId) (looks : List (BackendId × Nat)) :
    (timesOf b looks).Sublist (looks.map (·.2)) := by
  induction looks with
  | nil => exact .slnil
  | cons look looks ih =>
    by_cases hb : look.1 = b
    · simpa [timesOf, hb] using ih
    · simpa [timesOf, hb] using ih.cons look.2

theorem time_mem_of_seen {b : BackendId} {ev : Event} {e : Seen} (h : e ∈ ev.seen b) : e.time ∈ ev.times := by
  cases ev with
  | route req looks signals =>
    obtain ⟨now, hmem, rfl⟩ := List.mem_map.mp h
    exact (timesOf_sublist b looks).subset hmem
  | onResponse decision outcome now =>
    simp only [Event.seen] at h
    split at h
    · rw [List.mem_singleton.mp h]
      exact List.mem_singleton_self now
    · cases h

theorem Sim.looks {cfg : CircuitBreakerConfig} {c : Cell} {p : Phase} {times : List Nat} (h : Sim cfg c p)
    (hp : ∀ now ∈ times, p.Before now) (hsorted : times.Pairwise (· ≤ ·)) :
    Sim cfg (times.foldl (Cell.look cfg) c) ((times.map Seen.look).foldl (Phase.next cfg) p) := by
  induction times generalizing c p with
  | nil => exact h
  | cons now times ih =>
    rw [List.pairwise_cons] at hsorted
    rw [List.forall_mem_cons] at hp
    rw [List.foldl_cons, List.map_cons, List.foldl_cons]
    refine ih (h.look hp.1) (fun now' hmem => ?_) hsorted.2
    intro t ht
    rcases next_open ht with rfl | hopen
    · exact hsorted.1 now' hmem
    · exact hp.2 now' hmem t hopen

theorem Sim.handle {s : CircuitBreakerArbiter ρ} {b : BackendId} {p : Phase} {ev : Event}
    (h : Sim s.cfg (s.arbiter.cell b) p) (hp : ∀ now ∈ ev.times, p.Before now) (hsorted : ev.times.Pairwise (· ≤ ·)) :
    Sim s.cfg ((s.handle ev).arbiter.cell b) ((ev.seen b).foldl (Phase.next s.cfg) p) := by
  cases ev with
  | route req looks signals =>
    have hsub := timesOf_sublist b looks
    have hvisit := h.looks (fun now hnow => hp now (hsub.subset hnow)) (hsorted.sublist hsub)
    rw [← cell_visit] at hvisit
    simp only [CircuitBreakerArbiter.handle, CircuitBreakerArbiter.route]
    unfold countDecision
    split
    · rw [cell_countProbe]
      split
      · exact hvisit.probe
      · exact hvisit
    · exact hvisit
  | onResponse decision outcome now =>
    simp only [CircuitBreakerArbiter.handle, CircuitBreakerArbiter.onResponse, Event.seen]
    rw [cell_onOutcome]
    by_cases hb : b = outcome.backend
    · rw [if_pos hb, if_pos hb.symm]
      exact h.record _ now
    · rw [if_neg hb, if_neg (Ne.symm hb)]
      exact h

theorem Sim.run {s : CircuitBreakerArbiter ρ} {b : BackendId} {p : Phase} {events : List Event}
    (h : Sim s.cfg (s.arbiter.cell b) p) (hp : ∀ now ∈ events.flatMap Event.times, p.Before now)
    (hsorted : (events.flatMap Event.times).Pairwise (· ≤ ·)) :
    Sim s.cfg ((events.foldl CircuitBreakerArbiter.handle s).arbiter.cell b)
      ((events.flatMap (Event.seen b)).foldl (Phase.next s.cfg) p) := by
  induction events generalizing s p with
  | nil => exact h
  | cons ev events ih =>
    have hcfg : (s.handle ev).cfg = s.cfg := by cases ev <;> rfl
    rw [List.flatMap_cons] at hp hsorted
    obtain ⟨hev, hrest, hle⟩ := List.pairwise_append.mp hsorted
    rw [List.foldl_cons, List.flatMap_cons, List.foldl_append]
    have hstep := h.handle (fun now hnow => hp now (List.mem_append_left _ hnow)) hev
    rw [← hcfg] at hstep ⊢
    refine ih hstep (fun now hnow => ?_) hrest
    apply before_foldl
    · exact hp now (List.mem_append_right _ hnow)
    · intro e he
      exact hle _ (time_mem_of_seen he) now hnow

/-- **The breaker is the automaton.** After each history, over any inner router and at instants that do
not go back, the packed state of each backend is the state of the automaton that saw the backend's
own events alone. One more failure does not overflow the count. -/
theorem state_eq_packed (inner : ρ) (cfg : CircuitBreakerConfig) (events : List Event)
    (hsorted : (events.flatMap Event.times).Pairwise (· ≤ ·)) (b : BackendId) :
    let s := events.foldl CircuitBreakerArbiter.handle ⟨inner, cfg, {}⟩
    let breaker := (s.arbiter.breakers b).getD {}
    breaker.state = ((events.flatMap (Event.seen b)).foldl (Phase.next cfg) (.closed 0)).packed ∧
      breaker.failures.toNat + 1 < 2 ^ 32 := by
  intro s breaker
  have hinit : Sim cfg (Arbiter.cell {} b) (.closed 0) := sim_closed rfl (by omega)
  have hbefore : ∀ now ∈ events.flatMap Event.times, (Phase.closed 0).Before now := by
    rintro now - t ⟨⟩
  have hsim : Sim cfg (s.arbiter.cell b) _ := @Sim.run ρ _ ⟨inner, cfg, {}⟩ b _ events hinit hbefore hsorted
  refine ⟨hsim.state, ?_⟩
  have hfail : breaker.failures = (s.arbiter.cell b).failures := rfl
  generalize (events.flatMap (Event.seen b)).foldl (Phase.next cfg) (.closed 0) = p at hsim
  rw [hfail]
  cases p with
  | closed n =>
    obtain ⟨heq, hn⟩ := hsim.failures
    rw [heq, UInt32.toNat_ofNat']
    omega
  | «open» t => simp [Cell.failures, hsim.state, Phase.packed, unpack_pack]
  | halfOpen => simp [Cell.failures, hsim.state, Phase.packed, unpack_pack]

/-- Two backends take turns. The second failure of the first one opens it, and the call of `route` ten
nanoseconds later makes it half-open. The other one has one failure. -/
def twoBackends : List Event :=
  let fail := fun b now => Event.onResponse (.send b) ⟨b, some ⟨500⟩, 0, true⟩ now
  let look := fun now => Event.route ⟨.empty⟩ [(⟨0⟩, now), (⟨1⟩, now)] ⟨[]⟩
  [fail ⟨0⟩ 0, fail ⟨1⟩ 1, fail ⟨0⟩ 2, look 11, look 12]

theorem state_eq_packed_twoBackends :
    let s : CircuitBreakerArbiter RoundRobinRouter := ⟨{}, ⟨2, 10, 1⟩, {}⟩
    let s' := twoBackends.foldl CircuitBreakerArbiter.handle s
    ((s'.arbiter.breakers ⟨0⟩).getD {}).state = Phase.halfOpen.packed ∧
      ((s'.arbiter.breakers ⟨1⟩).getD {}).state = (Phase.closed 1).packed := by
  have hsorted : (twoBackends.flatMap Event.times).Pairwise (· ≤ ·) := by decide
  exact ⟨(state_eq_packed ({} : RoundRobinRouter) ⟨2, 10, 1⟩ twoBackends hsorted ⟨0⟩).1,
    (state_eq_packed ({} : RoundRobinRouter) ⟨2, 10, 1⟩ twoBackends hsorted ⟨1⟩).1⟩

end Riftgate.Circuit
