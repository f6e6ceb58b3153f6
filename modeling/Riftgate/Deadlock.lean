import Riftgate.Breaker

/-!
# The two mutexes of the circuit breaker

`maybe_transition_open_to_halfopen` and `record_outcome` take them in opposite orders, so two
threads can wait for each other.
-/

open Lib

namespace Riftgate.Circuit

open Router

/-! ## The cycle -/

inductive Mutex where
  | breakers
  | transitionedAt
  deriving DecidableEq, Repr

def Pc.held : Pc → List Mutex
  | .holdTransitioned _ _ _ | .dropTransitioned _ => [.transitionedAt]
  | .holdBoth _ _ _ | .recHoldBoth _ => [.transitionedAt, .breakers]
  | .recHoldBreakers _ | .recDropBreakers _ => [.breakers]
  | _ => []

def Pc.wanted : Pc → Option Mutex
  | .wantTransitioned _ _ _ | .recHoldBreakers _ => some .transitionedAt
  | .holdTransitioned _ _ _ | .ensure _ _ | .build _ | .probe _ | .recEnsure _ | .recWantBreakers _ => some .breakers
  | _ => none

/-- One thread holds `transitioned_at` and waits for `breakers`, another the other way around. -/
def Deadlock (s : Threads) : Prop :=
  ∃ t u, Mutex.transitionedAt ∈ (s.pcs t).held ∧ (s.pcs t).wanted = some .breakers ∧
    Mutex.breakers ∈ (s.pcs u).held ∧ (s.pcs u).wanted = some .transitionedAt

/-! ## Where the two waits are -/

theorem waits_breakers_iff (pc : Pc) :
    (Mutex.transitionedAt ∈ pc.held ∧ pc.wanted = some .breakers) ↔ ∃ r b now, pc = .holdTransitioned r b now := by
  cases pc <;> simp [Pc.held, Pc.wanted]

theorem waits_transitioned_iff (pc : Pc) :
    (Mutex.breakers ∈ pc.held ∧ pc.wanted = some .transitionedAt) ↔ ∃ o, pc = .recHoldBreakers o := by
  cases pc <;> simp [Pc.held, Pc.wanted]

theorem deadlock_iff (s : Threads) :
    Deadlock s ↔ (∃ t r b now, s.pcs t = .holdTransitioned r b now) ∧ ∃ u o, s.pcs u = .recHoldBreakers o := by
  unfold Deadlock
  simp only [← waits_breakers_iff, ← waits_transitioned_iff]
  constructor
  · rintro ⟨t, u, ht, ht', hu, hu'⟩
    exact ⟨⟨t, ht, ht'⟩, u, hu, hu'⟩
  · rintro ⟨⟨t, ht, ht'⟩, u, hu, hu'⟩
    exact ⟨t, u, ht, ht', hu, hu'⟩

theorem next_ne_hold (r r' : RouteArgs) (b : BackendId) (now : Nat) : r.next ≠ .holdTransitioned r' b now := by
  unfold RouteArgs.next
  split <;> simp

theorem next_ne_recHold (r : RouteArgs) (o : Outcome) : r.next ≠ .recHoldBreakers o := by
  unfold RouteArgs.next
  split <;> simp

theorem afterInner_ne (d : RoutingDecision) :
    (∀ r b now, afterInner d ≠ .holdTransitioned r b now) ∧ ∀ o, afterInner d ≠ .recHoldBreakers o := by
  unfold afterInner
  split <;> simp

theorem moves_hold {cfg : CircuitBreakerConfig} {t : Nat} {sh sh' : Shared} {pc pc' : Pc} {m : Move} {r : RouteArgs}
    {b : BackendId} {now : Nat} (h : Moves cfg t sh pc m sh' pc') (hpc : pc' = .holdTransitioned r b now) :
    pc = .wantTransitioned r b now ∧ m = .go := by
  cases h with
  | takeTransitioned r' b' now' h => cases hpc; exact ⟨rfl, rfl⟩
  | dropTransitioned r' => exact absurd hpc (next_ne_hold _ _ _ _)
  | inner merged d => exact absurd hpc ((afterInner_ne d).1 _ _ _)
  | _ => cases hpc

theorem moves_recHold {cfg : CircuitBreakerConfig} {t : Nat} {sh sh' : Shared} {pc pc' : Pc} {m : Move} {o : Outcome}
    (h : Moves cfg t sh pc m sh' pc') (hpc : pc' = .recHoldBreakers o) : pc = .recWantBreakers o ∧ m = .go := by
  cases h with
  | recTakeBreakers o' h => cases hpc; exact ⟨rfl, rfl⟩
  | dropTransitioned r' => exact absurd hpc (next_ne_recHold _ _)
  | inner merged d => exact absurd hpc ((afterInner_ne d).2 _)
  | _ => cases hpc

/-! ## The breaker is there -/

/-- `record_outcome` finds the breaker that it has ensured. -/
def Ensured (s : Threads) : Prop := ∀ t o, s.pcs t = .recWantBreakers o → Known s.shared.arbiter o.backend

theorem moves_recWant {cfg : CircuitBreakerConfig} {t : Nat} {sh sh' : Shared} {pc pc' : Pc} {m : Move} {o : Outcome}
    (h : Moves cfg t sh pc m sh' pc') (hpc : pc' = .recWantBreakers o) : Known sh'.arbiter o.backend := by
  cases h with
  | recEnsure o' _ =>
    cases hpc
    exact (known_setBreaker _ _ _ _).mpr (Or.inl rfl)
  | dropTransitioned r =>
    unfold RouteArgs.next at hpc
    split at hpc <;> cases hpc
  | inner merged d =>
    unfold afterInner at hpc
    split at hpc <;> cases hpc
  | _ => cases hpc

theorem startRoute_ne (pool : BackendPool) (signals : BackendSignals) :
    (∀ r b now, startRoute pool signals ≠ .holdTransitioned r b now) ∧
      (∀ o, startRoute pool signals ≠ .recHoldBreakers o) ∧ ∀ o, startRoute pool signals ≠ .recWantBreakers o := by
  unfold startRoute RouteArgs.next
  split <;> simp

theorem ensured_step {cfg : CircuitBreakerConfig} {s s' : Threads} {a : Label} (h : Ensured s)
    (hs : s.step cfg a = some s') : Ensured s' := by
  unfold Threads.step at hs
  split at hs
  · split at hs <;> cases hs
    intro t o hpc
    simp only [Function.update_apply] at hpc
    split at hpc
    · exact absurd hpc ((startRoute_ne _ _).2.2 o)
    · exact h t o hpc
  · split at hs <;> cases hs
    intro t o hpc
    simp only [Function.update_apply] at hpc
    split at hpc
    · cases hpc
    · exact h t o hpc
  · obtain ⟨r, hr, rfl⟩ := Option.map_eq_some_iff.mp hs
    have hm := moves_of_move hr
    intro t o hpc
    simp only [Function.update_apply] at hpc
    split at hpc
    · exact moves_recWant hm hpc
    · exact moves_known hm (h t o hpc)

/-! ## When there is no deadlock -/

/-- A thread takes the first of its two mutexes only when no other thread holds its own first one
and waits for this one. -/
def Ordered (s : Threads) : Label → Prop
  | .move t .go => match s.pcs t with
    | .wantTransitioned _ _ _ => ∀ u o, s.pcs u ≠ .recHoldBreakers o
    | .recWantBreakers _ => ∀ u r b now, s.pcs u ≠ .holdTransitioned r b now
    | _ => True
  | _ => True

theorem deadlock_call {s : Threads} (t : Nat) {pc : Pc} (h : ¬ Deadlock s)
    (hpc : (∀ r b now, pc ≠ .holdTransitioned r b now) ∧ ∀ o, pc ≠ .recHoldBreakers o) :
    ¬ Deadlock { s with pcs := Function.update s.pcs t pc } := by
  rw [deadlock_iff] at h ⊢
  rintro ⟨⟨u, r, b, now, hu⟩, v, o, hv⟩
  simp only [Function.update_apply] at hu hv
  split at hu
  · exact hpc.1 r b now hu
  · split at hv
    · exact hpc.2 o hv
    · exact h ⟨⟨u, r, b, now, hu⟩, v, o, hv⟩

theorem deadlock_move {cfg : CircuitBreakerConfig} {s : Threads} {t : Nat} {m : Move} {sh' : Shared} {pc' : Pc}
    (he : Ensured s) (h : ¬ Deadlock s) (hm : Moves cfg t s.shared (s.pcs t) m sh' pc') :
    ¬ Deadlock ⟨sh', Function.update s.pcs t pc'⟩ ↔ Ordered s (.move t m) := by
  rw [deadlock_iff] at h ⊢
  constructor
  · intro hno
    generalize hpc : s.pcs t = pc at hm
    have hother : ∀ u pc, s.pcs u = pc → pc ≠ s.pcs t → Function.update s.pcs t pc' u = pc := by
      rintro u pc rfl hne
      rw [Function.update_of_ne]
      rintro rfl
      exact hne rfl
    cases hm with
    | takeTransitioned r b now _ =>
      simp only [Ordered, hpc]
      intro u o hu
      apply hno
      exact ⟨⟨t, r, b, now, Function.update_self ..⟩, u, o, hother u _ hu (by simp [hpc])⟩
    | recTakeBreakers o _ =>
      simp only [Ordered, hpc]
      intro u r b now hu
      apply hno
      exact ⟨⟨u, r, b, now, hother u _ hu (by simp [hpc])⟩, t, o, Function.update_self ..⟩
    | recMissing o hb =>
      have := he t o hpc
      simp [Known, hb] at this
    | _ => simp [Ordered, hpc]
  · rintro ho ⟨⟨u, r, b, now, hu⟩, v, o, hv⟩
    simp only [Function.update_apply] at hu hv
    split at hu
    · obtain ⟨hpc, rfl⟩ := moves_hold hm hu
      split at hv
      · rw [hv] at hu
        cases hu
      · simp only [Ordered, hpc] at ho
        exact ho v o hv
    · split at hv
      · obtain ⟨hpc, rfl⟩ := moves_recHold hm hv
        simp only [Ordered, hpc] at ho
        exact ho u r b now hu
      · exact h ⟨⟨u, r, b, now, hu⟩, v, o, hv⟩

theorem deadlock_step {cfg : CircuitBreakerConfig} {s s' : Threads} {a : Label} (he : Ensured s) (h : ¬ Deadlock s)
    (hs : s.step cfg a = some s') : ¬ Deadlock s' ↔ Ordered s a := by
  unfold Threads.step at hs
  split at hs
  · split at hs <;> cases hs
    have hstart := startRoute_ne
    exact iff_of_true (deadlock_call _ h ⟨(hstart _ _).1, (hstart _ _).2.1⟩) trivial
  · split at hs <;> cases hs
    exact iff_of_true (deadlock_call _ h (by simp [startOnResponse])) trivial
  · obtain ⟨r, hr, rfl⟩ := Option.map_eq_some_iff.mp hs
    exact deadlock_move he h (moves_of_move hr)

/-- **No deadlock, exactly.** A run has no deadlock in any of its states if and only if in each of
its steps a thread that takes the first of two mutexes does not find another thread half way
through the opposite order. -/
theorem deadlock_free_iff (cfg : CircuitBreakerConfig) (as : List Label) :
    (threads cfg).Throughout (fun s => ¬ Deadlock s) (threads cfg).init as ↔
      (threads cfg).Meets Ordered (threads cfg).init as := by
  apply Machine.throughout_iff_meets (I := Ensured)
  · intro s a s' he _ hs _
    exact ensured_step he hs
  · intro s a s' he h hs
    exact deadlock_step he h hs
  · intro t o hpc
    cases hpc
  · rw [deadlock_iff]
    rintro ⟨⟨t, r, b, now, ht⟩, -⟩
    cases ht

/-- Thread 0 routes and holds `transitioned_at`. Thread 1 reports an outcome and holds `breakers`. -/
theorem deadlock_reachable :
    let b : BackendId := ⟨0⟩
    let o : Outcome := ⟨b, some ⟨200⟩, 0, true⟩
    ∃ s, (threads {}).Reachable s ∧ Deadlock s ∧ s.pcs 1 = .recHoldBreakers o := by
  intro b o
  let as : List Label := [.route 0 ⟨[b]⟩ ⟨[]⟩, .move 0 .go, .move 0 (.clock 0), .onResponse 1 o, .move 1 .go,
    .move 0 .go, .move 1 .go]
  obtain ⟨s, hs⟩ : ∃ s, (threads {}).run as = some s := ⟨_, rfl⟩
  refine ⟨s, Machine.reachable_of_run hs, ?_, ?_⟩
  · rw [deadlock_iff]
    cases hs
    exact ⟨⟨0, ⟨⟨[b]⟩, ⟨[]⟩, []⟩, b, 0, rfl⟩, 1, o, rfl⟩
  · cases hs
    rfl

end Riftgate.Circuit
