import Riftgate.Cell
import Riftgate.Code.CircuitThreads

/-!
# What a step does to the breakers

One inductive rule for each step of a thread, and the facts about the two maps that more than one
proof needs.
-/

open Lib

namespace Riftgate.Circuit

open Router

/-! ## The steps, one by one -/

/-- All that one step of a thread can do, with the guards of its mutexes. -/
inductive Moves (cfg : CircuitBreakerConfig) (t : Nat) (sh : Shared) : Pc → Move → Shared → Pc → Prop where
  | ensure (r : RouteArgs) (b : BackendId) (h : sh.breakersLock = none) :
      Moves cfg t sh (.ensure r b) .go { sh with arbiter := ensureBackend sh.arbiter b } (.readClock r b)
  | readClock (r : RouteArgs) (b : BackendId) (now : Nat) :
      Moves cfg t sh (.readClock r b) (.clock now) sh (.wantTransitioned r b now)
  | takeTransitioned (r : RouteArgs) (b : BackendId) (now : Nat) (h : sh.transitionedLock = none) :
      Moves cfg t sh (.wantTransitioned r b now) .go { sh with transitionedLock := some t } (.holdTransitioned r b now)
  | takeBreakers (r : RouteArgs) (b : BackendId) (now : Nat) (h : sh.breakersLock = none) :
      Moves cfg t sh (.holdTransitioned r b now) .go { sh with breakersLock := some t } (.holdBoth r b now)
  | transition (r : RouteArgs) (b : BackendId) (now : Nat) :
      Moves cfg t sh (.holdBoth r b now) .go
        { sh with arbiter := maybeTransitionOpenToHalfopen cfg sh.arbiter b now, breakersLock := none }
        (.dropTransitioned r)
  | dropTransitioned (r : RouteArgs) :
      Moves cfg t sh (.dropTransitioned r) .go { sh with transitionedLock := none } r.next
  | build (r : RouteArgs) (h : sh.breakersLock = none) :
      Moves cfg t sh (.build r) .go sh (.inner (buildSignals cfg sh.arbiter r.pool r.signals))
  | inner (merged : BackendSignals) (d : RoutingDecision) : Moves cfg t sh (.inner merged) (.decide d) sh (afterInner d)
  | probe (b : BackendId) (h : sh.breakersLock = none) :
      Moves cfg t sh (.probe b) .go { sh with arbiter := countProbe sh.arbiter b } (.routed (.send b))
  | recEnsure (o : Outcome) (h : sh.breakersLock = none) :
      Moves cfg t sh (.recEnsure o) .go { sh with arbiter := ensureBackend sh.arbiter o.backend } (.recWantBreakers o)
  | recMissing (o : Outcome) (hb : sh.arbiter.breakers o.backend = none) :
      Moves cfg t sh (.recWantBreakers o) .go sh (.reported o)
  | recTakeBreakers (o : Outcome) (h : sh.breakersLock = none) :
      Moves cfg t sh (.recWantBreakers o) .go { sh with breakersLock := some t } (.recHoldBreakers o)
  | recTakeTransitioned (o : Outcome) (h : sh.transitionedLock = none) :
      Moves cfg t sh (.recHoldBreakers o) .go { sh with transitionedLock := some t } (.recHoldBoth o)
  | record (o : Outcome) (br : BackendBreaker) (now : Nat) (hb : sh.arbiter.breakers o.backend = some br) :
      Moves cfg t sh (.recHoldBoth o) (.clock now)
        { sh with arbiter := recordOutcome cfg sh.arbiter o br now, transitionedLock := none } (.recDropBreakers o)
  | recDropBreakers (o : Outcome) :
      Moves cfg t sh (.recDropBreakers o) .go { sh with breakersLock := none } (.reported o)

theorem moves_of_move {cfg : CircuitBreakerConfig} {t : Nat} {sh sh' : Shared} {pc pc' : Pc} {m : Move}
    (h : move cfg t sh pc m = some (sh', pc')) : Moves cfg t sh pc m sh' pc' := by
  unfold move at h
  split at h
  · split at h <;> cases h
    exact .ensure _ _ (by assumption)
  · cases h
    exact .readClock _ _ _
  · split at h <;> cases h
    exact .takeTransitioned _ _ _ (by assumption)
  · split at h <;> cases h
    exact .takeBreakers _ _ _ (by assumption)
  · cases h
    exact .transition _ _ _
  · cases h
    exact .dropTransitioned _
  · split at h <;> cases h
    exact .build _ (by assumption)
  · cases h
    exact .inner _ _
  · split at h <;> cases h
    exact .probe _ (by assumption)
  · split at h <;> cases h
    exact .recEnsure _ (by assumption)
  · split at h
    · split at h <;> cases h
      · exact .recMissing _ (by assumption)
      · exact .recTakeBreakers _ (by assumption)
    · cases h
  · split at h <;> cases h
    exact .recTakeTransitioned _ (by assumption)
  · obtain ⟨br, hb, h⟩ := Option.map_eq_some_iff.mp h
    cases h
    exact .record _ br _ hb
  · cases h
    exact .recDropBreakers _
  · cases h

/-! ## A breaker is never removed -/

def Known (a : Arbiter) (b : BackendId) : Prop := (a.breakers b).isSome = true

theorem known_setBreaker (a : Arbiter) (b b' : BackendId) (br : BackendBreaker) :
    Known (a.setBreaker b' br) b ↔ b = b' ∨ Known a b := by
  simp only [Known, Arbiter.setBreaker, Function.update_apply]
  split <;> simp_all

theorem known_reset (a : Arbiter) (b b' : BackendId) (tag : UInt32) :
    Known (a.reset b' tag) b ↔ b = b' ∨ Known a b := known_setBreaker a b b' _

theorem known_setInstant (a : Arbiter) (b b' : BackendId) (now : Nat) :
    Known (a.setInstant b' now) b ↔ Known a b := Iff.rfl

theorem known_transition {cfg : CircuitBreakerConfig} {a : Arbiter} {b : BackendId} (b' : BackendId) (now : Nat)
    (h : Known a b) : Known (maybeTransitionOpenToHalfopen cfg a b' now) b := by
  unfold maybeTransitionOpenToHalfopen
  split
  · split
    · rw [known_setInstant, known_reset]
      exact Or.inr h
    · exact h
  · exact h

theorem known_countProbe {a : Arbiter} {b : BackendId} (b' : BackendId) (h : Known a b) :
    Known (countProbe a b') b := by
  unfold countProbe
  split
  · exact h
  · split
    · rw [known_setBreaker]
      exact Or.inr h
    · exact h

theorem known_recordOutcome {cfg : CircuitBreakerConfig} {a : Arbiter} {b : BackendId} (o : Outcome)
    (br : BackendBreaker) (now : Nat) (h : Known a b) : Known (recordOutcome cfg a o br now) b := by
  unfold recordOutcome
  simp only
  split_ifs <;> simp only [known_setInstant, known_setBreaker, known_reset, h, or_true]

theorem moves_known {cfg : CircuitBreakerConfig} {t : Nat} {sh sh' : Shared} {pc pc' : Pc} {m : Move}
    (hm : Moves cfg t sh pc m sh' pc') {b : BackendId} (h : Known sh.arbiter b) : Known sh'.arbiter b := by
  cases hm with
  | ensure r b' _ => exact (known_setBreaker _ _ _ _).mpr (Or.inr h)
  | transition r b' now => exact known_transition b' now h
  | probe b' _ => exact known_countProbe b' h
  | recEnsure o _ => exact (known_setBreaker _ _ _ _).mpr (Or.inr h)
  | record o br now _ => exact known_recordOutcome o br now h
  | _ => exact h

/-! ## Half-open backends and their probe counter -/

def HalfOpen (a : Arbiter) (b : BackendId) : Prop := ∃ br, a.breakers b = some br ∧ br.tag = tagHalfOpen

theorem stateOf_halfOpen_iff {a : Arbiter} {b : BackendId} : a.stateOf b = .halfOpen ↔ HalfOpen a b := by
  unfold Arbiter.stateOf HalfOpen
  cases h : a.breakers b with
  | none => simp
  | some br => simp [tagToState_halfOpen_iff]

/-- All steps but the count of a probe are like this. Either the counter of a backend is set to 0 by
a transition, or the backend keeps its counter and stays in or out of `HalfOpen`. -/
def Steady (a a' : Arbiter) : Prop :=
  ∀ b, (a'.resets b = a.resets b ∧ a'.inflight b = a.inflight b ∧ (HalfOpen a' b ↔ HalfOpen a b)) ∨
    (a'.resets b = a.resets b + 1 ∧ a'.inflight b = 0)

theorem Steady.refl (a : Arbiter) : Steady a a := fun _ => Or.inl ⟨rfl, rfl, Iff.rfl⟩

theorem steady_resets {a a' : Arbiter} (h : Steady a a') (b : BackendId) : a.resets b ≤ a'.resets b := by
  rcases h b with ⟨h, -, -⟩ | ⟨h, -⟩ <;> omega

/-- The same for the entries of one backend. -/
def Cell.Steady (c c' : Cell) : Prop :=
  (c'.resets = c.resets ∧ c'.inflight = c.inflight ∧ (c'.tag = tagHalfOpen ↔ c.tag = tagHalfOpen)) ∨
    (c'.resets = c.resets + 1 ∧ c'.inflight = 0)

theorem halfOpen_cell {a : Arbiter} {b : BackendId} : HalfOpen a b ↔ (a.cell b).tag = tagHalfOpen := by
  rw [← stateOf_halfOpen_iff, stateOf_halfOpen_cell]

theorem inflight_cell (a : Arbiter) (b : BackendId) : a.inflight b = (a.cell b).inflight := by
  unfold Arbiter.inflight Arbiter.cell
  cases a.breakers b with
  | none => rfl
  | some br => rfl

theorem steady_of_cells {a a' : Arbiter} (h : ∀ b, (a.cell b).Steady (a'.cell b)) : Steady a a' := by
  intro b
  simp only [halfOpen_cell, inflight_cell, resets_cell]
  exact h b

theorem Cell.Steady.refl (c : Cell) : c.Steady c := Or.inl ⟨rfl, rfl, Iff.rfl⟩

theorem cell_steady_reset (c : Cell) (tag : UInt32) (since : Option Nat) : c.Steady (c.reset tag since) :=
  Or.inr ⟨rfl, rfl⟩

theorem cell_steady_look (cfg : CircuitBreakerConfig) (c : Cell) (now : Nat) : c.Steady (c.look cfg now) := by
  by_cases h : c.Due cfg now
  · rw [look_due h]
    exact cell_steady_reset c _ _
  · rw [look_not_due h]
    exact .refl c

theorem cell_steady_record (cfg : CircuitBreakerConfig) (c : Cell) (fails : Bool) (now : Nat) :
    c.Steady (c.record cfg fails now) := by
  -- a closed breaker stays out of `HalfOpen` and keeps its counter
  have hset : c.tag = tagClosed → ∀ tag n since, tag ≠ tagHalfOpen →
      c.Steady { c with state := packState tag n, since := since } := by
    intro hclosed tag n since htag
    refine Or.inl ⟨rfl, rfl, ?_⟩
    rw [Cell.tag, unpack_pack, hclosed]
    exact iff_of_false htag tagHalfOpen_ne_closed.symm
  unfold Cell.record
  split_ifs with hclosed hfail hopens hpos hhalf hfail
  · exact hset hclosed _ _ _ (by decide)
  · exact hset hclosed _ _ _ tagHalfOpen_ne_closed.symm
  · exact hset hclosed _ _ _ tagHalfOpen_ne_closed.symm
  · exact .refl c
  · exact cell_steady_reset c _ _
  · exact cell_steady_reset c _ _
  · exact .refl c

theorem steady_ensure (a : Arbiter) (b : BackendId) : Steady a (ensureBackend a b) := by
  apply steady_of_cells
  intro b'
  rw [cell_ensure]
  exact .refl _

theorem steady_transition (cfg : CircuitBreakerConfig) (a : Arbiter) (b : BackendId) (now : Nat) :
    Steady a (maybeTransitionOpenToHalfopen cfg a b now) := by
  apply steady_of_cells
  intro b'
  rw [cell_transition]
  split
  · exact cell_steady_look cfg _ now
  · exact .refl _

theorem steady_record (cfg : CircuitBreakerConfig) (a : Arbiter) (o : Outcome) (br : BackendBreaker) (now : Nat)
    (hbr : a.breakers o.backend = some br) : Steady a (recordOutcome cfg a o br now) := by
  apply steady_of_cells
  intro b'
  rw [cell_recordOutcome now hbr]
  split
  · exact cell_steady_record cfg _ _ now
  · exact .refl _

theorem record_halfOpen {cfg : CircuitBreakerConfig} {a : Arbiter} {o : Outcome} {br : BackendBreaker} {now : Nat}
    (htag : br.tag = tagHalfOpen) :
    (recordOutcome cfg a o br now).resets o.backend = a.resets o.backend + 1 := by
  have hne : ¬ br.tag = tagClosed := by
    rw [htag]
    exact tagHalfOpen_ne_closed
  unfold recordOutcome
  simp only [if_neg hne, if_pos htag]
  split <;> simp [Arbiter.reset, Arbiter.setBreaker, Arbiter.setInstant]

theorem moves_steady {cfg : CircuitBreakerConfig} {t : Nat} {sh sh' : Shared} {pc pc' : Pc} {m : Move}
    (h : Moves cfg t sh pc m sh' pc') (hpc : ∀ b, pc ≠ .probe b) : Steady sh.arbiter sh'.arbiter := by
  cases h with
  | ensure r b _ => exact steady_ensure _ _
  | transition r b now => exact steady_transition _ _ _ _
  | probe b _ => exact absurd rfl (hpc b)
  | recEnsure o _ => exact steady_ensure _ _
  | record o br now hb => exact steady_record _ _ _ _ _ hb
  | _ => exact .refl _

theorem countProbe_closed {a : Arbiter} {b : BackendId} (h : ¬ HalfOpen a b) : countProbe a b = a := by
  unfold countProbe
  split
  · rfl
  · rename_i br hbr
    rw [if_neg]
    intro htag
    exact h ⟨br, hbr, htag⟩

theorem countProbe_halfOpen {a : Arbiter} {b : BackendId} (h : HalfOpen a b) :
    (countProbe a b).resets = a.resets ∧ (∀ b', HalfOpen (countProbe a b) b' ↔ HalfOpen a b') ∧
      ∀ b', (countProbe a b).inflight b' = if b' = b then a.inflight b + 1 else a.inflight b' := by
  obtain ⟨br, hbr, htag⟩ := h
  have hset : countProbe a b = a.setBreaker b { br with halfOpenInflight := br.halfOpenInflight + 1 } := by
    simp [countProbe, hbr, htag]
  rw [hset]
  refine ⟨rfl, fun b' => ?_, fun b' => ?_⟩
  · by_cases hb : b' = b
    · subst hb
      simp only [HalfOpen, Arbiter.setBreaker, Function.update_self, hbr, Option.some.injEq, exists_eq_left']
      rfl
    · simp [HalfOpen, Arbiter.setBreaker, hb]
  · by_cases hb : b' = b
    · subst hb
      simp [Arbiter.inflight, Arbiter.setBreaker, hbr]
    · simp [Arbiter.inflight, Arbiter.setBreaker, hb]

/-! ## What the inner router is shown, and what it answers -/

def targets : RoutingDecision → List BackendId
  | .send b => [b]
  | .hedge bs => bs
  | .reject _ => []

theorem le_foldl_max (l : List Nat) (m : Nat) : m ≤ l.foldl max m ∧ ∀ n ∈ l, n ≤ l.foldl max m := by
  induction l generalizing m with
  | nil => simp
  | cons k l ih =>
    obtain ⟨h1, h2⟩ := ih (max m k)
    rw [List.foldl_cons]
    refine ⟨by omega, fun n hn => ?_⟩
    rcases List.mem_cons.mp hn with rfl | hn
    · omega
    · exact h2 n hn

theorem buildSignals_get {cfg : CircuitBreakerConfig} {a : Arbiter} {pool : BackendPool} {b : BackendId}
    (signals : BackendSignals) (hb : b ∈ pool.backends) :
    (buildSignals cfg a pool signals).get b = signalOf cfg a signals b := by
  have hle := (le_foldl_max (pool.backends.map fun b => b.id.toNat) 0).2 b.id.toNat (List.mem_map_of_mem hb)
  have hfind : pool.backends.find? (fun c => c.id.toNat = b.id.toNat) = some b := by
    cases h : pool.backends.find? (fun c => c.id.toNat = b.id.toNat) with
    | none =>
      have := List.find?_eq_none.mp h b hb
      simp at this
    | some c =>
      have hc := List.find?_some h
      rw [decide_eq_true_eq, UInt16.toNat_inj] at hc
      rw [Option.some.injEq]
      cases c
      cases b
      simp_all
  unfold buildSignals BackendSignals.get
  simp only
  rw [List.getElem?_map, List.getElem?_range (by omega), Option.map_some, Option.getD_some, hfind]

end Riftgate.Circuit
