import Riftgate.Automaton
import Riftgate.Breaker
import Riftgate.Lib.Machine

/-!
# Late outcomes

`record_outcome` is told a backend and a result, and not which request they belong to. A request that
was let through before the breaker opened can report while it is half-open.
-/

open Lib

namespace Riftgate.Circuit

open Router

variable {ρ : Type} [Router ρ]

/-! ## Requests that are out -/

/-- A request that `route` has answered. `owed` are the targets that have not reported. `period` has the
number of resets at that time for each backend that was half-open. The program keeps none of this. -/
structure Pending where
  decision : RoutingDecision
  owed : List BackendId
  period : BackendId → Option Nat

structure Served (ρ : Type) where
  breaker : CircuitBreakerArbiter ρ
  pending : List Pending := []

/-- An outcome is that of the request with this index. -/
inductive Call where
  | route (req : Request) (looks : List (BackendId × Nat)) (signals : BackendSignals)
  | outcome (k : Nat) (outcome : Outcome) (now : Nat)

def periodOf (a : Arbiter) (b : BackendId) : Option Nat :=
  if a.stateOf b = .halfOpen then some (a.resets b) else none

def Served.step (s : Served ρ) : Call → Option (Served ρ)
  | .route req looks signals =>
    let (breaker, decision) := s.breaker.route req looks signals
    some ⟨breaker, s.pending ++ [⟨decision, targets decision, periodOf breaker.arbiter⟩]⟩
  | .outcome k o now =>
    match s.pending[k]? with
    | none => none
    | some p =>
      if o.backend ∈ p.owed then
        some ⟨s.breaker.onResponse p.decision o now, s.pending.set k { p with owed := p.owed.erase o.backend }⟩
      else none

def served (inner : ρ) (cfg : CircuitBreakerConfig) : Machine (Served ρ) Call where
  init := ⟨⟨inner, cfg, {}⟩, []⟩
  step := Served.step

def Served.arbiter (s : Served ρ) : Arbiter := s.breaker.arbiter

/-- A backend leaves `HalfOpen` only by an outcome of a request that was routed to it in this period. -/
def ByProbe (s : Served ρ) (a : Call) (s' : Served ρ) : Prop :=
  ∀ b, s.arbiter.stateOf b = .halfOpen → s'.arbiter.stateOf b ≠ .halfOpen →
    ∃ k o now p, a = .outcome k o now ∧ o.backend = b ∧ s.pending[k]? = some p ∧ b ∈ targets p.decision ∧
      p.period b = some (s.arbiter.resets b)

/-- A call of `route` that makes a backend half-open finds no request to it that is still out. -/
def Drained (s : Served ρ) : Call → Prop
  | .route _ looks _ => ∀ look ∈ looks, Due s.breaker.cfg s.arbiter look.1 look.2 → ∀ p ∈ s.pending, look.1 ∉ p.owed
  | .outcome _ _ _ => True

/-! ## One call and one backend -/

theorem record_not_halfOpen (cfg : CircuitBreakerConfig) (c : Cell) (fails : Bool) (now : Nat) :
    (c.record cfg fails now).tag ≠ tagHalfOpen := by
  have hpack : ∀ tag n inflight since resets, tag ≠ tagHalfOpen →
      (Cell.mk (packState tag n) inflight since resets).tag ≠ tagHalfOpen := by
    intro tag n inflight since resets h
    rwa [Cell.tag, unpack_pack]
  unfold Cell.record
  split_ifs with hclosed _ _ _ hhalf
  · exact hpack _ _ _ _ _ (by decide)
  · exact hpack _ _ _ _ _ (by decide)
  · exact hpack _ _ _ _ _ (by decide)
  · rw [hclosed]
    decide
  · exact hpack _ _ _ _ _ (by decide)
  · exact hpack _ _ _ _ _ (by decide)
  · exact hhalf

theorem countDecision_cell (a : Arbiter) (d : RoutingDecision) (b : BackendId) :
    ((countDecision a d).cell b).tag = (a.cell b).tag ∧ ((countDecision a d).cell b).resets = (a.cell b).resets := by
  unfold countDecision
  split
  · rw [cell_countProbe, Cell.probe]
    split_ifs
    · exact ⟨rfl, rfl⟩
    · exact ⟨rfl, rfl⟩
    · exact ⟨rfl, rfl⟩
  · exact ⟨rfl, rfl⟩

theorem route_cell (s : CircuitBreakerArbiter ρ) (req : Request) (looks : List (BackendId × Nat))
    (signals : BackendSignals) (b : BackendId) :
    let c := (s.route req looks signals).1.arbiter.cell b
    (c.tag = tagHalfOpen ∧ ∃ now, (b, now) ∈ looks ∧ Due s.cfg s.arbiter b now) ∨
      (c.tag = (s.arbiter.cell b).tag ∧ c.resets = (s.arbiter.cell b).resets) := by
  intro c
  obtain ⟨htag, hres⟩ := countDecision_cell (visit s.cfg s.arbiter looks)
    (s.route req looks signals).2 b
  rcases visit_cases s.cfg s.arbiter b looks with ⟨hdue, hhalf, -⟩ | ⟨-, hsame⟩
  · exact Or.inl ⟨htag.trans hhalf, hdue⟩
  · rw [hsame] at htag hres
    exact Or.inr ⟨htag, hres⟩

/-! ## The invariant -/

/-- Each request that is owed by a half-open backend was routed in this period. -/
structure Owed (s : Served ρ) : Prop where
  target : ∀ p ∈ s.pending, ∀ b ∈ p.owed, b ∈ targets p.decision
  period : ∀ p ∈ s.pending, ∀ b ∈ p.owed, s.arbiter.stateOf b = .halfOpen → p.period b = some (s.arbiter.resets b)

theorem owed_route {s : Served ρ} {req : Request} {looks : List (BackendId × Nat)} {signals : BackendSignals}
    {s' : Served ρ} (h : Owed s) (hd : Drained s (.route req looks signals))
    (hs : s.step (.route req looks signals) = some s') : Owed s' := by
  cases hs
  constructor
  · intro p hp b hb
    rcases List.mem_append.mp hp with hp | hp
    · exact h.target p hp b hb
    · rw [List.mem_singleton.mp hp] at hb ⊢
      exact hb
  · intro p hp b hb hhalf
    rcases List.mem_append.mp hp with hp | hp
    · -- an old request: its backend was not due, so it is as before
      rw [stateOf_halfOpen_cell] at hhalf
      rcases route_cell s.breaker req looks signals b with ⟨-, now, hmem, hdue⟩ | ⟨htag, hres⟩
      · exact absurd hb (hd (b, now) hmem hdue p hp)
      · have hold : s.arbiter.stateOf b = .halfOpen := stateOf_halfOpen_cell.mpr (htag.symm.trans hhalf)
        rw [h.period p hp b hb hold, resets_cell, resets_cell]
        exact congrArg some hres.symm
    · rw [List.mem_singleton.mp hp]
      exact if_pos hhalf

theorem owed_outcome {s s' : Served ρ} {k : Nat} {o : Outcome} {now : Nat} (h : Owed s)
    (hs : s.step (.outcome k o now) = some s') : Owed s' := by
  simp only [Served.step] at hs
  split at hs
  · cases hs
  · rename_i p hp
    have hmem : p ∈ s.pending := List.mem_of_getElem? hp
    split at hs <;> cases hs
    -- what is owed now was owed before
    have hold : ∀ p' ∈ s.pending.set k { p with owed := p.owed.erase o.backend }, ∀ b ∈ p'.owed,
        ∃ q ∈ s.pending, b ∈ q.owed ∧ q.decision = p'.decision ∧ q.period = p'.period := by
      intro p' hp' b hb
      rcases List.mem_or_eq_of_mem_set hp' with hp' | rfl
      · exact ⟨p', hp', hb, rfl, rfl⟩
      · exact ⟨p, hmem, List.mem_of_mem_erase hb, rfl, rfl⟩
    constructor
    · intro p' hp' b hb
      obtain ⟨q, hq, hbq, hdec, -⟩ := hold p' hp' b hb
      rw [← hdec]
      exact h.target q hq b hbq
    · intro p' hp' b hb hhalf
      obtain ⟨q, hq, hbq, -, hper⟩ := hold p' hp' b hb
      rw [stateOf_halfOpen_cell] at hhalf
      have hcell := cell_onOutcome s.breaker.cfg s.arbiter o now b
      by_cases hb : b = o.backend
      · rw [if_pos hb] at hcell
        have hnot := record_not_halfOpen s.breaker.cfg (s.arbiter.cell b) (outcomeFails o) now
        rw [← hcell] at hnot
        exact absurd hhalf hnot
      · rw [if_neg hb] at hcell
        have hsame : (onOutcome s.breaker.cfg s.arbiter o now).resets b = s.arbiter.resets b := by
          rw [resets_cell, resets_cell, hcell]
        rw [← hper]
        refine (h.period q hq b hbq (stateOf_halfOpen_cell.mpr ?_)).trans (congrArg some hsame.symm)
        rw [← hcell]
        exact hhalf

theorem owed_reach {inner : ρ} {cfg : CircuitBreakerConfig} {s : Served ρ} (hs : (served inner cfg).Reach Drained s) :
    Owed s := by
  apply Machine.Reach.invariant _ _ hs
  · constructor <;> simp [served]
  · intro s a s' _ h hd hstep
    cases a with
    | route req looks signals => exact owed_route h hd hstep
    | outcome k o now => exact owed_outcome h hstep

/-! ## Who decides -/

/-- **Only probes decide.** In each run in which no breaker becomes half-open while a request to its
backend is out, each step that ends a half-open period is the outcome of a request that was routed to
the backend in that period. -/
theorem halfOpen_decided_byProbe (inner : ρ) (cfg : CircuitBreakerConfig) (s : Served ρ)
    (hs : (served inner cfg).Reach Drained s) (a : Call) (s' : Served ρ) (hstep : s.step a = some s') :
    ByProbe s a s' := by
  have howed := owed_reach hs
  intro b hhalf hafter
  rw [stateOf_halfOpen_cell] at hhalf
  rw [Ne, stateOf_halfOpen_cell] at hafter
  cases a with
  | route req looks signals =>
    cases hstep
    rcases route_cell s.breaker req looks signals b with ⟨htag, -⟩ | ⟨htag, -⟩
    · exact absurd htag hafter
    · exact absurd (htag.trans hhalf) hafter
  | outcome k o now =>
    simp only [Served.step] at hstep
    split at hstep
    · cases hstep
    · rename_i p hp
      split at hstep <;> cases hstep
      rename_i hmem
      have hcell := cell_onOutcome s.breaker.cfg s.arbiter o now b
      by_cases hb : b = o.backend
      · subst hb
        have hp' := List.mem_of_getElem? hp
        refine ⟨k, o, now, p, rfl, rfl, hp, howed.target p hp' _ hmem, ?_⟩
        exact howed.period p hp' _ hmem (stateOf_halfOpen_cell.mpr hhalf)
      · rw [if_neg hb] at hcell
        refine absurd ?_ hafter
        exact (congrArg Cell.tag hcell).trans hhalf

/-! ## Two runs -/

/-- A check that is enough: no request to a backend of the pool is out. -/
def drained (s : Served ρ) : Call → Bool
  | .route _ looks _ => looks.all fun look => s.pending.all fun p => decide (look.1 ∉ p.owed)
  | .outcome _ _ _ => true

omit [Router ρ] in
theorem drained_of_check (s : Served ρ) (a : Call) (h : drained s a = true) : Drained s a := by
  cases a with
  | route req looks signals =>
    intro look hlook _ p hp
    have hall := List.all_eq_true.mp (List.all_eq_true.mp h look hlook) p hp
    exact of_decide_eq_true hall
  | outcome k o now => trivial

def routeTo (b : BackendId) (now : Nat) : Call := .route ⟨.empty⟩ [(b, now)] ⟨[]⟩

def report (k : Nat) (b : BackendId) (ok : Bool) (now : Nat) : Call := .outcome k ⟨b, some ⟨200⟩, 0, ok⟩ now

def closes (s : Served ρ) (a : Call) (b : BackendId) : Bool :=
  decide (s.arbiter.stateOf b = .halfOpen) && (s.step a).any fun s' => decide (s'.arbiter.stateOf b = .closed)

theorem of_closes {s : Served ρ} {a : Call} {b : BackendId} (h : closes s a b = true) :
    s.arbiter.stateOf b = .halfOpen ∧ ∃ s', s.step a = some s' ∧ s'.arbiter.stateOf b = .closed := by
  rw [closes, Bool.and_eq_true, decide_eq_true_eq, Option.any_eq_true] at h
  obtain ⟨hhalf, s', hs', hclosed⟩ := h
  exact ⟨hhalf, s', hs', of_decide_eq_true hclosed⟩

/-- The request that failed has reported before the probe goes out. -/
theorem halfOpen_decided_byProbe_drained :
    let b : BackendId := ⟨0⟩
    ∃ s s', (served ({} : RoundRobinRouter) ⟨1, 10, 1⟩).Reach Drained s ∧ s.arbiter.stateOf b = .halfOpen ∧
      s.step (report 1 b true 12) = some s' ∧ s'.arbiter.stateOf b = .closed ∧ ByProbe s (report 1 b true 12) s' := by
  intro b
  have hrun : (((served ({} : RoundRobinRouter) ⟨1, 10, 1⟩).restrict drained).run
      [routeTo b 0, report 0 b false 1, routeTo b 11]).map (fun s => closes s (report 1 b true 12) b) = some true := by
    decide
  obtain ⟨s, hs, hp⟩ := Machine.exists_of_restrict (fun s a _ => drained_of_check s a) hrun
  obtain ⟨hhalf, s', hs', hclosed⟩ := of_closes hp
  exact ⟨s, s', hs, hhalf, hs', hclosed, halfOpen_decided_byProbe _ _ s hs _ s' hs'⟩

/-- Two requests go out while the breaker is closed. The first one fails and opens it. A probe goes
out, and then the second one succeeds: it closes the breaker, and the probe has not reported. -/
theorem halfOpen_decided_late :
    let b : BackendId := ⟨0⟩
    ∃ s s', (served ({} : RoundRobinRouter) ⟨1, 10, 1⟩).Reachable s ∧ s.step (report 1 b true 12) = some s' ∧
      ¬ ByProbe s (report 1 b true 12) s' := by
  intro b
  have hrun : ((served ({} : RoundRobinRouter) ⟨1, 10, 1⟩).run
      [routeTo b 0, routeTo b 0, report 0 b false 1, routeTo b 11]).map
      (fun s => closes s (report 1 b true 12) b && decide (s.pending[1]?.map (fun p => p.period b) = some none)) =
      some true := by decide
  obtain ⟨s, hs, hp⟩ := Machine.exists_of_run hrun
  rw [Bool.and_eq_true, decide_eq_true_eq] at hp
  obtain ⟨hhalf, s', hs', hclosed⟩ := of_closes hp.1
  refine ⟨s, s', hs, hs', fun hprobe => ?_⟩
  obtain ⟨k, o, now, p, heq, -, hk, -, hperiod⟩ := hprobe b hhalf (by rw [hclosed]; decide)
  cases heq
  have hnone := hp.2
  rw [hk, Option.map_some, hperiod] at hnone
  cases hnone

end Riftgate.Circuit
