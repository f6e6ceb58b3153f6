import Riftgate.Requests

/-!
# Client errors and the breaker

The handler reports `ok` for 2xx answers alone, and the breaker counts each outcome that is not
`ok`. So a 3xx or a 404 counts.
-/

open Lib

namespace Riftgate.Gateway

open Router Circuit Proxy

/-! ## Runs with ordinary answers -/

def ordinaryStatus (status : UInt16) : Bool := decide (status < 500) && status ≠ 408 && status ≠ 429

/-- The upstream may fail or time out, but each of its answers has an ordinary status. -/
def ordinary (_ : State) : Label → Bool
  | .upstream _ (.response status _) _ => ordinaryStatus status
  | _ => true

def ordinaryGateway (cfg : CircuitBreakerConfig) : Machine State Label := (gateway cfg).restrict ordinary

def AllClosed (a : Arbiter) : Prop := ∀ b br, a.breakers b = some br → br.tag = tagClosed ∧ br.failures = 0

/-- A request that records its outcome now got a 2xx answer. -/
def RecordsSuccess (s : State) : Label → Prop
  | .move k (.clock _) => ∀ r b o, s.requests[k]? = some r → r.phase = .reporting b (.recHoldBoth o) →
      ∃ status, o.status = some ⟨status⟩ ∧ isSuccess status = true
  | _ => True

theorem countsAsFailure_ordinary {status : UInt16} (h : ordinaryStatus status = true) :
    countsAsFailure ⟨status⟩ = false := by
  unfold ordinaryStatus at h
  unfold countsAsFailure
  simp only [Bool.and_eq_true, decide_eq_true_eq, ne_eq] at h
  obtain ⟨⟨hlt, h408⟩, h429⟩ := h
  simp only [Bool.or_eq_false_iff, decide_eq_false_iff_not]
  exact ⟨⟨UInt16.not_le.mpr hlt, h408⟩, h429⟩

/-! ## What a request reports -/

def Built (o : Outcome) : Prop :=
  ∃ b status duration, o = buildOutcome b status duration ∧ ordinaryStatus status = true

theorem outcomeFails_built {o : Outcome} (h : Built o) :
    outcomeFails o = false ↔ ∃ status, o.status = some ⟨status⟩ ∧ isSuccess status = true := by
  obtain ⟨b, status, duration, rfl, hord⟩ := h
  simp [outcomeFails, buildOutcome, countsAsFailure_ordinary hord]

/-- A request in `route` carries no outcome, and one in `on_response` carries a built one. -/
def Honest (r : Handler) : Prop :=
  (∀ pc, r.phase = .routing pc → outcomeOf pc = none) ∧
    ∀ b pc, r.phase = .reporting b pc → ∃ o, outcomeOf pc = some o ∧ Built o

theorem honest_phases {phase phase' : Phase} {s : State} {a : Label} (mark : Option (BackendId × Nat))
    (h : Phases phase a phase') (ha : ordinary s a = true) : Honest ⟨phase', mark⟩ := by
  cases h with
  | decided d k => cases d <;> simp [Honest, afterRoute]
  | answered b k status headers duration =>
    refine ⟨by simp, fun b' pc hp => ?_⟩
    cases hp
    exact ⟨buildOutcome b status duration, rfl, b, status, duration, rfl, ha⟩
  | lost | finish => simp [Honest]

theorem honest_step {cfg : CircuitBreakerConfig} {s s' : State} {a : Label} (h : ∀ r ∈ s.requests, Honest r)
    (ha : ordinary s a = true) (hs : Steps cfg s a s') : ∀ r ∈ s'.requests, Honest r := by
  -- One request is set, and the others stay.
  have hset : ∀ k sh r', Honest r' → ∀ r ∈ (s.set k sh r').requests, Honest r := by
    intro k sh r' hr' r hr
    rcases List.mem_or_eq_of_mem_set hr with hr | rfl
    · exact h r hr
    · exact hr'
  cases hs with
  | arrive pool signals =>
    intro r hr
    rw [List.mem_append, List.mem_singleton] at hr
    rcases hr with hr | rfl
    · exact h r hr
    · refine ⟨fun pc hp => ?_, by simp⟩
      cases hp
      exact outcomeOf_next _
  | routing hk hphase hm =>
    apply hset
    refine ⟨fun pc hp => ?_, by simp⟩
    cases hp
    rw [moves_outcome hm]
    exact (h _ (List.mem_of_getElem? hk)).1 _ hphase
  | reporting hk hphase hm =>
    apply hset
    refine ⟨by simp, fun b pc hp => ?_⟩
    cases hp
    rw [moves_outcome hm]
    exact (h _ (List.mem_of_getElem? hk)).2 _ _ hphase
  | handler hk hreq hp =>
    apply hset
    exact honest_phases _ (phases_of_nextPhase hp) ha

/-! ## The breakers -/

theorem AllClosed.ensure {a : Arbiter} (h : AllClosed a) (b : BackendId) : AllClosed (ensureBackend a b) := by
  intro b' br hbr
  unfold ensureBackend Arbiter.setBreaker at hbr
  simp only [Function.update_apply] at hbr
  split at hbr
  · rw [Option.some.injEq] at hbr
    subst hbr
    cases hb : a.breakers b with
    | none => exact ⟨tag_pack _ _ _, failures_pack _ _ _⟩
    | some br => exact h b br hb
  · exact h b' br hbr

theorem AllClosed.transition {a : Arbiter} (h : AllClosed a) (cfg : CircuitBreakerConfig) (b : BackendId) (now : Nat) :
    maybeTransitionOpenToHalfopen cfg a b now = a := by
  unfold maybeTransitionOpenToHalfopen
  split
  · rename_i br t hbr ht
    rw [if_neg]
    rintro ⟨hopen, -⟩
    exact tagOpen_ne_closed (hopen.symm.trans (h b br hbr).1)
  · rfl

theorem AllClosed.countProbe {a : Arbiter} (h : AllClosed a) (b : BackendId) : countProbe a b = a := by
  apply countProbe_closed
  rintro ⟨br, hbr, hhalf⟩
  exact tagHalfOpen_ne_closed (hhalf.symm.trans (h b br hbr).1)

theorem AllClosed.record {a : Arbiter} (h : AllClosed a) (cfg : CircuitBreakerConfig) {o : Outcome}
    {br : BackendBreaker} (now : Nat) (hbr : a.breakers o.backend = some br) :
    AllClosed (recordOutcome cfg a o br now) ↔ outcomeFails o = false := by
  obtain ⟨htag, hzero⟩ := h _ _ hbr
  unfold recordOutcome
  simp only [if_pos htag, hzero]
  cases hfail : outcomeFails o with
  | false =>
    simp only [Bool.false_eq_true, if_false, iff_true]
    exact h
  | true =>
    simp only [if_true, Bool.true_eq_false, iff_false]
    intro hclosed
    split at hclosed
    · have hopen := (hclosed o.backend _ (Function.update_self _ _ _)).1
      rw [tag_pack] at hopen
      exact tagOpen_ne_closed hopen
    · have hone := (hclosed o.backend _ (Function.update_self _ _ _)).2
      rw [failures_pack] at hone
      revert hone
      decide

theorem AllClosed.moves {cfg : CircuitBreakerConfig} {t : Nat} {sh sh' : Shared} {pc pc' : Pc} {m : Move}
    (h : AllClosed sh.arbiter) (hm : Moves cfg t sh pc m sh' pc') (hpc : ∀ o, pc ≠ .recHoldBoth o) :
    AllClosed sh'.arbiter := by
  cases hm with
  | ensure r b _ => exact h.ensure b
  | transition r b now =>
    simp only [h.transition]
    exact h
  | probe b _ =>
    simp only [h.countProbe]
    exact h
  | recEnsure o _ => exact h.ensure o.backend
  | record o _ _ _ => exact absurd rfl (hpc o)
  | _ => exact h

theorem recordsSuccess_of_ne {s : State} {k : Nat} {r : Handler} (hk : s.requests[k]? = some r)
    (h : ∀ b o, r.phase ≠ .reporting b (.recHoldBoth o)) (m : Move) : RecordsSuccess s (.move k m) := by
  unfold RecordsSuccess
  split
  · rename_i hlabel
    cases hlabel
    intro r' b o hk' hphase
    rw [hk, Option.some.injEq] at hk'
    exact absurd (hk' ▸ hphase) (h b o)
  · trivial

theorem recordsSuccess_record {s : State} {k : Nat} {r : Handler} {b : BackendId} {o : Outcome}
    (hk : s.requests[k]? = some r) (hphase : r.phase = .reporting b (.recHoldBoth o)) (now : Nat) :
    RecordsSuccess s (.move k (.clock now)) ↔ ∃ status, o.status = some ⟨status⟩ ∧ isSuccess status = true := by
  constructor
  · intro h
    exact h r b o hk hphase
  · intro h r' b' o' hk' hphase'
    rw [hk, Option.some.injEq] at hk'
    rw [← hk', hphase] at hphase'
    cases hphase'
    exact h

theorem allClosed_step {cfg : CircuitBreakerConfig} {s s' : State} {a : Label} (hr : ∀ r ∈ s.requests, Honest r)
    (h : AllClosed s.shared.arbiter) (hs : Steps cfg s a s') : AllClosed s'.shared.arbiter ↔ RecordsSuccess s a := by
  cases hs with
  | arrive pool signals => exact iff_of_true h trivial
  | @routing k r m pc pc' sh' hk hphase hm =>
    have hnone := (hr r (List.mem_of_getElem? hk)).1 pc hphase
    have hpc : ∀ o, pc ≠ .recHoldBoth o := by
      rintro o rfl
      cases hnone
    exact iff_of_true (h.moves hm hpc) (recordsSuccess_of_ne hk (by simp [hphase]) m)
  | @reporting k r m b pc pc' sh' hk hphase hm =>
    obtain ⟨o, ho, hbuilt⟩ := (hr r (List.mem_of_getElem? hk)).2 b pc hphase
    by_cases hpc : ∃ o, pc = .recHoldBoth o
    · obtain ⟨o', rfl⟩ := hpc
      cases ho
      cases hm with
      | record _ br now hbr =>
        rw [recordsSuccess_record hk hphase, ← outcomeFails_built hbuilt]
        exact h.record cfg now hbr
    · push Not at hpc
      have hne : ∀ b' o', r.phase ≠ .reporting b' (.recHoldBoth o') := by
        intro b' o' he
        rw [hphase] at he
        cases he
        exact hpc o' rfl
      exact iff_of_true (h.moves hm hpc) (recordsSuccess_of_ne hk hne m)
  | @handler k r a phase hk hreq hp =>
    refine iff_of_true h ?_
    unfold RecordsSuccess
    split
    · rw [nextPhase_move] at hp
      cases hp
    · trivial

/-- **Client errors, exactly.** Take any run in which each answer of an upstream has a status below
500 that is neither 408 nor 429. All breakers stay closed with no failure counted if and only if
each outcome that is recorded is that of a 2xx answer. -/
theorem allClosed_iff (cfg : CircuitBreakerConfig) (as : List Label) :
    (ordinaryGateway cfg).Throughout (fun s => AllClosed s.shared.arbiter) (ordinaryGateway cfg).init as ↔
      (ordinaryGateway cfg).Meets RecordsSuccess (ordinaryGateway cfg).init as := by
  have hsteps : ∀ {s a s'}, (ordinaryGateway cfg).step s a = some s' → ordinary s a = true ∧ Steps cfg s a s' := by
    intro s a s' hs
    simp only [ordinaryGateway, Machine.restrict] at hs
    split at hs
    · exact ⟨by assumption, steps_of_step hs⟩
    · cases hs
  apply Machine.throughout_iff_meets (I := fun s => ∀ r ∈ s.requests, Honest r)
  · intro s a s' hr _ hs _
    obtain ⟨ha, hs⟩ := hsteps hs
    exact honest_step hr ha hs
  · intro s a s' hr h hs
    exact allClosed_step hr h (hsteps hs).2
  · intro r hr
    cases hr
  · intro b br hbr
    cases hbr

/-- Five answers with status 404 open the breaker of the default configuration. -/
theorem notFound_opens :
    let b : BackendId := ⟨0⟩
    let as := (List.range 5).flatMap fun k => routeTo k b ++ answerWith k 404
    (∃ s, (ordinaryGateway {}).run as = some s ∧ s.shared.arbiter.stateOf b = .open) ∧
      ¬ (ordinaryGateway {}).Throughout (fun s => AllClosed s.shared.arbiter) (ordinaryGateway {}).init as := by
  intro b as
  have hrun : ((ordinaryGateway {}).run as).map (fun s => s.shared.arbiter.stateOf b) = some .open := by decide
  obtain ⟨s, hs, hopen⟩ := Option.map_eq_some_iff.mp hrun
  refine ⟨⟨s, hs, hopen⟩, fun h => ?_⟩
  have hclosed := Machine.throughout_last h hs
  unfold Arbiter.stateOf at hopen
  cases hbr : s.shared.arbiter.breakers b with
  | none =>
    rw [hbr] at hopen
    cases hopen
  | some br =>
    rw [hbr, Option.elim_some, (hclosed b br hbr).1] at hopen
    revert hopen
    decide

end Riftgate.Gateway
