import Riftgate.Requests

/-!
# The probe counter and the requests in flight

`route` counts a probe up, and only an outcome sets the counter back. A probe that ends without an
outcome stays counted.
-/

open Lib

namespace Riftgate.Gateway

open Router Circuit Proxy

/-! ## The invariant -/

/-- The backend whose outcome the request has not recorded yet. -/
def Handler.owes (r : Handler) : Option BackendId :=
  match r.phase with
  | .routing (.routed (.send b)) => some b
  | .sent b => some b
  | .reporting b (.recEnsure _) | .reporting b (.recWantBreakers _) | .reporting b (.recHoldBreakers _)
  | .reporting b (.recHoldBoth _) => some b
  | _ => none

theorem target_of_owes {r : Handler} {b : BackendId} (h : r.owes = some b) : r.target = some b := by
  unfold Handler.owes at h
  unfold Handler.target
  split at h <;> simp_all

/-- A mark is current when the probe counter was not reset since. -/
def Current (a : Arbiter) (r : Handler) (b : BackendId) : Prop := r.mark = some (b, a.resets b)

def currentMarks (s : State) (b : BackendId) : Nat :=
  s.requests.countP fun r => r.mark = some (b, s.shared.arbiter.resets b)

/-- What is known of one request. A current mark is of a half-open backend, and its outcome is
still to come. -/
structure RequestOk (a : Arbiter) (r : Handler) : Prop where
  old : ∀ b n, r.mark = some (b, n) → n ≤ a.resets b
  current : ∀ b, Current a r b → HalfOpen a b ∧ r.owes = some b
  unmarked : ∀ pc, r.phase = .routing pc → (∀ d, pc ≠ .routed d) → r.mark = none
  outcome : ∀ b pc, r.phase = .reporting b pc → ∃ o, outcomeOf pc = some o ∧ o.backend = b

structure Budget (s : State) : Prop where
  requests : ∀ r ∈ s.requests, RequestOk s.shared.arbiter r
  calm : ∀ b, ¬ HalfOpen s.shared.arbiter b → s.shared.arbiter.inflight b = 0
  bound : ∀ b, (s.shared.arbiter.inflight b).toNat ≤ currentMarks s b

/-! ## Steps that are steady -/

theorem current_steady {a a' : Arbiter} (h : Steady a a') {r : Handler} (hr : RequestOk a r) {b : BackendId}
    (hc : Current a' r b) : a'.resets b = a.resets b ∧ Current a r b := by
  have hold := hr.old b _ hc
  have hle := steady_resets h b
  have heq : a'.resets b = a.resets b := by omega
  exact ⟨heq, by rw [Current, ← heq]; exact hc⟩

theorem RequestOk.steady {a a' : Arbiter} (h : Steady a a') {r : Handler} (hr : RequestOk a r) : RequestOk a' r where
  old b n hm := (hr.old b n hm).trans (steady_resets h b)
  current b hc := by
    obtain ⟨heq, hc⟩ := current_steady h hr hc
    obtain ⟨hhalf, howes⟩ := hr.current b hc
    rcases h b with ⟨-, -, hiff⟩ | ⟨hne, -⟩
    · exact ⟨hiff.mpr hhalf, howes⟩
    · omega
  unmarked := hr.unmarked
  outcome := hr.outcome

theorem countP_set_add {α : Type} (p : α → Bool) {l : List α} {k : Nat} {x : α} (y : α) (hk : l[k]? = some x) :
    l.countP p + (if p y then 1 else 0) = (l.set k y).countP p + (if p x then 1 else 0) := by
  obtain ⟨hlt, hx⟩ := List.getElem?_eq_some_iff.mp hk
  rw [List.countP_set hlt, hx]
  by_cases hp : p x = true
  · have hpos : 0 < l.countP p := List.countP_pos_iff.mpr ⟨x, List.mem_of_getElem? hk, hp⟩
    simp only [hp, if_true]
    omega
  · simp [hp]

theorem Budget.mem {s : State} (h : Budget s) {k : Nat} {r : Handler} (hk : s.requests[k]? = some r) :
    RequestOk s.shared.arbiter r := h.requests r (List.mem_of_getElem? hk)

theorem Budget.steady {s : State} (h : Budget s) {k : Nat} {r r' : Handler} {sh' : Shared}
    (hk : s.requests[k]? = some r) (hst : Steady s.shared.arbiter sh'.arbiter) (hmark : r'.mark = r.mark)
    (hr' : RequestOk sh'.arbiter r') : Budget (s.set k sh' r') where
  requests x hx := by
    rcases List.mem_or_eq_of_mem_set hx with hx | rfl
    · exact (h.requests x hx).steady hst
    · exact hr'
  calm b hb := by
    rcases hst b with ⟨-, hi, hiff⟩ | ⟨-, hi⟩
    · exact hi.trans (h.calm b (mt hiff.mpr hb))
    · exact hi
  bound b := by
    unfold currentMarks State.set
    rcases hst b with ⟨hres, hi, -⟩ | ⟨-, hi⟩
    · have hc := countP_set_add (fun x => decide (x.mark = some (b, s.shared.arbiter.resets b))) r' hk
      have hb := h.bound b
      unfold currentMarks at hb
      rw [hmark] at hc
      simp only [hi, hres]
      omega
    · rw [hi]
      exact Nat.zero_le _

theorem markAt_halfOpen {a : Arbiter} {b : BackendId} (h : HalfOpen a b) (mark : Option (BackendId × Nat)) :
    markAt a mark (.probe b) = some (b, a.resets b) := by
  obtain ⟨br, hbr, htag⟩ := h
  simp [markAt, hbr, htag]

theorem markAt_closed {a : Arbiter} {b : BackendId} (h : ¬ HalfOpen a b) (mark : Option (BackendId × Nat)) :
    markAt a mark (.probe b) = mark := by
  simp only [markAt]
  rw [if_neg]
  intro hany
  cases hbr : a.breakers b with
  | none => simp [hbr] at hany
  | some br =>
    rw [hbr, Option.any_some, decide_eq_true_eq] at hany
    exact h ⟨br, hbr, hany⟩

theorem RequestOk.countProbe {a : Arbiter} {b : BackendId} (hhalf : HalfOpen a b) {r : Handler} (hr : RequestOk a r) :
    RequestOk (countProbe a b) r := by
  obtain ⟨hres, hiff, -⟩ := countProbe_halfOpen hhalf
  refine ⟨fun b' n hm => hres ▸ hr.old b' n hm, fun b' hc => ?_, hr.unmarked, hr.outcome⟩
  rw [Current, hres] at hc
  rw [hiff]
  exact hr.current b' hc

theorem requestOk_probed {a : Arbiter} {b : BackendId} (hhalf : HalfOpen a b) :
    RequestOk (countProbe a b) ⟨.routing (.routed (.send b)), some (b, a.resets b)⟩ := by
  obtain ⟨hres, hiff, -⟩ := countProbe_halfOpen hhalf
  refine ⟨fun b' n hm => ?_, fun b' hc => ?_, fun pc hp hne => ?_, fun b' pc hp => ?_⟩
  · simp only [Option.some.injEq, Prod.mk.injEq] at hm
    obtain ⟨rfl, rfl⟩ := hm
    rw [hres]
  · simp only [Current, Option.some.injEq, Prod.mk.injEq] at hc
    obtain ⟨rfl, -⟩ := hc
    exact ⟨(hiff b).mpr hhalf, rfl⟩
  · cases hp
    exact absurd rfl (hne _)
  · cases hp

theorem Budget.probe {s : State} (h : Budget s) {k : Nat} {r : Handler} {b : BackendId} (hk : s.requests[k]? = some r)
    (hphase : r.phase = .routing (.probe b)) :
    Budget (s.set k { s.shared with arbiter := countProbe s.shared.arbiter b }
      ⟨.routing (.routed (.send b)), markAt s.shared.arbiter r.mark (.probe b)⟩) := by
  have hmark : r.mark = none := (h.mem hk).unmarked _ hphase (by simp)
  by_cases hhalf : HalfOpen s.shared.arbiter b
  · obtain ⟨hres, hiff, hin⟩ := countProbe_halfOpen hhalf
    rw [markAt_halfOpen hhalf]
    constructor
    · intro x hx
      rcases List.mem_or_eq_of_mem_set hx with hx | rfl
      · exact (h.requests x hx).countProbe hhalf
      · exact requestOk_probed hhalf
    · intro b' hb'
      have hout : ¬ HalfOpen s.shared.arbiter b' := mt (hiff b').mpr hb'
      have hne : b' ≠ b := by
        rintro rfl
        exact hout hhalf
      simp only [State.set, hin, if_neg hne]
      exact h.calm b' hout
    · intro b'
      have hc := countP_set_add (fun x => decide (x.mark = some (b', s.shared.arbiter.resets b')))
        ⟨.routing (.routed (.send b)), some (b, s.shared.arbiter.resets b)⟩ hk
      have hb := h.bound b'
      unfold currentMarks at hb ⊢
      simp only [State.set, hin, hres]
      by_cases hbb : b' = b
      · subst hbb
        have hadd := UInt64.toNat_add (s.shared.arbiter.inflight b') 1
        simp only [hmark, reduceCtorEq, decide_false, Bool.false_eq_true, if_false, decide_true, if_true] at hc ⊢
        simp only [UInt64.toNat_one] at hadd
        have := Nat.mod_le ((s.shared.arbiter.inflight b').toNat + 1) (2 ^ 64)
        omega
      · have hbb' : ¬ b = b' := fun e => hbb e.symm
        simp only [hmark, reduceCtorEq, decide_false, Bool.false_eq_true, if_false, Option.some.injEq,
          Prod.mk.injEq, hbb', false_and] at hc
        simp only [if_neg hbb]
        omega
  · rw [countProbe_closed hhalf, markAt_closed hhalf]
    refine h.steady hk (.refl _) rfl ?_
    constructor <;> simp [hmark, Current]

/-! ## All steps -/

theorem Budget.routing {cfg : CircuitBreakerConfig} {s : State} (h : Budget s) {k : Nat} {r : Handler} {pc pc' : Pc}
    {m : Move} {sh' : Shared} (hk : s.requests[k]? = some r) (hphase : r.phase = .routing pc)
    (hm : Moves cfg k s.shared pc m sh' pc') :
    Budget (s.set k sh' ⟨.routing pc', markAt s.shared.arbiter r.mark pc⟩) := by
  by_cases hprobe : ∃ b, pc = .probe b
  · obtain ⟨b, rfl⟩ := hprobe
    cases hm
    exact h.probe hk hphase
  · push Not at hprobe
    have hrouted : ∀ d, pc ≠ .routed d := by
      rintro d rfl
      cases hm
    have hmark := (h.mem hk).unmarked pc hphase hrouted
    have hmark' : markAt s.shared.arbiter r.mark pc = r.mark := by
      unfold markAt
      split
      · exact absurd rfl (hprobe _)
      · rfl
    rw [hmark']
    refine h.steady hk (moves_steady hm hprobe) rfl ?_
    constructor <;> simp [hmark, Current]

theorem Budget.reporting {cfg : CircuitBreakerConfig} {s : State} (h : Budget s) {k : Nat} {r : Handler}
    {b : BackendId} {pc pc' : Pc} {m : Move} {sh' : Shared} (hk : s.requests[k]? = some r)
    (hphase : r.phase = .reporting b pc) (hm : Moves cfg k s.shared pc m sh' pc') :
    Budget (s.set k sh' ⟨.reporting b pc', r.mark⟩) := by
  have hr := h.mem hk
  obtain ⟨o, ho, hob⟩ := hr.outcome b pc hphase
  have hprobe : ∀ b', pc ≠ .probe b' := by
    rintro b' rfl
    cases ho
  have hst := moves_steady hm hprobe
  refine h.steady hk hst rfl ⟨fun b' n hn => (hr.old b' n hn).trans (steady_resets hst b'), ?_, by simp, ?_⟩
  · intro b' hc
    have hc : Current sh'.arbiter r b' := hc
    obtain ⟨heq, hcur⟩ := current_steady hst hr hc
    obtain ⟨hhalf, howes⟩ := (hr.steady hst).current b' hc
    refine ⟨hhalf, ?_⟩
    have hbefore := (hr.current b' hcur).1
    rw [Handler.owes, hphase] at howes
    cases hm with
    | recEnsure | recTakeBreakers | recTakeTransitioned => exact howes
    | recMissing o' hb =>
      -- The breaker of a current mark is there.
      cases ho
      cases howes
      obtain ⟨br, hbr, -⟩ := hbefore
      rw [← hob, hb] at hbr
      cases hbr
    | record o' br now hb =>
      -- The counter was reset, so that the mark is not current.
      cases ho
      cases howes
      obtain ⟨br', hbr', htag⟩ := hbefore
      rw [← hob, hb, Option.some.injEq] at hbr'
      rw [← hbr'] at htag
      have hres := @record_halfOpen cfg s.shared.arbiter o br now htag
      rw [hob] at hres
      simp only at heq
      omega
    | _ => cases howes
  · rintro b' pc'' hp
    cases hp
    exact ⟨o, (moves_outcome hm).trans ho, hob⟩

/-- A request that was counted as a probe, and whose count was not reset since, does not end
without an outcome. -/
def ReportsProbes (s : State) (a : Label) : Prop :=
  ∀ k r b, a.request = some k → s.requests[k]? = some r → r.phase = .sent b →
    nextPhase r.phase a = some .ended → ¬ Current s.shared.arbiter r b

theorem RequestOk.phase {a : Arbiter} {r : Handler} (hr : RequestOk a r) {phase : Phase}
    (howes : ∀ b, Current a r b → r.owes = some b → (Handler.mk phase r.mark).owes = some b)
    (hroute : ∀ pc, phase ≠ .routing pc)
    (hreport : ∀ b pc, phase = .reporting b pc → ∃ o, outcomeOf pc = some o ∧ o.backend = b) :
    RequestOk a ⟨phase, r.mark⟩ where
  old := hr.old
  current b hb := ⟨(hr.current b hb).1, howes b hb (hr.current b hb).2⟩
  unmarked pc hp := absurd hp (hroute pc)
  outcome := hreport

theorem requestOk_nextPhase {s : State} {k : Nat} {r : Handler} {a : Label} {phase : Phase}
    (hr : RequestOk s.shared.arbiter r) (hk : s.requests[k]? = some r) (hreq : a.request = some k)
    (hc : ReportsProbes s a) (hp : nextPhase r.phase a = some phase) :
    RequestOk s.shared.arbiter ⟨phase, r.mark⟩ := by
  -- A request that ends here has no current mark.
  have hend : ∀ b, r.phase = .sent b → phase = .ended → RequestOk s.shared.arbiter ⟨phase, r.mark⟩ := by
    rintro b hb rfl
    refine hr.phase (fun b' hcur howes => ?_) (by simp) (by simp)
    rw [Handler.owes, hb, Option.some.injEq] at howes
    subst howes
    exact absurd hcur (hc k r b hreq hk hb hp)
  have hphases := phases_of_nextPhase hp
  generalize hphase : r.phase = before at hphases
  cases hphases with
  | decided d k' =>
    refine hr.phase (fun b hcur howes => ?_) ?_ ?_
    · rw [Handler.owes, hphase] at howes
      cases d <;> simp_all [afterRoute, Handler.owes]
    · cases d <;> simp [afterRoute]
    · cases d <;> simp [afterRoute]
  | answered b k' status headers duration =>
    refine hr.phase (fun b' hcur howes => ?_) (by simp) ?_
    · rw [Handler.owes, hphase] at howes
      exact howes
    · intro b' pc hpc
      cases hpc
      exact ⟨buildOutcome b status duration, rfl, rfl⟩
  | lost b => exact hend b hphase rfl
  | finish b o k' =>
    refine hr.phase (fun b' hcur howes => ?_) (by simp) (by simp)
    rw [Handler.owes, hphase] at howes
    cases howes

theorem Budget.arrive {s : State} (h : Budget s) (pool : BackendPool) (signals : BackendSignals) :
    Budget { s with requests := s.requests ++ [⟨.routing (startRoute pool signals), none⟩] } where
  requests r hr := by
    rw [List.mem_append, List.mem_singleton] at hr
    rcases hr with hr | rfl
    · exact h.requests r hr
    · constructor <;> simp [Current]
  calm := h.calm
  bound b := by
    have hb := h.bound b
    unfold currentMarks at hb ⊢
    rw [List.countP_append]
    exact hb.trans (Nat.le_add_right _ _)

theorem budget_step {cfg : CircuitBreakerConfig} {s s' : State} {a : Label} (h : Budget s)
    (hc : ReportsProbes s a) (hs : Steps cfg s a s') : Budget s' := by
  cases hs with
  | arrive pool signals => exact h.arrive pool signals
  | routing hk hphase hm => exact h.routing hk hphase hm
  | reporting hk hphase hm => exact h.reporting hk hphase hm
  | handler hk hreq hp => exact h.steady hk (.refl _) rfl (requestOk_nextPhase (h.mem hk) hk hreq hc hp)

theorem budget_reach {cfg : CircuitBreakerConfig} {s : State} (hs : (gateway cfg).Reach ReportsProbes s) :
    Budget s := by
  apply Machine.Reach.invariant _ _ hs
  · constructor <;> simp [gateway, Arbiter.inflight, currentMarks]
  · intro s a s' _ h hc hstep
    exact budget_step h hc (steps_of_step hstep)

/-! ## No lockout -/

theorem currentMarks_le {s : State} (h : Budget s) (b : BackendId) : currentMarks s b ≤ s.inFlight b := by
  unfold currentMarks State.inFlight
  apply List.countP_mono_left
  intro r hr hmark
  rw [decide_eq_true_eq] at hmark ⊢
  exact target_of_owes ((h.requests r hr).current b hmark).2

/-- The counter is not above the number of requests in flight, and a half-open backend without any
is shown to the inner router as half-open. -/
structure NoLockout (cfg : CircuitBreakerConfig) (s : State) : Prop where
  bound : ∀ b, (s.shared.arbiter.inflight b).toNat ≤ s.inFlight b
  shown : ∀ b, 1 ≤ cfg.halfOpenMax → s.shared.arbiter.stateOf b = .halfOpen → s.inFlight b = 0 →
    ∀ pool signals, b ∈ pool.backends →
      ((buildSignals cfg s.shared.arbiter pool signals).get b).circuitState = .halfOpen

theorem shown_of_bound {cfg : CircuitBreakerConfig} {a : Arbiter} {b : BackendId} (hmax : 1 ≤ cfg.halfOpenMax)
    (hstate : a.stateOf b = .halfOpen) (hzero : (a.inflight b).toNat = 0) (signals : BackendSignals) :
    (signalOf cfg a signals b).circuitState = .halfOpen := by
  unfold Arbiter.stateOf at hstate
  unfold Arbiter.inflight at hzero
  unfold signalOf
  cases hbr : a.breakers b with
  | none => simp [hbr] at hstate
  | some br =>
    rw [hbr] at hstate hzero
    simp only [Option.elim] at hstate hzero
    simp only
    rw [if_neg]
    · exact hstate
    · rintro ⟨-, hle⟩
      have hle := UInt64.le_iff_toNat_le.mp hle
      have hmax := UInt32.le_iff_toNat_le.mp hmax
      rw [UInt32.toNat_toUInt64] at hle
      simp only [UInt32.toNat_one] at hmax
      omega

/-- **No lockout.** In each state of each run in which no counted probe ends without an outcome,
the probe counter of each backend is at most the number of its requests in flight. So a half-open
backend with none in flight is offered again. -/
theorem noLockout_of_reports (cfg : CircuitBreakerConfig) (s : State)
    (hs : (gateway cfg).Reach ReportsProbes s) : NoLockout cfg s := by
  have h := budget_reach hs
  have hbound : ∀ b, (s.shared.arbiter.inflight b).toNat ≤ s.inFlight b :=
    fun b => (h.bound b).trans (currentMarks_le h b)
  refine ⟨hbound, fun b hmax hstate hzero pool signals hb => ?_⟩
  rw [buildSignals_get signals hb]
  have := hbound b
  exact shown_of_bound hmax hstate (by omega) signals

/-- The upstream answers every request, and no future is dropped. -/
def answers (_ : State) : Label → Bool
  | .uriError _ | .drop _ | .upstream _ (.failed _) _ | .upstream _ .elapsed _ => false
  | _ => true

theorem reportsProbes_of_answers (s : State) (a : Label) (h : answers s a = true) : ReportsProbes s a := by
  intro k r b _ _ hphase hp
  rw [hphase] at hp
  cases a with
  | uriError | drop => cases h
  | upstream _ result _ =>
    cases result with
    | response => cases hp
    | failed | elapsed => cases h
  | _ => cases hp

/-- One failure opens the breaker. The next request is a probe, and it is in flight. -/
theorem noLockout_of_reports_probe :
    let cfg : CircuitBreakerConfig := ⟨1, 0, 1⟩
    let b : BackendId := ⟨0⟩
    ∃ s, (gateway cfg).Reach ReportsProbes s ∧ s.shared.arbiter.inflight b = 1 ∧ s.inFlight b = 1 ∧
      NoLockout cfg s := by
  intro cfg b
  have hrun : (((gateway cfg).restrict answers).run (routeTo 0 b ++ answerWith 0 500 ++ routeTo 1 b)).map
      (fun s => decide (s.shared.arbiter.inflight b = 1 ∧ s.inFlight b = 1)) = some true := by decide
  obtain ⟨s, hs, hp⟩ := Machine.exists_of_restrict (fun s a _ => reportsProbes_of_answers s a) hrun
  obtain ⟨hin, hflight⟩ := of_decide_eq_true hp
  exact ⟨s, hs, hin, hflight, noLockout_of_reports cfg s hs⟩

/-- The probe times out. Its slot stays taken with no request in flight, and the half-open backend
is shown as open. -/
theorem probe_timeout_lockout :
    let cfg : CircuitBreakerConfig := ⟨1, 0, 1⟩
    let b : BackendId := ⟨0⟩
    ∃ s, (gateway cfg).Reachable s ∧ s.inFlight b = 0 ∧ s.shared.arbiter.inflight b = 1 ∧
      s.shared.arbiter.stateOf b = .halfOpen ∧
      ((buildSignals cfg s.shared.arbiter ⟨[b]⟩ ⟨[]⟩).get b).circuitState = .open ∧ ¬ NoLockout cfg s := by
  intro cfg b
  have hrun : ((gateway cfg).run (routeTo 0 b ++ answerWith 0 500 ++ routeTo 1 b ++ [.upstream 1 .elapsed 0])).map
      (fun s => decide (s.inFlight b = 0 ∧ s.shared.arbiter.inflight b = 1 ∧ s.shared.arbiter.stateOf b = .halfOpen ∧
        ((buildSignals cfg s.shared.arbiter ⟨[b]⟩ ⟨[]⟩).get b).circuitState = .open)) = some true := by decide
  obtain ⟨s, hs, hp⟩ := Machine.exists_of_run hrun
  obtain ⟨hflight, hin, hhalf, hopen⟩ := of_decide_eq_true hp
  refine ⟨s, hs, hflight, hin, hhalf, hopen, fun h => ?_⟩
  have hbound := h.bound b
  rw [hflight, hin] at hbound
  exact absurd hbound (by decide)

end Riftgate.Gateway
