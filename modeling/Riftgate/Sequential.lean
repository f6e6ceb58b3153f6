import Riftgate.RateLimit

/-!
# The token bucket with one caller at a time

The calls come in the order of the clock, so that the bucket never sees a refill from the future. The clock still
wraps around, and so do the products.
-/

open Lib

namespace Riftgate.RateLimit

/-! ## Whole calls are runs of the machine -/

def callLabels (s : State) (i : Nat) (c : CheckArgs) : List Label :=
  [.tick (c.readAt - s.clock), .check i c.subject c.cost, .entry i, .load i, .compareExchange i]

/-- The entry that a call finds, or makes. -/
def entryFor (l : TokenBucketLimiter) (s : State) (c : CheckArgs) : Entry :=
  (s.entries c.subject).getD ⟨l.fullState c.nowMs, c.readAt⟩

-- by cases, for `rfl` would have the kernel compute the arithmetic of the round
theorem exists_attempt (l : TokenBucketLimiter) (c : CheckArgs) (observed : UInt64) :
    ∃ newState decision, c.attempt l observed = (newState, decision) := by
  cases c.attempt l observed with
  | mk newState decision => exact ⟨newState, decision, rfl⟩

theorem check_of_attempt {l : TokenBucketLimiter} {s : State} {c : CheckArgs} {newState : UInt64}
    {decision : LimitDecision} (hr : c.attempt l (entryFor l s c).state = (newState, decision)) (i : Nat) :
    s.check l i c = {
      clock := c.readAt
      entries := Function.update s.entries c.subject (some ⟨newState, c.readAt⟩)
      calls := Function.update s.calls i (.returned c decision)
      admitted := if decision = .allow then s.admitted ++ [⟨c, c.readAt⟩] else s.admitted } := by
  unfold entryFor at hr
  simp only [State.check, TokenBucketLimiter.check, hr]

theorem check_eq_run {l : TokenBucketLimiter} {s : State} {i : Nat} {c : CheckArgs} (hclock : s.clock ≤ c.readAt)
    (hidle : s.calls i = .idle) : (limiter l).runFrom s (callLabels s i c) = some (s.check l i c) := by
  have hnow : s.clock + (c.readAt - s.clock) = c.readAt := by omega
  obtain ⟨newState, decision, hr⟩ := exists_attempt l c (entryFor l s c).state
  rw [check_of_attempt hr]
  unfold entryFor at hr
  simp only [callLabels, Machine.runFrom, limiter, State.step, hidle, hnow, Option.bind_some, State.setCall,
    State.setEntry, Function.update_self, Function.update_idem, Option.map_some, State.exchange, if_true, hr]
  split <;> simp_all

theorem checks_reachable {l : TokenBucketLimiter} {calls : List CheckArgs}
    (hsorted : calls.Pairwise fun c d => c.readAt ≤ d.readAt) {s : State} (hs : (limiter l).Reachable s)
    (hclock : ∀ c ∈ calls, s.clock ≤ c.readAt) {i : Nat} (hidle : ∀ j, i ≤ j → s.calls j = .idle) :
    (limiter l).Reachable (s.checks l i calls) := by
  induction calls generalizing s i with
  | nil => exact hs
  | cons c calls ih =>
    obtain ⟨hfirst, hrest⟩ := List.pairwise_cons.mp hsorted
    have hrun := @check_eq_run l s i c (hclock c List.mem_cons_self) (hidle i le_rfl)
    refine ih hrest (hs.runFrom hrun) hfirst (i := i + 1) fun j hj => ?_
    have hne : j ≠ i := by omega
    simp only [State.check, Function.update_of_ne hne]
    exact hidle j (by omega)

/-! ## The bucket of a subject -/

section

variable {l : TokenBucketLimiter}

theorem afterRefill_le_burst (nowMs : UInt32) (observed : UInt64) :
    (l.afterRefill nowMs observed).toNat ≤ (saturatingScaledBurst l.cfg.burst).toNat := by
  unfold TokenBucketLimiter.afterRefill
  simp only [toNat_min]
  omega

/-- The entries of a limiter whose calls came one after the other. -/
structure InTurn (l : TokenBucketLimiter) (s : State) : Prop where
  sound : Sound l s
  past : ∀ k e, s.entries k = some e → e.refilledAt ≤ s.clock
  tokens : ∀ k e, s.entries k = some e → (unpack e.state).1 ≤ saturatingScaledBurst l.cfg.burst

theorem inTurn_init (l : TokenBucketLimiter) : InTurn l {} where
  sound := ⟨fun k e he => (by cases he), fun _ _ => rfl⟩
  past k e he := by cases he
  tokens k e he := by cases he

theorem InTurn.bucket {s : State} (h : InTurn l s) {c : CheckArgs} (hclock : s.clock ≤ c.readAt) :
    ∃ B, IsBucket l s.admitted c.subject (entryFor l s c) B ∧ (entryFor l s c).refilledAt ≤ c.readAt := by
  unfold entryFor
  cases hentry : s.entries c.subject with
  | none =>
    obtain ⟨B, hB⟩ := full_isBucket l c.readAt (h.sound.fresh c.subject hentry)
    exact ⟨B, hB, le_rfl⟩
  | some e =>
    obtain ⟨B, hB⟩ := h.sound.bucket c.subject e hentry
    exact ⟨B, hB, (h.past c.subject e hentry).trans hclock⟩

theorem InTurn.check {s : State} (h : InTurn l s) (i : Nat) {c : CheckArgs} (hclock : s.clock ≤ c.readAt) :
    InTurn l (s.check l i c) := by
  obtain ⟨B, hB, hle⟩ := h.bucket hclock
  obtain ⟨newState, decision, hr⟩ := exists_attempt l c (entryFor l s c).state
  have hspec := (l.attempt_spec hr).2
  have hburst := @afterRefill_le_burst l c.nowMs (entryFor l s c).state
  rw [check_of_attempt hr]
  refine ⟨h.sound.setEntry rfl (hB.attempt hle hr c.readAt) fun k hk => payments_other c.readAt hk _, ?_, ?_⟩
  · intro k e he
    simp only [Function.update_apply] at he
    split at he
    · cases he
      exact le_rfl
    · exact (h.past k e he).trans hclock
  · intro k e he
    simp only [Function.update_apply] at he
    split at he
    · cases he
      exact UInt64.le_iff_toNat_le.mpr ((Nat.le_add_right _ _).trans (hspec.le.trans hburst))
    · exact h.tokens k e he

theorem InTurn.checks {calls : List CheckArgs} (hsorted : calls.Pairwise fun c d => c.readAt ≤ d.readAt) {s : State}
    (h : InTurn l s) (hclock : ∀ c ∈ calls, s.clock ≤ c.readAt) (i : Nat) : InTurn l (s.checks l i calls) := by
  induction calls generalizing s i with
  | nil => exact h
  | cons c calls ih =>
    obtain ⟨hfirst, hrest⟩ := List.pairwise_cons.mp hsorted
    exact ih hrest (h.check i (hclock c List.mem_cons_self)) hfirst (i + 1)

end

/-- **The bucket in sequential use.** Whatever the configuration and the calls, of any subjects, at times that do not
decrease: no entry has more than the scaled burst, and no window has more than its share. -/
theorem checks_sound (l : TokenBucketLimiter) (calls : List CheckArgs)
    (hsorted : calls.Pairwise fun c d => c.readAt ≤ d.readAt) :
    (∀ k e, (State.checks l {} 0 calls).entries k = some e →
      (unpack e.state).1 ≤ saturatingScaledBurst l.cfg.burst) ∧
    ∀ k w T, (State.checks l {} 0 calls).admittedIn l Admission.readAt k w T ≤
      l.cfg.burst.toNat + l.cfg.ratePerSec.toNat * T / 1000 := by
  have h := (inTurn_init l).checks hsorted (fun c _ => Nat.zero_le c.readAt) 0
  exact ⟨h.tokens, read_of_sound h.sound⟩

/-- The second call comes before the bucket has a token again, and the third one 2^32 ms after the second. -/
def wrapCalls : List CheckArgs := [⟨⟨⟨1⟩, ⟨0⟩, none⟩, 1, 5⟩, ⟨⟨⟨1⟩, ⟨0⟩, none⟩, 1, 700⟩,
  ⟨⟨⟨1⟩, ⟨0⟩, none⟩, 1, 4294967996⟩]

theorem wrapCalls_sound :
    let l : TokenBucketLimiter := ⟨⟨1, 1, .request, 0⟩, by decide, by decide⟩
    (State.checks l {} 0 wrapCalls).admitted.length = 1 ∧
    (∀ k e, (State.checks l {} 0 wrapCalls).entries k = some e →
      (unpack e.state).1 ≤ saturatingScaledBurst l.cfg.burst) ∧
    ∀ k w T, (State.checks l {} 0 wrapCalls).admittedIn l Admission.readAt k w T ≤
      l.cfg.burst.toNat + l.cfg.ratePerSec.toNat * T / 1000 := by
  intro l
  exact ⟨by decide, checks_sound l wrapCalls (by decide)⟩

/-! ## After a pause -/

section

variable {l : TokenBucketLimiter}

/-- What the clock and the products leave of the refill of a pause. Without them it is `idle * rate`. -/
def refillUnits (l : TokenBucketLimiter) (idle : Nat) : Nat := idle % 2 ^ 32 * l.cfg.ratePerSec.toNat % 2 ^ 48

theorem refillScaled_eq (idle : Nat) {elapsedMs : UInt32} (h : elapsedMs.toNat = idle % 2 ^ 32) :
    (l.refillScaled elapsedMs).toNat = 65536 * refillUnits l idle / 1000 := by
  have hrate := l.cfg.ratePerSec.toNat_lt
  have hprod : elapsedMs.toNat * l.cfg.ratePerSec.toNat < 2 ^ 64 := by
    have helapsed := elapsedMs.toNat_lt
    calc elapsedMs.toNat * l.cfg.ratePerSec.toNat < 2 ^ 32 * 2 ^ 32 := Nat.mul_lt_mul'' helapsed hrate
      _ = 2 ^ 64 := by decide
  have h1000 : (1000 : UInt64).toNat = 1000 := by decide
  have hscale : ∀ n : Nat, n * 65536 % 2 ^ 64 = 65536 * (n % 2 ^ 48) := by omega
  unfold TokenBucketLimiter.refillScaled refillUnits
  rw [UInt64.toNat_div, UInt64.toNat_mul, UInt64.toNat_mul, UInt32.toNat_toUInt64, UInt32.toNat_toUInt64, scale_toNat,
    h1000, Nat.mod_eq_of_lt hprod, hscale, h]

theorem saturatingScaledBurst_eq {burst : UInt32} (h : burst.toNat ≤ 65535) :
    (saturatingScaledBurst burst).toNat = burst.toNat * 65536 := by
  have hmax : (0xFFFFFFFF : UInt64).toNat = 2 ^ 32 - 1 := by decide
  unfold saturatingScaledBurst
  rw [toNat_min, UInt64.toNat_mul, UInt32.toNat_toUInt64, scale_toNat, hmax]
  omega

theorem afterRefill_idle (hburst : l.cfg.burst.toNat ≤ 65535) {tokens : UInt64} (htokens : tokens.toNat < 2 ^ 32)
    (t idle : Nat) :
    (l.afterRefill (UInt32.ofNat (t + idle)) (pack tokens (UInt32.ofNat t))).toNat =
      min (tokens.toNat + 65536 * refillUnits l idle / 1000) (l.cfg.burst.toNat * 65536) := by
  have hunits : refillUnits l idle < 2 ^ 48 := Nat.mod_lt _ (by decide)
  unfold TokenBucketLimiter.afterRefill
  simp only [unpack_pack _ _ htokens, toNat_min, UInt64.toNat_add, refillScaled_eq idle (elapsed_eq t idle),
    saturatingScaledBurst_eq hburst]
  omega

theorem attempt_allow_iff {nowMs : UInt32} {costScaled observed newState : UInt64} {decision : LimitDecision}
    (h : l.attempt nowMs costScaled observed = (newState, decision)) :
    decision = .allow ↔ costScaled.toNat ≤ (l.afterRefill nowMs observed).toNat := by
  unfold TokenBucketLimiter.attempt at h
  generalize l.afterRefill nowMs observed = tokens at h ⊢
  by_cases hlt : tokens < costScaled
  · have := UInt64.lt_iff_toNat_lt.mp hlt
    simp only [if_pos hlt, Prod.mk.injEq] at h
    simp only [← h.2, reduceCtorEq, false_iff]
    omega
  · have := mt UInt64.lt_iff_toNat_lt.mpr hlt
    simp only [if_neg hlt, Prod.mk.injEq] at h
    simp only [← h.2, true_iff]
    omega

theorem check_decision {entries : SubjectKey → Option Entry} {c : CheckArgs} {e : Entry} {newState : UInt64}
    {decision : LimitDecision} (he : entries c.subject = some e) (hr : c.attempt l e.state = (newState, decision)) :
    (l.check entries c).2 = decision := by
  simp only [TokenBucketLimiter.check, he, Option.getD_some, hr]

end

/-- **After a pause, exactly.** A call that costs no more than the burst is allowed if and only if the tokens that are
stored and what the clock and the products leave of the refill cover it. They do when neither has wrapped around. -/
theorem idle_refills_iff (l : TokenBucketLimiter) (hburst : l.cfg.burst.toNat ≤ 65535)
    (entries : SubjectKey → Option Entry) (k : SubjectKey) (tokens : UInt32) (t idle : Nat) (cost : UInt32)
    (hstored : entries k = some ⟨pack tokens.toUInt64 (UInt32.ofNat t), t⟩)
    (hidle : 1000 * l.cfg.burst.toNat ≤ l.cfg.ratePerSec.toNat * idle)
    (hcost : (l.costUnits cost).toNat ≤ l.cfg.burst.toNat) :
    ((l.check entries ⟨k, cost, t + idle⟩).2 = .allow ↔
      (l.costUnits cost).toNat * 65536 ≤ tokens.toNat + 65536 * refillUnits l idle / 1000) ∧
    (idle < 2 ^ 32 → idle * l.cfg.ratePerSec.toNat < 2 ^ 48 → (l.check entries ⟨k, cost, t + idle⟩).2 = .allow) := by
  have hallow : (l.check entries ⟨k, cost, t + idle⟩).2 = .allow ↔
      (l.costUnits cost).toNat * 65536 ≤ tokens.toNat + 65536 * refillUnits l idle / 1000 := by
    obtain ⟨newState, decision, hr⟩ := exists_attempt l ⟨k, cost, t + idle⟩ (pack tokens.toUInt64 (UInt32.ofNat t))
    rw [check_decision (c := ⟨k, cost, t + idle⟩) hstored hr]
    unfold CheckArgs.attempt at hr
    rw [attempt_allow_iff hr, costScaled_toNat]
    have htokens : tokens.toUInt64.toNat < 2 ^ 32 := by
      rw [UInt32.toNat_toUInt64]
      exact tokens.toNat_lt
    simp only [CheckArgs.nowMs, CheckArgs.units, afterRefill_idle hburst htokens, UInt32.toNat_toUInt64]
    omega
  refine ⟨hallow, fun hclock hproduct => hallow.mpr ?_⟩
  have hunits : refillUnits l idle = l.cfg.ratePerSec.toNat * idle := by
    unfold refillUnits
    rw [Nat.mod_eq_of_lt hclock, Nat.mod_eq_of_lt hproduct, Nat.mul_comm]
  rw [hunits]
  omega

def oneKeyEntry (tokens : UInt32) (t : Nat) (k : SubjectKey) : Option Entry :=
  if k = ⟨⟨1⟩, ⟨0⟩, none⟩ then some ⟨pack tokens.toUInt64 (UInt32.ofNat t), t⟩ else none

theorem second_refills_iff :
    let l : TokenBucketLimiter := ⟨⟨1, 1, .request, 0⟩, by decide, by decide⟩
    let k : SubjectKey := ⟨⟨1⟩, ⟨0⟩, none⟩
    (l.check (oneKeyEntry 0 5) ⟨k, 1, 5 + 1000⟩).2 = .allow ∧
    ((l.check (oneKeyEntry 0 5) ⟨k, 1, 5 + 1000⟩).2 = .allow ↔
      (l.costUnits 1).toNat * 65536 ≤ (0 : UInt32).toNat + 65536 * refillUnits l 1000 / 1000) := by
  intro l k
  have h := idle_refills_iff l (by decide) (oneKeyEntry 0 5) k 0 5 1000 1 rfl (by decide) (by decide)
  exact ⟨h.2 (by decide) (by decide), h.1⟩

/-- Empty, and then untouched for 2^32 ms: the clock shows that no time has passed. -/
theorem wrapped_pause_denied :
    let l : TokenBucketLimiter := ⟨⟨1, 1, .request, 0⟩, by decide, by decide⟩
    let k : SubjectKey := ⟨⟨1⟩, ⟨0⟩, none⟩
    1000 * l.cfg.burst.toNat ≤ l.cfg.ratePerSec.toNat * 4294967296 ∧
    (l.costUnits 1).toNat ≤ l.cfg.burst.toNat ∧
    (l.check (oneKeyEntry 0 5) ⟨k, 1, 5 + 4294967296⟩).2 ≠ .allow := by
  intro l k
  exact ⟨by decide, by decide, by decide⟩

end Riftgate.RateLimit
