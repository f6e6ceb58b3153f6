import Riftgate.Sequential

/-!
# The wait of a denied call

Times are in ns. A call sees only the ms of its clock, and `retry_after` rounds its rate down, so that the wait is
never too short.
-/

open Lib

namespace Riftgate.RateLimit

/-- `start.elapsed().as_millis()`. -/
def clockMs (t : Nat) : Nat := t / 1000000

/-- The entries after calls that come one after the other. -/
def entriesAfter (l : TokenBucketLimiter) (entries : SubjectKey → Option Entry) (calls : List CheckArgs) :
    SubjectKey → Option Entry :=
  calls.foldl (fun entries c => (l.check entries c).1) entries

section

variable {l : TokenBucketLimiter}

/-! ## The wait -/

theorem ratePerMs_eq : (max (l.cfg.ratePerSec.toUInt64 * tokenBucketScale / 1000) 1).toNat =
    l.cfg.ratePerSec.toNat * 65536 / 1000 := by
  have hpos := UInt32.lt_iff_toNat_lt.mp l.rate_pos
  have h0 : (0 : UInt32).toNat = 0 := by decide
  have h1 : (1 : UInt64).toNat = 1 := by decide
  have h1000 : (1000 : UInt64).toNat = 1000 := by decide
  rw [toNat_max, UInt64.toNat_div, costScaled_toNat, h1, h1000]
  omega

/-- The wait is a number of whole ms, and at the rate of a ms, rounded down, these cover the deficit. -/
theorem retryAfterFor_covers (deficit : UInt64) :
    ∃ ms, ms * 1000000 ≤ l.retryAfterFor deficit ∧ deficit.toNat ≤ ms * (l.cfg.ratePerSec.toNat * 65536 / 1000) := by
  have hpos := UInt32.lt_iff_toNat_lt.mp l.rate_pos
  have h0 : (0 : UInt32).toNat = 0 := by decide
  unfold TokenBucketLimiter.retryAfterFor
  simp only [ratePerMs_eq]
  have hrate : 0 < l.cfg.ratePerSec.toNat * 65536 / 1000 := by omega
  generalize l.cfg.ratePerSec.toNat * 65536 / 1000 = perMs at hrate ⊢
  refine ⟨(deficit.toNat + perMs - 1) / perMs, ?_, ?_⟩
  · split <;> omega
  · have hlt := Nat.lt_div_mul_add (a := deficit.toNat + perMs - 1) hrate
    omega

theorem clockMs_add_le {t r t' ms : Nat} (hms : ms * 1000000 ≤ r) (h : t + r ≤ t') : clockMs t + ms ≤ clockMs t' := by
  unfold clockMs
  omega

theorem refillUnits_eq {elapsed : Nat} (hclock : elapsed < 2 ^ 32)
    (hfits : elapsed * l.cfg.ratePerSec.toNat * 2 ^ 16 < 2 ^ 64) :
    refillUnits l elapsed = elapsed * l.cfg.ratePerSec.toNat := by
  unfold refillUnits
  rw [Nat.mod_eq_of_lt hclock, Nat.mod_eq_of_lt (by omega)]

theorem le_refill {elapsed ms rate : Nat} (h : ms ≤ elapsed) :
    ms * (rate * 65536 / 1000) ≤ 65536 * (elapsed * rate) / 1000 := by
  rw [Nat.le_div_iff_mul_le (by decide)]
  calc ms * (rate * 65536 / 1000) * 1000 = ms * (rate * 65536 / 1000 * 1000) := Nat.mul_assoc _ _ _
    _ ≤ elapsed * (rate * 65536) := Nat.mul_le_mul h (Nat.div_mul_le_self _ _)
    _ = 65536 * (elapsed * rate) := by ring

/-! ## What a denied call stores -/

theorem attempt_deny {nowMs : UInt32} {costScaled observed newState : UInt64} {r : Nat}
    (h : l.attempt nowMs costScaled observed = (newState, .deny r)) :
    newState = pack (l.afterRefill nowMs observed) nowMs ∧ l.afterRefill nowMs observed < costScaled ∧
      r = l.retryAfterFor (costScaled - l.afterRefill nowMs observed) := by
  unfold TokenBucketLimiter.attempt at h
  generalize l.afterRefill nowMs observed = tokens at h ⊢
  by_cases hlt : tokens < costScaled
  · simp only [if_pos hlt, Prod.mk.injEq, LimitDecision.deny.injEq] at h
    exact ⟨h.1.symm, hlt, h.2.symm⟩
  · simp only [if_neg hlt, Prod.mk.injEq, reduceCtorEq, and_false] at h

theorem check_stored (entries : SubjectKey → Option Entry) (c : CheckArgs) :
    ∃ observed newState decision, c.attempt l observed = (newState, decision) ∧
      (l.check entries c).2 = decision ∧ (l.check entries c).1 c.subject = some ⟨newState, c.readAt⟩ := by
  generalize he : (entries c.subject).getD ⟨l.fullState c.nowMs, c.readAt⟩ = e
  obtain ⟨newState, decision, hr⟩ := exists_attempt l c e.state
  refine ⟨e.state, newState, decision, hr, ?_, ?_⟩
  · simp only [TokenBucketLimiter.check, he, hr]
  · simp only [TokenBucketLimiter.check, he, hr, Function.update_self]

theorem entriesAfter_other {k : SubjectKey} (entries : SubjectKey → Option Entry) {calls : List CheckArgs}
    (hother : ∀ c ∈ calls, c.subject ≠ k) : entriesAfter l entries calls k = entries k := by
  unfold entriesAfter
  induction calls generalizing entries with
  | nil => rfl
  | cons c calls ih =>
    have hne : k ≠ c.subject := (hother c List.mem_cons_self).symm
    rw [List.foldl_cons, ih _ fun d hd => hother d (List.mem_cons_of_mem c hd)]
    simp only [TokenBucketLimiter.check, Function.update_of_ne hne]

end

/-- **The wait is enough.** A call that is denied with a `retry_after`, and made again that much later or still later,
is allowed. Calls of other subjects may come in between, and neither the clock nor the product may wrap around. -/
theorem retryAfter_enough (l : TokenBucketLimiter) (hburst : l.cfg.burst.toNat ≤ 65535)
    (entries : SubjectKey → Option Entry) (k : SubjectKey) (cost : UInt32) (t r t' : Nat)
    (hcost : (l.costUnits cost).toNat ≤ l.cfg.burst.toNat)
    (hdeny : (l.check entries ⟨k, cost, clockMs t⟩).2 = .deny r) (between : List CheckArgs)
    (hother : ∀ c ∈ between, c.subject ≠ k) (hlater : t + r ≤ t') (hclock : clockMs t' - clockMs t < 2 ^ 32)
    (hfits : (clockMs t' - clockMs t) * l.cfg.ratePerSec.toNat * 2 ^ 16 < 2 ^ 64) :
    (l.check (entriesAfter l (l.check entries ⟨k, cost, clockMs t⟩).1 between) ⟨k, cost, clockMs t'⟩).2 = .allow := by
  obtain ⟨observed, newState, decision, hr, hdecision, hstored⟩ := @check_stored l entries ⟨k, cost, clockMs t⟩
  rw [hdeny] at hdecision
  subst hdecision
  have htokens := (l.afterRefill_le (UInt32.ofNat (clockMs t)) observed).1
  unfold CheckArgs.attempt at hr
  obtain ⟨rfl, hlt, rfl⟩ := attempt_deny hr
  obtain ⟨ms, hms, hcovers⟩ := @retryAfterFor_covers l
    ((CheckArgs.units l ⟨k, cost, clockMs t⟩).toUInt64 * tokenBucketScale -
      l.afterRefill (CheckArgs.nowMs ⟨k, cost, clockMs t⟩) observed)
  rw [UInt64.toNat_sub_of_le _ _ (UInt64.le_iff_toNat_le.mpr (UInt64.lt_iff_toNat_lt.mp hlt).le), costScaled_toNat]
    at hcovers
  simp only [CheckArgs.nowMs, CheckArgs.units] at *
  generalize l.afterRefill (UInt32.ofNat (clockMs t)) observed = tokens at *
  have hwait := clockMs_add_le hms hlater
  obtain ⟨elapsed, hel⟩ : ∃ elapsed, clockMs t' = clockMs t + elapsed := ⟨clockMs t' - clockMs t, by omega⟩
  rw [hel, Nat.add_sub_cancel_left] at hclock hfits
  -- the second call finds what the first one has stored
  obtain ⟨state', decision', hr'⟩ := exists_attempt l ⟨k, cost, clockMs t'⟩ (pack tokens (UInt32.ofNat (clockMs t)))
  have hfound : entriesAfter l (l.check entries ⟨k, cost, clockMs t⟩).1 between k =
      some ⟨pack tokens (UInt32.ofNat (clockMs t)), clockMs t⟩ := by
    rw [entriesAfter_other _ hother]
    exact hstored
  rw [check_decision (c := ⟨k, cost, clockMs t'⟩) hfound hr']
  unfold CheckArgs.attempt at hr'
  rw [attempt_allow_iff hr', costScaled_toNat]
  simp only [CheckArgs.nowMs, CheckArgs.units]
  rw [hel, afterRefill_idle hburst htokens, refillUnits_eq hclock hfits]
  have hrefill := @le_refill elapsed ms l.cfg.ratePerSec.toNat (by omega)
  exact le_min (Nat.sub_le_iff_le_add'.mp (hcovers.trans hrefill)) (Nat.mul_le_mul_right 65536 hcost)

/-- One token a second. The second call is denied with a wait of 1009 ms, 65 units of 65536 a ms. -/
theorem retryAfter_enough_one :
    let l : TokenBucketLimiter := ⟨⟨1, 1, .request, 0⟩, by decide, by decide⟩
    let k : SubjectKey := ⟨⟨1⟩, ⟨0⟩, none⟩
    let entries := (l.check (fun _ => none) ⟨k, 1, 5⟩).1
    (l.check entries ⟨k, 1, clockMs 5999999⟩).2 = .deny 1009000000 ∧
    (l.check (entriesAfter l (l.check entries ⟨k, 1, clockMs 5999999⟩).1 [⟨⟨⟨2⟩, ⟨0⟩, none⟩, 1, 700⟩])
      ⟨k, 1, clockMs (5999999 + 1009000000)⟩).2 = .allow := by
  intro l k entries
  have hdeny : (l.check entries ⟨k, 1, clockMs 5999999⟩).2 = .deny 1009000000 := by decide +kernel
  exact ⟨hdeny, retryAfter_enough l (by decide) entries k 1 5999999 1009000000 (5999999 + 1009000000) (by decide) hdeny
    [⟨⟨⟨2⟩, ⟨0⟩, none⟩, 1, 700⟩] (by decide) le_rfl (by decide) (by decide)⟩

end Riftgate.RateLimit
