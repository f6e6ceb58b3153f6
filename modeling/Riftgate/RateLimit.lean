import Mathlib.Algebra.Order.BigOperators.Group.List
import Riftgate.Lib.Bucket
import Riftgate.Lib.Words
import Riftgate.Code.RateLimit

/-!
# What the token bucket admits

The packed entry of a subject is a bucket of the library, counted in thousandths of a scaled token.
The exchange of a call moves that bucket on, unless the call has read the clock before the time
that the entry holds. Then the wrapping difference of the two is near `2 ^ 32`, and it fills the
bucket.
-/

open Lib

namespace Riftgate.RateLimit

/-! ## One round of the loop -/

theorem scale_toNat : tokenBucketScale.toNat = 65536 := by decide

theorem unpack_pack (tokens : UInt64) (lastRefillMs : UInt32) (h : tokens.toNat < 2 ^ 32) :
    unpack (pack tokens lastRefillMs) = (tokens, lastRefillMs) := by
  have hmin : min tokens 0xFFFFFFFF = tokens := by
    rw [← UInt64.toNat_inj, toNat_min]
    have : (0xFFFFFFFF : UInt64).toNat = 2 ^ 32 - 1 := by decide
    omega
  unfold unpack pack
  rw [high_halves, low_halves, hmin, Prod.mk.injEq, ← UInt64.toNat_inj]
  refine ⟨?_, rfl⟩
  rw [UInt32.toNat_toUInt64, UInt64.toNat_toUInt32]
  omega

theorem saturatingScaledBurst_le (burst : UInt32) :
    (saturatingScaledBurst burst).toNat ≤ burst.toNat * 65536 ∧ (saturatingScaledBurst burst).toNat < 2 ^ 32 := by
  have hmax : (0xFFFFFFFF : UInt64).toNat = 2 ^ 32 - 1 := by decide
  have hmod := Nat.mod_le (burst.toNat * 65536) (2 ^ 64)
  unfold saturatingScaledBurst
  rw [toNat_min, UInt64.toNat_mul, UInt32.toNat_toUInt64, scale_toNat]
  omega

theorem costScaled_toNat (units : UInt32) : (units.toUInt64 * tokenBucketScale).toNat = units.toNat * 65536 := by
  have := units.toNat_lt
  rw [UInt64.toNat_mul, UInt32.toNat_toUInt64, scale_toNat]
  omega

namespace TokenBucketLimiter

variable (l : TokenBucketLimiter)

/-- In thousandths of a scaled token: what a bucket holds at most, and what it gains in one ms. -/
def cap : Nat := l.cfg.burst.toNat * 65536 * 1000

def gain : Nat := l.cfg.ratePerSec.toNat * 65536

/-- A product that wraps around only makes the refill smaller. -/
theorem refillScaled_le (elapsedMs : UInt32) : (l.refillScaled elapsedMs).toNat * 1000 ≤ l.gain * elapsedMs.toNat := by
  have h1 := Nat.mod_le (elapsedMs.toNat * l.cfg.ratePerSec.toNat) (2 ^ 64)
  have h2 := Nat.mod_le (elapsedMs.toNat * l.cfg.ratePerSec.toNat % 2 ^ 64 * 65536) (2 ^ 64)
  have h3 := Nat.div_mul_le_self (elapsedMs.toNat * l.cfg.ratePerSec.toNat % 2 ^ 64 * 65536 % 2 ^ 64) 1000
  have h1000 : (1000 : UInt64).toNat = 1000 := by decide
  unfold refillScaled gain
  rw [UInt64.toNat_div, UInt64.toNat_mul, UInt64.toNat_mul, UInt32.toNat_toUInt64, UInt32.toNat_toUInt64, scale_toNat,
    h1000, Nat.mul_right_comm, Nat.mul_comm l.cfg.ratePerSec.toNat]
  omega

theorem afterRefill_le (nowMs : UInt32) (observed : UInt64) :
    (l.afterRefill nowMs observed).toNat < 2 ^ 32 ∧ (l.afterRefill nowMs observed).toNat * 1000 ≤ l.cap ∧
      (l.afterRefill nowMs observed).toNat * 1000 ≤
        (unpack observed).1.toNat * 1000 + l.gain * (nowMs - (unpack observed).2).toNat := by
  obtain ⟨hb1, hb2⟩ := saturatingScaledBurst_le l.cfg.burst
  have hr := l.refillScaled_le (nowMs - (unpack observed).2)
  have hsum := Nat.mod_le ((unpack observed).1.toNat + (l.refillScaled (nowMs - (unpack observed).2)).toNat) (2 ^ 64)
  unfold afterRefill cap
  simp only [toNat_min, UInt64.toNat_add]
  omega

def taken (costScaled : UInt64) : LimitDecision → Nat
  | .allow => costScaled.toNat
  | .deny _ => 0

theorem taken_deny (costScaled : UInt64) (retryAfter : Nat) : taken costScaled (.deny retryAfter) = 0 := rfl

theorem attempt_spec {nowMs : UInt32} {costScaled observed newState : UInt64} {decision : LimitDecision}
    (h : l.attempt nowMs costScaled observed = (newState, decision)) :
    (unpack newState).2 = nowMs ∧
      (unpack newState).1.toNat + taken costScaled decision = (l.afterRefill nowMs observed).toNat := by
  have hlt := (l.afterRefill_le nowMs observed).1
  unfold attempt at h
  simp only at h
  split at h
  · rw [Prod.mk.injEq] at h
    obtain ⟨rfl, rfl⟩ := h
    rw [unpack_pack _ _ hlt]
    refine ⟨rfl, ?_⟩
    rw [taken_deny, Nat.add_zero]
  · rename_i hnot
    rw [Prod.mk.injEq] at h
    obtain ⟨rfl, rfl⟩ := h
    have hle := UInt64.not_lt.mp hnot
    have hle' := UInt64.le_iff_toNat_le.mp hle
    have hsub := UInt64.toNat_sub_of_le _ _ hle
    rw [unpack_pack _ _ (by omega)]
    refine ⟨rfl, ?_⟩
    simp only [taken]
    omega

end TokenBucketLimiter

/-! ## The steps, one by one -/

def Call.args : Call → Option CheckArgs
  | .idle => none
  | .read c | .entered c | .loaded c _ | .returned c _ => some c

inductive Steps (l : TokenBucketLimiter) (s : State) : Label → State → Prop where
  | tick (ms : Nat) : Steps l s (.tick ms) { s with clock := s.clock + ms }
  | check (i : Nat) (k : SubjectKey) (cost : UInt32) :
      Steps l s (.check i k cost) (s.setCall i (.read ⟨k, cost, s.clock⟩))
  | insert {i : Nat} {c : CheckArgs} (hcall : s.calls i = .read c) (hnone : s.entries c.subject = none) :
      Steps l s (.entry i) ((s.setEntry c.subject ⟨l.fullState c.nowMs, c.readAt⟩).setCall i (.entered c))
  | found {i : Nat} {c : CheckArgs} (hcall : s.calls i = .read c) : Steps l s (.entry i) (s.setCall i (.entered c))
  | load {i : Nat} {c : CheckArgs} (observed : UInt64) (hcall : s.calls i = .entered c) :
      Steps l s (.load i) (s.setCall i (.loaded c observed))
  | stored {i : Nat} {c : CheckArgs} {e : Entry} {newState : UInt64} {decision : LimitDecision}
      (hcall : s.calls i = .loaded c e.state) (hentry : s.entries c.subject = some e)
      (hr : c.attempt l e.state = (newState, decision)) :
      Steps l s (.compareExchange i)
        { (s.setEntry c.subject ⟨newState, c.readAt⟩).setCall i (.returned c decision) with
          admitted := if decision = .allow then s.admitted ++ [⟨c, s.clock⟩] else s.admitted }
  | raced {i : Nat} {c : CheckArgs} {observed : UInt64} (call : Call) (hcall : s.calls i = .loaded c observed)
      (hargs : call.args = some c) : Steps l s (.compareExchange i) (s.setCall i call)

theorem steps_exchange {l : TokenBucketLimiter} {s : State} {i : Nat} {c : CheckArgs} {observed : UInt64} {e : Entry}
    (hcall : s.calls i = .loaded c observed) (hentry : s.entries c.subject = some e) :
    Steps l s (.compareExchange i) (s.exchange l i c observed e) := by
  unfold State.exchange
  simp only
  split
  · rename_i hsame
    subst hsame
    have hstored := Steps.stored hcall hentry (Prod.mk.eta (p := c.attempt l e.state)).symm
    split
    · rename_i hallow
      rwa [if_pos hallow] at hstored
    · rename_i hdeny
      rwa [if_neg hdeny] at hstored
  · split
    · exact .raced _ hcall rfl
    · exact .raced _ hcall rfl

theorem steps_of_step {l : TokenBucketLimiter} {s s' : State} {a : Label} (h : s.step l a = some s') :
    Steps l s a s' := by
  unfold State.step at h
  split at h
  · cases h
    exact .tick _
  · split at h <;> cases h
    exact .check _ _ _
  · split at h
    · rename_i i _ c hcall
      cases h
      cases hentry : s.entries c.subject with
      | none => exact .insert hcall hentry
      | some e =>
        have hsame : s.setEntry c.subject e = s := by
          unfold State.setEntry
          rw [← hentry, Function.update_eq_self]
        simp only [Option.getD_some, hsame]
        exact .found hcall
    · cases h
  · split at h
    · rename_i c hcall
      obtain ⟨e, -, rfl⟩ := Option.map_eq_some_iff.mp h
      exact .load _ hcall
    · cases h
  · split at h
    · rename_i c observed hcall
      obtain ⟨e, hentry, rfl⟩ := Option.map_eq_some_iff.mp h
      exact steps_exchange hcall hentry
    · cases h

/-! ## The entry is a bucket -/

section

variable (l : TokenBucketLimiter)

def payments (admitted : List Admission) (k : SubjectKey) : List (Nat × Nat) :=
  (admitted.filter fun a => a.call.subject = k).map fun a => (a.readAt, (a.call.units l).toNat * 65536 * 1000)

theorem spent_payments (s : State) (k : SubjectKey) (w T : Nat) :
    spent (payments l s.admitted k) w (w + T) = s.admittedIn l Admission.readAt k w T * (65536 * 1000) := by
  unfold spent payments State.admittedIn
  rw [List.filter_map, List.filter_filter, List.map_map, ← List.sum_map_mul_right]
  have hfilter : ∀ a : Admission, (decide (w ≤ a.readAt ∧ a.readAt ≤ w + T) && decide (a.call.subject = k)) =
      decide (a.call.subject = k ∧ w ≤ a.readAt ∧ a.readAt ≤ w + T) := by
    intro a
    rw [← Bool.decide_and, decide_eq_decide]
    exact and_comm
  simp only [Function.comp_def, hfilter, Nat.mul_assoc]

structure IsBucket (admitted : List Admission) (k : SubjectKey) (e : Entry) (B : Bucket l.cap l.gain) : Prop where
  tokens : B.tokens = (unpack e.state).1.toNat * 1000
  time : B.time = e.refilledAt
  log : B.log = payments l admitted k
  last : (unpack e.state).2 = UInt32.ofNat e.refilledAt

structure Sound (s : State) : Prop where
  bucket : ∀ k e, s.entries k = some e → ∃ B, IsBucket l s.admitted k e B
  fresh : ∀ k, s.entries k = none → payments l s.admitted k = []

/-- A call that stores its state has not read the clock before the time that the entry holds. -/
def InOrder (s : State) : Label → Prop
  | .compareExchange i => ∀ c e, s.calls i = .loaded c e.state → s.entries c.subject = some e →
      e.refilledAt ≤ c.readAt
  | _ => True

variable {l}

theorem payments_snoc (admitted : List Admission) (a : Admission) (k : SubjectKey) :
    payments l (admitted ++ [a]) k = payments l admitted k ++
      if a.call.subject = k then [(a.readAt, (a.call.units l).toNat * 65536 * 1000)] else [] := by
  unfold payments
  rw [List.filter_append, List.map_append]
  by_cases h : a.call.subject = k
  · simp [h]
  · simp [h]

section

variable {admitted : List Admission} {e : Entry} {B : Bucket l.cap l.gain} {c : CheckArgs} {newState : UInt64}
  {decision : LimitDecision}

theorem affords_attempt (hB : IsBucket l admitted c.subject e B) (hle : e.refilledAt ≤ c.readAt)
    (h : c.attempt l e.state = (newState, decision)) :
    B.Affords c.readAt ((unpack newState).1.toNat * 1000)
      (TokenBucketLimiter.taken ((c.units l).toUInt64 * tokenBucketScale) decision * 1000) := by
  have hspec := (l.attempt_spec h).2
  obtain ⟨-, hcap, hgain⟩ := l.afterRefill_le c.nowMs e.state
  have helapsed : l.gain * (c.nowMs - (unpack e.state).2).toNat ≤ l.gain * (c.readAt - e.refilledAt) := by
    rw [hB.last]
    exact Nat.mul_le_mul_left _ (elapsed_le hle)
  refine ⟨?_, ?_, ?_⟩
  · rw [hB.time]
    exact hle
  · rw [← Nat.add_mul, hspec]
    exact hcap
  · rw [← Nat.add_mul, hspec, hB.tokens, hB.time]
    exact hgain.trans (Nat.add_le_add_left helapsed _)

theorem IsBucket.attempt (hB : IsBucket l admitted c.subject e B) (hle : e.refilledAt ≤ c.readAt)
    (h : c.attempt l e.state = (newState, decision)) (now : Nat) :
    ∃ B', IsBucket l (if decision = .allow then admitted ++ [⟨c, now⟩] else admitted) c.subject
      ⟨newState, c.readAt⟩ B' := by
  have haff := affords_attempt hB hle h
  have hlast := (l.attempt_spec h).1
  cases decision with
  | allow =>
    refine ⟨B.pay haff, rfl, rfl, ?_, hlast⟩
    simp only [Bucket.pay, hB.log, if_true, payments_snoc, TokenBucketLimiter.taken, costScaled_toNat, Admission.readAt]
  | deny retryAfter =>
    simp only [TokenBucketLimiter.taken, Nat.zero_mul] at haff
    exact ⟨B.refill haff, rfl, rfl, hB.log, hlast⟩

end

/-! ## All steps -/

theorem full_isBucket (l : TokenBucketLimiter) {admitted : List Admission} {k : SubjectKey} (readAt : Nat)
    (h : payments l admitted k = []) :
    ∃ B, IsBucket l admitted k ⟨l.fullState (UInt32.ofNat readAt), readAt⟩ B := by
  obtain ⟨hb1, hb2⟩ := saturatingScaledBurst_le l.cfg.burst
  have hfull : unpack (l.fullState (UInt32.ofNat readAt)) =
      (saturatingScaledBurst l.cfg.burst, UInt32.ofNat readAt) := unpack_pack _ _ hb2
  have hcap : (saturatingScaledBurst l.cfg.burst).toNat * 1000 ≤ l.cap := Nat.mul_le_mul_right _ hb1
  refine ⟨.new ((saturatingScaledBurst l.cfg.burst).toNat * 1000) readAt hcap, ?_, rfl, h.symm, ?_⟩
  · simp only [hfull]
    rfl
  · simp only [hfull]

theorem payments_other {admitted : List Admission} {c : CheckArgs} {k : SubjectKey} (now : Nat) (hk : k ≠ c.subject)
    (decision : LimitDecision) :
    payments l (if decision = .allow then admitted ++ [⟨c, now⟩] else admitted) k = payments l admitted k := by
  split
  · rw [payments_snoc, if_neg (Ne.symm hk), List.append_nil]
  · rfl

theorem Sound.setEntry {s s' : State} (h : Sound l s) {k : SubjectKey} {e : Entry}
    (hent : s'.entries = Function.update s.entries k (some e)) (hB : ∃ B, IsBucket l s'.admitted k e B)
    (hother : ∀ k', k' ≠ k → payments l s'.admitted k' = payments l s.admitted k') : Sound l s' where
  bucket k' e' he' := by
    rw [hent, Function.update_apply] at he'
    split at he'
    · rename_i hk
      cases he'
      exact hk ▸ hB
    · rename_i hk
      obtain ⟨B, hB⟩ := h.bucket k' e' he'
      exact ⟨B, hB.tokens, hB.time, hB.log.trans (hother k' hk).symm, hB.last⟩
  fresh k' hk' := by
    rw [hent, Function.update_apply] at hk'
    split at hk'
    · cases hk'
    · rename_i hk
      exact (hother k' hk).trans (h.fresh k' hk')

theorem sound_step {s s' : State} {a : Label} (h : Sound l s) (hc : InOrder s a) (hs : Steps l s a s') :
    Sound l s' := by
  cases hs with
  | tick | check | found | load | raced => exact ⟨h.bucket, h.fresh⟩
  | insert hcall hnone => exact h.setEntry rfl (full_isBucket l _ (h.fresh _ hnone)) fun _ _ => rfl
  | stored hcall hentry hr =>
    obtain ⟨B, hB⟩ := h.bucket _ _ hentry
    have hle := hc _ _ hcall hentry
    exact h.setEntry rfl (hB.attempt hle hr s.clock) fun _ hk => payments_other s.clock hk _

theorem sound_reach {s : State} (hs : (limiter l).Reach InOrder s) : Sound l s := by
  apply Machine.Reach.invariant _ _ hs
  · constructor
    · intro k e he
      cases he
    · intro k _
      rfl
  · intro s a s' _ h hc hstep
    exact sound_step h hc (steps_of_step hstep)

end

/-! ## Calls store after they have read -/

structure Clocked (s : State) : Prop where
  calls : ∀ i c, (s.calls i).args = some c → c.readAt ≤ s.clock
  admitted : ∀ a ∈ s.admitted, a.readAt ≤ a.storedAt

theorem Clocked.setCall {s : State} (h : Clocked s) {i : Nat} {call : Call}
    (hcall : ∀ c, call.args = some c → c.readAt ≤ s.clock) : Clocked (s.setCall i call) where
  calls i' c hc := by
    simp only [State.setCall, Function.update_apply] at hc
    split at hc
    · exact hcall c hc
    · exact h.calls i' c hc
  admitted := h.admitted

theorem clocked_step {l : TokenBucketLimiter} {s s' : State} {a : Label} (h : Clocked s) (hs : Steps l s a s') :
    Clocked s' := by
  -- A call keeps its arguments.
  have hkeep : ∀ {i c call}, (s.calls i).args = some c → call.args = some c → Clocked (s.setCall i call) := by
    intro i c call hi hargs
    apply h.setCall
    intro c' hc'
    rw [hargs, Option.some.injEq] at hc'
    exact hc' ▸ h.calls i c hi
  cases hs with
  | tick ms => exact ⟨fun i c hc => (h.calls i c hc).trans (Nat.le_add_right _ _), h.admitted⟩
  | check i k cost =>
    apply h.setCall
    intro c hc
    cases hc
    exact le_rfl
  | insert hcall _ => exact ⟨(hkeep (by rw [hcall]; rfl) rfl).calls, h.admitted⟩
  | found hcall => exact hkeep (by rw [hcall]; rfl) rfl
  | load observed hcall => exact hkeep (by rw [hcall]; rfl) rfl
  | raced call hcall hargs => exact hkeep (by rw [hcall]; rfl) hargs
  | @stored i c e newState decision hcall _ _ =>
    have hi : (s.calls i).args = some c := by rw [hcall]; rfl
    refine ⟨(hkeep hi rfl).calls, ?_⟩
    simp only
    split
    · intro x hx
      rw [List.mem_append, List.mem_singleton] at hx
      rcases hx with hx | rfl
      · exact h.admitted x hx
      · exact h.calls i c hi
    · exact h.admitted

theorem clocked_reach {l : TokenBucketLimiter} {C : State → Label → Prop} {s : State} (hs : (limiter l).Reach C s) :
    Clocked s := by
  apply Machine.Reach.invariant _ _ hs
  · constructor
    · intro i c hc
      cases hc
    · intro a ha
      cases ha
  · intro s a s' _ h _ hstep
    exact clocked_step h (steps_of_step hstep)

/-! ## The rate -/

/-- What a window of time may admit. The calls of a window are those that have read the clock in
it. If no call has stored its state more than `D` ms after that, then the calls that have stored
theirs in the window have no more than the share of a window that is longer by `D`. -/
structure WithinRate (l : TokenBucketLimiter) (s : State) : Prop where
  read : ∀ k w T, s.admittedIn l Admission.readAt k w T ≤ l.cfg.burst.toNat + l.cfg.ratePerSec.toNat * T / 1000
  stored : ∀ D, (∀ a ∈ s.admitted, a.storedAt ≤ a.readAt + D) → ∀ k w T,
    s.admittedIn l Admission.storedAt k w T ≤ l.cfg.burst.toNat + l.cfg.ratePerSec.toNat * (T + D) / 1000

theorem read_of_sound {l : TokenBucketLimiter} {s : State} (h : Sound l s) (k : SubjectKey) (w T : Nat) :
    s.admittedIn l Admission.readAt k w T ≤ l.cfg.burst.toNat + l.cfg.ratePerSec.toNat * T / 1000 := by
  have hspent : spent (payments l s.admitted k) w (w + T) ≤ l.cap + l.gain * T := by
    cases hentry : s.entries k with
    | none =>
      rw [h.fresh k hentry]
      exact Nat.zero_le _
    | some e =>
      obtain ⟨B, hB⟩ := h.bucket k e hentry
      rw [← hB.log]
      exact B.window w T
  rw [spent_payments] at hspent
  unfold TokenBucketLimiter.cap TokenBucketLimiter.gain at hspent
  rw [Nat.mul_right_comm l.cfg.ratePerSec.toNat] at hspent
  omega

theorem admittedIn_mono {l : TokenBucketLimiter} {s : State} {time time' : Admission → Nat} {w w' T T' : Nat}
    (h : ∀ a ∈ s.admitted, w ≤ time a → time a ≤ w + T → w' ≤ time' a ∧ time' a ≤ w' + T') (k : SubjectKey) :
    s.admittedIn l time k w T ≤ s.admittedIn l time' k w' T' := by
  have hfilter : (s.admitted.filter fun a => a.call.subject = k ∧ w ≤ time a ∧ time a ≤ w + T) =
      (s.admitted.filter fun a => a.call.subject = k ∧ w' ≤ time' a ∧ time' a ≤ w' + T').filter
        fun a => a.call.subject = k ∧ w ≤ time a ∧ time a ≤ w + T := by
    rw [List.filter_filter]
    apply List.filter_congr
    intro a ha
    rw [← Bool.decide_and, decide_eq_decide]
    constructor
    · rintro ⟨hk, hlo, hhi⟩
      exact ⟨⟨hk, hlo, hhi⟩, hk, h a ha hlo hhi⟩
    · exact And.left
  unfold State.admittedIn
  rw [hfilter]
  apply List.Sublist.sum_le_sum
  · exact List.filter_sublist.map _
  · intro n _
    exact Nat.zero_le n

/-- **The rate holds.** In each state of each run in which the calls of a subject store their
states in the order in which they have read the clock, no window has more than its share. -/
theorem withinRate_of_inOrder (l : TokenBucketLimiter) (s : State) (hs : (limiter l).Reach InOrder s) :
    WithinRate l s := by
  have hsound := sound_reach hs
  have hclocked := clocked_reach hs
  refine ⟨read_of_sound hsound, fun D hD k w T => ?_⟩
  calc s.admittedIn l Admission.storedAt k w T
      ≤ s.admittedIn l Admission.readAt k (w - D) (T + D) := by
        apply admittedIn_mono
        intro a ha hlo hhi
        have h1 := hD a ha
        have h2 := hclocked.admitted a ha
        omega
    _ ≤ _ := read_of_sound hsound k (w - D) (T + D)

/-- `InOrder` as a check, whatever the call has observed. -/
def inOrder (s : State) : Label → Bool
  | .compareExchange i =>
    match s.calls i with
    | .loaded c _ => (s.entries c.subject).all fun e => e.refilledAt ≤ c.readAt
    | _ => true
  | _ => true

theorem inOrder_of_check (s : State) (a : Label) (h : inOrder s a = true) : InOrder s a := by
  unfold InOrder
  split
  · intro c e hcall hentry
    simp only [inOrder, hcall, hentry, Option.all_some, decide_eq_true_eq] at h
    exact h
  · trivial

def checkAlone (i : Nat) (k : SubjectKey) : List Label := [.check i k 1, .entry i, .load i, .compareExchange i]

/-- Two calls that are one second apart. -/
theorem withinRate_of_inOrder_two :
    let l : TokenBucketLimiter := ⟨⟨1, 1, .request, 0⟩, by decide, by decide⟩
    let k : SubjectKey := ⟨⟨1⟩, ⟨0⟩, none⟩
    ∃ s, (limiter l).Reach InOrder s ∧ s.admittedIn l Admission.readAt k 0 1000 = 2 ∧ WithinRate l s := by
  intro l k
  have hrun : (((limiter l).restrict inOrder).run (checkAlone 0 k ++ [.tick 1000] ++ checkAlone 1 k)).map
      (fun s => decide (s.admittedIn l Admission.readAt k 0 1000 = 2)) = some true := by decide
  obtain ⟨s, hs, hp⟩ := Machine.exists_of_restrict (fun s a _ => inOrder_of_check s a) hrun
  exact ⟨s, hs, of_decide_eq_true hp, withinRate_of_inOrder l s hs⟩

/-- Call 0 reads the clock and is slow. Call 1 reads it 1 ms later and takes the only token. Then
call 0 finds a refill from the future, and it is admitted too. -/
theorem slow_call_over_admitted :
    let l : TokenBucketLimiter := ⟨⟨1, 1, .request, 0⟩, by decide, by decide⟩
    let k : SubjectKey := ⟨⟨1⟩, ⟨0⟩, none⟩
    ∃ s, (limiter l).Reachable s ∧ s.admittedIn l Admission.readAt k 5 1 = 2 ∧
      s.admittedIn l Admission.storedAt k 6 0 = 2 ∧ ¬ WithinRate l s := by
  intro l k
  have hrun : ((limiter l).run ([.tick 5, .check 0 k 1, .tick 1] ++ checkAlone 1 k ++
      [.entry 0, .load 0, .compareExchange 0])).map (fun s => decide (s.admittedIn l Admission.readAt k 5 1 = 2 ∧
        s.admittedIn l Admission.storedAt k 6 0 = 2)) = some true := by decide
  obtain ⟨s, hs, hp⟩ := Machine.exists_of_run hrun
  obtain ⟨hread, hstored⟩ := of_decide_eq_true hp
  refine ⟨s, hs, hread, hstored, fun h => ?_⟩
  have hle := h.read k 5 1
  rw [hread] at hle
  revert hle
  decide

end Riftgate.RateLimit
