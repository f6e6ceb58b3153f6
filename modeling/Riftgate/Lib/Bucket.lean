import Mathlib.Algebra.BigOperators.Ring.List
import Mathlib.Algebra.Order.Ring.Nat

/-!
# Token buckets

A bucket that holds at most `cap` and gains at most `rate` for each tick of its clock. What it gives
out in any window of time is bounded, whatever the payments were.
-/

namespace Lib

/-! ## What a log spends in a window -/

/-- The payments of the log, a time and an amount each, at times from `lo` to `hi`. -/
def spent (log : List (Nat × Nat)) (lo hi : Nat) : Nat :=
  ((log.filter fun p => lo ≤ p.1 ∧ p.1 ≤ hi).map (·.2)).sum

@[simp] theorem spent_nil (lo hi : Nat) : spent [] lo hi = 0 := rfl

theorem spent_snoc (log : List (Nat × Nat)) (t n lo hi : Nat) :
    spent (log ++ [(t, n)]) lo hi = spent log lo hi + if lo ≤ t ∧ t ≤ hi then n else 0 := by
  unfold spent
  rw [List.filter_append, List.map_append, List.sum_append]
  by_cases h : lo ≤ t ∧ t ≤ hi
  · simp [h]
  · simp [h]

theorem spent_after {log : List (Nat × Nat)} {t lo : Nat} (h : ∀ p ∈ log, p.1 ≤ t) (hlo : t < lo) (hi : Nat) :
    spent log lo hi = 0 := by
  unfold spent
  rw [List.filter_eq_nil_iff.mpr]
  · rfl
  · intro p hp
    have := h p hp
    simp only [decide_eq_true_eq]
    omega

theorem spent_until {log : List (Nat × Nat)} {t hi hi' : Nat} (h : ∀ p ∈ log, p.1 ≤ t) (ht : t ≤ hi) (ht' : t ≤ hi')
    (lo : Nat) : spent log lo hi = spent log lo hi' := by
  unfold spent
  congr 2
  apply List.filter_congr
  intro p hp
  have := h p hp
  simp only [decide_eq_decide]
  omega

/-! ## The bucket -/

/-- `since` looks back from the last payment, and `window` is what it leaves behind. -/
structure Bucket (cap rate : Nat) where
  tokens : Nat
  time : Nat
  log : List (Nat × Nat)
  past : ∀ p ∈ log, p.1 ≤ time
  since : ∀ w ≤ time, spent log w time + tokens ≤ cap + rate * (time - w)
  window : ∀ w T, spent log w (w + T) ≤ cap + rate * T

namespace Bucket

variable {cap rate : Nat}

def new (tokens time : Nat) (h : tokens ≤ cap) : Bucket cap rate where
  tokens := tokens
  time := time
  log := []
  past := by simp
  since w _ := by simp only [spent_nil]; omega
  window w T := Nat.zero_le _

variable (B : Bucket cap rate) {time left cost : Nat}

/-- Before a payment the bucket holds `left + cost`, which is no more than it can have gained. -/
structure Affords (time left cost : Nat) : Prop where
  time_le : B.time ≤ time
  le_cap : left + cost ≤ cap
  le_gained : left + cost ≤ B.tokens + rate * (time - B.time)

theorem since_move (h : B.Affords time left cost) {w : Nat} (hw : w ≤ time) :
    spent B.log w time + cost + left ≤ cap + rate * (time - w) := by
  by_cases hold : w ≤ B.time
  · -- The window reaches back behind the last payment.
    have hsplit : rate * (time - w) = rate * (B.time - w) + rate * (time - B.time) := by
      rw [← Nat.mul_add]
      congr 1
      have := h.time_le
      omega
    have hsame := spent_until B.past h.time_le le_rfl w
    have h1 := B.since w hold
    have h2 := h.le_gained
    omega
  · have hzero := spent_after B.past (by omega : B.time < w) time
    have h1 := h.le_cap
    omega

def refill (h : B.Affords time left 0) : Bucket cap rate where
  tokens := left
  time := time
  log := B.log
  past p hp := (B.past p hp).trans h.time_le
  since _ hw := B.since_move h hw
  window := B.window

def pay (h : B.Affords time left cost) : Bucket cap rate where
  tokens := left
  time := time
  log := B.log ++ [(time, cost)]
  past p hp := by
    rw [List.mem_append, List.mem_singleton] at hp
    rcases hp with hp | rfl
    · exact (B.past p hp).trans h.time_le
    · exact le_rfl
  since w hw := by
    rw [spent_snoc, if_pos ⟨hw, le_rfl⟩]
    exact B.since_move h hw
  window w T := by
    rw [spent_snoc]
    split
    · rename_i hin
      have hsame := spent_until B.past (h.time_le.trans hin.2) h.time_le w
      have h1 := B.since_move h hin.1
      have h2 : rate * (time - w) ≤ rate * T := Nat.mul_le_mul_left _ (by omega)
      omega
    · exact B.window w T

end Bucket

end Lib
