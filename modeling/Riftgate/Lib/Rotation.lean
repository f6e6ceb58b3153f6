import Mathlib.Algebra.BigOperators.Group.Finset.Piecewise
import Mathlib.Algebra.Order.BigOperators.Group.Finset
import Mathlib.Data.Finset.Max
import Mathlib.Data.Int.CardIntervalMod
import Mathlib.Tactic.LinearCombination

/-!
# A rotation that a wrapping counter drives

A counter runs up to `T`, wraps around, and is taken modulo `n`. A window is the `m` values from `c` on. When `n` does
not divide `T`, the rotation jumps where the counter wraps. The slots below `T % n` gain from each jump.
-/

namespace Lib.Rotation

variable {T n c k m : ℕ}

/-- How often slot `k` comes up. -/
def hits (T n c m k : ℕ) : ℕ := Nat.count (fun i => (c + i) % T % n = k) m

/-- The slot comes up once more in an unfinished round. -/
def more (k x : ℕ) : ℕ := if k < x then 1 else 0

theorem more_cases (k x : ℕ) : k < x ∧ more k x = 1 ∨ x ≤ k ∧ more k x = 0 := by
  unfold more
  split <;> omega

theorem count_mod (hk : k < n) (x : ℕ) : Nat.count (fun i => i % n = k) x = x / n + more k (x % n) := by
  have h := Nat.count_modEq_card x (Nat.zero_lt_of_lt hk) k
  rw [Nat.mod_eq_of_lt hk] at h
  rw [more, ← h]
  congr 1
  funext i
  rw [Nat.ModEq, Nat.mod_eq_of_lt hk]

theorem count_congr {p q : ℕ → Prop} [DecidablePred p] [DecidablePred q] {x : ℕ} (h : ∀ i < x, p i ↔ q i) :
    Nat.count p x = Nat.count q x :=
  le_antisymm (Nat.count_mono_left fun i hi hp => (h i hi).mp hp) (Nat.count_mono_left fun i hi hq => (h i hi).mpr hq)

theorem count_early (hk : k < n) {x : ℕ} (hx : x ≤ T) :
    Nat.count (fun i => i % T % n = k) x = x / n + more k (x % n) := by
  rw [← count_mod hk]
  refine count_congr fun i hi => ?_
  rw [Nat.mod_eq_of_lt (hi.trans_le hx)]

theorem count_wraps (hk : k < n) (w : ℕ) {x : ℕ} (hx : x ≤ T) :
    Nat.count (fun i => i % T % n = k) (w * T + x) = w * (T / n + more k (T % n)) + (x / n + more k (x % n)) := by
  induction w with
  | zero => rw [Nat.zero_mul, Nat.zero_mul, Nat.zero_add, Nat.zero_add, count_early hk hx]
  | succ w ih =>
    have hsplit : (w + 1) * T + x = T + (w * T + x) := by ring
    rw [hsplit, Nat.count_add, count_early hk le_rfl]
    simp only [Nat.add_mod_left]
    rw [ih]
    ring

theorem hits_eq (hk : k < n) (hc : c < T) :
    hits T n c m k + (c / n + more k (c % n)) =
      (c + m) / T * (T / n + more k (T % n)) + ((c + m) % T / n + more k ((c + m) % T % n)) := by
  have hsplit : c + m = (c + m) / T * T + (c + m) % T := by rw [Nat.mul_comm, Nat.div_add_mod]
  have hwhole := count_wraps hk ((c + m) / T) (Nat.mod_lt (c + m) (Nat.zero_lt_of_lt hc)).le
  rw [← hsplit, Nat.count_add, count_early hk hc.le] at hwhole
  rw [← hwhole, hits, Nat.add_comm]

theorem sum_hits (hn : 0 < n) : ∑ k ∈ Finset.range n, hits T n c m k = m := by
  induction m with
  | zero => simp [hits]
  | succ m ih =>
    have hslot : (c + m) % T % n ∈ Finset.range n := Finset.mem_range.mpr (Nat.mod_lt _ hn)
    simp only [hits] at ih
    simp only [hits, Nat.count_succ, Finset.sum_add_distrib, Finset.sum_ite_eq, if_pos hslot, ih]

/-! ## Fair windows -/

/-- Each slot comes up `⌊m / n⌋` or `⌈m / n⌉` times. -/
def Fair (T n c m : ℕ) : Prop := ∀ k < n, hits T n c m k = m / n ∨ hits T n c m k = (m + n - 1) / n

theorem ceil_le_floor_succ (hn : 0 < n) (m : ℕ) : (m + n - 1) / n ≤ m / n + 1 := by
  rw [← Nat.add_div_right m hn]
  exact Nat.div_le_div_right (Nat.sub_le _ _)

/-- Shares of a whole are the two nearest to equal ones when no two of them differ by more than one. -/
theorem shares_iff (hn : 0 < n) {share : ℕ → ℕ} (hsum : ∑ k ∈ Finset.range n, share k = m) :
    (∀ k < n, share k = m / n ∨ share k = (m + n - 1) / n) ↔ ∀ j < n, ∀ k < n, share j ≤ share k + 1 := by
  constructor
  · intro h j hj k hk
    have hceil := ceil_le_floor_succ hn m
    have hfloor : m / n ≤ (m + n - 1) / n := Nat.div_le_div_right (by omega)
    rcases h j hj with hj | hj <;> rcases h k hk with hk | hk <;> omega
  · intro h k hk
    obtain ⟨j, hj, hleast⟩ := Finset.exists_min_image (Finset.range n) share ⟨0, Finset.mem_range.mpr hn⟩
    have hmost : ∀ i ∈ Finset.range n, share i ≤ share j + 1 := fun i hi =>
      h i (Finset.mem_range.mp hi) j (Finset.mem_range.mp hj)
    have hlow : n * share j ≤ m := by
      rw [← hsum]
      simpa using Finset.card_nsmul_le_sum _ share (share j) hleast
    have hhigh : m < n * (share j + 1) := by
      rw [← hsum]
      simpa using Finset.sum_lt_sum hmost ⟨j, hj, Nat.lt_succ_self _⟩
    have hfloor : m / n = share j := Nat.div_eq_of_lt_le (by rwa [Nat.mul_comm]) (by rwa [Nat.mul_comm])
    have hk' := Finset.mem_range.mpr hk
    rcases Nat.lt_or_ge (share j) (share k) with hgt | hle
    · right
      have hstrict : n * share j < m := by
        rw [← hsum]
        simpa using Finset.sum_lt_sum hleast ⟨k, hk', hgt⟩
      have hmost_k := hmost k hk'
      rw [Nat.mul_succ] at hhigh
      have hceil : (m + n - 1) / n = share j + 1 :=
        Nat.div_eq_of_lt_le (by rw [Nat.succ_mul, Nat.mul_comm]; omega)
          (by rw [Nat.succ_mul, Nat.succ_mul, Nat.mul_comm]; omega)
      omega
    · left
      rw [hfloor]
      exact le_antisymm hle (hleast k hk')

/-! ## Where the window begins and ends -/

/-- What slot `k` gets beyond the rounds that all slots get: the window begins at slot `u` of a round, wraps `w` times
and ends at slot `v`, and the slots below `r` gain from a wrap. -/
def surplus (w r u v k : ℕ) : ℤ := w * more k r + more k v - more k u

/-- The jumps of the rotation cancel out. -/
def Kept (w r u v : ℕ) : Prop :=
  r = 0 ∨ w = 0 ∨ (w = 1 ∧ (u = r ∨ v = 0 ∨ (v ≤ u ∧ u < r) ∨ (r < u ∧ u ≤ v))) ∨ (w = 2 ∧ u = r ∧ v = 0)

section Surplus

variable {w r u v : ℕ}

theorem surplus_le_of_kept (h : Kept w r u v) (j k : ℕ) : surplus w r u v j ≤ surplus w r u v k + 1 := by
  unfold surplus
  have hjr := more_cases j r
  have hju := more_cases j u
  have hjv := more_cases j v
  have hkr := more_cases k r
  have hku := more_cases k u
  have hkv := more_cases k v
  rcases h with rfl | rfl | ⟨rfl, h⟩ | ⟨rfl, h⟩
  · simp only [more, Nat.not_lt_zero, if_false] at *
    push_cast
    omega
  · push_cast
    omega
  · push_cast
    omega
  · push_cast
    omega

theorem surplus_of_lt {k : ℕ} (h : k < r) : surplus w r u v k = w + more k v - more k u := by
  rw [surplus, more, if_pos h, Nat.cast_one, mul_one]

theorem surplus_of_le {k : ℕ} (h : r ≤ k) : surplus w r u v k = more k v - more k u := by
  rw [surplus, more, if_neg (Nat.not_lt.mpr h), Nat.cast_zero, mul_zero, zero_add]

theorem surplus_le_one (hr : r < n) (hu : u < n) (hv : v < n)
    (h : ∀ j < n, ∀ k < n, surplus w r u v j ≤ surplus w r u v k + 1) {k : ℕ} (hk : k < n) :
    surplus w r u v k ≤ 1 := by
  have hlast := h k hk (n - 1) (by omega)
  rw [surplus_of_le (k := n - 1) (by omega)] at hlast
  have hnone := more_cases (n - 1) v
  have hnone' := more_cases (n - 1) u
  omega

theorem kept_of_surplus_le (hr : r < n) (hu : u < n) (hv : v < n)
    (h : ∀ j < n, ∀ k < n, surplus w r u v j ≤ surplus w r u v k + 1) : Kept w r u v := by
  unfold Kept
  rcases Nat.eq_zero_or_pos r with hzero | hpos
  · exact Or.inl hzero
  rcases Nat.lt_trichotomy u r with hlt | heq | hgt
  · -- the slot at which the window begins
    have hbegin := surplus_le_one hr hu hv h hu
    rw [surplus_of_lt hlt] at hbegin
    have huu := more_cases u u
    have huv := more_cases u v
    omega
  · have hfirst := surplus_le_one hr hu hv h (hpos.trans hr)
    rw [surplus_of_lt hpos] at hfirst
    have hfirst_u := more_cases 0 u
    have hfirst_v := more_cases 0 v
    omega
  · -- the first slot and the one before the window begins
    have hfirst := h 0 (hpos.trans hr) (u - 1) (by omega)
    rw [surplus_of_lt hpos, surplus_of_le (k := u - 1) (by omega)] at hfirst
    have hfirst_u := more_cases 0 u
    have hfirst_v := more_cases 0 v
    have hbefore_u := more_cases (u - 1) u
    have hbefore_v := more_cases (u - 1) v
    omega

end Surplus

theorem hits_sub_hits (hc : c < T) {j : ℕ} (hj : j < n) (hk : k < n) :
    (hits T n c m j : ℤ) - hits T n c m k =
      surplus ((c + m) / T) (T % n) (c % n) ((c + m) % T % n) j -
        surplus ((c + m) / T) (T % n) (c % n) ((c + m) % T % n) k := by
  have hj := congrArg (Nat.cast (R := ℤ)) (hits_eq (m := m) hj hc)
  have hk := congrArg (Nat.cast (R := ℤ)) (hits_eq (m := m) hk hc)
  simp only [Nat.cast_add, Nat.cast_mul] at hj hk
  unfold surplus
  linear_combination hj - hk

/-- A window is fair exactly when its jumps cancel out. -/
theorem fair_iff (hn : 0 < n) (hc : c < T) :
    Fair T n c m ↔ Kept ((c + m) / T) (T % n) (c % n) ((c + m) % T % n) := by
  unfold Fair
  rw [shares_iff hn (sum_hits hn)]
  constructor
  · intro h
    refine kept_of_surplus_le (Nat.mod_lt _ hn) (Nat.mod_lt _ hn) (Nat.mod_lt _ hn) fun j hj k hk => ?_
    have hdiff := hits_sub_hits (m := m) hc hj hk
    have hle := h j hj k hk
    omega
  · intro h j hj k hk
    have hdiff := hits_sub_hits (m := m) hc hj hk
    have hle := surplus_le_of_kept h j k
    omega

/-- All windows are fair exactly when the rotation does not jump. -/
theorem forall_fair_iff (hn : 0 < n) (hc : c < T) : (∀ m, Fair T n c m) ↔ n ∣ T := by
  rw [Nat.dvd_iff_mod_eq_zero]
  constructor
  · intro h
    have hlong := (fair_iff hn hc).mp (h (3 * T - c))
    have hend : c + (3 * T - c) = 3 * T := by omega
    rw [hend, Nat.mul_div_cancel _ (Nat.zero_lt_of_lt hc)] at hlong
    unfold Kept at hlong
    omega
  · intro h m
    exact (fair_iff hn hc).mpr (Or.inl h)

end Lib.Rotation
