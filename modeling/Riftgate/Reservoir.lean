import Mathlib.Algebra.BigOperators.Fin
import Mathlib.Algebra.Order.Field.Rat
import Mathlib.Data.Fintype.Pi
import Mathlib.Data.List.Nodup
import Mathlib.Tactic.FieldSimp
import Mathlib.Tactic.Ring
import Riftgate.Code.TokenLevel

/-!
# The sample of a reservoir

The samples are items of the stream, so it is enough to follow their positions. A position that is in the sample stays
there for all but one of the next draws. A new position gets in for `k` of them.
-/

namespace Riftgate.TokenLevel

/-- The reservoir after the first `n` items. At position `n` the draw is `draw n`. -/
def feed {α : Type} (k : Nat) (item : Nat → α) (draw : Nat → Nat) : Nat → VitterReservoir α
  | 0 => { capacity := k }
  | n + 1 => (feed k item draw n).add (item n) (draw n)

/-! ## Positions -/

/-- What a draw does to a full reservoir. -/
def replace {α : Type} (k : Nat) (l : List α) (x : α) (j : Nat) : List α := if j < k then l.set j x else l

theorem samples_add {α : Type} (r : VitterReservoir α) (x : α) (j : Nat) :
    (r.add x j).samples =
      if r.count < r.capacity then r.samples ++ [x] else replace r.capacity r.samples x j := by
  unfold VitterReservoir.add VitterReservoir.samples replace
  simp only [Nat.succ_le_iff]
  split
  · rfl
  · split <;> rfl

section Feed

variable {α : Type} (k : Nat) (item : Nat → α) (draw : Nat → Nat) (n : Nat)

theorem feed_count : (feed k item draw n).count = n ∧ (feed k item draw n).capacity = k := by
  induction n with
  | zero => exact ⟨rfl, rfl⟩
  | succ n ih =>
    unfold feed VitterReservoir.add
    simp only
    split
    · exact ⟨congrArg (· + 1) ih.1, ih.2⟩
    · split <;> exact ⟨congrArg (· + 1) ih.1, ih.2⟩

theorem samples_succ :
    (feed k item draw (n + 1)).samples =
      if n < k then (feed k item draw n).samples ++ [item n]
      else replace k (feed k item draw n).samples (item n) (draw n) := by
  obtain ⟨hcount, hcap⟩ := feed_count k item draw n
  rw [feed, samples_add, hcount, hcap]

theorem samples_eq_map : (feed k item draw n).samples = (feed k id draw n).samples.map item := by
  induction n with
  | zero => rfl
  | succ n ih =>
    rw [samples_succ, samples_succ, ih]
    split
    · rw [List.map_append]
      rfl
    · unfold replace
      split
      · rw [List.map_set]
        rfl
      · rfl

theorem samples_congr {draw' : Nat → Nat} (h : ∀ i < n, draw i = draw' i) :
    (feed k item draw n).samples = (feed k item draw' n).samples := by
  induction n with
  | zero => rfl
  | succ n ih => rw [samples_succ, samples_succ, ih fun i hi => h i (hi.trans (Nat.lt_succ_self n)),
      h n (Nat.lt_succ_self n)]

end Feed

structure Positions (k n : Nat) (l : List Nat) : Prop where
  length : l.length = min n k
  lt : ∀ p ∈ l, p < n
  nodup : l.Nodup

theorem positions_feed (k : Nat) (draw : Nat → Nat) (n : Nat) : Positions k n (feed k id draw n).samples := by
  induction n with
  | zero => exact ⟨(Nat.zero_min k).symm, List.forall_mem_nil _, List.nodup_nil⟩
  | succ n ih =>
    have hfresh : n ∉ (feed k id draw n).samples := fun h => Nat.lt_irrefl n (ih.lt n h)
    have hlater : ∀ p ∈ (feed k id draw n).samples, p < n + 1 := fun p hp => (ih.lt p hp).trans (Nat.lt_succ_self n)
    have hlength := ih.length
    rw [samples_succ]
    split
    · refine ⟨by rw [List.length_append, hlength, List.length_singleton]; omega, fun p hp => ?_, ?_⟩
      · rcases List.mem_append.mp hp with hp | hp
        · exact hlater p hp
        · rw [List.mem_singleton.mp hp]
          exact Nat.lt_succ_self n
      · exact List.nodup_append.mpr ⟨ih.nodup, List.nodup_singleton n, by
          intro p hp q hq
          rw [List.mem_singleton.mp hq]
          exact (ih.lt p hp).ne⟩
    · unfold replace
      split
      · refine ⟨by rw [List.length_set, hlength]; omega, fun p hp => ?_, ih.nodup.set hfresh⟩
        rcases List.mem_or_eq_of_mem_set hp with hp | hp
        · exact hlater p hp
        · rw [hp]
          exact Nat.lt_succ_self n
      · exact ⟨by rw [hlength]; omega, hlater, ih.nodup⟩

/-! ## One draw -/

section Replace

variable {k N i x : Nat} {l : List Nat}

theorem mem_replace_of_ne (hne : i ≠ x) {j : Nat} (h : i ∈ replace k l x j) : i ∈ l := by
  unfold replace at h
  split at h
  · exact (List.mem_or_eq_of_mem_set h).resolve_right hne
  · exact h

theorem mem_replace_iff (hlength : l.length = k) (hnodup : l.Nodup) (hne : i ≠ x) (hi : i ∈ l) (j : Nat) :
    i ∈ replace k l x j ↔ j ≠ l.idxOf i := by
  have hplace : l.idxOf i < l.length := List.idxOf_lt_length_of_mem hi
  unfold replace
  split
  · rename_i hj
    rw [List.mem_iff_getElem]
    constructor
    · rintro ⟨m, hm, hget⟩ rfl
      rw [List.length_set] at hm
      rw [List.getElem_set] at hget
      split at hget
      · exact hne hget.symm
      · rename_i hother
        exact hother (by rw [← hget, hnodup.idxOf_getElem])
    · intro hj'
      refine ⟨l.idxOf i, by rwa [List.length_set], ?_⟩
      rw [List.getElem_set_of_ne hj', List.getElem_idxOf]
  · rename_i hj
    exact iff_of_true hi (by omega)

theorem card_keeps (hlength : l.length = k) (hnodup : l.Nodup) (hne : i ≠ x) (hi : i ∈ l) (hN : k ≤ N) :
    (Finset.univ.filter fun j : Fin N => i ∈ replace k l x j).card = N - 1 := by
  have hplace : l.idxOf i < N := (List.idxOf_lt_length_of_mem hi).trans_le (hlength.le.trans hN)
  have hset : (Finset.univ.filter fun j : Fin N => i ∈ replace k l x j) = Finset.univ.erase ⟨l.idxOf i, hplace⟩ := by
    ext j
    rw [Finset.mem_filter_univ, mem_replace_iff hlength hnodup hne hi, Finset.mem_erase]
    simp only [ne_eq, Fin.ext_iff, Finset.mem_univ, and_true]
  rw [hset, Finset.card_erase_of_mem (Finset.mem_univ _), Finset.card_univ, Fintype.card_fin]

theorem card_enters (hlength : l.length = k) (hx : x ∉ l) (hN : k ≤ N) :
    (Finset.univ.filter fun j : Fin N => x ∈ replace k l x j).card = k := by
  have hset : (Finset.univ.filter fun j : Fin N => x ∈ replace k l x j) =
      Finset.univ.filter fun j : Fin N => j.val < k := by
    ext j
    rw [Finset.mem_filter_univ, Finset.mem_filter_univ]
    unfold replace
    split
    · rename_i hj
      exact iff_of_true (List.mem_set (by omega) x) hj
    · rename_i hj
      exact iff_of_false hx hj
  rw [hset, Fin.card_filter_val_lt, min_eq_right hN]

end Replace

/-! ## All draws -/

/-- At position `k + m` the draw is below `k + 1 + m`. -/
abbrev Draws (k t : Nat) := (m : Fin t) → Fin (k + 1 + m)

def drawAt {k t : Nat} (d : Draws k t) (i : Nat) : Nat :=
  if h : k ≤ i ∧ i < k + t then d ⟨i - k, by omega⟩ else 0

/-- The positions in the sample after `k + t` items. -/
def sampleOf {k t : Nat} (d : Draws k t) : List Nat := (feed k id (drawAt d) (k + t)).samples

section Counting

variable {k t : Nat}

/-- The draws with one more. -/
def snocDraw : Fin (k + 1 + t) × Draws k t ≃ Draws k (t + 1) := Fin.snocEquiv fun m : Fin (t + 1) => Fin (k + 1 + m)

theorem drawAt_snocDraw (j : Fin (k + 1 + t)) (d : Draws k t) {i : Nat} (h : i < k + t) :
    drawAt (snocDraw (j, d)) i = drawAt d i := by
  unfold drawAt
  by_cases hk : k ≤ i
  · rw [dif_pos ⟨hk, by omega⟩, dif_pos ⟨hk, h⟩]
    have hlast := Fin.snoc_castSucc (α := fun m : Fin (t + 1) => Fin (k + 1 + m)) j d ⟨i - k, by omega⟩
    exact congrArg Fin.val hlast
  · rw [dif_neg fun h => hk h.1, dif_neg fun h => hk h.1]

theorem drawAt_snocDraw_last (j : Fin (k + 1 + t)) (d : Draws k t) : drawAt (snocDraw (j, d)) (k + t) = j := by
  have hlast : (⟨k + t - k, by omega⟩ : Fin (t + 1)) = Fin.last t := Fin.ext (by simp)
  unfold drawAt
  rw [dif_pos ⟨by omega, by omega⟩, hlast]
  exact congrArg Fin.val (Fin.snoc_last (α := fun m : Fin (t + 1) => Fin (k + 1 + m)) j d)

theorem sampleOf_snocDraw (j : Fin (k + 1 + t)) (d : Draws k t) :
    sampleOf (snocDraw (j, d)) = replace k (sampleOf d) (k + t) j := by
  unfold sampleOf
  rw [← Nat.add_assoc, samples_succ, if_neg (by omega), drawAt_snocDraw_last,
    samples_congr k id _ _ fun i hi => drawAt_snocDraw j d hi]
  rfl

/-- How many sequences of draws have the position in the sample. -/
def timesSampled (k t i : Nat) : Nat := (Finset.univ.filter fun d : Draws k t => i ∈ sampleOf d).card

theorem positions_sampleOf (d : Draws k t) : Positions k (k + t) (sampleOf d) := positions_feed k (drawAt d) (k + t)

theorem length_sampleOf (d : Draws k t) : (sampleOf d).length = k := by
  rw [(positions_sampleOf d).length]
  omega

theorem timesSampled_succ (i : Nat) :
    timesSampled k (t + 1) i =
      ∑ d : Draws k t, (Finset.univ.filter fun j : Fin (k + 1 + t) => i ∈ replace k (sampleOf d) (k + t) j).card := by
  unfold timesSampled
  simp only [Finset.card_filter]
  rw [← Equiv.sum_comp snocDraw, Fintype.sum_prod_type_right]
  simp only [sampleOf_snocDraw]

theorem card_draws_succ : Fintype.card (Draws k (t + 1)) = Fintype.card (Draws k t) * (k + 1 + t) := by
  rw [← Fintype.card_congr (snocDraw (k := k) (t := t)), Fintype.card_prod, Fintype.card_fin, Nat.mul_comm]

theorem timesSampled_old {i : Nat} (hi : i ≠ k + t) : timesSampled k (t + 1) i = timesSampled k t i * (k + t) := by
  rw [timesSampled_succ, timesSampled, Finset.card_filter, Finset.sum_mul]
  refine Finset.sum_congr rfl fun d _ => ?_
  by_cases hmem : i ∈ sampleOf d
  · rw [if_pos hmem, card_keeps (length_sampleOf d) (positions_sampleOf d).nodup hi hmem (by omega)]
    omega
  · rw [if_neg hmem, Nat.zero_mul, Finset.card_eq_zero, Finset.filter_eq_empty_iff]
    exact fun j _ h => hmem (mem_replace_of_ne hi h)

theorem timesSampled_new : timesSampled k (t + 1) (k + t) = Fintype.card (Draws k t) * k := by
  have hfresh : ∀ d : Draws k t, k + t ∉ sampleOf d := fun d h =>
    Nat.lt_irrefl _ ((positions_sampleOf d).lt (k + t) h)
  rw [timesSampled_succ, Finset.sum_congr rfl fun d _ => card_enters (length_sampleOf d) (hfresh d) (by omega),
    Finset.sum_const, Finset.card_univ, smul_eq_mul]

theorem mem_sampleOf_zero (d : Draws k 0) {i : Nat} (hi : i < k) : i ∈ sampleOf d := by
  have hpos := positions_sampleOf d
  have hall : (sampleOf d).toFinset = Finset.range k := by
    refine Finset.eq_of_subset_of_card_le (fun p hp => ?_) ?_
    · exact Finset.mem_range.mpr (hpos.lt p (List.mem_toFinset.mp hp))
    · rw [List.toFinset_card_of_nodup hpos.nodup, length_sampleOf, Finset.card_range]
  rw [← List.mem_toFinset, hall, Finset.mem_range]
  exact hi

theorem timesSampled_eq {i : Nat} (hi : i < k + t) :
    timesSampled k t i * (k + t) = k * Fintype.card (Draws k t) := by
  induction t with
  | zero =>
    have hall : (Finset.univ.filter fun d : Draws k 0 => i ∈ sampleOf d) = Finset.univ :=
      Finset.filter_true_of_mem fun d _ => mem_sampleOf_zero d hi
    rw [timesSampled, hall, Finset.card_univ, Nat.mul_comm]
    rfl
  | succ t ih =>
    rw [card_draws_succ]
    by_cases hlast : i = k + t
    · rw [hlast, timesSampled_new]
      ring
    · rw [timesSampled_old hlast, ih (by omega)]
      ring

end Counting

/-- The fraction of the sequences of draws, and what holds of each of them. -/
theorem reservoir_uniform (k : Nat) :
    (∀ n, k ≤ n → ∀ i < n,
      ((Finset.univ.filter fun d : Draws k (n - k) => i ∈ (feed k id (drawAt d) n).samples).card : ℚ) /
        Fintype.card (Draws k (n - k)) = k / n) ∧
    ∀ {α : Type} (item : Nat → α) (draw : Nat → Nat) (n : Nat), ∃ positions : List Nat,
      positions.length = min n k ∧ (∀ p ∈ positions, p < n) ∧ positions.Nodup ∧
        (feed k item draw n).samples = positions.map item := by
  constructor
  · intro n hn i hi
    obtain ⟨t, rfl⟩ := Nat.exists_eq_add_of_le hn
    have hcount := congrArg (Nat.cast (R := ℚ)) (timesSampled_eq hi)
    have hdraws : (Fintype.card (Draws k t) : ℚ) ≠ 0 := Nat.cast_ne_zero.mpr Fintype.card_ne_zero
    have hlength : ((k + t : ℕ) : ℚ) ≠ 0 := Nat.cast_ne_zero.mpr (by omega)
    rw [Nat.cast_mul, Nat.cast_mul] at hcount
    rw [Nat.add_sub_cancel_left, div_eq_div_iff hdraws hlength]
    exact hcount
  · intro α item draw n
    have hpos := positions_feed k draw n
    exact ⟨_, hpos.length, hpos.lt, hpos.nodup, samples_eq_map k item draw n⟩

theorem reservoir_uniform_three :
    ((Finset.univ.filter fun d : Draws 2 1 => 0 ∈ (feed 2 id (drawAt d) 3).samples).card : ℚ) /
      Fintype.card (Draws 2 1) = 2 / 3 :=
  (reservoir_uniform 2).1 3 (by decide) 0 (by decide)

end Riftgate.TokenLevel
