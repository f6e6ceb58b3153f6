import Mathlib.Algebra.Order.Field.Basic
import Mathlib.Algebra.Order.Field.Rat
import Mathlib.Order.Bounds.Basic
import Mathlib.Order.Fin.Basic
import Mathlib.Tactic.FieldSimp
import Mathlib.Tactic.Linarith
import Riftgate.Code.Hedged

/-!
# The markers of the P² estimator

In exact arithmetic, an adjustment moves a marker by one position and only where there is room for that. Its height
stays between those of its neighbours: the parabola is used only when it does, and the line always does.
-/

namespace Riftgate.Router

/-! ## Neighbours -/

/-- The numerals of the markers rest on it. -/
local instance : NeZero 5 := ⟨by decide⟩

/-- Each marker and the next one. -/
def Steps {α : Type} (r : α → α → Prop) (f : Fin 5 → α) : Prop := ∀ j : Fin 4, r (f j.castSucc) (f j.succ)

instance {α : Type} (r : α → α → Prop) [DecidableRel r] (f : Fin 5 → α) : Decidable (Steps r f) :=
  inferInstanceAs (Decidable (∀ _, _))

section Steps

variable {α : Type} {r : α → α → Prop} {f : Fin 5 → α} {i : Fin 5} {v : α}

theorem Steps.update (h : Steps r f) (hbelow : ∀ j : Fin 4, j.succ = i → r (f j.castSucc) v)
    (habove : ∀ j : Fin 4, j.castSucc = i → r v (f j.succ)) : Steps r (Function.update f i v) := by
  intro j
  by_cases hlow : j.castSucc = i
  · have hhigh : j.succ ≠ i := by
      rw [← hlow]
      exact (Fin.castSucc_lt_succ).ne'
    rw [Function.update_of_ne hhigh, hlow, Function.update_self]
    exact habove j hlow
  · by_cases hhigh : j.succ = i
    · rw [Function.update_of_ne hlow, hhigh, Function.update_self]
      exact hbelow j hhigh
    · rw [Function.update_of_ne hlow, Function.update_of_ne hhigh]
      exact h j

theorem pred_of_succ {j : Fin 4} (h : j.succ = i) : j.castSucc = i - 1 := by
  subst h
  decide +revert

theorem succ_of_castSucc {j : Fin 4} (h : j.castSucc = i) : j.succ = i + 1 := by
  subst h
  decide +revert

/-- The markers that are adjusted. -/
def inner : List (Fin 5) := [1, 2, 3]

theorem exists_below (hi : i ∈ inner) : ∃ j : Fin 4, j.castSucc = i - 1 ∧ j.succ = i := by
  decide +revert

theorem exists_above (hi : i ∈ inner) : ∃ j : Fin 4, j.castSucc = i ∧ j.succ = i + 1 := by
  decide +revert

theorem Steps.below (h : Steps r f) (hi : i ∈ inner) : r (f (i - 1)) (f i) := by
  obtain ⟨j, hlow, hhigh⟩ := exists_below hi
  rw [← hlow, ← hhigh]
  exact h j

theorem Steps.above (h : Steps r f) (hi : i ∈ inner) : r (f i) (f (i + 1)) := by
  obtain ⟨j, hlow, hhigh⟩ := exists_above hi
  rw [← hhigh, ← hlow]
  exact h j

theorem Steps.updateInner (h : Steps r f) (hbelow : r (f (i - 1)) v) (habove : r v (f (i + 1))) :
    Steps r (Function.update f i v) :=
  h.update (fun j hj => by rw [pred_of_succ hj]; exact hbelow) fun j hj => by rw [succ_of_castSucc hj]; exact habove

end Steps

/-! ## One adjustment -/

/-- The positions are integers. -/
structure Placed (e : P2Estimator ℚ) (pos : Fin 5 → ℤ) : Prop where
  n : ∀ i, e.n i = pos i
  first : pos 0 = 0
  spaced : Steps (· < ·) pos

/-- What the formulas divide by, for marker `i`. -/
def P2Estimator.Divides (e : P2Estimator ℚ) (i : Fin 5) : Prop :=
  e.n (i + 1) - e.n i ≠ 0 ∧ e.n (i - 1) - e.n i ≠ 0 ∧ e.n (i + 1) - e.n (i - 1) ≠ 0

section Adjust

variable {e : P2Estimator ℚ} {pos : Fin 5 → ℤ} {i : Fin 5}

theorem Placed.below (h : Placed e pos) (hi : i ∈ inner) : e.n (i - 1) + 1 ≤ e.n i := by
  rw [h.n, h.n]
  exact_mod_cast Int.add_one_le_of_lt (h.spaced.below hi)

theorem Placed.above (h : Placed e pos) (hi : i ∈ inner) : e.n i + 1 ≤ e.n (i + 1) := by
  rw [h.n, h.n]
  exact_mod_cast Int.add_one_le_of_lt (h.spaced.above hi)

theorem Placed.divides (h : Placed e pos) (hi : i ∈ inner) : e.Divides i := by
  have hbelow := h.below hi
  have habove := h.above hi
  refine ⟨ne_of_gt ?_, ne_of_lt ?_, ne_of_gt ?_⟩ <;> linarith

theorem linear_up (h : Placed e pos) (hq : Steps (· ≤ ·) e.q) (hi : i ∈ inner) :
    e.q i ≤ e.linear i 1 ∧ e.linear i 1 ≤ e.q (i + 1) := by
  have hline : e.linear i 1 = e.q i + (e.q (i + 1) - e.q i) / (e.n (i + 1) - e.n i) := by
    unfold P2Estimator.linear
    simp only [one_pos, if_true, one_mul]
  have hgap : 1 ≤ e.n (i + 1) - e.n i := by linarith [h.above hi]
  have hrise : 0 ≤ e.q (i + 1) - e.q i := sub_nonneg.mpr (hq.above hi)
  have hpart := div_nonneg hrise (zero_le_one.trans hgap)
  have hwhole := div_le_self hrise hgap
  rw [hline]
  constructor <;> linarith

theorem linear_down (h : Placed e pos) (hq : Steps (· ≤ ·) e.q) (hi : i ∈ inner) :
    e.q (i - 1) ≤ e.linear i (-1) ∧ e.linear i (-1) ≤ e.q i := by
  have hline : e.linear i (-1) = e.q i - (e.q i - e.q (i - 1)) / (e.n i - e.n (i - 1)) := by
    unfold P2Estimator.linear
    have hdown : ¬ (0 : ℚ) < -1 := by decide
    simp only [hdown, if_false]
    rw [← neg_sub (e.q i), ← neg_sub (e.n i), neg_one_mul, neg_neg, div_neg, ← sub_eq_add_neg]
  have hgap : 1 ≤ e.n i - e.n (i - 1) := by linarith [h.below hi]
  have hrise : 0 ≤ e.q i - e.q (i - 1) := sub_nonneg.mpr (hq.below hi)
  have hpart := div_nonneg hrise (zero_le_one.trans hgap)
  have hwhole := div_le_self hrise hgap
  rw [hline]
  constructor <;> linarith

theorem signum_up {d : ℚ} (h : 1 ≤ d) : signum d = 1 := if_neg (not_lt.mpr (zero_le_one.trans h))

theorem signum_down {d : ℚ} (h : d ≤ -1) : signum d = -1 := if_pos (h.trans_lt (by decide))

/-- The guard leaves room for the move. -/
theorem adjust_eq (h : Placed e pos) (hq : Steps (· ≤ ·) e.q) (hi : i ∈ inner) :
    e.adjust i = e ∨ ∃ (v : ℚ) (s : ℤ),
      e.adjust i = { e with q := Function.update e.q i v, n := Function.update e.n i (e.n i + s) } ∧
        (e.q (i - 1) ≤ v ∧ v ≤ e.q (i + 1)) ∧ pos (i - 1) < pos i + s ∧ pos i + s < pos (i + 1) := by
  have hlow := h.spaced.below hi
  have hhigh := h.spaced.above hi
  unfold P2Estimator.adjust
  simp only
  split
  · rename_i hguard
    rcases hguard with ⟨hd, hroom⟩ | ⟨hd, hroom⟩
    · rw [signum_up hd]
      rw [h.n, h.n] at hroom
      have hgap : 1 < pos (i + 1) - pos i := by exact_mod_cast hroom
      refine Or.inr ⟨_, 1, by rw [Int.cast_one], ?_, by omega, by omega⟩
      split
      · rename_i hbetween
        exact ⟨hbetween.1.le, hbetween.2.le⟩
      · have hline := linear_up h hq hi
        exact ⟨(hq.below hi).trans hline.1, hline.2⟩
    · rw [signum_down hd]
      rw [h.n, h.n] at hroom
      have hgap : pos (i - 1) - pos i < -1 := by exact_mod_cast hroom
      refine Or.inr ⟨_, -1, by rw [Int.cast_neg, Int.cast_one], ?_, by omega, by omega⟩
      split
      · rename_i hbetween
        exact ⟨hbetween.1.le, hbetween.2.le⟩
      · have hline := linear_down h hq hi
        exact ⟨hline.1, hline.2.trans (hq.above hi)⟩
  · exact Or.inl rfl

end Adjust

/-! ## One observation -/

structure Ordered (e : P2Estimator ℚ) (least greatest : ℚ) (last : ℤ) : Prop where
  heights : Steps (· ≤ ·) e.q
  least : e.q 0 = least
  greatest : e.q 4 = greatest
  placed : ∃ pos, Placed e pos ∧ pos 4 = last

theorem Ordered.adjust {e : P2Estimator ℚ} {least greatest : ℚ} {last : ℤ} (h : Ordered e least greatest last)
    {i : Fin 5} (hi : i ∈ inner) : Ordered (e.adjust i) least greatest last := by
  obtain ⟨pos, hpos, hlast⟩ := h.placed
  have hzero : 0 ≠ i := by
    rintro rfl
    exact absurd hi (by decide)
  have hfour : 4 ≠ i := by
    rintro rfl
    exact absurd hi (by decide)
  rcases adjust_eq hpos h.heights hi with heq | ⟨v, s, heq, ⟨hbelow, habove⟩, hlow, hhigh⟩
  · rw [heq]
    exact h
  · rw [heq]
    refine ⟨h.heights.updateInner hbelow habove, ?_, ?_, Function.update pos i (pos i + s), ⟨fun j => ?_, ?_, ?_⟩, ?_⟩
    · rw [← h.least]
      exact Function.update_of_ne hzero v e.q
    · rw [← h.greatest]
      exact Function.update_of_ne hfour v e.q
    · by_cases hj : j = i
      · subst hj
        simp only [Function.update_self, hpos.n, Int.cast_add]
      · simp only [Function.update_of_ne hj, hpos.n]
    · rw [Function.update_of_ne hzero]
      exact hpos.first
    · exact hpos.spaced.updateInner hlow hhigh
    · rw [Function.update_of_ne hfour]
      exact hlast

theorem Steps.first_le_last {q : Fin 5 → ℚ} (h : Steps (· ≤ ·) q) : q 0 ≤ q 4 :=
  (h 0).trans ((h 1).trans ((h 2).trans (h 3)))

theorem cell_lt (p : Fin 5 → Bool) : (([0, 1, 2, 3] : List (Fin 5)).find? p).getD 3 < 4 := by
  cases h : ([0, 1, 2, 3] : List (Fin 5)).find? p with
  | none => decide
  | some i =>
    have hmem := List.mem_of_find?_eq_some h
    clear h
    decide +revert

theorem locate_spec {e : P2Estimator ℚ} (h : Steps (· ≤ ·) e.q) (x : ℚ) :
    (e.locate x).2 < 4 ∧ Steps (· ≤ ·) (e.locate x).1 ∧ (e.locate x).1 0 = min x (e.q 0) ∧
      (e.locate x).1 4 = max x (e.q 4) := by
  have hends := h.first_le_last
  unfold P2Estimator.locate
  split
  · rename_i hlow
    have hcell : (0 : Fin 5) < 4 := by decide
    refine ⟨hcell, h.update (fun j hj => absurd hj (Fin.succ_ne_zero j)) fun j hj => ?_, ?_, ?_⟩
    · rw [succ_of_castSucc hj]
      exact hlow.le.trans (h 0)
    · exact (min_eq_left hlow.le).symm
    · exact (max_eq_right (hlow.le.trans hends)).symm
  · rename_i hlow
    rw [not_lt] at hlow
    split
    · rename_i hhigh
      have hcell : (3 : Fin 5) < 4 := by decide
      refine ⟨hcell, h.update (fun j hj => ?_) fun j hj => ?_, ?_, ?_⟩
      · rw [pred_of_succ hj]
        exact (h 3).trans hhigh
      · exact absurd hj (Fin.castSucc_lt_last j).ne
      · exact (min_eq_right hlow).symm
      · exact (max_eq_left hhigh).symm
    · rename_i hhigh
      rw [not_le] at hhigh
      exact ⟨cell_lt _, h, (min_eq_right hlow).symm, (max_eq_right hhigh.le).symm⟩

/-- The state before the adjustments. -/
def P2Estimator.shift (e : P2Estimator ℚ) (x : ℚ) : P2Estimator ℚ :=
  { e with
    q := (e.locate x).1
    n := fun i => if (e.locate x).2 < i then e.n i + 1 else e.n i
    nPrime := fun i => e.nPrime i + e.dn i }

theorem Ordered.shift {e : P2Estimator ℚ} {least greatest : ℚ} {last : ℤ} (h : Ordered e least greatest last) (x : ℚ) :
    Ordered (e.shift x) (min x least) (max x greatest) (last + 1) := by
  obtain ⟨hcell, hheights, hleast, hgreatest⟩ := locate_spec h.heights x
  obtain ⟨pos, hpos, hlast⟩ := h.placed
  refine ⟨hheights, ?_, ?_, fun i => if (e.locate x).2 < i then pos i + 1 else pos i,
    ⟨fun i => ?_, ?_, fun j => ?_⟩, ?_⟩
  · rw [← h.least]
    exact hleast
  · rw [← h.greatest]
    exact hgreatest
  · simp only [P2Estimator.shift, hpos.n]
    split
    · rw [Int.cast_add, Int.cast_one]
    · rfl
  · simp only [Fin.not_lt_zero, if_false]
    exact hpos.first
  · have hstep := hpos.spaced j
    by_cases hlow : (e.locate x).2 < j.castSucc
    · have hhigh := hlow.trans Fin.castSucc_lt_succ
      simp only [if_pos hlow, if_pos hhigh]
      omega
    · simp only [if_neg hlow]
      split <;> omega
  · simp only [if_pos hcell, hlast]

/-- The state after the first `j` adjustments. -/
def P2Estimator.adjusted (e : P2Estimator ℚ) (x : ℚ) (j : Nat) : P2Estimator ℚ :=
  (inner.take j).foldl P2Estimator.adjust (e.shift x)

theorem Ordered.foldl_adjust {e : P2Estimator ℚ} {least greatest : ℚ} {last : ℤ} (h : Ordered e least greatest last)
    {l : List (Fin 5)} (hl : ∀ i ∈ l, i ∈ inner) : Ordered (l.foldl P2Estimator.adjust e) least greatest last := by
  induction l generalizing e with
  | nil => exact h
  | cons i l ih =>
    rw [List.forall_mem_cons] at hl
    exact ih (h.adjust hl.1) hl.2

theorem Ordered.adjusted {e : P2Estimator ℚ} {least greatest : ℚ} {last : ℤ} (h : Ordered e least greatest last)
    (x : ℚ) (j : Nat) : Ordered (e.adjusted x j) (min x least) (max x greatest) (last + 1) :=
  (h.shift x).foldl_adjust fun _ hi => List.mem_of_mem_take hi

/-! ## Any observations -/

structure Markers (seen : List ℚ) (e : P2Estimator ℚ) : Prop where
  warm : 5 ≤ e.count
  least : IsLeast {x | x ∈ seen} (e.q 0)
  greatest : IsGreatest {x | x ∈ seen} (e.q 4)
  ordered : Ordered e (e.q 0) (e.q 4) (seen.length - 1)

theorem observe_eq {e : P2Estimator ℚ} (h : 5 ≤ e.count) (x : ℚ) :
    e.observe x = { e.adjusted x 3 with
      count := if (e.adjusted x 3).count = UInt32.ofNat (2 ^ 32 - 1) then (e.adjusted x 3).count
        else (e.adjusted x 3).count + 1 } := by
  unfold P2Estimator.observe
  rw [if_neg (UInt32.not_lt.mpr h)]
  rfl

theorem adjust_count (e : P2Estimator ℚ) (i : Fin 5) : (e.adjust i).count = e.count := by
  unfold P2Estimator.adjust
  simp only
  split <;> rfl

theorem adjusted_count (e : P2Estimator ℚ) (x : ℚ) : (e.adjusted x 3).count = e.count := by
  simp only [P2Estimator.adjusted, inner, List.take, List.foldl, adjust_count, P2Estimator.shift]

theorem five_le_saturating {c : UInt32} (h : 5 ≤ c) :
    5 ≤ if c = UInt32.ofNat (2 ^ 32 - 1) then c else c + 1 := by
  split
  · exact h
  · rename_i hne
    have hfive : 5 ≤ c.toNat := UInt32.le_iff_toNat_le.mp h
    have hmax : c.toNat ≠ 2 ^ 32 - 1 := fun hc => hne (UInt32.toNat_inj.mp hc)
    have hlt := c.toNat_lt
    rw [UInt32.le_iff_toNat_le, UInt32.toNat_add]
    change 5 ≤ (c.toNat + 1) % 2 ^ 32
    omega

theorem mem_append_singleton (seen : List ℚ) (x : ℚ) : {y | y ∈ seen ++ [x]} = insert x {y | y ∈ seen} := by
  ext y
  simp [or_comm]

theorem Markers.observe {seen : List ℚ} {e : P2Estimator ℚ} (h : Markers seen e) (x : ℚ) :
    Markers (seen ++ [x]) (e.observe x) := by
  have hordered := h.ordered.adjusted x 3
  rw [observe_eq h.warm]
  refine ⟨?_, ?_, ?_, hordered.heights, rfl, rfl, ?_⟩
  · simp only [adjusted_count]
    exact five_le_saturating h.warm
  · rw [mem_append_singleton]
    simp only [hordered.least]
    exact h.least.insert x
  · rw [mem_append_singleton]
    simp only [hordered.greatest]
    exact h.greatest.insert x
  · obtain ⟨pos, hpos, hlast⟩ := hordered.placed
    refine ⟨pos, ⟨hpos.n, hpos.first, hpos.spaced⟩, ?_⟩
    rw [hlast, List.length_append, List.length_singleton]
    omega

theorem Markers.foldl {seen : List ℚ} {e : P2Estimator ℚ} (h : Markers seen e) (later : List ℚ) :
    Markers (seen ++ later) (later.foldl P2Estimator.observe e) := by
  induction later generalizing seen e with
  | nil =>
    rw [List.append_nil]
    exact h
  | cons x later ih =>
    have hnext := ih (h.observe x)
    rw [List.append_assoc] at hnext
    exact hnext

/-- The first four observations are only kept. -/
def filled (p : ℚ) (q : Fin 5 → ℚ) (count : UInt32) : P2Estimator ℚ := { P2Estimator.new p with q := q, count := count }

theorem observe_filled (p : ℚ) (q : Fin 5 → ℚ) (x : ℚ) :
    (filled p q 0).observe x = filled p (Function.update q 0 x) 1 ∧
      (filled p q 1).observe x = filled p (Function.update q 1 x) 2 ∧
      (filled p q 2).observe x = filled p (Function.update q 2 x) 3 ∧
      (filled p q 3).observe x = filled p (Function.update q 3 x) 4 := ⟨rfl, rfl, rfl, rfl⟩

theorem observe_fifth (p : ℚ) (q : Fin 5 → ℚ) (x : ℚ) :
    (filled p q 4).observe x =
      { P2Estimator.new p with
        q := fun i => ((List.ofFn (Function.update q 4 x)).insertionSort fun a b => ¬ b < a).getD i 0
        n := ![0, 1, 2, 3, 4]
        nPrime := ![0, 2 * p, 4 * p, 2 + 2 * p, 4]
        count := 5 } := rfl

theorem sorted_of_sort (l : List ℚ) : (l.insertionSort fun a b => ¬ b < a).Pairwise (· ≤ ·) := by
  have : Std.Total fun a b : ℚ => ¬ b < a := ⟨fun a b => by simpa only [not_lt] using le_total a b⟩
  have : IsTrans ℚ fun a b : ℚ => ¬ b < a := ⟨fun a b c hab hbc => by
    rw [not_lt] at *
    exact hab.trans hbc⟩
  exact (List.pairwise_insertionSort (fun a b : ℚ => ¬ b < a) l).imp not_lt.mp

theorem markers_sorted {seen l : List ℚ} (hlength : l.length = 5) (hsorted : l.Pairwise (· ≤ ·))
    (hmem : ∀ y, y ∈ l ↔ y ∈ seen) (hseen : seen.length = 5) {e : P2Estimator ℚ}
    (hq : e.q = fun i : Fin 5 => l.getD i 0) (hn : e.n = ![0, 1, 2, 3, 4]) (hcount : e.count = 5) : Markers seen e := by
  match l, hlength with
  | [s₀, s₁, s₂, s₃, s₄], _ =>
    have hleast : ∀ y ∈ [s₀, s₁, s₂, s₃, s₄], s₀ ≤ y := by
      rw [List.forall_mem_cons]
      exact ⟨le_rfl, fun y => List.rel_of_pairwise_cons hsorted⟩
    have hgreatest : ∀ y ∈ [s₀, s₁, s₂, s₃, s₄], y ≤ s₄ := by
      simp only [List.pairwise_cons, List.forall_mem_cons] at hsorted
      simp only [List.forall_mem_cons]
      exact ⟨hsorted.1.2.2.2.1, hsorted.2.1.2.2.1, hsorted.2.2.1.2.1, hsorted.2.2.2.1.1, le_rfl, List.forall_mem_nil _⟩
    refine ⟨hcount ▸ UInt32.le_refl 5, ⟨?_, ?_⟩, ⟨?_, ?_⟩, ?_, rfl, rfl, ![0, 1, 2, 3, 4], ⟨?_, rfl, by decide⟩, ?_⟩
    · rw [hq]
      exact (hmem s₀).mp (by simp)
    · rw [hq]
      exact fun y hy => hleast y ((hmem y).mpr hy)
    · rw [hq]
      exact (hmem s₄).mp (by simp)
    · rw [hq]
      exact fun y hy => hgreatest y ((hmem y).mpr hy)
    · rw [hq]
      simp only [List.pairwise_cons, List.forall_mem_cons] at hsorted
      intro j
      match j with
      | 0 => exact hsorted.1.1
      | 1 => exact hsorted.2.1.1
      | 2 => exact hsorted.2.2.1.1
      | 3 => exact hsorted.2.2.2.1.1
    · rw [hn]
      decide
    · rw [hseen]
      rfl

theorem markers_first {first : List ℚ} (h : first.length = 5) (p : ℚ) :
    Markers first (first.foldl P2Estimator.observe (.new p)) := by
  match first, h with
  | [a, b, c, d, x], _ =>
    have hnew : P2Estimator.new p = filled p (fun _ => 0) 0 := rfl
    have hkept : List.ofFn (Function.update (Function.update (Function.update (Function.update
        (Function.update (fun _ => (0 : ℚ)) 0 a) 1 b) 2 c) 3 d) (4 : Fin 5) x) = [a, b, c, d, x] := rfl
    simp only [List.foldl]
    rw [hnew, (observe_filled _ _ _).1, (observe_filled _ _ _).2.1, (observe_filled _ _ _).2.2.1,
      (observe_filled _ _ _).2.2.2, observe_fifth, hkept]
    exact markers_sorted (List.length_insertionSort _ _) (sorted_of_sort _) (fun y => List.mem_insertionSort _) rfl
      rfl rfl rfl

theorem markers_of_observations {seen : List ℚ} (h : 5 ≤ seen.length) (p : ℚ) :
    Markers seen (seen.foldl P2Estimator.observe (.new p)) := by
  have hfirst : (seen.take 5).length = 5 := by
    rw [List.length_take]
    omega
  have hall := (markers_first hfirst p).foldl (seen.drop 5)
  rw [← List.foldl_append, List.take_append_drop] at hall
  exact hall

/-- The divisions are those of the next observation, whatever it is. -/
theorem markers_ordered (p : ℚ) {seen : List ℚ} (h : 5 ≤ seen.length) :
    let e := seen.foldl P2Estimator.observe (.new p)
    (e.q 0 ≤ e.q 1 ∧ e.q 1 ≤ e.q 2 ∧ e.q 2 ≤ e.q 3 ∧ e.q 3 ≤ e.q 4) ∧
      IsLeast {x | x ∈ seen} (e.q 0) ∧ IsGreatest {x | x ∈ seen} (e.q 4) ∧
      (∃ pos : Fin 5 → ℤ, (∀ i, e.n i = pos i) ∧ pos 0 = 0 ∧
        (0 < pos 1 ∧ pos 1 < pos 2 ∧ pos 2 < pos 3 ∧ pos 3 < pos 4) ∧ pos 4 = seen.length - 1) ∧
      (∀ x, ∀ j : Fin 3, (e.adjusted x j).Divides (inner.get j)) ∧
      ∃ v, e.quantile = some v ∧ e.q 0 ≤ v ∧ v ≤ e.q 4 := by
  intro e
  have hm : Markers seen e := markers_of_observations h p
  have hq := hm.ordered.heights
  refine ⟨⟨hq 0, hq 1, hq 2, hq 3⟩, hm.least, hm.greatest, ?_, fun x j => ?_, e.q 2, ?_, (hq 0).trans (hq 1),
    (hq 2).trans (hq 3)⟩
  · obtain ⟨pos, hpos, hlast⟩ := hm.ordered.placed
    have hfirst : 0 < pos 1 := by
      rw [← hpos.first]
      exact hpos.spaced 0
    exact ⟨pos, hpos.n, hpos.first, ⟨hfirst, hpos.spaced 1, hpos.spaced 2, hpos.spaced 3⟩, hlast⟩
  · obtain ⟨pos, hpos, -⟩ := (hm.ordered.adjusted x j).placed
    exact hpos.divides (List.get_mem inner j)
  · exact if_neg (UInt32.not_lt.mpr hm.warm)

theorem markers_ordered_six :
    let e := ([3, 1, 4, 1, 5, 9] : List ℚ).foldl P2Estimator.observe (.new (1 / 2))
    IsLeast {x | x ∈ ([3, 1, 4, 1, 5, 9] : List ℚ)} (e.q 0) ∧ ∃ v, e.quantile = some v ∧ e.q 0 ≤ v ∧ v ≤ e.q 4 :=
  have hlength : 5 ≤ ([3, 1, 4, 1, 5, 9] : List ℚ).length := by decide
  have h := markers_ordered (1 / 2) hlength
  ⟨h.2.1, h.2.2.2.2.2⟩

/-! ## The parabola -/

/-- The guard of an adjustment. -/
def P2Estimator.Adjusts (e : P2Estimator ℚ) (i : Fin 5) : Prop :=
  (1 ≤ e.nPrime i - e.n i ∧ 1 < e.n (i + 1) - e.n i) ∨ (e.nPrime i - e.n i ≤ -1 ∧ e.n (i - 1) - e.n i < -1)

/-- The marker and its neighbours lie on a parabola. -/
def P2Estimator.Through (e : P2Estimator ℚ) (i : Fin 5) (a b c : ℚ) : Prop :=
  ∀ j ∈ [i - 1, i, i + 1], e.q j = a * e.n j ^ 2 + b * e.n j + c

/-- The candidate is on every parabola through the marker and its neighbours. There is just one. -/
def P2Estimator.Predicts (e : P2Estimator ℚ) (i : Fin 5) (dsign : ℚ) : Prop :=
  ∀ a b c, e.Through i a b c → e.parabolic i dsign = a * (e.n i + dsign) ^ 2 + b * (e.n i + dsign) + c

/-- The formula of Jain and Chlamtac. -/
def jainChlamtac (x₀ x₁ x₂ y₀ y₁ y₂ d : ℚ) : ℚ :=
  y₁ + d / (x₂ - x₀) * ((x₁ - x₀ + d) * (y₂ - y₁) / (x₂ - x₁) + (x₂ - x₁ - d) * (y₁ - y₀) / (x₁ - x₀))

section Parabola

variable {x₀ x₁ x₂ : ℚ}

theorem jainChlamtac_eq (h₀ : x₀ < x₁) (h₁ : x₁ < x₂) (a b c d : ℚ) :
    jainChlamtac x₀ x₁ x₂ (a * x₀ ^ 2 + b * x₀ + c) (a * x₁ ^ 2 + b * x₁ + c) (a * x₂ ^ 2 + b * x₂ + c) d =
      a * (x₁ + d) ^ 2 + b * (x₁ + d) + c := by
  have hlow : x₁ - x₀ ≠ 0 := sub_ne_zero.mpr h₀.ne'
  have hhigh : x₂ - x₁ ≠ 0 := sub_ne_zero.mpr h₁.ne'
  have hboth : x₂ - x₀ ≠ 0 := sub_ne_zero.mpr (h₀.trans h₁).ne'
  unfold jainChlamtac
  field_simp
  ring

theorem exists_parabola (h₀ : x₀ < x₁) (h₁ : x₁ < x₂) (y₀ y₁ y₂ : ℚ) :
    ∃ a b c, y₀ = a * x₀ ^ 2 + b * x₀ + c ∧ y₁ = a * x₁ ^ 2 + b * x₁ + c ∧ y₂ = a * x₂ ^ 2 + b * x₂ + c := by
  have hlow : x₁ - x₀ ≠ 0 := sub_ne_zero.mpr h₀.ne'
  have hhigh : x₂ - x₁ ≠ 0 := sub_ne_zero.mpr h₁.ne'
  have hboth : x₂ - x₀ ≠ 0 := sub_ne_zero.mpr (h₀.trans h₁).ne'
  -- the divided differences
  let s := (y₁ - y₀) / (x₁ - x₀)
  let a := ((y₂ - y₁) / (x₂ - x₁) - s) / (x₂ - x₀)
  have hs : s * (x₁ - x₀) = y₁ - y₀ := div_mul_cancel₀ _ hlow
  have ha : (a * (x₂ - x₀) + s) * (x₂ - x₁) = y₂ - y₁ := by
    rw [div_mul_cancel₀ _ hboth, sub_add_cancel, div_mul_cancel₀ _ hhigh]
  refine ⟨a, s - a * (x₀ + x₁), y₀ - s * x₀ + a * x₀ * x₁, by ring, by linarith, by linarith⟩

end Parabola

section Predicts

variable {e : P2Estimator ℚ} {i : Fin 5}

theorem predicts_iff (hlow : e.n (i - 1) < e.n i) (hhigh : e.n i < e.n (i + 1)) (d : ℚ) :
    e.Predicts i d ↔
      e.parabolic i d = jainChlamtac (e.n (i - 1)) (e.n i) (e.n (i + 1)) (e.q (i - 1)) (e.q i) (e.q (i + 1)) d := by
  constructor
  · intro h
    obtain ⟨a, b, c, h₀, h₁, h₂⟩ := exists_parabola hlow hhigh (e.q (i - 1)) (e.q i) (e.q (i + 1))
    have hthrough : e.Through i a b c := by
      intro j hj
      simp only [List.mem_cons, List.not_mem_nil, or_false] at hj
      rcases hj with rfl | rfl | rfl <;> assumption
    rw [h a b c hthrough, h₀, h₁, h₂, jainChlamtac_eq hlow hhigh]
  · intro h a b c hthrough
    rw [h, hthrough (i - 1) (by simp), hthrough i (by simp), hthrough (i + 1) (by simp), jainChlamtac_eq hlow hhigh]

/-- The code divides the second difference by `nm`, which is negative. -/
theorem parabolic_eq (d : ℚ) :
    e.parabolic i d =
      jainChlamtac (e.n (i - 1)) (e.n i) (e.n (i + 1)) (e.q (i - 1)) (e.q i) (e.q (i + 1)) d -
        2 * (d / (e.n (i + 1) - e.n (i - 1)) *
          ((e.n (i + 1) - e.n i - d) * (e.q i - e.q (i - 1)) / (e.n i - e.n (i - 1)))) := by
  unfold P2Estimator.parabolic jainChlamtac
  simp only
  rw [← neg_sub (e.n i) (e.n (i - 1)), div_neg]
  ring

theorem Adjusts.room (h : e.Adjusts i) (hhigh : e.n i < e.n (i + 1)) :
    signum (e.nPrime i - e.n i) ≠ 0 ∧ 0 < e.n (i + 1) - e.n i - signum (e.nPrime i - e.n i) := by
  rcases h with ⟨hd, hroom⟩ | ⟨hd, -⟩
  · rw [signum_up hd]
    exact ⟨one_ne_zero, by linarith⟩
  · rw [signum_down hd]
    exact ⟨by decide, by linarith⟩

theorem parabolic_predicts_iff (hn : Steps (· < ·) e.n) (hi : i ∈ inner) (h : e.Adjusts i) :
    e.Predicts i (signum (e.nPrime i - e.n i)) ↔ e.q i = e.q (i - 1) := by
  have hlow := hn.below hi
  have hhigh := hn.above hi
  obtain ⟨hsign, hroom⟩ := Adjusts.room h hhigh
  have hgap : e.n i - e.n (i - 1) ≠ 0 := (sub_pos.mpr hlow).ne'
  have hboth : e.n (i + 1) - e.n (i - 1) ≠ 0 := (sub_pos.mpr (hlow.trans hhigh)).ne'
  rw [predicts_iff hlow hhigh, parabolic_eq, sub_eq_self]
  simp only [mul_eq_zero, div_eq_zero_iff, hsign, hgap, hboth, hroom.ne', OfNat.ofNat_ne_zero, false_or, or_false,
    sub_eq_zero]

end Predicts

theorem parabolic_predicts_iff_line :
    let e := (([0, 1, 2, 3, 4, 5] : List ℚ).foldl P2Estimator.observe (.new (1 / 2))).adjusted 6 2
    e.Predicts 3 (signum (e.nPrime 3 - e.n 3)) ↔ e.q 3 = e.q 2 :=
  parabolic_predicts_iff (by decide +kernel) (by decide) (Or.inl (by decide +kernel))

/-- The markers are where they are after `0, …, 5`, which is on a line. The next observation is 6. -/
theorem parabolic_leaves_line :
    let e := (([0, 1, 2, 3, 4, 5] : List ℚ).foldl P2Estimator.observe (.new (1 / 2))).adjusted 6 2
    Steps (· < ·) e.n ∧ e.Adjusts 3 ∧ (∀ j, e.q j = e.n j) ∧ (e.adjust 3).q 3 = 3 ∧ (e.adjust 3).n 3 = 4 ∧
      ¬ e.Predicts 3 (signum (e.nPrime 3 - e.n 3)) := by
  intro e
  have hn : Steps (· < ·) e.n := by decide +kernel
  have hadjusts : e.Adjusts 3 := Or.inl (by decide +kernel)
  refine ⟨hn, hadjusts, by decide +kernel, by decide +kernel, by decide +kernel, fun h => ?_⟩
  have hline := h 0 1 0 (by unfold P2Estimator.Through; decide +kernel)
  have hpredicted : ¬ (e.parabolic 3 (signum (e.nPrime 3 - e.n 3)) =
      0 * (e.n 3 + signum (e.nPrime 3 - e.n 3)) ^ 2 + 1 * (e.n 3 + signum (e.nPrime 3 - e.n 3)) + 0) := by
    decide +kernel
  exact hpredicted hline

end Riftgate.Router
