import Riftgate.Code.TokenLevel

/-!
# The cap on dimensions

Below the cap a sample goes to its own dimension. At the cap every sample goes to `other`, also one of a dimension that
has an entry.
-/

open Lib

namespace Riftgate.TokenLevel

variable {H : Type} [Histogram H]

inductive Call where
  | recordTtft (dim : TokenDimension) (latencyMicros : UInt64) (j : Nat)
  | recordInterToken (dim : TokenDimension) (latencyMicros : UInt64) (j : Nat)

def Call.dim : Call → TokenDimension
  | .recordTtft dim _ _ => dim
  | .recordInterToken dim _ _ => dim

/-- What the call does to the entry that it finds. -/
def Call.sample : Call → DimensionMetrics H → DimensionMetrics H
  | .recordTtft _ latencyMicros j => fun m => m.recordTtft latencyMicros j
  | .recordInterToken _ latencyMicros j => fun m => m.recordInterToken latencyMicros j

def record (agg : TokenLevelAggregator H) : Call → TokenLevelAggregator H
  | .recordTtft dim latencyMicros j => agg.recordTtft dim latencyMicros j
  | .recordInterToken dim latencyMicros j => agg.recordInterToken dim latencyMicros j

theorem record_eq (agg : TokenLevelAggregator H) (c : Call) : record agg c = agg.recordMetric c.dim c.sample := by
  cases c with
  | recordTtft dim latencyMicros j => rfl
  | recordInterToken dim latencyMicros j => rfl

theorem add_count {α : Type} (r : VitterReservoir α) (item : α) (j : Nat) : (r.add item j).count = r.count + 1 := by
  unfold VitterReservoir.add
  simp only
  split
  · rfl
  · split <;> rfl

theorem sample_ne (c : Call) (m : DimensionMetrics H) : c.sample m ≠ m := by
  cases c with
  | recordTtft dim latencyMicros j =>
    intro h
    have hcount := congrArg (fun m => m.ttftReservoir.count) h
    simp only [Call.sample, DimensionMetrics.recordTtft, add_count] at hcount
    omega
  | recordInterToken dim latencyMicros j =>
    intro h
    have hcount := congrArg (fun m => m.interTokenReservoir.count) h
    simp only [Call.sample, DimensionMetrics.recordInterToken, add_count] at hcount
    omega

/-! ## How many dimensions there are -/

section Entry

variable (agg : TokenLevelAggregator H) (dim : TokenDimension) (f : DimensionMetrics H → DimensionMetrics H)

theorem lookup_entry_ne {d : TokenDimension} (h : d ≠ dim) :
    (agg.entry dim f).dimensions.lookup d = agg.dimensions.lookup d := AList.lookup_insert_ne h

theorem lookup_entry_of_some {m : DimensionMetrics H} (h : agg.dimensions.lookup dim = some m) :
    (agg.entry dim f).dimensions.lookup dim = some (f m) := by
  unfold TokenLevelAggregator.entry
  simp only [h, AList.lookup_insert, Option.getD_some]

theorem dimensionCount_entry :
    (agg.entry dim f).dimensionCount = if dim ∈ agg.dimensions then agg.dimensionCount else agg.dimensionCount + 1 :=
  Table.length_insert agg.dimensions dim _

end Entry

/-- Only `other` can come on top of the cap. -/
structure Capped (cap : Nat) (agg : TokenLevelAggregator H) : Prop where
  same : agg.dimensionCap = cap
  count : agg.dimensionCount ≤ cap + 1
  full : agg.dimensionCount = cap + 1 → .other ∈ agg.dimensions

omit [Histogram H] in
theorem capped_withCapacity (cap reservoirCapacity : Nat) :
    Capped cap (TokenLevelAggregator.withCapacity cap reservoirCapacity : TokenLevelAggregator H) where
  same := rfl
  count := Nat.zero_le _
  full h := nomatch h

theorem Capped.record {cap : Nat} {agg : TokenLevelAggregator H} (h : Capped cap agg) (c : Call) :
    Capped cap (record agg c) := by
  have hcount := h.count
  rw [record_eq]
  unfold TokenLevelAggregator.recordMetric
  rw [h.same]
  by_cases hfull : cap ≤ agg.dimensionCount
  · simp only [if_pos hfull]
    refine ⟨h.same, ?_, fun _ => (AList.mem_insert agg.dimensions).mpr (Or.inl rfl)⟩
    rw [dimensionCount_entry]
    split
    · exact hcount
    · rename_i hmem
      have hroom : agg.dimensionCount ≠ cap + 1 := mt h.full hmem
      omega
  · simp only [if_neg hfull]
    have hgrows : (agg.entry c.dim c.sample).dimensionCount ≤ agg.dimensionCount + 1 := by
      rw [dimensionCount_entry]
      split <;> omega
    refine ⟨h.same, by omega, fun hlast => ?_⟩
    omega

theorem Capped.foldl {cap : Nat} {agg : TokenLevelAggregator H} (h : Capped cap agg) (calls : List Call) :
    Capped cap (calls.foldl TokenLevel.record agg) := by
  induction calls generalizing agg with
  | nil => exact h
  | cons c calls ih => exact ih (h.record c)

/-! ## Where the samples go -/

/-- A dimension with an entry keeps its samples, and the rest goes to `other` only at the cap. -/
structure PlacedRight (agg : TokenLevelAggregator H) (c : Call) : Prop where
  own : ∀ m, agg.dimensions.lookup c.dim = some m → (record agg c).dimensions.lookup c.dim = some (c.sample m)
  other : c.dim ≠ .other → (record agg c).dimensions.lookup .other ≠ agg.dimensions.lookup .other →
    c.dim ∉ agg.dimensions ∧ agg.dimensionCap ≤ agg.dimensionCount

/-- The condition for that. -/
def HasRoom (agg : TokenLevelAggregator H) (c : Call) : Prop :=
  agg.dimensionCount < agg.dimensionCap ∨ c.dim ∉ agg.dimensions ∨ c.dim = .other

theorem placedRight_iff (agg : TokenLevelAggregator H) (c : Call) : PlacedRight agg c ↔ HasRoom agg c := by
  unfold HasRoom
  by_cases hfull : agg.dimensionCap ≤ agg.dimensionCount
  · have heq : record agg c = agg.entry .other c.sample := by
      rw [record_eq, TokenLevelAggregator.recordMetric, if_pos hfull]
    constructor
    · intro h
      by_contra hroom
      simp only [not_or, not_not] at hroom
      obtain ⟨-, hmem, hother⟩ := hroom
      obtain ⟨m, hm⟩ := Option.isSome_iff_exists.mp (AList.lookup_isSome.mpr hmem)
      have hown := h.own m hm
      rw [heq, lookup_entry_ne _ _ _ hother, hm] at hown
      exact sample_ne c m (Option.some.inj hown).symm
    · intro hroom
      refine ⟨fun m hm => ?_, fun hother _ => ⟨?_, hfull⟩⟩
      · rcases hroom with hlt | hmem | hother
        · exact absurd hfull (Nat.not_le.mpr hlt)
        · rw [AList.lookup_eq_none.mpr hmem] at hm
          cases hm
        · rw [hother] at hm ⊢
          rw [heq]
          exact lookup_entry_of_some agg .other c.sample hm
      · rcases hroom with hlt | hmem | heq
        · exact absurd hfull (Nat.not_le.mpr hlt)
        · exact hmem
        · exact absurd heq hother
  · have heq : record agg c = agg.entry c.dim c.sample := by
      rw [record_eq, TokenLevelAggregator.recordMetric, if_neg hfull]
    refine iff_of_true ⟨fun m hm => ?_, fun hother hchanged => ?_⟩ (Or.inl (Nat.not_le.mp hfull))
    · rw [heq]
      exact lookup_entry_of_some agg c.dim c.sample hm
    · rw [heq, lookup_entry_ne _ _ _ (Ne.symm hother)] at hchanged
      exact absurd rfl hchanged

/-- Any calls. The aggregator places every sample of a run right exactly when it has room at each call. -/
theorem dimensions_capped (cap reservoirCapacity : Nat) (calls : List Call) :
    let start : TokenLevelAggregator H := .withCapacity cap reservoirCapacity
    (calls.foldl record start).dimensionCount ≤ cap + 1 ∧
      ((∀ before c, before ++ [c] <+: calls → PlacedRight (before.foldl record start) c) ↔
        ∀ before c, before ++ [c] <+: calls → HasRoom (before.foldl record start) c) := by
  intro start
  refine ⟨((capped_withCapacity cap reservoirCapacity).foldl calls).count, ?_⟩
  simp only [placedRight_iff]

/-- A histogram that keeps its values. -/
instance : Histogram (List UInt64) where
  new := []
  record values latencyMicros := values ++ [latencyMicros]

/-- At a cap of one dimension, the second sample of that dimension goes to `other`. -/
theorem sample_misplaced :
    let dim : TokenDimension := ⟨"t1", "m1", "r1"⟩
    let calls : List Call := [.recordTtft dim 100 0, .recordTtft dim 200 0]
    let start : TokenLevelAggregator (List UInt64) := .withCapacity 1 10
    ¬ ∀ before c, before ++ [c] <+: calls → PlacedRight (before.foldl record start) c := by
  intro dim calls start h
  have hsecond := (placedRight_iff _ _).mp (h [.recordTtft dim 100 0] (.recordTtft dim 200 0)
    ( List.prefix_refl calls))
  rcases hsecond with hlt | hmem | hother
  · exact absurd hlt (by decide)
  · exact absurd (by decide +kernel) hmem
  · exact absurd hother (by decide)

end Riftgate.TokenLevel
