/-!
# Stages that can end a run

Stages work on a state one after the other, until one of them has an answer.
-/

namespace Lib

/-- What a stage makes of the state, and its answer if it ends the run. -/
abbrev Stage (σ τ : Type) := σ → σ × Option τ

variable {σ τ : Type}

def runStages : List (Stage σ τ) → Stage σ τ
  | [], s => (s, none)
  | f :: fs, s =>
    match f s with
    | (s', none) => runStages fs s'
    | (s', some t) => (s', some t)

@[simp] theorem runStages_singleton (f : Stage σ τ) : runStages [f] = f := by
  funext s
  simp only [runStages]
  split
  · rename_i s' h
    exact h.symm
  · rename_i s' t h
    exact h.symm

theorem runStages_append (fs gs : List (Stage σ τ)) (s : σ) :
    runStages (fs ++ gs) s =
      match runStages fs s with
      | (s', none) => runStages gs s'
      | (s', some t) => (s', some t) := by
  induction fs generalizing s with
  | nil => rfl
  | cons f fs ih =>
    rw [List.cons_append]
    simp only [runStages]
    split
    · rename_i s' h
      exact ih s'
    · rfl

/-- A run goes through when each stage does, from where the ones before it have left the state. -/
theorem runStages_none_iff {fs : List (Stage σ τ)} {s : σ} :
    (runStages fs s).2 = none ↔
      ∀ before f after, fs = before ++ f :: after → (f (runStages before s).1).2 = none := by
  induction fs generalizing s with
  | nil => simp [runStages]
  | cons g gs ih =>
    constructor
    · intro h before f after heq
      cases before with
      | nil =>
        obtain ⟨rfl, rfl⟩ := List.cons.inj heq
        simp only [runStages] at h ⊢
        split at h
        · rename_i s' hg
          rw [hg]
        · cases h
      | cons b before =>
        rw [List.cons_append, List.cons.injEq] at heq
        obtain ⟨rfl, rfl⟩ := heq
        simp only [runStages] at h ⊢
        split at h
        · exact ih.mp h before f after rfl
        · cases h
    · intro h
      have hg : (g s).2 = none := h [] g gs rfl
      simp only [runStages]
      split
      · rename_i s' hgs
        refine ih.mpr fun before f after heq => ?_
        have := h (g :: before) f after (by rw [heq, List.cons_append])
        simpa only [runStages, hgs] using this
      · rename_i s' t hgs
        rw [hgs] at hg
        cases hg

end Lib
