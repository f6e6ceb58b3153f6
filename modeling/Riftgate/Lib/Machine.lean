import Mathlib.Logic.Basic

/-!
# Machines, runs and invariants

A machine is a step function with labels. A label carries every choice that the
program does not make itself: which thread moves, what the clock reads, which call
fails. So one list of labels is one interleaving, and a claim about every
interleaving is a claim about every list.
-/

namespace Lib

/-- `step s a` is `none` when `a` cannot happen in `s`. -/
structure Machine (σ α : Type) where
  init : σ
  step : σ → α → Option σ

namespace Machine

variable {σ α : Type} (M : Machine σ α)

def runFrom (s : σ) : List α → Option σ
  | [] => some s
  | a :: as => (M.step s a).bind fun s' => runFrom s' as

def run (as : List α) : Option σ := M.runFrom M.init as

/-- The states of the runs whose steps all meet `C`, a condition on the state
before the step and on its label. -/
inductive Reach (C : σ → α → Prop) : σ → Prop where
  | init : Reach C M.init
  | step {s s' : σ} {a : α} : Reach C s → M.step s a = some s' → C s a → Reach C s'

def Reachable (s : σ) : Prop := M.Reach (fun _ _ => True) s

variable {M}

theorem Reach.mono {C D : σ → α → Prop} (h : ∀ s a, C s a → D s a) {s : σ} (hs : M.Reach C s) :
    M.Reach D s := by
  induction hs with
  | init => exact .init
  | step _ hstep hc ih => exact .step ih hstep (h _ _ hc)

/-- The invariant rule. A step may use that its source is reachable. -/
theorem Reach.invariant {C : σ → α → Prop} {I : σ → Prop} (hinit : I M.init)
    (hstep : ∀ s a s', M.Reach C s → I s → C s a → M.step s a = some s' → I s') {s : σ}
    (hs : M.Reach C s) : I s := by
  induction hs with
  | init => exact hinit
  | step hr hst hc ih => exact hstep _ _ _ hr ih hc hst

theorem Reachable.invariant {I : σ → Prop} (hinit : I M.init)
    (hstep : ∀ s a s', I s → M.step s a = some s' → I s') {s : σ} (hs : M.Reachable s) : I s :=
  Reach.invariant hinit (fun s a s' _ hi _ hst => hstep s a s' hi hst) hs

theorem Reachable.runFrom {as : List α} {s s' : σ} (hs : M.Reachable s)
    (h : M.runFrom s as = some s') : M.Reachable s' := by
  induction as generalizing s with
  | nil =>
    simp only [Machine.runFrom, Option.some.injEq] at h
    exact h ▸ hs
  | cons a as ih =>
    simp only [Machine.runFrom, Option.bind_eq_some_iff] at h
    obtain ⟨t, ht, h⟩ := h
    exact ih (.step hs ht trivial) h

theorem reachable_of_run {as : List α} {s : σ} (h : M.run as = some s) : M.Reachable s :=
  Reachable.runFrom (.init) h

theorem exists_of_run {as : List α} {p : σ → Bool} (h : (M.run as).map p = some true) :
    ∃ s, M.Reachable s ∧ p s = true := by
  obtain ⟨s, hs, hp⟩ := Option.map_eq_some_iff.mp h
  exact ⟨s, reachable_of_run hs, hp⟩

variable (M) in
/-- The machine that takes only the steps that pass the check `D`. -/
def restrict (D : σ → α → Bool) : Machine σ α where
  init := M.init
  step s a := if D s a then M.step s a else none

theorem reach_of_restrict {C : σ → α → Prop} {D : σ → α → Bool}
    (hD : ∀ s a, (M.restrict D).Reachable s → D s a = true → C s a) {s : σ} (hs : (M.restrict D).Reachable s) :
    M.Reach C s := by
  induction hs with
  | init => exact .init
  | @step t t' a ht hstep _ ih =>
    simp only [restrict] at hstep
    split at hstep
    · rename_i hd
      exact .step ih hstep (hD t a ht hd)
    · cases hstep

/-- A condition that cannot be computed follows, on a concrete run, from a check that can. -/
theorem exists_of_restrict {C : σ → α → Prop} {D : σ → α → Bool}
    (hD : ∀ s a, (M.restrict D).Reachable s → D s a = true → C s a)
    {as : List α} {p : σ → Bool} (h : ((M.restrict D).run as).map p = some true) :
    ∃ s, M.Reach C s ∧ p s = true := by
  obtain ⟨s, hs, hp⟩ := exists_of_run h
  exact ⟨s, reach_of_restrict hD hs, hp⟩

variable (M)

/-- Each step that the labels take meets `C`. -/
def Meets (C : σ → α → Prop) (s : σ) : List α → Prop
  | [] => True
  | a :: as => ∀ s', M.step s a = some s' → C s a ∧ Meets C s' as

/-- `P` holds in each state that the labels visit. -/
def Throughout (P : σ → Prop) (s : σ) : List α → Prop
  | [] => P s
  | a :: as => P s ∧ ∀ s', M.step s a = some s' → Throughout P s' as

variable {M}

theorem throughout_head {P : σ → Prop} {s : σ} {as : List α} (h : M.Throughout P s as) : P s := by
  cases as with
  | nil => exact h
  | cons a as => exact h.1

theorem throughout_last {P : σ → Prop} {s s' : σ} {as : List α} (h : M.Throughout P s as)
    (hs : M.runFrom s as = some s') : P s' := by
  induction as generalizing s with
  | nil =>
    simp only [runFrom, Option.some.injEq] at hs
    exact hs ▸ h
  | cons a as ih =>
    obtain ⟨t, ht, hs⟩ := Option.bind_eq_some_iff.mp hs
    exact ih (h.2 t ht) hs

/-- The exactness rule. If, from a good state, a step keeps `P` exactly when it meets `C`,
then a run keeps `P` throughout exactly when all its steps meet `C`. -/
theorem throughout_iff_meets {C : σ → α → Prop} {I P : σ → Prop}
    (hI : ∀ s a s', I s → P s → M.step s a = some s' → C s a → I s')
    (hP : ∀ s a s', I s → P s → M.step s a = some s' → (P s' ↔ C s a))
    (as : List α) {s : σ} (hi : I s) (hp : P s) : M.Throughout P s as ↔ M.Meets C s as := by
  induction as generalizing s with
  | nil => simp [Throughout, Meets, hp]
  | cons a as ih =>
    constructor
    · rintro ⟨-, h⟩ s' hs'
      have hp' := throughout_head (h s' hs')
      have hc := (hP s a s' hi hp hs').mp hp'
      exact ⟨hc, (ih (hI s a s' hi hp hs' hc) hp').mp (h s' hs')⟩
    · intro h
      refine ⟨hp, fun s' hs' => ?_⟩
      obtain ⟨hc, hm⟩ := h s' hs'
      have hp' := (hP s a s' hi hp hs').mpr hc
      exact (ih (hI s a s' hi hp hs' hc) hp').mpr hm

end Machine

end Lib
