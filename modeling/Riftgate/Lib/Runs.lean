import Mathlib.Data.List.Basic
import Riftgate.Lib.Machine

/-!
# Runs of a machine

What a run keeps, how long it can be, and what it looks like from a part of the state.
-/

namespace Lib.Machine

variable {σ τ α : Type} {M : Machine σ α}

theorem runFrom_cons {s s' : σ} {a : α} {as : List α} :
    M.runFrom s (a :: as) = some s' ↔ ∃ t, M.step s a = some t ∧ M.runFrom t as = some s' :=
  Option.bind_eq_some_iff

theorem runFrom_append {s s' : σ} {as bs : List α} :
    M.runFrom s (as ++ bs) = some s' ↔ ∃ t, M.runFrom s as = some t ∧ M.runFrom t bs = some s' := by
  induction as generalizing s with
  | nil => simp [runFrom]
  | cons a as ih =>
    rw [List.cons_append, runFrom_cons]
    constructor
    · rintro ⟨t, ht, h⟩
      obtain ⟨u, hu, h⟩ := ih.mp h
      exact ⟨u, runFrom_cons.mpr ⟨t, ht, hu⟩, h⟩
    · rintro ⟨u, hu, h⟩
      obtain ⟨t, ht, hu⟩ := runFrom_cons.mp hu
      exact ⟨t, ht, ih.mpr ⟨u, hu, h⟩⟩

theorem runFrom_invariant {I : σ → Prop} {p : α → Prop}
    (hstep : ∀ s a s', I s → p a → M.step s a = some s' → I s') {as : List α} {s s' : σ} (hs : I s)
    (hp : ∀ a ∈ as, p a) (h : M.runFrom s as = some s') : I s' := by
  induction as generalizing s with
  | nil =>
    simp only [runFrom, Option.some.injEq] at h
    exact h ▸ hs
  | cons a as ih =>
    obtain ⟨t, ht, h⟩ := runFrom_cons.mp h
    exact ih (hstep s a t hs (hp a List.mem_cons_self) ht) (fun b hb => hp b (List.mem_cons_of_mem a hb)) h

theorem Meets.invariant {C : σ → α → Prop} {I : σ → Prop}
    (hstep : ∀ s a s', I s → C s a → M.step s a = some s' → I s') {as : List α} {s s' : σ} (hs : I s)
    (hmeets : M.Meets C s as) (h : M.runFrom s as = some s') : I s' := by
  induction as generalizing s with
  | nil =>
    simp only [runFrom, Option.some.injEq] at h
    exact h ▸ hs
  | cons a as ih =>
    obtain ⟨t, ht, h⟩ := runFrom_cons.mp h
    obtain ⟨hc, hmeets⟩ := hmeets t ht
    exact ih (hstep s a t hs hc ht) hmeets h

theorem meets_of_forall {C : σ → α → Prop} {as : List α} (h : ∀ a ∈ as, ∀ s, C s a) (s : σ) : M.Meets C s as := by
  induction as generalizing s with
  | nil => trivial
  | cons a as ih => exact fun t _ => ⟨h a List.mem_cons_self s, ih (fun b hb => h b (List.mem_cons_of_mem a hb)) t⟩

/-! ## Progress -/

/-- A run of steps that all make `μ` smaller. -/
theorem length_le_of_decreasing {I : σ → Prop} {p : α → Prop} {μ : σ → ℕ}
    (hI : ∀ s a s', I s → p a → M.step s a = some s' → I s')
    (hμ : ∀ s a s', I s → p a → M.step s a = some s' → μ s' < μ s) {as : List α} {s s' : σ} (hs : I s)
    (hp : ∀ a ∈ as, p a) (h : M.runFrom s as = some s') : as.length + μ s' ≤ μ s := by
  induction as generalizing s with
  | nil =>
    simp only [runFrom, Option.some.injEq] at h
    simp [h]
  | cons a as ih =>
    obtain ⟨t, ht, h⟩ := runFrom_cons.mp h
    have ha := hp a List.mem_cons_self
    have hlt := hμ s a t hs ha ht
    have hle := ih (hI s a t hs ha ht) (fun b hb => hp b (List.mem_cons_of_mem a hb)) h
    rw [List.length_cons]
    omega

/-! ## A part of the state -/

/-- Each step is one of `N` as seen through `view`, or it is not seen. Then what is kept of a run is a run of `N`. The
choice of what is kept may look at the end of the run. -/
theorem runFrom_filter {N : Machine τ α} (view : σ → τ) (seen : σ → α → Bool) {keep : α → Bool} {s' : σ}
    (hseen : ∀ t a t', M.step t a = some t' → seen t a = true → N.step (view t) a = some (view t'))
    (hhidden : ∀ t a t', M.step t a = some t' → seen t a = false → view t' = view t)
    (hkeep : ∀ t a t' as, M.step t a = some t' → M.runFrom t' as = some s' → keep a = seen t a) {as : List α}
    {s : σ} (h : M.runFrom s as = some s') : N.runFrom (view s) (as.filter keep) = some (view s') := by
  induction as generalizing s with
  | nil =>
    simp only [runFrom, Option.some.injEq] at h
    rw [h]
    rfl
  | cons a as ih =>
    obtain ⟨t, ht, h⟩ := runFrom_cons.mp h
    have hka := hkeep s a t as ht h
    cases hsa : seen s a with
    | true =>
      rw [List.filter_cons_of_pos (by rw [hka, hsa])]
      exact runFrom_cons.mpr ⟨view t, hseen s a t ht hsa, ih h⟩
    | false =>
      rw [List.filter_cons_of_neg (by rw [hka, hsa]; exact Bool.false_ne_true), ← hhidden s a t ht hsa]
      exact ih h

end Lib.Machine
