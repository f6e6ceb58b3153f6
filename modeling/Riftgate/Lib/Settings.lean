import Mathlib.Data.List.Nodup
import Mathlib.Data.List.Perm.Basic

/-!
# Settings with keys

A list of writes to a record, each with the key of the field that it writes. Writes of different keys commute, so the
order of the list does not matter when no key is there twice.
-/

namespace Lib

variable {α κ σ : Type}

/-- One write after the other. -/
def writeAll (write : α → σ → σ) (l : List α) (s : σ) : σ := l.foldl (fun s a => write a s) s

theorem apply_writeAll {write : α → σ → σ} {f : σ → σ} {l : List α}
    (hf : ∀ a ∈ l, ∀ s, f (write a s) = write a (f s)) (s : σ) :
    f (writeAll write l s) = writeAll write l (f s) := by
  induction l generalizing s with
  | nil => rfl
  | cons a l ih =>
    show f (writeAll write l (write a s)) = writeAll write l (write a (f s))
    rw [ih (fun b hb => hf b (List.mem_cons_of_mem a hb)), hf a List.mem_cons_self]

theorem writeAll_keeps {τ : Type} {write : α → σ → σ} {view : σ → τ} (hv : ∀ a s, view (write a s) = view s)
    (l : List α) (s : σ) : view (writeAll write l s) = view s := by
  induction l generalizing s with
  | nil => rfl
  | cons a l ih => exact (ih (write a s)).trans (hv a s)

/-- Writes of different keys do not see each other, and a write leaves nothing to do for a second one. -/
structure Independent (write : α → σ → σ) (key : α → κ) : Prop where
  comm : ∀ a b s, key a ≠ key b → write a (write b s) = write b (write a s)
  idem : ∀ a s, write a (write a s) = write a s

namespace Independent

variable {write : α → σ → σ} {key : α → κ}

theorem writeAll_perm (hw : Independent write key) {l l' : List α} (hperm : l.Perm l') (hkeys : (l.map key).Nodup)
    (s : σ) : writeAll write l s = writeAll write l' s := by
  refine hperm.foldl_eq' ?_ s
  intro a ha b hb s
  by_cases hab : a = b
  · rw [hab]
  · exact hw.comm b a s fun h => hab (List.inj_on_of_nodup_map hkeys ha hb h.symm)

theorem write_writeAll (hw : Independent write key) {l : List α} {a : α} (ha : key a ∉ l.map key) (s : σ) :
    write a (writeAll write l s) = writeAll write l (write a s) := by
  refine apply_writeAll (fun b hb s => hw.comm a b s ?_) s
  intro hab
  exact ha (hab ▸ List.mem_map_of_mem hb)

theorem write_of_mem (hw : Independent write key) {l : List α} (hkeys : (l.map key).Nodup) {a : α} (ha : a ∈ l)
    (s : σ) : write a (writeAll write l s) = writeAll write l s := by
  induction l generalizing s with
  | nil => cases ha
  | cons b l ih =>
    rw [List.map_cons, List.nodup_cons] at hkeys
    show write a (writeAll write l (write b s)) = writeAll write l (write b s)
    rcases List.mem_cons.mp ha with rfl | ha
    · rw [hw.write_writeAll hkeys.1, hw.idem]
    · exact ih hkeys.2 ha (write b s)

end Independent

/-! ## A view that does not show all writes -/

/-- What is seen after a write depends on what was seen before, and the writes outside of `p` are not seen. -/
structure Seen {τ : Type} (write : α → σ → σ) (view : σ → τ) (p : α → Bool) : Prop where
  congr : ∀ a s s', view s = view s' → view (write a s) = view (write a s')
  hidden : ∀ a s, p a = false → view (write a s) = view s

namespace Seen

variable {τ : Type} {write : α → σ → σ} {view : σ → τ} {p : α → Bool}

theorem writeAll_congr (hv : Seen write view p) (l : List α) {s s' : σ} (h : view s = view s') :
    view (writeAll write l s) = view (writeAll write l s') := by
  induction l generalizing s s' with
  | nil => exact h
  | cons a l ih => exact ih (hv.congr a s s' h)

theorem writeAll_filter (hv : Seen write view p) (l : List α) (s : σ) :
    view (writeAll write l s) = view (writeAll write (l.filter p) s) := by
  induction l generalizing s with
  | nil => rfl
  | cons a l ih =>
    cases hp : p a with
    | true =>
      rw [List.filter_cons_of_pos hp]
      exact ih (write a s)
    | false =>
      rw [List.filter_cons_of_neg (by simp [hp]), ← ih s]
      exact hv.writeAll_congr l (hv.hidden a s hp)

end Seen

end Lib
