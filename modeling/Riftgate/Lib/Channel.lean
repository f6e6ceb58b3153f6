import Mathlib.Data.List.Nodup
import Mathlib.Data.List.Perm.Basic
import Mathlib.Logic.Function.Basic
import Mathlib.Tactic.Common

/-! # Bounded channels, and what has gone through them -/

namespace Lib

/-- A bounded FIFO channel. `sent` and `received` are what has gone in and come out so far. -/
structure Channel (τ : Type) where
  capacity : ℕ
  items : List τ
  sent : List τ
  received : List τ
  fifo : sent = received ++ items
  fits : items.length ≤ capacity

namespace Channel

variable {τ : Type}

def bounded (capacity : ℕ) : Channel τ := ⟨capacity, [], [], [], rfl, Nat.zero_le _⟩

/-- A full channel gives the item back. -/
def trySend (c : Channel τ) (x : τ) : Except τ (Channel τ) :=
  if h : c.items.length < c.capacity then
    .ok { c with
      items := c.items ++ [x]
      sent := c.sent ++ [x]
      fifo := by rw [c.fifo, List.append_assoc]
      fits := by rw [List.length_append, List.length_singleton]; exact h }
  else .error x

def tryRecv (c : Channel τ) : Option (τ × Channel τ) :=
  match h : c.items with
  | [] => none
  | x :: rest =>
    some (x, { c with
      items := rest
      received := c.received ++ [x]
      fifo := by rw [c.fifo, h, List.append_assoc, List.singleton_append]
      fits := Nat.le_trans (Nat.le_succ _) (by simpa [h] using c.fits) })

variable {c c' : Channel τ} {x y : τ}

theorem trySend_ok (h : c.trySend x = .ok c') :
    c'.items = c.items ++ [x] ∧ c'.sent = c.sent ++ [x] ∧ c'.received = c.received ∧ c'.capacity = c.capacity := by
  unfold trySend at h
  split at h
  · cases h
    exact ⟨rfl, rfl, rfl, rfl⟩
  · cases h

theorem trySend_error (h : c.trySend x = .error y) : y = x ∧ c.items.length = c.capacity := by
  unfold trySend at h
  split at h
  · cases h
  · rename_i hfull
    cases h
    exact ⟨rfl, Nat.le_antisymm c.fits (Nat.not_lt.mp hfull)⟩

theorem tryRecv_some (h : c.tryRecv = some (x, c')) :
    c.items = x :: c'.items ∧ c'.sent = c.sent ∧ c'.received = c.received ++ [x] ∧ c'.capacity = c.capacity := by
  unfold tryRecv at h
  split at h
  · cases h
  · rename_i hitems
    cases h
    exact ⟨hitems, rfl, rfl, rfl⟩

theorem tryRecv_none (h : c.tryRecv = none) : c.items = [] := by
  unfold tryRecv at h
  split at h
  · assumption
  · cases h

end Channel

/-! ## Lists of several channels together -/

section Gather

variable {τ : Type}

def gather (n : ℕ) (f : ℕ → List τ) : List τ := (List.range n).flatMap f

theorem mem_gather {n : ℕ} {f : ℕ → List τ} {x : τ} : x ∈ gather n f ↔ ∃ i < n, x ∈ f i := by
  simp [gather]

theorem gather_split {n i : ℕ} (hi : i < n) (f : ℕ → List τ) :
    ∃ before after, gather n f = before ++ f i ++ after ∧
      ∀ l, gather n (Function.update f i l) = before ++ l ++ after := by
  obtain ⟨front, back, hrange⟩ := List.append_of_mem (List.mem_range.mpr hi)
  have hnodup : (front ++ i :: back).Nodup := hrange ▸ List.nodup_range
  rw [List.nodup_middle, List.nodup_cons, List.mem_append, not_or] at hnodup
  obtain ⟨⟨hfront, hback⟩, -⟩ := hnodup
  refine ⟨front.flatMap f, back.flatMap f, ?_, fun l => ?_⟩
  · rw [gather, hrange, List.flatMap_append, List.flatMap_cons, List.append_assoc]
  · have hsame : ∀ part : List ℕ, i ∉ part → part.flatMap (Function.update f i l) = part.flatMap f := by
      intro part hpart
      refine List.flatMap_congr fun j hj => ?_
      have hne : j ≠ i := fun heq => hpart (heq ▸ hj)
      exact Function.update_of_ne hne l f
    rw [gather, hrange, List.flatMap_append, List.flatMap_cons, hsame front hfront, hsame back hback,
      Function.update_self, List.append_assoc]

theorem gather_concat {n i : ℕ} (hi : i < n) (f : ℕ → List τ) (x : τ) :
    (gather n (Function.update f i (f i ++ [x]))).Perm (x :: gather n f) := by
  obtain ⟨before, after, hold, hnew⟩ := gather_split hi f
  rw [hnew, hold]
  simp only [List.append_assoc, List.singleton_append]
  rw [← List.append_assoc, ← List.append_assoc]
  exact List.perm_middle

end Gather

end Lib
