import Mathlib.Data.List.Basic
import Mathlib.Data.List.Defs
import Mathlib.Data.List.Infix
import Mathlib.Data.Set.Function

/-!
# Lists in chunks

`l.toChunks n` has chunks of `n` elements, and what is left over is a shorter last chunk.
-/

namespace Lib

variable {α β : Type*}

theorem toChunks_start {n : ℕ} (hn : 0 < n) (x : α) (xs : List α) :
    (x :: xs).toChunks n = List.toChunks.go n xs #[x] #[] := by
  cases n with
  | zero => omega
  | succ n => rfl

theorem toChunks_go {n : ℕ} (hn : 0 < n) (xs : List α) (chunk : Array α) (done : Array (List α))
    (hchunk : chunk.size ≤ n) :
    List.toChunks.go n xs chunk done =
      done.toList ++ (chunk.toList ++ xs.take (n - chunk.size)) :: (xs.drop (n - chunk.size)).toChunks n := by
  induction xs generalizing chunk done with
  | nil =>
    rw [List.toChunks.go, List.take_nil, List.drop_nil, List.append_nil]
    simp [List.toChunks]
  | cons x xs ih =>
    unfold List.toChunks.go
    by_cases hfull : chunk.size = n
    · have hone : ((Array.mkEmpty n).push x : Array α) = #[x] := by simp
      have hsingle : (#[x] : Array α).size ≤ n := hn
      rw [if_pos (by simp [hfull]), hone, ih #[x] _ hsingle, hfull, Nat.sub_self, List.take_zero, List.drop_zero,
        toChunks_start hn, ih #[x] #[] hsingle]
      simp
    · obtain ⟨k, hk⟩ : ∃ k, n - chunk.size = k + 1 := ⟨n - chunk.size - 1, by omega⟩
      have hk' : n - (chunk.push x).size = k := by
        rw [Array.size_push]
        omega
      rw [if_neg (by simp [hfull]), ih (chunk.push x) done (by rw [Array.size_push]; omega), hk, hk']
      simp

theorem toChunks_nil (n : ℕ) : ([] : List α).toChunks n = [] := by
  cases n with
  | zero => rfl
  | succ n => rfl

theorem toChunks_eq {n : ℕ} (hn : 0 < n) {l : List α} (hl : l ≠ []) :
    l.toChunks n = l.take n :: (l.drop n).toChunks n := by
  obtain ⟨x, xs, rfl⟩ := List.exists_cons_of_ne_nil hl
  obtain ⟨k, rfl⟩ : ∃ k, n = k + 1 := ⟨n - 1, by omega⟩
  rw [toChunks_start hn, toChunks_go hn xs #[x] #[] (by simp)]
  simp

theorem toChunks_eq_nil {n : ℕ} (hn : 0 < n) {l : List α} : l.toChunks n = [] ↔ l = [] := by
  constructor
  · intro h
    by_contra hl
    rw [toChunks_eq hn hl] at h
    cases h
  · rintro rfl
    exact toChunks_nil n

theorem toChunks_append {n : ℕ} (hn : 0 < n) (k : ℕ) {l : List α} (hl : l.length = k * n) (l' : List α) :
    (l ++ l').toChunks n = l.toChunks n ++ l'.toChunks n := by
  induction k generalizing l with
  | zero =>
    obtain rfl : l = [] := List.eq_nil_of_length_eq_zero (by omega)
    rw [toChunks_nil]
    rfl
  | succ k ih =>
    rw [Nat.succ_mul] at hl
    have hle : n ≤ l.length := by omega
    have hne : l ≠ [] := List.length_pos_iff_ne_nil.mp (by omega)
    have hne' : l ++ l' ≠ [] := fun h => hne (List.append_eq_nil_iff.mp h).1
    rw [toChunks_eq hn hne, toChunks_eq hn hne', List.take_append_of_le_length hle, List.drop_append_of_le_length hle,
      ih (by rw [List.length_drop]; omega), List.cons_append]

theorem toChunks_prefix_iff {n : ℕ} (hn : 0 < n) (l l' : List α) :
    l.toChunks n <+: l'.toChunks n ↔ l <+: l' ∧ (n ∣ l.length ∨ l = l') := by
  constructor
  · intro h
    induction hk : l.length using Nat.strong_induction_on generalizing l l' with
    | _ k ih =>
    subst hk
    by_cases hl : l = []
    · subst hl
      exact ⟨ List.nil_prefix, Or.inl (Nat.dvd_zero n)⟩
    · have hl' : l' ≠ [] := by
        rintro rfl
        rw [toChunks_nil, List.prefix_nil, toChunks_eq_nil hn] at h
        exact hl h
      rw [toChunks_eq hn hl, toChunks_eq hn hl', List.cons_prefix_cons] at h
      obtain ⟨htake, hdrop⟩ := h
      have hpos := List.length_pos_iff_ne_nil.mpr hl
      have hlen : (l.drop n).length < l.length := by
        rw [List.length_drop]
        omega
      obtain ⟨hfirst, hend⟩ := ih _ hlen (l.drop n) (l'.drop n) hdrop rfl
      have hwhole : l <+: l' := by
        rw [← List.take_append_drop n l, ← List.take_append_drop n l', htake]
        exact ( List.prefix_append_right_inj _).mpr hfirst
      refine ⟨hwhole, ?_⟩
      rcases hend with hdvd | heq
      · by_cases hlt : l.length < n
        · -- the only chunk is short, so it is the last one of both
          have hsame := congrArg List.length htake
          rw [List.length_take, List.length_take] at hsame
          exact Or.inr (hwhole.eq_of_length (by omega))
        · rw [List.length_drop] at hdvd
          exact Or.inl ((Nat.dvd_sub_iff_left (by omega) (Nat.dvd_refl n)).mp hdvd)
      · rw [← List.take_append_drop n l, htake, heq, List.take_append_drop]
        exact Or.inr rfl
  · rintro ⟨⟨rest, rfl⟩, ⟨k, hk⟩ | heq⟩
    · rw [toChunks_append hn k (by rw [hk, Nat.mul_comm])]
      exact List.prefix_append _ _
    · rw [← heq]

theorem prefix_of_map {f : α → β} {l l' : List α} (hf : Set.InjOn f {x | x ∈ l ∨ x ∈ l'})
    (h : l.map f <+: l'.map f) : l <+: l' := by
  induction l generalizing l' with
  | nil => exact List.nil_prefix
  | cons x l ih =>
    cases l' with
    | nil => simp at h
    | cons y l' =>
      rw [List.map_cons, List.map_cons, List.cons_prefix_cons] at h
      obtain rfl : x = y := hf (by simp) (by simp) h.1
      rw [List.cons_prefix_cons]
      refine ⟨rfl, ih (hf.mono ?_) h.2⟩
      rintro z (hz | hz)
      · exact Or.inl (List.mem_cons_of_mem x hz)
      · exact Or.inr (List.mem_cons_of_mem x hz)

end Lib
