import Mathlib.Data.List.Basic
import Mathlib.Data.List.Nodup
import Mathlib.Order.Bounds.Basic

/-! # Sorted lists, and the place of a value in them -/

namespace Lib

variable {α : Type} [LinearOrder α] {l : List α}

theorem takeWhile_le_eq_filter (h : l.Pairwise (· ≤ ·)) (x : α) : l.takeWhile (· ≤ x) = l.filter (· ≤ x) := by
  induction l with
  | nil => rfl
  | cons a l ih =>
    obtain ⟨hfirst, hrest⟩ := List.pairwise_cons.mp h
    by_cases ha : a ≤ x
    · rw [List.takeWhile_cons_of_pos (by simpa using ha), List.filter_cons_of_pos (by simpa using ha), ih hrest]
    · rw [List.takeWhile_cons_of_neg (by simpa using ha), eq_comm, List.filter_eq_nil_iff]
      intro y hy
      rcases List.mem_cons.mp hy with rfl | hy
      · simpa using ha
      · simpa using (lt_of_not_ge ha).trans_le (hfirst y hy)

theorem getLast?_eq_some_iff_isGreatest (h : l.Pairwise (· ≤ ·)) (g : α) :
    l.getLast? = some g ↔ IsGreatest {y | y ∈ l} g := by
  constructor
  · intro hlast
    obtain ⟨front, rfl⟩ := List.getLast?_eq_some_iff.mp hlast
    refine ⟨by simp, fun y hy => ?_⟩
    rcases List.mem_append.mp hy with hy | hy
    · exact (List.pairwise_append.mp h).2.2 y hy g (by simp)
    · exact le_of_eq (List.mem_singleton.mp hy)
  · intro hg
    cases hlast : l.getLast? with
    | none =>
      rw [List.getLast?_eq_none_iff] at hlast
      subst hlast
      cases hg.1
    | some g' =>
      obtain ⟨front, rfl⟩ := List.getLast?_eq_some_iff.mp hlast
      have hle : g ≤ g' := by
        rcases List.mem_append.mp hg.1 with hy | hy
        · exact (List.pairwise_append.mp h).2.2 g hy g' (by simp)
        · exact le_of_eq (List.mem_singleton.mp hy)
      rw [le_antisymm hle (hg.2 (by simp))]

omit [LinearOrder α] in
theorem getElem?_before_place (p : α → Bool) (h : 0 < (l.takeWhile p).length) :
    l[(l.takeWhile p).length - 1]? = (l.takeWhile p).getLast? := by
  obtain ⟨rest, hrest⟩ := List.takeWhile_prefix p (l := l)
  have hfront : (l.takeWhile p ++ rest)[(l.takeWhile p).length - 1]? = (l.takeWhile p).getLast? := by
    rw [List.getElem?_append_left (by omega), List.getLast?_eq_getElem?]
  rwa [hrest] at hfront

theorem before_place (h : l.Pairwise (· ≤ ·)) (x g : α) :
    (l.takeWhile (· ≤ x)).getLast? = some g ↔ IsGreatest {y | y ∈ l ∧ y ≤ x} g := by
  have hsorted : (l.filter (· ≤ x)).Pairwise (· ≤ ·) := h.sublist List.filter_sublist
  rw [takeWhile_le_eq_filter h, getLast?_eq_some_iff_isGreatest hsorted]
  simp only [List.mem_filter, decide_eq_true_eq]

/-- In a list that is sorted by a key, the place of `x` parts the keys up to `x` from the greater ones. -/
theorem mem_drop_place {β : Type} {f : β → α} {l : List β} (h : l.Pairwise fun a b => f a ≤ f b) (x : α) (b : β) :
    b ∈ l.drop (l.takeWhile fun a => decide (f a ≤ x)).length ↔ b ∈ l ∧ x < f b := by
  induction l with
  | nil => simp
  | cons a l ih =>
    obtain ⟨hfirst, hrest⟩ := List.pairwise_cons.mp h
    by_cases ha : f a ≤ x
    · rw [List.takeWhile_cons_of_pos (by simpa using ha), List.length_cons, List.drop_succ_cons, ih hrest,
        List.mem_cons]
      constructor
      · rintro ⟨hb, hlt⟩
        exact ⟨.inr hb, hlt⟩
      · rintro ⟨rfl | hb, hlt⟩
        · exact absurd ha (not_le.mpr hlt)
        · exact ⟨hb, hlt⟩
    · rw [List.takeWhile_cons_of_neg (by simpa using ha), List.length_nil, List.drop_zero]
      refine ⟨fun hb => ⟨hb, ?_⟩, fun hb => hb.1⟩
      have hlt := lt_of_not_ge ha
      rcases List.mem_cons.mp hb with rfl | hb
      · exact hlt
      · exact hlt.trans_le (hfirst b hb)

theorem at_place {x y : α} (h : l[(l.takeWhile (· ≤ x)).length]? = some y) : x < y := by
  induction l with
  | nil => cases h
  | cons a l ih =>
    by_cases ha : a ≤ x
    · rw [List.takeWhile_cons_of_pos (by simpa using ha), List.length_cons, List.getElem?_cons_succ] at h
      exact ih h
    · rw [List.takeWhile_cons_of_neg (by simpa using ha), List.length_nil, List.getElem?_cons_zero] at h
      cases h
      exact lt_of_not_ge ha

/-- Entries with different keys come out of the sort in one order. -/
theorem mergeSort_eq_of_perm {β κ : Type} [LinearOrder κ] {key : β → κ} {l l' : List β} (hperm : l.Perm l')
    (hkeys : (l.map key).Nodup) :
    l.mergeSort (fun a b => decide (key a ≤ key b)) = l'.mergeSort (fun a b => decide (key a ≤ key b)) := by
  have hsorted : ∀ l : List β, (l.mergeSort fun a b => decide (key a ≤ key b)).Pairwise fun a b =>
      decide (key a ≤ key b) = true := by
    refine fun l => List.pairwise_mergeSort ?_ ?_ l
    · intro a b c hab hbc
      simp only [decide_eq_true_eq] at hab hbc ⊢
      exact hab.trans hbc
    · intro a b
      simp only [Bool.or_eq_true, decide_eq_true_eq]
      exact le_total (key a) (key b)
  refine List.Perm.eq_of_pairwise ?_ (hsorted l) (hsorted l') ?_
  · intro a b ha hb hab hba
    simp only [decide_eq_true_eq] at hab hba
    have ha := (List.mergeSort_perm l _).mem_iff.mp ha
    have hb := hperm.mem_iff.mpr ((List.mergeSort_perm l' _).mem_iff.mp hb)
    exact List.inj_on_of_nodup_map hkeys ha hb (le_antisymm hab hba)
  · exact (List.mergeSort_perm l _).trans (hperm.trans (List.mergeSort_perm l' _).symm)

end Lib
