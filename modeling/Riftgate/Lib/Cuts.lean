import Riftgate.Lib.Text

/-!
# Cuts of a text

A cut at a character finds its first or its last place, and a cut at a text finds the first place of it.
-/

namespace Lib

section Characters

variable {sep : Char} {l before after : List Char}

theorem splitOnce_iff : splitOnce sep l = some (before, after) ↔ l = before ++ sep :: after ∧ sep ∉ before := by
  constructor
  · intro h
    by_cases hmem : sep ∈ l
    · obtain ⟨a, b, rfl, ha⟩ := List.eq_append_cons_of_mem hmem
      rw [splitOnce_append ha, Option.some.injEq, Prod.mk.injEq] at h
      obtain ⟨rfl, rfl⟩ := h
      exact ⟨rfl, ha⟩
    · rw [splitOnce_eq_none hmem] at h
      cases h
  · rintro ⟨rfl, hsep⟩
    exact splitOnce_append hsep after

theorem splitOnce_none_iff : splitOnce sep l = none ↔ sep ∉ l := by
  refine ⟨fun h hmem => ?_, splitOnce_eq_none⟩
  obtain ⟨a, b, rfl, ha⟩ := List.eq_append_cons_of_mem hmem
  rw [splitOnce_append ha] at h
  cases h

/-- `str::rsplit_once` at a character: before and after its last occurrence. -/
def splitLast (sep : Char) (l : List Char) : Option (List Char × List Char) :=
  (splitOnce sep l.reverse).map fun p => (p.2.reverse, p.1.reverse)

theorem splitLast_iff : splitLast sep l = some (before, after) ↔ l = before ++ sep :: after ∧ sep ∉ after := by
  have hreverse : l = before ++ sep :: after ↔ l.reverse = after.reverse ++ sep :: before.reverse := by
    rw [← List.reverse_inj]
    simp
  rw [hreverse, ← @List.mem_reverse _ sep after, ← splitOnce_iff, splitLast, Option.map_eq_some_iff]
  constructor
  · rintro ⟨⟨a, b⟩, h, heq⟩
    rw [Prod.mk.injEq] at heq
    obtain ⟨rfl, rfl⟩ := heq
    rw [List.reverse_reverse, List.reverse_reverse]
    exact h
  · intro h
    exact ⟨_, h, by rw [List.reverse_reverse, List.reverse_reverse]⟩

theorem splitLast_none_iff : splitLast sep l = none ↔ sep ∉ l := by
  unfold splitLast
  rw [Option.map_eq_none_iff, splitOnce_none_iff, List.mem_reverse]

end Characters

section Texts

variable {sep l before after : List Char}

theorem stripStart_iff {rest : List Char} : stripStart sep l = some rest ↔ l = sep ++ rest :=
  ⟨eq_of_stripStart, fun h => h ▸ stripStart_append sep rest⟩

/-- `str::split_once` at a text. -/
def splitText (sep : List Char) (l : List Char) : Option (List Char × List Char) :=
  match stripStart sep l with
  | some rest => some ([], rest)
  | none =>
    match l with
    | [] => none
    | c :: l => (splitText sep l).map fun p => (c :: p.1, p.2)

/-- The first place where a text stands in another one. -/
def IsFirstCut (sep l before after : List Char) : Prop :=
  l = before ++ (sep ++ after) ∧ ∀ x y, l = x ++ (sep ++ y) → before.length ≤ x.length

theorem IsFirstCut.nil (rest : List Char) : IsFirstCut sep (sep ++ rest) [] rest := ⟨rfl, fun _ _ _ => Nat.zero_le _⟩

theorem isFirstCut_cons {c : Char} (h : stripStart sep (c :: l) = none) :
    IsFirstCut sep (c :: l) before after ↔ ∃ before', before = c :: before' ∧ IsFirstCut sep l before' after := by
  have hstart : ∀ y, c :: l ≠ sep ++ y := by
    intro y heq
    rw [heq, stripStart_append] at h
    cases h
  constructor
  · rintro ⟨heq, hfirst⟩
    cases before with
    | nil => exact absurd heq (hstart after)
    | cons d before' =>
      rw [List.cons_append, List.cons.injEq] at heq
      obtain ⟨rfl, heq⟩ := heq
      refine ⟨before', rfl, heq, fun x y hxy => ?_⟩
      have hlen := hfirst (c :: x) y (by rw [hxy]; rfl)
      simp at hlen
      omega
  · rintro ⟨before', rfl, heq, hfirst⟩
    refine ⟨by rw [heq]; rfl, fun x y hxy => ?_⟩
    cases x with
    | nil => exact absurd hxy (hstart y)
    | cons d x =>
      rw [List.cons_append, List.cons.injEq] at hxy
      have hlen := hfirst x y hxy.2
      simp
      omega

theorem splitText_iff : splitText sep l = some (before, after) ↔ IsFirstCut sep l before after := by
  induction l generalizing before with
  | nil =>
    unfold splitText IsFirstCut
    cases h : stripStart sep [] with
    | none =>
      refine iff_of_false (by simp) ?_
      rintro ⟨heq, -⟩
      obtain ⟨hsep, -⟩ : sep = [] ∧ after = [] := by simpa using (List.append_eq_nil_iff.mp heq.symm).2
      rw [hsep] at h
      cases h
    | some rest =>
      rw [stripStart_iff] at h
      obtain ⟨rfl, rfl⟩ := List.append_eq_nil_iff.mp h.symm
      simp only [Option.some.injEq, Prod.mk.injEq]
      constructor
      · rintro ⟨rfl, rfl⟩
        exact ⟨rfl, fun _ _ _ => Nat.zero_le _⟩
      · rintro ⟨heq, -⟩
        obtain ⟨rfl, hafter⟩ := List.append_eq_nil_iff.mp heq.symm
        exact ⟨rfl, (List.append_eq_nil_iff.mp hafter).2.symm⟩
  | cons c l ih =>
    unfold splitText
    cases h : stripStart sep (c :: l) with
    | none =>
      simp only [Option.map_eq_some_iff, Prod.mk.injEq, Prod.exists]
      rw [isFirstCut_cons h]
      constructor
      · rintro ⟨before', after', hcut, rfl, rfl⟩
        exact ⟨before', rfl, ih.mp hcut⟩
      · rintro ⟨before', rfl, hcut⟩
        exact ⟨before', after, ih.mpr hcut, rfl, rfl⟩
    | some rest =>
      rw [stripStart_iff] at h
      rw [h]
      simp only [Option.some.injEq, Prod.mk.injEq]
      constructor
      · rintro ⟨rfl, rfl⟩
        exact IsFirstCut.nil _
      · rintro ⟨heq, hfirst⟩
        have hlen := hfirst [] rest rfl
        obtain rfl : before = [] := List.eq_nil_of_length_eq_zero (Nat.le_zero.mp hlen)
        exact ⟨rfl, List.append_cancel_left heq⟩

theorem splitText_none_iff : splitText sep l = none ↔ ∀ x y, l ≠ x ++ (sep ++ y) := by
  constructor
  · intro h x y heq
    induction x generalizing l with
    | nil =>
      have hstart : stripStart sep l = some y := by
        rw [heq]
        exact stripStart_append sep y
      unfold splitText at h
      rw [hstart] at h
      cases h
    | cons c x ih =>
      subst heq
      unfold splitText at h
      split at h
      · cases h
      · rw [List.cons_append] at h
        exact ih (Option.map_eq_none_iff.mp h) rfl
  · intro h
    cases hcut : splitText sep l with
    | none => rfl
    | some p => exact absurd (splitText_iff.mp hcut).1 (h p.1 p.2)

theorem splitText_append {c : Char} {line : List Char} (h : c ∉ line) (rest : List Char) :
    splitText (c :: sep) (line ++ rest) = (splitText (c :: sep) rest).map fun p => (line ++ p.1, p.2) := by
  induction line with
  | nil => simp
  | cons d line ih =>
    rw [List.mem_cons, not_or] at h
    have hstart : stripStart (c :: sep) (d :: (line ++ rest)) = none := by
      simp [stripStart, List.isPrefixOf?, h.1]
    rw [List.cons_append, splitText, hstart, ih h.2]
    simp [Option.map_map, Function.comp_def]

end Texts

end Lib
