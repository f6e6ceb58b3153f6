import Mathlib.Data.List.AList
import Mathlib.Data.List.Induction

/-!
# Hash maps

A map in some order of iteration is an association list without a double key. What collecting pairs into a
map keeps of them is the last value of each key.
-/

namespace Lib

abbrev Table (α β : Type) := AList fun _ : α => β

namespace Table

variable {α β γ : Type}

/-- The entries in the order of iteration. -/
def pairs (t : Table α β) : List (α × β) := t.entries.map fun e => (e.1, e.2)

theorem mem_pairs {t : Table α β} {a : α} {b : β} : (a, b) ∈ t.pairs ↔ ⟨a, b⟩ ∈ t.entries := by
  simp only [pairs, List.mem_map, Prod.mk.injEq]
  constructor
  · rintro ⟨⟨a', b'⟩, he, rfl, rfl⟩
    exact he
  · intro he
    exact ⟨⟨a, b⟩, he, rfl, rfl⟩

theorem pairs_keys (t : Table α β) : t.pairs.map Prod.fst = t.keys := by
  simp only [pairs, List.map_map]
  rfl

theorem pairs_nodup (t : Table α β) : t.pairs.Nodup := by
  refine List.Nodup.of_map Prod.fst ?_
  rw [pairs_keys]
  exact t.keys_nodup

variable [DecidableEq α]

theorem lookup_eq_some_iff {t : Table α β} {a : α} {b : β} : t.lookup a = some b ↔ (a, b) ∈ t.pairs := by
  rw [mem_pairs]
  exact AList.mem_lookup_iff

theorem mem_pairs_insert {t : Table α β} {a : α} {b : β} {p : α × β} :
    p ∈ pairs (t.insert a b) ↔ p = (a, b) ∨ p.1 ≠ a ∧ p ∈ t.pairs := by
  obtain ⟨a', b'⟩ := p
  rw [← lookup_eq_some_iff, ← lookup_eq_some_iff]
  by_cases ha : a' = a
  · subst ha
    rw [AList.lookup_insert]
    simp [eq_comm]
  · rw [AList.lookup_insert_ne ha]
    simp [ha]

theorem length_insert (t : Table α β) (a : α) (b : β) :
    (t.insert a b).entries.length = if a ∈ t then t.entries.length else t.entries.length + 1 := by
  have hkeys : ∀ t : Table α β, t.keys.length = t.entries.length := fun t => List.length_map ..
  rw [← hkeys, ← hkeys, AList.keys_insert, List.length_cons]
  split
  · rename_i ha
    have hpos : 0 < t.keys.length := List.length_pos_of_mem ha
    rw [List.length_erase_of_mem ha]
    omega
  · rename_i ha
    rw [List.erase_of_not_mem ha]

theorem mem_pairs_erase {t : Table α β} {a : α} {p : α × β} :
    p ∈ pairs (t.erase a) ↔ p.1 ≠ a ∧ p ∈ t.pairs := by
  obtain ⟨a', b'⟩ := p
  rw [← lookup_eq_some_iff, ← lookup_eq_some_iff]
  by_cases ha : a' = a
  · subst ha
    simp [AList.lookup_erase]
  · rw [AList.lookup_erase_ne ha]
    simp [ha]

/-- `iter().collect()`: one insertion after the other. -/
def collect (l : List (α × β)) : Table α β := l.foldl (fun t p => t.insert p.1 p.2) ∅

@[simp] theorem collect_nil : collect ([] : List (α × β)) = ∅ := rfl

@[simp] theorem collect_concat (l : List (α × β)) (p : α × β) : collect (l ++ [p]) = (collect l).insert p.1 p.2 := by
  simp [collect, List.foldl_append]

theorem mem_of_lookup_collect {l : List (α × β)} {a : α} {b : β} (h : (collect l).lookup a = some b) :
    (a, b) ∈ l := by
  induction l using List.reverseRecOn with
  | nil => simp at h
  | append_singleton l p ih =>
    rw [collect_concat] at h
    by_cases hp : a = p.1
    · subst hp
      rw [AList.lookup_insert] at h
      cases h
      simp
    · rw [AList.lookup_insert_ne hp] at h
      exact List.mem_append_left _ (ih h)

theorem exists_lookup_collect {l : List (α × β)} {a : α} {b : β} (h : (a, b) ∈ l) :
    ∃ b', (collect l).lookup a = some b' := by
  induction l using List.reverseRecOn with
  | nil => cases h
  | append_singleton l p ih =>
    rw [collect_concat]
    by_cases hp : a = p.1
    · subst hp
      exact ⟨p.2, AList.lookup_insert _⟩
    · rw [AList.lookup_insert_ne hp]
      rcases List.mem_append.mp h with hl | hl
      · exact ih hl
      · rw [List.mem_singleton] at hl
        subst hl
        exact absurd rfl hp

theorem lookup_collect_of_unique {l : List (α × β)} {a : α} {b : β} (h : (a, b) ∈ l)
    (hu : ∀ b', (a, b') ∈ l → b' = b) : (collect l).lookup a = some b := by
  obtain ⟨b', hb'⟩ := exists_lookup_collect h
  rw [hb', hu b' (mem_of_lookup_collect hb')]

theorem lookup_collect_eq_none {l : List (α × β)} {a : α} (h : ∀ b, (a, b) ∉ l) : (collect l).lookup a = none := by
  cases hl : (collect l).lookup a with
  | none => rfl
  | some b => exact absurd (mem_of_lookup_collect hl) (h b)

theorem lookup_collect_map (t : Table α β) (f : β → γ) (a : α) :
    (collect (t.pairs.map fun p => (p.1, f p.2))).lookup a = (t.lookup a).map f := by
  cases h : t.lookup a with
  | some b =>
    refine lookup_collect_of_unique (List.mem_map.mpr ⟨(a, b), lookup_eq_some_iff.mp h, rfl⟩) ?_
    intro c hc
    obtain ⟨⟨a', b'⟩, hp, he⟩ := List.mem_map.mp hc
    cases he
    rw [lookup_eq_some_iff.mpr hp] at h
    cases h
    rfl
  | none =>
    refine lookup_collect_eq_none fun c hc => ?_
    obtain ⟨⟨a', b'⟩, hp, he⟩ := List.mem_map.mp hc
    cases he
    rw [lookup_eq_some_iff.mpr hp] at h
    cases h

theorem pairs_perm {t t' : Table α β} (h : ∀ a, t.lookup a = t'.lookup a) : t.pairs.Perm t'.pairs := by
  rw [List.perm_ext_iff_of_nodup t.pairs_nodup t'.pairs_nodup]
  rintro ⟨a, b⟩
  rw [← lookup_eq_some_iff, ← lookup_eq_some_iff, h a]

/-- Of pairs with different keys it does not matter which is inserted first. -/
theorem lookup_collect_perm {l l' : List (α × β)} (hperm : l.Perm l') (hkeys : (l.map Prod.fst).Nodup) (a : α) :
    (collect l).lookup a = (collect l').lookup a := by
  have hunique : ∀ {l : List (α × β)} {b b' : β}, (l.map Prod.fst).Nodup → (a, b) ∈ l → (a, b') ∈ l → b' = b :=
    fun hkeys hb hb' => (Prod.ext_iff.mp (List.inj_on_of_nodup_map hkeys hb' hb rfl)).2
  by_cases h : ∃ b, (a, b) ∈ l
  · obtain ⟨b, hb⟩ := h
    rw [lookup_collect_of_unique hb fun b' hb' => hunique hkeys hb hb',
      lookup_collect_of_unique (hperm.mem_iff.mp hb) fun b' hb' => hunique hkeys hb (hperm.mem_iff.mpr hb')]
  · rw [lookup_collect_eq_none fun b hb => h ⟨b, hb⟩,
      lookup_collect_eq_none fun b hb => h ⟨b, hperm.mem_iff.mpr hb⟩]

end Table

end Lib
