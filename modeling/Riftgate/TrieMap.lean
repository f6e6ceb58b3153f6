import Riftgate.Lib.Table
import Riftgate.Routing

/-!
# The prefix trie as a map

The nodes with a backend are the entries of a map from the paths to them. An insertion into a full trie starts from
an empty one. An insertion of the empty path does nothing, also when the trie is full.
-/

open Lib

namespace Riftgate.Router

/-! ## The map -/

abbrev PathMap := Table (List UInt64) BackendId

/-- The insertion of a path. -/
def PathMap.record (cap : Nat) (m : PathMap) (path : List UInt64) (b : BackendId) : PathMap :=
  if path = [] then m else (if cap ≤ m.entries.length then (∅ : PathMap) else m).insert path b

/-- The value of the longest entry that begins `hashes`, if there is one. -/
def PathMap.IsLongest (m : PathMap) (hashes : List UInt64) : Option BackendId → Prop
  | some b => ∃ path, path <+: hashes ∧ m.lookup path = some b ∧
      ∀ q, q <+: hashes → q ∈ m → q.length ≤ path.length
  | none => ∀ q, q <+: hashes → q ∉ m

/-- The trie finds what is in the map, and counts it. -/
structure Represents (trie : PrefixTrie) (m : PathMap) : Prop where
  lookup : ∀ path, trie.root.lookup path = m.lookup path
  nonempty : [] ∉ m
  count : trie.count = m.entries.length

/-! ## One insertion -/

theorem insert_isNew (node : TrieNode) (b : BackendId) (hashes : List UInt64) :
    (node.insert b hashes).2 = (node.lookup hashes).isNone := by
  induction hashes generalizing node with
  | nil => rfl
  | cons h hashes ih =>
    rw [← lookup_child, ← ih (node.child h)]
    rfl

theorem Represents.isNew {trie : PrefixTrie} {m : PathMap} (h : Represents trie m) (b : BackendId)
    (hashes : List UInt64) : (trie.root.insert b hashes).2 = true ↔ hashes ∉ m := by
  rw [insert_isNew, h.lookup, Option.isNone_iff_eq_none, AList.lookup_eq_none]

theorem represents_empty (cap : Nat) : Represents { cap := cap } ∅ where
  lookup := lookup_empty
  nonempty := AList.notMem_empty _
  count := rfl

theorem Represents.insert {trie : PrefixTrie} {m : PathMap} (h : Represents trie m) {hashes : List UInt64}
    (hne : hashes ≠ []) (b : BackendId) :
    Represents
      ⟨(trie.root.insert b hashes).1, if (trie.root.insert b hashes).2 then trie.count + 1 else trie.count, trie.cap⟩
      (m.insert hashes b) where
  lookup path := by
    rw [lookup_insert, h.lookup]
    split
    · rename_i hpath
      rw [hpath, AList.lookup_insert]
    · rename_i hpath
      rw [AList.lookup_insert_ne hpath]
  nonempty := by
    rw [AList.mem_insert, not_or]
    exact ⟨hne.symm, h.nonempty⟩
  count := by
    rw [Table.length_insert, h.count]
    by_cases hmem : hashes ∈ m
    · rw [if_pos hmem, if_neg (mt (h.isNew b hashes).mp (not_not.mpr hmem))]
    · rw [if_neg hmem, if_pos ((h.isNew b hashes).mpr hmem)]

theorem Represents.record {trie : PrefixTrie} {m : PathMap} (h : Represents trie m) (hashes : List UInt64)
    (b : BackendId) : Represents (trie.insert hashes b) (m.record trie.cap hashes b) := by
  unfold PrefixTrie.insert PathMap.record
  rw [← h.count]
  by_cases hne : hashes = []
  · rw [if_pos hne, if_pos hne]
    exact h
  · rw [if_neg hne, if_neg hne]
    by_cases hfull : trie.cap ≤ trie.count
    · simp only [if_pos hfull]
      exact (represents_empty trie.cap).insert hne b
    · simp only [if_neg hfull]
      exact h.insert hne b

theorem record_length_le {cap : Nat} (hcap : 1 ≤ cap) {m : PathMap} (h : m.entries.length ≤ cap) (path : List UInt64)
    (b : BackendId) : (m.record cap path b).entries.length ≤ cap := by
  unfold PathMap.record
  split
  · exact h
  · by_cases hfull : cap ≤ m.entries.length
    · rw [if_pos hfull, Table.length_insert, if_neg (AList.notMem_empty path)]
      exact hcap
    · rw [if_neg hfull, Table.length_insert]
      split <;> omega

/-! ## Any insertions -/

def PrefixTrie.insertAll (trie : PrefixTrie) (inserts : List (List UInt64 × BackendId)) : PrefixTrie :=
  inserts.foldl (fun trie i => trie.insert i.1 i.2) trie

def PathMap.recordAll (cap : Nat) (m : PathMap) (inserts : List (List UInt64 × BackendId)) : PathMap :=
  inserts.foldl (fun m i => m.record cap i.1 i.2) m

theorem insert_cap (trie : PrefixTrie) (hashes : List UInt64) (b : BackendId) :
    (trie.insert hashes b).cap = trie.cap := by
  unfold PrefixTrie.insert
  split
  · rfl
  · simp only
    split <;> rfl

theorem Represents.insertAll {trie : PrefixTrie} {m : PathMap} (h : Represents trie m)
    (inserts : List (List UInt64 × BackendId)) :
    Represents (trie.insertAll inserts) (m.recordAll trie.cap inserts) := by
  induction inserts generalizing trie m with
  | nil => exact h
  | cons i inserts ih =>
    have hnext := ih (h.record i.1 i.2)
    rw [insert_cap] at hnext
    exact hnext

theorem recordAll_length_le {cap : Nat} (hcap : 1 ≤ cap) {m : PathMap} (h : m.entries.length ≤ cap)
    (inserts : List (List UInt64 × BackendId)) : (m.recordAll cap inserts).entries.length ≤ cap := by
  induction inserts generalizing m with
  | nil => exact h
  | cons i inserts ih => exact ih (record_length_le hcap h i.1 i.2)

theorem Represents.longestMatch {trie : PrefixTrie} {m : PathMap} (h : Represents trie m) (hashes : List UInt64) :
    m.IsLongest hashes (trie.longestMatch hashes) := by
  rcases longestMatch_cases trie.root none hashes with ⟨heq, hnone⟩ | ⟨path, b, -, hpath, hb, heq, hlonger⟩
  · rw [PrefixTrie.longestMatch, heq]
    intro q hq hmem
    have hne : q ≠ [] := by
      rintro rfl
      exact h.nonempty hmem
    have hlookup := hnone q hne hq
    rw [h.lookup, AList.lookup_eq_none] at hlookup
    exact hlookup hmem
  · rw [PrefixTrie.longestMatch, heq]
    refine ⟨path, hpath, (h.lookup path).symm.trans hb, fun q hq hmem => Nat.le_of_not_lt fun hlt => ?_⟩
    have hlookup := hlonger q hq hlt
    rw [h.lookup, AList.lookup_eq_none] at hlookup
    exact hlookup hmem

theorem insertAll_represents {cap : Nat} (hcap : 1 ≤ cap) (inserts : List (List UInt64 × BackendId)) :
    let trie := PrefixTrie.insertAll { cap := cap } inserts
    let m := PathMap.recordAll cap ∅ inserts
    Represents trie m ∧ trie.count ≤ cap ∧ ∀ hashes, m.IsLongest hashes (trie.longestMatch hashes) := by
  intro trie m
  have h : Represents trie m := (represents_empty cap).insertAll inserts
  refine ⟨h, ?_, h.longestMatch⟩
  rw [h.count]
  exact recordAll_length_le (m := ∅) hcap (Nat.zero_le cap) inserts

theorem insertAll_represents_two :
    let trie := PrefixTrie.insertAll { cap := 2 } [([1], ⟨0⟩), ([1, 2], ⟨1⟩)]
    trie.count ≤ 2 ∧ (PathMap.recordAll 2 ∅ [([1], ⟨0⟩), ([1, 2], ⟨1⟩)]).IsLongest [1, 2, 3]
      (trie.longestMatch [1, 2, 3]) :=
  have hcap : 1 ≤ 2 := by decide
  have h := insertAll_represents hcap [([1], ⟨0⟩), ([1, 2], ⟨1⟩)]
  ⟨h.2.1, h.2.2 [1, 2, 3]⟩

/-- The map which is cleared by every insertion when it is full, also by one of the empty path. -/
def PathMap.clearOrRecord (cap : Nat) (m : PathMap) (path : List UInt64) (b : BackendId) : PathMap :=
  let m := if cap ≤ m.entries.length then (∅ : PathMap) else m
  if path = [] then m else m.insert path b

/-- The empty path leaves a full trie as it is. -/
theorem insertAll_keeps_full :
    let inserts : List (List UInt64 × BackendId) := [([1], ⟨0⟩), ([], ⟨1⟩)]
    let trie := PrefixTrie.insertAll { cap := 1 } inserts
    let m := inserts.foldl (fun m i => PathMap.clearOrRecord 1 m i.1 i.2) ∅
    ¬ (Represents trie m ∧ trie.count ≤ 1 ∧ ∀ hashes, m.IsLongest hashes (trie.longestMatch hashes)) := by
  rintro inserts trie m ⟨h, -⟩
  have hlookup := h.lookup [1]
  have hfound : trie.root.lookup [1] = some ⟨0⟩ := by decide
  have hcleared : m.lookup [1] = none := by decide
  rw [hfound, hcleared] at hlookup
  cases hlookup

end Riftgate.Router
