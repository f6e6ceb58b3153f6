import Riftgate.Reopen
import Riftgate.Code.FileWalCrashes
import Riftgate.Code.SegmentNames

/-!
# The shards under one directory

A name says which shard its file belongs to and which number it has, and nothing else says so. `open` finds for each shard
what a directory of its own would have given it.
-/

open Lib

namespace Riftgate.FileWal

/-! ## Names -/

theorem dash_notMem_padded (width n : Nat) : '-' ∉ padded width n := by
  intro h
  have hdigit := mem_padded h
  revert hdigit
  decide

theorem segmentStart_append (i : Nat) (rest : List Char) :
    segmentStart i ++ rest = "seg-".toList ++ (padded 4 i ++ '-' :: rest) := by
  simp only [segmentStart, List.append_assoc, List.singleton_append]

/-- The dash behind the number of the shard ends it. -/
theorem segmentStart_inj {i j : Nat} {rest rest' : List Char} (h : segmentStart i ++ rest = segmentStart j ++ rest') :
    i = j ∧ rest = rest' := by
  rw [segmentStart_append, segmentStart_append, List.append_cancel_left_eq] at h
  have hcut := congrArg (splitOnce '-') h
  rw [splitOnce_append (dash_notMem_padded 4 i), splitOnce_append (dash_notMem_padded 4 j), Option.some.injEq,
    Prod.mk.injEq] at hcut
  exact ⟨padded_injective 4 hcut.1, hcut.2⟩

theorem segmentName_inj {i j n m : Nat} : segmentName i n = segmentName j m ↔ i = j ∧ n = m := by
  constructor
  · intro h
    obtain ⟨hi, hrest⟩ := segmentStart_inj h
    exact ⟨hi, padded_injective 20 (List.append_cancel_right hrest)⟩
  · rintro ⟨rfl, rfl⟩
    rfl

theorem seqnoOf_segmentName {n : Nat} (h : n < 2 ^ 64) (i j : Nat) :
    seqnoOf i (segmentName j n) = if j = i then some n else none := by
  unfold seqnoOf
  split
  · rename_i hij
    rw [hij, segmentName, stripStart_append, Option.bind_some, stripEnd_append, Option.bind_some]
    exact parseUnsigned_padded 20 h
  · rename_i hij
    cases hs : stripStart (segmentStart i) (segmentName j n) with
    | none => rfl
    | some rest => exact absurd (segmentStart_inj (eq_of_stripStart hs)).1 hij

/-! ## The highest number -/

theorem highest_eq_none {ns : List Nat} : highest ns = none ↔ ns = [] := by
  constructor
  · intro h
    rcases List.eq_nil_or_concat ns with rfl | ⟨ms, m, rfl⟩
    · rfl
    · rw [List.concat_eq_append, highest_append_one] at h
      cases h
  · rintro rfl
    rfl

theorem highest_mem {ns : List Nat} {h : Nat} (hh : highest ns = some h) : h ∈ ns := by
  induction ns using List.reverseRecOn generalizing h with
  | nil => cases hh
  | append_singleton ns n ih =>
    rw [highest_append_one, Option.some.injEq] at hh
    subst hh
    cases hns : highest ns with
    | none => simp
    | some k =>
      have hk := ih hns
      simp only [Option.elim, List.mem_append, List.mem_singleton]
      rcases Nat.le_total k n with hle | hle
      · exact Or.inr (Nat.max_eq_right hle)
      · rw [Nat.max_eq_left hle]
        exact Or.inl hk

theorem highest_congr {ns ms : List Nat} (h : ∀ n, n ∈ ns ↔ n ∈ ms) : highest ns = highest ms := by
  cases hns : highest ns with
  | none =>
    rw [highest_eq_none] at hns
    subst hns
    refine (highest_eq_none.mpr (List.eq_nil_iff_forall_not_mem.mpr fun n hn => ?_)).symm
    exact absurd ((h n).mpr hn) List.not_mem_nil
  | some a =>
    obtain ⟨b, hb, hab⟩ := highest_ge ms a ((h a).mp (highest_mem hns))
    have hba := highest_le ns a (fun n hn => ?_) a hns
    · obtain ⟨c, hc, hbc⟩ := highest_ge ns b ((h b).mpr (highest_mem hb))
      rw [hns, Option.some.injEq] at hc
      rw [hb, Option.some.injEq]
      omega
    · obtain ⟨c, hc, hnc⟩ := highest_ge ns n hn
      rw [hns, Option.some.injEq] at hc
      omega

/-! ## One directory for all shards -/

/-- The directory has the files of each shard under their names. Other files may be there, but none with a number of a
shard. -/
structure Holds (root : RootDir) (dirs : Nat → ShardDir) : Prop where
  files : ∀ i n bytes synced,
    root.lookup (segmentName i n) = some (bytes, synced) ↔ ⟨n, bytes, synced⟩ ∈ (dirs i).segments
  own : ∀ i n, ∀ name ∈ root.keys, seqnoOf i name = some n → name = segmentName i n
  small : ∀ i, ∀ f ∈ (dirs i).segments, f.seqno < 2 ^ 64

variable {root : RootDir} {dirs : Nat → ShardDir}

theorem mem_keys_iff (h : Holds root dirs) (i n : Nat) :
    segmentName i n ∈ root.keys ↔ n ∈ (dirs i).segments.map (·.seqno) := by
  rw [← AList.mem_keys, ← AList.lookup_isSome, Option.isSome_iff_exists, List.mem_map]
  constructor
  · rintro ⟨⟨bytes, synced⟩, hfile⟩
    exact ⟨_, (h.files i n bytes synced).mp hfile, rfl⟩
  · rintro ⟨⟨n, bytes, synced⟩, hfile, rfl⟩
    exact ⟨_, (h.files i n bytes synced).mpr hfile⟩

theorem highestSeqno_eq (h : Holds root dirs) (i : Nat) :
    highestSeqno i root.keys = highest ((dirs i).segments.map (·.seqno)) := by
  refine highest_congr fun n => ?_
  rw [List.mem_filterMap, ← mem_keys_iff h]
  constructor
  · rintro ⟨name, hname, hseqno⟩
    exact h.own i n name hname hseqno ▸ hname
  · intro hname
    obtain ⟨f, hf, rfl⟩ := List.mem_map.mp ((mem_keys_iff h i n).mp hname)
    refine ⟨_, hname, ?_⟩
    rw [seqnoOf_segmentName (h.small i f hf), if_pos rfl]

theorem openNamed_segment (h : Holds root dirs) (i n : Nat) :
    (openNamed root i n).2 = openSegment (dirs i).segments n := by
  have hfound : ∀ f, (dirs i).segments.find? (fun f => f.seqno = n) = some f →
      root.lookup (segmentName i n) = some (f.bytes, f.synced) := by
    intro f hf
    have hseqno : f.seqno = n := by simpa using List.find?_some hf
    subst hseqno
    exact (h.files i _ _ _).mpr (List.mem_of_find?_eq_some hf)
  unfold openNamed openSegment
  cases hf : (dirs i).segments.find? fun f => f.seqno = n with
  | some f =>
    rw [hfound f hf]
    have hseqno : f.seqno = n := by simpa using List.find?_some hf
    rw [← hseqno]
    rfl
  | none =>
    have hnone : root.lookup (segmentName i n) = none := by
      cases hl : root.lookup (segmentName i n) with
      | none => rfl
      | some file =>
        have hmem := (h.files i n file.1 file.2).mp hl
        have hne := List.find?_eq_none.mp hf _ hmem
        exact absurd (decide_eq_true rfl) hne
    rw [hnone]
    rfl

theorem openInitialNamed_segment (h : Holds root dirs) (i : Nat) :
    (openInitialNamed root i).2 = (openShard (dirs i)).current := by
  rw [openInitialNamed, openNamed_segment h, highestSeqno_eq h]
  rfl

theorem openInitialNamed_root (h : Holds root dirs) (i : Nat) :
    ((openInitialNamed root i).1 = root ∧ (dirs i).segments ≠ []) ∨
      ((openInitialNamed root i).1 = root.insert (segmentName i 0) ([], 0) ∧ (dirs i).segments = []) := by
  unfold openInitialNamed
  rw [highestSeqno_eq h]
  cases hhigh : highest ((dirs i).segments.map (·.seqno)) with
  | none =>
    have hnil : (dirs i).segments = [] := List.map_eq_nil_iff.mp (highest_eq_none.mp hhigh)
    refine Or.inr ⟨?_, hnil⟩
    have hnone : root.lookup (segmentName i 0) = none := by
      rw [AList.lookup_eq_none, AList.mem_keys, mem_keys_iff h, hnil]
      exact List.not_mem_nil
    simp only [Option.getD_none, openNamed, hnone]
  | some n =>
    have hmem := highest_mem hhigh
    refine Or.inl ⟨?_, List.ne_nil_of_mem ((List.mem_map.mp hmem).choose_spec.1)⟩
    have hkey := (mem_keys_iff h i n).mpr hmem
    rw [← AList.mem_keys, ← AList.lookup_isSome, Option.isSome_iff_exists] at hkey
    obtain ⟨file, hfile⟩ := hkey
    simp only [Option.getD_some, openNamed, hfile]

theorem Holds.insert (h : Holds root dirs) {i n : Nat} {bytes : List Byte} {synced : Nat}
    (hnil : (dirs i).segments = []) (hn : n < 2 ^ 64) {dir : ShardDir} (hdir : dir.segments = [⟨n, bytes, synced⟩]) :
    Holds (root.insert (segmentName i n) (bytes, synced)) (Function.update dirs i dir) where
  files j m bytes' synced' := by
    by_cases hname : segmentName j m = segmentName i n
    · obtain ⟨rfl, rfl⟩ := segmentName_inj.mp hname
      rw [AList.lookup_insert, Function.update_self, hdir, List.mem_singleton]
      simp [eq_comm]
    · rw [AList.lookup_insert_ne hname, h.files]
      by_cases hj : j = i
      · subst hj
        have hm : m ≠ n := fun hm => hname (by rw [hm])
        rw [Function.update_self, hdir, hnil, List.mem_singleton]
        simp [hm]
      · rw [Function.update_of_ne hj]
  own j m name hname hseqno := by
    rw [← AList.mem_keys, AList.mem_insert] at hname
    rcases hname with rfl | hname
    · rw [seqnoOf_segmentName hn] at hseqno
      split at hseqno
      · rename_i hij
        rw [Option.some.injEq] at hseqno
        rw [hij, hseqno]
      · cases hseqno
    · exact h.own j m name hname hseqno
  small j f hf := by
    by_cases hj : j = i
    · subst hj
      rw [Function.update_self, hdir, List.mem_singleton] at hf
      rw [hf]
      exact hn
    · rw [Function.update_of_ne hj] at hf
      exact h.small j f hf

theorem Holds.same (h : Holds root dirs) {i : Nat} {dir : ShardDir} (hdir : dir.segments = (dirs i).segments) :
    Holds root (Function.update dirs i dir) := by
  have hsegments : ∀ j, (Function.update dirs i dir j).segments = (dirs j).segments := by
    intro j
    by_cases hj : j = i
    · rw [hj, Function.update_self, hdir]
    · rw [Function.update_of_ne hj]
  refine ⟨fun j n bytes synced => ?_, h.own, fun j f hf => ?_⟩
  · rw [hsegments]
    exact h.files j n bytes synced
  · rw [hsegments] at hf
    exact h.small j f hf

theorem Holds.openInitialNamed (h : Holds root dirs) (i : Nat) :
    Holds (openInitialNamed root i).1 (Function.update dirs i (openShard (dirs i)).files) := by
  have hfiles : (openShard (dirs i)).files.segments = (dirs i).files := openShard_segments (dirs i)
  rcases openInitialNamed_root h i with ⟨hroot, hne⟩ | ⟨hroot, hnil⟩
  · rw [hroot]
    exact h.same (hfiles.trans (if_neg hne))
  · rw [hroot]
    exact h.insert hnil (by decide) (hfiles.trans (if_pos hnil))

/-! ## The loop of `open` -/

/-- **Each shard finds its own files.** Where one directory has the files of all shards under their names, in any order
and with other files between them, `open` gives each shard the file that it would find if it were alone, and leaves
the directory with the files of all shards. -/
theorem open_by_name (h : Holds root dirs) (shards : Nat) :
    (openShards root shards).2 = (List.range shards).map (fun i => (openShard (dirs i)).current) ∧
      Holds (openShards root shards).1 fun i => if i < shards then (openShard (dirs i)).files else dirs i := by
  induction shards with
  | zero => exact ⟨rfl, h⟩
  | succ n ih =>
    obtain ⟨hopened, hroot⟩ := ih
    have hsegment := openInitialNamed_segment hroot n
    have hafter := hroot.openInitialNamed n
    simp only [Nat.lt_irrefl, if_false] at hsegment hafter
    have hloop : openShards root (n + 1) =
        ((openInitialNamed (openShards root n).1 n).1,
          (openShards root n).2 ++ [(openInitialNamed (openShards root n).1 n).2]) := by
      simp only [openShards, List.range_succ, List.foldl_append, List.foldl_cons, List.foldl_nil]
    rw [hloop]
    refine ⟨?_, ?_⟩
    · rw [hopened, hsegment, List.range_succ, List.map_append]
      rfl
    · convert hafter using 1
      funext i
      by_cases hi : i = n
      · subst hi
        rw [Function.update_self, if_pos (Nat.lt_succ_self i)]
      · rw [Function.update_of_ne hi]
        simp only [show i < n + 1 ↔ i < n by omega]

theorem holds_empty : Holds ∅ fun _ => noFiles := by
  refine ⟨fun i n bytes synced => ?_, fun i n name hname => ?_, fun i f hf => ?_⟩
  · simp [noFiles]
  · cases hname
  · cases hf

/-- Shard 1 was there before, and has got to its segment 12. -/
def secondShard : ShardDir := ⟨[⟨12, [7], 1⟩], by decide⟩

theorem secondShard_holds : Holds (AList.insert (segmentName 1 12) ([7], 1) ∅)
    (Function.update (fun _ => noFiles) 1 secondShard) :=
  holds_empty.insert rfl (by decide) rfl

theorem two_shards_by_name :
    (openShards (AList.insert (segmentName 1 12) ([7], 1) ∅) 2).2 = [⟨0, [], 0⟩, ⟨12, [7], 1⟩] :=
  (open_by_name secondShard_holds 2).1

end Riftgate.FileWal
