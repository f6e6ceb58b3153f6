import Riftgate.Lib.Sorted
import Riftgate.Conservation
import Riftgate.Dump
import Riftgate.SegmentNames
import Riftgate.Code.ReplayRuns

/-!
# From `append` to the dump

What was appended to a new WAL is what the replay tool shows of its directory: each entry once, in the order of the ids,
whichever shard and segment it went to, and in whatever order the files are listed.
-/

open Lib

namespace Riftgate.Replay

open Riftgate.Frame Riftgate.FileWal

/-! ## One file -/

/-- What the tool shows of an entry, without the place where it was found. -/
structure Shown where
  entryId : UInt64
  timestampNanos : UInt64
  durability : String
  entryKind : Byte
  payloadLen : UInt32
  payloadBase64 : String
  deriving DecidableEq, Repr

def DecodedEntry.shown (d : DecodedEntry) : Shown :=
  ⟨d.entryId, d.timestampNanos, d.durability, d.entryKind, d.payloadLen, d.payloadBase64⟩

variable (base64 : List Byte → String)

def shownEntry (e : Entry) : Shown :=
  ⟨e.entryId, e.timestampNanos, decodeDurability (durabilityTag e.durability), entryKindDefault,
    UInt32.ofNat e.payload.length, base64 e.payload⟩

theorem decodeLoop_entry (path : String) (offset : UInt64) {e : Entry} (h : e.payload.length < 2 ^ 32)
    (rest : List Byte) : ∃ d offset', d.shown = shownEntry base64 e ∧
      decodeLoop base64 path offset (encodeEntry e ++ rest) =
        (d :: (decodeLoop base64 path offset' rest).1, (decodeLoop base64 path offset' rest).2) := by
  have hlong := encodeParsed_append_long e.parsed rest
  have htake := encodeParsed_append_take e.parsed rest
  have hdrop := encodeParsed_append_drop e.parsed rest
  have hlen : (UInt32.ofNat e.parsed.payload.length).toNat = e.payload.length := UInt32.toNat_ofNat_of_lt' h
  have hloop := decodeLoop_long base64 path offset hlong
  rw [htake, header_len_field] at hloop
  simp only [hlen] at hloop
  rw [if_pos (by rw [List.length_append, encodeParsed_length]; simp only [Entry.parsed]; omega), hdrop,
    ← List.drop_drop, hdrop] at hloop
  have hpayload : e.parsed.payload = e.payload := rfl
  rw [hpayload, List.take_left' rfl, List.drop_left' rfl] at hloop
  refine ⟨_, _, ?_, hloop⟩
  simp only [DecodedEntry.shown, decodedEntry, header_id_field, header_nanos_field, header_tag_field,
    header_kind_field, header_len_field]
  rfl

theorem decodeLoop_segment (path : String) (offset : UInt64) {es : List Entry}
    (h : ∀ e ∈ es, e.payload.length < 2 ^ 32) :
    ∃ pushed, decodeLoop base64 path offset (segmentBytes es) = (pushed, .ok ()) ∧
      pushed.map DecodedEntry.shown = es.map (shownEntry base64) := by
  induction es generalizing offset with
  | nil => exact ⟨[], decodeLoop_nil base64 path offset, rfl⟩
  | cons e es ih =>
    obtain ⟨d, offset', hd, hloop⟩ :=
      decodeLoop_entry base64 path offset (h e List.mem_cons_self) (segmentBytes es)
    obtain ⟨pushed, hrest, hshown⟩ := ih offset' fun e he => h e (List.mem_cons_of_mem _ he)
    refine ⟨d :: pushed, ?_, ?_⟩
    · rw [segmentBytes, List.flatMap_cons]
      rw [hrest] at hloop
      exact hloop
    · rw [List.map_cons, List.map_cons, hd, hshown]

/-! ## All files -/

/-- Files of whole entries, and which entries they are. -/
def Stores (disk : Disk) (p : Path) (es : List Entry) : Prop :=
  disk.openFile p = .ok (segmentBytes es) ∧ ∀ e ∈ es, e.payload.length < 2 ^ 32

theorem decodePaths_stores {disk : Disk} {files : List (Path × List Entry)} (h : ∀ f ∈ files, Stores disk f.1 f.2)
    (out : List DecodedEntry) : ∃ pushed, decodePaths disk base64 (files.map Prod.fst) out = .ok (out ++ pushed) ∧
      pushed.map DecodedEntry.shown = (files.flatMap Prod.snd).map (shownEntry base64) := by
  induction files generalizing out with
  | nil => exact ⟨[], by rw [List.append_nil]; rfl, rfl⟩
  | cons f files ih =>
    obtain ⟨hopen, hlen⟩ := h f List.mem_cons_self
    obtain ⟨pushed, hloop, hshown⟩ := decodeLoop_segment base64 (display f.1) 0 hlen
    obtain ⟨later, hrest, hlater⟩ := ih (fun g hg => h g (List.mem_cons_of_mem _ hg)) (out ++ pushed)
    refine ⟨pushed ++ later, ?_, ?_⟩
    · rw [List.map_cons, decodePaths, hopen]
      simp only [decodeOneSegment, hloop]
      rw [hrest, List.append_assoc]
    · rw [List.map_append, hshown, hlater, List.flatMap_cons, List.map_append]

/-! ## The order of the ids -/

def byId (es : List Entry) : List Entry := es.mergeSort fun a b => decide (a.entryId ≤ b.entryId)

theorem map_byId (es : List Entry) : (byId es).map (shownEntry base64) =
    (es.map (shownEntry base64)).mergeSort fun a b => decide (a.entryId.toNat ≤ b.entryId.toNat) :=
  List.map_mergeSort fun _ _ _ _ => decide_eq_decide.mpr UInt64.le_iff_toNat_le

theorem sorted_shown {entries : List DecodedEntry} {es : List Entry}
    (hperm : (entries.map DecodedEntry.shown).Perm (es.map (shownEntry base64))) (hids : (es.map (·.entryId)).Nodup) :
    (entries.mergeSort fun a b => decide (a.entryId ≤ b.entryId)).map DecodedEntry.shown =
      (byId es).map (shownEntry base64) := by
  have hmap : (entries.mergeSort fun a b => decide (a.entryId ≤ b.entryId)).map DecodedEntry.shown =
      (entries.map DecodedEntry.shown).mergeSort fun a b => decide (a.entryId.toNat ≤ b.entryId.toNat) :=
    List.map_mergeSort fun _ _ _ _ => decide_eq_decide.mpr UInt64.le_iff_toNat_le
  have hkeys : ((entries.map DecodedEntry.shown).map fun d => d.entryId.toNat).Nodup := by
    have hes : ((es.map (shownEntry base64)).map fun d => d.entryId.toNat).Nodup := by
      rw [List.map_map]
      have hinj : Function.Injective UInt64.toNat := fun a b hab => UInt64.toNat_inj.mp hab
      have hnodup := hids.map hinj
      rwa [List.map_map] at hnodup
    exact (hperm.map _).nodup_iff.mpr hes
  rw [hmap, map_byId]
  exact mergeSort_eq_of_perm hperm hkeys

/-! ## The ids of a run -/

/-- The counter has not wrapped around. -/
def Unwrapped (w : Wal) : Label → Prop
  | .fetchAdd _ _ _ => w.nextEntryId ≠ 0
  | _ => True

theorem numbered_reach {cfg : FileWalConfig} {dirs : Nat → ShardDir} {w : Wal}
    (hs : (fileWal cfg dirs).Reach Unwrapped w) : Numbered cfg w := by
  refine hs.invariant (numbered_open cfg dirs) fun w a w' _ h hc hstep => ?_
  rcases step_ids hstep with hq | ⟨c, payload, durability, rfl, rfl⟩ | ⟨c, n, k, e, rfl, hcall, rfl⟩
  · exact h.quiet hq
  · exact h.fetchAdd hc c payload durability
  · exact h.write hcall n k

/-- No error of the disk, and no id twice. -/
def Undisturbed (w : Wal) (a : Label) : Prop := NoIoError w a ∧ Unwrapped w a

variable {cfg : FileWalConfig} {w : Wal}

/-- Everything that the calls of `append` have written. -/
def appended (cfg : FileWalConfig) (w : Wal) : List Entry :=
  (List.range cfg.shards).flatMap fun i => (w.shards i).frames.map (·.entry)

theorem appended_nodup (h : Numbered cfg w) : ((appended cfg w).map (·.entryId)).Nodup := by
  have hids : ∀ i, (((w.shards i).frames.map (·.entry)).map (·.entryId)).Nodup := by
    intro i
    rw [List.map_map]
    exact h.nodup i
  rw [appended, List.map_flatMap, List.nodup_flatMap]
  refine ⟨fun i _ => hids i, List.nodup_range.imp fun {i j} hij => ?_⟩
  intro id hi hj
  simp only [List.mem_map] at hi hj
  obtain ⟨-, ⟨p, hp, rfl⟩, rfl⟩ := hi
  obtain ⟨-, ⟨q, hq, rfl⟩, hid⟩ := hj
  -- One id has one shard.
  have hplace := h.place j q hq
  rw [hid, h.place i p hp] at hplace
  exact hij hplace

theorem conserving_new (hs : (fileWal cfg fun _ => noFiles).Reach Undisturbed w) : Conserving cfg (fun _ => []) w :=
  conserving_reach (fun _ => rfl) (hs.mono fun _ _ h => h.1)

theorem acked_appended (hs : (fileWal cfg fun _ => noFiles).Reach Undisturbed w) {c : Nat} {p : Placed}
    (hc : w.calls c = .acked p) : p.entry ∈ appended cfg w := by
  have hmem := (conserving_new hs).recorded.own c p (by rw [hc]; rfl)
  refine List.mem_flatMap.mpr ⟨shardFor cfg p.entry.entryId, ?_, List.mem_map_of_mem hmem⟩
  exact List.mem_range.mpr (Nat.mod_lt _ cfg.shards_pos)

/-! ## The files of a run -/

theorem extension_append {before : List Char} (h : before ≠ []) :
    extension (before ++ ".wal".toList) = some "wal".toList := by
  have hreverse : (before ++ ".wal".toList).reverse = 'l' :: 'a' :: 'w' :: '.' :: before.reverse := by
    rw [List.reverse_append]
    rfl
  have hdrop : (before ++ ".wal".toList).reverse.dropWhile (· ≠ '.') = '.' :: before.reverse := by
    rw [hreverse]
    rfl
  have htake : (before ++ ".wal".toList).reverse.takeWhile (· ≠ '.') = ['l', 'a', 'w'] := by
    rw [hreverse]
    rfl
  unfold extension
  rw [hdrop, htake]
  simp only [List.reverse_eq_nil_iff, if_neg h]
  rfl

theorem isWalFile_segmentName (root : Path) (i n : Nat) : isWalFile (root ++ [segmentName i n]) = true := by
  have hname : segmentName i n = segmentStart i ++ padded 20 n ++ ".wal".toList := by
    rw [segmentName, List.append_assoc]
  have hne : segmentStart i ++ padded 20 n ≠ [] := by
    rw [segmentStart]
    exact List.cons_ne_nil _ _
  rw [isWalFile, List.getLast?_concat, Option.bind_some, hname, extension_append hne]
  exact decide_eq_true rfl

/-- What is on the disk after `drop`. -/
def closedDirs (cfg : FileWalConfig) (w : Wal) (i : Nat) : ShardDir :=
  if i < cfg.shards then (w.shards i).state.dir else noFiles

/-- The disk shows the directory `root` with these files in it. -/
structure Shows (disk : Disk) (root : Path) (rd : RootDir) : Prop where
  isDir : disk.isDir root = true
  readDir : disk.readDir root = .ok (rd.keys.map fun name => .ok (root ++ [name]))
  openFile : ∀ name bytes synced, rd.lookup name = some (bytes, synced) → disk.openFile (root ++ [name]) = .ok bytes

/-- The segments of a shard, each with the entries in it. -/
structure Holding (dir : ShardDir) (files : List (Nat × List Entry)) : Prop where
  seqnos : files.map Prod.fst = dir.segments.map (·.seqno)
  bytes : files.map (fun f => segmentBytes f.2) = dir.segments.map (·.bytes)

theorem Holding.mem {dir : ShardDir} {files : List (Nat × List Entry)} (h : Holding dir files) {f : Nat × List Entry}
    (hf : f ∈ files) : ∃ synced, ⟨f.1, segmentBytes f.2, synced⟩ ∈ dir.segments := by
  obtain ⟨k, hk, rfl⟩ := List.mem_iff_getElem.mp hf
  have hlen : k < dir.segments.length := by
    have hlength := congrArg List.length h.seqnos
    rw [List.length_map, List.length_map] at hlength
    omega
  have hseqno := congrArg (fun l => l[k]?) h.seqnos
  have hbytes := congrArg (fun l => l[k]?) h.bytes
  simp only [List.getElem?_map, List.getElem?_eq_getElem hk, List.getElem?_eq_getElem hlen, Option.map_some,
    Option.some.injEq] at hseqno hbytes
  refine ⟨dir.segments[k].synced, ?_⟩
  rw [hseqno, hbytes]
  exact List.getElem_mem hlen

theorem Holding.exists_mem {st : ShardState} {files : List (Nat × List Entry)} (h : Holding st.dir files) :
    ∃ f, f ∈ files := by
  have hmem : st.flush.current.seqno ∈ st.dir.segments.map (·.seqno) := by
    simp [ShardState.dir, ShardState.segments]
  rw [← h.seqnos, List.mem_map] at hmem
  obtain ⟨f, hf, -⟩ := hmem
  exact ⟨f, hf⟩

theorem Holding.nodup {dir : ShardDir} {files : List (Nat × List Entry)} (h : Holding dir files) :
    (files.map Prod.fst).Nodup := by
  rw [h.seqnos]
  exact dir.sorted.imp Nat.ne_of_lt

theorem holding_closed {i max : Nat} (h : (w.shards i).Filled max []) :
    ∃ files, Holding (w.shards i).state.dir files ∧ files.flatMap Prod.snd = (w.shards i).frames.map (·.entry) := by
  obtain ⟨segs, hbytes, hjoin⟩ := h.files
  have hcontents : (w.shards i).state.contents = (w.shards i).state.dir.segments.map (·.bytes) := by
    rw [contents_layout, ← dir_layout, List.map_map]
    rfl
  have hlength : (w.shards i).state.dir.segments.length = segs.length := by
    have hlen := congrArg List.length (hcontents.symm.trans hbytes)
    rwa [List.length_map, List.length_map] at hlen
  refine ⟨((w.shards i).state.dir.segments.map (·.seqno)).zip segs, ⟨?_, ?_⟩, ?_⟩
  · rw [List.map_fst_zip]
    rw [List.length_map, hlength]
  · have hsnd : ∀ f : Nat × List Entry, segmentBytes f.2 = (segmentBytes ∘ Prod.snd) f := fun _ => rfl
    simp only [hsnd]
    rw [← List.map_map, List.map_snd_zip (by rw [List.length_map, hlength]), ← hbytes, hcontents]
  · rw [List.flatMap_def, List.map_snd_zip (by rw [List.length_map, hlength]), hjoin]
    rfl

/-! ## What the tool reads -/

/-- The files of all shards, where `files i` are those of shard `i`. -/
def allFiles (root : Path) (shards : Nat) (files : Nat → List (Nat × List Entry)) : List (Path × List Entry) :=
  (List.range shards).flatMap fun i => (files i).map fun f => (root ++ [segmentName i f.1], f.2)

theorem mem_allFiles {root : Path} {shards : Nat} {files : Nat → List (Nat × List Entry)} {f : Path × List Entry} :
    f ∈ allFiles root shards files ↔
      ∃ i < shards, ∃ g ∈ files i, (root ++ [segmentName i g.1], g.2) = f := by
  simp only [allFiles, List.mem_flatMap, List.mem_range, List.mem_map]

theorem allFiles_nodup {root : Path} {shards : Nat} {files : Nat → List (Nat × List Entry)}
    (h : ∀ i, ((files i).map Prod.fst).Nodup) : ((allFiles root shards files).map Prod.fst).Nodup := by
  have hname : ∀ {i j n m}, root ++ [segmentName i n] = root ++ [segmentName j m] → i = j ∧ n = m := by
    intro i j n m heq
    rw [List.append_cancel_left_eq, List.cons.injEq] at heq
    exact segmentName_inj.mp heq.1
  rw [allFiles, List.map_flatMap, List.nodup_flatMap]
  refine ⟨fun i _ => ?_, List.nodup_range.imp fun {i j} hij => ?_⟩
  · rw [List.map_map]
    have hinj : Function.Injective fun n => root ++ [segmentName i n] := fun n m heq => (hname heq).2
    have hnodup := (h i).map hinj
    rwa [List.map_map] at hnodup
  · intro p hi hj
    simp only [List.mem_map] at hi hj
    obtain ⟨-, ⟨f, -, rfl⟩, rfl⟩ := hi
    obtain ⟨-, ⟨g, -, rfl⟩, heq⟩ := hj
    exact hij (hname heq).1.symm

section Directory

variable {rd : RootDir} {disk : Disk} {root : Path} {files : Nat → List (Nat × List Entry)}

theorem allFiles_stores (hd : Holds rd (closedDirs cfg w)) (hdisk : Shows disk root rd)
    (hfiles : ∀ i, Holding (w.shards i).state.dir (files i))
    (hlen : ∀ i, ∀ f ∈ files i, ∀ e ∈ f.2, e.payload.length < 2 ^ 32) :
    ∀ f ∈ allFiles root cfg.shards files, Stores disk f.1 f.2 := by
  intro f hf
  obtain ⟨i, hi, g, hg, rfl⟩ := mem_allFiles.mp hf
  obtain ⟨synced, hmem⟩ := (hfiles i).mem hg
  have hclosed : closedDirs cfg w i = (w.shards i).state.dir := if_pos hi
  rw [← hclosed] at hmem
  exact ⟨hdisk.openFile _ _ _ ((hd.files i _ _ _).mpr hmem), hlen i g hg⟩

theorem walFiles_perm (root : Path) (hd : Holds rd (closedDirs cfg w))
    (hwal : ∀ name ∈ rd.keys, isWalFile [name] = true → ∃ i n, name = segmentName i n)
    (hfiles : ∀ i, Holding (w.shards i).state.dir (files i)) :
    ((rd.keys.map fun name => root ++ [name]).filter isWalFile).Perm
      ((allFiles root cfg.shards files).map Prod.fst) := by
  have hkeys : (rd.keys.map fun name => root ++ [name]).Nodup :=
    rd.keys_nodup.map fun a b hab => by simpa using hab
  refine (List.perm_ext_iff_of_nodup (hkeys.filter _) (allFiles_nodup fun i => (hfiles i).nodup)).mpr fun p => ?_
  rw [List.mem_filter, List.mem_map, List.mem_map]
  constructor
  · rintro ⟨⟨name, hname, rfl⟩, hext⟩
    have hext : isWalFile [name] = true := by rwa [isWalFile, List.getLast?_concat] at hext
    obtain ⟨i, n, rfl⟩ := hwal name hname hext
    have hmem := (mem_keys_iff hd i n).mp hname
    by_cases hi : i < cfg.shards
    · rw [closedDirs, if_pos hi, ← (hfiles i).seqnos] at hmem
      obtain ⟨f, hf, rfl⟩ := List.mem_map.mp hmem
      exact ⟨_, mem_allFiles.mpr ⟨i, hi, f, hf, rfl⟩, rfl⟩
    · rw [closedDirs, if_neg hi] at hmem
      cases hmem
  · rintro ⟨f, hf, rfl⟩
    obtain ⟨i, hi, g, hg, rfl⟩ := mem_allFiles.mp hf
    refine ⟨⟨_, (mem_keys_iff hd i g.1).mpr ?_, rfl⟩, isWalFile_segmentName root i g.1⟩
    rw [closedDirs, if_pos hi, ← (hfiles i).seqnos]
    exact List.mem_map_of_mem hg

theorem allFiles_exists_mem (root : Path) (hfiles : ∀ i, Holding (w.shards i).state.dir (files i)) :
    ∃ f, f ∈ allFiles root cfg.shards files := by
  obtain ⟨f, hf⟩ := (hfiles 0).exists_mem
  exact ⟨_, mem_allFiles.mpr ⟨0, cfg.shards_pos, f, hf, rfl⟩⟩

theorem allFiles_entries (root : Path)
    (hframes : ∀ i, (files i).flatMap Prod.snd = (w.shards i).frames.map (·.entry)) :
    (allFiles root cfg.shards files).flatMap Prod.snd = appended cfg w := by
  rw [allFiles, List.flatMap_assoc, appended]
  refine List.flatMap_congr fun i _ => ?_
  rw [List.flatMap_map, ← hframes i]

end Directory

theorem collectSegmentPaths_one {disk : Disk} {root : Path} {rd : RootDir} (hdisk : Shows disk root rd) :
    collectSegmentPaths disk [root] =
      let out := ((rd.keys.map fun name => root ++ [name]).filter isWalFile).mergeSort fun p q => decide (p ≤ q)
      if out = [] then .error "no WAL segment files found" else .ok out := by
  have hread : (rd.keys.map fun name => (Except.ok (root ++ [name]) : Except String Path)).mapM id =
      .ok (rd.keys.map fun name => root ++ [name]) := by
    rw [List.mapM_map]
    exact List.mapM_pure
  have hone : collectOne disk root = .ok ((rd.keys.map fun name => root ++ [name]).filter isWalFile) := by
    rw [collectOne, if_pos hdisk.isDir, hdisk.readDir]
    simp only [hread]
    rfl
  have hall : [root].mapM (collectOne disk) = .ok [(rd.keys.map fun name => root ++ [name]).filter isWalFile] := by
    rw [List.mapM_cons, hone]
    rfl
  rw [collectSegmentPaths, hall]
  simp only [Except.bind, List.flatten_cons, List.flatten_nil, List.append_nil]

/-- The files in the order of their paths. -/
def sortedFiles (files : List (Path × List Entry)) : List (Path × List Entry) :=
  files.mergeSort fun f g => decide (f.1 ≤ g.1)

theorem map_sortedFiles (files : List (Path × List Entry)) :
    (sortedFiles files).map Prod.fst = (files.map Prod.fst).mergeSort fun p q => decide (p ≤ q) :=
  List.map_mergeSort fun _ _ _ _ => rfl

theorem decodeInputs_closed (hs : (fileWal cfg fun _ => noFiles).Reach Undisturbed w) {rd : RootDir}
    (hd : Holds rd (closedDirs cfg w))
    (hwal : ∀ name ∈ rd.keys, isWalFile [name] = true → ∃ i n, name = segmentName i n) {disk : Disk} {root : Path}
    (hdisk : Shows disk root rd) : ∃ entries, decodeInputs disk base64 [root] = .ok entries ∧
      entries.map DecodedEntry.shown = (byId (appended cfg w)).map (shownEntry base64) := by
  have hnumbered := numbered_reach (hs.mono fun _ _ h => h.2)
  have hfilled := (conserving_new hs).shards
  choose files hfiles hframes using fun i => holding_closed (hfilled i)
  have hlen : ∀ i, ∀ f ∈ files i, ∀ e ∈ f.2, e.payload.length < 2 ^ 32 := by
    intro i f hf e he
    have hmem : e ∈ (w.shards i).frames.map (·.entry) := hframes i ▸ List.mem_flatMap.mpr ⟨f, hf, he⟩
    obtain ⟨p, hp, rfl⟩ := List.mem_map.mp hmem
    exact (hfilled i).len p hp
  -- The tool reads the files in the order of their paths.
  have hperm := walFiles_perm root hd hwal hfiles
  have hpaths : ((rd.keys.map fun name => root ++ [name]).filter isWalFile).mergeSort (fun p q => decide (p ≤ q)) =
      (sortedFiles (allFiles root cfg.shards files)).map Prod.fst := by
    rw [map_sortedFiles]
    refine mergeSort_eq_of_perm hperm ?_
    rw [List.map_id', hperm.nodup_iff]
    exact allFiles_nodup fun i => (hfiles i).nodup
  have hsorted : (sortedFiles (allFiles root cfg.shards files)).Perm (allFiles root cfg.shards files) :=
    List.mergeSort_perm _ _
  have hne : (sortedFiles (allFiles root cfg.shards files)).map Prod.fst ≠ [] := by
    intro hnil
    have hall := List.map_eq_nil_iff.mp hnil ▸ hsorted
    obtain ⟨f, hf⟩ := allFiles_exists_mem root hfiles
    exact List.not_mem_nil (hall.mem_iff.mpr hf)
  have hstores : ∀ f ∈ sortedFiles (allFiles root cfg.shards files), Stores disk f.1 f.2 := fun f hf =>
    allFiles_stores hd hdisk hfiles hlen f (hsorted.mem_iff.mp hf)
  obtain ⟨pushed, hdecode, hshown⟩ := decodePaths_stores base64 hstores []
  have hentries : (pushed.map DecodedEntry.shown).Perm ((appended cfg w).map (shownEntry base64)) := by
    rw [hshown, ← allFiles_entries root hframes]
    exact (hsorted.flatMap_right _).map _
  refine ⟨_, ?_, sorted_shown base64 hentries (appended_nodup hnumbered)⟩
  rw [decodeInputs, collectSegmentPaths_one hdisk, hpaths]
  simp only [if_neg hne, Except.bind, hdecode, List.nil_append]
  rfl

/-! ## The commands -/

/-- What `dump` keeps of the entries is a matter of their ids and of their places. -/
theorem map_shown_kept {args : DumpArgs} {entries : List DecodedEntry} {es : List Entry}
    (h : entries.map DecodedEntry.shown = es.map (shownEntry base64)) :
    (truncate args.limit (entries.filter fun d => withinRange d.entryId args.fromId args.toId)).map DecodedEntry.shown =
      (truncate args.limit (es.filter fun e => withinRange e.entryId args.fromId args.toId)).map
        (shownEntry base64) := by
  have hfilter : (entries.filter fun d => withinRange d.entryId args.fromId args.toId).map DecodedEntry.shown =
      (es.filter fun e => withinRange e.entryId args.fromId args.toId).map (shownEntry base64) := by
    have hshown := congrArg (List.filter fun d => withinRange d.entryId args.fromId args.toId) h
    rw [List.filter_map, List.filter_map] at hshown
    exact hshown
  cases args.limit with
  | none => exact hfilter
  | some n => simp only [truncate, Option.elim_some, List.map_take, hfilter]

/-- **The dump shows what was appended.** Let a new WAL run with any calls of any threads, without an error of the disk
and without 2^64 appends, and be dropped. Then `dump` of its directory shows each entry that was written, whatever its
shard and its segment, in the order of the ids, cut to the range and the limit of the command. Each append that was
acknowledged is among them. -/
theorem dump_lists_appends (hs : (fileWal cfg fun _ => noFiles).Reach Undisturbed w) {rd : RootDir}
    (hd : Holds rd (closedDirs cfg w))
    (hwal : ∀ name ∈ rd.keys, isWalFile [name] = true → ∃ i n, name = segmentName i n) {disk : Disk} {root : Path}
    (hdisk : Shows disk root rd) {args : DumpArgs} (hargs : args.segments = [root]) :
    (∀ c p, w.calls c = .acked p → p.entry ∈ appended cfg w) ∧
      ∃ entries, runDump disk base64 args = .ok entries ∧
        entries.map DecodedEntry.shown = (truncate args.limit ((byId (appended cfg w)).filter fun e =>
          withinRange e.entryId args.fromId args.toId)).map (shownEntry base64) := by
  refine ⟨fun c p hc => acked_appended hs hc, ?_⟩
  obtain ⟨entries, hdecode, hshown⟩ := decodeInputs_closed base64 hs hd hwal hdisk
  refine ⟨_, ?_, map_shown_kept base64 hshown⟩
  rw [runDump, hargs, hdecode]
  rfl

/-- `replay` counts the same entries. -/
theorem replay_counts_appends (hs : (fileWal cfg fun _ => noFiles).Reach Undisturbed w) {rd : RootDir}
    (hd : Holds rd (closedDirs cfg w))
    (hwal : ∀ name ∈ rd.keys, isWalFile [name] = true → ∃ i n, name = segmentName i n) {disk : Disk} {root : Path}
    (hdisk : Shows disk root rd) : runReplay disk base64 [root] =
      .ok ⟨(appended cfg w).length, ((appended cfg w).map fun e => e.payload.length).sum⟩ := by
  obtain ⟨entries, hdecode, hshown⟩ := decodeInputs_closed base64 hs hd hwal hdisk
  have hperm : (byId (appended cfg w)).Perm (appended cfg w) := List.mergeSort_perm _ _
  have hlength := congrArg List.length hshown
  rw [List.length_map, List.length_map, hperm.length_eq] at hlength
  have hbytes := congrArg (fun l => (l.map fun d : Shown => d.payloadLen.toNat).sum) hshown
  simp only [List.map_map] at hbytes
  have hlen : (byId (appended cfg w)).map ((fun d : Shown => d.payloadLen.toNat) ∘ shownEntry base64) =
      (byId (appended cfg w)).map fun e => e.payload.length := by
    refine List.map_congr_left fun e he => UInt32.toNat_ofNat_of_lt' ?_
    obtain ⟨i, -, hmem⟩ := List.mem_flatMap.mp (hperm.mem_iff.mp he)
    obtain ⟨p, hp, rfl⟩ := List.mem_map.mp hmem
    exact ((conserving_new hs).shards i).len p hp
  rw [hlen, (hperm.map _).sum_nat] at hbytes
  rw [runReplay, hdecode]
  exact congrArg Except.ok (congrArg₂ ReplaySummary.mk hlength hbytes)

/-! ## Two shards -/

def unwrapped (w : Wal) : Label → Bool
  | .fetchAdd _ _ _ => decide (w.nextEntryId ≠ 0)
  | _ => true

theorem undisturbed_of_check (w : Wal) (a : Label) (h : (noIoError w a && unwrapped w a) = true) : Undisturbed w a := by
  rw [Bool.and_eq_true] at h
  refine ⟨noIoError_of_check w a h.1, ?_⟩
  cases a with
  | fetchAdd c payload durability =>
    have hnext : w.nextEntryId ≠ 0 := of_decide_eq_true h.2
    exact hnext
  | _ => trivial

/-- A disk with one directory. -/
def oneDirectory (root : Path) (rd : RootDir) : Disk where
  isDir p := decide (p = root)
  readDir _ := .ok (rd.keys.map fun name => .ok (root ++ [name]))
  openFile p := (p.getLast?.bind fun name => rd.lookup name).elim (.error "No such file or directory") fun f => .ok f.1

theorem shows_oneDirectory (root : Path) (rd : RootDir) : Shows (oneDirectory root rd) root rd where
  isDir := decide_eq_true rfl
  readDir := rfl
  openFile name bytes synced h := by
    simp only [oneDirectory, List.getLast?_concat, Option.bind_some, h, Option.elim_some]

/-- The first entry is in the second shard, and the other way round. -/
theorem dump_two_shards :
    let cfg : FileWalConfig := ⟨2, 30, by decide⟩
    let first : Entry := ⟨1, 7, .async, [6]⟩
    let second : Entry := ⟨2, 8, .fsync, []⟩
    let encode : List Byte → String := fun payload => if payload = [6] then "Bg==" else ""
    let rd : RootDir := AList.insert (segmentName 1 0) (encodeEntry first, 0)
      (AList.insert (segmentName 0 0) (encodeEntry second, 0) ∅)
    ∃ w, (fileWal cfg fun _ => noFiles).Reach Undisturbed w ∧ ∃ entries,
      runDump (oneDirectory ["wal".toList] rd) encode ⟨[["wal".toList]], some 1, none, some 5⟩ = .ok entries ∧
        entries.map DecodedEntry.shown = [⟨1, 7, "async", 0, 1, "Bg=="⟩, ⟨2, 8, "fsync", 0, 0, ""⟩] := by
  intro cfg first second encode rd
  have hrun : (((fileWal cfg fun _ => noFiles).restrict fun s a => noIoError s a && unwrapped s a).run
      [.fetchAdd 0 [6] .async, .fetchAdd 1 [] .fsync, .append 1 (.stamp 8), .append 0 (.stamp 7), .append 1 .lock,
      .append 0 .lock, .append 0 (.roll .ok), .append 0 (.write (.ok 3 4)), .append 1 (.roll .ok), .append 0 .wait,
      .append 1 (.write (.ok 0 0))]).map (fun s => decide (appended cfg s = [second, first]) &&
        decide ((s.shards 0).state.dir.segments = [⟨0, encodeEntry second, 0⟩]) &&
        decide ((s.shards 1).state.dir.segments = [⟨0, encodeEntry first, 0⟩])) = some true := by decide
  obtain ⟨w, hs, hp⟩ := Machine.exists_of_restrict (fun s a _ => undisturbed_of_check s a) hrun
  rw [Bool.and_eq_true, Bool.and_eq_true, decide_eq_true_eq, decide_eq_true_eq, decide_eq_true_eq] at hp
  obtain ⟨⟨happended, hzero⟩, hone⟩ := hp
  have hd : Holds rd (closedDirs cfg w) := by
    have hboth := (holds_empty.insert (i := 0) rfl (by decide) hzero).insert (i := 1) rfl (by decide) hone
    convert hboth using 1
    funext i
    match i with
    | 0 => rfl
    | 1 => rfl
    | i + 2 => rfl
  have hwal : ∀ name ∈ rd.keys, isWalFile [name] = true → ∃ i n, name = segmentName i n := by
    intro name hname _
    rw [← AList.mem_keys, AList.mem_insert, AList.mem_insert] at hname
    rcases hname with rfl | rfl | hname
    · exact ⟨1, 0, rfl⟩
    · exact ⟨0, 0, rfl⟩
    · cases hname
  obtain ⟨-, entries, hdump, hshown⟩ :=
    dump_lists_appends encode hs hd hwal (shows_oneDirectory ["wal".toList] rd)
      (show DumpArgs.segments ⟨[["wal".toList]], some 1, none, some 5⟩ = [["wal".toList]] from rfl)
  refine ⟨w, hs, entries, hdump, hshown.trans ?_⟩
  have hsorted : byId [second, first] = [first, second] := by
    simp [byId, List.mergeSort, first, second]
  rw [happended, hsorted]
  rfl

end Riftgate.Replay
