import Riftgate.Lifetimes

/-!
# No frame is lost, and none is doubled

Any number of appends in any order, with no error of the disk. Once the writers are flushed, the
files have the old frames and one frame for each append, each whole and in one file.
-/

open Lib

namespace Riftgate.FileWal

open Riftgate.Frame

def NoIoError (_ : Wal) : Label → Prop
  | .append _ (.roll io) => io = .ok
  | .append _ (.write io) => ∃ n k, io = .ok n k
  | .flusher _ (.doFlush io) => io = .ok
  | _ => True

/-! ## The files of a shard, once its writer is flushed -/

def ShardState.layout (st : ShardState) : List (Nat × List Byte) :=
  st.closed.map (fun f => (f.seqno, f.bytes)) ++ [(st.current.seqno, st.stream)]

theorem dir_layout (st : ShardState) : st.dir.segments.map (fun f => (f.seqno, f.bytes)) = st.layout := by
  simp [ShardState.dir, ShardState.segments, ShardState.layout, ShardState.flush, ShardState.drain, ShardState.stream]

theorem contents_layout (st : ShardState) : st.contents = st.layout.map (·.2) := by
  simp [ShardState.contents, ShardState.layout, Function.comp_def]

theorem inDir_iff_layout {st : ShardState} {p : Placed} :
    InDir st.dir p ↔ ∃ f ∈ st.layout, f.1 = p.seqno ∧ FrameAt f.2 p := by
  rw [← dir_layout]
  simp [InDir]

theorem decodeSegments_layout (st : ShardState) :
    decodeSegments st.dir.segments = st.contents.flatMap tryParseFrames := by
  rw [decodeSegments_bytes, contents_layout, ← dir_layout, List.map_map]
  rfl

theorem layout_seqno_lt {st : ShardState} {f : Segment} (hf : f ∈ st.closed) : f.seqno < st.current.seqno := by
  have h := (List.pairwise_append.mp st.sorted).2.2
  exact h f.seqno (List.mem_map_of_mem hf) st.current.seqno (by simp)

theorem layout_doFlush (st : ShardState) : st.doFlush.layout = st.layout := by
  simp [ShardState.layout, ShardState.doFlush, ShardState.flush, ShardState.drain, ShardState.stream]

theorem layout_nextSegment (st : ShardState) :
    st.flush.nextSegment.layout = st.layout ++ [(st.current.seqno + 1, [])] := by
  simp [ShardState.layout, ShardState.nextSegment, ShardState.flush, ShardState.drain, ShardState.stream]

theorem layout_writeFrame (st : ShardState) (e : Entry) (n k : Nat) :
    (st.writeFrame e n k).layout =
      st.closed.map (fun f => (f.seqno, f.bytes)) ++ [(st.current.seqno, st.stream ++ encodeEntry e)] := by
  rw [ShardState.layout, writeFrame_stream]
  rfl

/-! ## The invariant of a shard -/

/-- The frame is before the end of the last file. -/
def Placed.Before (p : Placed) (st : ShardState) : Prop :=
  p.seqno < st.current.seqno ∨ (p.seqno = st.current.seqno ∧ p.stop ≤ st.stream.length)

structure Shard.Filled (max : Nat) (old : List (List Entry)) (sh : Shard) : Prop where
  bytes : sh.state.segmentBytes = sh.state.stream.length
  files : ∃ segs : List (List Entry), sh.state.contents = segs.map segmentBytes ∧
    segs.flatten = old.flatten ++ sh.frames.map (·.entry)
  size : ∀ f ∈ sh.state.layout, (∃ p ∈ sh.frames, p.seqno = f.1) →
    f.2.length ≤ max ∨ ∃ p ∈ sh.frames, p.seqno = f.1 ∧ f.2 = encodeEntry p.entry
  inDir : ∀ p ∈ sh.frames, InDir sh.state.dir p
  before : ∀ p ∈ sh.frames, p.Before sh.state
  len : ∀ p ∈ sh.frames, p.entry.payload.length < 2 ^ 32
  nodup : sh.frames.Nodup

theorem filled_open {dir : ShardDir} {old : List (List Entry)} (max : Nat)
    (h : dir.segments.map (·.bytes) = old.map segmentBytes) : Shard.Filled max old ⟨openShard dir, none, .top, []⟩ := by
  refine ⟨openShard_segmentBytes dir, ?_, by simp, by simp, by simp, by simp, by simp⟩
  have hc : (openShard dir).contents = dir.files.map (·.bytes) := by
    rw [← openShard_segments]
    simp [ShardState.contents, ShardState.segments, ShardState.stream, openShard]
  rw [hc]
  unfold ShardDir.files
  split
  · rename_i hnil
    rw [hnil] at h
    have hold : old = [] := by simpa using h.symm
    exact ⟨[[]], rfl, by simp [hold]⟩
  · exact ⟨old, h, by simp⟩

theorem Shard.Filled.keep {max : Nat} {old : List (List Entry)} {sh sh' : Shard} (h : sh.Filled max old)
    (hl : sh'.state.layout = sh.state.layout) (hf : sh'.frames = sh.frames)
    (hb : sh'.state.segmentBytes = sh.state.segmentBytes) : sh'.Filled max old := by
  have hlast : (sh'.state.current.seqno, sh'.state.stream) = (sh.state.current.seqno, sh.state.stream) := by
    have := congrArg List.getLast? hl
    simpa [ShardState.layout] using this
  rw [Prod.mk.injEq] at hlast
  refine ⟨?_, ?_, ?_, ?_, ?_, ?_, ?_⟩
  · rw [hb, hlast.2]
    exact h.bytes
  · rw [contents_layout, hl, hf, ← contents_layout]
    exact h.files
  · rw [hl, hf]
    exact h.size
  · intro p hp
    rw [inDir_iff_layout, hl, ← inDir_iff_layout]
    exact h.inDir p (hf ▸ hp)
  · intro p hp
    rw [Placed.Before, hlast.1, hlast.2]
    exact h.before p (hf ▸ hp)
  · rw [hf]
    exact h.len
  · rw [hf]
    exact h.nodup

theorem Shard.Filled.roll {max : Nat} {old : List (List Entry)} {sh : Shard} (h : sh.Filled max old) :
    Shard.Filled max old { sh with state := sh.state.flush.nextSegment } := by
  refine ⟨rfl, ?_, ?_, fun p hp => inDir_nextSegment (h.inDir p hp), ?_, h.len, h.nodup⟩
  · obtain ⟨segs, hsegs, hjoin⟩ := h.files
    refine ⟨segs ++ [[]], ?_, by simpa using hjoin⟩
    rw [contents_layout, layout_nextSegment, List.map_append, ← contents_layout, hsegs]
    simp [segmentBytes]
  · intro f hf hp
    rw [layout_nextSegment, List.mem_append, List.mem_singleton] at hf
    rcases hf with hf | rfl
    · exact h.size f hf hp
    · exact Or.inl (Nat.zero_le _)
  · intro p hp
    refine Or.inl ?_
    have hb := h.before p hp
    show p.seqno < sh.state.current.seqno + 1
    unfold Placed.Before at hb
    omega

theorem Shard.Filled.fresh {max : Nat} {old : List (List Entry)} {sh : Shard} (h : sh.Filled max old) (e : Entry) :
    ⟨e, sh.state.current.seqno, sh.state.offset⟩ ∉ sh.frames := by
  intro hp
  have hoff : sh.state.offset = sh.state.stream.length := by simp [ShardState.offset, ShardState.stream]
  have hpos : 0 < (encodeEntry e).length := by simp [encodeEntry, header]
  rcases h.before _ hp with hlt | ⟨-, hle⟩
  · exact Nat.lt_irrefl _ hlt
  · simp only [Placed.stop, hoff] at hle
    omega

theorem encodeEntry_length (e : Entry) : (encodeEntry e).length = frameLen e.payload := by
  simp [encodeEntry, frameLen]

theorem Shard.Filled.files_write {max : Nat} {old : List (List Entry)} {sh : Shard} (h : sh.Filled max old) (e : Entry)
    (n k : Nat) : ∃ segs : List (List Entry), (sh.write e (.ok n k)).1.state.contents = segs.map segmentBytes ∧
      segs.flatten = old.flatten ++ (sh.write e (.ok n k)).1.frames.map (·.entry) := by
  obtain ⟨segs, hsegs, hjoin⟩ := h.files
  rcases List.eq_nil_or_concat segs with rfl | ⟨init, last, rfl⟩
  · simp [ShardState.contents] at hsegs
  · rw [List.concat_eq_append] at hsegs hjoin
    rw [ShardState.contents, List.map_append, List.map_singleton] at hsegs
    obtain ⟨hinit, hlast⟩ := List.append_inj' hsegs rfl
    rw [List.cons.injEq] at hlast
    refine ⟨init ++ [last ++ [e]], ?_, ?_⟩
    · rw [contents_layout, Shard.write, layout_writeFrame, List.map_append, List.map_append, ← hinit]
      simp [hlast.1, segmentBytes]
    · have hnew : (init ++ [last ++ [e]]).flatten = (init ++ [last]).flatten ++ [e] := by simp
      rw [hnew, hjoin, Shard.write, List.map_append, List.append_assoc]
      rfl

theorem Shard.Filled.size_write {max : Nat} {old : List (List Entry)} {sh : Shard} (h : sh.Filled max old) (e : Entry)
    (n k : Nat) (hroom : sh.state.segmentBytes + frameLen e.payload ≤ max ∨ sh.state.segmentBytes = 0) :
    ∀ f ∈ (sh.write e (.ok n k)).1.state.layout, (∃ p ∈ (sh.write e (.ok n k)).1.frames, p.seqno = f.1) →
      f.2.length ≤ max ∨ ∃ p ∈ (sh.write e (.ok n k)).1.frames, p.seqno = f.1 ∧ f.2 = encodeEntry p.entry := by
  intro f hf hp
  rw [Shard.write, layout_writeFrame, List.mem_append, List.mem_singleton] at hf
  rcases hf with hf | rfl
  · -- A closed file, so the frame in it is an old one.
    obtain ⟨g, hg, rfl⟩ := List.mem_map.mp hf
    obtain ⟨p, hp, hseq⟩ := hp
    rw [Shard.write, List.mem_append, List.mem_singleton] at hp
    rcases hp with hp | rfl
    · rcases h.size _ (List.mem_append_left _ hf) ⟨p, hp, hseq⟩ with hle | ⟨q, hq, hone⟩
      · exact Or.inl hle
      · exact Or.inr ⟨q, List.mem_append_left _ hq, hone⟩
    · have hlt := layout_seqno_lt hg
      simp only at hseq
      omega
  · rcases hroom with hle | hzero
    · refine Or.inl ?_
      simp only [List.length_append, encodeEntry_length]
      rw [← h.bytes]
      exact hle
    · have hempty : sh.state.stream = [] := by
        rw [← List.length_eq_zero_iff, ← h.bytes]
        exact hzero
      have hnew : ⟨e, sh.state.current.seqno, sh.state.offset⟩ ∈ (sh.write e (.ok n k)).1.frames := by
        simp [Shard.write]
      exact Or.inr ⟨_, hnew, rfl, by simp [hempty]⟩

theorem Shard.Filled.write {max : Nat} {old : List (List Entry)} {sh : Shard} (h : sh.Filled max old) (e : Entry)
    (n k : Nat) (hlen : e.payload.length < 2 ^ 32)
    (hroom : sh.state.segmentBytes + frameLen e.payload ≤ max ∨ sh.state.segmentBytes = 0) :
    (sh.write e (.ok n k)).1.Filled max old := by
  have hstream : (sh.write e (.ok n k)).1.state.stream = sh.state.stream ++ encodeEntry e := by
    rw [Shard.write, writeFrame_stream]
  have hmem : ∀ p ∈ (sh.write e (.ok n k)).1.frames,
      p ∈ sh.frames ∨ p = ⟨e, sh.state.current.seqno, sh.state.offset⟩ := by
    intro p hp
    rwa [Shard.write, List.mem_append, List.mem_singleton] at hp
  refine ⟨?_, h.files_write e n k, h.size_write e n k hroom, ?_, ?_, ?_, ?_⟩
  · rw [hstream, List.length_append, encodeEntry_length, ← h.bytes]
    rfl
  · intro p hp
    rcases hmem p hp with hp | rfl
    · exact (h.inDir p hp).appends (@Shard.Appends.written max sh e n k)
    · exact inDir_write sh e n k
  · intro p hp
    rw [Placed.Before, hstream, List.length_append]
    rcases hmem p hp with hp | rfl
    · rcases h.before p hp with hlt | ⟨hseq, hle⟩
      · exact Or.inl hlt
      · exact Or.inr ⟨hseq, by omega⟩
    · refine Or.inr ⟨rfl, ?_⟩
      simp [Placed.stop, ShardState.offset, ShardState.stream]
  · intro p hp
    rcases hmem p hp with hp | rfl
    · exact h.len p hp
    · exact hlen
  · rw [Shard.write]
    apply List.nodup_append.mpr
    refine ⟨h.nodup, by simp, ?_⟩
    intro p hp q hq
    rw [List.mem_singleton.mp hq]
    rintro rfl
    exact h.fresh e hp

theorem flushes_filled {max : Nat} {old : List (List Entry)} {sh sh' : Shard} {m : FlusherMove}
    (hs : sh.Flushes m sh') (h : sh.Filled max old) : sh'.Filled max old := by
  cases hs with
  | choose hf => exact h.keep rfl rfl rfl
  | doFlush t io hf =>
    cases io with
    | ok => exact h.keep (layout_doFlush _) rfl rfl
    | flushFailed n =>
      exact h.keep (by simp [Shard.doFlush, ShardState.layout, ShardState.drain, ShardState.stream]) rfl rfl
    | syncFailed =>
      exact h.keep
        (by simp [Shard.doFlush, ShardState.layout, ShardState.flush, ShardState.drain, ShardState.stream]) rfl rfl
  | publish t ok hf => cases ok <;> exact h.keep rfl rfl rfl

/-! ## One frame for each append -/

/-- The frame of a call that has written it. -/
def Call.placed : Call → Option Placed
  | .written p | .parked p | .acked p => some p
  | _ => none

structure Recorded (cfg : FileWalConfig) (s : Wal) : Prop where
  place : ∀ i, ∀ p ∈ (s.shards i).frames, shardFor cfg p.entry.entryId = i
  own : ∀ c p, (s.calls c).placed = some p → p ∈ (s.shards (shardFor cfg p.entry.entryId)).frames
  inj : ∀ c d p, (s.calls c).placed = some p → (s.calls d).placed = some p → c = d
  all : (∀ i, (s.shards i).state.shutdown = false) → ∀ i, ∀ p ∈ (s.shards i).frames, ∃ c, (s.calls c).placed = some p

/-- No frame is written. A call forgets its frame only after a shutdown. -/
structure Wal.Silent (s s' : Wal) : Prop where
  frames : ∀ i, (s'.shards i).frames = (s.shards i).frames
  placed : ∀ c p, (s'.calls c).placed = some p → (s.calls c).placed = some p
  kept : (∀ i, (s'.shards i).state.shutdown = false) →
    (∀ i, (s.shards i).state.shutdown = false) ∧ ∀ c p, (s.calls c).placed = some p → (s'.calls c).placed = some p

theorem Recorded.silent {cfg : FileWalConfig} {s s' : Wal} (h : Recorded cfg s) (hs : s.Silent s') :
    Recorded cfg s' where
  place i p hp := h.place i p (hs.frames i ▸ hp)
  own c p hp := hs.frames _ ▸ h.own c p (hs.placed c p hp)
  inj c d p hc hd := h.inj c d p (hs.placed c p hc) (hs.placed d p hd)
  all hup i p hp := by
    obtain ⟨hup, hkeep⟩ := hs.kept hup
    obtain ⟨c, hc⟩ := h.all hup i p (hs.frames i ▸ hp)
    exact ⟨c, hkeep c p hc⟩

theorem placed_write {cfg : FileWalConfig} {s : Wal} {c d : Nat} {e : Entry} {n k : Nat} {p : Placed} :
    ((s.write cfg c e n k).calls d).placed = some p ↔
      (d = c ∧ p = ⟨e, (s.shards (shardFor cfg e.entryId)).state.current.seqno,
        (s.shards (shardFor cfg e.entryId)).state.offset⟩) ∨ (d ≠ c ∧ (s.calls d).placed = some p) := by
  simp only [Wal.write, Wal.setCall, Function.update_apply, Shard.write]
  split
  · rename_i hd
    simp [hd, Call.placed, eq_comm]
  · rename_i hd
    simp [hd, Wal.setShard]

theorem shutdown_write (cfg : FileWalConfig) (s : Wal) (c : Nat) (e : Entry) (n k j : Nat) :
    ((s.write cfg c e n k).shards j).state.shutdown = (s.shards j).state.shutdown := by
  simp only [Wal.write, Wal.setCall, Wal.setShard, Function.update_apply]
  split
  · rename_i hj
    rw [hj]
    rfl
  · rfl

theorem Recorded.write {cfg : FileWalConfig} {s : Wal} (h : Recorded cfg s) {c : Nat} {e : Entry}
    (hcall : s.calls c = .rolled e) (n k : Nat)
    (hfresh : ⟨e, (s.shards (shardFor cfg e.entryId)).state.current.seqno,
      (s.shards (shardFor cfg e.entryId)).state.offset⟩ ∉ (s.shards (shardFor cfg e.entryId)).frames) :
    Recorded cfg (s.write cfg c e n k) := by
  generalize hnew : Placed.mk e (s.shards (shardFor cfg e.entryId)).state.current.seqno
    (s.shards (shardFor cfg e.entryId)).state.offset = new at hfresh
  have hid : new.entry = e := by rw [← hnew]
  have hframes : ∀ i p, p ∈ ((s.write cfg c e n k).shards i).frames ↔
      p ∈ (s.shards i).frames ∨ (i = shardFor cfg e.entryId ∧ p = new) := by
    intro i p
    rw [mem_write, hnew]
  have hplaced : ∀ d p, ((s.write cfg c e n k).calls d).placed = some p ↔
      (d = c ∧ p = new) ∨ (d ≠ c ∧ (s.calls d).placed = some p) := by
    intro d p
    rw [placed_write, hnew]
  refine ⟨fun i p hp => ?_, fun d p hp => ?_, fun d d' p hd hd' => ?_, fun hup i p hp => ?_⟩
  · rcases (hframes i p).mp hp with hp | ⟨rfl, rfl⟩
    · exact h.place i p hp
    · rw [hid]
  · rw [hframes]
    rcases (hplaced d p).mp hp with ⟨-, rfl⟩ | ⟨-, hp⟩
    · exact Or.inr ⟨by rw [hid], rfl⟩
    · exact Or.inl (h.own d p hp)
  · have hold : ∀ b, (s.calls b).placed ≠ some new := by
      intro b hb
      have hmem := h.own b new hb
      rw [hid] at hmem
      exact hfresh hmem
    rcases (hplaced d p).mp hd with ⟨hdc, hp⟩ | ⟨-, hdp⟩ <;> rcases (hplaced d' p).mp hd' with ⟨hdc', hp'⟩ | ⟨-, hdp'⟩
    · rw [hdc, hdc']
    · exact absurd (hp ▸ hdp') (hold d')
    · exact absurd (hp' ▸ hdp) (hold d)
    · exact h.inj d d' p hdp hdp'
  · simp only [shutdown_write] at hup
    rcases (hframes i p).mp hp with hp | ⟨rfl, rfl⟩
    · obtain ⟨d, hd⟩ := h.all hup i p hp
      have hne : d ≠ c := by
        rintro rfl
        rw [hcall] at hd
        cases hd
      exact ⟨d, (hplaced d p).mpr (Or.inr ⟨hne, hd⟩)⟩
    · exact ⟨c, (hplaced c _).mpr (Or.inl ⟨rfl, rfl⟩)⟩

theorem silent_setCall {s : Wal} (n : UInt64) {c : Nat} {call : Call} (h : (s.calls c).placed = none)
    (hc : call.placed = none) : s.Silent ({ s with nextEntryId := n }.setCall c call) where
  frames _ := rfl
  placed d p hp := by
    simp only [Wal.setCall, Function.update_apply] at hp
    split at hp
    · rw [hc] at hp
      cases hp
    · exact hp
  kept hup := by
    refine ⟨hup, fun d p hp => ?_⟩
    simp only [Wal.setCall, Function.update_apply]
    split
    · rename_i hd
      rw [hd, h] at hp
      cases hp
    · exact hp

theorem silent_setShard {s : Wal} {i : Nat} {sh : Shard} (hf : sh.frames = (s.shards i).frames)
    (hd : sh.state.shutdown = false → (s.shards i).state.shutdown = false) : s.Silent (s.setShard i sh) where
  frames j := (quiet_setShard s i hf).frames j
  placed _ _ hp := hp
  kept hup := by
    refine ⟨fun j => ?_, fun _ _ hp => hp⟩
    have hj := hup j
    simp only [Wal.setShard, Function.update_apply] at hj
    split at hj
    · rename_i hji
      rw [hji]
      exact hd hj
    · exact hj

theorem silent_append {s : Wal} {i c : Nat} {sh : Shard} {call : Call} (hf : sh.frames = (s.shards i).frames)
    (hd : sh.state.shutdown = (s.shards i).state.shutdown)
    (hnew : ∀ p, call.placed = some p → (s.calls c).placed = some p)
    (hold : (s.shards i).state.shutdown = false → ∀ p, (s.calls c).placed = some p → call.placed = some p) :
    s.Silent ((s.setShard i sh).setCall c call) := by
  have hsh := silent_setShard hf (fun h => hd ▸ h)
  refine ⟨hsh.frames, fun d p hp => ?_, fun hup => ?_⟩
  · simp only [Wal.setCall, Function.update_apply] at hp
    split at hp
    · rename_i hdc
      exact hdc ▸ hnew p hp
    · exact hp
  · have hup := (hsh.kept hup).1
    refine ⟨hup, fun d p hp => ?_⟩
    simp only [Wal.setCall, Function.update_apply]
    split
    · rename_i hdc
      exact hold (hup i) p (hdc ▸ hp)
    · exact hp

/-! ## append -/

/-- There is room for the entry in the segment, or the segment is empty. -/
def Shard.Room (max : Nat) (sh : Shard) (e : Entry) : Prop :=
  sh.state.segmentBytes + frameLen e.payload ≤ max ∨ sh.state.segmentBytes = 0

theorem room_of_needsRollover {max : Nat} {sh : Shard} {e : Entry} (h : needsRollover max sh.state e.payload = false) :
    sh.Room max e := by
  unfold needsRollover at h
  unfold Shard.Room
  simp only [Bool.and_eq_false_iff, decide_eq_false_iff_not] at h
  omega

theorem room_takes {max c : Nat} {sh sh' : Shard} {call call' : Call} {m : Move} {e : Entry}
    (hs : sh.Takes max c call m sh' call') (he : call' = .rolled e) : sh'.Room max e := by
  cases hs with
  | stay e' io hr =>
    cases he
    exact room_of_needsRollover hr
  | roll e' hr => exact Or.inr rfl
  | _ => cases he

/-- The entry of a call that has not written it yet. -/
def Call.accepted : Call → Option Entry
  | .stamped e | .locked e | .rolled e => some e
  | _ => none

theorem takes_accepted {max c : Nat} {sh sh' : Shard} {call call' : Call} {m : Move}
    (hs : sh.Takes max c call m sh' call') (h : ∀ e, call.accepted = some e → e.payload.length < 2 ^ 32) :
    ∀ e, call'.accepted = some e → e.payload.length < 2 ^ 32 := by
  intro e he
  cases hs with
  | stamp id nanos payload durability hlen =>
    cases he
    exact hlen
  | lock e' | stay e' | roll e' =>
    cases he
    exact h _ rfl
  | _ => cases he

theorem filled_takes {max c : Nat} {old : List (List Entry)} {sh sh' : Shard} {call call' : Call} {m : Move}
    (hs : sh.Takes max c call m sh' call') (h : sh.Filled max old)
    (hio : ∀ e io, call = .rolled e → m = .write io → ∃ n k, io = .ok n k)
    (hroom : ∀ e, call = .rolled e → sh.Room max e)
    (hlen : ∀ e, call.accepted = some e → e.payload.length < 2 ^ 32) : sh'.Filled max old := by
  cases hs with
  | roll e hr => exact h.roll
  | rollFailed e io n hio =>
    exact h.keep (by simp [ShardState.layout, ShardState.drain, ShardState.stream]) rfl rfl
  | write e n k => exact h.write e n k (hlen e rfl) (hroom e rfl)
  | writeFailed e io hne =>
    obtain ⟨n, k, rfl⟩ := hio e io rfl rfl
    exact absurd rfl (hne n k)
  | _ => exact h.keep rfl rfl rfl

theorem placed_takes {max c : Nat} {sh sh' : Shard} {call call' : Call} {m : Move}
    (hs : sh.Takes max c call m sh' call') :
    (∃ e n k, call = .rolled e ∧ m = .write (.ok n k) ∧ sh' = (sh.write e (.ok n k)).1 ∧
      call' = (sh.write e (.ok n k)).2) ∨
    (sh'.frames = sh.frames ∧ sh'.state.shutdown = sh.state.shutdown ∧
      (∀ p, call'.placed = some p → call.placed = some p) ∧
      (sh.state.shutdown = false → ∀ p, call.placed = some p → call'.placed = some p)) := by
  cases hs with
  | write e n k => exact Or.inl ⟨e, n, k, rfl, rfl, rfl, rfl⟩
  | writeFailed e io hne =>
    cases io with
    | ok n k => exact absurd rfl (hne n k)
    | headerFailed n => exact Or.inr ⟨rfl, rfl, fun p hp => (by cases hp), fun _ p hp => (by cases hp)⟩
    | payloadFailed n k => exact Or.inr ⟨rfl, rfl, fun p hp => (by cases hp), fun _ p hp => (by cases hp)⟩
  | interrupted p hl hdown =>
    refine Or.inr ⟨rfl, rfl, fun p hp => (by cases hp), fun hup => ?_⟩
    rw [hdown] at hup
    cases hup
  | park | ack | again | wake => exact Or.inr ⟨rfl, rfl, fun p hp => hp, fun _ p hp => hp⟩
  | _ => exact Or.inr ⟨rfl, rfl, fun p hp => (by cases hp), fun _ p hp => (by cases hp)⟩

/-! ## Whole runs -/

structure Conserving (cfg : FileWalConfig) (old : Nat → List (List Entry)) (s : Wal) : Prop where
  shards : ∀ i, (s.shards i).Filled cfg.segmentSizeMax (old i)
  recorded : Recorded cfg s
  room : ∀ c e, s.calls c = .rolled e → (s.shards (shardFor cfg e.entryId)).Room cfg.segmentSizeMax e
  accepted : ∀ c e, (s.calls c).accepted = some e → e.payload.length < 2 ^ 32

theorem conserving_open {cfg : FileWalConfig} {dirs : Nat → ShardDir} {old : Nat → List (List Entry)}
    (h : ∀ i, (dirs i).segments.map (·.bytes) = (old i).map segmentBytes) : Conserving cfg old (openWal dirs) where
  shards i := filled_open cfg.segmentSizeMax (h i)
  recorded := by constructor <;> simp [openWal, Call.placed]
  room c e hc := by cases hc
  accepted c e hc := by cases hc

theorem Conserving.setCall {cfg : FileWalConfig} {old : Nat → List (List Entry)} {s : Wal} (h : Conserving cfg old s)
    (n : UInt64) {c : Nat} {call : Call} (hnone : (s.calls c).placed = none) (hp : call.placed = none)
    (ha : call.accepted = none) : Conserving cfg old ({ s with nextEntryId := n }.setCall c call) where
  shards := h.shards
  recorded := h.recorded.silent (silent_setCall n hnone hp)
  room d e hd := by
    simp only [Wal.setCall, Function.update_apply] at hd
    split at hd
    · rw [hd] at ha
      cases ha
    · exact h.room d e hd
  accepted d e hd := by
    simp only [Wal.setCall, Function.update_apply] at hd
    split at hd
    · rw [ha] at hd
      cases hd
    · exact h.accepted d e hd

theorem Conserving.setShard {cfg : FileWalConfig} {old : Nat → List (List Entry)} {s : Wal} (h : Conserving cfg old s)
    (hx : Exclusive cfg s) {i : Nat} {sh : Shard} (hl : (s.shards i).lock = none)
    (hsh : sh.Filled cfg.segmentSizeMax (old i)) (hf : sh.frames = (s.shards i).frames)
    (hd : sh.state.shutdown = false → (s.shards i).state.shutdown = false) : Conserving cfg old (s.setShard i sh) where
  shards j := by
    simp only [Wal.setShard, Function.update_apply]
    split
    · rename_i hj
      exact hj ▸ hsh
    · exact h.shards j
  recorded := h.recorded.silent (silent_setShard hf hd)
  room c e hc := by
    have hc : s.calls c = .rolled e := hc
    have hlock := hx c e (by rw [hc]; rfl)
    simp only [Wal.setShard, Function.update_apply]
    split
    · rename_i hi
      rw [hi, hl] at hlock
      cases hlock
    · exact h.room c e hc
  accepted := h.accepted

theorem Conserving.append {cfg : FileWalConfig} {old : Nat → List (List Entry)} {s : Wal} (h : Conserving cfg old s)
    (hx : Exclusive cfg s) {c : Nat} {m : Move} {id : UInt64} {sh : Shard} {call : Call}
    (hio : NoIoError s (.append c m)) (hid : (s.calls c).id = some id)
    (hs : (s.shards (shardFor cfg id)).Takes cfg.segmentSizeMax c (s.calls c) m sh call) :
    Conserving cfg old ((s.setShard (shardFor cfg id) sh).setCall c call) := by
  have hfilled : sh.Filled cfg.segmentSizeMax (old (shardFor cfg id)) := by
    refine filled_takes hs (h.shards _) ?_ ?_ (h.accepted c)
    · rintro e io - rfl
      exact hio
    · intro e hcall
      rw [hcall] at hid
      cases hid
      exact h.room c e hcall
  refine ⟨fun j => ?_, ?_, fun d e hd => ?_, fun d e hd => ?_⟩
  · simp only [Wal.setCall, Wal.setShard, Function.update_apply]
    split
    · rename_i hj
      exact hj ▸ hfilled
    · exact h.shards j
  · rcases placed_takes hs with ⟨e, n, k, hcall, rfl, rfl, rfl⟩ | ⟨hf, hdown, hnew, hold⟩
    · rw [hcall] at hid
      cases hid
      exact h.recorded.write hcall n k ((h.shards _).fresh e)
    · exact h.recorded.silent (silent_append hf hdown hnew hold)
  · simp only [Wal.setCall, Wal.setShard, Function.update_apply] at hd ⊢
    by_cases hdc : d = c
    · rw [if_pos hdc] at hd
      have hsame := takes_id hs (by rw [hd]; rfl : call.id = some e.entryId)
      rw [hid, Option.some.injEq] at hsame
      rw [← hsame, if_pos rfl]
      exact room_takes hs hd
    · rw [if_neg hdc] at hd
      have hroom := h.room d e hd
      split
      · rename_i hi
        have hlock := hx d e (by rw [hd]; rfl)
        rw [hi] at hlock hroom
        rw [takes_locked hs (fun e' he' => hx.self hid he') hlock hdc]
        exact hroom
      · exact hroom
  · simp only [Wal.setCall, Wal.setShard, Function.update_apply] at hd
    split at hd
    · exact takes_accepted hs (h.accepted c) e hd
    · exact h.accepted d e hd

theorem flushCall_placed {cfg : FileWalConfig} {sh : Shard} {call call' : Call}
    (h : sh.flushCall cfg call = some call') : call'.placed = none ∧ call'.accepted = none := by
  obtain ⟨before, i, rfl⟩ | ⟨before, i, target, rfl⟩ | ⟨before, rfl⟩ := flushCall_cases h <;> exact ⟨rfl, rfl⟩

theorem conserving_step {cfg : FileWalConfig} {old : Nat → List (List Entry)} {s s' : Wal} {a : Label}
    (h : Conserving cfg old s) (hx : Exclusive cfg s) (hio : NoIoError s a) (hs : s.Steps cfg a s') :
    Conserving cfg old s' := by
  cases hs with
  | fetchAdd c payload durability hc => exact h.setCall _ (by rw [hc]; rfl) rfl rfl
  | append c m hid hr => exact h.append hx hio hid (takes_of_append hr)
  | flush c hc => exact h.setCall _ (by rw [hc]; rfl) rfl rfl
  | flushLook c hc hf => exact h.setCall _ (by rw [hc]; rfl) (flushCall_placed hf).1 (flushCall_placed hf).2
  | flushWait c hc hf => exact h.setCall _ (by rw [hc]; rfl) (flushCall_placed hf).1 (flushCall_placed hf).2
  | flusher i m hl hf =>
    refine h.setShard hx hl (flushes_filled hf (h.shards i)) (flushes_frames hf) fun hup => ?_
    cases hf with
    | choose _ => exact hup
    | doFlush t io _ => cases io <;> exact hup
    | publish t ok _ => cases ok <;> exact hup
  | shutdown i hl => exact h.setShard hx hl ((h.shards i).keep rfl rfl rfl) rfl fun hup => (by cases hup)

theorem conserving_reach {cfg : FileWalConfig} {dirs : Nat → ShardDir} {old : Nat → List (List Entry)}
    (hold : ∀ i, (dirs i).segments.map (·.bytes) = (old i).map segmentBytes) {s : Wal}
    (hs : (fileWal cfg dirs).Reach NoIoError s) : Conserving cfg old s := by
  apply Machine.Reach.invariant (conserving_open hold) _ hs
  intro s a s' hr h hio hstep
  have hx := exclusive_reachable (hr.mono fun _ _ _ => trivial)
  exact conserving_step h hx hio (steps_of_step hstep)

/-! ## What is in the files -/

/-- What the caller has given, and the id that it was given for it. -/
def Call.args : Call → Option (UInt64 × Durability × List Byte)
  | .numbered id payload durability => some (id, durability, payload)
  | .stamped e | .locked e | .rolled e => some (e.entryId, e.durability, e.payload)
  | .written p | .parked p | .acked p => some (p.entry.entryId, p.entry.durability, p.entry.payload)
  | _ => none

theorem takes_args {max c : Nat} {sh sh' : Shard} {call call' : Call} {m : Move}
    (hs : sh.Takes max c call m sh' call') : call'.args = call.args ∨ call' = .failed := by
  cases hs with
  | tooLarge | rollFailed | writeFailed | interrupted => exact Or.inr rfl
  | _ => exact Or.inl rfl

theorem step_args {cfg : FileWalConfig} {s s' : Wal} {a : Label} (hs : s.Steps cfg a s') {c : Nat}
    (hc : (s.calls c).args ≠ none) : (s'.calls c).args = (s.calls c).args ∨ s'.calls c = .failed := by
  have hset : ∀ (w : Wal) (d : Nat) (call : Call), w.calls = s.calls → ((s.calls d).args = none ∨
      (call.args = (s.calls d).args ∨ call = .failed)) →
      ((w.setCall d call).calls c).args = (s.calls c).args ∨ (w.setCall d call).calls c = .failed := by
    intro w d call hw hd
    simp only [Wal.setCall, Function.update_apply, hw]
    split
    · rename_i hcd
      rw [hcd] at hc ⊢
      exact hd.resolve_left hc
    · exact Or.inl rfl
  cases hs with
  | fetchAdd d payload durability hd => exact hset _ d _ rfl (Or.inl (by rw [hd]; rfl))
  | append d m hid hr => exact hset _ d _ rfl (Or.inr (takes_args (takes_of_append hr)))
  | flush d hd => exact hset _ d _ rfl (Or.inl (by rw [hd]; rfl))
  | flushLook d hd hf => exact hset _ d _ rfl (Or.inl (by rw [hd]; rfl))
  | flushWait d hd hf => exact hset _ d _ rfl (Or.inl (by rw [hd]; rfl))
  | flusher => exact Or.inl rfl
  | shutdown => exact Or.inl rfl

/-- Each append has one frame with what it was called with. The frame is whole and in one file of
the right shard, and no file has more frames than fit, unless it has only one. -/
structure Conserved (cfg : FileWalConfig) (s : Wal) : Prop where
  args : ∀ a s', s.step cfg a = some s' → ∀ c, (s.calls c).args ≠ none →
    (s'.calls c).args = (s.calls c).args ∨ s'.calls c = .failed
  own : ∀ c p, (s.calls c).placed = some p → p ∈ (s.shards (shardFor cfg p.entry.entryId)).frames
  one : (∀ i, (s.shards i).state.shutdown = false) → ∀ i, ∀ p ∈ (s.shards i).frames, ∃! c, (s.calls c).placed = some p
  nodup : ∀ i, (s.shards i).frames.Nodup
  place : ∀ i, ∀ p ∈ (s.shards i).frames, p.entry.entryId.toNat % cfg.shards = i ∧ InDir (s.shards i).state.dir p
  size : ∀ i, ∀ f ∈ (s.shards i).state.dir.segments, (∃ p ∈ (s.shards i).frames, p.seqno = f.seqno) →
    f.bytes.length ≤ cfg.segmentSizeMax ∨
      ∃ p ∈ (s.shards i).frames, p.seqno = f.seqno ∧ f.bytes = encodeEntry p.entry

theorem Conserving.conserved {cfg : FileWalConfig} {old : Nat → List (List Entry)} {s : Wal}
    (h : Conserving cfg old s) : Conserved cfg s where
  args a s' hs c hc := step_args (steps_of_step hs) hc
  own := h.recorded.own
  one hup i p hp := by
    obtain ⟨c, hc⟩ := h.recorded.all hup i p hp
    exact ⟨c, hc, fun d hd => h.recorded.inj d c p hd hc⟩
  nodup i := (h.shards i).nodup
  place i p hp := ⟨h.recorded.place i p hp, (h.shards i).inDir p hp⟩
  size i f hf hp := by
    have hf : (f.seqno, f.bytes) ∈ (s.shards i).state.layout := by
      rw [← dir_layout]
      exact List.mem_map_of_mem hf
    exact (h.shards i).size _ hf hp

theorem Shard.Filled.decode_iff {max : Nat} {old : List (List Entry)} {sh : Shard} (h : sh.Filled max old)
    (hold : ∀ e ∈ old.flatten, e.payload.length < 2 ^ 32) :
    decodeSegments sh.state.dir.segments = (old.flatten ++ sh.frames.map (·.entry)).map (fun e => .ok e.parsed) ↔
      ∀ e ∈ old.flatten ++ sh.frames.map (·.entry), Readable e.payload := by
  obtain ⟨segs, hsegs, hjoin⟩ := h.files
  have hlen : ∀ e ∈ segs.flatten, e.payload.length < 2 ^ 32 := by
    intro e he
    rw [hjoin, List.mem_append] at he
    rcases he with he | he
    · exact hold e he
    · obtain ⟨p, hp, rfl⟩ := List.mem_map.mp he
      exact h.len p hp
  rw [decodeSegments_layout, hsegs, ← hjoin]
  constructor
  · intro hread e he
    by_contra hbig
    obtain ⟨err, herr⟩ := flatMap_segments_error hlen ⟨e, he, hbig⟩
    rw [hread] at herr
    simp at herr
  · exact flatMap_segments

/-- **Conservation, exactly.** In each state of each run without errors of the disk, on files of
whole frames: all appends have their frames where they belong. When the writers are flushed, the
reader finds in the files of a shard the old frames and one for each append, in the order of the
writes, if and only if none of their payloads is longer than the limit of the reader. -/
theorem conserved_decode_iff (cfg : FileWalConfig) (dirs : Nat → ShardDir) (old : Nat → List (List Entry))
    (hold : ∀ i, (dirs i).segments.map (·.bytes) = (old i).map segmentBytes)
    (hlen : ∀ i, ∀ e ∈ (old i).flatten, e.payload.length < 2 ^ 32) (s : Wal)
    (hs : (fileWal cfg dirs).Reach NoIoError s) :
    Conserved cfg s ∧ ∀ i,
      (decodeSegments (s.shards i).state.dir.segments =
          ((old i).flatten ++ (s.shards i).frames.map (·.entry)).map (fun e => .ok e.parsed) ↔
        ∀ e ∈ (old i).flatten ++ (s.shards i).frames.map (·.entry), e.payload.length ≤ maxPayloadBytes.toNat) := by
  have h := conserving_reach hold hs
  exact ⟨h.conserved, fun i => (h.shards i).decode_iff (hlen i)⟩

def noIoError (_ : Wal) : Label → Bool
  | .append _ (.roll (.flushFailed _)) | .append _ (.roll .openFailed) => false
  | .append _ (.write (.headerFailed _)) | .append _ (.write (.payloadFailed _ _)) => false
  | .flusher _ (.doFlush (.flushFailed _)) | .flusher _ (.doFlush .syncFailed) => false
  | _ => true

theorem noIoError_of_check (s : Wal) (a : Label) (h : noIoError s a = true) : NoIoError s a := by
  unfold NoIoError
  split
  · rename_i io
    cases io <;> simp_all [noIoError]
  · rename_i io
    cases io <;> simp_all [noIoError]
  · rename_i io
    cases io <;> simp_all [noIoError]
  · trivial

/-- Two shards, one old frame in the second one, and one append to each of them. -/
theorem conserved_decode_iff_two :
    let cfg : FileWalConfig := ⟨2, 30, by decide⟩
    let before : Entry := ⟨9, 5, .fsync, [4]⟩
    let dirs : Nat → ShardDir := fun i => if i = 1 then ⟨[⟨3, encodeEntry before, 0⟩], by simp⟩ else noFiles
    let old : Nat → List (List Entry) := fun i => if i = 1 then [[before]] else []
    (∀ i, (dirs i).segments.map (·.bytes) = (old i).map segmentBytes) ∧
    (∀ i, ∀ e ∈ (old i).flatten, e.payload.length < 2 ^ 32) ∧
    ∃ s, (fileWal cfg dirs).Reach NoIoError s ∧ (s.shards 0).frames.map (·.entry.entryId) = [2] ∧
      (s.shards 1).frames.map (·.entry.entryId) = [1] ∧ Conserved cfg s ∧ ∀ i,
      (decodeSegments (s.shards i).state.dir.segments =
          ((old i).flatten ++ (s.shards i).frames.map (·.entry)).map (fun e => .ok e.parsed) ↔
        ∀ e ∈ (old i).flatten ++ (s.shards i).frames.map (·.entry), e.payload.length ≤ maxPayloadBytes.toNat) := by
  intro cfg before dirs old
  have hold : ∀ i, (dirs i).segments.map (·.bytes) = (old i).map segmentBytes := by
    intro i
    by_cases hi : i = 1
    · simp [dirs, old, hi, segmentBytes]
    · simp [dirs, old, hi, noFiles]
  have hlen : ∀ i, ∀ e ∈ (old i).flatten, e.payload.length < 2 ^ 32 := by
    intro i e he
    by_cases hi : i = 1
    · have hb : e = before := by simpa [old, hi] using he
      rw [hb]
      decide
    · simp [old, hi] at he
  have hrun : (((fileWal cfg dirs).restrict noIoError).run [.fetchAdd 0 [6] .async, .fetchAdd 1 [] .fsync,
      .append 1 (.stamp 8), .append 0 (.stamp 7), .append 1 .lock, .append 0 .lock, .append 0 (.roll .ok),
      .append 0 (.write (.ok 3 4)), .append 1 (.roll .ok), .append 0 .wait, .append 1 (.write (.ok 0 0))]).map
      (fun s => decide ((s.shards 0).frames.map (·.entry.entryId) = [2]) &&
        decide ((s.shards 1).frames.map (·.entry.entryId) = [1])) = some true := by decide
  obtain ⟨s, hs, hp⟩ := Machine.exists_of_restrict (fun s a _ => noIoError_of_check s a) hrun
  rw [Bool.and_eq_true, decide_eq_true_eq, decide_eq_true_eq] at hp
  exact ⟨hold, hlen, s, hs, hp.1, hp.2, conserved_decode_iff cfg dirs old hold hlen s hs⟩

theorem reach_move {cfg : FileWalConfig} {dirs : Nat → ShardDir} {sh sh' : Shard} {call call' : Call} {m : Move}
    (hone : cfg.shards = 1) (hreach : ∃ s, (fileWal cfg dirs).Reach NoIoError s ∧ s.calls 0 = call ∧ s.shards 0 = sh)
    (hid : call.id ≠ none) (happend : sh.append cfg.segmentSizeMax 0 call m = some (sh', call'))
    (hio : ∀ s, NoIoError s (.append 0 m)) :
    ∃ s, (fileWal cfg dirs).Reach NoIoError s ∧ s.calls 0 = call' ∧ s.shards 0 = sh' := by
  obtain ⟨s, hs, hcall, hshard⟩ := hreach
  obtain ⟨id, hid⟩ := Option.ne_none_iff_exists'.mp hid
  have hzero : shardFor cfg id = 0 := by
    unfold shardFor
    rw [hone, Nat.mod_one]
  have hstep : (fileWal cfg dirs).step s (.append 0 m) = some ((s.setShard 0 sh').setCall 0 call') := by
    simp only [fileWal, Wal.step, Wal.append, hcall, hid, Option.bind_some, hzero, hshard, happend, Option.map_some]
  exact ⟨_, .step hs hstep (hio s), by simp [Wal.setCall], by simp [Wal.setCall, Wal.setShard]⟩

theorem roll_empty {sh : Shard} (h : sh.state.segmentBytes = 0) (max : Nat) (e : Entry) (io : RollIo) :
    sh.roll max e io = (sh, .rolled e) := by
  simp [Shard.roll, needsRollover, h]

theorem reach_one {payload : List Byte} (hlen : payload.length < 2 ^ 32) :
    let cfg : FileWalConfig := ⟨1, 64 * 1024 * 1024, by decide⟩
    ∃ s, (fileWal cfg fun _ => noFiles).Reach NoIoError s ∧
      (s.shards 0).frames = [⟨⟨1, 7, .fsync, payload⟩, 0, 0⟩] := by
  intro cfg
  have hacc : (payloadLen payload).isSome = true := payloadLen_isSome.mpr hlen
  have hstart : ∃ s, (fileWal cfg fun _ => noFiles).Reach NoIoError s ∧
      s.calls 0 = .numbered 1 payload .fsync ∧ s.shards 0 = ⟨openShard noFiles, none, .top, []⟩ :=
    ⟨_, .step (a := .fetchAdd 0 payload .fsync) .init rfl trivial, rfl, rfl⟩
  have hstamped := reach_move (m := .stamp 7) rfl hstart (by simp [Call.id])
    (by simp only [Shard.append, hacc, if_true]; rfl) (fun _ => trivial)
  have hlocked := reach_move (m := .lock) rfl hstamped (by simp [Call.id]) rfl (fun _ => trivial)
  have hrolled := reach_move (m := .roll .ok) rfl hlocked (by simp [Call.id])
    (congrArg some (roll_empty rfl _ _ _)) (fun _ => rfl)
  obtain ⟨s, hs, -, hshard⟩ := reach_move (m := .write (.ok 0 0)) rfl hrolled (by simp [Call.id]) rfl
    (fun _ => ⟨0, 0, rfl⟩)
  refine ⟨s, hs, ?_⟩
  rw [hshard]
  rfl

theorem too_long_not_decoded {payload : List Byte} (hbig : payload.length = 2 ^ 24 + 1) :
    let cfg : FileWalConfig := ⟨1, 64 * 1024 * 1024, by decide⟩
    let e : Entry := ⟨1, 7, .fsync, payload⟩
    ∃ s, (fileWal cfg fun _ => noFiles).Reach NoIoError s ∧ (s.shards 0).frames = [⟨e, 0, 0⟩] ∧
      decodeSegments (s.shards 0).state.dir.segments ≠ [.ok e.parsed] := by
  intro cfg e
  obtain ⟨s, hs, hf⟩ := reach_one (by rw [hbig]; decide : payload.length < 2 ^ 32)
  refine ⟨s, hs, hf, fun hread => ?_⟩
  have hfilled := (@conserving_reach cfg (fun _ => noFiles) (fun _ => []) (fun _ => rfl) s hs).shards 0
  have hiff := hfilled.decode_iff (by simp)
  rw [hf] at hiff
  have hreadable := hiff.mp (by simpa using hread) e (by simp [e])
  rw [Readable, hbig] at hreadable
  exact absurd hreadable (by decide)

/-- One append of 16 MiB and a byte, and no old files. The reader does not find its frame. -/
theorem conserved_not_decoded :
    let cfg : FileWalConfig := ⟨1, 64 * 1024 * 1024, by decide⟩
    let e : Entry := ⟨1, 7, .fsync, List.replicate (2 ^ 24 + 1) 0⟩
    ∃ s, (fileWal cfg fun _ => noFiles).Reach NoIoError s ∧ (s.shards 0).frames = [⟨e, 0, 0⟩] ∧
      decodeSegments (s.shards 0).state.dir.segments ≠ [.ok e.parsed] :=
  too_long_not_decoded List.length_replicate

end Riftgate.FileWal
