import Riftgate.Conservation

/-!
# Appends that fail

An append can fail at any point: in the flush or in the open of a rollover, in the header, in the payload. It leaves
any part of its frame in the segment, and the frames before that part are still read. `segment_bytes` counts whole
frames only, so it shows what was left.
-/

open Lib

namespace Riftgate.FileWal

open Riftgate.Frame

/-- A frame that the reader accepts is written, and no failed append has left bytes in its segment. -/
def OnWholeFrames (cfg : FileWalConfig) (s : Wal) : Label → Prop
  | .append c (.write (.ok _ _)) => ∀ e, s.calls c = .rolled e →
    (s.shards (shardFor cfg e.entryId)).state.segmentBytes = (s.shards (shardFor cfg e.entryId)).state.stream.length ∧
      e.payload.length ≤ maxPayloadBytes.toNat
  | _ => True

/-! ## The files of a shard -/

/-- Each file is some frames and then what failed appends have left. The last one is `last` and `torn`. -/
structure TornFiles (st : ShardState) (segs : List (List Entry × List Byte)) (last : List Entry)
    (torn : List Byte) : Prop where
  closed : st.closed.map (·.bytes) = segs.map fun f => segmentBytes f.1 ++ f.2
  stream : st.stream = segmentBytes last ++ torn
  count : st.segmentBytes = (segmentBytes last).length

structure Shard.Legible (old : List (List Entry)) (sh : Shard) : Prop where
  files : ∃ segs last torn, TornFiles sh.state segs last torn ∧
    segs.flatMap (·.1) ++ last = old.flatten ++ sh.frames.map (·.entry)
  readable : ∀ e ∈ old.flatten ++ sh.frames.map (·.entry), Readable e.payload

theorem legible_open {dir : ShardDir} {old : List (List Entry)} (h : dir.segments.map (·.bytes) = old.map segmentBytes)
    (hread : ∀ e ∈ old.flatten, Readable e.payload) : Shard.Legible old ⟨openShard dir, none, .top, []⟩ := by
  have hfilled := filled_open 0 h
  obtain ⟨segs, hsegs, hjoin⟩ := hfilled.files
  refine ⟨?_, by simpa using hread⟩
  rcases List.eq_nil_or_concat segs with rfl | ⟨init, last, rfl⟩
  · simp [ShardState.contents] at hsegs
  · rw [List.concat_eq_append] at hsegs hjoin
    rw [ShardState.contents, List.map_append, List.map_singleton] at hsegs
    obtain ⟨hclosed, hlast⟩ := List.append_inj' hsegs rfl
    rw [List.cons.injEq] at hlast
    refine ⟨init.map fun es => (es, []), last, [], ⟨?_, by simpa using hlast.1, ?_⟩, ?_⟩
    · rw [hclosed, List.map_map]
      exact List.map_congr_left fun es _ => (List.append_nil _).symm
    · rw [hfilled.bytes, hlast.1]
    · rw [← hjoin, List.flatten_append, List.flatMap_map]
      simp [List.flatMap_def]

theorem Shard.Legible.keep {old : List (List Entry)} {sh sh' : Shard} (h : sh.Legible old)
    (hclosed : sh'.state.closed = sh.state.closed) (hstream : sh'.state.stream = sh.state.stream)
    (hcount : sh'.state.segmentBytes = sh.state.segmentBytes) (hframes : sh'.frames = sh.frames) : sh'.Legible old := by
  obtain ⟨segs, last, torn, hfiles, hjoin⟩ := h.files
  refine ⟨⟨segs, last, torn, ⟨?_, ?_, ?_⟩, by rw [hframes, hjoin]⟩, by rw [hframes]; exact h.readable⟩
  · rw [hclosed, hfiles.closed]
  · rw [hstream, hfiles.stream]
  · rw [hcount, hfiles.count]

theorem Shard.Legible.tear {old : List (List Entry)} {sh sh' : Shard} (h : sh.Legible old)
    (hclosed : sh'.state.closed = sh.state.closed) (hstream : sh.state.stream <+: sh'.state.stream)
    (hcount : sh'.state.segmentBytes = sh.state.segmentBytes) (hframes : sh'.frames = sh.frames) : sh'.Legible old := by
  obtain ⟨segs, last, torn, hfiles, hjoin⟩ := h.files
  obtain ⟨left, hleft⟩ := hstream
  refine ⟨⟨segs, last, torn ++ left, ⟨?_, ?_, ?_⟩, by rw [hframes, hjoin]⟩, by rw [hframes]; exact h.readable⟩
  · rw [hclosed, hfiles.closed]
  · rw [← hleft, hfiles.stream, List.append_assoc]
  · rw [hcount, hfiles.count]

theorem Shard.Legible.roll {old : List (List Entry)} {sh : Shard} (h : sh.Legible old) :
    Shard.Legible old { sh with state := sh.state.flush.nextSegment } := by
  obtain ⟨segs, last, torn, hfiles, hjoin⟩ := h.files
  have hflushed : sh.state.flush.current.bytes = sh.state.stream := by
    simp [ShardState.flush, ShardState.drain, ShardState.stream]
  refine ⟨⟨segs ++ [(last, torn)], [], [], ⟨?_, rfl, rfl⟩, ?_⟩, h.readable⟩
  · show (sh.state.flush.closed ++ [sh.state.flush.current]).map (·.bytes) = _
    rw [List.map_append, List.map_singleton, hflushed, hfiles.stream, List.map_append, ← hfiles.closed]
    rfl
  · rw [List.flatMap_append, List.append_nil, ← hjoin]
    simp

theorem Shard.Legible.write {old : List (List Entry)} {sh : Shard} (h : sh.Legible old) (e : Entry) (n k : Nat)
    (hcount : sh.state.segmentBytes = sh.state.stream.length) (hread : Readable e.payload) :
    (sh.write e (.ok n k)).1.Legible old := by
  obtain ⟨segs, last, torn, hfiles, hjoin⟩ := h.files
  -- The count is that of the whole frames, so nothing else is in the file.
  have htorn : torn = [] := by
    rw [hfiles.count, hfiles.stream, List.length_append] at hcount
    exact List.length_eq_zero_iff.mp (by omega)
  subst htorn
  have hstream : (sh.write e (.ok n k)).1.state.stream = segmentBytes (last ++ [e]) := by
    rw [Shard.write, writeFrame_stream, hfiles.stream]
    simp [segmentBytes]
  have hframes : (sh.write e (.ok n k)).1.frames.map (·.entry) = sh.frames.map (·.entry) ++ [e] := by
    simp [Shard.write]
  refine ⟨⟨segs, last ++ [e], [], ⟨hfiles.closed, by rw [hstream, List.append_nil], ?_⟩, ?_⟩, ?_⟩
  · show sh.state.segmentBytes + frameLen e.payload = _
    rw [hfiles.count, segmentBytes, segmentBytes, List.flatMap_append, List.length_append, ← encodeEntry_length]
    simp
  · rw [hframes, ← List.append_assoc, hjoin, List.append_assoc]
  · rw [hframes, ← List.append_assoc]
    exact List.forall_mem_append.mpr ⟨h.readable, List.forall_mem_singleton.mpr hread⟩

theorem legible_takes {max c : Nat} {old : List (List Entry)} {sh sh' : Shard} {call call' : Call} {m : Move}
    (hs : sh.Takes max c call m sh' call') (h : sh.Legible old)
    (hwrite : ∀ e n k, call = .rolled e → m = .write (.ok n k) →
      sh.state.segmentBytes = sh.state.stream.length ∧ Readable e.payload) : sh'.Legible old := by
  cases hs with
  | roll e hr => exact h.roll
  | rollFailed e io n hio => exact h.keep rfl (drain_stream _ n) rfl rfl
  | write e n k =>
    obtain ⟨hcount, hread⟩ := hwrite e n k rfl rfl
    exact h.write e n k hcount hread
  | writeFailed e io hne =>
    cases io with
    | ok n k => exact absurd rfl (hne n k)
    | headerFailed n => exact h.tear rfl (writeAllFailed_stream _ _ n) rfl rfl
    | payloadFailed n k =>
      refine h.tear rfl (List.IsPrefix.trans ?_ (writeAllFailed_stream _ e.payload k)) rfl rfl
      rw [writeAll_stream]
      exact List.prefix_append _ _
  | _ => exact h.keep rfl rfl rfl rfl

theorem legible_flushes {old : List (List Entry)} {sh sh' : Shard} {m : FlusherMove} (hs : sh.Flushes m sh')
    (h : sh.Legible old) : sh'.Legible old := by
  cases hs with
  | choose hf => exact h.keep rfl rfl rfl rfl
  | doFlush t io hf =>
    cases io with
    | ok => exact h.keep rfl (drain_stream _ _) rfl rfl
    | flushFailed n => exact h.keep rfl (drain_stream _ n) rfl rfl
    | syncFailed => exact h.keep rfl (drain_stream _ _) rfl rfl
  | publish t ok hf => cases ok <;> exact h.keep rfl rfl rfl rfl

/-! ## Whole runs -/

/-- The frame of a call that has written it is among those of its shard. -/
def Owned (cfg : FileWalConfig) (s : Wal) : Prop :=
  ∀ c p, (s.calls c).placed = some p → p ∈ (s.shards (shardFor cfg p.entry.entryId)).frames

theorem Owned.silent {cfg : FileWalConfig} {s s' : Wal} (h : Owned cfg s) (hs : s.Silent s') : Owned cfg s' := by
  intro c p hp
  rw [hs.frames]
  exact h c p (hs.placed c p hp)

theorem Owned.write {cfg : FileWalConfig} {s : Wal} (h : Owned cfg s) (c : Nat) (e : Entry) (n k : Nat) :
    Owned cfg (s.write cfg c e n k) := by
  intro d p hp
  rw [mem_write]
  rcases placed_write.mp hp with ⟨-, rfl⟩ | ⟨-, hp⟩
  · exact .inr ⟨rfl, rfl⟩
  · exact .inl (h d p hp)

structure LegibleWal (cfg : FileWalConfig) (old : Nat → List (List Entry)) (s : Wal) : Prop where
  shards : ∀ i, (s.shards i).Legible (old i)
  own : Owned cfg s

theorem LegibleWal.setCall {cfg : FileWalConfig} {old : Nat → List (List Entry)} {s : Wal} (h : LegibleWal cfg old s)
    (n : UInt64) {c : Nat} {call : Call} (hnone : (s.calls c).placed = none) (hp : call.placed = none) :
    LegibleWal cfg old ({ s with nextEntryId := n }.setCall c call) :=
  ⟨h.shards, h.own.silent (silent_setCall n hnone hp)⟩

theorem LegibleWal.setShard {cfg : FileWalConfig} {old : Nat → List (List Entry)} {s : Wal} (h : LegibleWal cfg old s)
    {i : Nat} {sh : Shard} (hsh : sh.Legible (old i)) (hf : sh.frames = (s.shards i).frames)
    (hd : sh.state.shutdown = false → (s.shards i).state.shutdown = false) : LegibleWal cfg old (s.setShard i sh) := by
  refine ⟨fun j => ?_, h.own.silent (silent_setShard hf hd)⟩
  simp only [Wal.setShard, Function.update_apply]
  split
  · rename_i hj
    exact hj ▸ hsh
  · exact h.shards j

theorem LegibleWal.append {cfg : FileWalConfig} {old : Nat → List (List Entry)} {s : Wal} (h : LegibleWal cfg old s)
    {c : Nat} {m : Move} {id : UInt64} {sh : Shard} {call : Call} (hc : OnWholeFrames cfg s (.append c m))
    (hid : (s.calls c).id = some id)
    (hs : (s.shards (shardFor cfg id)).Takes cfg.segmentSizeMax c (s.calls c) m sh call) :
    LegibleWal cfg old ((s.setShard (shardFor cfg id) sh).setCall c call) := by
  have hsh : sh.Legible (old (shardFor cfg id)) := by
    refine legible_takes hs (h.shards _) ?_
    rintro e n k hcall rfl
    have hwrite := hc e hcall
    rw [hcall] at hid
    cases hid
    exact hwrite
  refine ⟨fun j => ?_, ?_⟩
  · simp only [Wal.setCall, Wal.setShard, Function.update_apply]
    split
    · rename_i hj
      exact hj ▸ hsh
    · exact h.shards j
  · rcases placed_takes hs with ⟨e, n, k, hcall, rfl, rfl, rfl⟩ | ⟨hf, hdown, hnew, hold⟩
    · rw [hcall] at hid
      cases hid
      exact h.own.write c e n k
    · exact h.own.silent (silent_append hf hdown hnew hold)

theorem legible_step {cfg : FileWalConfig} {old : Nat → List (List Entry)} {s s' : Wal} {a : Label}
    (h : LegibleWal cfg old s) (hc : OnWholeFrames cfg s a) (hs : s.Steps cfg a s') : LegibleWal cfg old s' := by
  cases hs with
  | fetchAdd c payload durability hcall => exact h.setCall _ (by rw [hcall]; rfl) rfl
  | append c m hid hr => exact h.append hc hid (takes_of_append hr)
  | flush c hcall => exact h.setCall _ (by rw [hcall]; rfl) rfl
  | flushLook c hcall hf => exact h.setCall _ (by rw [hcall]; rfl) (flushCall_placed hf).1
  | flushWait c hcall hf => exact h.setCall _ (by rw [hcall]; rfl) (flushCall_placed hf).1
  | flusher i m hl hf =>
    refine h.setShard (legible_flushes hf (h.shards i)) (flushes_frames hf) fun hup => ?_
    cases hf with
    | choose _ => exact hup
    | doFlush t io _ => cases io <;> exact hup
    | publish t ok _ => cases ok <;> exact hup
  | shutdown i hl => exact h.setShard ((h.shards i).keep rfl rfl rfl rfl) rfl fun hup => (by cases hup)

theorem legible_reach {cfg : FileWalConfig} {dirs : Nat → ShardDir} {old : Nat → List (List Entry)}
    (hold : ∀ i, (dirs i).segments.map (·.bytes) = (old i).map segmentBytes)
    (hread : ∀ i, ∀ e ∈ (old i).flatten, Readable e.payload) {s : Wal}
    (hs : (fileWal cfg dirs).Reach (OnWholeFrames cfg) s) : LegibleWal cfg old s := by
  apply Machine.Reach.invariant _ _ hs
  · refine ⟨fun i => legible_open (hold i) (hread i), fun c p hp => ?_⟩
    cases hp
  · intro s a s' _ h hc hstep
    exact legible_step h hc (steps_of_step hstep)

/-! ## What is read -/

theorem sublist_flatMap_torn {segs : List (List Entry × List Byte)} (h : ∀ f ∈ segs, ∀ e ∈ f.1, Readable e.payload) :
    ((segs.flatMap (·.1)).map fun e => Except.ok e.parsed).Sublist
      ((segs.map fun f => segmentBytes f.1 ++ f.2).flatMap tryParseFrames) := by
  induction segs with
  | nil => exact .slnil
  | cons f segs ih =>
    rw [List.flatMap_cons, List.map_append, List.map_cons, List.flatMap_cons,
      tryParseFrames_segment (h f List.mem_cons_self)]
    exact ( List.sublist_append_left _ _).append (ih fun g hg => h g (List.mem_cons_of_mem f hg))

theorem Shard.Legible.decoded {old : List (List Entry)} {sh : Shard} (h : sh.Legible old) :
    ((old.flatten ++ sh.frames.map (·.entry)).map fun e => Except.ok e.parsed).Sublist
      (decodeSegments sh.state.dir.segments) := by
  obtain ⟨segs, last, torn, hfiles, hjoin⟩ := h.files
  have hcontents : sh.state.contents = (segs ++ [(last, torn)]).map fun f => segmentBytes f.1 ++ f.2 := by
    rw [ShardState.contents, hfiles.closed, hfiles.stream, List.map_append]
    rfl
  have hall : (segs ++ [(last, torn)]).flatMap (·.1) = old.flatten ++ sh.frames.map (·.entry) := by
    rw [List.flatMap_append, ← hjoin]
    simp
  rw [decodeSegments_layout, hcontents, ← hall]
  refine sublist_flatMap_torn fun f hf e he => h.readable e ?_
  rw [← hall]
  exact List.mem_flatMap.mpr ⟨f, hf, he⟩

/-- **Failed appends.** In each state of each run whose frames are all written to segments of whole frames: an append
that has returned `Ok` has its frame in the log of its shard, and once the writers are flushed, the reader finds all the
frames of a shard, in their order. Errors of the disk may come at any point. -/
theorem appended_decoded (cfg : FileWalConfig) (dirs : Nat → ShardDir) (old : Nat → List (List Entry))
    (hold : ∀ i, (dirs i).segments.map (·.bytes) = (old i).map segmentBytes)
    (hread : ∀ i, ∀ e ∈ (old i).flatten, e.payload.length ≤ maxPayloadBytes.toNat) (s : Wal)
    (hs : (fileWal cfg dirs).Reach (OnWholeFrames cfg) s) :
    (∀ c p, s.calls c = .acked p → p ∈ (s.shards (shardFor cfg p.entry.entryId)).frames) ∧
    ∀ i, (((old i).flatten ++ (s.shards i).frames.map (·.entry)).map fun e => Except.ok e.parsed).Sublist
      (decodeSegments (s.shards i).state.dir.segments) := by
  have h := legible_reach hold hread hs
  refine ⟨fun c p hc => h.own c p ?_, fun i => (h.shards i).decoded⟩
  rw [hc]
  rfl

def onWholeFrames (cfg : FileWalConfig) (s : Wal) : Label → Bool
  | .append c (.write (.ok _ _)) => match s.calls c with
    | .rolled e =>
      let st := (s.shards (shardFor cfg e.entryId)).state
      decide (st.segmentBytes = st.stream.length) && decide (e.payload.length ≤ maxPayloadBytes.toNat)
    | _ => true
  | _ => true

theorem onWholeFrames_of_check (cfg : FileWalConfig) (s : Wal) (a : Label) (h : onWholeFrames cfg s a = true) :
    OnWholeFrames cfg s a := by
  unfold OnWholeFrames
  split
  · rename_i c n k
    intro e hcall
    simp only [onWholeFrames, hcall, Bool.and_eq_true, decide_eq_true_eq] at h
    exact h
  · trivial

/-- The second of three appends fails in its payload, and the third one rolls over. -/
theorem appended_decoded_two :
    let cfg : FileWalConfig := ⟨1, 46, by decide⟩
    let old : List (List Entry) := []
    ∃ s, (fileWal cfg fun _ => noFiles).Reach (OnWholeFrames cfg) s ∧ (s.shards 0).state.current.seqno = 1 ∧
      (s.shards 0).frames.map (·.entry) = [⟨1, 7, .async, [5]⟩, ⟨3, 9, .async, [1, 2]⟩] ∧
      (∀ c p, s.calls c = .acked p → p ∈ (s.shards (shardFor cfg p.entry.entryId)).frames) ∧
      ∀ i, ((old.flatten ++ (s.shards i).frames.map (·.entry)).map fun e => Except.ok e.parsed).Sublist
        (decodeSegments (s.shards i).state.dir.segments) := by
  intro cfg old
  have hrun : (((fileWal cfg fun _ => noFiles).restrict (onWholeFrames cfg)).run [.fetchAdd 0 [5] .async,
      .append 0 (.stamp 7), .append 0 .lock, .append 0 (.roll .ok), .append 0 (.write (.ok 0 0)), .append 0 .wait,
      .fetchAdd 1 [6] .async, .append 1 (.stamp 8), .append 1 .lock, .append 1 (.roll .ok),
      .append 1 (.write (.payloadFailed 30 0)), .fetchAdd 2 [1, 2] .async, .append 2 (.stamp 9), .append 2 .lock,
      .append 2 (.roll .ok), .append 2 (.write (.ok 0 24)), .append 2 .wait]).map
      (fun s => decide ((s.shards 0).state.current.seqno = 1) &&
        decide ((s.shards 0).frames.map (·.entry) = [⟨1, 7, .async, [5]⟩, ⟨3, 9, .async, [1, 2]⟩])) = some true := by
    decide
  obtain ⟨s, hs, hp⟩ := Machine.exists_of_restrict (fun s a _ => onWholeFrames_of_check cfg s a) hrun
  rw [Bool.and_eq_true, decide_eq_true_eq, decide_eq_true_eq] at hp
  exact ⟨s, hs, hp.1, hp.2, appended_decoded cfg (fun _ => noFiles) (fun _ => old) (fun _ => rfl) (by simp [old]) s hs⟩

/-- A payload of 8 KiB is not buffered. The header before it is in the file when its write fails. The second append
returns `Ok`, and its frame is taken for the payload of the first one. -/
theorem failed_append_hides_frame :
    let cfg : FileWalConfig := ⟨1, 64 * 1024 * 1024, by decide⟩
    let e : Entry := ⟨2, 8, .async, [9]⟩
    ∃ s, (fileWal cfg fun _ => noFiles).Reachable s ∧ s.calls 1 = .acked ⟨e, 0, 22⟩ ∧
      .ok e.parsed ∉ decodeSegments (s.shards 0).state.dir.segments := by
  intro cfg e
  let bytes : List Byte := entryHeader ⟨1, 7, .async, List.replicate 8192 6⟩ ++ encodeEntry e
  have hrun : ((fileWal cfg fun _ => noFiles).run [.fetchAdd 0 (List.replicate 8192 6) .async, .append 0 (.stamp 7),
      .append 0 .lock, .append 0 (.roll .ok), .append 0 (.write (.payloadFailed 0 22)), .fetchAdd 1 [9] .async,
      .append 1 (.stamp 8), .append 1 .lock, .append 1 (.roll .ok), .append 1 (.write (.ok 0 0)), .append 1 .wait]).map
      (fun s => decide ((s.calls 1).returned = some ⟨e, 0, 22⟩) &&
        decide ((s.shards 0).state.dir.segments = [⟨0, bytes, 0⟩])) = some true := by decide +kernel
  obtain ⟨s, hs, hp⟩ := Machine.exists_of_run hrun
  rw [Bool.and_eq_true, decide_eq_true_eq, decide_eq_true_eq] at hp
  have hstop : frameHead bytes = .stop := by
    rw [frameHead_eq_stop_iff]
    exact Or.inr (by decide +kernel)
  refine ⟨s, hs, returned_eq_some hp.1, ?_⟩
  rw [hp.2, decodeSegments, List.flatMap_cons, tryParseFrames_unfold, hstop]
  simp

end Riftgate.FileWal
