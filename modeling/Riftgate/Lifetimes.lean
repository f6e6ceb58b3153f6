import Riftgate.Durable

/-!
# Entry ids over the lifetimes of a WAL

`open` starts the counter at 1 each time, and the files of the last lifetime are still there. So
ids are unique as long as only one lifetime writes.
-/

open Lib

namespace Riftgate.FileWal

open Riftgate.Frame

/-! ## Frames stay in their files -/

/-- The directory has the file of the frame, and the frame is in it. -/
def InDir (dir : ShardDir) (p : Placed) : Prop := ∃ f ∈ dir.segments, f.seqno = p.seqno ∧ FrameAt f.bytes p

theorem InDir.grow {st st' : ShardState} {p : Placed} (h : InDir st.dir p) (hst : st.stream <+: st'.stream)
    (hc : st'.closed = st.closed) (hseq : st'.current.seqno = st.current.seqno) : InDir st'.dir p := by
  obtain ⟨f, hf, hfseq, hat⟩ := h
  simp only [ShardState.dir, ShardState.segments, List.mem_append, List.mem_singleton] at hf
  rcases hf with hf | rfl
  · have hf : f ∈ st'.closed := hc ▸ hf
    exact ⟨f, List.mem_append_left _ hf, hfseq, hat⟩
  · refine ⟨st'.flush.current, by simp [ShardState.dir, ShardState.segments], hseq.trans hfseq, ?_⟩
    refine FrameAt.mono ?_ hat
    simpa [ShardState.flush, ShardState.drain, ShardState.stream] using hst

theorem inDir_nextSegment {st : ShardState} {p : Placed} (h : InDir st.dir p) :
    InDir st.flush.nextSegment.dir p := by
  obtain ⟨f, hf, hseq, hat⟩ := h
  refine ⟨f, ?_, hseq, hat⟩
  have hf : f ∈ st.flush.closed ++ [st.flush.current] := hf
  simp only [ShardState.dir, ShardState.segments]
  exact List.mem_append_left _ hf

theorem InDir.appends {max : Nat} {sh sh' : Shard} {call call' : Call} {m : Move} {p : Placed}
    (hs : sh.Appends max call m sh' call') (h : InDir sh.state.dir p) : InDir sh'.state.dir p := by
  cases hs with
  | quiet => exact h
  | rolled e hroll => exact inDir_nextSegment h
  | written e n k =>
    refine h.grow ?_ rfl rfl
    rw [Shard.write, writeFrame_stream]
    exact List.prefix_append _ _
  | drained n => exact h.grow (stream_drain_le _ n) rfl rfl
  | torn e io hf =>
    cases io with
    | ok n k => cases hf
    | headerFailed n => exact h.grow (writeAllFailed_stream _ _ n) rfl rfl
    | payloadFailed n k =>
      refine h.grow ?_ rfl rfl
      have hw : sh.state.stream <+: (sh.state.writeAll (entryHeader e) n).stream := by
        rw [writeAll_stream]
        exact List.prefix_append _ _
      exact hw.trans (writeAllFailed_stream _ _ k)
  | parked => exact h
  | acked => exact h

theorem InDir.flushes {sh sh' : Shard} {p : Placed} {m : FlusherMove} (hs : sh.Flushes m sh')
    (h : InDir sh.state.dir p) : InDir sh'.state.dir p := by
  cases hs with
  | choose hf => exact h
  | doFlush t io hf =>
    cases io with
    | ok =>
      refine h.grow ?_ rfl rfl
      simp [Shard.doFlush, ShardState.doFlush, ShardState.flush, ShardState.drain, ShardState.stream]
    | flushFailed n => exact h.grow (stream_drain_le _ n) rfl rfl
    | syncFailed => exact h.grow (stream_drain_le _ _) rfl rfl
  | publish t ok hf => cases ok <;> exact h

/-! ## What a step does to ids and frames -/

def Call.pending : Call → Option UInt64
  | .numbered id _ _ => some id
  | .stamped e | .locked e | .rolled e => some e.entryId
  | _ => none

theorem append_frames {max c : Nat} {sh sh' : Shard} {call call' : Call} {m : Move}
    (hs : sh.append max c call m = some (sh', call')) :
    (sh'.frames = sh.frames ∧ ∀ id, call'.pending = some id → call.pending = some id) ∨
      ∃ e n k, call = .rolled e ∧ m = .write (.ok n k) ∧ sh.write e (.ok n k) = (sh', call') := by
  cases takes_of_append hs with
  | write e n k => exact Or.inr ⟨e, n, k, rfl, rfl, rfl⟩
  | writeFailed e io h =>
    cases io with
    | ok n k => exact absurd rfl (h n k)
    | headerFailed n => exact Or.inl ⟨rfl, by simp [Call.pending]⟩
    | payloadFailed n k => exact Or.inl ⟨rfl, by simp [Call.pending]⟩
  | _ => exact Or.inl ⟨rfl, by simp [Call.pending]⟩

theorem flushes_frames {sh sh' : Shard} {m : FlusherMove} (hs : sh.Flushes m sh') : sh'.frames = sh.frames := by
  cases hs with
  | choose hf => rfl
  | doFlush t io hf => cases io <;> rfl
  | publish t ok hf => rfl

theorem flushCall_pending {cfg : FileWalConfig} {sh : Shard} {call call' : Call}
    (h : sh.flushCall cfg call = some call') : call'.pending = none := by
  obtain ⟨before, i, rfl⟩ | ⟨before, i, target, rfl⟩ | ⟨before, rfl⟩ := flushCall_cases h <;> rfl

/-- No frame is written and no id is drawn. -/
structure Wal.Quiet (w w' : Wal) : Prop where
  frames : ∀ i, (w'.shards i).frames = (w.shards i).frames
  next : w'.nextEntryId = w.nextEntryId
  pending : ∀ c id, (w'.calls c).pending = some id → (w.calls c).pending = some id

theorem quiet_setCall (w : Wal) (c : Nat) {call : Call} (h : call.pending = none) : w.Quiet (w.setCall c call) where
  frames _ := rfl
  next := rfl
  pending c' id hid := by
    simp only [Wal.setCall, Function.update_apply] at hid
    split at hid
    · rw [h] at hid
      cases hid
    · exact hid

theorem quiet_setShard (w : Wal) (i : Nat) {sh : Shard} (h : sh.frames = (w.shards i).frames) :
    w.Quiet (w.setShard i sh) where
  frames j := by
    simp only [Wal.setShard, Function.update_apply]
    split
    · rename_i hj
      rw [h, hj]
    · rfl
  next := rfl
  pending _ _ hid := hid

def Wal.write (cfg : FileWalConfig) (w : Wal) (c : Nat) (e : Entry) (n k : Nat) : Wal :=
  let r := (w.shards (shardFor cfg e.entryId)).write e (.ok n k)
  (w.setShard (shardFor cfg e.entryId) r.1).setCall c r.2

theorem step_ids {cfg : FileWalConfig} {w w' : Wal} {a : Label} (hs : w.step cfg a = some w') :
    w.Quiet w' ∨
    (∃ c payload durability, a = .fetchAdd c payload durability ∧
      w' = { w with nextEntryId := w.nextEntryId + 1 }.setCall c (.numbered w.nextEntryId payload durability)) ∨
    ∃ c n k e, a = .append c (.write (.ok n k)) ∧ w.calls c = .rolled e ∧
      w' = w.write cfg c e n k := by
  cases steps_of_step hs with
  | fetchAdd c payload durability _ => exact Or.inr (Or.inl ⟨c, payload, durability, rfl, rfl⟩)
  | append c m hid hr =>
    rcases append_frames hr with ⟨hf, hp⟩ | ⟨e, n, k, hcall, rfl, hwrite⟩
    · refine Or.inl ⟨fun i => (quiet_setShard w _ hf).frames i, rfl, fun c' id' hid' => ?_⟩
      simp only [Wal.setCall, Wal.setShard, Function.update_apply] at hid'
      split at hid'
      · rename_i hc
        rw [hc]
        exact hp id' hid'
      · exact hid'
    · rw [hcall, Call.id, Option.some.injEq] at hid
      subst hid
      refine Or.inr (Or.inr ⟨c, n, k, e, rfl, hcall, ?_⟩)
      rw [Wal.write, hwrite]
  | flush c _ => exact Or.inl (quiet_setCall w c rfl)
  | flushLook c _ hf => exact Or.inl (quiet_setCall w c (flushCall_pending hf))
  | flushWait c _ hf => exact Or.inl (quiet_setCall w c (flushCall_pending hf))
  | flusher i m _ hf => exact Or.inl (quiet_setShard w i (flushes_frames hf))
  | shutdown i _ => exact Or.inl (quiet_setShard w i rfl)

/-! ## One lifetime -/

/-- The invariant of the counter, as long as it has not wrapped around: an id that was drawn is
below it, and belongs to one call or to one frame. -/
structure Numbered (cfg : FileWalConfig) (w : Wal) : Prop where
  calls : ∀ c c' id, (w.calls c).pending = some id → (w.calls c').pending = some id → c = c'
  fresh : ∀ c id i, (w.calls c).pending = some id → ∀ p ∈ (w.shards i).frames, p.entry.entryId ≠ id
  nodup : ∀ i, ((w.shards i).frames.map (·.entry.entryId)).Nodup
  place : ∀ i, ∀ p ∈ (w.shards i).frames, shardFor cfg p.entry.entryId = i
  pendingBelow : ∀ c id, (w.calls c).pending = some id → w.nextEntryId = 0 ∨ id < w.nextEntryId
  framesBelow : ∀ i, ∀ p ∈ (w.shards i).frames, w.nextEntryId = 0 ∨ p.entry.entryId < w.nextEntryId

theorem numbered_open (cfg : FileWalConfig) (dirs : Nat → ShardDir) : Numbered cfg (openWal dirs) := by
  constructor <;> simp [openWal, Call.pending]

theorem Numbered.quiet {cfg : FileWalConfig} {w w' : Wal} (h : Numbered cfg w) (hq : w.Quiet w') :
    Numbered cfg w' where
  calls c c' id hc hc' := h.calls c c' id (hq.pending c id hc) (hq.pending c' id hc')
  fresh c id i hc := hq.frames i ▸ h.fresh c id i (hq.pending c id hc)
  nodup i := hq.frames i ▸ h.nodup i
  place i := hq.frames i ▸ h.place i
  pendingBelow c id hc := hq.next ▸ h.pendingBelow c id (hq.pending c id hc)
  framesBelow i := hq.frames i ▸ hq.next ▸ h.framesBelow i

theorem below_next {id next : UInt64} (h : id ≤ next) : next + 1 = 0 ∨ id < next + 1 := by
  have hle := UInt64.le_iff_toNat_le.mp h
  have hlt := next.toNat_lt
  rw [UInt64.lt_iff_toNat_lt, ← UInt64.toNat_inj, UInt64.toNat_add]
  simp only [UInt64.toNat_one, UInt64.toNat_zero]
  omega

theorem Numbered.fetchAdd {cfg : FileWalConfig} {w : Wal} (h : Numbered cfg w) (hn : w.nextEntryId ≠ 0)
    (c : Nat) (payload : List Byte) (durability : Durability) :
    Numbered cfg
      ({ w with nextEntryId := w.nextEntryId + 1 }.setCall c (.numbered w.nextEntryId payload durability)) := by
  have hpend : ∀ d id, (w.calls d).pending = some id → id < w.nextEntryId := by
    intro d id hd
    exact (h.pendingBelow d id hd).resolve_left hn
  have hframe : ∀ i, ∀ p ∈ (w.shards i).frames, p.entry.entryId < w.nextEntryId := by
    intro i p hp
    exact (h.framesBelow i p hp).resolve_left hn
  constructor
  · intro d d' id hd hd'
    simp only [Wal.setCall, Function.update_apply] at hd hd'
    split at hd <;> split at hd'
    · rename_i h1 h2
      rw [h1, h2]
    · simp only [Call.pending, Option.some.injEq] at hd
      exact absurd (hd ▸ hpend d' id hd') (UInt64.lt_irrefl _)
    · simp only [Call.pending, Option.some.injEq] at hd'
      exact absurd (hd' ▸ hpend d id hd) (UInt64.lt_irrefl _)
    · exact h.calls d d' id hd hd'
  · intro d id i hd p hp
    simp only [Wal.setCall, Function.update_apply] at hd
    split at hd
    · simp only [Call.pending, Option.some.injEq] at hd
      exact hd ▸ UInt64.ne_of_lt (hframe i p hp)
    · exact h.fresh d id i hd p hp
  · exact h.nodup
  · exact h.place
  · intro d id hd
    simp only [Wal.setCall, Function.update_apply] at hd
    split at hd
    · simp only [Call.pending, Option.some.injEq] at hd
      exact below_next (UInt64.le_of_eq hd.symm)
    · exact below_next (UInt64.le_of_lt (hpend d id hd))
  · intro i p hp
    exact below_next (UInt64.le_of_lt (hframe i p hp))

theorem mem_write {cfg : FileWalConfig} {w : Wal} {c : Nat} {e : Entry} {n k i : Nat} {p : Placed} :
    p ∈ ((w.write cfg c e n k).shards i).frames ↔ p ∈ (w.shards i).frames ∨
      (i = shardFor cfg e.entryId ∧ p = ⟨e, (w.shards (shardFor cfg e.entryId)).state.current.seqno,
        (w.shards (shardFor cfg e.entryId)).state.offset⟩) := by
  simp only [Wal.write, Wal.setCall, Wal.setShard, Function.update_apply, Shard.write]
  split
  · rename_i hi
    simp [hi]
  · rename_i hi
    simp [hi]

theorem Numbered.write {cfg : FileWalConfig} {w : Wal} (h : Numbered cfg w) {c : Nat} {e : Entry}
    (hcall : w.calls c = .rolled e) (n k : Nat) : Numbered cfg (w.write cfg c e n k) := by
  have hid : (w.calls c).pending = some e.entryId := by rw [hcall]; rfl
  -- Only call `c` had this id, and it has written its frame now.
  have hold : ∀ d id, ((w.write cfg c e n k).calls d).pending = some id →
      d ≠ c ∧ (w.calls d).pending = some id := by
    intro d id hd
    simp only [Wal.write, Wal.setCall, Wal.setShard, Function.update_apply] at hd
    split at hd
    · cases hd
    · exact ⟨by assumption, hd⟩
  constructor
  · intro d d' id hd hd'
    exact h.calls d d' id (hold d id hd).2 (hold d' id hd').2
  · intro d id i hd p hp
    obtain ⟨hdc, hd'⟩ := hold d id hd
    rcases mem_write.mp hp with hp | ⟨-, rfl⟩
    · exact h.fresh d id i hd' p hp
    · rintro rfl
      exact hdc (h.calls d c _ hd' hid)
  · intro i
    simp only [Wal.write, Wal.setCall, Wal.setShard, Function.update_apply]
    split
    · rw [Shard.write, List.map_append, List.nodup_append]
      refine ⟨h.nodup _, by simp, ?_⟩
      intro a ha b hb
      obtain ⟨p, hp, rfl⟩ := List.mem_map.mp ha
      simp only [List.map_cons, List.map_nil, List.mem_singleton] at hb
      rw [hb]
      exact h.fresh c _ _ hid p hp
    · exact h.nodup i
  · intro i p hp
    rcases mem_write.mp hp with hp | ⟨rfl, rfl⟩
    · exact h.place i p hp
    · rfl
  · intro d id hd
    exact h.pendingBelow d id (hold d id hd).2
  · intro i p hp
    rcases mem_write.mp hp with hp | ⟨-, rfl⟩
    · exact h.framesBelow i p hp
    · exact h.pendingBelow c _ hid

/-! ## All lifetimes -/

def Root.written (s : Root) (i : Nat) : List Placed := s.wal.elim [] fun w => (w.2.shards i).frames

def Root.dir (s : Root) (i : Nat) : ShardDir := s.wal.elim (s.dirs i) fun w => (w.2.shards i).state.dir

def Root.stored (s : Root) (i : Nat) : List Placed := s.frames i ++ s.written i

/-- No two frames under the root directory have the same id, and each frame of this lifetime has
a larger one than each frame that was there when it was opened. -/
structure UniqueIds (s : Root) : Prop where
  nodup : ∀ i, ((s.stored i).map (·.entry.entryId)).Nodup
  apart : ∀ i j, i ≠ j → ∀ p ∈ s.stored i, ∀ q ∈ s.stored j, p.entry.entryId ≠ q.entry.entryId
  later : ∀ i j, ∀ p ∈ s.frames i, ∀ q ∈ s.written j, p.entry.entryId < q.entry.entryId

/-- An id is drawn only while the counter has not wrapped around, and a frame is written only in a
lifetime that found no frame when it was opened. -/
def FreshStart (s : Root) : RootLabel → Prop
  | .wal (.fetchAdd _ _ _) => ∀ w, s.wal = some w → w.2.nextEntryId ≠ 0
  | .wal (.append _ (.write (.ok _ _))) => ∀ i, s.frames i = []
  | _ => True

/-- The invariant: ids from before are unique, those of this lifetime are numbered, and not both
have frames. -/
structure Fresh (s : Root) : Prop where
  nodup : ∀ i, ((s.frames i).map (·.entry.entryId)).Nodup
  apart : ∀ i j, i ≠ j → ∀ p ∈ s.frames i, ∀ q ∈ s.frames j, p.entry.entryId ≠ q.entry.entryId
  numbered : ∀ w, s.wal = some w → Numbered w.1 w.2
  once : (∀ i, s.frames i = []) ∨ ∀ i, s.written i = []

theorem Fresh.uniqueIds {s : Root} (h : Fresh s) : UniqueIds s := by
  rcases h.once with hold | hnew
  · cases hw : s.wal with
    | none => constructor <;> simp [Root.stored, Root.written, hold, hw]
    | some w =>
      have hn := h.numbered w hw
      have hs : ∀ i, s.stored i = (w.2.shards i).frames := by
        intro i
        simp [Root.stored, Root.written, hold, hw]
      refine ⟨fun i => hs i ▸ hn.nodup i, fun i j hij p hp q hq heq => hij ?_, by simp [hold]⟩
      rw [hs] at hp hq
      rw [← hn.place i p hp, ← hn.place j q hq, heq]
  · have hs : ∀ i, s.stored i = s.frames i := by
      intro i
      rw [Root.stored, hnew, List.append_nil]
    refine ⟨fun i => hs i ▸ h.nodup i, fun i j hij => ?_, by simp [hnew]⟩
    rw [hs, hs]
    exact h.apart i j hij

theorem fresh_step {s s' : Root} {a : RootLabel} (h : Fresh s) (hc : FreshStart s a) (hs : s.step a = some s') :
    Fresh s' := by
  cases a with
  | «open» cfg =>
    simp only [Root.step] at hs
    split at hs
    · cases hs
      refine ⟨h.nodup, h.apart, ?_, Or.inr (fun _ => rfl)⟩
      rintro w hw
      cases hw
      exact numbered_open cfg s.dirs
    · cases hs
  | wal a =>
    simp only [Root.step] at hs
    split at hs
    · cases hs
    · rename_i cfg w hw
      obtain ⟨w', hstep, rfl⟩ := Option.map_eq_some_iff.mp hs
      have hn := h.numbered _ hw
      have hkeep : Numbered cfg w' ∧ ((∀ i, s.frames i = []) ∨ ∀ i, (w'.shards i).frames = []) := by
        rcases step_ids hstep with hq | ⟨c, payload, durability, rfl, rfl⟩ | ⟨c, n, k, e, rfl, hcall, rfl⟩
        · refine ⟨hn.quiet hq, h.once.imp_right fun hnew i => ?_⟩
          have := hnew i
          rw [Root.written, hw] at this
          rw [hq.frames]
          exact this
        · refine ⟨hn.fetchAdd (hc _ hw) c payload durability, h.once.imp_right fun hnew i => ?_⟩
          have := hnew i
          rw [Root.written, hw] at this
          exact this
        · exact ⟨hn.write hcall n k, Or.inl hc⟩
      refine ⟨h.nodup, h.apart, ?_, hkeep.2⟩
      rintro v hv
      cases hv
      exact hkeep.1
  | close =>
    simp only [Root.step] at hs
    split at hs
    · cases hs
    · rename_i cfg w hw
      cases hs
      have hu := h.uniqueIds
      have hst : ∀ i, (s.close cfg w).frames i = s.stored i := by
        intro i
        rw [Root.stored, Root.written, hw]
        rfl
      refine ⟨fun i => ?_, fun i j hij => ?_, by simp [Root.close], Or.inr (fun _ => rfl)⟩
      · rw [hst]
        exact hu.nodup i
      · rw [hst, hst]
        exact hu.apart i j hij

theorem fresh_reach {s : Root} (hs : lifetimes.Reach FreshStart s) : Fresh s := by
  apply Machine.Reach.invariant _ _ hs
  · constructor <;> simp [lifetimes]
  · intro s a s' _ h hc hstep
    exact fresh_step h hc hstep

/-! ## The frames are in the files -/

theorem inDir_step {cfg : FileWalConfig} {w w' : Wal} {a : Label} (hs : w.step cfg a = some w') {i : Nat}
    {p : Placed} (h : InDir (w.shards i).state.dir p) : InDir (w'.shards i).state.dir p := by
  have hset : ∀ j sh, (InDir (w.shards j).state.dir p → InDir sh.state.dir p) →
      InDir ((w.setShard j sh).shards i).state.dir p := by
    intro j sh hsh
    simp only [Wal.setShard, Function.update_apply]
    split
    · rename_i hij
      exact hsh (hij ▸ h)
    · exact h
  cases steps_of_step hs with
  | append c m hid hr => exact hset _ _ fun h => h.appends (appends_of_append hr)
  | flusher j m _ hf => exact hset j _ fun h => h.flushes hf
  | shutdown j _ => exact hset j _ fun h => h
  | _ => exact h

theorem inDir_write (sh : Shard) (e : Entry) (n k : Nat) :
    InDir (sh.write e (.ok n k)).1.state.dir ⟨e, sh.state.current.seqno, sh.state.offset⟩ := by
  refine ⟨(sh.state.writeFrame e n k).flush.current, ?_, rfl, ?_⟩
  · simp [Shard.write, ShardState.dir, ShardState.segments]
  · have hst : (sh.state.writeFrame e n k).flush.current.bytes = sh.state.stream ++ encodeEntry e := by
      rw [← writeFrame_stream sh.state e n k]
      simp [ShardState.flush, ShardState.drain, ShardState.stream]
    have hoff : sh.state.offset = sh.state.stream.length := by simp [ShardState.offset, ShardState.stream]
    rw [hst, hoff]
    exact frameAt_append _ _ _

theorem inDir_open {dir : ShardDir} {p : Placed} (h : InDir dir p) : InDir (openShard dir).dir p := by
  obtain ⟨f, hf, hseq, hat⟩ := h
  refine ⟨f, ?_, hseq, hat⟩
  have hfiles := openShard_segments dir
  rw [ShardDir.files, if_neg (List.ne_nil_of_mem hf)] at hfiles
  have hdir : (openShard dir).dir.segments = (openShard dir).segments := by
    simp [ShardState.dir, ShardState.flush, ShardState.drain, ShardState.segments, openShard]
  rw [hdir, hfiles]
  exact hf

/-- The invariant of the files. It needs no condition on the run. -/
structure Kept (s : Root) : Prop where
  dirs : ∀ i, ∀ p ∈ s.frames i, InDir (s.dirs i) p
  dir : ∀ i, ∀ p ∈ s.stored i, InDir (s.dir i) p
  place : ∀ w, s.wal = some w → ∀ i, ∀ p ∈ (w.2.shards i).frames, shardFor w.1 p.entry.entryId = i

theorem kept_wal {s : Root} {cfg : FileWalConfig} {w w' : Wal} {a : Label} (h : Kept s)
    (hw : s.wal = some (cfg, w)) (hs : w.step cfg a = some w') : Kept { s with wal := some (cfg, w') } := by
  have hdir : ∀ i, ∀ p ∈ s.frames i ++ (w.shards i).frames, InDir (w'.shards i).state.dir p := by
    intro i p hp
    have := h.dir i p (by rw [Root.stored, Root.written, hw]; exact hp)
    rw [Root.dir, hw] at this
    exact inDir_step hs this
  have hplace := h.place _ hw
  rcases step_ids hs with hq | ⟨c, payload, durability, rfl, rfl⟩ | ⟨c, n, k, e, rfl, hcall, rfl⟩
  · refine ⟨h.dirs, fun i p hp => hdir i p ?_, ?_⟩
    · rw [← hq.frames]
      exact hp
    · rintro v hv i p hp
      cases hv
      exact hplace i p (hq.frames i ▸ hp)
  · refine ⟨h.dirs, fun i p hp => hdir i p hp, ?_⟩
    rintro v hv i p hp
    cases hv
    exact hplace i p hp
  · refine ⟨h.dirs, fun i p hp => ?_, ?_⟩
    · rw [Root.stored, List.mem_append] at hp
      rcases hp with hp | hp
      · exact hdir i p (List.mem_append_left _ hp)
      · rcases mem_write.mp hp with hp | ⟨rfl, rfl⟩
        · exact hdir i p (List.mem_append_right _ hp)
        · simp only [Root.dir, Option.elim, Wal.write, Wal.setCall, Wal.setShard, Function.update_self]
          exact inDir_write _ e n k
    · rintro v hv i p hp
      cases hv
      rcases mem_write.mp hp with hp | ⟨rfl, rfl⟩
      · exact hplace i p hp
      · rfl

theorem kept_step {s s' : Root} {a : RootLabel} (h : Kept s) (hs : s.step a = some s') : Kept s' := by
  cases a with
  | «open» cfg =>
    simp only [Root.step] at hs
    split at hs
    · cases hs
      refine ⟨h.dirs, fun i p hp => ?_, ?_⟩
      · simp only [Root.stored, Root.written, Option.elim, openWal, List.append_nil] at hp
        exact inDir_open (h.dirs i p hp)
      · rintro w hw i p hp
        cases hw
        cases hp
    · cases hs
  | wal a =>
    simp only [Root.step] at hs
    split at hs
    · cases hs
    · rename_i cfg w hw
      obtain ⟨w', hstep, rfl⟩ := Option.map_eq_some_iff.mp hs
      exact kept_wal h hw hstep
  | close =>
    simp only [Root.step] at hs
    split at hs
    · cases hs
    · rename_i cfg w hw
      cases hs
      have hdirs : ∀ i, ∀ p ∈ (s.close cfg w).frames i, InDir ((s.close cfg w).dirs i) p := by
        intro i p hp
        simp only [Root.close] at hp ⊢
        split
        · have := h.dir i p (by rw [Root.stored, Root.written, hw]; exact hp)
          rw [Root.dir, hw] at this
          exact this
        · rename_i hi
          rw [List.mem_append] at hp
          rcases hp with hp | hp
          · exact h.dirs i p hp
          · have hpl := h.place _ hw i p hp
            have := Nat.mod_lt p.entry.entryId.toNat cfg.shards_pos
            exact absurd (hpl ▸ this) hi
      refine ⟨hdirs, fun i p hp => hdirs i p ?_, by simp [Root.close]⟩
      simpa [Root.stored, Root.written, Root.close] using hp

theorem kept_reachable {s : Root} (hs : lifetimes.Reachable s) : Kept s := by
  apply Machine.Reachable.invariant _ _ hs
  · constructor <;> simp [lifetimes, Root.stored, Root.written]
  · intro s a s' h hstep
    exact kept_step h hstep

/-- **Ids are unique when one lifetime writes.** All frames that were ever written are in the
files of the root directory. In each state of each run in which only a lifetime on an empty
directory writes frames, and draws fewer than 2^64 ids, no two of them have the same id, and
frames written after the last `open` have larger ids than those from before. -/
theorem stored_uniqueIds (s : Root) (hs : lifetimes.Reach FreshStart s) :
    UniqueIds s ∧ ∀ i, ∀ p ∈ s.stored i, InDir (s.dir i) p :=
  ⟨(fresh_reach hs).uniqueIds, (kept_reachable (hs.mono fun _ _ _ => trivial)).dir⟩

/-- A check that is enough for a fresh start: the first lifetime does not end. -/
def firstLifetime (s : Root) : RootLabel → Bool
  | .wal (.fetchAdd _ _ _) => s.wal.all fun w => w.2.nextEntryId ≠ 0
  | .close => false
  | _ => true

theorem frames_firstLifetime {s : Root} (hs : (lifetimes.restrict firstLifetime).Reachable s) :
    ∀ i, s.frames i = [] := by
  apply Machine.Reachable.invariant _ _ hs
  · intro i
    rfl
  · intro s a s' h hstep i
    simp only [Machine.restrict] at hstep
    split at hstep
    · simp only [lifetimes, Root.step] at hstep
      split at hstep
      · split at hstep <;> cases hstep
        exact h i
      · split at hstep
        · cases hstep
        · obtain ⟨w', -, rfl⟩ := Option.map_eq_some_iff.mp hstep
          exact h i
      · simp_all [firstLifetime]
    · cases hstep

theorem freshStart_firstLifetime (s : Root) (a : RootLabel) (hs : (lifetimes.restrict firstLifetime).Reachable s)
    (h : firstLifetime s a = true) : FreshStart s a := by
  unfold FreshStart
  split
  · intro w hw
    simpa [firstLifetime, hw] using h
  · exact frames_firstLifetime hs
  · trivial

theorem stored_uniqueIds_two :
    ∃ s, lifetimes.Reach FreshStart s ∧ (s.stored 0).map (·.entry.entryId) = [1, 2] ∧
      UniqueIds s ∧ ∀ i, ∀ p ∈ s.stored i, InDir (s.dir i) p := by
  have hrun : ((lifetimes.restrict firstLifetime).run
      [.open ⟨1, 1024, by decide⟩, .wal (.fetchAdd 0 [4] .async), .wal (.append 0 (.stamp 5)),
      .wal (.append 0 .lock), .wal (.append 0 (.roll .ok)), .wal (.append 0 (.write (.ok 0 0))),
      .wal (.append 0 .wait), .wal (.fetchAdd 1 [] .async), .wal (.append 1 (.stamp 6)),
      .wal (.append 1 .lock), .wal (.append 1 (.roll .ok)), .wal (.append 1 (.write (.ok 0 0)))]).map
      (fun s => decide ((s.stored 0).map (·.entry.entryId) = [1, 2])) = some true := by decide
  obtain ⟨s, hs, hp⟩ := Machine.exists_of_restrict freshStart_firstLifetime hrun
  exact ⟨s, hs, of_decide_eq_true hp, stored_uniqueIds s hs⟩

/-- Two lifetimes, and one entry in each. Both entries get id 1. -/
theorem lifetimes_repeat_id :
    let old : Entry := ⟨1, 5, .async, []⟩
    let new : Entry := ⟨1, 6, .async, []⟩
    ∃ s, lifetimes.Reachable s ∧ s.wal.isNone ∧ s.stored 0 = [⟨old, 0, 0⟩, ⟨new, 0, 22⟩] ∧
      (s.dirs 0).segments = [⟨0, encodeEntry old ++ encodeEntry new, 0⟩] ∧ ¬ UniqueIds s := by
  intro old new
  let cfg : FileWalConfig := ⟨1, 1024, by decide⟩
  let life (nanos : UInt64) : List RootLabel :=
    [.open cfg, .wal (.fetchAdd 0 [] .async), .wal (.append 0 (.stamp nanos)), .wal (.append 0 .lock),
    .wal (.append 0 (.roll .ok)), .wal (.append 0 (.write (.ok 0 0))), .wal (.append 0 .wait), .close]
  have hrun : (lifetimes.run (life 5 ++ life 6)).map
      (fun s => s.wal.isNone && decide (s.stored 0 = [⟨old, 0, 0⟩, ⟨new, 0, 22⟩]) &&
        decide ((s.dirs 0).segments = [⟨0, encodeEntry old ++ encodeEntry new, 0⟩])) = some true := by decide
  obtain ⟨s, hs, hp⟩ := Machine.exists_of_run hrun
  rw [Bool.and_eq_true, Bool.and_eq_true, decide_eq_true_eq, decide_eq_true_eq] at hp
  obtain ⟨⟨hw, hstored⟩, hfile⟩ := hp
  refine ⟨s, hs, hw, hstored, hfile, fun hu => ?_⟩
  have hn := hu.nodup 0
  rw [hstored] at hn
  revert hn
  decide

end Riftgate.FileWal
