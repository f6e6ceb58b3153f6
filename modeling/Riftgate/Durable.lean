import Riftgate.Code.FileWalThreads
import Riftgate.Reopen

/-!
# An acknowledged frame is durable

`append` waits until `last_durable` is not below its id. That says that some frame was synced
which has this id or a larger one. It is the frame of the call itself only if no larger id was
ahead of it, and if the segment did not change under it.
-/

open Lib

namespace Riftgate.FileWal

open Riftgate.Frame

/-! ## Files only grow -/

def FrameAt (bytes : List Byte) (p : Placed) : Prop := encodeEntry p.entry <+: bytes.drop p.offset

instance (bytes : List Byte) (p : Placed) : Decidable (FrameAt bytes p) :=
  inferInstanceAs (Decidable (_ <+: _))

def Placed.stop (p : Placed) : Nat := p.offset + (encodeEntry p.entry).length

/-- The file of the frame holds all of its bytes, and was synced after the last of them. -/
def OnDisk (st : ShardState) (p : Placed) : Prop :=
  ∃ f ∈ st.segments, f.seqno = p.seqno ∧ FrameAt f.bytes p ∧ p.stop ≤ f.synced

instance (st : ShardState) (p : Placed) : Decidable (OnDisk st p) :=
  inferInstanceAs (Decidable (∃ f ∈ st.segments, _))

theorem FrameAt.mono {b b' : List Byte} {p : Placed} (hb : b <+: b') (h : FrameAt b p) : FrameAt b' p := by
  obtain ⟨c, rfl⟩ := hb
  unfold FrameAt at h ⊢
  rw [List.drop_append]
  exact h.trans ( List.prefix_append _ _)

theorem FrameAt.stop_le {b : List Byte} {p : Placed} (h : FrameAt b p) : p.stop ≤ b.length := by
  have hlen := h.length_le
  have hpos : 0 < (encodeEntry p.entry).length := by simp [encodeEntry, header]
  rw [List.length_drop] at hlen
  unfold Placed.stop
  omega

theorem frameAt_append (b : List Byte) (e : Entry) (seqno : Nat) :
    FrameAt (b ++ encodeEntry e) ⟨e, seqno, b.length⟩ := by
  simp [FrameAt]

def Segment.Grows (f g : Segment) : Prop :=
  g.seqno = f.seqno ∧ f.bytes <+: g.bytes ∧ (f.synced ≤ g.synced ∨ g.synced = g.bytes.length)

theorem Segment.Grows.refl (f : Segment) : f.Grows f := ⟨rfl, List.prefix_rfl, Or.inl le_rfl⟩

def ShardState.Grows (st st' : ShardState) : Prop := ∀ f ∈ st.segments, ∃ g ∈ st'.segments, f.Grows g

theorem OnDisk.mono {st st' : ShardState} {p : Placed} (hg : st.Grows st') (h : OnDisk st p) : OnDisk st' p := by
  obtain ⟨f, hf, hseq, hat, hsync⟩ := h
  obtain ⟨g, hgm, hgseq, hbytes, hs⟩ := hg f hf
  have hat' := hat.mono hbytes
  refine ⟨g, hgm, hgseq.trans hseq, hat', ?_⟩
  rcases hs with hs | hs
  · exact hsync.trans hs
  · rw [hs]
    exact hat'.stop_le

theorem grows_of_current {st st' : ShardState} (hc : st'.closed = st.closed)
    (hg : st.current.Grows st'.current) : st.Grows st' := by
  intro f hf
  unfold ShardState.segments at hf ⊢
  rw [List.mem_append, List.mem_singleton] at hf
  rcases hf with hf | rfl
  · exact ⟨f, by simp [hc, hf], .refl f⟩
  · exact ⟨st'.current, by simp, hg⟩

theorem drain_grows (st : ShardState) (n : Nat) : st.Grows (st.drain n) := by
  apply grows_of_current
  · rfl
  · exact ⟨rfl, List.prefix_append _ _, Or.inl le_rfl⟩

theorem writeAll_grows (st : ShardState) (data : List Byte) (n : Nat) : st.Grows (st.writeAll data n) := by
  apply grows_of_current
  · rfl
  · exact ⟨rfl, List.prefix_append _ _, Or.inl le_rfl⟩

theorem writeAllFailed_grows (st : ShardState) (data : List Byte) (n : Nat) :
    st.Grows (st.writeAllFailed data n) := by
  apply grows_of_current
  · rfl
  · exact ⟨rfl, List.prefix_append _ _, Or.inl le_rfl⟩

theorem writeFrame_grows (st : ShardState) (e : Entry) (n m : Nat) : st.Grows (st.writeFrame e n m) := by
  apply grows_of_current
  · rfl
  · exact ⟨rfl, ( List.prefix_append _ _).trans ( List.prefix_append _ _), Or.inl le_rfl⟩

theorem doFlush_grows (st : ShardState) : st.Grows st.doFlush := by
  apply grows_of_current
  · rfl
  · exact ⟨rfl, List.prefix_append _ _, Or.inr rfl⟩

theorem nextSegment_grows (st : ShardState) : st.flush.Grows st.flush.nextSegment := by
  intro f hf
  refine ⟨f, ?_, .refl f⟩
  unfold ShardState.segments at hf
  simp only [ShardState.segments, ShardState.nextSegment]
  exact List.mem_append_left _ hf

theorem stream_drain_le (st : ShardState) (n : Nat) : st.stream <+: (st.drain n).stream := by
  have hsame := drain_stream st n
  exact hsame.symm ▸ List.prefix_rfl

theorem writeAllFailed_stream (st : ShardState) (data : List Byte) (n : Nat) :
    st.stream <+: (st.writeAllFailed data n).stream := by
  unfold ShardState.stream ShardState.writeAllFailed
  simp only [List.take_append, List.append_assoc, List.prefix_append_right_inj]
  rcases Nat.le_total n st.buf.length with h | h
  · simp [Nat.sub_eq_zero_of_le h]
  · simp [List.take_of_length_le h]

/-! ## What is known of a frame while its call waits -/

/-- The flusher has synced this id or a larger one, and will not do it again. -/
def Covered (sh : Shard) (id : UInt64) : Prop :=
  behind sh.state.lastDurable id = false ∨ ∃ t, sh.flusher = .flushed t true ∧ id ≤ t

/-- Either the frame is on disk, or it is in the current segment and its call will not return
before the next sync. -/
def Tracked (sh : Shard) (p : Placed) : Prop :=
  OnDisk sh.state p ∨
    (p.seqno = sh.state.current.seqno ∧ FrameAt sh.state.stream p ∧ ¬ Covered sh p.entry.entryId)

theorem Tracked.onDisk {sh : Shard} {p : Placed} (h : Tracked sh p) (hc : Covered sh p.entry.entryId) :
    OnDisk sh.state p := by
  rcases h with h | ⟨-, -, h⟩
  · exact h
  · exact absurd hc h

theorem Tracked.mono {sh sh' : Shard} {p : Placed} (hg : sh.state.Grows sh'.state)
    (hseq : sh'.state.current.seqno = sh.state.current.seqno) (hst : sh.state.stream <+: sh'.state.stream)
    (hcov : ∀ id, Covered sh' id → Covered sh id) (h : Tracked sh p) : Tracked sh' p := by
  rcases h with h | ⟨h, hat, hc⟩
  · exact Or.inl (h.mono hg)
  · exact Or.inr ⟨h.trans hseq.symm, hat.mono hst, fun hc' => hc (hcov _ hc')⟩

theorem Tracked.drain {sh : Shard} {p : Placed} (n : Nat) (l : Option Nat) (h : Tracked sh p) :
    Tracked { sh with state := sh.state.drain n, lock := l } p := by
  exact h.mono (drain_grows _ n) rfl (stream_drain_le _ n) (fun id hc => hc)

theorem Tracked.writeAll {sh : Shard} {p : Placed} (data : List Byte) (n : Nat) (h : Tracked sh p) :
    Tracked { sh with state := sh.state.writeAll data n } p := by
  refine h.mono (writeAll_grows _ _ n) rfl ?_ (fun id hc => hc)
  rw [writeAll_stream]
  exact List.prefix_append _ _

theorem Tracked.writeAllFailed {sh : Shard} {p : Placed} (data : List Byte) (n : Nat) (l : Option Nat)
    (h : Tracked sh p) : Tracked { sh with state := sh.state.writeAllFailed data n, lock := l } p := by
  exact h.mono (writeAllFailed_grows _ _ n) rfl (writeAllFailed_stream _ _ n) (fun id hc => hc)

theorem Tracked.synced {sh : Shard} {p : Placed} (h : Tracked sh p) : OnDisk sh.state.doFlush p := by
  rcases h with h | ⟨hseq, hat, -⟩
  · exact h.mono (doFlush_grows _)
  · have hat' : FrameAt (sh.state.doFlush.current.bytes) p := by
      simpa [ShardState.doFlush, ShardState.flush, ShardState.drain, ShardState.stream] using hat
    exact ⟨sh.state.doFlush.current, by simp [ShardState.segments], hseq.symm, hat', hat'.stop_le⟩

theorem Tracked.doFlush {sh : Shard} {p : Placed} (t : UInt64) (io : FlushIo) (h : Tracked sh p) :
    Tracked (sh.doFlush t io) p := by
  have hcov : ∀ st : ShardState, st.lastDurable = sh.state.lastDurable → ∀ id,
      Covered { sh with state := st, flusher := .flushed t false } id → Covered sh id := by
    intro st hst id hc
    rcases hc with hc | ⟨u, hu, -⟩
    · exact Or.inl (hst ▸ hc)
    · cases hu
  cases io with
  | ok => exact Or.inl h.synced
  | flushFailed n => exact h.mono (drain_grows _ n) rfl (stream_drain_le _ n) (hcov _ rfl)
  | syncFailed =>
    exact h.mono (drain_grows _ _) rfl (stream_drain_le _ _) (hcov _ rfl)

theorem Tracked.publish {sh : Shard} {p : Placed} (t : UInt64) (ok : Bool) (hf : sh.flusher = .flushed t ok)
    (h : Tracked sh p) : Tracked (sh.publish t ok) p := by
  have hg : sh.state.Grows (sh.publish t ok).state := by
    apply grows_of_current
    · cases ok <;> rfl
    · cases ok <;> exact .refl _
  refine h.mono hg (by cases ok <;> rfl) (by cases ok <;> exact List.prefix_rfl) ?_
  rintro id (hc | ⟨u, hu, -⟩)
  · cases ok with
    | false => exact Or.inl hc
    | true =>
      refine Or.inr ⟨t, hf, ?_⟩
      simpa [Shard.publish, behind] using hc
  · cases hu

theorem choose_flushed {sh : Shard} {t : UInt64} {ok : Bool} : sh.choose ≠ .flushed t ok := by
  unfold Shard.choose
  split
  · split
    · simp
    · split <;> simp
  · split <;> simp

/-- The three blocks of `flusher_loop`. Each of them needs the mutex. -/
inductive Shard.Flushes (sh : Shard) : FlusherMove → Shard → Prop where
  | choose (hf : sh.flusher = .top) : Flushes sh .choose { sh with flusher := sh.choose }
  | doFlush (t : UInt64) (io : FlushIo) (hf : sh.flusher = .chosen t) : Flushes sh (.doFlush io) (sh.doFlush t io)
  | publish (t : UInt64) (ok : Bool) (hf : sh.flusher = .flushed t ok) : Flushes sh .publish (sh.publish t ok)

theorem flushes_of_flusherLoop {sh sh' : Shard} {m : FlusherMove} (hs : sh.flusherLoop m = some sh') :
    sh.lock = none ∧ sh.Flushes m sh' := by
  unfold Shard.flusherLoop at hs
  split at hs
  · rename_i hl
    refine ⟨hl, ?_⟩
    split at hs
    · cases hs
      exact .choose (by assumption)
    · cases hs
      exact .doFlush _ _ (by assumption)
    · cases hs
      exact .publish _ _ (by assumption)
    · cases hs
  · cases hs

theorem Tracked.flushes {sh sh' : Shard} {p : Placed} {m : FlusherMove} (hs : sh.Flushes m sh') (h : Tracked sh p) :
    Tracked sh' p := by
  cases hs with
  | choose hf =>
    have hg : sh.state.Grows sh.state := fun f hf => ⟨f, hf, .refl f⟩
    refine Tracked.mono hg rfl List.prefix_rfl ?_ h
    rintro id (hc | ⟨u, hu, -⟩)
    · exact Or.inl hc
    · exact absurd hu choose_flushed
  | doFlush t io hf => exact h.doFlush t io
  | publish t ok hf => exact h.publish t ok hf

/-! ## The steps of append -/

def Waiting (call : Call) (p : Placed) : Prop := call = .written p ∨ call = .parked p

/-- The two things that must not happen. A segment is left while a frame in it waits and is not
on disk. Or a frame is written when the flusher has already covered its id. -/
def Shard.Orderly (max : Nat) (sh : Shard) (waiting : Placed → Prop) : Call → Move → Prop
  | .locked e, .roll .ok =>
    needsRollover max sh.state e.payload → ∀ p, waiting p → p.seqno = sh.state.current.seqno → OnDisk sh.state p
  | .rolled e, .write (.ok _ _) => e.durability.waits → ¬ Covered sh e.entryId
  | _, _ => True

/-- One step of `append`, with what it needs of the mutex. -/
inductive Shard.Takes (max c : Nat) (sh : Shard) : Call → Move → Shard → Call → Prop where
  | stamp (id nanos : UInt64) (payload : List Byte) (durability : Durability) (h : payload.length < 2 ^ 32) :
      Takes max c sh (.numbered id payload durability) (.stamp nanos) sh (.stamped ⟨id, nanos, durability, payload⟩)
  | tooLarge (id nanos : UInt64) (payload : List Byte) (durability : Durability) (h : ¬ payload.length < 2 ^ 32) :
      Takes max c sh (.numbered id payload durability) (.stamp nanos) sh .failed
  | lock (e : Entry) (h : sh.lock = none) : Takes max c sh (.stamped e) .lock { sh with lock := some c } (.locked e)
  | stay (e : Entry) (io : RollIo) (h : needsRollover max sh.state e.payload = false) :
      Takes max c sh (.locked e) (.roll io) sh (.rolled e)
  | roll (e : Entry) (h : needsRollover max sh.state e.payload = true) :
      Takes max c sh (.locked e) (.roll .ok) { sh with state := sh.state.flush.nextSegment } (.rolled e)
  | rollFailed (e : Entry) (io : RollIo) (n : Nat) (h : io ≠ .ok) :
      Takes max c sh (.locked e) (.roll io) { sh with state := sh.state.drain n, lock := none } .failed
  | write (e : Entry) (n k : Nat) :
      Takes max c sh (.rolled e) (.write (.ok n k)) (sh.write e (.ok n k)).1 (sh.write e (.ok n k)).2
  | writeFailed (e : Entry) (io : WriteIo) (h : ∀ n k, io ≠ .ok n k) :
      Takes max c sh (.rolled e) (.write io) (sh.write e io).1 .failed
  | park (p : Placed) (hd : p.entry.durability.waits = true)
      (hb : behind sh.state.lastDurable p.entry.entryId = true) :
      Takes max c sh (.written p) .wait { sh with lock := none } (.parked p)
  | ack (p : Placed)
      (h : p.entry.durability.waits = true → behind sh.state.lastDurable p.entry.entryId = false) :
      Takes max c sh (.written p) .wait { sh with lock := none } (.acked p)
  | again (p : Placed) (hl : sh.lock = none) (hb : behind sh.state.lastDurable p.entry.entryId = true)
      (h : sh.state.shutdown = false) : Takes max c sh (.parked p) .wake sh (.parked p)
  | interrupted (p : Placed) (hl : sh.lock = none) (h : sh.state.shutdown = true) :
      Takes max c sh (.parked p) .wake sh .failed
  | wake (p : Placed) (hl : sh.lock = none) (hb : behind sh.state.lastDurable p.entry.entryId = false) :
      Takes max c sh (.parked p) .wake sh (.acked p)

theorem takes_of_append {max c : Nat} {sh sh' : Shard} {call call' : Call} {m : Move}
    (hs : sh.append max c call m = some (sh', call')) : sh.Takes max c call m sh' call' := by
  unfold Shard.append at hs
  split at hs
  · rename_i id payload durability nanos
    simp only [Option.some.injEq, Prod.mk.injEq, payloadLen_isSome] at hs
    obtain ⟨rfl, rfl⟩ := hs
    split
    · exact .stamp id nanos payload durability (by assumption)
    · exact .tooLarge id nanos payload durability (by assumption)
  · split at hs
    · cases hs
      exact .lock _ (by assumption)
    · cases hs
  · rename_i e io
    simp only [Option.some.injEq, Shard.roll] at hs
    split at hs
    · rename_i hroll
      cases io with
      | ok => cases hs; exact .roll e hroll
      | flushFailed n => cases hs; exact .rollFailed e _ n (by simp)
      | openFailed => cases hs; exact .rollFailed e _ _ (by simp)
    · rename_i hroll
      cases hs
      exact .stay e io (by simpa using hroll)
  · rename_i e io
    simp only [Option.some.injEq] at hs
    cases io with
    | ok n k => cases hs; exact .write e n k
    | headerFailed n => cases hs; exact .writeFailed e (.headerFailed n) (by simp)
    | payloadFailed n k => cases hs; exact .writeFailed e (.payloadFailed n k) (by simp)
  · rename_i p
    simp only [Option.some.injEq, Shard.wait] at hs
    split at hs
    · rename_i hb
      rw [Bool.and_eq_true] at hb
      cases hs
      exact .park p hb.1 hb.2
    · rename_i hb
      cases hs
      refine .ack p (fun hd => ?_)
      simpa [hd] using hb
  · split at hs
    · rename_i p hl
      simp only [Option.some.injEq, Prod.mk.injEq, Shard.wake] at hs
      obtain ⟨rfl, rfl⟩ := hs
      split
      · rename_i hb
        split
        · rename_i hdown
          exact .interrupted p hl hdown
        · rename_i hdown
          exact .again p hl hb (by simpa using hdown)
      · rename_i hb
        exact .wake p hl (by simpa using hb)
    · cases hs
  · cases hs

inductive Shard.Appends (max : Nat) (sh : Shard) : Call → Move → Shard → Call → Prop where
  | quiet {call call' : Call} {m : Move} (l : Option Nat) (hw : ∀ p, ¬ Waiting call' p)
      (ha : ∀ p, call' ≠ .acked p) : Appends max sh call m { sh with lock := l } call'
  | rolled (e : Entry) (h : needsRollover max sh.state e.payload = true) :
      Appends max sh (.locked e) (.roll .ok) { sh with state := sh.state.flush.nextSegment } (.rolled e)
  | written (e : Entry) (n k : Nat) :
      Appends max sh (.rolled e) (.write (.ok n k)) (sh.write e (.ok n k)).1 (sh.write e (.ok n k)).2
  | drained {call : Call} {m : Move} (n : Nat) :
      Appends max sh call m { sh with state := sh.state.drain n, lock := none } .failed
  | torn (e : Entry) (io : WriteIo) (h : (sh.write e io).2 = .failed) :
      Appends max sh (.rolled e) (.write io) (sh.write e io).1 .failed
  | parked {call : Call} {m : Move} (l : Option Nat) (p : Placed) (h : Waiting call p) :
      Appends max sh call m { sh with lock := l } (.parked p)
  | acked {call : Call} {m : Move} (l : Option Nat) (p : Placed) (h : Waiting call p)
      (hb : p.entry.durability.waits = true → behind sh.state.lastDurable p.entry.entryId = false) :
      Appends max sh call m { sh with lock := l } (.acked p)

theorem writeFailed_call {sh : Shard} {e : Entry} {io : WriteIo} (h : ∀ n k, io ≠ .ok n k) :
    (sh.write e io).2 = .failed := by
  cases io with
  | ok n k => exact absurd rfl (h n k)
  | headerFailed n => rfl
  | payloadFailed n k => rfl

theorem appends_of_append {max c : Nat} {sh sh' : Shard} {call call' : Call} {m : Move}
    (hs : sh.append max c call m = some (sh', call')) : sh.Appends max call m sh' call' := by
  cases takes_of_append hs with
  | stamp => apply Shard.Appends.quiet sh.lock <;> simp [Waiting]
  | tooLarge => apply Shard.Appends.quiet sh.lock <;> simp [Waiting]
  | lock e hl => apply Shard.Appends.quiet (some c) <;> simp [Waiting]
  | stay e io h => apply Shard.Appends.quiet sh.lock <;> simp [Waiting]
  | roll e h => exact .rolled e h
  | rollFailed e io n h => exact .drained n
  | write e n k => exact .written e n k
  | writeFailed e io h => exact .torn e io (writeFailed_call h)
  | park p hd hb => exact .parked none p (Or.inl rfl)
  | ack p h => exact .acked none p (Or.inl rfl) h
  | again p hl hb h => exact .parked sh.lock p (Or.inr rfl)
  | interrupted p hl hdown => apply Shard.Appends.quiet sh.lock <;> simp [Waiting]
  | wake p hl hb => exact .acked sh.lock p (Or.inr rfl) (fun _ => hb)

theorem Tracked.appends {max : Nat} {sh sh' : Shard} {call call' : Call} {m : Move} {p : Placed}
    {waiting : Placed → Prop} (hs : sh.Appends max call m sh' call')
    (ho : sh.Orderly max waiting call m) (hw : waiting p) (h : Tracked sh p) : Tracked sh' p := by
  cases hs with
  | quiet => exact h
  | rolled e hroll =>
    refine Or.inl ?_
    rcases h with h | ⟨hseq, -, -⟩
    · exact (h.mono (drain_grows _ _)).mono (nextSegment_grows _)
    · exact ((ho hroll p hw hseq).mono (drain_grows _ _)).mono (nextSegment_grows _)
  | written e n k =>
    refine Tracked.mono (writeFrame_grows _ e n k) rfl ?_ (fun id hc => hc) h
    rw [Shard.write, writeFrame_stream]
    exact List.prefix_append _ _
  | drained n => exact h.drain n none
  | torn e io hf =>
    cases io with
    | ok n k => cases hf
    | headerFailed n => exact h.writeAllFailed _ n none
    | payloadFailed n k => exact (h.writeAll _ n).writeAllFailed _ k none
  | parked => exact h
  | acked => exact h

theorem OnDisk.appends {max : Nat} {sh sh' : Shard} {call call' : Call} {m : Move} {p : Placed}
    (hs : sh.Appends max call m sh' call') (h : OnDisk sh.state p) : OnDisk sh'.state p := by
  cases hs with
  | quiet => exact h
  | rolled e hroll => exact (h.mono (drain_grows _ _)).mono (nextSegment_grows _)
  | written e n k => exact h.mono (writeFrame_grows _ e n k)
  | drained n => exact h.mono (drain_grows _ n)
  | torn e io hf =>
    cases io with
    | ok n k => cases hf
    | headerFailed n => exact h.mono (writeAllFailed_grows _ _ n)
    | payloadFailed n k => exact (h.mono (writeAll_grows _ _ n)).mono (writeAllFailed_grows _ _ k)
  | parked => exact h
  | acked => exact h

theorem waiting_id {call : Call} {p : Placed} (h : Waiting call p) : call.id = some p.entry.entryId := by
  rcases h with rfl | rfl <;> rfl

theorem tracked_write {sh : Shard} {e : Entry} (n k : Nat) (hc : ¬ Covered sh e.entryId) :
    Tracked (sh.write e (.ok n k)).1 ⟨e, sh.state.current.seqno, sh.state.offset⟩ := by
  refine Or.inr ⟨rfl, ?_, hc⟩
  have hoff : sh.state.offset = sh.state.stream.length := by simp [ShardState.offset, ShardState.stream]
  rw [Shard.write, writeFrame_stream, hoff]
  exact frameAt_append _ _ _

theorem waiting_appends {max : Nat} {sh sh' : Shard} {call call' : Call} {m : Move} {p : Placed}
    {waiting : Placed → Prop} (hs : sh.Appends max call m sh' call')
    (ho : sh.Orderly max waiting call m) (hd : p.entry.durability.waits = true) (hw : Waiting call' p) :
    call.id = some p.entry.entryId ∧ (Waiting call p ∨ Tracked sh' p) := by
  cases hs with
  | quiet l hw' ha => exact absurd hw (hw' p)
  | rolled e hroll => simp [Waiting] at hw
  | written e n k =>
    have hp : p = ⟨e, sh.state.current.seqno, sh.state.offset⟩ := by
      simpa [Waiting, Shard.write, eq_comm] using hw
    subst hp
    exact ⟨rfl, Or.inr (tracked_write n k (ho hd))⟩
  | drained n => simp [Waiting] at hw
  | torn e io hf => simp [Waiting] at hw
  | parked l q hq =>
    have hp : q = p := by simpa [Waiting] using hw
    subst hp
    exact ⟨waiting_id hq, Or.inl hq⟩
  | acked => simp [Waiting] at hw

theorem acked_appends {max : Nat} {sh sh' : Shard} {call : Call} {m : Move} {p : Placed}
    (hs : sh.Appends max call m sh' (.acked p)) (hd : p.entry.durability.waits = true) :
    Waiting call p ∧ Covered sh p.entry.entryId := by
  generalize hcall' : Call.acked p = call' at hs
  cases hs with
  | quiet l hw ha => exact absurd hcall'.symm (ha p)
  | acked l q hq hb =>
    cases hcall'
    exact ⟨hq, Or.inl (hb hd)⟩
  | written e n k => cases hcall'
  | _ => cases hcall'

/-! ## The mutex -/

/-- All that a step of the WAL can do. -/
inductive Wal.Steps (cfg : FileWalConfig) (s : Wal) : Label → Wal → Prop where
  | fetchAdd (c : Nat) (payload : List Byte) (durability : Durability) (h : s.calls c = .idle) :
      Steps cfg s (.fetchAdd c payload durability)
        ({ s with nextEntryId := s.nextEntryId + 1 }.setCall c (.numbered s.nextEntryId payload durability))
  | append (c : Nat) (m : Move) {id : UInt64} {sh : Shard} {call : Call} (hid : (s.calls c).id = some id)
      (h : (s.shards (shardFor cfg id)).append cfg.segmentSizeMax c (s.calls c) m = some (sh, call)) :
      Steps cfg s (.append c m) ((s.setShard (shardFor cfg id) sh).setCall c call)
  | flush (c : Nat) (h : s.calls c = .idle) :
      Steps cfg s (.flush c) (s.setCall c (.flushing (fun i => (s.shards i).frames) 0))
  | flushLook (c : Nat) {before : Nat → List Placed} {i : Nat} {call : Call} (hc : s.calls c = .flushing before i)
      (h : (s.shards i).flushCall cfg (.flushing before i) = some call) : Steps cfg s (.flushStep c) (s.setCall c call)
  | flushWait (c : Nat) {before : Nat → List Placed} {i : Nat} {target : UInt64} {call : Call}
      (hc : s.calls c = .flushWaiting before i target)
      (h : (s.shards i).flushCall cfg (.flushWaiting before i target) = some call) :
      Steps cfg s (.flushStep c) (s.setCall c call)
  | flusher (i : Nat) (m : FlusherMove) {sh : Shard} (hl : (s.shards i).lock = none) (h : (s.shards i).Flushes m sh) :
      Steps cfg s (.flusher i m) (s.setShard i sh)
  | shutdown (i : Nat) (h : (s.shards i).lock = none) :
      Steps cfg s (.shutdown i)
        (s.setShard i { s.shards i with state := { (s.shards i).state with shutdown := true } })

theorem steps_of_step {cfg : FileWalConfig} {s s' : Wal} {a : Label} (hs : s.step cfg a = some s') :
    s.Steps cfg a s' := by
  cases a with
  | fetchAdd c payload durability =>
    simp only [Wal.step, Wal.fetchAdd] at hs
    split at hs
    · cases hs
      exact .fetchAdd c payload durability (by assumption)
    · cases hs
  | append c m =>
    simp only [Wal.step, Wal.append, Option.bind_eq_some_iff, Option.map_eq_some_iff] at hs
    obtain ⟨id, hid, ⟨sh, call⟩, hr, rfl⟩ := hs
    exact .append c m hid hr
  | flush c =>
    simp only [Wal.step] at hs
    split at hs
    · cases hs
      exact .flush c (by assumption)
    · cases hs
  | flushStep c =>
    simp only [Wal.step, Wal.flushStep] at hs
    split at hs
    · obtain ⟨call, hc, rfl⟩ := Option.map_eq_some_iff.mp hs
      exact .flushLook c (by assumption) hc
    · obtain ⟨call, hc, rfl⟩ := Option.map_eq_some_iff.mp hs
      exact .flushWait c (by assumption) hc
    · cases hs
  | flusher i m =>
    obtain ⟨sh, hf, rfl⟩ := Option.map_eq_some_iff.mp hs
    obtain ⟨hl, hf⟩ := flushes_of_flusherLoop hf
    exact .flusher i m hl hf
  | shutdown i =>
    simp only [Wal.step] at hs
    split at hs
    · cases hs
      exact .shutdown i (by assumption)
    · cases hs

/-- The entry of a call that is between `lock` and its return or its wait. -/
def Call.holds : Call → Option Entry
  | .locked e | .rolled e => some e
  | .written p => some p.entry
  | _ => none

theorem holds_id {call : Call} {e : Entry} (h : call.holds = some e) : call.id = some e.entryId := by
  cases call with
  | locked e' | rolled e' | written p =>
    cases h
    rfl
  | _ => cases h

theorem takes_id {max c : Nat} {sh sh' : Shard} {call call' : Call} {m : Move}
    (hs : sh.Takes max c call m sh' call') {id : UInt64} (hid : call'.id = some id) : call.id = some id := by
  cases hs with
  | tooLarge | rollFailed | writeFailed | interrupted => cases hid
  | _ => exact hid

theorem takes_holds {max c : Nat} {sh sh' : Shard} {call call' : Call} {m : Move}
    (hs : sh.Takes max c call m sh' call') (h : ∀ e, call.holds = some e → sh.lock = some c) :
    ∀ e, call'.holds = some e → sh'.lock = some c := by
  intro e he
  cases hs with
  | lock e' hl => rfl
  | stay e' io hr | roll e' hr | write e' n k => exact h e' rfl
  | _ => cases he

theorem takes_locked {max c d : Nat} {sh sh' : Shard} {call call' : Call} {m : Move}
    (hs : sh.Takes max c call m sh' call') (h : ∀ e, call.holds = some e → sh.lock = some c) (hl : sh.lock = some d)
    (hne : d ≠ c) : sh' = sh := by
  have hno : ∀ e, call.holds ≠ some e := by
    intro e he
    have hdc := h e he
    rw [hl, Option.some.injEq] at hdc
    exact hne hdc
  cases hs with
  | lock e hl' =>
    rw [hl] at hl'
    cases hl'
  | stay e | roll e | rollFailed e | write e | writeFailed e => exact absurd rfl (hno e)
  | park p | ack p => exact absurd rfl (hno p.entry)
  | _ => rfl

def Exclusive (cfg : FileWalConfig) (s : Wal) : Prop :=
  ∀ c e, (s.calls c).holds = some e → (s.shards (shardFor cfg e.entryId)).lock = some c

theorem flushCall_cases {cfg : FileWalConfig} {sh : Shard} {call call' : Call}
    (h : sh.flushCall cfg call = some call') :
    (∃ before i, call' = .flushing before i) ∨ (∃ before i target, call' = .flushWaiting before i target) ∨
      ∃ before, call' = .flushed before := by
  have hnext : ∀ before i, (∃ j, flushNext cfg before i = .flushing before j) ∨
      flushNext cfg before i = .flushed before := by
    intro before i
    unfold flushNext
    split
    · exact Or.inl ⟨_, rfl⟩
    · exact Or.inr rfl
  unfold Shard.flushCall at h
  split at h
  · rename_i before i
    split at h
    · split at h <;> cases h
      · exact Or.inr (Or.inl ⟨_, _, _, rfl⟩)
      · exact (hnext before i).imp (fun ⟨j, hj⟩ => ⟨before, j, hj⟩) fun hf => Or.inr ⟨before, hf⟩
    · cases h
  · rename_i before i target
    split at h
    · split at h <;> cases h
      · exact Or.inr (Or.inl ⟨_, _, _, rfl⟩)
      · exact (hnext before i).imp (fun ⟨j, hj⟩ => ⟨before, j, hj⟩) fun hf => Or.inr ⟨before, hf⟩
    · cases h
  · cases h

theorem flushCall_quiet {cfg : FileWalConfig} {sh : Shard} {call call' : Call}
    (h : sh.flushCall cfg call = some call') : (∀ p, ¬ Waiting call' p) ∧ ∀ p, call' ≠ .acked p := by
  obtain ⟨before, i, rfl⟩ | ⟨before, i, target, rfl⟩ | ⟨before, rfl⟩ := flushCall_cases h <;> simp [Waiting]

theorem flushCall_holds {cfg : FileWalConfig} {sh : Shard} {call call' : Call}
    (h : sh.flushCall cfg call = some call') : call'.holds = none := by
  obtain ⟨before, i, rfl⟩ | ⟨before, i, target, rfl⟩ | ⟨before, rfl⟩ := flushCall_cases h <;> rfl

theorem Exclusive.self {cfg : FileWalConfig} {s : Wal} (h : Exclusive cfg s) {c : Nat} {id : UInt64}
    (hid : (s.calls c).id = some id) {e : Entry} (he : (s.calls c).holds = some e) :
    (s.shards (shardFor cfg id)).lock = some c := by
  have hsame := holds_id he
  rw [hid, Option.some.injEq] at hsame
  rw [hsame]
  exact h c e he

theorem Exclusive.setCall {cfg : FileWalConfig} {s : Wal} (h : Exclusive cfg s) (n : UInt64) (c : Nat) {call : Call}
    (hc : call.holds = none) : Exclusive cfg ({ s with nextEntryId := n }.setCall c call) := by
  intro d e he
  simp only [Wal.setCall, Function.update_apply] at he
  split at he
  · rw [hc] at he
    cases he
  · exact h d e he

theorem Exclusive.setShard {cfg : FileWalConfig} {s : Wal} (h : Exclusive cfg s) {i : Nat}
    (hl : (s.shards i).lock = none) (sh : Shard) : Exclusive cfg (s.setShard i sh) := by
  intro d e he
  have hd := h d e he
  simp only [Wal.setShard, Function.update_apply]
  split
  · rename_i hi
    rw [hi, hl] at hd
    cases hd
  · exact hd

theorem Exclusive.append {cfg : FileWalConfig} {s : Wal} (h : Exclusive cfg s) {c : Nat} {m : Move} {id : UInt64}
    {sh : Shard} {call : Call} (hid : (s.calls c).id = some id)
    (hs : (s.shards (shardFor cfg id)).Takes cfg.segmentSizeMax c (s.calls c) m sh call) :
    Exclusive cfg ((s.setShard (shardFor cfg id) sh).setCall c call) := by
  intro d e he
  simp only [Wal.setCall, Wal.setShard, Function.update_apply] at he ⊢
  by_cases hd : d = c
  · rw [if_pos hd] at he
    have hsame := takes_id hs (holds_id he)
    rw [hid, Option.some.injEq] at hsame
    rw [← hsame, if_pos rfl, hd]
    exact takes_holds hs (fun e' he' => h.self hid he') e he
  · rw [if_neg hd] at he
    have hother := h d e he
    split
    · rename_i hi
      rw [hi] at hother
      rw [takes_locked hs (fun e' he' => h.self hid he') hother hd]
      exact hother
    · exact hother

theorem exclusive_step {cfg : FileWalConfig} {s s' : Wal} {a : Label} (h : Exclusive cfg s) (hs : s.Steps cfg a s') :
    Exclusive cfg s' := by
  cases hs with
  | fetchAdd c payload durability _ => exact h.setCall _ c rfl
  | append c m hid hr => exact h.append hid (takes_of_append hr)
  | flush c _ => exact h.setCall _ c rfl
  | flushLook c _ hf => exact h.setCall _ c (flushCall_holds hf)
  | flushWait c _ hf => exact h.setCall _ c (flushCall_holds hf)
  | flusher i m hl _ => exact h.setShard hl _
  | shutdown i hl => exact h.setShard hl _

theorem exclusive_reachable {cfg : FileWalConfig} {dirs : Nat → ShardDir} {s : Wal}
    (hs : (fileWal cfg dirs).Reachable s) : Exclusive cfg s := by
  apply Machine.Reachable.invariant _ _ hs
  · intro c e he
    cases he
  · intro s a s' h hstep
    exact exclusive_step h (steps_of_step hstep)

/-! ## Whole runs -/

def Wal.WaitsIn (cfg : FileWalConfig) (s : Wal) (i : Nat) (p : Placed) : Prop :=
  p.entry.durability.waits = true ∧ shardFor cfg p.entry.entryId = i ∧ ∃ c, Waiting (s.calls c) p

def Orderly (cfg : FileWalConfig) (s : Wal) : Label → Prop
  | .append c m => ∀ id, (s.calls c).id = some id →
    (s.shards (shardFor cfg id)).Orderly cfg.segmentSizeMax (s.WaitsIn cfg (shardFor cfg id)) (s.calls c) m
  | _ => True

/-- The invariant: frames that are waited for are tracked, and acknowledged ones are on disk. -/
structure Durable (cfg : FileWalConfig) (s : Wal) : Prop where
  waiting : ∀ c p, p.entry.durability.waits = true → Waiting (s.calls c) p →
    Tracked (s.shards (shardFor cfg p.entry.entryId)) p
  acked : ∀ c p, p.entry.durability.waits = true → s.calls c = .acked p →
    OnDisk (s.shards (shardFor cfg p.entry.entryId)).state p

theorem durable_open (cfg : FileWalConfig) (dirs : Nat → ShardDir) : Durable cfg (openWal dirs) where
  waiting c p hd hw := by simp [openWal, Waiting] at hw
  acked c p hd ha := by simp [openWal] at ha

theorem Durable.setCall {cfg : FileWalConfig} {s : Wal} (h : Durable cfg s) (c : Nat) {call : Call}
    (hw : ∀ p, ¬ Waiting call p) (ha : ∀ p, call ≠ .acked p) : Durable cfg (s.setCall c call) where
  waiting c' p hd hw' := by
    simp only [Wal.setCall, Function.update_apply] at hw' ⊢
    split at hw'
    · exact absurd hw' (hw p)
    · exact h.waiting c' p hd hw'
  acked c' p hd ha' := by
    simp only [Wal.setCall, Function.update_apply] at ha' ⊢
    split at ha'
    · exact absurd ha' (ha p)
    · exact h.acked c' p hd ha'

theorem Durable.setShard {cfg : FileWalConfig} {s : Wal} (h : Durable cfg s) (i : Nat) {sh : Shard}
    (ht : ∀ p, Tracked (s.shards i) p → Tracked sh p) (hd : ∀ p, OnDisk (s.shards i).state p → OnDisk sh.state p) :
    Durable cfg (s.setShard i sh) where
  waiting c p hp hw := by
    have := h.waiting c p hp hw
    simp only [Wal.setShard, Function.update_apply]
    split
    · rename_i hi
      exact ht p (hi ▸ this)
    · exact this
  acked c p hp ha := by
    have := h.acked c p hp ha
    simp only [Wal.setShard, Function.update_apply]
    split
    · rename_i hi
      exact hd p (hi ▸ this)
    · exact this

theorem Durable.append {cfg : FileWalConfig} {s : Wal} {c : Nat} {m : Move} {id : UInt64} {sh' : Shard} {call' : Call}
    (h : Durable cfg s) (ho : Orderly cfg s (.append c m)) (hid : (s.calls c).id = some id)
    (hstep : (s.shards (shardFor cfg id)).Appends cfg.segmentSizeMax (s.calls c) m sh' call') :
    Durable cfg ((s.setShard (shardFor cfg id) sh').setCall c call') := by
  have ho := ho id hid
  generalize hi : shardFor cfg id = i at *
  have hsame : ∀ p : Placed, (s.calls c).id = some p.entry.entryId → shardFor cfg p.entry.entryId = i := by
    intro p hp
    rw [hid, Option.some.injEq] at hp
    rw [← hp, hi]
  have htr : ∀ c' (p : Placed), p.entry.durability.waits = true → Waiting (s.calls c') p →
      Tracked ((s.setShard i sh').shards (shardFor cfg p.entry.entryId)) p := by
    intro c' p hd hw
    have ht := h.waiting c' p hd hw
    simp only [Wal.setShard, Function.update_apply]
    split
    · rename_i hpi
      rw [hpi] at ht
      exact ht.appends hstep ho ⟨hd, hpi, c', hw⟩
    · exact ht
  constructor
  · intro c' p hd hw
    simp only [Wal.setCall, Function.update_apply] at hw ⊢
    split at hw
    · obtain ⟨hpid, hw | ht⟩ := waiting_appends hstep ho hd hw
      · exact htr c p hd hw
      · rw [hsame p hpid]
        simpa [Wal.setShard] using ht
    · exact htr c' p hd hw
  · intro c' p hd ha
    simp only [Wal.setCall, Function.update_apply] at ha ⊢
    split at ha
    · subst ha
      obtain ⟨hw, hc⟩ := acked_appends hstep hd
      have ht := h.waiting c p hd hw
      rw [hsame p (waiting_id hw)] at ht ⊢
      simpa [Wal.setShard] using (ht.onDisk hc).appends hstep
    · have hp := h.acked c' p hd ha
      simp only [Wal.setShard, Function.update_apply]
      split
      · rename_i hpi
        rw [hpi] at hp
        exact hp.appends hstep
      · exact hp

theorem OnDisk.flushes {sh sh' : Shard} {p : Placed} {m : FlusherMove} (hs : sh.Flushes m sh')
    (h : OnDisk sh.state p) : OnDisk sh'.state p := by
  cases hs with
  | choose hf => exact h
  | doFlush t io hf =>
    cases io with
    | ok => exact h.mono (doFlush_grows _)
    | flushFailed n => exact h.mono (drain_grows _ n)
    | syncFailed => exact h.mono (drain_grows _ _)
  | publish t ok hf => cases ok <;> exact h

theorem durable_step {cfg : FileWalConfig} {s s' : Wal} {a : Label} (h : Durable cfg s)
    (ho : Orderly cfg s a) (hs : s.Steps cfg a s') : Durable cfg s' := by
  cases hs with
  | fetchAdd c payload durability _ =>
    have h' : Durable cfg { s with nextEntryId := s.nextEntryId + 1 } := ⟨h.waiting, h.acked⟩
    exact h'.setCall c (by simp [Waiting]) (by simp)
  | append c m hid hr => exact h.append ho hid (appends_of_append hr)
  | flush c _ => exact h.setCall c (by simp [Waiting]) (by simp)
  | flushLook c _ hf => exact h.setCall c (flushCall_quiet hf).1 (flushCall_quiet hf).2
  | flushWait c _ hf => exact h.setCall c (flushCall_quiet hf).1 (flushCall_quiet hf).2
  | flusher i m _ hf => exact h.setShard i (fun p hp => hp.flushes hf) (fun p hp => hp.flushes hf)
  | shutdown i _ => exact h.setShard i (fun p hp => hp) (fun p hp => hp)

theorem durable_reach {cfg : FileWalConfig} {dirs : Nat → ShardDir} {s : Wal}
    (hs : (fileWal cfg dirs).Reach (Orderly cfg) s) : Durable cfg s := by
  apply Machine.Reach.invariant (durable_open cfg dirs) _ hs
  intro s a s' _ h ho hstep
  exact durable_step h ho (steps_of_step hstep)

/-- **Acknowledged frames are durable.** In each state of each orderly run, for a call that has
returned `Ok` to a durable append, the whole frame is in its segment file, and that file was
synced after it. -/
theorem acked_onDisk (cfg : FileWalConfig) (dirs : Nat → ShardDir) (s : Wal)
    (hs : (fileWal cfg dirs).Reach (Orderly cfg) s) (c : Nat) (p : Placed) (hp : s.calls c = .acked p)
    (hd : p.entry.durability.waits = true) :
    OnDisk (s.shards (shardFor cfg p.entry.entryId)).state p :=
  (durable_reach hs).acked c p hd hp

/-! ## Two runs -/

def Call.returned : Call → Option Placed
  | .acked p => some p
  | _ => none

theorem returned_eq_some {call : Call} {p : Placed} (h : call.returned = some p) : call = .acked p := by
  unfold Call.returned at h
  split at h <;> simp_all

/-- A check that is enough for an orderly step: no rollover, and no flush that is not published. -/
def calm (cfg : FileWalConfig) (s : Wal) : Label → Bool
  | .append c (.roll .ok) => match s.calls c with
    | .locked e => !needsRollover cfg.segmentSizeMax (s.shards (shardFor cfg e.entryId)).state e.payload
    | _ => true
  | .append c (.write _) => match s.calls c with
    | .rolled e => behind (s.shards (shardFor cfg e.entryId)).state.lastDurable e.entryId &&
        decide ((s.shards (shardFor cfg e.entryId)).flusher = .top)
    | _ => true
  | _ => true

theorem orderly_of_calm (cfg : FileWalConfig) (s : Wal) (a : Label) (h : calm cfg s a = true) : Orderly cfg s a := by
  cases a with
  | append c m =>
    intro id hid
    unfold Shard.Orderly
    split
    · rename_i e hcall
      intro hroll
      simp only [hcall, Call.id, Option.some.injEq] at hid
      simp [calm, hcall, hid, hroll] at h
    · rename_i e n k hcall
      simp only [hcall, Call.id, Option.some.injEq] at hid
      simp only [calm, hcall, hid, Bool.and_eq_true, decide_eq_true_eq] at h
      rintro - (hb | ⟨t, ht, -⟩)
      · rw [hid, h.1] at hb
        cases hb
      · rw [h.2] at ht
        cases ht
    · trivial
  | _ => trivial

theorem acked_onDisk_one :
    let cfg : FileWalConfig := ⟨1, 1024, by decide⟩
    let dirs : Nat → ShardDir := fun _ => ⟨[], by simp⟩
    let p : Placed := ⟨⟨1, 7, .fdataSync, [5]⟩, 0, 0⟩
    ∃ s, (fileWal cfg dirs).Reach (Orderly cfg) s ∧ s.calls 0 = .acked p ∧ p.entry.durability.waits = true ∧
      OnDisk (s.shards (shardFor cfg p.entry.entryId)).state p := by
  intro cfg dirs p
  have hrun : (((fileWal cfg dirs).restrict (calm cfg)).run [.fetchAdd 0 [5] .fdataSync, .append 0 (.stamp 7),
      .append 0 .lock, .append 0 (.roll .ok), .append 0 (.write (.ok 0 0)), .append 0 .wait,
      .flusher 0 .choose, .flusher 0 (.doFlush .ok), .flusher 0 .publish, .append 0 .wake]).map
      (fun s => decide ((s.calls 0).returned = some p)) = some true := by decide
  obtain ⟨s, hs, hp⟩ := Machine.exists_of_restrict (fun s a _ => orderly_of_calm cfg s a) hrun
  have hp := returned_eq_some (of_decide_eq_true hp)
  exact ⟨s, hs, hp, rfl, acked_onDisk cfg dirs s hs 0 p hp rfl⟩

/-- The first call waits in segment 0. The second rolls over to segment 1, which is then synced.
The first returns `Ok`, and segment 0 was never synced. -/
theorem acked_not_onDisk :
    let cfg : FileWalConfig := ⟨1, 30, by decide⟩
    let dirs : Nat → ShardDir := fun _ => ⟨[], by simp⟩
    let p : Placed := ⟨⟨1, 7, .fdataSync, []⟩, 0, 0⟩
    ∃ s, (fileWal cfg dirs).Reachable s ∧ s.calls 0 = .acked p ∧ p.entry.durability.waits = true ∧
      ¬ OnDisk (s.shards (shardFor cfg p.entry.entryId)).state p := by
  intro cfg dirs p
  have hrun : ((fileWal cfg dirs).run [.fetchAdd 0 [] .fdataSync, .append 0 (.stamp 7), .append 0 .lock,
      .append 0 (.roll .ok), .append 0 (.write (.ok 0 0)), .append 0 .wait,
      .fetchAdd 1 [] .async, .append 1 (.stamp 8), .append 1 .lock, .append 1 (.roll .ok),
      .append 1 (.write (.ok 0 0)), .append 1 .wait, .flusher 0 .choose, .flusher 0 (.doFlush .ok),
      .flusher 0 .publish, .append 0 .wake]).map
      (fun s => decide ((s.calls 0).returned = some p) && 
        decide (¬ OnDisk (s.shards (shardFor cfg p.entry.entryId)).state p)) = some true := by
    decide
  obtain ⟨s, hs, hp⟩ := Machine.exists_of_run hrun
  rw [Bool.and_eq_true, decide_eq_true_eq, decide_eq_true_eq] at hp
  exact ⟨s, hs, returned_eq_some hp.1, rfl, hp.2⟩

end Riftgate.FileWal
