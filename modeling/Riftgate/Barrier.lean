import Riftgate.Durable

/-!
# `flush` as a barrier

`flush` takes the id of the last frame in the buffer and waits until `last_durable` is not below
it. That speaks of one id only. All frames before it are on disk as well if they are still in the
segment that is synced, and if the flusher never covers the id of a frame before it is written.
-/

open Lib

namespace Riftgate.FileWal

open Riftgate.Frame

/-! ## Frames in the order of their writes -/

/-- The two things that an append must not do. It leaves a segment with a frame in it that is not
on disk. Or it writes a frame when the flusher has already covered its id. -/
def Shard.InOrder (max : Nat) (sh : Shard) : Call → Move → Prop
  | .locked e, .roll .ok =>
    needsRollover max sh.state e.payload → ∀ p ∈ sh.frames, p.seqno = sh.state.current.seqno → OnDisk sh.state p
  | .rolled e, .write (.ok _ _) => ¬ Covered sh e.entryId
  | _, _ => True

theorem Shard.InOrder.orderly {max : Nat} {sh : Shard} {call : Call} {m : Move} (h : sh.InOrder max call m) :
    sh.Orderly max (· ∈ sh.frames) call m := by
  unfold Shard.Orderly
  split
  · exact h
  · exact fun _ => h
  · trivial

/-- The invariant of a shard. A frame is on disk as soon as the id of a later one is covered. -/
structure Shard.Ordered (sh : Shard) : Prop where
  tracked : ∀ p ∈ sh.frames, Tracked sh p
  ahead : sh.frames.Pairwise fun p q => OnDisk sh.state p ∨ ¬ Covered sh q.entry.entryId
  last : sh.state.lastBuffered = sh.frames.getLast?.map (·.entry.entryId)

/-- What a frame keeps when its shard moves on. -/
structure Shard.Advances (sh sh' : Shard) : Prop where
  frames : ∀ p ∈ sh.frames, p ∈ sh'.frames
  onDisk : ∀ p, OnDisk sh.state p → OnDisk sh'.state p
  ahead : ∀ p ∈ sh.frames, ∀ id, OnDisk sh.state p ∨ ¬ Covered sh id → OnDisk sh'.state p ∨ ¬ Covered sh' id

theorem Shard.Advances.refl (sh : Shard) : sh.Advances sh := ⟨fun _ hp => hp, fun _ hp => hp, fun _ _ _ hp => hp⟩

theorem advances_of_covered {sh sh' : Shard} (hf : ∀ p ∈ sh.frames, p ∈ sh'.frames)
    (hd : ∀ p, OnDisk sh.state p → OnDisk sh'.state p) (hc : ∀ id, Covered sh' id → Covered sh id) :
    sh.Advances sh' := by
  refine ⟨hf, hd, fun p hp id h => ?_⟩
  exact h.imp (hd p) (mt (hc id))

theorem Shard.Ordered.keep {sh sh' : Shard} (h : sh.Ordered) (ha : sh.Advances sh') (hf : sh'.frames = sh.frames)
    (hl : sh'.state.lastBuffered = sh.state.lastBuffered) (ht : ∀ p ∈ sh.frames, Tracked sh' p) : sh'.Ordered := by
  refine ⟨?_, ?_, ?_⟩
  · rw [hf]
    exact ht
  · rw [hf]
    exact h.ahead.imp_of_mem fun hp _ hpq => ha.ahead _ hp _ hpq
  · rw [hf, hl]
    exact h.last

theorem covered_append {max : Nat} {sh sh' : Shard} {call call' : Call} {m : Move}
    (hs : sh.Appends max call m sh' call') (id : UInt64) (hc : Covered sh' id) : Covered sh id := by
  cases hs with
  | torn e io hf =>
    cases io with
    | ok n k => cases hf
    | headerFailed n => exact hc
    | payloadFailed n k => exact hc
  | _ => exact hc

theorem mem_frames_append {max : Nat} {sh sh' : Shard} {call call' : Call} {m : Move}
    (hs : sh.Appends max call m sh' call') {p : Placed} (hp : p ∈ sh.frames) : p ∈ sh'.frames := by
  cases hs with
  | written e n k => exact List.mem_append_left _ hp
  | torn e io hf =>
    cases io with
    | ok n k => cases hf
    | headerFailed n => exact hp
    | payloadFailed n k => exact hp
  | _ => exact hp

theorem advances_append {max : Nat} {sh sh' : Shard} {call call' : Call} {m : Move}
    (hs : sh.Appends max call m sh' call') : sh.Advances sh' :=
  advances_of_covered (fun _ hp => mem_frames_append hs hp) (fun _ hp => hp.appends hs) (covered_append hs)

theorem Shard.Ordered.written {sh : Shard} {e : Entry} (n k : Nat) (h : sh.Ordered) (hc : ¬ Covered sh e.entryId)
    (ht : ∀ p ∈ sh.frames, Tracked (sh.write e (.ok n k)).1 p) (ha : sh.Advances (sh.write e (.ok n k)).1) :
    (sh.write e (.ok n k)).1.Ordered := by
  refine ⟨?_, ?_, ?_⟩
  · intro p hp
    rcases List.mem_append.mp hp with hp | hp
    · exact ht p hp
    · rw [List.mem_singleton.mp hp]
      exact tracked_write n k hc
  · apply List.pairwise_append.mpr
    refine ⟨h.ahead.imp_of_mem fun hp _ hpq => ha.ahead _ hp _ hpq, by simp, ?_⟩
    intro p hp q hq
    rw [List.mem_singleton.mp hq]
    exact ha.ahead p hp _ (Or.inr hc)
  · simp [Shard.write, ShardState.writeFrame]

theorem Shard.Ordered.appends {max : Nat} {sh sh' : Shard} {call call' : Call} {m : Move} (h : sh.Ordered)
    (ho : sh.InOrder max call m) (hs : sh.Appends max call m sh' call') : sh'.Ordered := by
  have ht : ∀ p ∈ sh.frames, Tracked sh' p := fun p hp => (h.tracked p hp).appends hs ho.orderly hp
  have ha := advances_append hs
  cases hs with
  | written e n k => exact h.written n k ho ht ha
  | torn e io hf =>
    cases io with
    | ok n k => cases hf
    | headerFailed n => exact h.keep ha rfl rfl ht
    | payloadFailed n k => exact h.keep ha rfl rfl ht
  | _ => exact h.keep ha rfl rfl ht

/-! ## The flusher -/

theorem covered_choose {sh : Shard} {id : UInt64} (h : Covered { sh with flusher := sh.choose } id) :
    Covered sh id := by
  rcases h with hb | ⟨t, ht, -⟩
  · exact Or.inl hb
  · exact absurd ht choose_flushed

theorem covered_publish {sh : Shard} {t : UInt64} {ok : Bool} (hf : sh.flusher = .flushed t ok) {id : UInt64}
    (h : Covered (sh.publish t ok) id) : Covered sh id := by
  rcases h with hb | ⟨u, hu, -⟩
  · cases ok with
    | false => exact Or.inl hb
    | true =>
      refine Or.inr ⟨t, hf, ?_⟩
      simpa [Shard.publish, behind] using hb
  · cases hu

theorem advances_doFlush {sh : Shard} (t : UInt64) (io : FlushIo) (h : sh.Ordered) : sh.Advances (sh.doFlush t io) := by
  cases io with
  | ok =>
    refine ⟨fun _ hp => hp, fun _ hp => hp.mono (doFlush_grows _), fun p hp id _ => Or.inl ?_⟩
    exact (h.tracked p hp).synced
  | flushFailed n =>
    refine advances_of_covered (fun _ hp => hp) (fun _ hp => hp.mono (drain_grows _ n)) ?_
    rintro id (hb | ⟨u, hu, -⟩)
    · exact Or.inl hb
    · cases hu
  | syncFailed =>
    refine advances_of_covered (fun _ hp => hp) (fun _ hp => hp.mono (drain_grows _ _)) ?_
    rintro id (hb | ⟨u, hu, -⟩)
    · exact Or.inl hb
    · cases hu

theorem advances_flushes {sh sh' : Shard} {m : FlusherMove} (h : sh.Ordered) (hs : sh.Flushes m sh') :
    sh.Advances sh' := by
  cases hs with
  | choose hf => exact advances_of_covered (fun _ hp => hp) (fun _ hp => hp) (fun _ => covered_choose)
  | doFlush t io hf => exact advances_doFlush t io h
  | publish t ok hf =>
    have hd : ∀ p, OnDisk sh.state p → OnDisk (sh.publish t ok).state p := by
      intro p hp
      cases ok <;> exact hp
    exact advances_of_covered (fun _ hp => hp) hd (fun _ => covered_publish hf)

theorem Shard.Ordered.flushes {sh sh' : Shard} {m : FlusherMove} (h : sh.Ordered) (hs : sh.Flushes m sh') :
    sh'.Ordered := by
  have ha := advances_flushes h hs
  have ht : ∀ p ∈ sh.frames, Tracked sh' p := fun p hp => (h.tracked p hp).flushes hs
  cases hs with
  | choose hf => exact h.keep ha rfl rfl ht
  | doFlush t io hf => cases io <;> exact h.keep ha rfl rfl ht
  | publish t ok hf => cases ok <;> exact h.keep ha rfl rfl ht

/-! ## Whole runs -/

/-- Appends are in order, and no `flush` stops waiting because of a shutdown. -/
def InOrder (cfg : FileWalConfig) (s : Wal) : Label → Prop
  | .append c m => ∀ id, (s.calls c).id = some id →
    (s.shards (shardFor cfg id)).InOrder cfg.segmentSizeMax (s.calls c) m
  | .flushStep c => ∀ before i target, s.calls c = .flushWaiting before i target →
    (s.shards i).state.shutdown = true → behind (s.shards i).state.lastDurable target = false
  | _ => True

def Wal.Persisted (s : Wal) (before : Nat → List Placed) (i : Nat) : Prop :=
  ∀ p ∈ before i, OnDisk (s.shards i).state p

/-- What a call of `flush` has seen to so far. -/
def Wal.Behind (cfg : FileWalConfig) (s : Wal) : Call → Prop
  | .flushing before i => (∀ j, ∀ p ∈ before j, p ∈ (s.shards j).frames) ∧ ∀ j < i, s.Persisted before j
  | .flushWaiting before i target =>
    ((∀ j, ∀ p ∈ before j, p ∈ (s.shards j).frames) ∧ ∀ j < i, s.Persisted before j) ∧
      ∀ p ∈ before i, OnDisk (s.shards i).state p ∨ ¬ Covered (s.shards i) target
  | .flushed before => ∀ j < cfg.shards, s.Persisted before j
  | _ => True

structure Barrier (cfg : FileWalConfig) (s : Wal) : Prop where
  shards : ∀ i, (s.shards i).Ordered
  calls : ∀ c, s.Behind cfg (s.calls c)

theorem barrier_open (cfg : FileWalConfig) (dirs : Nat → ShardDir) : Barrier cfg (openWal dirs) where
  shards i := by
    constructor <;> simp [openWal, openShard]
  calls c := trivial

theorem Wal.Behind.advances {cfg : FileWalConfig} {s : Wal} {i : Nat} {sh : Shard} (ha : (s.shards i).Advances sh)
    {call : Call} (h : s.Behind cfg call) : (s.setShard i sh).Behind cfg call := by
  have hadv : ∀ j, (s.shards j).Advances ((s.setShard i sh).shards j) := by
    intro j
    simp only [Wal.setShard, Function.update_apply]
    split
    · rename_i hj
      exact hj ▸ ha
    · exact .refl _
  have hkeep : ∀ before k, ((∀ j, ∀ p ∈ before j, p ∈ (s.shards j).frames) ∧ ∀ j < k, s.Persisted before j) →
      (∀ j, ∀ p ∈ before j, p ∈ ((s.setShard i sh).shards j).frames) ∧
        ∀ j < k, (s.setShard i sh).Persisted before j := by
    rintro before k ⟨hf, hd⟩
    exact ⟨fun j p hp => (hadv j).frames p (hf j p hp), fun j hj p hp => (hadv j).onDisk p (hd j hj p hp)⟩
  cases call with
  | flushing before k => exact hkeep before k h
  | flushWaiting before k target =>
    obtain ⟨hf, hw⟩ := h
    exact ⟨hkeep before k hf, fun p hp => (hadv k).ahead p (hf.1 k p hp) target (hw p hp)⟩
  | flushed before => exact fun j hj p hp => (hadv j).onDisk p (h j hj p hp)
  | _ => trivial

theorem Barrier.setShard {cfg : FileWalConfig} {s : Wal} (h : Barrier cfg s) (i : Nat) {sh : Shard}
    (ho : sh.Ordered) (ha : (s.shards i).Advances sh) : Barrier cfg (s.setShard i sh) where
  shards j := by
    simp only [Wal.setShard, Function.update_apply]
    split
    · exact ho
    · exact h.shards j
  calls c := (h.calls c).advances ha

theorem Barrier.setCall {cfg : FileWalConfig} {s : Wal} (h : Barrier cfg s) (c : Nat) {call : Call}
    (hc : s.Behind cfg call) : Barrier cfg (s.setCall c call) where
  shards := h.shards
  calls d := by
    simp only [Wal.setCall, Function.update_apply]
    split
    · exact hc
    · exact h.calls d

theorem behind_flushNext {cfg : FileWalConfig} {s : Wal} {before : Nat → List Placed} {i : Nat}
    (hf : ∀ j, ∀ p ∈ before j, p ∈ (s.shards j).frames) (hd : ∀ j < i, s.Persisted before j)
    (hi : s.Persisted before i) : s.Behind cfg (flushNext cfg before i) := by
  have hall : ∀ j < i + 1, s.Persisted before j := by
    intro j hj
    rcases Nat.lt_succ_iff_lt_or_eq.mp hj with hj | rfl
    · exact hd j hj
    · exact hi
  unfold flushNext
  split
  · exact ⟨hf, hall⟩
  · intro j hj
    exact hall j (by omega)

theorem behind_look {cfg : FileWalConfig} {s : Wal} {before : Nat → List Placed} {i : Nat} {call : Call}
    (hsh : (s.shards i).Ordered) (h : s.Behind cfg (.flushing before i))
    (hs : (s.shards i).flushCall cfg (.flushing before i) = some call) : s.Behind cfg call := by
  obtain ⟨hf, hd⟩ := h
  simp only [Shard.flushCall, hsh.last] at hs
  split at hs
  · split at hs
    · rename_i target hlast
      cases hs
      refine ⟨⟨hf, hd⟩, fun p hp => ?_⟩
      obtain ⟨q, hq, rfl⟩ := Option.map_eq_some_iff.mp hlast
      obtain ⟨init, hinit⟩ := List.getLast?_eq_some_iff.mp hq
      have hp := hf i p hp
      rw [hinit, List.mem_append, List.mem_singleton] at hp
      rcases hp with hp | rfl
      · have hpair := hsh.ahead
        rw [hinit, List.pairwise_append] at hpair
        exact hpair.2.2 p hp q (by simp)
      · exact (hsh.tracked p (by rw [hinit]; simp)).imp_right fun ht => ht.2.2
    · rename_i hlast
      cases hs
      have hempty : (s.shards i).frames = [] := by simpa using hlast
      refine behind_flushNext hf hd fun p hp => ?_
      have hp := hf i p hp
      rw [hempty] at hp
      cases hp
  · cases hs

theorem behind_wait {cfg : FileWalConfig} {s : Wal} {before : Nat → List Placed} {i : Nat} {target : UInt64}
    {call : Call} (h : s.Behind cfg (.flushWaiting before i target))
    (ho : (s.shards i).state.shutdown = true → behind (s.shards i).state.lastDurable target = false)
    (hs : (s.shards i).flushCall cfg (.flushWaiting before i target) = some call) : s.Behind cfg call := by
  simp only [Shard.flushCall] at hs
  split at hs
  · split at hs
    · cases hs
      exact h
    · rename_i hdone
      cases hs
      have hcov : Covered (s.shards i) target := by
        refine Or.inl ?_
        simp only [Bool.and_eq_true, Bool.not_eq_true', not_and, Bool.not_eq_false] at hdone
        cases hb : behind (s.shards i).state.lastDurable target with
        | false => rfl
        | true => exact hb ▸ ho (hdone hb)
      obtain ⟨⟨hf, hd⟩, hw⟩ := h
      exact behind_flushNext hf hd fun p hp => (hw p hp).resolve_right (not_not_intro hcov)
  · cases hs

theorem behind_append {cfg : FileWalConfig} {s : Wal} {max c : Nat} {sh sh' : Shard} {call call' : Call} {m : Move}
    (hs : sh.append max c call m = some (sh', call')) : s.Behind cfg call' := by
  cases takes_of_append hs <;> trivial

theorem barrier_step {cfg : FileWalConfig} {s s' : Wal} {a : Label} (h : Barrier cfg s) (ho : InOrder cfg s a)
    (hs : s.Steps cfg a s') : Barrier cfg s' := by
  cases hs with
  | fetchAdd c payload durability _ =>
    have h' : Barrier cfg { s with nextEntryId := s.nextEntryId + 1 } := ⟨h.shards, h.calls⟩
    exact h'.setCall c trivial
  | append c m hid hr =>
    have hap := appends_of_append hr
    have h' := h.setShard _ ((h.shards _).appends (ho _ hid) hap) (advances_append hap)
    exact h'.setCall c (behind_append hr)
  | flush c _ => exact h.setCall c ⟨fun _ _ hp => hp, fun j hj => absurd hj (Nat.not_lt_zero j)⟩
  | flushLook c hc hf => exact h.setCall c (behind_look (h.shards _) (hc ▸ h.calls c) hf)
  | flushWait c hc hf => exact h.setCall c (behind_wait (hc ▸ h.calls c) (ho _ _ _ hc) hf)
  | flusher i m _ hf => exact h.setShard i ((h.shards i).flushes hf) (advances_flushes (h.shards i) hf)
  | shutdown i _ =>
    have hsh := h.shards i
    exact h.setShard i ⟨hsh.tracked, hsh.ahead, hsh.last⟩ ⟨fun _ hp => hp, fun _ hp => hp, fun _ _ _ hp => hp⟩

theorem barrier_reach {cfg : FileWalConfig} {dirs : Nat → ShardDir} {s : Wal}
    (hs : (fileWal cfg dirs).Reach (InOrder cfg) s) : Barrier cfg s := by
  apply Machine.Reach.invariant (barrier_open cfg dirs) _ hs
  intro s a s' _ h ho hstep
  exact barrier_step h ho (steps_of_step hstep)

/-- **`flush` is a barrier.** In each state of each run in order, for a call of `flush` that has
returned `Ok`, each frame that was written before the call is in its segment file, and that file
was synced after it, on every shard. -/
theorem flushed_onDisk (cfg : FileWalConfig) (dirs : Nat → ShardDir) (s : Wal)
    (hs : (fileWal cfg dirs).Reach (InOrder cfg) s) (c : Nat) (before : Nat → List Placed)
    (hc : s.calls c = .flushed before) : ∀ i < cfg.shards, ∀ p ∈ before i, OnDisk (s.shards i).state p := by
  have h := (barrier_reach hs).calls c
  rw [hc] at h
  exact h

/-! ## Two runs -/

def Call.barrier : Call → Option (Nat → List Placed)
  | .flushed before => some before
  | _ => none

theorem barrier_eq_some {call : Call} {before : Nat → List Placed} (h : call.barrier = some before) :
    call = .flushed before := by
  unfold Call.barrier at h
  split at h <;> simp_all

/-- A check that is enough for a step in order: it is calm, and there is no shutdown. -/
def calmOpen (cfg : FileWalConfig) (s : Wal) : Label → Bool
  | .shutdown _ => false
  | .flushStep c => match s.calls c with
    | .flushWaiting _ i _ => !(s.shards i).state.shutdown
    | _ => true
  | a => calm cfg s a

theorem inOrder_of_calmOpen (cfg : FileWalConfig) (s : Wal) (a : Label) (h : calmOpen cfg s a = true) :
    InOrder cfg s a := by
  cases a with
  | append c m =>
    intro id hid
    unfold Shard.InOrder
    split
    · rename_i e hcall
      intro hroll
      simp only [hcall, Call.id, Option.some.injEq] at hid
      simp [calmOpen, calm, hcall, hid, hroll] at h
    · rename_i e n k hcall
      simp only [hcall, Call.id, Option.some.injEq] at hid
      simp only [calmOpen, calm, hcall, hid, Bool.and_eq_true, decide_eq_true_eq] at h
      rintro (hb | ⟨t, ht, -⟩)
      · rw [hid, h.1] at hb
        cases hb
      · rw [h.2] at ht
        cases ht
    · trivial
  | flushStep c =>
    intro before i target hcall hdown
    simp [calmOpen, hcall, hdown] at h
  | _ => trivial

theorem flushed_onDisk_one :
    let cfg : FileWalConfig := ⟨1, 1024, by decide⟩
    let dirs : Nat → ShardDir := fun _ => ⟨[], by simp⟩
    let p : Placed := ⟨⟨1, 7, .async, [5]⟩, 0, 0⟩
    ∃ s before, (fileWal cfg dirs).Reach (InOrder cfg) s ∧ s.calls 1 = .flushed before ∧ before 0 = [p] ∧
      ∀ i < cfg.shards, ∀ p ∈ before i, OnDisk (s.shards i).state p := by
  intro cfg dirs p
  have hrun : (((fileWal cfg dirs).restrict (calmOpen cfg)).run [.fetchAdd 0 [5] .async, .append 0 (.stamp 7),
      .append 0 .lock, .append 0 (.roll .ok), .append 0 (.write (.ok 0 0)), .append 0 .wait, .flush 1,
      .flushStep 1, .flusher 0 .choose, .flusher 0 (.doFlush .ok), .flusher 0 .publish, .flushStep 1]).map
      (fun s => decide ((s.calls 1).barrier.map (· 0) = some [p])) = some true := by decide
  obtain ⟨s, hs, hp⟩ := Machine.exists_of_restrict (fun s a _ => inOrder_of_calmOpen cfg s a) hrun
  obtain ⟨before, hb, h0⟩ := Option.map_eq_some_iff.mp (of_decide_eq_true hp)
  have hc := barrier_eq_some hb
  exact ⟨s, before, hs, hc, h0, flushed_onDisk cfg dirs s hs 1 before hc⟩

/-- The first frame is in segment 0. The second rolls over to segment 1, and `flush` is called
when both calls have returned. The flusher syncs segment 1, `flush` returns `Ok`, and segment 0
was never synced. -/
theorem flushed_not_onDisk :
    let cfg : FileWalConfig := ⟨1, 30, by decide⟩
    let dirs : Nat → ShardDir := fun _ => ⟨[], by simp⟩
    let p : Placed := ⟨⟨1, 7, .async, []⟩, 0, 0⟩
    ∃ s before, (fileWal cfg dirs).Reachable s ∧ s.calls 2 = .flushed before ∧ p ∈ before 0 ∧
      ¬ OnDisk (s.shards 0).state p := by
  intro cfg dirs p
  have hrun : ((fileWal cfg dirs).run [.fetchAdd 0 [] .async, .append 0 (.stamp 7), .append 0 .lock,
      .append 0 (.roll .ok), .append 0 (.write (.ok 0 0)), .append 0 .wait,
      .fetchAdd 1 [] .async, .append 1 (.stamp 8), .append 1 .lock, .append 1 (.roll .ok),
      .append 1 (.write (.ok 0 0)), .append 1 .wait, .flush 2, .flushStep 2, .flusher 0 .choose,
      .flusher 0 (.doFlush .ok), .flusher 0 .publish, .flushStep 2]).map
      (fun s => decide ((s.calls 2).barrier.map (fun before => decide (p ∈ before 0)) = some true) &&
        decide (¬ OnDisk (s.shards 0).state p)) = some true := by
    decide
  obtain ⟨s, hs, hp⟩ := Machine.exists_of_run hrun
  rw [Bool.and_eq_true, decide_eq_true_eq, decide_eq_true_eq] at hp
  obtain ⟨before, hb, hmem⟩ := Option.map_eq_some_iff.mp hp.1
  exact ⟨s, before, hs, barrier_eq_some hb, of_decide_eq_true hmem, hp.2⟩

end Riftgate.FileWal
