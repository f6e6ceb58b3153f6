import Riftgate.Durable

/-!
# Who wakes a waiting append

An append tests the shutdown flag only after somebody has woken it. The flusher leaves when the
last id in the buffer is durable. So an append is never left alone if it takes the mutex while
the flusher is there, and if no later append hides its id from the flusher.
-/

open Lib

namespace Riftgate.FileWal

open Riftgate.Frame

/-- The call waits in the condvar of its shard, and the flusher of that shard is gone. -/
def Orphaned (cfg : FileWalConfig) (s : CvWal) (c : Nat) : Prop :=
  ∃ p, s.wal.calls c = .parked p ∧ s.inCondvar c = true ∧
    (s.wal.shards (shardFor cfg p.entry.entryId)).flusher = .exited

/-- A durable append that has to wait takes the mutex before the flusher has left. An append that
writes an old id during the shutdown wakes those who wait. -/
def Attended (cfg : FileWalConfig) (flushBufferBytes : Nat) (s : CvWal) : CvLabel → Prop
  | .wal (.append c .lock) => ∀ e, s.wal.calls c = .stamped e → e.durability.waits = true →
    behind (s.wal.shards (shardFor cfg e.entryId)).state.lastDurable e.entryId = true →
    (s.wal.shards (shardFor cfg e.entryId)).flusher ≠ .exited
  | .wal (.append c (.write (.ok _ _))) => ∀ e, s.wal.calls c = .rolled e →
    (s.wal.shards (shardFor cfg e.entryId)).state.shutdown = true →
    behind (s.wal.shards (shardFor cfg e.entryId)).state.lastDurable e.entryId = false →
    needImmediateFlush flushBufferBytes (s.wal.shards (shardFor cfg e.entryId)) e = true
  | _ => True

/-! ## The machine with condvars and the one without -/

theorem condvars_step {cfg : FileWalConfig} {flushBufferBytes : Nat} {s s' : CvWal} {a : Label}
    (hs : s.step cfg flushBufferBytes (.wal a) = some s') :
    s.wal.step cfg a = some s'.wal ∧
      ((∃ c, (a = .append c .wait ∨ a = .append c .wake) ∧
        s'.inCondvar = Function.update s.inCondvar c ((s'.wal.calls c).waitsIn cfg).isSome) ∨
      ((∀ c, a ≠ .append c .wait ∧ a ≠ .append c .wake) ∧
        s'.inCondvar = s.notifyAll cfg (notifies cfg flushBufferBytes s.wal a))) := by
  unfold CvWal.step at hs
  split at hs
  · rename_i h
    cases h
  · rename_i c h
    cases h
    obtain ⟨w, hw, rfl⟩ := Option.map_eq_some_iff.mp hs
    exact ⟨hw, Or.inl ⟨c, Or.inl rfl, rfl⟩⟩
  · rename_i c h
    cases h
    split at hs
    · cases hs
    · obtain ⟨w, hw, rfl⟩ := Option.map_eq_some_iff.mp hs
      exact ⟨hw, Or.inl ⟨c, Or.inr rfl, rfl⟩⟩
  · rename_i hwait hwake h
    cases h
    obtain ⟨w, hw, rfl⟩ := Option.map_eq_some_iff.mp hs
    refine ⟨hw, Or.inr ⟨fun c => ⟨?_, ?_⟩, rfl⟩⟩
    · rintro rfl
      exact hwait c rfl
    · rintro rfl
      exact hwake c rfl

/-- Without its condvars, a run is a run of the first machine. -/
theorem condvars_fileWal {cfg : FileWalConfig} {flushBufferBytes : Nat} {dirs : Nat → ShardDir} {s : CvWal}
    (hs : (condvars cfg flushBufferBytes dirs).Reachable s) : (fileWal cfg dirs).Reachable s.wal := by
  apply Machine.Reachable.invariant _ _ hs
  · exact .init
  · intro s a s' h hstep
    cases a with
    | spurious c =>
      cases hstep
      exact h
    | wal a => exact .step h (condvars_step hstep).1 trivial

/-! ## What a shard owes to a call -/

/-- The flusher is there, if the call is going to wait. -/
def Shard.Stays (sh : Shard) (e : Entry) : Prop :=
  e.durability.waits = true → behind sh.state.lastDurable e.entryId = true → sh.flusher ≠ .exited

/-- The flusher is there. After the shutdown it has a reason to stay. -/
def Shard.Attends (sh : Shard) : Prop :=
  sh.flusher ≠ .exited ∧ (sh.state.shutdown = true →
    ∃ id, sh.state.lastBuffered = some id ∧ behind sh.state.lastDurable id = true)

def Shard.Guards (sh : Shard) (waits : Bool) : Call → Prop
  | .locked e | .rolled e => sh.Stays e
  | .written p => sh.Stays p.entry ∧ sh.state.lastBuffered = some p.entry.entryId
  | .parked _ => waits = true → sh.Attends
  | _ => True

structure Guarded (cfg : FileWalConfig) (s : CvWal) : Prop where
  exits : ∀ i, (s.wal.shards i).flusher = .exited → (s.wal.shards i).state.shutdown = true
  calls : ∀ c id, (s.wal.calls c).id = some id →
    (s.wal.shards (shardFor cfg id)).Guards (s.inCondvar c) (s.wal.calls c)

theorem Shard.Guards.mono {sh : Shard} {waits waits' : Bool} {call : Call} (h : sh.Guards waits call)
    (hw : waits' = true → waits = true) : sh.Guards waits' call := by
  cases call with
  | parked p => exact fun hw' => h (hw hw')
  | _ => exact h

theorem guards_free {sh : Shard} {waits : Bool} {call : Call} (hl : call.holds = none)
    (hp : ∀ p, call = .parked p → waits = true → sh.Attends) : sh.Guards waits call := by
  cases call with
  | locked e | rolled e | written p => cases hl
  | parked p => exact hp p rfl
  | _ => trivial

/-! ## append -/

theorem guards_takes {max c : Nat} {sh sh' : Shard} {waits waits' : Bool} {call call' : Call} {m : Move}
    (hs : sh.Takes max c call m sh' call') (h : sh.Guards waits call)
    (hexit : sh.flusher = .exited → sh.state.shutdown = true)
    (hlock : ∀ e, call = .stamped e → m = .lock → sh.Stays e) : sh'.Guards waits' call' := by
  cases hs with
  | lock e hl => exact hlock e rfl rfl
  | stay e io hr => exact h
  | roll e hr => exact h
  | write e n k => exact ⟨h, rfl⟩
  | park p hd hb => exact fun _ => ⟨h.1 hd hb, fun _ => ⟨_, h.2, hb⟩⟩
  | again p hl hb hdown =>
    have hup : ¬ sh.state.shutdown = true := by simp [hdown]
    exact fun _ => ⟨fun hex => hup (hexit hex), fun hdown' => absurd hdown' hup⟩
  | _ => trivial

theorem attends_takes {max c : Nat} {sh sh' : Shard} {call call' : Call} {m : Move}
    (hs : sh.Takes max c call m sh' call') (h : sh.Attends)
    (hwrite : ∀ e n k, call = .rolled e → m = .write (.ok n k) → sh.state.shutdown = true →
      behind sh.state.lastDurable e.entryId = true) : sh'.Attends := by
  cases hs with
  | write e n k => exact ⟨h.1, fun hdown => ⟨_, rfl, hwrite e n k rfl rfl hdown⟩⟩
  | writeFailed e io hio =>
    cases io with
    | ok n k => exact absurd rfl (hio n k)
    | headerFailed n => exact h
    | payloadFailed n k => exact h
  | _ => exact h

theorem guards_other {max c d : Nat} {sh sh' : Shard} {waits waits' : Bool} {call call' other : Call} {m : Move}
    (hs : sh.Takes max c call m sh' call') (hc : ∀ e, call.holds = some e → sh.lock = some c)
    (hd : ∀ e, other.holds = some e → sh.lock = some d) (hne : d ≠ c)
    (h : sh.Guards waits other) (hw : waits' = true → waits = true)
    (hwrite : ∀ e n k, call = .rolled e → m = .write (.ok n k) → ∀ p, other = .parked p → waits' = true →
      sh.state.shutdown = true → behind sh.state.lastDurable e.entryId = true) : sh'.Guards waits' other := by
  cases hh : other.holds with
  | some e =>
    rw [takes_locked hs hc (hd e hh) hne]
    exact h.mono hw
  | none =>
    refine guards_free hh ?_
    rintro p rfl hw'
    exact attends_takes hs (h (hw hw')) fun e n k hcall hm => hwrite e n k hcall hm p rfl hw'

/-! ## The flusher -/

theorem choose_exited {sh : Shard} (h : sh.choose = .exited) :
    sh.state.shutdown = true ∧ ∀ id, sh.state.lastBuffered = some id → behind sh.state.lastDurable id = false := by
  unfold Shard.choose at h
  split at h
  · rename_i target hlast
    split at h
    · cases h
    · rename_i hb
      split at h
      · rename_i hdown
        refine ⟨hdown, fun id hid => ?_⟩
        rw [hlast, Option.some.injEq] at hid
        simpa [hid] using hb
      · cases h
  · rename_i hlast
    split at h
    · rename_i hdown
      refine ⟨hdown, fun id hid => ?_⟩
      rw [hlast] at hid
      cases hid
    · cases h

theorem attends_flushes {sh sh' : Shard} {m : FlusherMove} (hs : sh.Flushes m sh') (hm : m ≠ .publish)
    (h : sh.Attends) : sh'.Attends := by
  cases hs with
  | choose hf =>
    refine ⟨fun hex => ?_, h.2⟩
    obtain ⟨hdown, hdone⟩ := choose_exited hex
    obtain ⟨id, hid, hb⟩ := h.2 hdown
    rw [hdone id hid] at hb
    cases hb
  | doFlush t io hf =>
    cases io with
    | ok => exact ⟨by simp [Shard.doFlush], h.2⟩
    | flushFailed n => exact ⟨by simp [Shard.doFlush], h.2⟩
    | syncFailed => exact ⟨by simp [Shard.doFlush], h.2⟩
  | publish t ok hf => exact absurd rfl hm

theorem exits_flushes {sh sh' : Shard} {m : FlusherMove} (hs : sh.Flushes m sh') (hex : sh'.flusher = .exited) :
    sh'.state.shutdown = true := by
  cases hs with
  | choose hf => exact (choose_exited hex).1
  | doFlush t io hf => cases io <;> cases hex
  | publish t ok hf => cases hex

/-! ## Whole runs -/

theorem exits_takes {max c : Nat} {sh sh' : Shard} {call call' : Call} {m : Move}
    (hs : sh.Takes max c call m sh' call') (h : sh.flusher = .exited → sh.state.shutdown = true)
    (hex : sh'.flusher = .exited) : sh'.state.shutdown = true := by
  cases hs with
  | writeFailed e io hio =>
    cases io with
    | ok n k => exact absurd rfl (hio n k)
    | headerFailed n => exact h hex
    | payloadFailed n k => exact h hex
  | _ => exact h hex

theorem guarded_open (cfg : FileWalConfig) (dirs : Nat → ShardDir) : Guarded cfg ⟨openWal dirs, fun _ => false⟩ where
  exits i hex := by cases hex
  calls c id hid := by cases hid

theorem notifyAll_le {cfg : FileWalConfig} {s : CvWal} {i : Option Nat} {c : Nat} (h : s.notifyAll cfg i c = true) :
    s.inCondvar c = true := by
  rw [CvWal.notifyAll, Bool.and_eq_true] at h
  exact h.1

theorem notifyAll_parked {cfg : FileWalConfig} {s : CvWal} {c : Nat} {p : Placed} (hp : s.wal.calls c = .parked p) :
    s.notifyAll cfg (some (shardFor cfg p.entry.entryId)) c = false := by
  simp [CvWal.notifyAll, hp, Call.waitsIn]

theorem Guarded.setCall {cfg : FileWalConfig} {s : CvWal} (h : Guarded cfg s) (n : UInt64) (c : Nat) {call : Call}
    {waits : Nat → Bool} (hw : ∀ d, waits d = true → s.inCondvar d = true)
    (hc : ∀ sh : Shard, sh.Guards (waits c) call) :
    Guarded cfg ⟨{ s.wal with nextEntryId := n }.setCall c call, waits⟩ where
  exits := h.exits
  calls d id hid := by
    simp only [Wal.setCall, Function.update_apply] at hid ⊢
    split
    · rename_i hd
      rw [hd]
      exact hc _
    · rename_i hd
      rw [if_neg hd] at hid
      exact (h.calls d id hid).mono (hw d)

theorem Guarded.setShard {cfg : FileWalConfig} {s : CvWal} (h : Guarded cfg s) (hx : Exclusive cfg s.wal) (i : Nat)
    {sh : Shard} {waits : Nat → Bool} (hl : (s.wal.shards i).lock = none)
    (hw : ∀ d, waits d = true → s.inCondvar d = true)
    (hex : sh.flusher = .exited → sh.state.shutdown = true)
    (hp : ∀ d p, s.wal.calls d = .parked p → shardFor cfg p.entry.entryId = i → waits d = true →
      (s.wal.shards i).Attends → sh.Attends) : Guarded cfg ⟨s.wal.setShard i sh, waits⟩ where
  exits j hj := by
    simp only [Wal.setShard, Function.update_apply] at hj ⊢
    split
    · rename_i hji
      rw [if_pos hji] at hj
      exact hex hj
    · rename_i hji
      rw [if_neg hji] at hj
      exact h.exits j hj
  calls d id hid := by
    have hid : (s.wal.calls d).id = some id := hid
    have hd := h.calls d id hid
    simp only [Wal.setShard, Function.update_apply]
    split
    · rename_i hi
      rw [hi] at hd
      have hfree : (s.wal.calls d).holds = none := by
        cases hh : (s.wal.calls d).holds with
        | none => rfl
        | some e =>
          have hlock := hx.self hid hh
          rw [hi, hl] at hlock
          cases hlock
      refine guards_free hfree fun p hcall hwd => ?_
      have hcall : s.wal.calls d = .parked p := hcall
      rw [hcall] at hid hd
      cases hid
      exact hp d p hcall hi hwd (hd (hw d hwd))
    · exact hd.mono (hw d)

theorem Guarded.append {cfg : FileWalConfig} {s : CvWal} (h : Guarded cfg s) (hx : Exclusive cfg s.wal) {c : Nat}
    {m : Move} {id : UInt64} {sh : Shard} {call : Call} {waits : Nat → Bool} (hid : (s.wal.calls c).id = some id)
    (hs : (s.wal.shards (shardFor cfg id)).Takes cfg.segmentSizeMax c (s.wal.calls c) m sh call)
    (hw : ∀ d, d ≠ c → waits d = true → s.inCondvar d = true)
    (hlock : ∀ e, s.wal.calls c = .stamped e → m = .lock → (s.wal.shards (shardFor cfg id)).Stays e)
    (hwrite : ∀ e n k, s.wal.calls c = .rolled e → m = .write (.ok n k) → ∀ d p, s.wal.calls d = .parked p →
      shardFor cfg p.entry.entryId = shardFor cfg id → waits d = true →
      (s.wal.shards (shardFor cfg id)).state.shutdown = true →
      behind (s.wal.shards (shardFor cfg id)).state.lastDurable e.entryId = true) :
    Guarded cfg ⟨(s.wal.setShard (shardFor cfg id) sh).setCall c call, waits⟩ := by
  have hmove := h.calls c id hid
  have hxc := fun e he => hx.self (e := e) hid he
  generalize hi : shardFor cfg id = i at *
  refine ⟨fun j hj => ?_, fun d id' hid' => ?_⟩
  · simp only [Wal.setCall, Wal.setShard, Function.update_apply] at hj ⊢
    split
    · rename_i hji
      rw [if_pos hji] at hj
      exact exits_takes hs (h.exits i) hj
    · rename_i hji
      rw [if_neg hji] at hj
      exact h.exits j hj
  · simp only [Wal.setCall, Wal.setShard, Function.update_apply] at hid' ⊢
    by_cases hd : d = c
    · subst hd
      rw [if_pos rfl] at hid' ⊢
      have hsame := takes_id hs hid'
      rw [hid, Option.some.injEq] at hsame
      rw [← hsame, hi, if_pos rfl]
      exact guards_takes hs hmove (h.exits i) hlock
    · rw [if_neg hd] at hid' ⊢
      have hother := h.calls d id' hid'
      split
      · rename_i hi'
        rw [hi'] at hother
        have hxd : ∀ e, (s.wal.calls d).holds = some e → (s.wal.shards i).lock = some d :=
          fun e he => hi' ▸ hx.self hid' he
        refine guards_other hs hxc hxd hd hother (hw d hd) fun e n k hcall hm p hp hwd => ?_
        have hp : s.wal.calls d = .parked p := hp
        rw [hp] at hid'
        cases hid'
        exact hwrite e n k hcall hm d p hp hi' hwd
      · exact hother.mono (hw d hd)

theorem inCondvar_step {cfg : FileWalConfig} {flushBufferBytes : Nat} {s s' : CvWal} {a : Label}
    (hs : s.step cfg flushBufferBytes (.wal a) = some s') {d : Nat} (hd : ∀ m, a = .append d m → m ≠ .wait ∧ m ≠ .wake)
    (hw : s'.inCondvar d = true) : s.inCondvar d = true := by
  obtain ⟨-, ⟨c, hc, heq⟩ | ⟨-, heq⟩⟩ := condvars_step hs
  · have hne : d ≠ c := by
      rintro rfl
      rcases hc with rfl | rfl
      · exact (hd _ rfl).1 rfl
      · exact (hd _ rfl).2 rfl
    rwa [heq, Function.update_of_ne hne] at hw
  · rw [heq] at hw
    exact notifyAll_le hw

theorem inCondvar_notified {cfg : FileWalConfig} {flushBufferBytes : Nat} {s s' : CvWal} {a : Label}
    (hs : s.step cfg flushBufferBytes (.wal a) = some s') {d : Nat} {p : Placed} (hp : s.wal.calls d = .parked p)
    (hn : notifies cfg flushBufferBytes s.wal a = some (shardFor cfg p.entry.entryId)) : s'.inCondvar d = false := by
  obtain ⟨-, ⟨c, hc, -⟩ | ⟨-, heq⟩⟩ := condvars_step hs
  · rcases hc with rfl | rfl <;> cases hn
  · rw [heq, hn]
    exact notifyAll_parked hp

theorem flushCall_guards {cfg : FileWalConfig} {sh : Shard} {call call' : Call} (h : sh.flushCall cfg call = some call')
    (waits : Bool) (sh' : Shard) : sh'.Guards waits call' := by
  obtain ⟨before, i, rfl⟩ | ⟨before, i, target, rfl⟩ | ⟨before, rfl⟩ := flushCall_cases h <;> trivial

theorem guarded_step {cfg : FileWalConfig} {flushBufferBytes : Nat} {s s' : CvWal} {a : Label} (h : Guarded cfg s)
    (hx : Exclusive cfg s.wal)
    (ha : Attended cfg flushBufferBytes s (.wal a)) (hs : s.step cfg flushBufferBytes (.wal a) = some s') :
    Guarded cfg s' := by
  have hstep := steps_of_step (condvars_step hs).1
  have hle := @inCondvar_step cfg flushBufferBytes s s' a hs
  have hnotified := @inCondvar_notified cfg flushBufferBytes s s' a hs
  obtain ⟨w', waits⟩ := s'
  simp only at hstep hle hnotified
  cases hstep with
  | fetchAdd c payload durability _ =>
    exact h.setCall _ c (fun d hd => hle (by simp) hd) (fun _ => trivial)
  | append c m hid hr =>
    refine h.append hx hid (takes_of_append hr) ?_ ?_ ?_
    · intro d hne hd
      exact hle (fun m hm => by cases hm; exact absurd rfl hne) hd
    · rintro e hcall rfl
      rw [hcall] at hid
      cases hid
      exact ha e hcall
    · rintro e n k hcall rfl d p hp hsame hd hdown
      rw [hcall] at hid
      cases hid
      by_contra hb
      have hneed := ha e hcall hdown (by simpa using hb)
      have hn : notifies cfg flushBufferBytes s.wal (.append c (.write (.ok n k))) =
          some (shardFor cfg p.entry.entryId) := by
        simp [notifies, hcall, hneed, hsame]
      rw [hnotified hp hn] at hd
      cases hd
  | flush c _ => exact h.setCall _ c (fun d hd => hle (by simp) hd) (fun _ => trivial)
  | flushLook c _ hf => exact h.setCall _ c (fun d hd => hle (by simp) hd) (flushCall_guards hf _)
  | flushWait c _ hf => exact h.setCall _ c (fun d hd => hle (by simp) hd) (flushCall_guards hf _)
  | flusher i m hl hf =>
    refine h.setShard hx i hl (fun d hd => hle (by simp) hd) (exits_flushes hf) fun d p hp hi hd hat => ?_
    refine attends_flushes hf ?_ hat
    rintro rfl
    rw [hnotified hp (by simp [notifies, hi])] at hd
    cases hd
  | shutdown i hl =>
    refine h.setShard hx i hl (fun d hd => hle (by simp) hd) (fun _ => rfl) fun d p hp hi hd hat => ?_
    rw [hnotified hp (by simp [notifies, hi])] at hd
    cases hd

theorem guarded_reach {cfg : FileWalConfig} {flushBufferBytes : Nat} {dirs : Nat → ShardDir} {s : CvWal}
    (hs : (condvars cfg flushBufferBytes dirs).Reach (Attended cfg flushBufferBytes) s) : Guarded cfg s := by
  apply Machine.Reach.invariant (guarded_open cfg dirs) _ hs
  intro s a s' hr h ha hstep
  cases a with
  | wal a =>
    have hx := exclusive_reachable (condvars_fileWal (hr.mono fun _ _ _ => trivial))
    exact guarded_step h hx ha hstep
  | spurious c =>
    cases hstep
    refine ⟨h.exits, fun d id hid => (h.calls d id hid).mono fun hd => ?_⟩
    simp only [Function.update_apply] at hd
    split at hd
    · cases hd
    · exact hd

/-- **No append is left alone.** In each state of each run in which durable appends take the mutex
before the flusher has left, and appends that write an old id during the shutdown wake the others,
no append waits in the condvar of a shard whose flusher has exited. -/
theorem not_orphaned (cfg : FileWalConfig) (flushBufferBytes : Nat) (dirs : Nat → ShardDir) (s : CvWal)
    (hs : (condvars cfg flushBufferBytes dirs).Reach (Attended cfg flushBufferBytes) s) (c : Nat) :
    ¬ Orphaned cfg s c := by
  rintro ⟨p, hp, hw, hex⟩
  have hid : (s.wal.calls c).id = some p.entry.entryId := by rw [hp]; rfl
  have hg := (guarded_reach hs).calls c _ hid
  rw [hp] at hg
  exact (hg hw).1 hex

/-! ## Two runs -/

def Call.waiting : Call → Option Placed
  | .parked p => some p
  | _ => none

theorem waiting_eq_some {call : Call} {p : Placed} (h : call.waiting = some p) : call = .parked p := by
  unfold Call.waiting at h
  split at h <;> simp_all

/-- A check that is enough for an attended step. -/
def attended (cfg : FileWalConfig) (s : CvWal) : CvLabel → Bool
  | .wal (.append c .lock) => match s.wal.calls c with
    | .stamped e => decide ((s.wal.shards (shardFor cfg e.entryId)).flusher ≠ .exited)
    | _ => true
  | .wal (.append c (.write _)) => match s.wal.calls c with
    | .rolled e => behind (s.wal.shards (shardFor cfg e.entryId)).state.lastDurable e.entryId
    | _ => true
  | _ => true

theorem attended_of_check (cfg : FileWalConfig) (flushBufferBytes : Nat) (s : CvWal) (a : CvLabel)
    (h : attended cfg s a = true) : Attended cfg flushBufferBytes s a := by
  unfold Attended
  split
  · intro e hcall _ _
    simpa [attended, hcall] using h
  · intro e hcall _ hb
    simp [attended, hcall, hb] at h
  · trivial

/-- The shutdown comes first, but the flusher has not seen it when the append starts to wait. -/
theorem not_orphaned_shutdown :
    let cfg : FileWalConfig := ⟨1, 1024, by decide⟩
    let dirs : Nat → ShardDir := fun _ => ⟨[], by simp⟩
    let p : Placed := ⟨⟨1, 7, .fdataSync, [5]⟩, 0, 0⟩
    ∃ s, (condvars cfg 256 dirs).Reach (Attended cfg 256) s ∧ s.wal.calls 0 = .parked p ∧ s.inCondvar 0 = true ∧
      (s.wal.shards 0).state.shutdown = true ∧ ¬ Orphaned cfg s 0 := by
  intro cfg dirs p
  have hrun : (((condvars cfg 256 dirs).restrict (attended cfg)).run
      [.wal (.shutdown 0), .wal (.fetchAdd 0 [5] .fdataSync), .wal (.append 0 (.stamp 7)), .wal (.append 0 .lock),
      .wal (.append 0 (.roll .ok)), .wal (.append 0 (.write (.ok 0 0))), .wal (.append 0 .wait)]).map
      (fun s => decide ((s.wal.calls 0).waiting = some p) && s.inCondvar 0 && (s.wal.shards 0).state.shutdown) =
      some true := by decide
  obtain ⟨s, hs, hp⟩ := Machine.exists_of_restrict (fun s a _ => attended_of_check cfg 256 s a) hrun
  rw [Bool.and_eq_true, Bool.and_eq_true, decide_eq_true_eq] at hp
  obtain ⟨⟨hp, hw⟩, hdown⟩ := hp
  exact ⟨s, hs, waiting_eq_some hp, hw, hdown, not_orphaned cfg 256 dirs s hs 0⟩

/-- An append after the shutdown. It waits for a flusher that has left. -/
theorem orphaned_after_shutdown :
    let cfg : FileWalConfig := ⟨1, 1024, by decide⟩
    let dirs : Nat → ShardDir := fun _ => ⟨[], by simp⟩
    ∃ s, (condvars cfg 256 dirs).Reachable s ∧ Orphaned cfg s 0 := by
  intro cfg dirs
  let p : Placed := ⟨⟨1, 7, .fdataSync, [5]⟩, 0, 0⟩
  have hrun : ((condvars cfg 256 dirs).run [.wal (.shutdown 0), .wal (.flusher 0 .choose),
      .wal (.fetchAdd 0 [5] .fdataSync), .wal (.append 0 (.stamp 7)), .wal (.append 0 .lock),
      .wal (.append 0 (.roll .ok)), .wal (.append 0 (.write (.ok 0 0))), .wal (.append 0 .wait)]).map
      (fun s => decide ((s.wal.calls 0).waiting = some p) && s.inCondvar 0 &&
        decide ((s.wal.shards (shardFor cfg p.entry.entryId)).flusher = .exited)) = some true := by decide
  obtain ⟨s, hs, hp⟩ := Machine.exists_of_run hrun
  rw [Bool.and_eq_true, Bool.and_eq_true, decide_eq_true_eq, decide_eq_true_eq] at hp
  obtain ⟨⟨hp, hw⟩, hex⟩ := hp
  exact ⟨s, hs, p, waiting_eq_some hp, hw, hex⟩

end Riftgate.FileWal
