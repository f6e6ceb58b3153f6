import Riftgate.Durable
import Riftgate.Code.FileWalCrashes
import Riftgate.Lib.Logs
import Riftgate.Lib.Runs

/-!
# What a crash leaves

No step takes back a byte of a file, and no crash a byte that was synced. So a frame that was once acknowledged as
durable stays where it is.
-/

open Lib

namespace Riftgate.FileWal

open Riftgate.Frame

/-! ## One step -/

/-- What is synced stays, and the rest stays too. -/
def Survive (fs gs : List Segment) : Prop :=
  Kept Segment.seqno Segment.durable fs gs ∧ Kept Segment.seqno Segment.bytes fs gs

theorem Survive.refl (fs : List Segment) : Survive fs fs := ⟨.refl fs, .refl fs⟩

theorem Survive.trans {fs gs hs : List Segment} (h : Survive fs gs) (h' : Survive gs hs) : Survive fs hs :=
  ⟨h.1.trans h'.1, h.2.trans h'.2⟩

theorem durable_prefix {f g : Segment} (h : f.Grows g) : f.durable <+: g.durable := by
  obtain ⟨-, hbytes, hsynced⟩ := h
  unfold Segment.durable
  rw [List.prefix_take_iff]
  refine ⟨( List.take_prefix _ _).trans hbytes, ?_⟩
  have hlen := hbytes.length_le
  rw [List.length_take]
  omega

theorem survive_of_grows {st st' : ShardState} (h : st.Grows st') : Survive st.segments st'.segments := by
  constructor
  · intro f hf _
    obtain ⟨g, hg, hgrows⟩ := h f hf
    exact ⟨g, hg, hgrows.1, durable_prefix hgrows⟩
  · intro f hf _
    obtain ⟨g, hg, hgrows⟩ := h f hf
    exact ⟨g, hg, hgrows.1, hgrows.2.1⟩

theorem grows_appends {max : Nat} {sh sh' : Shard} {call call' : Call} {m : Move}
    (hs : sh.Appends max call m sh' call') : Survive sh.state.segments sh'.state.segments := by
  cases hs with
  | quiet | parked | acked => exact .refl _
  | rolled e hroll =>
    exact (survive_of_grows (drain_grows _ _)).trans (survive_of_grows (nextSegment_grows _))
  | written e n k => exact survive_of_grows (writeFrame_grows _ e n k)
  | drained n => exact survive_of_grows (drain_grows _ n)
  | torn e io hf =>
    cases io with
    | ok n k => cases hf
    | headerFailed n => exact survive_of_grows (writeAllFailed_grows _ _ n)
    | payloadFailed n k =>
      exact (survive_of_grows (writeAll_grows _ _ n)).trans (survive_of_grows (writeAllFailed_grows _ _ k))

theorem grows_flushes {sh sh' : Shard} {m : FlusherMove} (hs : sh.Flushes m sh') :
    Survive sh.state.segments sh'.state.segments := by
  cases hs with
  | choose hf => exact .refl _
  | doFlush t io hf =>
    cases io with
    | ok => exact survive_of_grows (doFlush_grows _)
    | flushFailed n => exact survive_of_grows (drain_grows _ n)
    | syncFailed => exact survive_of_grows (drain_grows _ _)
  | publish t ok hf => cases ok <;> exact .refl _

theorem survive_setShard {s : Wal} {i : Nat} {sh : Shard}
    (h : Survive (s.shards i).state.segments sh.state.segments) (j : Nat) :
    Survive (s.shards j).state.segments ((s.setShard i sh).shards j).state.segments := by
  by_cases hj : j = i
  · subst hj
    simpa [Wal.setShard] using h
  · simpa [Wal.setShard, hj] using Survive.refl _

theorem survive_wal {cfg : FileWalConfig} {w w' : Wal} {a : Label} (hs : w.step cfg a = some w') (i : Nat) :
    Survive (w.shards i).state.segments (w'.shards i).state.segments := by
  cases steps_of_step hs with
  | append c m hid h => exact survive_setShard (grows_appends (appends_of_append h)) i
  | flusher j m hl h => exact survive_setShard (grows_flushes h) i
  | shutdown j h =>
    apply survive_setShard
    exact .refl (w.shards j).state.segments
  | fetchAdd | flush | flushLook | flushWait => exact .refl _

/-! ## Lifetimes and crashes -/

theorem survive_open (dir : ShardDir) : Survive dir.segments (openShard dir).segments := by
  have hsub : dir.segments ⊆ (openShard dir).segments := by
    rw [openShard_segments, ShardDir.files]
    split
    · rename_i hnil
      simp [hnil]
    · exact List.Subset.refl _
  exact ⟨.of_subset hsub, .of_subset hsub⟩

theorem survive_root {s s' : Root} {a : RootLabel} (hs : s.step a = some s') (i : Nat) :
    Survive (s.files i).segments (s'.files i).segments := by
  obtain ⟨dirs, frames, wal⟩ := s
  cases a with
  | «open» cfg =>
    cases wal with
    | some _ => cases hs
    | none =>
      cases hs
      simp only [Root.files]
      split
      · exact survive_open _
      · exact .refl _
  | wal a =>
    cases wal with
    | none => cases hs
    | some wal =>
      obtain ⟨w', hw, rfl⟩ := Option.map_eq_some_iff.mp hs
      simp only [Root.files]
      split
      · exact survive_wal hw i
      · exact .refl _
  | close =>
    cases wal with
    | none => cases hs
    | some wal =>
      cases hs
      simp only [Root.files, Root.close]
      split
      · exact survive_of_grows (drain_grows _ _)
      · exact .refl _

/-- After a power cut each file with synced bytes still has its entry in the directory. The WAL does not see to that
itself, as it never syncs the directory. -/
def EntriesKept (s : Root) : CrashLabel → Prop
  | .powerCut behind => ∀ i, ∀ f ∈ (s.files i).segments, f.durable ≠ [] → (behind i f.seqno).isSome
  | _ => True

theorem kept_powerCut {dir : ShardDir} {behind : Nat → Option (List Byte)}
    (hkept : ∀ f ∈ dir.segments, f.durable ≠ [] → (behind f.seqno).isSome) :
    Kept Segment.seqno Segment.durable dir.segments (dir.powerCut behind).segments := by
  refine .filterMap ?_ ?_
  · intro f hf hgone
    by_contra hne
    rw [Segment.powerCut, Option.map_eq_none_iff] at hgone
    simpa [hgone] using hkept f hf hne
  · intro f g hg
    obtain ⟨b, -, rfl⟩ := powerCut_some hg
    have hshort : f.durable.length ≤ f.synced := by simp [Segment.durable]
    refine ⟨rfl, ?_⟩
    show f.durable <+: (f.durable ++ b).take f.synced
    exact List.prefix_take_iff.mpr ⟨List.prefix_append _ _, hshort⟩

def CrashLabel.isPowerCut : CrashLabel → Bool
  | .powerCut _ => true
  | _ => false

theorem survive_step {s s' : Root} {a : CrashLabel} (hs : s.crashStep a = some s') (ha : a.isPowerCut = false)
    (i : Nat) : Survive (s.files i).segments (s'.files i).segments := by
  cases a with
  | root a => exact survive_root hs i
  | kill =>
    cases hs
    exact .refl _
  | powerCut behind => cases ha

theorem survive_crash {s s' : Root} {a : CrashLabel} (hs : s.crashStep a = some s') (hkept : EntriesKept s a) (i : Nat) :
    Kept Segment.seqno Segment.durable (s.files i).segments (s'.files i).segments := by
  cases a with
  | root a => exact (survive_root hs i).1
  | kill =>
    cases hs
    exact .refl _
  | powerCut behind =>
    cases hs
    exact kept_powerCut (hkept i)

/-! ## Every run -/

theorem durable_kept {s s' : Root} {labels : List CrashLabel} (hentries : crashes.Meets EntriesKept s labels)
    (hrun : crashes.runFrom s labels = some s') (i : Nat) :
    Kept Segment.seqno Segment.durable (s.files i).segments (s'.files i).segments :=
  Machine.Meets.invariant (I := fun t => Kept Segment.seqno Segment.durable (s.files i).segments (t.files i).segments)
    (fun _ _ _ ht hc hstep => ht.trans (survive_crash hstep hc i)) (.refl _) hentries hrun

theorem bytes_kept {s s' : Root} {labels : List CrashLabel} (hcuts : ∀ a ∈ labels, a.isPowerCut = false)
    (hrun : crashes.runFrom s labels = some s') (i : Nat) :
    Kept Segment.seqno Segment.bytes (s.files i).segments (s'.files i).segments :=
  Machine.runFrom_invariant
    (I := fun t => Kept Segment.seqno Segment.bytes (s.files i).segments (t.files i).segments)
    (fun _ _ _ ht ha hstep => ht.trans (survive_step hstep ha i).2) (.refl _) hcuts hrun

/-- **Nothing that was synced is lost**, whatever lifetimes, failures of the disk and crashes follow, if no power cut
takes the entry of such a file: the file is there and has those bytes at its front, and its reader finds the frames that
it found in them. Without a power cut this holds of all the bytes of a file. -/
theorem files_survive {s s' : Root} {labels : List CrashLabel} (hrun : crashes.runFrom s labels = some s') (i : Nat)
    {f : Segment} (hf : f ∈ (s.files i).segments) :
    (crashes.Meets EntriesKept s labels → f.durable ≠ [] → ∃ g ∈ (s'.files i).segments, g.seqno = f.seqno ∧
      f.durable <+: g.durable ∧ okFrames (tryParseFrames f.durable) <+: okFrames (tryParseFrames g.bytes)) ∧
    ((∀ a ∈ labels, a.isPowerCut = false) → f.bytes ≠ [] → ∃ g ∈ (s'.files i).segments, g.seqno = f.seqno ∧
      f.bytes <+: g.bytes ∧ okFrames (tryParseFrames f.bytes) <+: okFrames (tryParseFrames g.bytes)) := by
  have hframes : ∀ {b b' : List Byte}, b <+: b' → okFrames (tryParseFrames b) <+: okFrames (tryParseFrames b') := by
    intro b b' hb
    rw [tryParseFrames_eq_decode, tryParseFrames_eq_decode]
    exact wal.frames_prefix hb
  constructor
  · intro hentries hne
    obtain ⟨g, hg, hseq, hpre⟩ := durable_kept hentries hrun i f hf hne
    exact ⟨g, hg, hseq, hpre, hframes (hpre.trans ( List.take_prefix _ _))⟩
  · intro hcuts hne
    obtain ⟨g, hg, hseq, hpre⟩ := bytes_kept hcuts hrun i f hf hne
    exact ⟨g, hg, hseq, hpre, hframes hpre⟩

theorem frameAt_durable {f : Segment} {p : Placed} (hat : FrameAt f.bytes p) (hstop : p.stop ≤ f.synced) :
    FrameAt f.durable p := by
  unfold FrameAt Segment.durable at *
  rw [List.drop_take, List.prefix_take_iff]
  refine ⟨hat, ?_⟩
  unfold Placed.stop at hstop
  omega

/-- **An acknowledged frame outlives every crash** that leaves its file an entry. `append` has returned `Ok` for a durable
level in an orderly run. Then the whole frame is at its place in its file in every later state, whatever follows. -/
theorem acked_survives {cfg : FileWalConfig} {dirs : Nat → ShardDir} {w : Wal}
    (hw : (fileWal cfg dirs).Reach (Orderly cfg) w) {c : Nat} {p : Placed} (hp : w.calls c = .acked p)
    (hd : p.entry.durability.waits = true) {s s' : Root} (hs : s.wal = some (cfg, w)) {labels : List CrashLabel}
    (hentries : crashes.Meets EntriesKept s labels) (hrun : crashes.runFrom s labels = some s') :
    ∃ g ∈ (s'.files (shardFor cfg p.entry.entryId)).segments, g.seqno = p.seqno ∧ FrameAt g.bytes p := by
  obtain ⟨f, hf, hseq, hat, hstop⟩ := (durable_reach hw).acked c p hd hp
  have hshard : shardFor cfg p.entry.entryId < cfg.shards := Nat.mod_lt _ cfg.shards_pos
  have hfiles : s.files (shardFor cfg p.entry.entryId) = (w.shards (shardFor cfg p.entry.entryId)).state.files := by
    simp only [Root.files, hs, if_pos hshard]
  have hat := frameAt_durable hat hstop
  have hne : f.durable ≠ [] := by
    have hlen := hat.stop_le
    have hpos : 0 < p.stop := by simp [Placed.stop, encodeEntry, header]
    intro hnil
    rw [hnil, List.length_nil] at hlen
    omega
  have hmem : f ∈ (s.files (shardFor cfg p.entry.entryId)).segments := hfiles ▸ hf
  obtain ⟨g, hg, hgseq, hpre⟩ := durable_kept hentries hrun _ f hmem hne
  exact ⟨g, hg, hgseq.trans hseq, hat.mono (hpre.trans ( List.take_prefix _ _))⟩

/-! ## A power cut after one append -/

def oneShard : FileWalConfig := ⟨1, 1024, by decide⟩

def fiveSynced : Placed := ⟨⟨1, 7, .fdataSync, [5]⟩, 0, 0⟩

theorem five_acked : ∃ w, (fileWal oneShard fun _ => noFiles).Reach (Orderly oneShard) w ∧
    w.calls 0 = .acked fiveSynced ∧
    (w.shards 0).state.files.segments = [⟨0, encodeEntry fiveSynced.entry, 23⟩] := by
  have hrun : (((fileWal oneShard fun _ => noFiles).restrict (calm oneShard)).run [.fetchAdd 0 [5] .fdataSync,
      .append 0 (.stamp 7), .append 0 .lock, .append 0 (.roll .ok), .append 0 (.write (.ok 0 0)), .append 0 .wait,
      .flusher 0 .choose, .flusher 0 (.doFlush .ok), .flusher 0 .publish, .append 0 .wake]).map
      (fun w => decide ((w.calls 0).returned = some fiveSynced ∧
        (w.shards 0).state.files.segments = [⟨0, encodeEntry fiveSynced.entry, 23⟩])) = some true := by decide
  obtain ⟨w, hw, hp⟩ := Machine.exists_of_restrict (fun s a _ => orderly_of_calm oneShard s a) hrun
  obtain ⟨hcall, hfiles⟩ := of_decide_eq_true hp
  exact ⟨w, hw, returned_eq_some hcall, hfiles⟩

/-- The disk has some bytes of another frame behind it. -/
def cutAndOpen : List CrashLabel := [.powerCut fun _ _ => some [3, 0], .root (.open oneShard)]

def whileOpen (w : Wal) : Root := ⟨fun _ => noFiles, fun _ => [], some (oneShard, w)⟩

theorem cutAndOpen_run (w : Wal) : ∃ s', crashes.runFrom (whileOpen w) cutAndOpen = some s' := ⟨_, rfl⟩

theorem cutAndOpen_kept (s : Root) : crashes.Meets EntriesKept s cutAndOpen :=
  fun _ _ => ⟨fun _ _ _ _ => rfl, fun _ _ => ⟨trivial, trivial⟩⟩

theorem five_survives : ∃ w s', crashes.runFrom (whileOpen w) cutAndOpen = some s' ∧
    ∃ g ∈ (s'.files (shardFor oneShard 1)).segments, g.seqno = 0 ∧ FrameAt g.bytes fiveSynced := by
  obtain ⟨w, hw, hacked, -⟩ := five_acked
  obtain ⟨s', hrun⟩ := cutAndOpen_run w
  exact ⟨w, s', hrun, acked_survives hw hacked rfl rfl (cutAndOpen_kept _) hrun⟩

theorem five_files_survive : ∃ w s', crashes.runFrom (whileOpen w) cutAndOpen = some s' ∧
    ∃ g ∈ (s'.files 0).segments, g.seqno = 0 ∧ encodeEntry fiveSynced.entry <+: g.durable := by
  obtain ⟨w, -, -, hfiles⟩ := five_acked
  obtain ⟨s', hrun⟩ := cutAndOpen_run w
  have hmem : ⟨0, encodeEntry fiveSynced.entry, 23⟩ ∈ ((whileOpen w).files 0).segments := by
    show _ ∈ (w.shards 0).state.files.segments
    rw [hfiles]
    exact List.mem_singleton_self _
  obtain ⟨g, hg, hseq, hpre, -⟩ := (files_survive hrun 0 hmem).1 (cutAndOpen_kept _) (by decide)
  exact ⟨w, s', hrun, g, hg, hseq, hpre⟩

/-- Without the entry of its file the frame is gone. -/
example (w : Wal) : ∃ s', crashes.runFrom (whileOpen w) [.powerCut fun _ _ => none] = some s' ∧
    (s'.files 0).segments = [] :=
  ⟨_, rfl, List.filterMap_eq_nil_iff.mpr fun _ _ => rfl⟩

end Riftgate.FileWal
