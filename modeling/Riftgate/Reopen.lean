import Mathlib.Data.List.Induction
import Riftgate.Frame
import Riftgate.Code.FileWal

/-!
# Reopening a shard after a crash

`open` takes the last segment as it is and appends behind whatever the crash left there. The
reader has no way to find the next frame behind a torn one.
-/

open Lib

namespace Riftgate.FileWal

open Riftgate.Frame

/-! ## Opening takes the last segment -/

theorem highest_le (ns : List Nat) (m : Nat) (h : ∀ n ∈ ns, n ≤ m) :
    ∀ x, highest ns = some x → x ≤ m := by
  induction ns using List.reverseRecOn with
  | nil => intro x hx; cases hx
  | append_singleton ns n ih =>
    intro x hx
    have ih' := ih (fun k hk => h k (List.mem_append_left _ hk))
    have hn := h n (by simp)
    rw [highest_append_one, Option.some.injEq] at hx
    cases hh : highest ns with
    | none => rw [hh] at hx; simp only [Option.elim] at hx; omega
    | some y =>
      have := ih' y hh
      rw [hh] at hx
      simp only [Option.elim] at hx
      omega

theorem highest_last (ns : List Nat) (n : Nat) (h : ∀ k ∈ ns, k ≤ n) : highest (ns ++ [n]) = some n := by
  rw [highest_append_one]
  cases hh : highest ns with
  | none => rfl
  | some y =>
    have := highest_le ns n h y hh
    simp only [Option.elim, Option.some.injEq]
    omega

theorem openInitialSegment_last (cs : List Segment) (l : Segment)
    (h : ((cs ++ [l]).map (·.seqno)).Pairwise (· < ·)) : openInitialSegment (cs ++ [l]) = l := by
  rw [List.map_append, List.pairwise_append] at h
  have hlt : ∀ c ∈ cs, c.seqno < l.seqno := fun c hc => h.2.2 _ (List.mem_map_of_mem hc) _ (by simp)
  have hhigh : highest ((cs ++ [l]).map (·.seqno)) = some l.seqno := by
    rw [List.map_append]
    apply highest_last
    intro k hk
    obtain ⟨c, hc, rfl⟩ := List.mem_map.mp hk
    exact Nat.le_of_lt (hlt c hc)
  have hnone : cs.find? (fun s => s.seqno = l.seqno) = none := by
    rw [List.find?_eq_none]
    intro c hc
    have := hlt c hc
    simp only [decide_eq_true_eq]
    omega
  rw [openInitialSegment, hhigh, openSegment, Option.getD_some, List.find?_append, hnone]
  simp

/-- The files that `open` works on: an empty directory gets segment 0. -/
def ShardDir.files (dir : ShardDir) : List Segment :=
  if dir.segments = [] then [⟨0, [], 0⟩] else dir.segments

theorem openShard_segments (dir : ShardDir) : (openShard dir).segments = dir.files := by
  unfold ShardDir.files
  rcases List.eq_nil_or_concat dir.segments with h | ⟨cs, l, h⟩
  · rw [if_pos h]
    simp [openShard, ShardState.segments, openInitialSegment, openSegment, highest, h]
  · have hs := dir.sorted
    rw [h, List.concat_eq_append] at hs
    have ho := openInitialSegment_last cs l hs
    rw [List.map_append, List.pairwise_append] at hs
    rw [if_neg (by simp [h])]
    simp only [ShardState.segments, openShard, h, List.concat_eq_append, ho, List.filter_append]
    rw [List.filter_eq_self.mpr]
    · simp
    · intro c hc
      have := hs.2.2 _ (List.mem_map_of_mem hc) l.seqno (by simp)
      simp only [ne_eq, decide_not, Bool.not_eq_eq_eq_not, Bool.not_true, decide_eq_false_iff_not]
      omega

/-! ## What appending does to the files

`BufWriter` moves bytes from its buffer to the file when it likes. The file followed by the
buffer does not see that.
-/

def ShardState.stream (st : ShardState) : List Byte := st.current.bytes ++ st.buf

@[simp] theorem drain_stream (st : ShardState) (n : Nat) : (st.drain n).stream = st.stream := by
  simp [ShardState.drain, ShardState.stream]

@[simp] theorem writeAll_stream (st : ShardState) (data : List Byte) (n : Nat) :
    (st.writeAll data n).stream = st.stream ++ data := by
  simp [ShardState.writeAll, ShardState.stream, ShardState.drain]

theorem writeFrame_stream (st : ShardState) (e : Entry) (n m : Nat) :
    (st.writeFrame e n m).stream = st.stream ++ encodeEntry e := by
  calc (st.writeFrame e n m).stream
      = ((st.writeAll (entryHeader e) n).writeAll e.payload m).stream := rfl
    _ = st.stream ++ entryHeader e ++ e.payload := by rw [writeAll_stream, writeAll_stream]
    _ = st.stream ++ encodeEntry e := by rw [List.append_assoc]; rfl

/-- The bytes of all files of a shard, once it is flushed. -/
def ShardState.contents (st : ShardState) : List (List Byte) := st.closed.map (·.bytes) ++ [st.stream]

theorem doFlush_contents (st : ShardState) :
    st.doFlush.segments.map (·.bytes) = st.contents := by
  simp [ShardState.doFlush, ShardState.flush, ShardState.drain, ShardState.segments,
    ShardState.contents, ShardState.stream]

theorem append_stay {max : Nat} {st : ShardState} {e : Entry} (n m : Nat)
    (h : needsRollover max st e.payload = false) :
    (st.append max e n m).closed = st.closed ∧
      (st.append max e n m).stream = st.stream ++ encodeEntry e ∧
      (st.append max e n m).segmentBytes = st.segmentBytes + frameLen e.payload := by
  simp only [ShardState.append, h, Bool.false_eq_true, if_false]
  exact ⟨rfl, writeFrame_stream st e n m, rfl⟩

theorem append_roll {max : Nat} {st : ShardState} {e : Entry} (n m : Nat)
    (h : needsRollover max st e.payload = true) :
    (st.append max e n m).closed.map (·.bytes) = st.contents ∧
      (st.append max e n m).stream = encodeEntry e ∧
      (st.append max e n m).segmentBytes = frameLen e.payload := by
  simp only [ShardState.append, h, if_true]
  refine ⟨?_, ?_, ?_⟩
  · simp [ShardState.writeFrame, ShardState.writeAll, ShardState.drain, ShardState.nextSegment,
      ShardState.flush, ShardState.contents, ShardState.stream]
  · rw [writeFrame_stream]
    simp [ShardState.stream, ShardState.nextSegment]
  · simp [ShardState.writeFrame, ShardState.writeAll, ShardState.drain, ShardState.nextSegment]

/-- Which entries go where: those that still fit in a segment that has `size` bytes, and one
list for each new segment after it. -/
def fill (max : Nat) : Nat → List Entry → List Entry × List (List Entry)
  | _, [] => ([], [])
  | size, e :: es =>
    if max < size + frameLen e.payload ∧ 0 < size then
      let (here, later) := fill max (frameLen e.payload) es
      ([], (e :: here) :: later)
    else
      let (here, later) := fill max (size + frameLen e.payload) es
      (e :: here, later)

theorem fill_roll {max size : Nat} {e : Entry} (es : List Entry)
    (h : max < size + frameLen e.payload ∧ 0 < size) :
    fill max size (e :: es) =
      ([], (e :: (fill max (frameLen e.payload) es).1) :: (fill max (frameLen e.payload) es).2) := by
  rw [fill, if_pos h]

theorem fill_stay {max size : Nat} {e : Entry} (es : List Entry)
    (h : ¬ (max < size + frameLen e.payload ∧ 0 < size)) :
    fill max size (e :: es) =
      (e :: (fill max (size + frameLen e.payload) es).1, (fill max (size + frameLen e.payload) es).2) := by
  rw [fill, if_neg h]

theorem fill_join (max size : Nat) (es : List Entry) :
    (fill max size es).1 ++ (fill max size es).2.flatten = es := by
  induction es generalizing size with
  | nil => rfl
  | cons e es ih =>
    by_cases h : max < size + frameLen e.payload ∧ 0 < size
    · rw [fill_roll es h]
      simpa using ih (frameLen e.payload)
    · rw [fill_stay es h]
      simpa using ih (size + frameLen e.payload)

def ShardState.appendAll (max : Nat) (st : ShardState) (ws : List (Entry × Nat × Nat)) : ShardState :=
  ws.foldl (fun st w => st.append max w.1 w.2.1 w.2.2) st

theorem appendAll_contents (max : Nat) (st : ShardState) (ws : List (Entry × Nat × Nat)) :
    (st.appendAll max ws).contents =
      st.closed.map (·.bytes) ++
        (st.stream ++ segmentBytes (fill max st.segmentBytes (ws.map (·.1))).1) ::
          (fill max st.segmentBytes (ws.map (·.1))).2.map segmentBytes := by
  induction ws generalizing st with
  | nil => simp [ShardState.appendAll, ShardState.contents, fill, segmentBytes]
  | cons w ws ih =>
    obtain ⟨e, n, m⟩ := w
    have ih := ih (st.append max e n m)
    simp only [ShardState.appendAll, List.foldl_cons, List.map_cons] at ih ⊢
    rw [ih]
    cases h : needsRollover max st e.payload with
    | true =>
      obtain ⟨hc, hs, hb⟩ := append_roll n m h
      simp only [needsRollover, Bool.and_eq_true, decide_eq_true_eq] at h
      rw [fill_roll _ h, hc, hs, hb]
      simp [ShardState.contents, segmentBytes]
    | false =>
      obtain ⟨hc, hs, hb⟩ := append_stay n m h
      have h' : ¬ (max < st.segmentBytes + frameLen e.payload ∧ 0 < st.segmentBytes) := by
        intro hh
        simp [needsRollover, hh] at h
      rw [fill_stay _ h', hc, hs, hb]
      simp [segmentBytes]

/-! ## What the reader finds -/

/-- `try_parse_frames` on each segment, in the order of the seqno. -/
def decodeSegments (segments : List Segment) : List (Except ParseFrameError ParsedFrame) :=
  segments.flatMap fun s => tryParseFrames s.bytes

def reopen (max : Nat) (dir : ShardDir) (ws : List (Entry × Nat × Nat)) : ShardState :=
  ((openShard dir).appendAll max ws).doFlush

/-- The directory that a crash leaves: complete frames, then `torn` at the end of the last file. -/
def CrashImage (dir : ShardDir) (closed : List (List Entry)) (last : List Entry) (torn : List Byte) :
    Prop :=
  dir.files.map (·.bytes) = closed.map segmentBytes ++ [segmentBytes last ++ torn]

instance (dir : ShardDir) (closed : List (List Entry)) (last : List Entry) (torn : List Byte) :
    Decidable (CrashImage dir closed last torn) :=
  inferInstanceAs (Decidable (_ = _))

theorem openShard_segmentBytes (dir : ShardDir) :
    (openShard dir).segmentBytes = (openShard dir).stream.length := by
  simp [openShard, ShardState.stream]

theorem reopen_bytes (max : Nat) {dir : ShardDir} {closed : List (List Entry)} {last : List Entry}
    {torn : List Byte} (hdir : CrashImage dir closed last torn) (ws : List (Entry × Nat × Nat)) :
    let size := (segmentBytes last ++ torn).length
    (reopen max dir ws).segments.map (·.bytes) =
      closed.map segmentBytes ++
        (segmentBytes last ++ torn ++ segmentBytes (fill max size (ws.map (·.1))).1) ::
          (fill max size (ws.map (·.1))).2.map segmentBytes := by
  intro size
  have hfiles : (openShard dir).closed.map (·.bytes) ++ [(openShard dir).stream] =
      closed.map segmentBytes ++ [segmentBytes last ++ torn] := by
    rw [← hdir, ← openShard_segments]
    simp [ShardState.segments, ShardState.stream, openShard]
  obtain ⟨hclosed, hstream⟩ := List.append_inj' hfiles rfl
  rw [List.cons.injEq] at hstream
  rw [reopen, doFlush_contents, appendAll_contents, openShard_segmentBytes, hclosed, hstream.1]

theorem decodeSegments_bytes (segments : List Segment) :
    decodeSegments segments = (segments.map (·.bytes)).flatMap tryParseFrames := by
  simp [decodeSegments, List.flatMap_map]

theorem flatMap_segments {ess : List (List Entry)} (h : ∀ e ∈ ess.flatten, Readable e.payload) :
    (ess.map segmentBytes).flatMap tryParseFrames = ess.flatten.map fun e => .ok e.parsed := by
  induction ess with
  | nil => rfl
  | cons es ess ih =>
    have hr : ∀ e ∈ es, Readable e.payload := fun e he => h e (by simp [he])
    have hes := tryParseFrames_segment hr []
    have hnil : tryParseFrames [] = [] := by
      rw [tryParseFrames_unfold, frameHead_short (by decide)]
    rw [List.append_nil, hnil, List.append_nil] at hes
    rw [List.map_cons, List.flatMap_cons, hes, ih (fun e he => h e (by simp at he ⊢; tauto)),
      List.flatten_cons, List.map_append]

theorem flatMap_segments_error {ess : List (List Entry)}
    (hlen : ∀ e ∈ ess.flatten, e.payload.length < 2 ^ 32) (h : ∃ e ∈ ess.flatten, ¬ Readable e.payload) :
    ∃ err, .error err ∈ (ess.map segmentBytes).flatMap tryParseFrames := by
  obtain ⟨e, he, hbig⟩ := h
  obtain ⟨es, hes, he⟩ := List.mem_flatten.mp he
  have hsub : ∀ e ∈ es, e.payload.length < 2 ^ 32 :=
    fun c hc => hlen c (List.mem_flatten.mpr ⟨es, hes, hc⟩)
  obtain ⟨err, herr⟩ := tryParseFrames_oversized hsub ⟨e, he, hbig⟩ []
  rw [List.append_nil] at herr
  exact ⟨err, List.mem_flatMap.mpr ⟨_, List.mem_map_of_mem hes, herr⟩⟩

theorem flatMap_torn_error {closed later : List (List Entry)} {last here : List Entry}
    (hlen : ∀ e, (e ∈ closed.flatten ∨ e ∈ last) ∨ e ∈ here ∨ e ∈ later.flatten → e.payload.length < 2 ^ 32)
    (h : ¬ ((∀ e ∈ closed.flatten, Readable e.payload) ∧ (∀ e ∈ last, Readable e.payload) ∧
      ∀ e ∈ later.flatten, Readable e.payload)) (tail : List Byte) :
    ∃ err, .error err ∈ (closed.map segmentBytes).flatMap tryParseFrames ++
      (tryParseFrames (segmentBytes last ++ tail) ++ (later.map segmentBytes).flatMap tryParseFrames) := by
  simp only [List.mem_append]
  by_cases hclosed : ∃ e ∈ closed.flatten, ¬ Readable e.payload
  · obtain ⟨err, h⟩ := flatMap_segments_error (fun e he => hlen e (Or.inl (Or.inl he))) hclosed
    exact ⟨err, Or.inl h⟩
  by_cases hlast : ∃ e ∈ last, ¬ Readable e.payload
  · obtain ⟨err, h⟩ := tryParseFrames_oversized (fun e he => hlen e (Or.inl (Or.inr he))) hlast tail
    exact ⟨err, Or.inr (Or.inl h)⟩
  by_cases hlater : ∃ e ∈ later.flatten, ¬ Readable e.payload
  · obtain ⟨err, h⟩ := flatMap_segments_error (fun e he => hlen e (Or.inr (Or.inr he))) hlater
    exact ⟨err, Or.inr (Or.inr h)⟩
  push Not at hclosed hlast hlater
  exact absurd ⟨hclosed, hlast, hlater⟩ h

/-- The reader on the files of a reopened shard. `here` went behind the torn tail. -/
theorem flatMap_torn_iff (closed : List (List Entry)) (last here : List Entry) (later : List (List Entry))
    (torn : List Byte)
    (hlen : ∀ e ∈ closed.flatten ++ last ++ (here ++ later.flatten), e.payload.length < 2 ^ 32) :
    (closed.map segmentBytes ++ (segmentBytes last ++ torn ++ segmentBytes here) ::
        later.map segmentBytes).flatMap tryParseFrames =
        (closed.flatten ++ last ++ (here ++ later.flatten)).map (fun e => .ok e.parsed) ↔
      (∀ e ∈ closed.flatten ++ last ++ (here ++ later.flatten), Readable e.payload) ∧
        ∃ tail, torn ++ segmentBytes here = segmentBytes here ++ tail ∧ Incomplete tail := by
  simp only [List.mem_append] at hlen ⊢
  rw [List.flatMap_append, List.flatMap_cons, List.append_assoc (segmentBytes last)]
  by_cases hr : (∀ e ∈ closed.flatten, Readable e.payload) ∧ (∀ e ∈ last, Readable e.payload) ∧
      ∀ e ∈ later.flatten, Readable e.payload
  · obtain ⟨hclosed, hlast, hlater⟩ := hr
    rw [flatMap_segments hclosed, flatMap_segments hlater, tryParseFrames_segment hlast]
    simp only [List.map_append, List.append_assoc, List.append_cancel_left_eq, List.append_cancel_right_eq]
    rw [tryParseFrames_eq_ok_iff]
    constructor
    · rintro ⟨hhere, htail⟩
      refine ⟨?_, htail⟩
      rintro e ((he | he) | (he | he))
      · exact hclosed e he
      · exact hlast e he
      · exact hhere e he
      · exact hlater e he
    · rintro ⟨hall, htail⟩
      exact ⟨fun e he => hall e (Or.inr (Or.inl he)), htail⟩
  · obtain ⟨err, herr⟩ := flatMap_torn_error hlen hr (torn ++ segmentBytes here)
    constructor
    · intro h
      rw [h] at herr
      simp at herr
    · rintro ⟨hall, -⟩
      exact absurd ⟨fun e he => hall e (Or.inl (Or.inl he)), fun e he => hall e (Or.inl (Or.inr he)),
        fun e he => hall e (Or.inr (Or.inr he))⟩ hr

/-- The same of the shard. `here` and `later` are where the new entries are placed. -/
theorem decodeSegments_reopen_iff (max : Nat) {dir : ShardDir} {closed : List (List Entry)} {last : List Entry}
    {torn : List Byte} (hdir : CrashImage dir closed last torn) (ws : List (Entry × Nat × Nat))
    (hlen : ∀ e ∈ closed.flatten ++ last ++ ws.map (·.1), e.payload.length < 2 ^ 32) {here : List Entry}
    {later : List (List Entry)} (hfill : fill max (segmentBytes last ++ torn).length (ws.map (·.1)) = (here, later)) :
    decodeSegments (reopen max dir ws).segments =
        (closed.flatten ++ last ++ ws.map (·.1)).map (fun e => .ok e.parsed) ↔
      (∀ e ∈ closed.flatten ++ last ++ ws.map (·.1), Readable e.payload) ∧
        ∃ tail, torn ++ segmentBytes here = segmentBytes here ++ tail ∧ Incomplete tail := by
  have hjoin := fill_join max (segmentBytes last ++ torn).length (ws.map (·.1))
  have hbytes := reopen_bytes max hdir ws
  simp only [hfill] at hjoin hbytes
  rw [decodeSegments_bytes, hbytes]
  rw [← hjoin] at hlen ⊢
  exact flatMap_torn_iff closed last here later torn hlen

/-- **Reopening, exactly.** All old and all new entries come back if and only if every payload
is at most 16 MiB and the torn tail slides past the new entries of its segment: moved behind
them, it is the same bytes, and still less than one frame. An empty tail does that, and so does
a tail in a segment that gets no new entry. -/
theorem reopen_keeps_iff (max : Nat) (dir : ShardDir) (closed : List (List Entry)) (last : List Entry)
    (torn : List Byte) (hdir : CrashImage dir closed last torn) (ws : List (Entry × Nat × Nat))
    (hlen : ∀ e ∈ closed.flatten ++ last ++ ws.map (·.1), e.payload.length < 2 ^ 32) :
    decodeSegments (reopen max dir ws).segments =
        (closed.flatten ++ last ++ ws.map (·.1)).map (fun e => .ok e.parsed) ↔
      (∀ e ∈ closed.flatten ++ last ++ ws.map (·.1), Readable e.payload) ∧
        ∃ tail, torn ++ segmentBytes (fill max (segmentBytes last ++ torn).length (ws.map (·.1))).1 =
            segmentBytes (fill max (segmentBytes last ++ torn).length (ws.map (·.1))).1 ++ tail ∧
          Incomplete tail :=
  decodeSegments_reopen_iff max hdir ws hlen rfl

/-- A whole old entry with a torn byte behind it. The new entry does not fit, so it is placed in a new segment. -/
theorem reopen_keeps_rolled :
    let old : Entry := ⟨1, 7, .fdataSync, [5]⟩
    let ws : List (Entry × Nat × Nat) := [(⟨1, 8, .async, [6]⟩, 0, 0)]
    let dir : ShardDir := ⟨[⟨0, encodeEntry old ++ [3], 0⟩], by simp⟩
    let all : List Entry := List.flatten [] ++ [old] ++ ws.map (·.1)
    CrashImage dir [] [old] [3] ∧ decodeSegments (reopen 40 dir ws).segments = all.map (fun e => .ok e.parsed) := by
  intro old ws dir all
  have hdir : CrashImage dir [] [old] [3] := by decide
  refine ⟨hdir, (reopen_keeps_iff 40 dir [] [old] [3] hdir ws (by decide)).mpr ⟨by decide, [3], by decide, ?_⟩⟩
  exact Or.inl (by decide)

/-- One byte of a frame is left in the file. The entry that is appended next is never read: its
header is taken for the rest of the torn one. -/
theorem reopen_loses_entry :
    let dir : ShardDir := ⟨[⟨0, [3], 0⟩], by simp⟩
    let ws : List (Entry × Nat × Nat) := [(⟨1, 0, .fdataSync, []⟩, 0, 0)]
    let half : Entry := ⟨1, 0, .async, [1, 2, 3]⟩
    let all : List Entry := List.flatten [] ++ [] ++ ws.map (·.1)
    CrashImage dir [] [] [3] ∧ [3] <+: encodeEntry half ∧ [3] ≠ encodeEntry half ∧
    decodeSegments (reopen 1024 dir ws).segments ≠ all.map (fun e => .ok e.parsed) := by
  intro dir ws half all
  let new : Entry := ⟨1, 0, .fdataSync, []⟩
  refine ⟨by decide, by decide, by decide, ?_⟩
  have hsegs : (reopen 1024 dir ws).segments = [⟨0, 3 :: encodeEntry new, 23⟩] := by decide
  have hstop : frameHead (3 :: encodeEntry new) = .stop := by
    rw [frameHead_eq_stop_iff]
    exact Or.inr (by decide)
  rw [hsegs, decodeSegments, List.flatMap_cons, tryParseFrames_unfold, hstop]
  simp [all, ws]

/-! ## A new shard

The length of a payload is a `u32` for the writer. The reader takes 16 MiB at most.
-/

theorem noFiles_sorted : (([] : List Segment).map (·.seqno)).Pairwise (· < ·) := .nil

def noFiles : ShardDir := ⟨[], noFiles_sorted⟩

theorem payloadLen_isSome {payload : List Byte} : (payloadLen payload).isSome = true ↔ payload.length < 2 ^ 32 := by
  unfold payloadLen
  split <;> simp_all

theorem crashImage_noFiles : CrashImage noFiles [] [] [] := by decide

/-- **The writer and the reader, exactly.** Whatever `append` accepts and wherever it rolls over, all frames of a new
shard come back in order if and only if no payload is longer than the limit of the reader. -/
theorem appended_readable_iff (max : Nat) (ws : List (Entry × Nat × Nat))
    (hacc : ∀ w ∈ ws, (payloadLen w.1.payload).isSome = true) :
    decodeSegments (reopen max noFiles ws).segments = ws.map (fun w => .ok w.1.parsed) ↔
      ∀ w ∈ ws, w.1.payload.length ≤ maxPayloadBytes.toNat := by
  have hlen : ∀ e ∈ List.flatten [] ++ [] ++ ws.map (·.1), e.payload.length < 2 ^ 32 := by
    intro e he
    obtain ⟨w, hw, rfl⟩ := List.mem_map.mp he
    exact payloadLen_isSome.mp (hacc w hw)
  have hkeep := decodeSegments_reopen_iff max crashImage_noFiles ws hlen rfl
  -- There is no torn tail to slide.
  have htail : ∀ here : List Entry, ∃ tail, [] ++ segmentBytes here = segmentBytes here ++ tail ∧ Incomplete tail := by
    intro here
    exact ⟨[], by simp, Or.inl (by decide)⟩
  rw [and_iff_left (htail _)] at hkeep
  simpa [Readable, Function.comp_def] using hkeep

theorem appended_readable_iff_pair :
    let ws : List (Entry × Nat × Nat) := [(⟨1, 7, .fsync, [5]⟩, 0, 0), (⟨2, 8, .async, []⟩, 0, 0)]
    (∀ w ∈ ws, (payloadLen w.1.payload).isSome = true) ∧
    (decodeSegments (reopen 30 noFiles ws).segments = ws.map (fun w => .ok w.1.parsed) ↔
      ∀ w ∈ ws, w.1.payload.length ≤ maxPayloadBytes.toNat) := by
  intro ws
  have hacc : ∀ w ∈ ws, (payloadLen w.1.payload).isSome = true := by decide
  exact ⟨hacc, appended_readable_iff 30 ws hacc⟩

theorem appended_too_long {payload : List Byte} (hbig : payload.length = 2 ^ 24 + 1) :
    let ws : List (Entry × Nat × Nat) := [(⟨1, 7, .fsync, payload⟩, 0, 0), (⟨2, 8, .async, [5]⟩, 0, 0)]
    (∀ w ∈ ws, (payloadLen w.1.payload).isSome = true) ∧
      decodeSegments (reopen (64 * 1024 * 1024) noFiles ws).segments = [.error (.payloadOverflow 16777217)] ∧
      decodeSegments (reopen (64 * 1024 * 1024) noFiles ws).segments ≠ ws.map (fun w => .ok w.1.parsed) := by
  intro ws
  have hnot : ¬ Readable payload := by
    rw [Readable, hbig]
    decide
  have hfill : fill (64 * 1024 * 1024) 0 (ws.map (·.1)) = (ws.map (·.1), []) := by
    have hlen : ¬ 64 * 1024 * 1024 < 0 + frameLen payload + frameLen [5] := by
      rw [frameLen, hbig]
      decide
    simp only [ws, List.map_cons, List.map_nil]
    rw [fill_stay _ (by simp), fill_stay _ (fun h => hlen h.1)]
    rfl
  have hbytes := reopen_bytes (64 * 1024 * 1024) crashImage_noFiles ws
  simp only [segmentBytes, List.flatMap_nil, List.append_nil, List.length_nil, hfill, List.map_nil,
    List.nil_append] at hbytes
  have hread : decodeSegments (reopen (64 * 1024 * 1024) noFiles ws).segments =
      [.error (.payloadOverflow 16777217)] := by
    rw [decodeSegments_bytes, hbytes]
    simp only [List.flatMap_cons, List.flatMap_nil, List.append_nil, ws, List.map_cons, List.map_nil]
    rw [tryParseFrames_unfold, frameHead_oversized (e := ⟨1, 7, .fsync, payload⟩) hnot (by rw [hbig]; decide), hbig]
    rfl
  refine ⟨?_, hread, ?_⟩
  · simp [ws, payloadLen_isSome, hbig]
  · rw [hread]
    simp [ws]

/-- A payload of 16 MiB and a byte, and a small one behind it in the same segment. Both are accepted, and the reader
returns neither. -/
theorem appended_unreadable :
    let ws : List (Entry × Nat × Nat) :=
      [(⟨1, 7, .fsync, List.replicate (2 ^ 24 + 1) 0⟩, 0, 0), (⟨2, 8, .async, [5]⟩, 0, 0)]
    (∀ w ∈ ws, (payloadLen w.1.payload).isSome = true) ∧
      decodeSegments (reopen (64 * 1024 * 1024) noFiles ws).segments = [.error (.payloadOverflow 16777217)] ∧
      decodeSegments (reopen (64 * 1024 * 1024) noFiles ws).segments ≠ ws.map (fun w => .ok w.1.parsed) :=
  appended_too_long List.length_replicate

end Riftgate.FileWal
