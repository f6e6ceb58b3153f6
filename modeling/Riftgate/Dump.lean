import Riftgate.Frame
import Riftgate.Code.Replay

/-! # The dump of the replay tool against the frame reader of the library -/

open Lib

namespace Riftgate.Replay

open Riftgate.Frame

section

variable (base64 : List Byte → String) (path : String)

/-! ## What the dump should be -/

/-- A frame of the library, as the tool shows it. -/
def dumpedEntry (offset : UInt64) (f : ParsedFrame) : DecodedEntry where
  sourcePath := path
  offset := offset
  entryId := f.entryId
  timestampNanos := f.timestampNanos
  durability := decodeDurability f.durabilityTag
  entryKind := f.entryKind
  payloadLen := UInt32.ofNat f.payload.length
  payloadBase64 := base64 f.payload

def offsetAfter (offset : UInt64) (f : ParsedFrame) : UInt64 :=
  offset + (UInt64.ofNat entryHeaderBytes + (UInt32.ofNat f.payload.length).toUInt64)

def dumpedFrames (offset : UInt64) : List ParsedFrame → List DecodedEntry
  | [] => []
  | f :: fs => dumpedEntry base64 path offset f :: dumpedFrames (offsetAfter offset f) fs

/-- The tool pushes the frames of the library, and fails only where the library has an error. -/
def DecodesAlike (data : List Byte) : Prop :=
  (decodeOneSegment base64 path data []).1 = dumpedFrames base64 path 0 (okFrames (tryParseFrames data)) ∧
  ∀ e, (decodeOneSegment base64 path data []).2 = .error e → ∃ err, .error err ∈ tryParseFrames data

/-! ## One round of the loop -/

theorem decodeLoop_nil (offset : UInt64) : decodeLoop base64 path offset [] = ([], .ok ()) := by
  rw [decodeLoop]
  simp [readExactOrEof]

theorem decodeLoop_short (offset : UInt64) {data : List Byte} (hne : data ≠ [])
    (h : data.length < entryHeaderBytes) :
    decodeLoop base64 path offset data = ([], .error (truncatedHeader path)) := by
  have hread : readExactOrEof entryHeaderBytes data = .early := by
    unfold readExactOrEof readExact
    rw [if_neg hne, if_neg (by omega)]
  rw [decodeLoop]
  split <;> simp_all

theorem decodeLoop_long (offset : UInt64) {data : List Byte} (h : entryHeaderBytes ≤ data.length) :
    decodeLoop base64 path offset data =
      (let len := fieldU32 (data.take entryHeaderBytes) 0 4
       if entryHeaderBytes + len.toNat ≤ data.length then
         (decodedEntry base64 path offset (data.take entryHeaderBytes)
            ((data.drop entryHeaderBytes).take len.toNat) ::
           (decodeLoop base64 path (offset + (UInt64.ofNat entryHeaderBytes + len.toUInt64))
             (data.drop (entryHeaderBytes + len.toNat))).1,
          (decodeLoop base64 path (offset + (UInt64.ofNat entryHeaderBytes + len.toUInt64))
            (data.drop (entryHeaderBytes + len.toNat))).2)
       else ([], .error (truncatedPayload path offset))) := by
  have hread := readExactOrEof_of_le (by decide) h
  rw [decodeLoop]
  split
  · simp_all
  · simp_all
  · rename_i hd rest hh
    rw [hread] at hh
    cases hh
    simp only
    split
    · rename_i hp
      unfold readExact at hp
      split at hp
      · cases hp
      · rename_i hlt
        rw [List.length_drop] at hlt
        rw [if_neg (by omega)]
    · rename_i payload rest' hp
      have hlen := (readExact_length hp).2
      unfold readExact at hp
      rw [if_pos hlen] at hp
      cases hp
      rw [List.length_drop] at hlen
      rw [if_pos (by omega), List.drop_drop]

theorem decodeLoop_encodeParsed (offset : UInt64) {f : ParsedFrame} (h : Readable f.payload) (rest : List Byte) :
    decodeLoop base64 path offset (encodeParsed f ++ rest) =
      (dumpedEntry base64 path offset f :: (decodeLoop base64 path (offsetAfter offset f) rest).1,
        (decodeLoop base64 path (offsetAfter offset f) rest).2) := by
  have hlong := encodeParsed_append_long f rest
  have htake := encodeParsed_append_take f rest
  have hdrop := encodeParsed_append_drop f rest
  rw [decodeLoop_long _ _ _ hlong, htake, header_len_field]
  simp only [readable_toNat h]
  rw [if_pos (by rw [List.length_append, encodeParsed_length]; omega), hdrop, List.take_left' rfl,
    ← List.drop_drop, hdrop, List.drop_left' rfl]
  simp only [decodedEntry, header_id_field, header_nanos_field, header_tag_field, header_kind_field,
    header_len_field]
  rfl

/-! ## Frames, then a tail -/

theorem dumpedFrames_append (offset : UInt64) (fs gs : List ParsedFrame) :
    dumpedFrames base64 path offset (fs ++ gs) =
      dumpedFrames base64 path offset fs ++ dumpedFrames base64 path (fs.foldl offsetAfter offset) gs := by
  induction fs generalizing offset with
  | nil => rfl
  | cons f fs ih => simp [dumpedFrames, ih]

theorem decodeLoop_frames (offset : UInt64) {fs : List ParsedFrame} (h : ∀ f ∈ fs, Readable f.payload)
    (tail : List Byte) :
    decodeLoop base64 path offset (wal.encAll fs ++ tail) =
      (dumpedFrames base64 path offset fs ++ (decodeLoop base64 path (fs.foldl offsetAfter offset) tail).1,
        (decodeLoop base64 path (fs.foldl offsetAfter offset) tail).2) := by
  induction fs generalizing offset with
  | nil => rfl
  | cons f fs ih =>
    have hf := decodeLoop_encodeParsed base64 path offset (h f List.mem_cons_self) (wal.encAll fs ++ tail)
    rw [ih (offsetAfter offset f) (fun g hg => h g (List.mem_cons_of_mem _ hg))] at hf
    rw [Framing.encAll_cons, List.append_assoc]
    exact hf

theorem tryParseFrames_frames {fs : List ParsedFrame} (h : ∀ f ∈ fs, Readable f.payload) (tail : List Byte) :
    tryParseFrames (wal.encAll fs ++ tail) = fs.map .ok ++ tryParseFrames tail := by
  rw [tryParseFrames_eq_decode, tryParseFrames_eq_decode]
  exact Framing.decode_encAll_append h tail

/-- What is left to compare after the frames, which both decoders read alike. -/
def TailAlike (offset : UInt64) (tail : List Byte) : Prop :=
  (decodeLoop base64 path offset tail).1 = dumpedFrames base64 path offset (okFrames (tryParseFrames tail)) ∧
  ∀ e, (decodeLoop base64 path offset tail).2 = .error e → ∃ err, .error err ∈ tryParseFrames tail

theorem decodesAlike_frames {fs : List ParsedFrame} (h : ∀ f ∈ fs, Readable f.payload) (tail : List Byte) :
    DecodesAlike base64 path (wal.encAll fs ++ tail) ↔ TailAlike base64 path (fs.foldl offsetAfter 0) tail := by
  unfold DecodesAlike TailAlike decodeOneSegment
  rw [decodeLoop_frames base64 path 0 h tail, tryParseFrames_frames h, okFrames_append, dumpedFrames_append]
  simp

/-! ## The tail -/

/-- A whole header that announces more than 16 MiB, and then less than that. -/
def CutOversized (tail : List Byte) : Prop :=
  entryHeaderBytes ≤ tail.length ∧ maxPayloadBytes < fieldU32 (tail.take entryHeaderBytes) 0 4 ∧
    tail.length < entryHeaderBytes + (fieldU32 (tail.take entryHeaderBytes) 0 4).toNat

instance (tail : List Byte) : Decidable (CutOversized tail) :=
  inferInstanceAs (Decidable (_ ∧ _ ∧ _))

theorem tailAlike_nil (offset : UInt64) : TailAlike base64 path offset [] := by
  unfold TailAlike
  rw [decodeLoop_nil, tryParseFrames_unfold, frameHead_short (by decide)]
  simp [okFrames, dumpedFrames]

theorem decodeLoop_stop (offset : UInt64) {tail : List Byte} (hne : tail ≠ []) (h : frameHead tail = .stop) :
    ∃ e, decodeLoop base64 path offset tail = ([], .error e) := by
  rcases Nat.lt_or_ge tail.length entryHeaderBytes with hs | hl
  · exact ⟨_, decodeLoop_short base64 path offset hne hs⟩
  · rcases (frameHead_eq_stop_iff tail).mp h with hs | ⟨-, hcut⟩
    · omega
    · refine ⟨truncatedPayload path offset, ?_⟩
      rw [decodeLoop_long base64 path offset hl]
      simp only
      rw [if_neg (by omega)]

theorem not_tailAlike_stop (offset : UInt64) {tail : List Byte} (hne : tail ≠ []) (h : frameHead tail = .stop) :
    ¬ TailAlike base64 path offset tail := by
  obtain ⟨e, he⟩ := decodeLoop_stop base64 path offset hne h
  rintro ⟨-, hfail⟩
  obtain ⟨err, hmem⟩ := hfail e (by rw [he])
  rw [tryParseFrames_unfold, h] at hmem
  cases hmem

theorem frameHead_bad {tail : List Byte} {e : ParseFrameError} (h : frameHead tail = .bad e) :
    entryHeaderBytes ≤ tail.length ∧ maxPayloadBytes < fieldU32 (tail.take entryHeaderBytes) 0 4 := by
  rcases Nat.lt_or_ge tail.length entryHeaderBytes with hs | hl
  · rw [frameHead_short hs] at h; cases h
  · refine ⟨hl, ?_⟩
    rw [frameHead_long hl] at h
    simp only at h
    split at h
    · assumption
    · split at h <;> cases h

theorem tailAlike_bad (offset : UInt64) {tail : List Byte} {e : ParseFrameError} (h : frameHead tail = .bad e) :
    TailAlike base64 path offset tail ↔ CutOversized tail := by
  obtain ⟨hl, hmax⟩ := frameHead_bad h
  unfold TailAlike CutOversized
  rw [tryParseFrames_unfold, h, decodeLoop_long base64 path offset hl]
  simp only [okFrames_error, dumpedFrames]
  by_cases hfit : entryHeaderBytes + (fieldU32 (tail.take entryHeaderBytes) 0 4).toNat ≤ tail.length
  · simp only [if_pos hfit]
    constructor
    · rintro ⟨hout, -⟩
      cases hout
    · rintro ⟨-, -, hlt⟩
      omega
  · simp only [if_neg hfit]
    exact ⟨fun _ => ⟨hl, hmax, by omega⟩, fun _ => ⟨trivial, fun _ _ => ⟨e, List.mem_singleton.mpr rfl⟩⟩⟩

/-! ## The whole segment -/

/-- Whole frames up to the end of the file, or up to an oversized one that is cut short. -/
def WholeFrames (data : List Byte) : Prop :=
  ∃ fs tail, data = wal.encAll fs ++ tail ∧ (∀ f ∈ fs, Readable f.payload) ∧ (tail = [] ∨ CutOversized tail)

/-- **The two decoders agree on a file if and only if it ends with a whole frame**, or with an oversized
one that is cut short. A torn final frame makes the tool fail, and an oversized frame makes it show more. -/
theorem decodesAlike_iff (data : List Byte) : DecodesAlike base64 path data ↔ WholeFrames data := by
  constructor
  · intro hd
    obtain ⟨fs, tail, rfl, hfs, hend⟩ := wal.exists_encAll_append data
    refine ⟨fs, tail, rfl, hfs, ?_⟩
    have htail := (decodesAlike_frames base64 path hfs tail).mp hd
    rcases hend with hstop | ⟨e, hbad⟩
    · by_cases hne : tail = []
      · exact Or.inl hne
      · exact absurd htail (not_tailAlike_stop base64 path _ hne hstop)
    · exact Or.inr ((tailAlike_bad base64 path _ hbad).mp htail)
  · rintro ⟨fs, tail, rfl, hfs, htail⟩
    refine (decodesAlike_frames base64 path hfs tail).mpr ?_
    rcases htail with rfl | hcut
    · exact tailAlike_nil base64 path _
    · have hbad : frameHead tail = .bad (.payloadOverflow (fieldU32 (tail.take entryHeaderBytes) 0 4)) := by
        rw [frameHead_long hcut.1]
        simp only [if_pos hcut.2.1]
      exact (tailAlike_bad base64 path _ hbad).mpr hcut

end

/-- The segment of a crash: one entry, and one byte of the next header. -/
def tornSegment : List Byte := segmentBytes [⟨1, 7, .fsync, [5]⟩] ++ [0]

theorem tryParseFrames_tornSegment : tryParseFrames tornSegment = [.ok ⟨1, 7, 2, 0, [5]⟩] := by
  unfold tornSegment
  rw [tryParseFrames_segment (by decide), tryParseFrames_unfold [0], frameHead_short (by decide)]
  rfl

theorem tornSegment_not_alike :
    tryParseFrames tornSegment = [.ok ⟨1, 7, 2, 0, [5]⟩] ∧
    decodeSegments (fun _ => "BQ==") [("shard-0.wal", tornSegment)] =
      .error "read header shard-0.wal failed: truncated WAL header" ∧
    ¬ DecodesAlike (fun _ => "BQ==") "shard-0.wal" tornSegment := by
  have hseg : tornSegment = wal.encAll [⟨1, 7, 2, 0, [5]⟩] ++ [0] := by
    rw [tornSegment, segmentBytes_eq_encAll]
    rfl
  have hstop : frameHead [0] = .stop := frameHead_short (by decide)
  refine ⟨tryParseFrames_tornSegment, ?_, ?_⟩
  · simp only [decodeSegments, decodeFiles, decodeOneSegment]
    rw [hseg, decodeLoop_frames _ _ _ (by decide), decodeLoop_short _ _ _ (by decide) (by decide)]
    rfl
  · rw [hseg, decodesAlike_frames _ _ (by decide)]
    exact not_tailAlike_stop _ _ _ (by decide) hstop

/-! ## The dump of a directory -/

theorem decodeFiles_error (base64 : List Byte → String) {files : List (String × List Byte)}
    {path : String} {data : List Byte} {e : String} (hmem : (path, data) ∈ files)
    (herr : (decodeLoop base64 path 0 data).2 = .error e) (out : List DecodedEntry) :
    ∃ e', decodeFiles base64 files out = .error e' := by
  induction files generalizing out with
  | nil => cases hmem
  | cons file files ih =>
    obtain ⟨path', data'⟩ := file
    unfold decodeFiles decodeOneSegment
    cases hr : (decodeLoop base64 path' 0 data').2 with
    | error e' => exact ⟨e', by simp only [hr]⟩
    | ok u =>
      simp only [hr]
      rcases List.mem_cons.mp hmem with heq | htail
      · cases heq
        rw [hr] at herr
        cases herr
      · exact ih htail _

theorem decodeSegments_torn (base64 : List Byte → String) {files : List (String × List Byte)} {path : String}
    {fs : List ParsedFrame} {tail : List Byte} (hmem : (path, wal.encAll fs ++ tail) ∈ files)
    (hfs : ∀ f ∈ fs, Readable f.payload) (hne : tail ≠ []) (htail : Incomplete tail) :
    ∃ e, decodeSegments base64 files = .error e := by
  obtain ⟨e, he⟩ := decodeLoop_stop base64 path (fs.foldl offsetAfter 0) hne ((frameHead_eq_stop_iff tail).mpr htail)
  have hloop : (decodeLoop base64 path 0 (wal.encAll fs ++ tail)).2 = .error e := by
    rw [decodeLoop_frames base64 path 0 hfs, he]
  obtain ⟨e', hfiles⟩ := decodeFiles_error base64 hmem hloop []
  refine ⟨e', ?_⟩
  rw [decodeSegments, hfiles]
  rfl

end Riftgate.Replay
