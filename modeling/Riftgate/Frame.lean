import Riftgate.Lib.Framing
import Riftgate.Code.Frame

/-! # WAL frames: what the writer writes, the reader reads -/

open Lib

namespace Riftgate.Frame

/-! ## The header -/

@[simp] theorem header_length (len : UInt32) (tag kind : Byte) (nanos id : UInt64) :
    (header len tag kind nanos id).length = entryHeaderBytes := by
  simp [header, entryHeaderBytes]

theorem u32_of_le (n : UInt32) : UInt32.ofNat (ofLe (toLe 4 n.toNat)) = n := by
  rw [ofLe_toLe, Nat.mod_eq_of_lt (by have := n.toNat_lt; omega)]
  exact UInt32.ofNat_toNat

theorem u64_of_le (n : UInt64) : UInt64.ofNat (ofLe (toLe 8 n.toNat)) = n := by
  rw [ofLe_toLe, Nat.mod_eq_of_lt (by have := n.toNat_lt; omega)]
  exact UInt64.ofNat_toNat

theorem header_len_field (len : UInt32) (tag kind : Byte) (nanos id : UInt64) :
    fieldU32 (header len tag kind nanos id) 0 4 = len := by
  have h : ((header len tag kind nanos id).drop 0).take (4 - 0) = toLe 4 len.toNat := by
    simp [header]
  rw [fieldU32, h, u32_of_le]

theorem header_nanos_field (len : UInt32) (tag kind : Byte) (nanos id : UInt64) :
    fieldU64 (header len tag kind nanos id) 6 14 = nanos := by
  have h : ((header len tag kind nanos id).drop 6).take (14 - 6) = toLe 8 nanos.toNat := by
    simp [header, List.drop_append, List.take_append]
  rw [fieldU64, h, u64_of_le]

theorem header_id_field (len : UInt32) (tag kind : Byte) (nanos id : UInt64) :
    fieldU64 (header len tag kind nanos id) 14 22 = id := by
  have h : ((header len tag kind nanos id).drop 14).take (22 - 14) = toLe 8 id.toNat := by
    rw [header, List.drop_append_of_le_length (by simp), List.drop_of_length_le (by simp)]
    exact List.take_of_length_le (by simp)
  rw [fieldU64, h, u64_of_le]

theorem header_tag_field (len : UInt32) (tag kind : Byte) (nanos id : UInt64) :
    (header len tag kind nanos id).getD 4 0 = tag := by
  simp [header, List.getD_eq_getElem?_getD]

theorem header_kind_field (len : UInt32) (tag kind : Byte) (nanos id : UInt64) :
    (header len tag kind nanos id).getD 5 0 = kind := by
  simp [header, List.getD_eq_getElem?_getD]

theorem toLe_fieldU32 (h : List Byte) (hlen : h.length = entryHeaderBytes) :
    toLe 4 (fieldU32 h 0 4).toNat = h.take 4 := by
  simp only [entryHeaderBytes] at hlen
  have hlt := ofLe_lt (h.take 4)
  have hl : (h.take 4).length = 4 := by simp; omega
  rw [hl] at hlt
  simp only [fieldU32, List.drop_zero, Nat.sub_zero, UInt32.toNat_ofNat']
  rw [Nat.mod_eq_of_lt (by omega), toLe_ofLe_of_length _ _ hl]

theorem toLe_fieldU64 (h : List Byte) (start : Nat) (hlen : start + 8 ≤ h.length) :
    toLe 8 (fieldU64 h start (start + 8)).toNat = (h.drop start).take 8 := by
  have hlt := ofLe_lt ((h.drop start).take 8)
  have hl : ((h.drop start).take 8).length = 8 := by simp; omega
  rw [hl] at hlt
  simp only [fieldU64, Nat.add_sub_cancel_left, UInt64.toNat_ofNat']
  rw [Nat.mod_eq_of_lt (by omega), toLe_ofLe_of_length _ _ hl]

theorem drop_four (h : List Byte) (hlen : 6 ≤ h.length) :
    h.drop 4 = h.getD 4 0 :: h.getD 5 0 :: h.drop 6 := by
  rw [List.drop_eq_getElem_cons (by omega), List.drop_eq_getElem_cons (by omega)]
  simp [List.getD_eq_getElem?_getD, List.getElem?_eq_getElem (show 4 < h.length by omega),
    List.getElem?_eq_getElem (show 5 < h.length by omega)]

theorem header_of_fields (h : List Byte) (hlen : h.length = entryHeaderBytes) :
    header (fieldU32 h 0 4) (h.getD 4 0) (h.getD 5 0) (fieldU64 h 6 14) (fieldU64 h 14 22) = h := by
  have h1 := toLe_fieldU32 h hlen
  simp only [entryHeaderBytes] at hlen
  have h2 := toLe_fieldU64 h 6 (by omega)
  have h3 := toLe_fieldU64 h 14 (by omega)
  have hlast : (h.drop 14).take 8 = h.drop 14 := List.take_of_length_le (by simp; omega)
  have hmid : (h.drop 6).take 8 ++ h.drop 14 = h.drop 6 := by
    have := List.take_append_drop 8 (h.drop 6)
    rwa [List.drop_drop] at this
  rw [header, h1, h2, h3, hlast, List.append_assoc, hmid, List.append_assoc]
  conv => rhs; rw [← List.take_append_drop 4 h, drop_four h (by omega)]
  rfl

/-! ## The reader is a decoder -/

/-- The fields of a frame, as the writer would lay them out again. -/
def encodeParsed (f : ParsedFrame) : List Byte :=
  header (UInt32.ofNat f.payload.length) f.durabilityTag f.entryKind f.timestampNanos f.entryId ++
    f.payload

/-- One round of the loop of `try_parse_frames`. -/
def frameHead (data : List Byte) : Head Byte ParsedFrame ParseFrameError :=
  match readExactOrEof entryHeaderBytes data with
  | .eof => .stop
  | .early => .stop
  | .read header rest =>
    let len := fieldU32 header 0 4
    if maxPayloadBytes < len then .bad (.payloadOverflow len)
    else match readExact len.toNat rest with
      | none => .stop
      | some (payload, rest') => .frame (parsedFrame header payload) rest'

/-- A payload that the reader accepts: 16 MiB at most. -/
def Readable (payload : List Byte) : Prop := payload.length ≤ maxPayloadBytes.toNat

instance (payload : List Byte) : Decidable (Readable payload) :=
  inferInstanceAs (Decidable (payload.length ≤ maxPayloadBytes.toNat))

theorem readExactOrEof_of_le {n : Nat} {data : List Byte} (h0 : 0 < n) (h : n ≤ data.length) :
    readExactOrEof n data = .read (data.take n) (data.drop n) := by
  have hne : data ≠ [] := by rintro rfl; simp at h; omega
  simp only [readExactOrEof, if_neg hne, readExact, if_pos h]

theorem readExactOrEof_of_lt {n : Nat} {data : List Byte} (h : data.length < n) :
    readExactOrEof n data = .eof ∨ readExactOrEof n data = .early := by
  unfold readExactOrEof readExact
  rw [if_neg (show ¬ n ≤ data.length by omega)]
  split
  · exact Or.inl rfl
  · exact Or.inr rfl

theorem frameHead_short {data : List Byte} (h : data.length < entryHeaderBytes) :
    frameHead data = .stop := by
  unfold frameHead
  rcases readExactOrEof_of_lt h with he | he <;> rw [he]

theorem frameHead_long {data : List Byte} (h : entryHeaderBytes ≤ data.length) :
    frameHead data =
      (let len := fieldU32 (data.take entryHeaderBytes) 0 4
       if maxPayloadBytes < len then .bad (.payloadOverflow len)
       else if entryHeaderBytes + len.toNat ≤ data.length then
         .frame (parsedFrame (data.take entryHeaderBytes) ((data.drop entryHeaderBytes).take len.toNat))
           (data.drop (entryHeaderBytes + len.toNat))
       else .stop) := by
  unfold frameHead
  rw [readExactOrEof_of_le (by decide) h]
  simp only [readExact, List.length_drop]
  split
  · rfl
  · by_cases hlen : entryHeaderBytes + (fieldU32 (data.take entryHeaderBytes) 0 4).toNat ≤ data.length
    · rw [if_pos (by omega), if_pos hlen, List.drop_drop]
    · rw [if_neg (by omega), if_neg hlen]

theorem readable_toNat {payload : List Byte} (h : Readable payload) :
    (UInt32.ofNat payload.length).toNat = payload.length := by
  have hmax : maxPayloadBytes.toNat < 2 ^ 32 := by decide
  rw [UInt32.toNat_ofNat', Nat.mod_eq_of_lt (lt_of_le_of_lt h hmax)]

theorem encodeParsed_length (f : ParsedFrame) :
    (encodeParsed f).length = entryHeaderBytes + f.payload.length := by
  simp [encodeParsed]

theorem encodeParsed_append_long (f : ParsedFrame) (rest : List Byte) :
    entryHeaderBytes ≤ (encodeParsed f ++ rest).length := by
  rw [List.length_append, encodeParsed_length]; omega

theorem encodeParsed_append_take (f : ParsedFrame) (rest : List Byte) :
    (encodeParsed f ++ rest).take entryHeaderBytes =
      header (UInt32.ofNat f.payload.length) f.durabilityTag f.entryKind f.timestampNanos f.entryId := by
  rw [encodeParsed, List.append_assoc, List.take_append_of_le_length (by simp)]
  exact List.take_of_length_le (by simp)

theorem encodeParsed_append_drop (f : ParsedFrame) (rest : List Byte) :
    (encodeParsed f ++ rest).drop entryHeaderBytes = f.payload ++ rest := by
  rw [encodeParsed, List.append_assoc]
  exact List.drop_left' (by simp)

theorem parsedFrame_header (f : ParsedFrame) (len : UInt32) :
    parsedFrame (header len f.durabilityTag f.entryKind f.timestampNanos f.entryId) f.payload = f := by
  simp only [parsedFrame, header_id_field, header_nanos_field, header_tag_field, header_kind_field]

theorem frameHead_encodeParsed (f : ParsedFrame) (rest : List Byte) (h : Readable f.payload) :
    frameHead (encodeParsed f ++ rest) = .frame f rest := by
  have hlong := encodeParsed_append_long f rest
  have htake := encodeParsed_append_take f rest
  have hdrop := encodeParsed_append_drop f rest
  rw [frameHead_long hlong, htake, header_len_field]
  have hnot : ¬ maxPayloadBytes < UInt32.ofNat f.payload.length := by
    rw [UInt32.lt_iff_toNat_lt, readable_toNat h]
    exact Nat.not_lt.mpr h
  simp only [if_neg hnot, readable_toNat h]
  rw [if_pos (by rw [List.length_append, encodeParsed_length]; omega), hdrop,
    List.take_left' rfl, ← List.drop_drop, hdrop, List.drop_left' rfl, parsedFrame_header]

theorem frameHead_cut (f : ParsedFrame) (p : List Byte) (h : Readable f.payload)
    (hp : p <+: encodeParsed f) (hne : p ≠ encodeParsed f) : frameHead p = .stop := by
  have hlt : p.length < (encodeParsed f).length := by
    rcases Nat.lt_or_ge p.length (encodeParsed f).length with hl | hl
    · exact hl
    · exact absurd (hp.eq_of_length_le hl) hne
  rcases Nat.lt_or_ge p.length entryHeaderBytes with hs | hl
  · exact frameHead_short hs
  have htake : p.take entryHeaderBytes =
      header (UInt32.ofNat f.payload.length) f.durabilityTag f.entryKind f.timestampNanos f.entryId := by
    obtain ⟨t, ht⟩ := hp
    have := congrArg (List.take entryHeaderBytes) ht
    rw [List.take_append_of_le_length hl] at this
    rw [this, encodeParsed, List.take_append_of_le_length (by simp)]
    exact List.take_of_length_le (by simp)
  have hnot : ¬ maxPayloadBytes < UInt32.ofNat f.payload.length := by
    rw [UInt32.lt_iff_toNat_lt, readable_toNat h]
    exact Nat.not_lt.mpr h
  rw [encodeParsed_length] at hlt
  rw [frameHead_long hl, htake, header_len_field]
  simp only [if_neg hnot, readable_toNat h]
  rw [if_neg (by omega)]

/-- The reader invents nothing: the bytes of a frame are the frame that it reports. -/
theorem frameHead_sound (data : List Byte) (f : ParsedFrame) (rest : List Byte)
    (h : frameHead data = .frame f rest) : data = encodeParsed f ++ rest ∧ Readable f.payload := by
  rcases Nat.lt_or_ge data.length entryHeaderBytes with hs | hl
  · rw [frameHead_short hs] at h; cases h
  rw [frameHead_long hl] at h
  simp only at h
  split at h
  · cases h
  rename_i hmax
  split at h
  · rename_i hlen
    simp only [Head.frame.injEq] at h
    obtain ⟨rfl, rfl⟩ := h
    have hpay : ((data.drop entryHeaderBytes).take (fieldU32 (data.take entryHeaderBytes) 0 4).toNat).length =
        (fieldU32 (data.take entryHeaderBytes) 0 4).toNat := by simp; omega
    refine ⟨?_, ?_⟩
    · simp only [encodeParsed, parsedFrame, hpay, UInt32.ofNat_toNat]
      rw [header_of_fields _ (by simp; omega), ← List.drop_drop, List.append_assoc,
        List.take_append_drop, List.take_append_drop]
    · rw [UInt32.lt_iff_toNat_lt] at hmax
      simp only [Readable, parsedFrame, hpay]
      omega
  · cases h

theorem frameHead_shrinks (data : List Byte) (f : ParsedFrame) (rest : List Byte)
    (h : frameHead data = .frame f rest) : rest.length < data.length := by
  obtain ⟨rfl, -⟩ := frameHead_sound data f rest h
  rw [List.length_append, encodeParsed_length]
  simp only [entryHeaderBytes]
  omega

/-- The frames of the WAL, as an instance of the library. -/
def wal : Framing Byte ParsedFrame ParseFrameError where
  head := frameHead
  shrinks := frameHead_shrinks
  enc := encodeParsed
  dom f := Readable f.payload
  head_nil := frameHead_short (by decide)
  head_enc := frameHead_encodeParsed
  head_cut := frameHead_cut
  head_sound := frameHead_sound

theorem tryParseFrames_unfold (data : List Byte) :
    tryParseFrames data = match frameHead data with
      | .frame f rest => .ok f :: tryParseFrames rest
      | .stop => []
      | .bad e => [.error e] := by
  rw [tryParseFrames]
  unfold frameHead
  split
  · rename_i h; rw [h]
  · rename_i h; rw [h]
  · rename_i hd rest h
    rw [h]
    simp only
    by_cases hmax : maxPayloadBytes < fieldU32 hd 0 4
    · rw [if_pos hmax, if_pos hmax]
    · rw [if_neg hmax, if_neg hmax]
      split
      · rename_i h'; rw [h']
      · rename_i h'; rw [h']

/-- The loop of `try_parse_frames` is the decoder of the library. -/
theorem tryParseFrames_eq_decode (data : List Byte) : tryParseFrames data = wal.decode data := by
  induction hn : data.length using Nat.strong_induction_on generalizing data with
  | _ n ih =>
    rw [tryParseFrames_unfold]
    cases h : frameHead data with
    | frame f rest =>
      have hlt := frameHead_shrinks data f rest h
      rw [Decoder.decode_frame (D := wal.toDecoder) h]
      simp only [ih rest.length (by omega) rest rfl]
    | stop => rw [Decoder.decode_stop (D := wal.toDecoder) h]
    | bad e => rw [Decoder.decode_bad (D := wal.toDecoder) h]

/-! ## Segments -/

def Entry.parsed (e : Entry) : ParsedFrame where
  entryId := e.entryId
  timestampNanos := e.timestampNanos
  durabilityTag := durabilityTag e.durability
  entryKind := entryKindDefault
  payload := e.payload

def segmentBytes (es : List Entry) : List Byte := es.flatMap encodeEntry

theorem segmentBytes_eq_encAll (es : List Entry) : segmentBytes es = wal.encAll (es.map Entry.parsed) := by
  simp only [segmentBytes, Framing.encAll, List.flatMap_map]
  rfl

theorem dom_parsed {es : List Entry} (h : ∀ e ∈ es, Readable e.payload) :
    ∀ f ∈ es.map Entry.parsed, wal.dom f := by
  intro f hf
  obtain ⟨e, he, rfl⟩ := List.mem_map.mp hf
  exact h e he

theorem tryParseFrames_segment {es : List Entry} (h : ∀ e ∈ es, Readable e.payload) (rest : List Byte) :
    tryParseFrames (segmentBytes es ++ rest) =
      (es.map fun e => .ok e.parsed) ++ tryParseFrames rest := by
  rw [tryParseFrames_eq_decode, tryParseFrames_eq_decode, segmentBytes_eq_encAll,
    Framing.decode_encAll_append (dom_parsed h), List.map_map]
  rfl

/-- Less than one frame, and a length field that the reader accepts if it is there at all. -/
def Incomplete (tail : List Byte) : Prop :=
  tail.length < entryHeaderBytes ∨
    (fieldU32 (tail.take entryHeaderBytes) 0 4 ≤ maxPayloadBytes ∧
      tail.length < entryHeaderBytes + (fieldU32 (tail.take entryHeaderBytes) 0 4).toNat)

theorem frameHead_eq_stop_iff (tail : List Byte) : frameHead tail = .stop ↔ Incomplete tail := by
  unfold Incomplete
  rcases Nat.lt_or_ge tail.length entryHeaderBytes with hs | hl
  · simp [frameHead_short hs, hs]
  rw [frameHead_long hl]
  simp only
  split
  · rename_i hmax
    have : ¬ fieldU32 (tail.take entryHeaderBytes) 0 4 ≤ maxPayloadBytes := UInt32.not_le.mpr hmax
    simp only [reduceCtorEq, this, false_and, or_false, false_iff]
    omega
  · rename_i hmax
    have hle : fieldU32 (tail.take entryHeaderBytes) 0 4 ≤ maxPayloadBytes := UInt32.not_lt.mp hmax
    split
    · simp only [reduceCtorEq, false_iff]
      omega
    · simp only [true_iff]
      exact Or.inr ⟨hle, by omega⟩

theorem tryParseFrames_eq_ok_iff {data : List Byte} {es : List Entry} :
    tryParseFrames data = (es.map fun e => .ok e.parsed) ↔
      (∀ e ∈ es, Readable e.payload) ∧ ∃ tail, data = segmentBytes es ++ tail ∧ Incomplete tail := by
  have h : wal.decode data = (es.map Entry.parsed).map .ok ↔ _ := Framing.decode_eq_ok_iff
  rw [List.map_map, ← tryParseFrames_eq_decode, ← segmentBytes_eq_encAll] at h
  refine h.trans (and_congr ?_ (exists_congr fun tail => and_congr_right fun _ => frameHead_eq_stop_iff tail))
  constructor
  · intro hd e he
    exact hd _ (List.mem_map_of_mem he)
  · exact dom_parsed

/-! ## Oversized payloads -/

theorem frameHead_oversized {e : Entry} (hbig : ¬ Readable e.payload) (hlen : e.payload.length < 2 ^ 32)
    (rest : List Byte) :
    frameHead (encodeEntry e ++ rest) = .bad (.payloadOverflow (UInt32.ofNat e.payload.length)) := by
  have hlong : entryHeaderBytes ≤ (encodeEntry e ++ rest).length := by
    simp [encodeEntry]
  have htake : (encodeEntry e ++ rest).take entryHeaderBytes =
      header (UInt32.ofNat e.payload.length) (durabilityTag e.durability) entryKindDefault
        e.timestampNanos e.entryId := by
    rw [encodeEntry, List.append_assoc, List.take_append_of_le_length (by simp)]
    exact List.take_of_length_le (by simp)
  have hmax : maxPayloadBytes < UInt32.ofNat e.payload.length := by
    rw [UInt32.lt_iff_toNat_lt, UInt32.toNat_ofNat', Nat.mod_eq_of_lt hlen]
    exact Nat.not_le.mp hbig
  rw [frameHead_long hlong, htake, header_len_field]
  simp only [if_pos hmax]

theorem tryParseFrames_oversized {es : List Entry} (hlen : ∀ e ∈ es, e.payload.length < 2 ^ 32)
    (hbig : ∃ e ∈ es, ¬ Readable e.payload) (rest : List Byte) :
    ∃ err, .error err ∈ tryParseFrames (segmentBytes es ++ rest) := by
  induction es with
  | nil => obtain ⟨e, he, -⟩ := hbig; cases he
  | cons e es ih =>
    have hseg : segmentBytes (e :: es) ++ rest = encodeEntry e ++ (segmentBytes es ++ rest) := by
      simp [segmentBytes]
    rw [hseg, tryParseFrames_unfold]
    by_cases hr : Readable e.payload
    · rw [show frameHead (encodeEntry e ++ _) = _ from frameHead_encodeParsed e.parsed _ hr]
      obtain ⟨err, herr⟩ := ih (fun c hc => hlen c (List.mem_cons_of_mem _ hc)) (by
        obtain ⟨c, hc, hcb⟩ := hbig
        rcases List.mem_cons.mp hc with rfl | hc
        · exact absurd hr hcb
        · exact ⟨c, hc, hcb⟩)
      exact ⟨err, List.mem_cons_of_mem _ herr⟩
    · rw [frameHead_oversized hr (hlen e List.mem_cons_self)]
      exact ⟨_, List.mem_cons_self⟩

/-! ## Any input -/

theorem readExactOrEof_round (r : Reader) {n : Nat} {buf data : List Byte} (hbuf : buf.length ≤ n) :
    r.readExactOrEof n buf data =
      if n ≤ (buf ++ data).length then .read ((buf ++ data).take n) ((buf ++ data).drop n)
      else if buf ++ data = [] then .eof else .early := by
  induction hm : n - buf.length using Nat.strong_induction_on generalizing buf data with
  | _ m ih =>
    rw [Reader.readExactOrEof]
    by_cases hroom : buf.length < n
    · have hle := r.give_le (n - buf.length) data
      simp only [if_pos hroom]
      by_cases hzero : r.give (n - buf.length) data = 0
      · have hend : data = [] := by
          by_contra hdata
          have := r.give_pos (n - buf.length) data (by omega) hdata
          omega
        subst hend
        have hshort : ¬ n ≤ buf.length := Nat.not_le.mpr hroom
        rw [if_pos hzero, List.append_nil, if_neg hshort]
        by_cases hnil : buf = []
        · simp [hnil]
        · simp [hnil]
      · have hlen : (buf ++ data.take (r.give (n - buf.length) data)).length =
            buf.length + r.give (n - buf.length) data := by
          rw [List.length_append, List.length_take]
          omega
        rw [if_neg hzero, ih _ (by omega) (by omega) rfl, List.append_assoc, List.take_append_drop]
    · have hfull : buf.length = n := by omega
      rw [if_neg hroom, if_pos (by rw [List.length_append]; omega), List.take_left' hfull, List.drop_left' hfull]

/-- The loop of `read_exact_or_eof` fills the header or meets the end, however the reader cuts its answers. -/
theorem readExactOrEof_eq_loop (r : Reader) {n : Nat} (hn : 0 < n) (data : List Byte) :
    r.readExactOrEof n [] data = readExactOrEof n data := by
  rw [readExactOrEof_round r (Nat.zero_le n), List.nil_append]
  rcases Nat.lt_or_ge data.length n with hlt | hle
  · have hshort : ¬ n ≤ data.length := Nat.not_le.mpr hlt
    unfold readExactOrEof readExact
    rw [if_neg hshort, if_neg hshort]
  · rw [if_pos hle, readExactOrEof_of_le hn hle]

/-- A header whose length field the reader refuses. -/
def Oversized (tail : List Byte) : Prop :=
  entryHeaderBytes ≤ tail.length ∧ maxPayloadBytes < fieldU32 (tail.take entryHeaderBytes) 0 4

theorem frameHead_eq_bad_iff (tail : List Byte) (e : ParseFrameError) :
    frameHead tail = .bad e ↔ Oversized tail ∧ e = .payloadOverflow (fieldU32 (tail.take entryHeaderBytes) 0 4) := by
  unfold Oversized
  rcases Nat.lt_or_ge tail.length entryHeaderBytes with hs | hl
  · rw [frameHead_short hs]
    simp only [reduceCtorEq, false_iff]
    omega
  rw [frameHead_long hl]
  simp only
  by_cases hmax : maxPayloadBytes < fieldU32 (tail.take entryHeaderBytes) 0 4
  · rw [if_pos hmax, Head.bad.injEq]
    constructor
    · intro h
      exact ⟨⟨hl, hmax⟩, h.symm⟩
    · intro h
      exact h.2.symm
  · rw [if_neg hmax]
    split <;> simp [hmax]

/-- The frames among the results. -/
def okFrames (results : List (Except ParseFrameError ParsedFrame)) : List ParsedFrame :=
  results.filterMap Except.toOption

theorem okFrames_ok (frames : List ParsedFrame) : okFrames (frames.map .ok) = frames := by
  unfold okFrames
  rw [List.filterMap_map]
  exact List.filterMap_some

theorem okFrames_append (frames : List ParsedFrame) (results : List (Except ParseFrameError ParsedFrame)) :
    okFrames (frames.map .ok ++ results) = frames ++ okFrames results := by
  unfold okFrames
  rw [List.filterMap_append, ← okFrames, okFrames_ok]

theorem okFrames_error (e : ParseFrameError) : okFrames [.error e] = [] := rfl

/-- **Any bytes at all.** The frames that are reported are the front of the input, byte for byte. What is left is less
than a header, or a header with less than its payload, and then there is no error, or it is a header that declares too
much, and then there is one error, at the end. -/
theorem tryParseFrames_partition (data : List Byte) :
    ∃ tail, data = (okFrames (tryParseFrames data)).flatMap encodeParsed ++ tail ∧
      ((tail.length < entryHeaderBytes ∧
          tryParseFrames data = (okFrames (tryParseFrames data)).map .ok) ∨
        (entryHeaderBytes ≤ tail.length ∧ fieldU32 (tail.take entryHeaderBytes) 0 4 ≤ maxPayloadBytes ∧
          tail.length < entryHeaderBytes + (fieldU32 (tail.take entryHeaderBytes) 0 4).toNat ∧
          tryParseFrames data = (okFrames (tryParseFrames data)).map .ok) ∨
        (entryHeaderBytes ≤ tail.length ∧ maxPayloadBytes < fieldU32 (tail.take entryHeaderBytes) 0 4 ∧
          tryParseFrames data = (okFrames (tryParseFrames data)).map .ok ++
            [.error (.payloadOverflow (fieldU32 (tail.take entryHeaderBytes) 0 4))])) := by
  obtain ⟨frames, tail, hdata, hdom, hend⟩ := Framing.exists_encAll_append wal data
  have hdecode : tryParseFrames data = frames.map .ok ++ wal.decode tail := by
    rw [tryParseFrames_eq_decode, hdata, Framing.decode_encAll_append hdom]
  rcases hend with hstop | ⟨e, hbad⟩
  · rw [Decoder.decode_stop hstop, List.append_nil] at hdecode
    rw [hdecode, okFrames_ok]
    refine ⟨tail, hdata, ?_⟩
    rcases Nat.lt_or_ge tail.length entryHeaderBytes with hs | hl
    · exact .inl ⟨hs, rfl⟩
    · rcases (frameHead_eq_stop_iff tail).mp hstop with hs | ⟨hmax, hshort⟩
      · omega
      · exact .inr (.inl ⟨hl, hmax, hshort, rfl⟩)
  · obtain ⟨⟨hl, hmax⟩, rfl⟩ := (frameHead_eq_bad_iff tail e).mp hbad
    rw [Decoder.decode_bad hbad] at hdecode
    have hframes : okFrames (tryParseFrames data) = frames := by
      rw [hdecode, okFrames_append, okFrames_error, List.append_nil]
    rw [hframes]
    exact ⟨tail, hdata, .inr (.inr ⟨hl, hmax, hdecode⟩)⟩

/-! ## Any cut -/

/-- **A crash cuts the file anywhere.** The reader gives back the entries that end before the
cut, in order, and nothing else. -/
theorem tryParseFrames_truncated (es : List Entry) (h : ∀ e ∈ es, Readable e.payload) (n : Nat) :
    ∃ k ≤ es.length, (segmentBytes (es.take k)).length ≤ n ∧
      (k < es.length → n < (segmentBytes (es.take (k + 1))).length) ∧
      tryParseFrames ((segmentBytes es).take n) = (es.take k).map fun e => .ok e.parsed := by
  obtain ⟨k, hk, hle, hlt, hdec⟩ := Framing.decode_encAll_take (dom_parsed h) n
  rw [List.length_map] at hk hlt
  refine ⟨k, hk, ?_, ?_, ?_⟩
  · rw [segmentBytes_eq_encAll, List.map_take]; exact hle
  · intro hk'
    rw [segmentBytes_eq_encAll, List.map_take]; exact hlt hk'
  · rw [tryParseFrames_eq_decode, segmentBytes_eq_encAll, hdec, ← List.map_take, List.map_map]
    rfl

theorem tryParseFrames_truncated_pair :
    let es : List Entry := [⟨1, 7, .fsync, [5]⟩, ⟨2, 8, .async, []⟩]
    (∀ e ∈ es, Readable e.payload) ∧
    ∃ k ≤ es.length, (segmentBytes (es.take k)).length ≤ 28 ∧
      (k < es.length → 28 < (segmentBytes (es.take (k + 1))).length) ∧
      tryParseFrames ((segmentBytes es).take 28) = (es.take k).map fun e => .ok e.parsed :=
  ⟨by decide, tryParseFrames_truncated [⟨1, 7, .fsync, [5]⟩, ⟨2, 8, .async, []⟩] (by decide) 28⟩

end Riftgate.Frame
