import Riftgate.BodyFraming

/-!
# What the HTTP parser says and what it keeps

The events of a run are one error, or a head, its body in pieces and the end of the body. The bytes of a run are all
kept.
-/

open Lib

namespace Riftgate.Http1

open Mcp Parse

/-! ## The grammar of the events -/

/-- After none of these feeds has the parser made up its mind about the head: it fits, and is not whole. -/
def Undecided (httparse : Httparse) (chunks : List (List Byte)) : Prop :=
  ∀ before bytes, before ++ [bytes] <+: chunks →
    (before.flatten ++ bytes).length ≤ maxHeaderBytes ∧ httparse (before.flatten ++ bytes) = .incomplete

/-- The three errors, for a head of which `scratch` has arrived. -/
inductive HeadError (httparse : Httparse) (scratch : List Byte) : ParseError → Prop
  | tooLarge (hlarge : maxHeaderBytes < scratch.length) : HeadError httparse scratch (.headerTooLarge scratch.length)
  | malformed {e : HttparseError} (hlen : scratch.length ≤ maxHeaderBytes) (hparse : httparse scratch = .error e) :
      HeadError httparse scratch (httparseError scratch.length 0 e)
  | chunked {n : Nat} {parsed : HeaderList} (hlen : scratch.length ≤ maxHeaderBytes)
      (hparse : httparse scratch = .complete n parsed) (hchunked : isChunked (headersOf parsed) = true) :
      HeadError httparse scratch (.invalidChunkedEncoding chunkedReason)

/-- The events that the pieces so far lead to. -/
inductive Framing (httparse : Httparse) (chunks : List (List Byte)) : List ParseEvent → Prop
  | waiting (hwait : Undecided httparse chunks) : Framing httparse chunks []
  | error {before later : List (List Byte)} {bytes : List Byte} {e : ParseError}
      (hchunks : chunks = before ++ bytes :: later) (hwait : Undecided httparse before)
      (herror : HeadError httparse (before.flatten ++ bytes) e) : Framing httparse chunks [.error e]
  | request {before later : List (List Byte)} {bytes : List Byte} {n : Nat} {parsed : HeaderList}
      {parts : List (List Byte)} (hchunks : chunks = before ++ bytes :: later) (hwait : Undecided httparse before)
      (hlen : (before.flatten ++ bytes).length ≤ maxHeaderBytes)
      (hhead : httparse (before.flatten ++ bytes) = .complete n parsed)
      (hplain : isChunked (headersOf parsed) = false) (hparts : ∀ part ∈ parts, part ≠ [])
      (hbody : parts.flatten = (chunks.flatten.drop n).take (contentLength parsed)) :
      Framing httparse chunks (.headersComplete (headersOf parsed) :: parts.map .bodyChunk ++
        if contentLength parsed ≤ (chunks.flatten.drop n).length then [.bodyComplete] else [])

theorem undecided_nil (httparse : Httparse) : Undecided httparse [] := by
  intro before bytes h
  exact absurd (List.prefix_nil.mp h) (by simp)

theorem Undecided.append {httparse : Httparse} {before : List (List Byte)} {bytes : List Byte}
    (h : Undecided httparse before) (hlen : (before.flatten ++ bytes).length ≤ maxHeaderBytes)
    (hparse : httparse (before.flatten ++ bytes) = .incomplete) : Undecided httparse (before ++ [bytes]) := by
  intro before' bytes' hprefix
  rcases List.prefix_concat_iff.mp hprefix with heq | hprefix
  · obtain ⟨rfl, hbytes⟩ := List.append_inj' heq rfl
    obtain rfl : bytes' = bytes := List.singleton_inj.mp hbytes
    exact ⟨hlen, hparse⟩
  · exact h before' bytes' hprefix

/-- The pieces of a body of which `r` bytes are to come. -/
def BodyParts (r : Nat) (input : List Byte) (events : List ParseEvent) : Prop :=
  ∃ parts : List (List Byte), (∀ part ∈ parts, part ≠ []) ∧ parts.flatten = input.take r ∧
    events = parts.map .bodyChunk ++ if r ≤ input.length then [.bodyComplete] else []

theorem bodyEvents_parts (r : Nat) (input : List Byte) : BodyParts r input (bodyEvents r input) := by
  unfold bodyEvents
  by_cases hnone : input.take r = []
  · exact ⟨[], by simp, by simp [hnone], by simp [hnone]⟩
  · exact ⟨[input.take r], by simpa using hnone, by simp, by simp [hnone]⟩

theorem BodyParts.append {r : Nat} {c d : List Byte} {events : List ParseEvent} (h : c.length < r)
    (hd : BodyParts (r - c.length) d events) : BodyParts r (c ++ d) (bodyEvents r c ++ events) := by
  obtain ⟨parts, hparts, hflat, rfl⟩ := hd
  have htake : (c ++ d).take r = c ++ d.take (r - c.length) := by
    rw [List.take_append, List.take_of_length_le (by omega)]
  have hlen : r ≤ (c ++ d).length ↔ r - c.length ≤ d.length := by
    rw [List.length_append]
    omega
  have hshort : ¬ r ≤ c.length := by omega
  unfold bodyEvents
  rw [List.take_of_length_le (by omega : c.length ≤ r), if_neg hshort]
  by_cases hc : c = []
  · exact ⟨parts, hparts, by simp [hc, hflat], by simp [hc]⟩
  · refine ⟨c :: parts, ?_, by rw [List.flatten_cons, hflat, htake], ?_⟩
    · simpa [hc] using hparts
    · simp only [hc, if_false, hlen, List.map_cons, List.append_nil, List.cons_append, List.nil_append]

/-- The cursor is in the buffer, and a body that is still read has a byte to come. -/
def CursorOk (p : Http1Parser) : Prop :=
  p.consumed ≤ p.scratch.length ∧ ∀ r, p.phase = .streamingBodyContentLength r → 0 < r

/-- So is every range that is to be cut out of the buffer, and it is not empty. -/
def RangesOk (scratch : List Byte) (emit : List Emit) : Prop :=
  ∀ start stop, .bodyRange start stop ∈ emit → start < stop ∧ stop ≤ scratch.length

theorem CursorOk.append {p : Http1Parser} (h : CursorOk p) (bytes : List Byte) :
    CursorOk { p with scratch := p.scratch ++ bytes } :=
  ⟨Nat.le_trans h.1 (by simp), h.2⟩

section

variable (httparse : Httparse)

theorem turn_scratch (p : Http1Parser) : (turn httparse p).1.scratch = p.scratch := by
  unfold turn
  split
  · split
    · rfl
    · split
      · simp only
        split
        · rfl
        · split <;> rfl
      · rfl
      · rfl
  · simp only
    split
    · rfl
    · split <;> rfl
  · rfl
  · rfl

theorem loop_scratch (turns : Nat) (p : Http1Parser) : (loop httparse turns p).1.scratch = p.scratch := by
  induction turns generalizing p with
  | zero => rfl
  | succ turns ih =>
    have hturn := turn_scratch httparse p
    rw [loop]
    split
    · rename_i hr
      rw [hr] at hturn
      exact hturn
    · rename_i hr
      rw [hr] at hturn
      exact (ih _).trans hturn

theorem feeds_parts {v : List Byte} {r : Nat} (hr : 0 < r) (chunks : List (List Byte)) :
    BodyParts r chunks.flatten (feeds (feed httparse) ⟨v, v.length, .streamingBodyContentLength r⟩ chunks).2 := by
  induction chunks generalizing v r with
  | nil => exact ⟨[], by simp, by simp, by simp; omega⟩
  | cons c chunks ih =>
    rw [feeds_cons, feed_streaming httparse hr, List.flatten_cons]
    by_cases hle : r ≤ c.length
    · rw [if_pos hle, feeds_silent httparse (Or.inl rfl), List.append_nil, ← bodyEvents_enough hle chunks.flatten]
      exact bodyEvents_parts r _
    · rw [if_neg hle]
      exact (ih (by omega)).append (by omega)

theorem afterHead_parts {v : List Byte} {n : Nat} {parsed : HeaderList} (hn : n ≤ v.length)
    (hplain : isChunked (headersOf parsed) = false) (chunks : List (List Byte)) :
    BodyParts (contentLength parsed) ((v ++ chunks.flatten).drop n)
      (bodyEvents (contentLength parsed) (v.drop n) ++ (feeds (feed httparse) (afterHead v n parsed) chunks).2) := by
  have hlen : (v.drop n).length = v.length - n := List.length_drop
  rw [List.drop_append_of_le_length hn]
  unfold afterHead
  rw [if_neg (by simp [hplain])]
  by_cases hall : contentLength parsed ≤ v.length - n
  · rw [if_pos hall, feeds_silent httparse (Or.inl rfl), List.append_nil,
      ← bodyEvents_enough (by rw [hlen]; exact hall) chunks.flatten]
    exact bodyEvents_parts _ _
  · rw [if_neg hall]
    have hparts := @feeds_parts httparse v (contentLength parsed - (v.length - n)) (by omega) chunks
    rw [← hlen] at hparts ⊢
    exact hparts.append (by omega)

variable {httparse} (hfits : ∀ v n parsed, httparse v = .complete n parsed → n ≤ v.length)

include hfits

theorem feeds_framing {before : List (List Byte)} (hwait : Undecided httparse before) (chunks : List (List Byte)) :
    Framing httparse (before ++ chunks) (feeds (feed httparse) ⟨before.flatten, 0, .awaitingHeaders⟩ chunks).2 := by
  induction chunks generalizing before with
  | nil =>
    rw [List.append_nil]
    exact .waiting hwait
  | cons c chunks ih =>
    rw [feeds_cons]
    rcases Nat.lt_or_ge maxHeaderBytes (before.flatten ++ c).length with hlarge | hle
    · rw [feed_tooLarge httparse hlarge, feeds_silent httparse (Or.inr rfl)]
      exact .error rfl hwait (.tooLarge hlarge)
    · cases hparse : httparse (before.flatten ++ c) with
      | incomplete =>
        rw [feed_incomplete httparse hle hparse]
        have hnext := ih (hwait.append hle hparse)
        rw [List.flatten_append, List.flatten_singleton, List.append_assoc] at hnext
        exact hnext
      | error e =>
        rw [feed_httparseError httparse hle hparse, feeds_silent httparse (Or.inr rfl)]
        exact .error rfl hwait (.malformed hle hparse)
      | complete n parsed =>
        have hn := hfits _ _ _ hparse
        rw [feed_complete httparse hle hparse hn]
        cases hchunked : isChunked (headersOf parsed) with
        | true =>
          have hphase : (afterHead (before.flatten ++ c) n parsed).phase = .error := by
            unfold afterHead
            rw [if_pos hchunked]
          rw [feeds_silent httparse (Or.inr hphase)]
          unfold requestEvents
          rw [if_pos hchunked]
          exact .error rfl hwait (.chunked hle hparse hchunked)
        | false =>
          have hall : (before ++ c :: chunks).flatten = before.flatten ++ c ++ chunks.flatten := by simp
          obtain ⟨parts, hparts, hflat, hevents⟩ := afterHead_parts httparse hn hchunked chunks
          unfold requestEvents
          rw [if_neg (by simp [hchunked]), List.cons_append, hevents, ← hall]
          exact .request rfl hwait hle hparse hchunked hparts (by rw [hflat, hall])

/-! ## The cursor -/

omit hfits in
theorem rangesOk_of_none {scratch : List Byte} {emit : List Emit}
    (h : ∀ e ∈ emit, ∀ start stop, e ≠ .bodyRange start stop) : RangesOk scratch emit :=
  fun start stop hmem => absurd rfl (h _ hmem start stop)

omit hfits in
theorem rangesOk_cons {scratch : List Byte} {emit : List Emit} {start stop : Nat}
    (hrange : start < stop ∧ stop ≤ scratch.length) (h : RangesOk scratch emit) :
    RangesOk scratch (.bodyRange start stop :: emit) := by
  intro start' stop' hmem
  rcases List.mem_cons.mp hmem with heq | hmem
  · obtain ⟨rfl, rfl⟩ := Emit.bodyRange.inj heq
    exact hrange
  · exact h start' stop' hmem

theorem turn_cursor {p : Http1Parser} (h : CursorOk p) :
    CursorOk (turn httparse p).1 ∧ RangesOk p.scratch (turn httparse p).2.1 := by
  obtain ⟨scratch, consumed, phase⟩ := p
  obtain ⟨hle, hpos⟩ := h
  simp only at hle hpos
  have hnone : RangesOk scratch [] := rangesOk_of_none (by simp)
  cases phase with
  | done => exact ⟨⟨hle, hpos⟩, hnone⟩
  | error => exact ⟨⟨hle, hpos⟩, hnone⟩
  | streamingBodyContentLength r =>
    have hr := hpos r rfl
    simp only [turn]
    split
    · exact ⟨⟨hle, hpos⟩, hnone⟩
    · -- The two ways on differ in the phase, and in whether the body is whole.
      have hrange : consumed < consumed + min (scratch.length - consumed) r ∧
          consumed + min (scratch.length - consumed) r ≤ scratch.length := by
        omega
      split
      · exact ⟨⟨hrange.2, by simp⟩, rangesOk_cons hrange (rangesOk_of_none (by simp))⟩
      · refine ⟨⟨hrange.2, ?_⟩, rangesOk_cons hrange hnone⟩
        rintro r' ⟨⟩
        omega
  | awaitingHeaders =>
    simp only [turn]
    split
    · exact ⟨⟨hle, by simp⟩, rangesOk_of_none (by simp)⟩
    · cases hparse : httparse (scratch.drop consumed) with
      | incomplete => exact ⟨⟨hle, hpos⟩, hnone⟩
      | error e => exact ⟨⟨hle, by simp⟩, rangesOk_of_none (by simp)⟩
      | complete n parsed =>
        have hn : consumed + n ≤ scratch.length := by
          have := hfits _ _ _ hparse
          rw [List.length_drop] at this
          omega
        simp only
        split
        · exact ⟨⟨hn, by simp⟩, rangesOk_of_none (by simp)⟩
        · split
          · exact ⟨⟨hn, by simp⟩, rangesOk_of_none (by simp)⟩
          · rename_i hcl
            refine ⟨⟨hn, ?_⟩, rangesOk_of_none (by simp)⟩
            rintro r' ⟨⟩
            exact Nat.pos_of_ne_zero hcl

theorem loop_cursor (turns : Nat) {p : Http1Parser} (h : CursorOk p) :
    CursorOk (loop httparse turns p).1 ∧ RangesOk p.scratch (loop httparse turns p).2 := by
  induction turns generalizing p with
  | zero => exact ⟨h, by intro start stop hmem; cases hmem⟩
  | succ turns ih =>
    have hscratch := turn_scratch httparse p
    obtain ⟨hcursor, hranges⟩ := turn_cursor hfits h
    rw [loop]
    split
    · rename_i p' emit hturn
      rw [hturn] at hcursor hranges
      exact ⟨hcursor, hranges⟩
    · rename_i p' emit hturn
      rw [hturn] at hscratch hcursor hranges
      simp only at hscratch
      obtain ⟨hcursor', hranges'⟩ := ih hcursor
      refine ⟨hcursor', fun start stop hmem => ?_⟩
      rcases List.mem_append.mp hmem with hmem | hmem
      · exact hranges start stop hmem
      · rw [← hscratch]
        exact hranges' start stop hmem

theorem feeds_cursor {p : Http1Parser} (h : CursorOk p) (chunks : List (List Byte)) :
    CursorOk (feeds (feed httparse) p chunks).1 := by
  induction chunks generalizing p with
  | nil => exact h
  | cons c chunks ih =>
    rw [feeds_cons]
    refine ih ?_
    unfold feed
    split
    · exact h
    · exact (loop_cursor hfits 3 (h.append c)).1

/-- **Body framing.** The events of any run are none as long as the head is not whole, one error with its cause, or a
front of a head, its body in non-empty pieces and the end of the body. The pieces are the first bytes after the head,
as many as are announced and have arrived. The end is there when all have arrived. After any number of turns of any
feed the cursor and the ranges are in the buffer. -/
theorem http1_framing (chunks : List (List Byte)) :
    Framing httparse chunks (feeds (feed httparse) .new chunks).2 ∧
    CursorOk (feeds (feed httparse) .new chunks).1 ∧
    ∀ bytes turns,
      let p := (feeds (feed httparse) .new chunks).1
      let r := loop httparse turns { p with scratch := p.scratch ++ bytes }
      r.1.scratch = p.scratch ++ bytes ∧ CursorOk r.1 ∧ RangesOk r.1.scratch r.2 := by
  have hnew : CursorOk .new := ⟨Nat.le_refl 0, by simp [Http1Parser.new]⟩
  have hcursor := feeds_cursor hfits hnew chunks
  refine ⟨feeds_framing hfits (undecided_nil httparse) chunks, hcursor, ?_⟩
  intro bytes turns p r
  have hscratch : r.1.scratch = p.scratch ++ bytes := loop_scratch httparse turns _
  obtain ⟨hloop, hranges⟩ := loop_cursor hfits turns (hcursor.append bytes)
  exact ⟨hscratch, hloop, by rw [hscratch]; exact hranges⟩

end

theorem feed_postHead : feed (oneHead postHead postHeaders) .new postHead =
    (⟨postHead, postHead.length, .streamingBodyContentLength 9000⟩, [.headersComplete postHeaders]) := by
  have hparse : oneHead postHead postHeaders ([] ++ postHead) = .complete postHead.length postHeaders :=
    if_pos List.prefix_rfl
  unfold Http1Parser.new
  rw [feed_complete _ (by decide) hparse (le_refl _)]
  decide

/-- The head, and then one byte of its body. -/
theorem post_framing :
    let httparse := oneHead postHead postHeaders
    let events := (feeds (feed httparse) .new [postHead, [97]]).2
    (∀ v n parsed, httparse v = .complete n parsed → n ≤ v.length) ∧
    events = [.headersComplete postHeaders, .bodyChunk [97]] ∧ Framing httparse [postHead, [97]] events := by
  intro httparse events
  have hfits : ∀ v n parsed, oneHead postHead postHeaders v = .complete n parsed → n ≤ v.length :=
    fun v n parsed h => ((oneHead_stable (by decide) postHeaders).complete v n parsed h).1
  have hevents : events = [.headersComplete postHeaders, .bodyChunk [97]] := by
    simp only [events, httparse, feeds_cons, feeds_nil]
    rw [feed_postHead, feed_streaming _ (by decide)]
    rfl
  exact ⟨hfits, hevents, (http1_framing hfits [postHead, [97]]).1⟩

/-! ## What is kept

Nothing is ever taken out of the buffer but by a reset.
-/

section

variable (httparse : Httparse)

theorem feed_scratch (p : Http1Parser) (c : List Byte) :
    (feed httparse p c).1.scratch = p.scratch ++ if p.phase = .error then [] else c := by
  unfold feed
  split
  · exact (List.append_nil _).symm
  · exact loop_scratch httparse 3 _

/-- The pieces up to the one with which the parser fails. It does not listen to those that come after. -/
def heard : Http1Parser → List (List Byte) → List (List Byte)
  | _, [] => []
  | p, c :: chunks => if p.phase = .error then [] else c :: heard (feed httparse p c).1 chunks

theorem heard_error {p : Http1Parser} (h : p.phase = .error) (chunks : List (List Byte)) :
    heard httparse p chunks = [] := by
  cases chunks with
  | nil => rfl
  | cons c chunks => exact if_pos h

theorem feeds_scratch (p : Http1Parser) (chunks : List (List Byte)) :
    (feeds (feed httparse) p chunks).1.scratch = p.scratch ++ (heard httparse p chunks).flatten := by
  induction chunks generalizing p with
  | nil => simp [heard]
  | cons c chunks ih =>
    rw [feeds_cons, ih, feed_scratch, heard]
    split
    · rename_i herror
      rw [feed_error httparse herror, heard_error httparse herror]
      simp
    · rw [List.flatten_cons, List.append_assoc]

/-- After each feed of the run, at most the limit for a head and the bytes of that feed are kept. -/
def KeepsLittle (p : Http1Parser) (chunks : List (List Byte)) : Prop :=
  ∀ before c, before ++ [c] <+: chunks →
    (feeds (feed httparse) p (before ++ [c])).1.scratch.length ≤ maxHeaderBytes + c.length

/-- What has been heard before each feed is at most the limit for a head. A parser that has failed hears no more, so
that the feed itself is not added. -/
def HeardLittle (p : Http1Parser) (chunks : List (List Byte)) : Prop :=
  ∀ before c, before ++ [c] <+: chunks → (heard httparse p before).flatten.length ≤
    maxHeaderBytes + if (feeds (feed httparse) p before).1.phase = .error then c.length else 0

/-- **What is kept, exactly.** Between two resets the parser keeps all that it hears. So it keeps little after each feed
of a run if and only if it has heard little before each of them. -/
theorem keepsLittle_iff (p : Http1Parser) (chunks : List (List Byte)) :
    (feeds (feed httparse) (reset p) chunks).1.scratch = (heard httparse (reset p) chunks).flatten ∧
    (KeepsLittle httparse (reset p) chunks ↔ HeardLittle httparse (reset p) chunks) := by
  refine ⟨feeds_scratch httparse (reset p) chunks, ?_⟩
  unfold KeepsLittle HeardLittle
  refine forall₃_congr fun before c _ => ?_
  have hbefore : (feeds (feed httparse) (reset p) before).1.scratch = (heard httparse (reset p) before).flatten :=
    feeds_scratch httparse (reset p) before
  rw [feeds_append, feeds_cons, feeds_nil]
  simp only
  rw [feed_scratch, hbefore, List.length_append]
  split
  · simp
  · omega

end

/-- A body of 9000 bytes after its head, and one byte after the body. -/
theorem whole_body_is_kept :
    let httparse := oneHead postHead postHeaders
    let chunks := [postHead, List.replicate 9000 97, [0]]
    (feeds (feed httparse) (reset .new) chunks).1.scratch.length = 9042 ∧
    ¬ KeepsLittle httparse (reset .new) chunks := by
  intro httparse chunks
  have hhead : (feed httparse (reset .new) postHead).1 =
      ⟨postHead, postHead.length, .streamingBodyContentLength 9000⟩ := congrArg Prod.fst feed_postHead
  have hlen : (List.replicate 9000 (97 : Byte)).length = 9000 := List.length_replicate
  have hkept : (feeds (feed httparse) (reset .new) chunks).1.scratch.length = 9042 := by
    simp only [chunks, feeds_cons, feeds_nil]
    rw [hhead, feed_streaming httparse (by decide), if_pos (by omega), feed_done httparse rfl]
    simp only [List.length_append, hlen]
    decide
  refine ⟨hkept, fun hlittle => ?_⟩
  have hlast := hlittle [postHead, List.replicate 9000 97] [0] List.prefix_rfl
  have : (feeds (feed httparse) (reset .new) chunks).1.scratch.length ≤ maxHeaderBytes + 1 := hlast
  rw [hkept] at this
  exact absurd this (by decide)

end Riftgate.Http1
