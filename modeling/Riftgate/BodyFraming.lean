import Riftgate.HttpChunks

/-!
# Which body a head announces

A head may announce its body more than once, and in more than one way. The parser looks at the first header of
each name.
-/

open Lib

namespace Riftgate.Http1

open Mcp Parse

/-! ## Ambiguous heads -/

/-- All values of a name, in any letter case. -/
def valuesOf (headers : HeaderList) (name : String) : List (List Byte) :=
  (headers.filter fun h => eqIgnoreAsciiCase (bytesOf h.1) (bytesOf name)).map Prod.snd

def isOws (b : Byte) : Bool := b = 32 || b = 9

/-- The codings of a `Transfer-Encoding` value: a list with commas, and empty elements do not count. -/
def codings (value : List Byte) : List (List Byte) :=
  ((value.splitOn 44).map fun c => (c.dropWhile isOws).rdropWhile isOws).filter fun c => c ≠ []

/-- The final coding is `chunked`. -/
def FinalChunked (value : List Byte) : Prop :=
  ∃ c ∈ (codings value).getLast?, eqIgnoreAsciiCase c (bytesOf "chunked") = true

/-- A plain string of decimal digits that `usize` can represent. -/
def PlainLength (value : List Byte) : Prop :=
  value ≠ [] ∧ ∃ n < 18446744073709551616, digitsValue (value.map fun b => Char.ofNat b.toNat) = some n

/-- A head that two readers may frame in two ways. -/
def Ambiguous (headers : HeaderList) : Prop :=
  (∃ v ∈ valuesOf headers "transfer-encoding", FinalChunked v) ∨
  (∃ v ∈ valuesOf headers "content-length", ¬ PlainLength v) ∨
  ∃ v ∈ valuesOf headers "content-length", ∃ v' ∈ valuesOf headers "content-length", v ≠ v'

/-- The first `Transfer-Encoding` is `chunked` and nothing else. -/
def FirstChunked (headers : HeaderList) : Prop :=
  ∃ v ∈ (valuesOf headers "transfer-encoding").head?, eqIgnoreAsciiCase v (bytesOf "chunked") = true

theorem isChunked_iff (headers : HeaderList) : isChunked headers = true ↔ FirstChunked headers := by
  have hget : headerListGet headers "transfer-encoding" = (valuesOf headers "transfer-encoding").head? := by
    simp only [headerListGet, valuesOf, List.head?_map, List.head?_filter]
  unfold isChunked FirstChunked
  rw [hget]
  cases (valuesOf headers "transfer-encoding").head? with
  | none => simp
  | some v => simp

/-! ## Waiting for the head -/

section

variable (httparse : Httparse)

theorem turn_past {p : Http1Parser} (h : p.phase ≠ .awaitingHeaders) :
    (turn httparse p).1.phase ≠ .awaitingHeaders := by
  obtain ⟨scratch, consumed, phase⟩ := p
  cases phase with
  | awaitingHeaders => exact absurd rfl h
  | done => exact h
  | error => exact h
  | streamingBodyContentLength r =>
    simp only [turn]
    split
    · simp
    · split <;> simp

theorem loop_past (turns : Nat) {p : Http1Parser} (h : p.phase ≠ .awaitingHeaders) :
    (loop httparse turns p).1.phase ≠ .awaitingHeaders := by
  induction turns generalizing p with
  | zero => exact h
  | succ turns ih =>
    have hturn := turn_past httparse h
    rw [loop]
    split
    · rename_i hr
      rw [hr] at hturn
      exact hturn
    · rename_i hr
      rw [hr] at hturn
      exact ih hturn

theorem feeds_past {p : Http1Parser} (h : p.phase ≠ .awaitingHeaders) (chunks : List (List Byte)) :
    (feeds (feed httparse) p chunks).1.phase ≠ .awaitingHeaders := by
  induction chunks generalizing p with
  | nil => exact h
  | cons c chunks ih =>
    rw [feeds_cons]
    refine ih ?_
    unfold feed
    split
    · exact h
    · exact loop_past httparse 3 h

theorem feed_decided_past {u c : List Byte} (h : Decided httparse (u ++ c)) :
    (feed httparse ⟨u, 0, .awaitingHeaders⟩ c).1.phase ≠ .awaitingHeaders := by
  by_cases hlarge : maxHeaderBytes < (u ++ c).length
  · rw [feed_tooLarge httparse hlarge]
    simp
  · cases hparse : httparse (u ++ c) with
    | incomplete =>
      rcases h with hl | hl
      · exact absurd hl hlarge
      · exact absurd hparse hl
    | error e =>
      rw [feed_httparseError httparse (Nat.le_of_not_lt hlarge) hparse]
      simp
    | complete n parsed =>
      have hturn : (turn httparse ⟨u ++ c, 0, .awaitingHeaders⟩).1.phase ≠ .awaitingHeaders ∧
          (turn httparse ⟨u ++ c, 0, .awaitingHeaders⟩).2.2 = true := by
        simp only [turn, if_neg hlarge, List.drop_zero, hparse]
        split
        · simp
        · split <;> simp
      simp only [feed, reduceCtorEq, if_false]
      rw [loop]
      split
      · rename_i hr
        rw [hr] at hturn
        exact absurd hturn.2 (by simp)
      · rename_i hr
        rw [hr] at hturn
        exact loop_past httparse 2 hturn.1

theorem feeds_waiting {u : List Byte} {chunks : List (List Byte)}
    (h : (feeds (feed httparse) ⟨u, 0, .awaitingHeaders⟩ chunks).1.phase = .awaitingHeaders) :
    feeds (feed httparse) ⟨u, 0, .awaitingHeaders⟩ chunks = (⟨u ++ chunks.flatten, 0, .awaitingHeaders⟩, []) := by
  induction chunks generalizing u with
  | nil => simp
  | cons c chunks ih =>
    rw [feeds_cons] at h ⊢
    by_cases hdecided : Decided httparse (u ++ c)
    · exact absurd h (feeds_past httparse (feed_decided_past httparse hdecided) chunks)
    · unfold Decided at hdecided
      rw [not_or, not_not] at hdecided
      have hfeed := feed_incomplete httparse (Nat.le_of_not_lt hdecided.1) hdecided.2
      rw [hfeed] at h ⊢
      rw [ih h, List.flatten_cons, List.append_assoc]
      rfl

/-! ## After the head -/

theorem feeds_body {v : List Byte} {r : Nat} (hr : 0 < r) (chunks : List (List Byte)) (e : ParseError) :
    ParseEvent.error e ∉ (feeds (feed httparse) ⟨v, v.length, .streamingBodyContentLength r⟩ chunks).2 := by
  induction chunks generalizing v r with
  | nil => simp
  | cons c chunks ih =>
    rw [feeds_cons, feed_streaming httparse hr, List.mem_append, not_or]
    refine ⟨?_, ?_⟩
    · unfold bodyEvents
      split <;> split <;> simp
    · by_cases hle : r ≤ c.length
      · rw [if_pos hle, feeds_silent httparse (Or.inl rfl)]
        simp
      · rw [if_neg hle]
        exact ih (by omega)

theorem request_rejected_iff {v : List Byte} {n : Nat} (parsed : HeaderList) (later : List (List Byte)) :
    ((∃ e, .error e ∈ requestEvents parsed (v.drop n) ++ (feeds (feed httparse) (afterHead v n parsed) later).2) ∧
      .bodyComplete ∉ requestEvents parsed (v.drop n) ++ (feeds (feed httparse) (afterHead v n parsed) later).2) ↔
      FirstChunked (headersOf parsed) := by
  rw [← isChunked_iff]
  unfold requestEvents afterHead
  by_cases hchunked : isChunked (headersOf parsed) = true
  · simp only [if_pos hchunked]
    rw [feeds_silent httparse (Or.inr rfl)]
    simp [hchunked]
  · simp only [if_neg hchunked]
    refine iff_of_false ?_ hchunked
    rintro ⟨⟨e, he⟩, -⟩
    rcases List.mem_append.mp he with hhead | hlater
    · unfold bodyEvents at hhead
      split at hhead <;> split at hhead <;> simp at hhead
    · by_cases hall : contentLength parsed ≤ v.length - n
      · rw [if_pos hall, feeds_silent httparse (Or.inl rfl)] at hlater
        cases hlater
      · rw [if_neg hall] at hlater
        exact feeds_body httparse (by omega) later e hlater

end

/-- **Framing, exactly.** In a run in which `httparse` accepts a head, an ambiguous head ends in an error and never
in a whole body if and only if it is not ambiguous, or its first `Transfer-Encoding` is `chunked` alone. -/
theorem ambiguous_rejected_iff (httparse : Httparse) (before : List (List Byte)) (bytes : List Byte)
    (later : List (List Byte)) (n : Nat) (parsed : HeaderList)
    (hwait : (feeds (feed httparse) .new before).1.phase = .awaitingHeaders)
    (hlen : (before.flatten ++ bytes).length ≤ maxHeaderBytes)
    (hparse : httparse (before.flatten ++ bytes) = .complete n parsed) (hn : n ≤ (before.flatten ++ bytes).length) :
    (Ambiguous (headersOf parsed) →
      (∃ e, .error e ∈ (feeds (feed httparse) .new (before ++ bytes :: later)).2) ∧
      .bodyComplete ∉ (feeds (feed httparse) .new (before ++ bytes :: later)).2) ↔
    (¬ Ambiguous (headersOf parsed) ∨ FirstChunked (headersOf parsed)) := by
  have hevents : (feeds (feed httparse) .new (before ++ bytes :: later)).2 =
      requestEvents parsed ((before.flatten ++ bytes).drop n) ++
        (feeds (feed httparse) (afterHead (before.flatten ++ bytes) n parsed) later).2 := by
    have hbefore : feeds (feed httparse) .new before = (⟨before.flatten, 0, .awaitingHeaders⟩, []) :=
      feeds_waiting httparse hwait
    rw [feeds_append, hbefore, feeds_cons, feed_complete httparse hlen hparse hn]
    rfl
  rw [hevents, request_rejected_iff httparse parsed later]
  tauto

def gzipHead : List Byte := bytesOf "POST / HTTP/1.1\r\nTransfer-Encoding: gzip, chunked\r\n\r\n"

def gzipHeaders : HeaderList := [("Transfer-Encoding", bytesOf "gzip, chunked")]

theorem gzipHeaders_ambiguous : Ambiguous gzipHeaders :=
  Or.inl ⟨bytesOf "gzip, chunked", by decide, bytesOf "chunked", by decide, by decide⟩

theorem gzipHead_rejected_iff :
    let httparse := oneHead gzipHead gzipHeaders
    httparse ([].flatten ++ gzipHead) = .complete gzipHead.length gzipHeaders ∧
    ((Ambiguous (headersOf gzipHeaders) →
      (∃ e, .error e ∈ (feeds (feed httparse) .new ([] ++ gzipHead :: [])).2) ∧
      .bodyComplete ∉ (feeds (feed httparse) .new ([] ++ gzipHead :: [])).2) ↔
    (¬ Ambiguous (headersOf gzipHeaders) ∨ FirstChunked (headersOf gzipHeaders))) := by
  intro httparse
  have hparse : httparse ([].flatten ++ gzipHead) = .complete gzipHead.length gzipHeaders := if_pos List.prefix_rfl
  exact ⟨hparse, ambiguous_rejected_iff httparse [] gzipHead [] _ gzipHeaders rfl (by decide) hparse
    (le_refl gzipHead.length)⟩

/-- A list of codings that ends in `chunked` is no error: the request has no body, and is whole. -/
theorem gzip_chunked_accepted :
    let httparse := oneHead gzipHead gzipHeaders
    headersOf gzipHeaders = gzipHeaders ∧ Ambiguous gzipHeaders ∧
    (feed httparse .new gzipHead).2 = [.headersComplete gzipHeaders, .bodyComplete] := by
  intro httparse
  have hparse : httparse ([] ++ gzipHead) = .complete gzipHead.length gzipHeaders := if_pos List.prefix_rfl
  refine ⟨by decide, gzipHeaders_ambiguous, ?_⟩
  unfold Http1Parser.new
  rw [feed_complete httparse (by decide) hparse (le_refl _)]
  decide

end Riftgate.Http1
