import Riftgate.Lib.Transducer
import Riftgate.Code.Http1

/-!
# The HTTP parser and the cuts of its input

What a run emits depends on the input, and on the first piece with which the parser makes up its mind about the
head. The limit on the head is a limit on all that has arrived by then.
-/

open Lib

namespace Riftgate.Http1

open Mcp Parse

/-! ## What is emitted -/

/-- The events of a body of `cl` bytes, of which `rest` has arrived. -/
def bodyEvents (cl : Nat) (rest : List Byte) : List ParseEvent :=
  (if rest.take cl = [] then [] else [.bodyChunk (rest.take cl)]) ++ if cl ≤ rest.length then [.bodyComplete] else []

def headersOf (parsed : HeaderList) : HeaderList := parsed.takeWhile fun h => h.1 ≠ ""

def contentLength (parsed : HeaderList) : Nat := (parseContentLength (headersOf parsed)).getD 0

/-- The events of a request from its head on. -/
def requestEvents (parsed : HeaderList) (rest : List Byte) : List ParseEvent :=
  if isChunked (headersOf parsed) then [.error (.invalidChunkedEncoding chunkedReason)]
  else .headersComplete (headersOf parsed) :: bodyEvents (contentLength parsed) rest

/-- The state after a head of `n` bytes, when `v` has arrived. -/
def afterHead (v : List Byte) (n : Nat) (parsed : HeaderList) : Http1Parser :=
  if isChunked (headersOf parsed) then ⟨v, n, .error⟩
  else if contentLength parsed ≤ v.length - n then ⟨v, n + contentLength parsed, .done⟩
  else ⟨v, v.length, .streamingBodyContentLength (contentLength parsed - (v.length - n))⟩

/-! ## One feed -/

section

variable (httparse : Httparse)

theorem loop_done {turns : Nat} {p : Http1Parser} (h : p.phase = .done ∨ p.phase = .error) :
    loop httparse (turns + 1) p = (p, []) := by
  rcases h with h | h <;> simp [loop, turn, h]

theorem feed_done {p : Http1Parser} (h : p.phase = .done) (bytes : List Byte) :
    feed httparse p bytes = ({ p with scratch := p.scratch ++ bytes }, []) := by
  unfold feed
  rw [if_neg (by rw [h]; decide), loop_done httparse (Or.inl (by exact h))]
  rfl

theorem feed_error {p : Http1Parser} (h : p.phase = .error) (bytes : List Byte) : feed httparse p bytes = (p, []) := by
  unfold feed
  rw [if_pos h]

theorem loop_streaming {turns : Nat} {v : List Byte} {n r : Nat} (hr : 0 < r) (hn : n ≤ v.length) :
    loop httparse (turns + 2) ⟨v, n, .streamingBodyContentLength r⟩ =
      (if r ≤ v.length - n then (⟨v, n + r, .done⟩, [.bodyRange n (n + r), .bodyComplete])
       else if v.length - n = 0 then (⟨v, n, .streamingBodyContentLength r⟩, [])
       else (⟨v, v.length, .streamingBodyContentLength (r - (v.length - n))⟩, [.bodyRange n v.length])) := by
  by_cases hle : r ≤ v.length - n
  · have hmin : min (v.length - n) r = r := by omega
    have havail : ¬ v.length - n = 0 := by omega
    rw [if_pos hle, loop]
    simp only [turn, if_neg havail, hmin, Nat.sub_self, if_true]
    rw [loop_done httparse (Or.inl rfl)]
    rfl
  · rw [if_neg hle]
    by_cases havail : v.length - n = 0
    · rw [if_pos havail, loop]
      simp only [turn, if_pos havail]
    · have hmin : min (v.length - n) r = v.length - n := by omega
      have hmore : ¬ r - (v.length - n) = 0 := by omega
      have hend : n + (v.length - n) = v.length := by omega
      rw [if_neg havail, loop]
      simp only [turn, if_neg havail, hmin, if_neg hmore, hend]
      rw [loop]
      simp only [turn, Nat.sub_self, if_true]
      rfl

theorem bodyEvents_of_loop {turns : Nat} {v : List Byte} {n r : Nat} (hr : 0 < r) (hn : n ≤ v.length) :
    (loop httparse (turns + 2) ⟨v, n, .streamingBodyContentLength r⟩).2.map (convert v) = bodyEvents r (v.drop n) := by
  rw [loop_streaming httparse hr hn]
  unfold bodyEvents
  rw [List.length_drop]
  by_cases hle : r ≤ v.length - n
  · have hne : (v.drop n).take r ≠ [] := by
      rw [ne_eq, List.take_eq_nil_iff, List.drop_eq_nil_iff]
      omega
    rw [if_pos hle, if_pos hle, if_neg hne]
    simp [convert, slice]
  · rw [if_neg hle, if_neg hle]
    by_cases havail : v.length - n = 0
    · have hnil : (v.drop n).take r = [] := by
        rw [List.drop_of_length_le (by omega), List.take_nil]
      rw [if_pos havail, if_pos hnil]
      rfl
    · have htake : (v.drop n).take r = v.drop n := List.take_of_length_le (by simp; omega)
      have hslice : slice v n v.length = v.drop n := List.take_of_length_le (by simp)
      have hne : v.drop n ≠ [] := by
        rw [ne_eq, List.drop_eq_nil_iff]
        omega
      rw [if_neg havail, htake, if_neg hne]
      simp [convert, hslice]

theorem loop_streaming_state {turns : Nat} {v : List Byte} {n r : Nat} (hr : 0 < r) (hn : n ≤ v.length) :
    (loop httparse (turns + 2) ⟨v, n, .streamingBodyContentLength r⟩).1 =
      if r ≤ v.length - n then ⟨v, n + r, .done⟩
      else ⟨v, v.length, .streamingBodyContentLength (r - (v.length - n))⟩ := by
  rw [loop_streaming httparse hr hn]
  by_cases hle : r ≤ v.length - n
  · rw [if_pos hle, if_pos hle]
  · rw [if_neg hle, if_neg hle]
    by_cases havail : v.length - n = 0
    · rw [if_pos havail, havail, show n = v.length by omega]
      rfl
    · rw [if_neg havail]

theorem feed_streaming {v : List Byte} {r : Nat} (hr : 0 < r) (bytes : List Byte) :
    feed httparse ⟨v, v.length, .streamingBodyContentLength r⟩ bytes =
      (if r ≤ bytes.length then ⟨v ++ bytes, v.length + r, .done⟩
       else ⟨v ++ bytes, (v ++ bytes).length, .streamingBodyContentLength (r - bytes.length)⟩,
       bodyEvents r bytes) := by
  have hn : v.length ≤ (v ++ bytes).length := by simp
  have havail : (v ++ bytes).length - v.length = bytes.length := by simp
  have hstate := @loop_streaming_state httparse 1 _ _ r hr hn
  have hevents := @bodyEvents_of_loop httparse 1 _ _ r hr hn
  rw [havail] at hstate
  rw [List.drop_left] at hevents
  have hscratch : (loop httparse 3 ⟨v ++ bytes, v.length, .streamingBodyContentLength r⟩).1.scratch = v ++ bytes := by
    rw [hstate]
    split <;> rfl
  unfold feed
  simp only [reduceCtorEq, if_false]
  rw [hscratch]
  exact Prod.ext hstate hevents

theorem loop_streaming_enough (turns : Nat) (v : List Byte) (n r : Nat) :
    loop httparse (turns + 2) ⟨v, n, .streamingBodyContentLength r⟩ =
      loop httparse 2 ⟨v, n, .streamingBodyContentLength r⟩ := by
  rw [loop, loop]
  simp only [turn]
  by_cases havail : v.length - n = 0
  · simp only [if_pos havail]
  · simp only [if_neg havail]
    by_cases hall : r - min (v.length - n) r = 0
    · simp only [if_pos hall]
      rw [loop_done httparse (Or.inl rfl), loop_done httparse (Or.inl rfl)]
    · have hend : v.length - (n + min (v.length - n) r) = 0 := by omega
      simp only [if_neg hall, loop, turn, hend, if_true]

theorem loop_enough (turns : Nat) (p : Http1Parser) : loop httparse (turns + 3) p = loop httparse 3 p := by
  obtain ⟨v, n, phase⟩ := p
  cases phase with
  | done => rw [loop_done httparse (Or.inl rfl), loop_done httparse (Or.inl rfl)]
  | error => rw [loop_done httparse (Or.inr rfl), loop_done httparse (Or.inr rfl)]
  | streamingBodyContentLength r =>
    rw [loop_streaming_enough httparse (turns + 1), loop_streaming_enough httparse 1]
  | awaitingHeaders =>
    rw [loop, loop]
    simp only [turn]
    by_cases hlen : maxHeaderBytes < v.length
    · simp only [if_pos hlen]
    · simp only [if_neg hlen]
      cases httparse (v.drop n) with
      | incomplete => rfl
      | error e => rfl
      | complete m parsed =>
        have hheaders : (parsed.takeWhile fun h => decide (h.1 ≠ "")) = headersOf parsed := rfl
        simp only [hheaders]
        by_cases hchunked : isChunked (headersOf parsed) = true
        · simp only [if_pos hchunked]
          rw [loop_done httparse (Or.inr rfl), loop_done httparse (Or.inr rfl)]
        · by_cases hcl : (parseContentLength (headersOf parsed)).getD 0 = 0
          · simp only [if_neg hchunked, if_pos hcl]
            rw [loop_done httparse (Or.inl rfl), loop_done httparse (Or.inl rfl)]
          · simp only [if_neg hchunked, if_neg hcl]
            rw [loop_streaming_enough httparse turns]

/-! The four ways of a head: too large, not whole, bad, whole. -/

theorem feed_tooLarge {u bytes : List Byte} (h : maxHeaderBytes < (u ++ bytes).length) :
    feed httparse ⟨u, 0, .awaitingHeaders⟩ bytes =
      (⟨u ++ bytes, 0, .error⟩, [.error (.headerTooLarge (u ++ bytes).length)]) := by
  simp only [feed, loop, turn, reduceCtorEq, if_false, if_pos h]
  rfl

theorem feed_incomplete {u bytes : List Byte} (hlen : (u ++ bytes).length ≤ maxHeaderBytes)
    (h : httparse (u ++ bytes) = .incomplete) :
    feed httparse ⟨u, 0, .awaitingHeaders⟩ bytes = (⟨u ++ bytes, 0, .awaitingHeaders⟩, []) := by
  simp only [feed, loop, turn, reduceCtorEq, if_false, if_neg (Nat.not_lt.mpr hlen), List.drop_zero, h]
  rfl

theorem feed_httparseError {u bytes : List Byte} {e : HttparseError} (hlen : (u ++ bytes).length ≤ maxHeaderBytes)
    (h : httparse (u ++ bytes) = .error e) :
    feed httparse ⟨u, 0, .awaitingHeaders⟩ bytes =
      (⟨u ++ bytes, 0, .error⟩, [.error (httparseError (u ++ bytes).length 0 e)]) := by
  simp only [feed, loop, turn, reduceCtorEq, if_false, if_neg (Nat.not_lt.mpr hlen), List.drop_zero, h]
  rfl

theorem loop_complete {v : List Byte} {n : Nat} {parsed : HeaderList} (hlen : v.length ≤ maxHeaderBytes)
    (h : httparse v = .complete n parsed) (hn : n ≤ v.length) :
    (loop httparse 3 ⟨v, 0, .awaitingHeaders⟩).1 = afterHead v n parsed ∧
    (loop httparse 3 ⟨v, 0, .awaitingHeaders⟩).2.map (convert v) = requestEvents parsed (v.drop n) := by
  have hheaders : (parsed.takeWhile fun h => decide (h.1 ≠ "")) = headersOf parsed := rfl
  unfold afterHead requestEvents
  rw [loop]
  simp only [turn, if_neg (Nat.not_lt.mpr hlen), List.drop_zero, h, Nat.zero_add, hheaders]
  by_cases hchunked : isChunked (headersOf parsed) = true
  · simp only [if_pos hchunked]
    rw [loop_done httparse (Or.inr rfl)]
    exact ⟨rfl, rfl⟩
  · simp only [if_neg hchunked]
    by_cases hcl : contentLength parsed = 0
    · have hcl' : (parseContentLength (headersOf parsed)).getD 0 = 0 := hcl
      simp only [if_pos hcl', hcl, Nat.zero_le, if_true, Nat.add_zero]
      rw [loop_done httparse (Or.inl rfl)]
      exact ⟨rfl, rfl⟩
    · have hcl' : ¬ (parseContentLength (headersOf parsed)).getD 0 = 0 := hcl
      simp only [if_neg hcl']
      have hpos := Nat.pos_of_ne_zero hcl
      refine ⟨@loop_streaming_state httparse 0 _ _ _ hpos hn, ?_⟩
      rw [List.map_append]
      exact congrArg (ParseEvent.headersComplete (headersOf parsed) :: ·) (@bodyEvents_of_loop httparse 0 _ _ _ hpos hn)

theorem feed_complete {u bytes : List Byte} {n : Nat} {parsed : HeaderList}
    (hlen : (u ++ bytes).length ≤ maxHeaderBytes) (h : httparse (u ++ bytes) = .complete n parsed)
    (hn : n ≤ (u ++ bytes).length) :
    feed httparse ⟨u, 0, .awaitingHeaders⟩ bytes =
      (afterHead (u ++ bytes) n parsed, requestEvents parsed ((u ++ bytes).drop n)) := by
  obtain ⟨hstate, hevents⟩ := loop_complete httparse hlen h hn
  have hscratch : (loop httparse 3 ⟨u ++ bytes, 0, .awaitingHeaders⟩).1.scratch = u ++ bytes := by
    rw [hstate]
    unfold afterHead
    split
    · rfl
    · split <;> rfl
  unfold feed
  simp only [reduceCtorEq, if_false]
  rw [hscratch]
  exact Prod.ext hstate hevents

end

/-! ## Adjacent chunks -/

def consMerged : ParseEvent → List ParseEvent → List ParseEvent
  | .bodyChunk a, .bodyChunk b :: rest => .bodyChunk (a ++ b) :: rest
  | e, rest => e :: rest

/-- The events, with adjacent chunks of the body as one. -/
def mergeBody (events : List ParseEvent) : List ParseEvent := events.foldr consMerged []

theorem mergeBody_append (l l' : List ParseEvent) : mergeBody (l ++ l') = l.foldr consMerged (mergeBody l') := by
  unfold mergeBody
  rw [List.foldr_append]

theorem mergeBody_bodyEvents (r : Nat) (c : List Byte) : mergeBody (bodyEvents r c) = bodyEvents r c := by
  unfold bodyEvents mergeBody
  split <;> split <;> rfl

theorem bodyEvents_enough {r : Nat} {c : List Byte} (h : r ≤ c.length) (d : List Byte) :
    bodyEvents r (c ++ d) = bodyEvents r c := by
  have hlen : r ≤ (c ++ d).length := by rw [List.length_append]; omega
  unfold bodyEvents
  rw [List.take_append_of_le_length h, if_pos h, if_pos hlen]

theorem bodyEvents_append {r : Nat} {c : List Byte} (h : c.length < r) (d : List Byte) :
    (bodyEvents r c).foldr consMerged (bodyEvents (r - c.length) d) = bodyEvents r (c ++ d) := by
  have htake : c.take r = c := List.take_of_length_le (by omega)
  have htake' : (c ++ d).take r = c ++ d.take (r - c.length) := by rw [List.take_append, htake]
  have hlen : r ≤ (c ++ d).length ↔ r - c.length ≤ d.length := by rw [List.length_append]; omega
  unfold bodyEvents
  rw [htake, htake', if_neg (show ¬ r ≤ c.length by omega)]
  simp only [hlen, List.append_nil, List.append_eq_nil_iff]
  by_cases hc : c = []
  · subst hc
    simp
  · by_cases hd : d.take (r - c.length) = []
    · by_cases hmore : r - c.length ≤ d.length
      · simp [hc, hd, hmore, consMerged]
      · simp [hc, hd, hmore, consMerged]
    · simp [hc, hd, consMerged]

/-! ## Runs -/

section

variable (httparse : Httparse)

theorem feeds_silent {p : Http1Parser} (h : p.phase = .done ∨ p.phase = .error) (chunks : List (List Byte)) :
    (feeds (feed httparse) p chunks).2 = [] := by
  induction chunks generalizing p with
  | nil => rfl
  | cons c chunks ih =>
    rw [feeds_cons]
    rcases h with h | h
    · rw [feed_done httparse h]
      exact ih (Or.inl h)
    · rw [feed_error httparse h]
      exact ih (Or.inr h)

theorem feeds_streaming {v : List Byte} {r : Nat} (hr : 0 < r) (chunks : List (List Byte)) :
    mergeBody (feeds (feed httparse) ⟨v, v.length, .streamingBodyContentLength r⟩ chunks).2 =
      bodyEvents r chunks.flatten := by
  induction chunks generalizing v r with
  | nil =>
    unfold bodyEvents
    simp [mergeBody]
    omega
  | cons c chunks ih =>
    rw [feeds_cons, feed_streaming httparse hr, List.flatten_cons]
    by_cases hle : r ≤ c.length
    · rw [if_pos hle, feeds_silent httparse (Or.inl rfl), List.append_nil, mergeBody_bodyEvents,
        bodyEvents_enough hle]
    · rw [if_neg hle, mergeBody_append, ih (by omega), bodyEvents_append (by omega)]

theorem feeds_afterHead {v : List Byte} {n : Nat} (hn : n ≤ v.length) (parsed : HeaderList)
    (chunks : List (List Byte)) :
    mergeBody (requestEvents parsed (v.drop n) ++ (feeds (feed httparse) (afterHead v n parsed) chunks).2) =
      requestEvents parsed ((v ++ chunks.flatten).drop n) := by
  rw [List.drop_append_of_le_length hn]
  unfold requestEvents afterHead
  by_cases hchunked : isChunked (headersOf parsed) = true
  · simp only [if_pos hchunked]
    rw [feeds_silent httparse (Or.inr rfl)]
    rfl
  · simp only [if_neg hchunked]
    rw [List.cons_append]
    refine congrArg (ParseEvent.headersComplete (headersOf parsed) :: ·) ?_
    by_cases hall : contentLength parsed ≤ v.length - n
    · rw [if_pos hall, feeds_silent httparse (Or.inl rfl), List.append_nil, bodyEvents_enough (by simpa using hall)]
      exact mergeBody_bodyEvents _ _
    · have hlen : (v.drop n).length = v.length - n := List.length_drop
      have hmerge := mergeBody_append (bodyEvents (contentLength parsed) (v.drop n))
        (feeds (feed httparse) ⟨v, v.length, .streamingBodyContentLength (contentLength parsed - (v.length - n))⟩
          chunks).2
      rw [feeds_streaming httparse (by omega), ← hlen, bodyEvents_append (by omega), hlen] at hmerge
      rw [if_neg hall]
      exact hmerge

end

/-! ## Where the parser makes up its mind -/

/-- What is known of `httparse`: bytes that come later change neither a whole head nor an error. -/
structure PrefixStable (httparse : Httparse) : Prop where
  empty : httparse [] = .incomplete
  complete : ∀ v n parsed, httparse v = .complete n parsed →
    n ≤ v.length ∧ ∀ t, httparse (v ++ t) = .complete n parsed
  error : ∀ v e, httparse v = .error e → ∀ t, httparse (v ++ t) = .error e

/-- The events of the input `w`, when the parser looks at the head with `v` in its buffer. -/
def verdict (httparse : Httparse) (v w : List Byte) : List ParseEvent :=
  if maxHeaderBytes < v.length then [.error (.headerTooLarge v.length)]
  else match httparse v with
    | .incomplete => []
    | .complete n parsed => requestEvents parsed (w.drop n)
    | .error e => [.error (httparseError v.length 0 e)]

def Decided (httparse : Httparse) (v : List Byte) : Prop :=
  maxHeaderBytes < v.length ∨ httparse v ≠ .incomplete

section

variable {httparse : Httparse} (hst : PrefixStable httparse)

include hst

theorem feeds_decided {u c : List Byte} (h : Decided httparse (u ++ c)) (chunks : List (List Byte)) :
    mergeBody (feeds (feed httparse) ⟨u, 0, .awaitingHeaders⟩ (c :: chunks)).2 =
      verdict httparse (u ++ c) (u ++ c ++ chunks.flatten) := by
  rw [feeds_cons]
  unfold verdict
  by_cases hlarge : maxHeaderBytes < (u ++ c).length
  · rw [if_pos hlarge, feed_tooLarge httparse hlarge, feeds_silent httparse (Or.inr rfl)]
    rfl
  · have hle := Nat.le_of_not_lt hlarge
    rw [if_neg hlarge]
    cases hparse : httparse (u ++ c) with
    | incomplete =>
      rcases h with hl | hl
      · exact absurd hl hlarge
      · exact absurd hparse hl
    | error e =>
      rw [feed_httparseError httparse hle hparse, feeds_silent httparse (Or.inr rfl)]
      rfl
    | complete n parsed =>
      have hn := (hst.complete _ _ _ hparse).1
      rw [feed_complete httparse hle hparse hn, feeds_afterHead httparse hn]

theorem feeds_awaiting (u : List Byte) (hlen : u.length ≤ maxHeaderBytes) (hu : httparse u = .incomplete)
    (chunks : List (List Byte)) :
    ∃ v, v <+: u ++ chunks.flatten ∧ (v = u ++ chunks.flatten ∨ Decided httparse v) ∧
      mergeBody (feeds (feed httparse) ⟨u, 0, .awaitingHeaders⟩ chunks).2 =
        verdict httparse v (u ++ chunks.flatten) := by
  induction chunks generalizing u with
  | nil =>
    refine ⟨u, by simp, Or.inl (by simp), ?_⟩
    unfold verdict
    rw [if_neg (by omega), hu]
    rfl
  | cons c chunks ih =>
    have hall : u ++ (c :: chunks).flatten = (u ++ c) ++ chunks.flatten := by simp
    rw [hall]
    by_cases hdecided : Decided httparse (u ++ c)
    · exact ⟨u ++ c, List.prefix_append _ _, Or.inr hdecided, feeds_decided hst hdecided chunks⟩
    · unfold Decided at hdecided
      rw [not_or, not_not] at hdecided
      have hle := Nat.le_of_not_lt hdecided.1
      rw [feeds_cons, feed_incomplete httparse hle hdecided.2]
      exact ih (u ++ c) hle hdecided.2

theorem feed_new (w : List Byte) : (feed httparse .new w).2 = verdict httparse w w := by
  unfold verdict Http1Parser.new
  by_cases hlarge : maxHeaderBytes < w.length
  · rw [if_pos hlarge, @feed_tooLarge httparse [] w hlarge]
    rfl
  · have hle : ([] ++ w).length ≤ maxHeaderBytes := Nat.le_of_not_lt hlarge
    rw [if_neg hlarge]
    cases hparse : httparse w with
    | incomplete => rw [@feed_incomplete httparse [] w hle hparse]
    | error e =>
      rw [@feed_httparseError httparse [] w e hle hparse]
      rfl
    | complete n parsed =>
      rw [@feed_complete httparse [] w n parsed hle hparse (hst.complete _ _ _ hparse).1]
      rfl

/-! ## Whether the cuts matter -/

/-- The parser does not see how its input is cut. -/
def Insensitive (httparse : Httparse) (w : List Byte) : Prop :=
  ∀ chunks : List (List Byte), chunks.flatten = w →
    mergeBody (feeds (feed httparse) .new chunks).2 = (feed httparse .new w).2

/-- At most 8 KiB in all, and no complaint about the number of headers before the last byte. Or one byte more than
that, and no whole head before it. -/
def CutsSafe (httparse : Httparse) (w : List Byte) : Prop :=
  (w.length ≤ maxHeaderBytes ∧ ∀ m < w.length, httparse (w.take m) ≠ .error .tooManyHeaders) ∨
  (w.length = maxHeaderBytes + 1 ∧ httparse (w.take maxHeaderBytes) = .incomplete)

omit hst in
theorem httparseError_len {e : HttparseError} (he : e ≠ .tooManyHeaders) (len len' : Nat) :
    httparseError len 0 e = httparseError len' 0 e := by
  cases e <;> first | rfl | exact absurd rfl he

/-- All fits into the buffer, so that what a front has decided stays as it is. -/
theorem verdict_fits {v t : List Byte} (hlen : (v ++ t).length ≤ maxHeaderBytes)
    (hmany : ∀ m < (v ++ t).length, httparse ((v ++ t).take m) ≠ .error .tooManyHeaders) (h : Decided httparse v) :
    verdict httparse v (v ++ t) = verdict httparse (v ++ t) (v ++ t) := by
  have hvlen : v.length ≤ (v ++ t).length := by rw [List.length_append]; omega
  unfold verdict
  rw [if_neg (by omega), if_neg (by omega)]
  cases hparse : httparse v with
  | incomplete =>
    rcases h with hl | hl
    · omega
    · exact absurd hparse hl
  | complete n parsed => rw [(hst.complete _ _ _ hparse).2 t]
  | error e =>
    rw [hst.error _ _ hparse t]
    by_cases he : e = .tooManyHeaders
    · have hall : v.length = (v ++ t).length := by
        rcases Nat.lt_or_ge v.length (v ++ t).length with hlt | hge
        · exact absurd (by rw [List.take_left, hparse, he]) (hmany v.length hlt)
        · omega
      rw [hall]
    · exact congrArg (fun err => [ParseEvent.error err]) (httparseError_len he _ _)

theorem decided_past_limit {v t : List Byte} (hlen : (v ++ t).length = maxHeaderBytes + 1)
    (hhead : httparse ((v ++ t).take maxHeaderBytes) = .incomplete) (h : Decided httparse v) : t = [] := by
  rcases Nat.lt_or_ge maxHeaderBytes v.length with hlong | hle
  · rw [List.length_append] at hlen
    exact List.eq_nil_of_length_eq_zero (by omega)
  · have htake : (v ++ t).take maxHeaderBytes = v ++ t.take (maxHeaderBytes - v.length) := by
      rw [List.take_append, List.take_of_length_le hle]
    rw [htake] at hhead
    cases hparse : httparse v with
    | incomplete =>
      rcases h with hl | hl
      · omega
      · exact absurd hparse hl
    | complete n parsed => rw [(hst.complete _ _ _ hparse).2] at hhead; cases hhead
    | error e => rw [hst.error _ _ hparse] at hhead; cases hhead

theorem insensitive_of_cutsSafe {w : List Byte} (h : CutsSafe httparse w) : Insensitive httparse w := by
  rintro chunks rfl
  obtain ⟨v, ⟨t, ht⟩, hend, hmerge⟩ := feeds_awaiting hst [] (by decide) hst.empty chunks
  rw [List.nil_append] at ht hend hmerge
  refine hmerge.trans (Eq.trans ?_ (feed_new hst _).symm)
  rcases hend with rfl | hdecided
  · rfl
  rw [← ht] at h ⊢
  rcases h with ⟨hlen, hmany⟩ | ⟨hlen, hhead⟩
  · exact verdict_fits hst hlen hmany hdecided
  · rw [decided_past_limit hst hlen hhead hdecided, List.append_nil]

theorem verdict_take {w : List Byte} (h : Insensitive httparse w) {m : Nat} (hm : Decided httparse (w.take m)) :
    verdict httparse (w.take m) w = verdict httparse w w := by
  have hcut : [w.take m, w.drop m].flatten = w := by simp
  have hrun := @feeds_decided httparse hst [] (w.take m) hm [w.drop m]
  have hall : [] ++ w.take m ++ [w.drop m].flatten = w := by simp
  rw [hall] at hrun
  exact hrun.symm.trans ((h _ hcut).trans (feed_new hst w))

omit hst in
theorem verdict_large {v : List Byte} (h : maxHeaderBytes < v.length) (w : List Byte) :
    verdict httparse v w = [.error (.headerTooLarge v.length)] := by
  unfold verdict
  rw [if_pos h]

omit hst in
theorem requestEvents_ne (parsed : HeaderList) (rest : List Byte) (n : Nat) :
    requestEvents parsed rest ≠ [.error (.headerTooLarge n)] := by
  unfold requestEvents
  split <;> simp

theorem incomplete_at_limit {w : List Byte} (h : Insensitive httparse w) (hlarge : maxHeaderBytes < w.length) :
    httparse (w.take maxHeaderBytes) = .incomplete := by
  by_contra hne
  have hlen : (w.take maxHeaderBytes).length = maxHeaderBytes := by simp; omega
  have htake := verdict_take hst h (m := maxHeaderBytes) (Or.inr hne)
  rw [verdict_large hlarge] at htake
  unfold verdict at htake
  rw [if_neg (by omega), hlen] at htake
  cases hparse : httparse (w.take maxHeaderBytes) with
  | incomplete => exact hne hparse
  | complete n parsed =>
    rw [hparse] at htake
    exact requestEvents_ne _ _ _ htake
  | error e =>
    rw [hparse] at htake
    simp only [List.cons.injEq, ParseEvent.error.injEq, and_true] at htake
    cases e with
    | tooManyHeaders =>
      simp only [httparseError, ParseError.headerTooLarge.injEq] at htake
      omega
    | _ => cases htake

/-- The error carries the length, so that the first byte too much must be the last one. -/
theorem length_of_large {w : List Byte} (h : Insensitive httparse w) (hlarge : maxHeaderBytes < w.length) :
    w.length = maxHeaderBytes + 1 := by
  have hlen : (w.take (maxHeaderBytes + 1)).length = maxHeaderBytes + 1 := by simp; omega
  have htake := verdict_take hst h (m := maxHeaderBytes + 1) (Or.inl (by omega))
  rw [verdict_large hlarge, verdict_large (by omega), hlen] at htake
  simp only [List.cons.injEq, ParseEvent.error.injEq, ParseError.headerTooLarge.injEq, and_true] at htake
  omega

theorem not_tooManyHeaders {w : List Byte} (h : Insensitive httparse w) (hle : w.length ≤ maxHeaderBytes) {m : Nat}
    (hm : m < w.length) : httparse (w.take m) ≠ .error .tooManyHeaders := by
  intro hmany
  have hlen : (w.take m).length = m := by simp; omega
  have htake := verdict_take hst h (m := m) (Or.inr (by rw [hmany]; simp))
  have hw := hst.error _ _ hmany (w.drop m)
  rw [List.take_append_drop] at hw
  unfold verdict at htake
  rw [if_neg (by omega), if_neg (by omega), hmany, hw] at htake
  simp only [hlen, httparseError, List.cons.injEq, ParseEvent.error.injEq, ParseError.headerTooLarge.injEq,
    and_true] at htake
  omega

theorem cutsSafe_of_insensitive {w : List Byte} (h : Insensitive httparse w) : CutsSafe httparse w := by
  rcases Nat.lt_or_ge maxHeaderBytes w.length with hlarge | hle
  · exact Or.inr ⟨length_of_large hst h hlarge, incomplete_at_limit hst h hlarge⟩
  · exact Or.inl ⟨hle, fun m hm => not_tooManyHeaders hst h hle hm⟩

/-- **Cuts, exactly.** No way of cutting the input changes the events if and only if the cuts are safe: all of it
fits into the limit for a head, a body that arrives with its head included, or the last byte alone is too much. -/
theorem insensitive_iff (w : List Byte) : Insensitive httparse w ↔ CutsSafe httparse w :=
  ⟨cutsSafe_of_insensitive hst, insensitive_of_cutsSafe hst⟩

end

/-! ## A body that arrives with its head -/

/-- `httparse` on the fronts and the continuations of one head. -/
def oneHead (head : List Byte) (headers : HeaderList) : Httparse := fun s =>
  if head <+: s then .complete head.length headers
  else if s <+: head then .incomplete
  else .error .token

theorem oneHead_stable {head : List Byte} (hne : head ≠ []) (headers : HeaderList) :
    PrefixStable (oneHead head headers) where
  empty := by
    unfold oneHead
    rw [if_neg (by simpa using hne), if_pos List.nil_prefix]
  complete := by
    intro v n parsed h
    unfold oneHead at h ⊢
    split at h
    · rename_i hhead
      cases h
      refine ⟨hhead.length_le, fun t => ?_⟩
      rw [if_pos (hhead.trans ( List.prefix_append _ _))]
    · split at h <;> cases h
  error := by
    intro v e h t
    unfold oneHead at h ⊢
    split at h
    · cases h
    · split at h
      · cases h
      · rename_i hhead hfront
        cases h
        have hhead' : ¬ head <+: v ++ t := by
          intro hlong
          rcases Nat.le_total head.length v.length with hle | hle
          · exact hhead ( List.prefix_of_prefix_length_le hlong ( List.prefix_append _ _) hle)
          · exact hfront ( List.prefix_of_prefix_length_le ( List.prefix_append _ _) hlong hle)
        rw [if_neg hhead', if_neg fun hlong => hfront (( List.prefix_append _ _).trans hlong)]

def postHead : List Byte := bytesOf "POST / HTTP/1.1\r\nContent-Length: 9000\r\n\r\n"

def postHeaders : HeaderList := [("Content-Length", bytesOf "9000")]

theorem postHead_insensitive_iff :
    PrefixStable (oneHead postHead postHeaders) ∧
    (Insensitive (oneHead postHead postHeaders) (postHead ++ [97]) ↔
      CutsSafe (oneHead postHead postHeaders) (postHead ++ [97])) := by
  have hst := oneHead_stable (show postHead ≠ [] by decide) postHeaders
  exact ⟨hst, insensitive_iff hst (postHead ++ [97])⟩

theorem post_whole {body : List Byte} (h : body.length = 9000) :
    (feed (oneHead postHead postHeaders) .new (postHead ++ body)).2 = [.error (.headerTooLarge 9041)] := by
  have hst := oneHead_stable (show postHead ≠ [] by decide) postHeaders
  have hhead : postHead.length = 41 := by decide
  have hlen : (postHead ++ body).length = 9041 := by rw [List.length_append, h, hhead]
  rw [feed_new hst, verdict_large (by rw [hlen]; decide), hlen]

theorem post_cut {body : List Byte} (h : body.length = 9000) :
    mergeBody (feeds (feed (oneHead postHead postHeaders)) .new [postHead, body]).2 =
      [.headersComplete postHeaders, .bodyChunk body, .bodyComplete] := by
  have hst := oneHead_stable (show postHead ≠ [] by decide) postHeaders
  have hparse : oneHead postHead postHeaders ([] ++ postHead) = .complete postHead.length postHeaders :=
    if_pos List.prefix_rfl
  have hrun := feeds_decided hst (Or.inr (by rw [hparse]; simp)) [body]
  have hrest : ([] ++ postHead ++ [body].flatten).drop postHead.length = body := by simp
  have hcl : contentLength postHeaders = 9000 := by decide
  have hne : body ≠ [] := by
    rintro rfl
    cases h
  unfold verdict at hrun
  rw [if_neg (by decide), hparse] at hrun
  simp only [hrest] at hrun
  refine hrun.trans ?_
  unfold requestEvents bodyEvents
  rw [if_neg (by decide), hcl, List.take_of_length_le (by omega), if_neg hne, if_pos (by omega)]
  rfl

/-- A head of 41 bytes is too large when its body comes with it, and is fine when the body comes later. -/
theorem post_sensitive :
    (feed (oneHead postHead postHeaders) .new (postHead ++ List.replicate 9000 97)).2 =
      [.error (.headerTooLarge 9041)] ∧
    mergeBody (feeds (feed (oneHead postHead postHeaders)) .new [postHead, List.replicate 9000 97]).2 =
      [.headersComplete postHeaders, .bodyChunk (List.replicate 9000 97), .bodyComplete] ∧
    PrefixStable (oneHead postHead postHeaders) ∧
    ¬ Insensitive (oneHead postHead postHeaders) (postHead ++ List.replicate 9000 97) := by
  have hlen : (List.replicate 9000 (97 : Byte)).length = 9000 := List.length_replicate
  refine ⟨post_whole hlen, post_cut hlen, oneHead_stable (by decide) postHeaders, fun h => ?_⟩
  have hcut := h [postHead, List.replicate 9000 97] (by rw [List.flatten_cons, List.flatten_singleton])
  rw [post_cut hlen, post_whole hlen] at hcut
  cases hcut

end Riftgate.Http1
