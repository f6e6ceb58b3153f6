import Riftgate.SseChunks

/-!
# The SSE framer, line by line

A whole line is one step of the framer. From this: which events come through as they were written, which lines do not
matter, and how much the framer keeps.
-/

open Lib

namespace Riftgate.Sse

open Mcp Parse

/-! ## Whole lines -/

/-- A framer between two lines. -/
def between (event : List Byte) (seen : UInt64) : View := ⟨[], event, seen, .reading⟩

theorem viewStep_open {s : View} (hs : s.phase = .reading) {b : Byte} (hb : b ≠ lineFeed)
    (hlen : (s.lineBuf ++ [b]).length ≤ maxLineBytes) :
    viewStep s b = ({ s with lineBuf := s.lineBuf ++ [b] }, []) := by
  unfold viewStep
  rw [if_neg (by simp [hs]), if_neg hb, if_neg (Nat.not_lt.mpr hlen)]

theorem viewStep_tooLong {s : View} (hs : s.phase = .reading) {b : Byte} (hb : b ≠ lineFeed)
    (hlen : maxLineBytes < (s.lineBuf ++ [b]).length) :
    viewStep s b = ({ s with lineBuf := s.lineBuf ++ [b], phase := .error }, [.error lineTooLong]) := by
  unfold viewStep
  rw [if_neg (by simp [hs]), if_neg hb, if_pos hlen]

theorem run_open {s : View} (hs : s.phase = .reading) {l : List Byte} (hlf : lineFeed ∉ l)
    (hlen : (s.lineBuf ++ l).length ≤ maxLineBytes) :
    run viewStep s l = ({ s with lineBuf := s.lineBuf ++ l }, []) := by
  induction l generalizing s with
  | nil => simp [run]
  | cons b l ih =>
    rw [List.mem_cons, not_or] at hlf
    rw [List.append_cons] at hlen ⊢
    have hshort : (s.lineBuf ++ [b]).length ≤ maxLineBytes := by
      rw [List.length_append] at hlen
      omega
    have hrest := @ih { s with lineBuf := s.lineBuf ++ [b] } hs hlf.2 hlen
    rw [run_cons, viewStep_open hs (Ne.symm hlf.1) hshort]
    simp only [hrest, List.append_nil]

theorem run_tooLong {s : View} (hs : s.phase = .reading) {l : List Byte} (hlf : lineFeed ∉ l)
    (hopen : s.lineBuf.length ≤ maxLineBytes) (hlen : maxLineBytes < (s.lineBuf ++ l).length) (rest : List Byte) :
    (run viewStep s (l ++ rest)).2 = [.error lineTooLong] := by
  induction l generalizing s with
  | nil =>
    rw [List.append_nil] at hlen
    omega
  | cons b l ih =>
    rw [List.mem_cons, not_or] at hlf
    rw [List.append_cons] at hlen
    rw [List.cons_append, run_cons]
    rcases Nat.lt_or_ge maxLineBytes (s.lineBuf ++ [b]).length with hlong | hshort
    · rw [viewStep_tooLong hs (Ne.symm hlf.1) hlong, run_of_stopped (by simp)]
      rfl
    · rw [viewStep_open hs (Ne.symm hlf.1) hshort]
      exact @ih { s with lineBuf := s.lineBuf ++ [b] } hs hlf.2 hshort hlen

/-- What a framer does with a whole line. -/
def lineStep (event : List Byte) (seen : UInt64) (line : List Byte) : View × List ParseEvent :=
  viewStep ⟨line, event, seen, .reading⟩ lineFeed

theorem run_line {event : List Byte} {seen : UInt64} {line : List Byte} (hlf : lineFeed ∉ line)
    (hlen : line.length ≤ maxLineBytes) (rest : List Byte) :
    run viewStep (between event seen) (line ++ lineFeed :: rest) =
      ((run viewStep (lineStep event seen line).1 rest).1,
        (lineStep event seen line).2 ++ (run viewStep (lineStep event seen line).1 rest).2) := by
  have hopen : run viewStep (between event seen) line = (⟨line, event, seen, .reading⟩, []) :=
    run_open (s := between event seen) rfl hlf hlen
  rw [run_append, hopen, run_cons]
  rfl

def Blank (line : List Byte) : Prop := line = [] ∨ line = [carriageReturn]

instance (line : List Byte) : Decidable (Blank line) := inferInstanceAs (Decidable (_ ∨ _))

theorem lineStep_field {event : List Byte} {seen : UInt64} {line : List Byte} (h : ¬ Blank line) :
    lineStep event seen line = (between (processLine line event) seen, []) := by
  unfold lineStep viewStep between
  rw [if_neg (by simp), if_pos rfl]
  simp only
  rw [if_neg fun hend => h hend.1]

theorem processLine_blank {line : List Byte} (h : Blank line) (event : List Byte) : processLine line event = event := by
  rcases h with rfl | rfl
  · rfl
  · rfl

theorem lineStep_blank {event : List Byte} {seen : UInt64} {line : List Byte} (h : Blank line) :
    lineStep event seen line =
      if event = [] then (between [] seen, [])
      else if event = doneSentinel then (⟨[], [], seen, .done⟩, [.sseDone])
      else (between [] (seen + UInt64.ofNat event.length), [.sseToken event]) := by
  unfold lineStep viewStep between
  rw [if_neg (by simp), if_pos rfl]
  simp only [processLine_blank h]
  by_cases hevent : event = []
  · rw [if_neg fun hend => hend.2 hevent, if_pos hevent, hevent]
  · rw [if_pos ⟨h, hevent⟩, if_neg hevent]

/-! ## Events that come through -/

def joined (payloads : List (List Byte)) : List Byte := [lineFeed].intercalate payloads

/-- One `data: ` line for each payload, and a blank line. -/
def encoded (payloads : List (List Byte)) : List Byte :=
  payloads.flatMap (fun p => bytesOf "data: " ++ p ++ [lineFeed]) ++ [lineFeed]

/-- The payload lines of an event: it is not empty and not the sentinel. -/
structure PayloadLines (payloads : List (List Byte)) : Prop where
  noLineFeed : ∀ p ∈ payloads, lineFeed ∉ p
  noCr : ∀ p ∈ payloads, p.getLast? ≠ some carriageReturn
  short : ∀ p ∈ payloads, p.length < maxLineBytes
  nonempty : joined payloads ≠ []
  notDone : joined payloads ≠ doneSentinel

/-- What the framer makes of one more payload: the separator goes in if the event is not empty. -/
def addPayload (event p : List Byte) : List Byte := (if event = [] then [] else event ++ [lineFeed]) ++ p

theorem bytesOf_data : bytesOf "data: " = bytesOf "data:" ++ [32] ∧ (bytesOf "data:").length = 5 ∧
    (bytesOf "data:").head? = some 100 := by
  decide

theorem processLine_data {p : List Byte} (hcr : p.getLast? ≠ some carriageReturn) (event : List Byte) :
    processLine (bytesOf "data: " ++ p) event = addPayload event p := by
  obtain ⟨hblank, hlength, hfirst⟩ := bytesOf_data
  have hlast : (bytesOf "data: " ++ p).getLast? ≠ some carriageReturn := by
    rw [List.getLast?_append]
    cases hp : p.getLast? with
    | none => decide
    | some b => rw [Option.some_or, ← hp]; exact hcr
  have hhead : (bytesOf "data: " ++ p).head? ≠ some 58 := by
    rw [hblank, List.append_assoc, List.head?_append, hfirst, Option.some_or]
    decide
  have hdrop : (bytesOf "data: " ++ p).drop 5 = 32 :: p := by
    rw [hblank, List.append_assoc, ← hlength, List.drop_left]
    rfl
  have hfront : (bytesOf "data:").isPrefixOf (bytesOf "data: " ++ p) = true := by
    rw [hblank, List.append_assoc, List.isPrefixOf_iff_prefix]
    exact List.prefix_append _ _
  unfold processLine addPayload
  simp only [if_neg hlast]
  rw [if_neg hhead, if_pos hfront, hdrop]
  rfl

theorem data_not_blank (p : List Byte) : ¬ Blank (bytesOf "data: " ++ p) := by
  have hlength : (bytesOf "data: ").length = 6 := by decide
  rintro (h | h)
  · have := congrArg List.length h
    rw [List.length_append, hlength, List.length_nil] at this
    omega
  · have := congrArg List.length h
    rw [List.length_append, hlength, List.length_singleton] at this
    omega

theorem data_length (p : List Byte) : (bytesOf "data: " ++ p).length = p.length + 6 := by
  have hlength : (bytesOf "data: ").length = 6 := by decide
  rw [List.length_append, hlength, Nat.add_comm]

theorem data_noLineFeed {p : List Byte} (h : lineFeed ∉ p) : lineFeed ∉ bytesOf "data: " ++ p := by
  rw [List.mem_append, not_or]
  exact ⟨by decide, h⟩

theorem run_payload {p : List Byte} (hlf : lineFeed ∉ p) (hcr : p.getLast? ≠ some carriageReturn)
    (hfits : p.length + 6 ≤ maxLineBytes) (event : List Byte) (seen : UInt64) (rest : List Byte) :
    run viewStep (between event seen) (bytesOf "data: " ++ p ++ [lineFeed] ++ rest) =
      run viewStep (between (addPayload event p) seen) rest := by
  rw [List.append_assoc, List.singleton_append, run_line (data_noLineFeed hlf) (by rw [data_length]; exact hfits),
    lineStep_field (data_not_blank p), processLine_data hcr]
  rfl

section

variable {payloads : List (List Byte)} (hlf : ∀ p ∈ payloads, lineFeed ∉ p)
  (hcr : ∀ p ∈ payloads, p.getLast? ≠ some carriageReturn)

include hlf hcr

theorem run_payloads (hfits : ∀ p ∈ payloads, p.length + 6 ≤ maxLineBytes) (event : List Byte) (seen : UInt64)
    (rest : List Byte) :
    run viewStep (between event seen) (payloads.flatMap (fun p => bytesOf "data: " ++ p ++ [lineFeed]) ++ rest) =
      run viewStep (between (payloads.foldl addPayload event) seen) rest := by
  induction payloads generalizing event with
  | nil => rfl
  | cons p payloads ih =>
    obtain ⟨hlf1, hlf⟩ := List.forall_mem_cons.mp hlf
    obtain ⟨hcr1, hcr⟩ := List.forall_mem_cons.mp hcr
    obtain ⟨hfits1, hfits⟩ := List.forall_mem_cons.mp hfits
    rw [List.flatMap_cons, List.append_assoc, run_payload hlf1 hcr1 hfits1, List.foldl_cons]
    exact ih hlf hcr hfits (addPayload event p)

theorem run_payloads_tooLong (hlong : ¬ ∀ p ∈ payloads, p.length + 6 ≤ maxLineBytes) (event : List Byte)
    (seen : UInt64) (rest : List Byte) :
    (run viewStep (between event seen)
      (payloads.flatMap (fun p => bytesOf "data: " ++ p ++ [lineFeed]) ++ rest)).2 = [.error lineTooLong] := by
  induction payloads generalizing event with
  | nil => simp at hlong
  | cons p payloads ih =>
    obtain ⟨hlf1, hlf⟩ := List.forall_mem_cons.mp hlf
    obtain ⟨hcr1, hcr⟩ := List.forall_mem_cons.mp hcr
    rw [List.flatMap_cons, List.append_assoc]
    rcases Nat.lt_or_ge maxLineBytes (p.length + 6) with hlong1 | hfits1
    · rw [← data_length] at hlong1
      rw [List.append_assoc]
      exact run_tooLong (s := between event seen) rfl (data_noLineFeed hlf1) (Nat.zero_le _) hlong1 _
    · rw [run_payload hlf1 hcr1 hfits1]
      refine ih hlf hcr (fun hfits => hlong ?_) (addPayload event p)
      exact List.forall_mem_cons.mpr ⟨hfits1, hfits⟩

end

theorem joined_cons (p : List Byte) {payloads : List (List Byte)} (h : payloads ≠ []) :
    joined (p :: payloads) = p ++ lineFeed :: joined payloads := by
  unfold joined
  rw [List.intercalate_cons_of_ne_nil h, List.append_assoc]
  rfl

theorem foldl_addPayload {event : List Byte} (h : event ≠ []) (payloads : List (List Byte)) :
    payloads.foldl addPayload event = joined (event :: payloads) := by
  induction payloads generalizing event with
  | nil => exact (List.intercalate_singleton).symm
  | cons p payloads ih =>
    have hadd : addPayload event p = event ++ [lineFeed] ++ p := by
      unfold addPayload
      rw [if_neg h]
    rw [List.foldl_cons, ih (by simp [hadd]), hadd]
    cases payloads with
    | nil => simp [joined]
    | cons q payloads => simp [joined]

theorem addPayload_nil (p : List Byte) : addPayload [] p = p := rfl

theorem foldl_addPayload_le (payloads : List (List Byte)) :
    (payloads.foldl addPayload []).length ≤ (joined payloads).length := by
  induction payloads with
  | nil => exact Nat.le_refl _
  | cons p payloads ih =>
    rw [List.foldl_cons, addPayload_nil]
    cases p with
    | cons b p => rw [foldl_addPayload (by simp)]
    | nil =>
      cases payloads with
      | nil => exact Nat.le_refl _
      | cons q payloads =>
        rw [joined_cons [] (by simp), List.nil_append, List.length_cons]
        exact Nat.le_succ_of_le ih

theorem feed_new_eq (bytes : List Byte) : (feed .new bytes).2 = (run viewStep (between [] 0) bytes).2 :=
  (congrArg Prod.snd (feed_spec .new bytes (by decide)).2).symm

theorem feed_encoded {payloads : List (List Byte)} (h : PayloadLines payloads)
    (hfits : ∀ p ∈ payloads, p.length + 6 ≤ maxLineBytes) :
    (feed .new (encoded payloads)).2 = (lineStep (payloads.foldl addPayload []) 0 []).2 := by
  rw [feed_new_eq, encoded, run_payloads h.noLineFeed h.noCr hfits, ← List.nil_append [lineFeed],
    run_line (by simp) (Nat.zero_le _)]
  exact List.append_nil _

theorem foldl_addPayload_eq_iff {payloads : List (List Byte)} (h : joined payloads ≠ []) :
    payloads.foldl addPayload [] = joined payloads ↔ payloads.head? ≠ some [] := by
  obtain - | ⟨p, payloads⟩ := payloads
  · exact absurd rfl h
  rw [List.foldl_cons, addPayload_nil]
  obtain - | ⟨b, p⟩ := p
  · refine iff_of_false (fun heq => ?_) (by simp)
    have hmore : payloads ≠ [] := by
      rintro rfl
      exact h rfl
    have hle := foldl_addPayload_le payloads
    have hlength := congrArg List.length heq
    rw [joined_cons [] hmore, List.nil_append, List.length_cons] at hlength
    omega
  · exact iff_of_true (foldl_addPayload (by simp) payloads) (by simp)

/-- **Round trip, exactly.** A new framer emits one token with the payload lines joined if and only if the first payload
is not empty, and each line has, with its field name, at most 1 MiB. -/
theorem payloads_round_trip_iff (payloads : List (List Byte)) (h : PayloadLines payloads) :
    (feed .new (encoded payloads)).2 = [.sseToken (joined payloads)] ↔
      payloads.head? ≠ some [] ∧ ∀ p ∈ payloads, p.length + 6 ≤ maxLineBytes := by
  by_cases hfits : ∀ p ∈ payloads, p.length + 6 ≤ maxLineBytes
  · rw [feed_encoded h hfits, lineStep_blank (.inl rfl), and_iff_left hfits,
      ← foldl_addPayload_eq_iff h.nonempty]
    generalize payloads.foldl addPayload [] = event
    split
    · rename_i hevent
      simp [hevent, h.nonempty.symm]
    · split
      · rename_i hdone
        simp [hdone, h.notDone.symm]
      · simp
  · refine iff_of_false ?_ fun hboth => hfits hboth.2
    rw [feed_new_eq, encoded, run_payloads_tooLong h.noLineFeed h.noCr hfits]
    simp

theorem inner_blank_comes_through :
    let payloads := [bytesOf "a", [], bytesOf " b"]
    PayloadLines payloads ∧ (feed .new (encoded payloads)).2 = [.sseToken (bytesOf "a\n\n b")] := by
  intro payloads
  have hlines : PayloadLines payloads := ⟨by decide, by decide, by decide, by decide, by decide⟩
  exact ⟨hlines, (payloads_round_trip_iff payloads hlines).mpr ⟨by decide, by decide⟩⟩

/-- A line that is empty at the start of an event is lost. -/
theorem leading_blank_is_lost :
    let payloads := [[], bytesOf "a"]
    PayloadLines payloads ∧ joined payloads = bytesOf "\na" ∧
    (feed .new (encoded payloads)).2 = [.sseToken (bytesOf "a")] ∧
    (feed .new (encoded payloads)).2 ≠ [.sseToken (joined payloads)] :=
  ⟨⟨by decide, by decide, by decide, by decide, by decide⟩, by decide, by decide, by decide⟩

/-! ## Lines that do not matter -/

theorem processLine_other {line : List Byte} (h : ¬ bytesOf "data:" <+: line) (event : List Byte) :
    processLine line event = event := by
  have hstripped : (if line.getLast? = some carriageReturn then line.dropLast else line) <+: line := by
    split
    · exact List.dropLast_prefix line
    · exact List.prefix_rfl
  unfold processLine
  revert hstripped
  generalize (if line.getLast? = some carriageReturn then line.dropLast else line) = stripped
  intro hstripped
  have hdata : ¬ (bytesOf "data:").isPrefixOf stripped = true :=
    fun hdata => h ((List.isPrefixOf_iff_prefix.mp hdata).trans hstripped)
  simp only [if_neg hdata, ite_self]

theorem run_inserted {line : List Byte} (hlf : lineFeed ∉ line) (hlen : line.length ≤ maxLineBytes)
    (hblank : ¬ Blank line) (hdata : ¬ bytesOf "data:" <+: line) (event : List Byte) (seen : UInt64)
    (rest : List Byte) :
    run viewStep (between event seen) (line ++ lineFeed :: rest) = run viewStep (between event seen) rest := by
  rw [run_line hlf hlen, lineStep_field hblank, processLine_other hdata]
  rfl

def AtBoundary (before : List Byte) : Prop := before = [] ∨ before.getLast? = some lineFeed

theorem viewStep_lineFeed {s : View} (hs : s.phase = .reading) : (viewStep s lineFeed).1.lineBuf = [] := by
  unfold viewStep
  rw [if_neg (by simp [hs]), if_pos rfl]
  simp only
  split
  · split <;> rfl
  · rfl

theorem run_boundary {before : List Byte} (h : AtBoundary before) (event : List Byte) (seen : UInt64) :
    (run viewStep (between event seen) before).1.phase ≠ .reading ∨
      ∃ event' seen', (run viewStep (between event seen) before).1 = between event' seen' := by
  rcases h with rfl | hlast
  · exact .inr ⟨event, seen, rfl⟩
  · obtain ⟨front, rfl⟩ := List.getLast?_eq_some_iff.mp hlast
    have hrun : run viewStep (between event seen) (front ++ [lineFeed]) =
        ((viewStep (run viewStep (between event seen) front).1 lineFeed).1,
          (run viewStep (between event seen) front).2 ++
            (viewStep (run viewStep (between event seen) front).1 lineFeed).2) := by
      rw [run_append, run_cons]
      simp [run]
    rw [hrun]
    generalize (run viewStep (between event seen) front).1 = s
    by_cases hs : s.phase = .reading
    · have hline := viewStep_lineFeed hs
      generalize (viewStep s lineFeed).1 = s' at hline ⊢
      by_cases hs' : s'.phase = .reading
      · exact .inr ⟨s'.currentEvent, s'.bytesSeen, by rw [between, ← hline, ← hs']⟩
      · exact .inl hs'
    · rw [viewStep_terminal hs]
      exact .inl hs

theorem run_insert {before line : List Byte} (hbefore : AtBoundary before) (hlf : lineFeed ∉ line)
    (hlen : line.length ≤ maxLineBytes) (hblank : ¬ Blank line) (hdata : ¬ bytesOf "data:" <+: line)
    (event : List Byte) (seen : UInt64) (after : List Byte) :
    run viewStep (between event seen) (before ++ (line ++ lineFeed :: after)) =
      run viewStep (between event seen) (before ++ after) := by
  rw [run_append, run_append viewStep _ before after]
  rcases run_boundary hbefore event seen with hstopped | ⟨event', seen', hs⟩
  · rw [run_of_stopped hstopped, run_of_stopped hstopped]
  · rw [hs, run_inserted hlf hlen hblank hdata]

/-! ## Line endings -/

/-- Some line feeds have become a carriage return and a line feed. -/
inductive Crlf : List Byte → List Byte → Prop
  | nil : Crlf [] []
  | byte {b : Byte} {l l' : List Byte} (hb : b ≠ lineFeed) (h : Crlf l l') : Crlf (b :: l) (b :: l')
  | keep {l l' : List Byte} (h : Crlf l l') : Crlf (lineFeed :: l) (lineFeed :: l')
  | widen {l l' : List Byte} (h : Crlf l l') : Crlf (lineFeed :: l) (carriageReturn :: lineFeed :: l')

theorem viewStep_cr {s : View} (hs : s.phase = .reading) (hcr : carriageReturn ∉ s.lineBuf) :
    viewStep { s with lineBuf := s.lineBuf ++ [carriageReturn] } lineFeed = viewStep s lineFeed := by
  have hlast : s.lineBuf.getLast? ≠ some carriageReturn := fun h => hcr (List.mem_of_getLast? h)
  have hline : processLine (s.lineBuf ++ [carriageReturn]) s.currentEvent = processLine s.lineBuf s.currentEvent := by
    unfold processLine
    simp only [List.getLast?_concat, if_true, List.dropLast_concat, if_neg hlast]
  have hblank : (s.lineBuf ++ [carriageReturn] = [] ∨ s.lineBuf ++ [carriageReturn] = [carriageReturn]) ↔
      (s.lineBuf = [] ∨ s.lineBuf = [carriageReturn]) := by
    constructor
    · rintro (h | h)
      · simp at h
      · exact .inl (by simpa using h)
    · rintro (h | h)
      · exact .inr (by simp [h])
      · exact absurd (by simp [h]) hcr
  unfold viewStep
  simp only [hs, ne_eq, not_true, if_false, if_true, hline, hblank]

/-- The lines to come are short, the one that is open with what has been read of it. -/
structure ShortLines (s : View) (l : List Byte) : Prop where
  no_feed : lineFeed ∉ s.lineBuf
  no_return : carriageReturn ∉ s.lineBuf
  short : ∀ line ∈ (s.lineBuf ++ l).splitOn lineFeed, line.length < maxLineBytes

theorem ShortLines.next_line {s : View} {l : List Byte} (h : ShortLines s (lineFeed :: l)) (hs : s.phase = .reading) :
    s.lineBuf.length < maxLineBytes ∧ ShortLines (viewStep s lineFeed).1 l := by
  have hnext := viewStep_lineFeed hs
  have hshort := h.short
  rw [List.splitOn_append_cons_self_of_not_mem h.no_feed, List.forall_mem_cons] at hshort
  refine ⟨hshort.1, by simp [hnext], by simp [hnext], ?_⟩
  rw [hnext]
  exact hshort.2

theorem run_crlf {l l' : List Byte} (h : Crlf l l') (hcr : carriageReturn ∉ l) (s : View) (hlines : ShortLines s l) :
    (run viewStep s l').2 = (run viewStep s l).2 := by
  induction h generalizing s with
  | nil => rfl
  | @byte b l l' hb h ih =>
    rw [List.mem_cons, not_or] at hcr
    by_cases hs : s.phase = .reading
    · have hnext : (viewStep s b).1.lineBuf = s.lineBuf ++ [b] := by
        unfold viewStep
        rw [if_neg (by simp [hs]), if_neg hb]
        split <;> rfl
      rw [run_cons, run_cons]
      refine congrArg ((viewStep s b).2 ++ ·) (ih hcr.2 _ ⟨?_, ?_, ?_⟩)
      · simpa [hnext, hlines.no_feed] using Ne.symm hb
      · simpa [hnext, hlines.no_return] using hcr.1
      · rw [hnext, ← List.append_cons]
        exact hlines.short
    · rw [run_of_stopped hs, run_of_stopped hs]
  | @keep l l' h ih =>
    rw [List.mem_cons, not_or] at hcr
    by_cases hs : s.phase = .reading
    · rw [run_cons, run_cons]
      exact congrArg ((viewStep s lineFeed).2 ++ ·) (ih hcr.2 _ (hlines.next_line hs).2)
    · rw [run_of_stopped hs, run_of_stopped hs]
  | @widen l l' h ih =>
    rw [List.mem_cons, not_or] at hcr
    by_cases hs : s.phase = .reading
    · obtain ⟨hshort, hrest⟩ := hlines.next_line hs
      have hfits : (s.lineBuf ++ [carriageReturn]).length ≤ maxLineBytes := by
        rw [List.length_append]
        exact hshort
      rw [run_cons, viewStep_open hs (by decide) hfits, run_cons, viewStep_cr hs hlines.no_return, run_cons]
      exact congrArg ((viewStep s lineFeed).2 ++ ·) (ih hcr.2 _ hrest)
    · rw [run_of_stopped hs, run_of_stopped hs]

/-- **Metadata and line endings.** A line that is neither blank nor data, put in at the end of any line, changes no
event. In a stream without carriage returns, neither does a carriage return before any of the line feeds. -/
theorem metadata_and_line_endings :
    (∀ before line after chunks chunks', AtBoundary before → lineFeed ∉ line → ¬ Blank line →
      ¬ bytesOf "data:" <+: line → line.length < maxLineBytes → chunks.flatten = before ++ after →
      chunks'.flatten = before ++ (line ++ lineFeed :: after) →
      (feeds feed .new chunks').2 = (feeds feed .new chunks).2) ∧
    ∀ stream stream' chunks chunks', carriageReturn ∉ stream →
      (∀ line ∈ stream.splitOn lineFeed, line.length < maxLineBytes) → Crlf stream stream' →
      chunks.flatten = stream → chunks'.flatten = stream' →
      (feeds feed .new chunks').2 = (feeds feed .new chunks).2 := by
  have hevents : ∀ chunks, (feeds feed .new chunks).2 = (run viewStep (between [] 0) chunks.flatten).2 := by
    intro chunks
    have hrun := feeds_eq_run feed_spec .new (by decide) chunks
    exact (congrArg Prod.snd hrun).symm
  constructor
  · intro before line after chunks chunks' hbefore hlf hblank hdata hlen hchunks hchunks'
    rw [hevents, hevents, hchunks, hchunks', run_insert hbefore hlf (Nat.le_of_lt hlen) hblank hdata]
  · intro stream stream' chunks chunks' hcr hshort hcrlf hchunks hchunks'
    rw [hevents, hevents, hchunks, hchunks']
    exact run_crlf hcrlf hcr (between [] 0) ⟨by simp [between], by simp [between], hshort⟩

theorem ping_and_crlf :
    (feeds feed .new [bytesOf "data:a\n: ping\n\n"]).2 = (feeds feed .new [bytesOf "data:a\n\n"]).2 ∧
    (feeds feed .new [bytesOf "data:a\n", bytesOf "\r\n"]).2 = (feeds feed .new [bytesOf "data:a\n\n"]).2 := by
  have hcrlf : Crlf (bytesOf "data:a\n\n") (bytesOf "data:a\n\r\n") :=
    .byte (by decide) (.byte (by decide) (.byte (by decide) (.byte (by decide) (.byte (by decide) (.byte (by decide)
      (.keep (.widen .nil)))))))
  exact ⟨metadata_and_line_endings.1 (bytesOf "data:a\n") (bytesOf ": ping") (bytesOf "\n") _ _ (.inr (by decide))
    (by decide) (by decide) (by decide) (by decide) (by decide) (by decide),
    metadata_and_line_endings.2 _ _ _ _ (by decide) (by decide) hcrlf (by decide) (by decide)⟩

/-! ## What is kept -/

/-- The bytes that stay between two feeds. -/
def retained (f : SseFramer) : Nat := f.lineBuf.length + f.currentEvent.length

/-- The event that some whole lines leave unfinished. -/
def pendingEvent (lines : List (List Byte)) : List Byte :=
  lines.foldl (fun event line => if Blank line then [] else processLine line event) []

/-- The text of whole lines. -/
def unlines (lines : List (List Byte)) : List Byte := lines.flatMap (· ++ [lineFeed])

theorem pendingEvent_concat (lines : List (List Byte)) (line : List Byte) :
    pendingEvent (lines ++ [line]) = if Blank line then [] else processLine line (pendingEvent lines) := by
  simp only [pendingEvent, List.foldl_append, List.foldl_cons, List.foldl_nil]

theorem unlines_concat (lines : List (List Byte)) (line : List Byte) :
    unlines (lines ++ [line]) = unlines lines ++ line ++ [lineFeed] := by
  simp [unlines]

/-- What a framer holds after the input `v`: the open line and the unfinished event, or what was left when it
stopped. -/
inductive Holds (v : List Byte) : View → Prop
  | reading {lines : List (List Byte)} {tail : List Byte} (seen : UInt64) (hlines : ∀ line ∈ lines, lineFeed ∉ line)
      (htail : lineFeed ∉ tail) (hv : v = unlines lines ++ tail) (hlen : tail.length ≤ maxLineBytes) :
      Holds v ⟨tail, pendingEvent lines, seen, .reading⟩
  | stopped {s : View} {lines : List (List Byte)} (hphase : s.phase ≠ .reading)
      (hlines : ∀ line ∈ lines, lineFeed ∉ line) (hfront : unlines lines <+: v)
      (hevent : s.currentEvent.length ≤ (pendingEvent lines).length) (hline : s.lineBuf.length ≤ maxLineBytes + 1) :
      Holds v s

theorem viewStep_holds {v : List Byte} {s : View} (h : Holds v s) (b : Byte) : Holds (v ++ [b]) (viewStep s b).1 := by
  cases h with
  | stopped hphase hlines hfront hevent hline =>
    rw [viewStep_terminal hphase]
    exact .stopped hphase hlines (hfront.trans ( List.prefix_append _ _)) hevent hline
  | @reading lines tail seen hlines htail hv hlen =>
    by_cases hb : b = lineFeed
    · subst hb
      have hlines' : ∀ line ∈ lines ++ [tail], lineFeed ∉ line := by
        simpa [or_imp, forall_and] using ⟨hlines, htail⟩
      have hv' : v ++ [lineFeed] = unlines (lines ++ [tail]) ++ [] := by
        rw [unlines_concat, List.append_nil, hv]
      have hevent := pendingEvent_concat lines tail
      have hnext : ∀ seen, Holds (v ++ [lineFeed]) (between (pendingEvent (lines ++ [tail])) seen) :=
        fun seen => .reading seen hlines' (by simp) hv' (Nat.zero_le _)
      change Holds (v ++ [lineFeed]) (lineStep (pendingEvent lines) seen tail).1
      by_cases hblank : Blank tail
      · rw [if_pos hblank] at hevent
        rw [hevent] at hnext
        rw [lineStep_blank hblank]
        split
        · exact hnext seen
        · split
          · exact @Holds.stopped _ _ [] (by simp) (by simp) List.nil_prefix (Nat.zero_le _) (Nat.zero_le _)
          · exact hnext _
      · rw [if_neg hblank] at hevent
        rw [lineStep_field hblank, ← hevent]
        exact hnext seen
    · rcases Nat.lt_or_ge maxLineBytes (tail ++ [b]).length with hlong | hshort
      · rw [viewStep_tooLong rfl hb hlong]
        refine .stopped (by simp) hlines ?_ (Nat.le_refl _) ?_
        · rw [hv, List.append_assoc]
          exact List.prefix_append _ _
        · simpa using hlen
      · rw [viewStep_open rfl hb hshort]
        refine .reading seen hlines ?_ ?_ hshort
        · simpa [htail] using Ne.symm hb
        · rw [hv, List.append_assoc]

theorem run_holds (v : List Byte) : Holds v (run viewStep (between [] 0) v).1 := by
  induction v using List.reverseRecOn with
  | nil => exact @Holds.reading _ [] [] 0 (by simp) (by simp) rfl (Nat.zero_le _)
  | append_singleton v b ih =>
    have hrun : (run viewStep (between [] 0) (v ++ [b])).1 = (viewStep (run viewStep (between [] 0) v).1 b).1 := by
      rw [run_append]
      rfl
    rw [hrun]
    exact viewStep_holds ih b

/-- No event of the stream has more than `limit` bytes at any end of a line. -/
def EventsWithin (limit : Nat) (stream : List Byte) : Prop :=
  ∀ lines, (∀ line ∈ lines, lineFeed ∉ line) → unlines lines <+: stream → (pendingEvent lines).length ≤ limit

/-- **Bounded memory.** Between any two feeds of a stream whose events have at most `limit` bytes, the framer keeps at
most one such event, a line of 1 MiB and a byte. -/
theorem retained_le {limit : Nat} {stream : List Byte} (h : EventsWithin limit stream) (chunks : List (List Byte))
    (hchunks : chunks.flatten <+: stream) :
    retained (feeds feed .new chunks).1 ≤ limit + (maxLineBytes + 1) := by
  have hrun : run viewStep (between [] 0) chunks.flatten =
      (view (feeds feed .new chunks).1, (feeds feed .new chunks).2) :=
    feeds_eq_run feed_spec .new (by decide) chunks
  have hholds : Holds chunks.flatten (view (feeds feed .new chunks).1) := by
    have := run_holds chunks.flatten
    rwa [hrun] at this
  have hsize : retained (feeds feed .new chunks).1 =
      (view (feeds feed .new chunks).1).lineBuf.length + (view (feeds feed .new chunks).1).currentEvent.length := rfl
  rw [hsize]
  revert hholds
  generalize view (feeds feed .new chunks).1 = s
  intro hholds
  cases hholds with
  | reading seen hlines htail hv hlen =>
    have := h _ hlines (( List.prefix_append _ _).trans (hv ▸ hchunks))
    simp only
    omega
  | stopped hphase hlines hfront hevent hline =>
    have := h _ hlines (hfront.trans hchunks)
    omega

theorem foldl_addPayload_grows {payloads : List (List Byte)} (h : ∀ p ∈ payloads, p ≠ []) (event : List Byte) :
    event.length + payloads.length ≤ (payloads.foldl addPayload event).length := by
  induction payloads generalizing event with
  | nil => exact Nat.le_refl _
  | cons p payloads ih =>
    obtain ⟨hp, hmore⟩ := List.forall_mem_cons.mp h
    have hgrows := ih hmore (addPayload event p)
    have hadd : event.length + 1 ≤ (addPayload event p).length := by
      have := List.length_pos_of_ne_nil hp
      unfold addPayload
      split
      · rename_i hevent
        rw [hevent, List.nil_append]
        exact this
      · simp only [List.length_append, List.length_singleton]
        omega
    rw [List.foldl_cons, List.length_cons]
    omega

theorem processLine_length_le (line event : List Byte) :
    (processLine line event).length ≤ event.length + line.length + 1 := by
  have hstripped : (if line.getLast? = some carriageReturn then line.dropLast else line).length ≤ line.length := by
    split
    · rw [List.length_dropLast]
      omega
    · exact Nat.le_refl _
  unfold processLine
  revert hstripped
  generalize (if line.getLast? = some carriageReturn then line.dropLast else line) = stripped
  intro hstripped
  have hpayload : (dataPayload (stripped.drop 5)).length ≤ stripped.length := by
    unfold dataPayload
    split
    · rw [List.length_tail, List.length_drop]
      omega
    · rw [List.length_drop]
      omega
  simp only
  split
  · omega
  · split
    · rw [List.length_append]
      split
      · rw [List.length_nil]
        omega
      · rw [List.length_append, List.length_singleton]
        omega
    · omega

theorem eventsWithin_length (stream : List Byte) : EventsWithin stream.length stream := by
  intro lines hlines hfront
  refine Nat.le_trans ?_ hfront.length_le
  clear hlines hfront
  induction lines using List.reverseRecOn with
  | nil => exact Nat.le_refl _
  | append_singleton lines line ih =>
    rw [pendingEvent_concat, unlines_concat, List.length_append, List.length_append, List.length_singleton]
    split
    · exact Nat.zero_le _
    · have := processLine_length_le line (pendingEvent lines)
      omega

theorem retained_hello : EventsWithin 8 (bytesOf "data:a\n\n") ∧
    retained (feeds feed .new [bytesOf "data:a\n"]).1 ≤ 8 + (maxLineBytes + 1) := by
  have hwithin : EventsWithin 8 (bytesOf "data:a\n\n") := eventsWithin_length _
  exact ⟨hwithin, retained_le hwithin _ (by decide)⟩

/-- Data lines without a blank line: there is no bound, and no error. -/
theorem memory_unbounded :
    ¬ ∃ bound, ∀ chunks, retained (feeds feed .new chunks).1 ≤ bound ∨ ∃ e, .error e ∈ (feeds feed .new chunks).2 := by
  rintro ⟨bound, hbound⟩
  let payloads : List (List Byte) := List.replicate (bound + 1) [97]
  have hall : ∀ p ∈ payloads, p = [97] := fun p hp => List.eq_of_mem_replicate hp
  have hlf : ∀ p ∈ payloads, lineFeed ∉ p := fun p hp => by rw [hall p hp]; decide
  have hcr : ∀ p ∈ payloads, p.getLast? ≠ some carriageReturn := fun p hp => by rw [hall p hp]; decide
  have hfits : ∀ p ∈ payloads, p.length + 6 ≤ maxLineBytes := fun p hp => by rw [hall p hp]; decide
  have hgrows := foldl_addPayload_grows (fun p hp => by rw [hall p hp]; simp : ∀ p ∈ payloads, p ≠ []) []
  have hrun := run_payloads hlf hcr hfits [] 0 []
  have hfeeds := feeds_eq_run feed_spec .new (by decide) [payloads.flatMap fun p => bytesOf "data: " ++ p ++ [lineFeed]]
  have hview : view .new = between [] 0 := rfl
  rw [List.flatten_singleton, hview] at hfeeds
  rw [List.append_nil, hfeeds] at hrun
  obtain ⟨hstate, hevents⟩ := Prod.mk.inj hrun
  rcases hbound [payloads.flatMap fun p => bytesOf "data: " ++ p ++ [lineFeed]] with hle | ⟨e, he⟩
  · have hevent := congrArg (List.length ∘ View.currentEvent) hstate
    simp only [Function.comp_apply, between, view] at hevent
    have hcount : payloads.length = bound + 1 := List.length_replicate
    unfold retained at hle
    rw [hevent] at hle
    simp only [List.length_nil] at hgrows
    omega
  · rw [hevents] at he
    exact absurd he (by simp)

end Riftgate.Sse
