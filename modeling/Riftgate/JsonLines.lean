import Riftgate.Lib.Json
import Riftgate.Code.JsonSink
import Riftgate.Fanout

/-!
# A line for an event

Names, labels and attributes can have any characters in them. They are escaped, so none of them ends a line or forges
another one. Only a write that fails spoils a line: its own, and the one of the event after it.
-/

open Lib

namespace Riftgate.JsonSink

open Mcp Obs

variable {F : Type} {floats : Floats F}

/-! ## The JSON of an event -/

def natNumeral (n : Nat) : Numeral where
  chars := Nat.toDigits 10 n
  ne_nil := Nat.toDigits_ne_nil
  numeral c hc := by simp [isNumeralChar, Nat.isDigit_of_mem_toDigits (by decide) (by decide) hc]

def intNumeral (n : ℤ) : Numeral :=
  if n < 0 then
    { chars := '-' :: (natNumeral n.natAbs).chars
      ne_nil := List.cons_ne_nil _ _
      numeral := List.forall_mem_cons.mpr ⟨rfl, (natNumeral n.natAbs).numeral⟩ }
  else natNumeral n.natAbs

section Tree

-- What a float is written as, unless it is infinite or not a number.
variable (numeral : F → Option Numeral)

def strJson (s : String) : Json := .str s.toList

def floatJson (x : F) : Json := (numeral x).elim .null .number

def Value.json : Value F → Json
  | .null => .null
  | .bool b => .bool b
  | .i64 n => .number (intNumeral n)
  | .f64 x => floatJson numeral x
  | .string s => strJson s

def OutAttr.json (attr : OutAttr F) : Json :=
  .obj [("key".toList, strJson attr.key), ("value".toList, attr.value.json numeral)]

def OutLabel.json (label : OutLabel) : Json :=
  .obj [("key".toList, strJson label.key), ("value".toList, strJson label.value)]

def OutBody.entries : OutBody F → List (List Char × Json)
  | .span requestId name attributes durationMs =>
    [("request_id".toList, strJson requestId), ("name".toList, strJson name),
      ("attributes".toList, .arr (attributes.map (OutAttr.json numeral))),
      ("duration_ms".toList, durationMs.elim .null fun ms => .number (natNumeral ms))]
  | .metric name value labels =>
    [("name".toList, strJson name), ("value".toList, floatJson numeral value),
      ("labels".toList, .arr (labels.map OutLabel.json))]
  | .profile kind sampleCount =>
    [("kind".toList, strJson kind), ("sample_count".toList, .number (natNumeral sampleCount))]

/-- The body is flattened. -/
def OutEnvelope.entries (out : OutEnvelope F) : List (List Char × Json) :=
  ("kind".toList, strJson out.kind) :: out.body.entries numeral

def OutEnvelope.json (out : OutEnvelope F) : Json := .obj (out.entries numeral)

end Tree

variable {numeral : F → Option Numeral} {toString : ToString F}

/-- A key is there twice in the line of a profile, and in no other. -/
theorem entries_keys_nodup_iff (event : ObservabilityEvent F) :
    (((envelope floats event).entries numeral).map Prod.fst).Nodup ↔ ∀ kind samples, event ≠ .profile kind samples := by
  cases event with
  | profile kind samples =>
    constructor
    · intro h
      simp [envelope, OutEnvelope.entries, OutBody.entries] at h
    · intro h
      exact absurd rfl (h kind samples)
  | _ => simp [envelope, OutEnvelope.entries, OutBody.entries]

/-- What `serde_json` writes is JSON, with all control characters escaped. -/
structure WritesJson (numeral : F → Option Numeral) (toString : ToString F) : Prop where
  written : ∀ out, ∃ line, toString out = .ok line ∧ Json.read line.toList = some (out.json numeral) ∧
    IsPlain line.toList

/-! ## A reader of lines -/

/-- The line that is not ended yet, and the lines before it. -/
def takeByte (s : List Byte × List (List Byte)) (b : Byte) : List Byte × List (List Byte) :=
  if b = newline then ([], s.2 ++ [s.1]) else (s.1 ++ [b], s.2)

/-- The lines that are ended. -/
def wholeLines (written : List Byte) : List (List Byte) := (written.foldl takeByte ([], [])).2

def readLine (line : List Byte) : Option Json := (fromUtf8 line).bind fun text => Json.read text.toList

def readLines (written : List Byte) : List (Option Json) := (wholeLines written).map readLine

theorem takeByte_line {line : List Byte} (h : newline ∉ line) (start : List Byte) (before : List (List Byte)) :
    (line ++ [newline]).foldl takeByte (start, before) = ([], before ++ [start ++ line]) := by
  induction line generalizing start with
  | nil => simp [takeByte]
  | cons b line ih =>
    rw [List.mem_cons, not_or] at h
    rw [List.cons_append, List.foldl_cons, takeByte, if_neg (Ne.symm h.1), ih h.2, List.append_assoc,
      List.singleton_append]

theorem takeByte_extends (l : List Byte) (s : List Byte × List (List Byte)) :
    s.2 <+: (l.foldl takeByte s).2 := by
  induction l generalizing s with
  | nil => exact List.prefix_rfl
  | cons b l ih =>
    refine List.IsPrefix.trans ?_ (ih (takeByte s b))
    unfold takeByte
    split
    · exact List.prefix_append _ _
    · exact List.prefix_rfl

theorem bytesOf_plain {line : String} (h : IsPlain line.toList) : newline ∉ bytesOf line := by
  intro hmem
  have hbytes : bytesOf line = line.toList.flatMap String.utf8EncodeChar := by
    rw [← toUTF8_ofList, String.ofList_toList]
    rfl
  rw [hbytes] at hmem
  obtain ⟨c, hc, hb⟩ := List.mem_flatMap.mp hmem
  have hlow := utf8EncodeChar_ge (h c hc) (by decide) hb
  exact absurd hlow (by decide)

theorem readLine_bytesOf (line : String) : readLine (bytesOf line) = Json.read line.toList := by
  unfold readLine bytesOf
  rw [fromUtf8_toUTF8, Option.bind_some]

/-! ## Writes that fail -/

/-- The events whose own write was not cut off, nor the one before it. -/
def intact {τ : Type} (failed : Nat → Option Nat) (events : List τ) : List τ :=
  (events.zipIdx.filter fun p => decide (failed p.2 = none ∧ (p.2 = 0 ∨ failed (p.2 - 1) = none))).map Prod.fst

theorem intact_concat {τ : Type} (failed : Nat → Option Nat) (events : List τ) (event : τ) :
    intact failed (events ++ [event]) = intact failed events ++
      if failed events.length = none ∧ (events.length = 0 ∨ failed (events.length - 1) = none) then [event] else [] := by
  unfold intact
  rw [List.zipIdx_append, List.filter_append, List.map_append, Nat.zero_add, List.zipIdx_singleton,
    List.filter_singleton]
  split_ifs with h
  · rw [decide_eq_true h]
    rfl
  · rw [decide_eq_false h]
    rfl

theorem publishAll_concat (failed : Nat → Option Nat) (events : List (ObservabilityEvent F))
    (event : ObservabilityEvent F) :
    publishAll floats toString (events ++ [event]) failed =
      publish floats toString (publishAll floats toString events failed) event (failed events.length) := by
  simp [publishAll, List.zipIdx_append]

/-- What a reader of lines has after these events. -/
structure Shown (floats : Floats F) (numeral : F → Option Numeral) (toString : ToString F)
    (failed : Nat → Option Nat) (events : List (ObservabilityEvent F)) : Prop where
  intact : ((intact failed events).map fun event => some ((envelope floats event).json numeral)).Sublist
    (readLines (publishAll floats toString events failed))
  ended : (events.length = 0 ∨ failed (events.length - 1) = none) →
    ((publishAll floats toString events failed).foldl takeByte ([], [])).1 = []
  all : (∀ i < events.length, failed i = none) →
    readLines (publishAll floats toString events failed) =
      events.map fun event => some ((envelope floats event).json numeral)

theorem publish_extends (written : List Byte) (event : ObservabilityEvent F) (failed : Option Nat) :
    ∃ more, publish floats toString written event failed = written ++ more := by
  unfold publish writeln
  split
  · split <;> exact ⟨_, rfl⟩
  · exact ⟨[], (List.append_nil written).symm⟩

section

variable {failed : Nat → Option Nat} {events : List (ObservabilityEvent F)}

/-- The write of the next event fails. Nothing is said of it, and what was shown is still shown. -/
theorem Shown.cutOff (h : Shown floats numeral toString failed events) (event : ObservabilityEvent F)
    (hfailed : failed events.length ≠ none) : Shown floats numeral toString failed (events ++ [event]) := by
  have hlength : (events ++ [event]).length - 1 = events.length := by simp
  refine ⟨?_, fun hlast => ?_, fun hnone => ?_⟩
  · obtain ⟨more, hmore⟩ : ∃ more, publishAll floats toString (events ++ [event]) failed =
        publishAll floats toString events failed ++ more := by
      rw [publishAll_concat]
      exact publish_extends _ event _
    rw [intact_concat, if_neg fun hok => hfailed hok.1, List.append_nil, hmore]
    unfold readLines wholeLines
    rw [List.foldl_append]
    exact h.intact.trans ((takeByte_extends _ _).sublist.map readLine)
  · rw [hlength] at hlast
    exact absurd (hlast.resolve_left (by simp)) hfailed
  · exact absurd (hnone events.length (by simp)) hfailed

/-- The line of the next event is whole, and it stands alone if the one before it was ended. -/
theorem Shown.whole (hserde : WritesJson numeral toString) (h : Shown floats numeral toString failed events)
    (event : ObservabilityEvent F) (hok : failed events.length = none) :
    Shown floats numeral toString failed (events ++ [event]) := by
  obtain ⟨hintact, hended, hall⟩ := h
  obtain ⟨line, hline, hread, hplain⟩ := hserde.written (envelope floats event)
  unfold readLines wholeLines at *
  obtain ⟨⟨unended, before⟩, hstate⟩ : ∃ p, (publishAll floats toString events failed).foldl takeByte ([], []) = p :=
    ⟨_, rfl⟩
  simp only [hstate] at hintact hended hall
  have hstate' : (publishAll floats toString (events ++ [event]) failed).foldl takeByte ([], []) =
      ([], before ++ [unended ++ bytesOf line]) := by
    rw [publishAll_concat, publish, hline, hok]
    simp only [writeln]
    rw [List.foldl_append, hstate, takeByte_line (bytesOf_plain hplain)]
  have hshown : readLine (bytesOf line) = some ((envelope floats event).json numeral) := by
    rw [readLine_bytesOf, hread]
  refine ⟨?_, fun _ => by rw [hstate'], fun hnone => ?_⟩
  · unfold readLines wholeLines
    rw [intact_concat, hstate', List.map_append]
    by_cases hprevious : events.length = 0 ∨ failed (events.length - 1) = none
    · rw [if_pos ⟨hok, hprevious⟩, hended hprevious, List.nil_append, List.map_append]
      rw [List.map_singleton, List.map_singleton, hshown]
      exact hintact.append_right _
    · rw [if_neg fun h => hprevious h.2, List.map_nil, List.append_nil]
      exact hintact.trans ((List.sublist_append_left _ _).map readLine)
  · have hbefore : ∀ i < events.length, failed i = none := fun i hi => hnone i (by simp; omega)
    have hprevious : events.length = 0 ∨ failed (events.length - 1) = none := by
      by_cases hzero : events.length = 0
      · exact .inl hzero
      · exact .inr (hbefore _ (by omega))
    unfold readLines wholeLines
    rw [hstate', hended hprevious, List.nil_append, List.map_append, List.map_append, hall hbefore,
      List.map_singleton, List.map_singleton, hshown]

end

theorem shown (hserde : WritesJson numeral toString) (failed : Nat → Option Nat)
    (events : List (ObservabilityEvent F)) : Shown floats numeral toString failed events := by
  induction events using List.reverseRecOn with
  | nil => exact ⟨List.Sublist.slnil, fun _ => rfl, fun _ => rfl⟩
  | append_singleton events event ih =>
    by_cases hok : failed events.length = none
    · exact ih.whole hserde event hok
    · exact ih.cutOff event hok

/-! ## Every run -/

/-- **Lines, in the order of the events.** Any threads publish, and the bus hands the events to its sinks, of which
this is the first. Read line by line, what it has written has the events that it was given, in their order, each on a
line of its own: no name, label or attribute value ends a line, adds one or changes another. Where writes fail, this
holds of the events whose own write did not, nor the one before it. -/
theorem lines_in_order (floats : Floats F) (hserde : WritesJson numeral toString) (failed : ℕ → Option ℕ)
    {capacity : ℕ+} {sinks : ℕ} {scripts : ℕ → List (ObservabilityEvent F)} {s : Publishing (ObservabilityEvent F)}
    (hs : (publishing capacity sinks scripts).Reachable s) (hsinks : 0 < sinks) :
    ((intact failed (s.bus.given 0)).map fun event => some ((envelope floats event).json numeral)).Sublist
      (readLines (publishAll floats toString (s.bus.given 0) failed)) ∧
    ((∀ i < (s.bus.given 0).length, failed i = none) →
      readLines (publishAll floats toString (s.bus.given 0) failed) =
        (s.bus.given 0).map fun event => some ((envelope floats event).json numeral)) ∧
    ∃ waiting, s.bus.given 0 ++ waiting = s.accepted ∧ waiting.length ≤ capacity + 1 ∧
      (s.bus.worker = .exited → waiting = []) := by
  have hshown : Shown floats numeral toString failed (s.bus.given 0) := shown hserde failed _
  exact ⟨hshown.intact, hshown.all, (reachable_piped hs).waiting hsinks⟩

def wholeNumbers : Floats ℕ where
  ofUInt64 := UInt64.toNat
  isFinite := fun _ => true

def wholeNumeral (n : ℕ) : Option Numeral := some (natNumeral n)

/-- A writer of compact JSON. -/
def compact : ToString ℕ := fun out => .ok (String.ofList (out.json wholeNumeral).text)

theorem compact_writesJson : WritesJson wholeNumeral compact := by
  refine ⟨fun out => ⟨_, rfl, ?_, ?_⟩⟩
  · rw [String.toList_ofList]
    exact Json.read_text _
  · rw [String.toList_ofList]
    exact isPlain_text _

/-- A label has a line of its own in it, as a client could send one. -/
def forgedLabel : ObservabilityEvent ℕ :=
  .counter "riftgate_requests_total" 1 [⟨.model, "gpt\n\x7b\"kind\":\"counter\"\x7d\n"⟩]

def upstreamSpan (requestId : UInt64) : ObservabilityEvent ℕ := .spanEnd requestId "upstream_dispatch" 1500000

/-- Two threads, and two sinks. The second write fails after five bytes, so the third event has no line of its own. -/
theorem tornLine_in_order : ∃ s : Publishing (ObservabilityEvent ℕ),
    s.bus.given 0 = [forgedLabel, upstreamSpan 1, upstreamSpan 2, forgedLabel] ∧
    [some ((envelope wholeNumbers forgedLabel).json wholeNumeral),
        some ((envelope wholeNumbers forgedLabel).json wholeNumeral)].Sublist
      (readLines (publishAll wholeNumbers compact (s.bus.given 0) fun i => if i = 1 then some 5 else none)) ∧
    readLines (publishAll wholeNumbers compact (s.bus.given 0) fun _ => none) =
      (s.bus.given 0).map fun event => some ((envelope wholeNumbers event).json wholeNumeral) := by
  obtain ⟨s, hrun⟩ : ∃ s, (publishing 8 2 fun t =>
      if t = 0 then [forgedLabel, upstreamSpan 2] else if t = 1 then [upstreamSpan 1, forgedLabel] else []).run
      ([.publish 0, .publish 1, .publish 0, .publish 1] ++ List.replicate 16 .drain) = some s := ⟨_, rfl⟩
  have hgiven : s.bus.given 0 = [forgedLabel, upstreamSpan 1, upstreamSpan 2, forgedLabel] := by
    cases hrun
    rfl
  have hs := Machine.reachable_of_run hrun
  obtain ⟨htorn, -, -⟩ :=
    lines_in_order wholeNumbers compact_writesJson (fun i => if i = 1 then some 5 else none) hs (by decide)
  obtain ⟨-, hwhole, -⟩ := lines_in_order wholeNumbers compact_writesJson (fun _ => none) hs (by decide)
  refine ⟨s, hgiven, ?_, hwhole fun _ _ => rfl⟩
  rw [hgiven] at htorn ⊢
  exact htorn

end Riftgate.JsonSink
