import Riftgate.Lib.Transducer
import Riftgate.Code.Sse

/-!
# The SSE framer and the cuts of its input

Of the framer only four fields count, and they change with each byte alone. The output buffer is scratch space
of one feed.
-/

open Lib

namespace Riftgate.Sse

open Mcp Parse

/-- What a framer carries from one feed to the next. -/
structure View where
  lineBuf : List Byte
  currentEvent : List Byte
  bytesSeen : UInt64
  phase : Phase
  deriving DecidableEq, Repr

def view (f : SseFramer) : View := ⟨f.lineBuf, f.currentEvent, f.bytesSeen, f.phase⟩

/-- The framer without its buffer: an event is its bytes. -/
def viewStep (s : View) (b : Byte) : View × List ParseEvent :=
  if s.phase ≠ .reading then (s, [])
  else if b = lineFeed then
    let current := processLine s.lineBuf s.currentEvent
    if (s.lineBuf = [] ∨ s.lineBuf = [carriageReturn]) ∧ current ≠ [] then
      if current = doneSentinel then ({ s with lineBuf := [], currentEvent := [], phase := .done }, [.sseDone])
      else ({ s with lineBuf := [], currentEvent := [], bytesSeen := s.bytesSeen + UInt64.ofNat current.length },
        [.sseToken current])
    else ({ s with lineBuf := [], currentEvent := current }, [])
  else if maxLineBytes < (s.lineBuf ++ [b]).length then
    ({ s with lineBuf := s.lineBuf ++ [b], phase := .error }, [.error lineTooLong])
  else ({ s with lineBuf := s.lineBuf ++ [b] }, [])

theorem viewStep_terminal {s : View} (h : s.phase ≠ .reading) (b : Byte) : viewStep s b = (s, []) := by
  unfold viewStep
  rw [if_pos h]

theorem slice_append (l m z : List Byte) : slice (l ++ m ++ z) l.length (l ++ m).length = m := by
  unfold slice
  rw [List.append_assoc, List.drop_left, List.length_append, Nat.add_sub_cancel_left, List.take_left]

/-- From `f` the framer came to `f'` with these ranges, its view with these events. What is appended to the
buffer later does not change the events. -/
structure Tracks (f f' : SseFramer) (emit : List Emit) (next : View × List ParseEvent) : Prop where
  grows : ∃ m, f'.outputBuffer = f.outputBuffer ++ m
  cancellation : f'.cancellation = f.cancellation
  view : view f' = next.1
  events : ∀ z seen, emit.map (convert (f'.outputBuffer ++ z) seen) = next.2

theorem Tracks.refl (f : SseFramer) : Tracks f f [] (Sse.view f, []) := ⟨⟨[], by simp⟩, rfl, rfl, fun _ _ => rfl⟩

theorem Tracks.trans {f g h : SseFramer} {emit emit' : List Emit} {s s' : View} {events events' : List ParseEvent}
    (hfg : Tracks f g emit (s, events)) (hgh : Tracks g h emit' (s', events')) :
    Tracks f h (emit ++ emit') (s', events ++ events') := by
  obtain ⟨m, hm⟩ := hfg.grows
  obtain ⟨n, hn⟩ := hgh.grows
  refine ⟨⟨m ++ n, by rw [hn, hm, List.append_assoc]⟩, hgh.cancellation.trans hfg.cancellation, hgh.view, ?_⟩
  intro z seen
  have hfirst : emit.map (convert (h.outputBuffer ++ z) seen) = events := by
    rw [hn, List.append_assoc]
    exact hfg.events (n ++ z) seen
  rw [List.map_append, hfirst, hgh.events z seen]

/-- One byte of the framer is one step of its view. The loop breaks where the framer stops reading. -/
theorem byteStep_spec {f : SseFramer} (hf : f.phase = .reading) (b : Byte) :
    Tracks f (byteStep f b).1 (byteStep f b).2.1 (viewStep (view f) b) ∧
    ((byteStep f b).2.2 = true ↔ (byteStep f b).1.phase ≠ .reading) := by
  have hreading : ¬ (view f).phase ≠ .reading := not_not.mpr hf
  unfold byteStep viewStep
  rw [if_neg hreading]
  by_cases hb : b = lineFeed
  · simp only [if_pos hb]
    by_cases hend : (f.lineBuf = [] ∨ f.lineBuf = [carriageReturn]) ∧ processLine f.lineBuf f.currentEvent ≠ []
    · have hend' : ((view f).lineBuf = [] ∨ (view f).lineBuf = [carriageReturn]) ∧
          processLine (view f).lineBuf (view f).currentEvent ≠ [] := hend
      simp only [if_pos hend, if_pos hend']
      by_cases hdone : processLine f.lineBuf f.currentEvent = doneSentinel
      · have hdone' : processLine (view f).lineBuf (view f).currentEvent = doneSentinel := hdone
        simp only [if_pos hdone, if_pos hdone']
        exact ⟨⟨⟨[], by simp⟩, rfl, rfl, fun z seen => rfl⟩, by simp⟩
      · have hdone' : ¬ processLine (view f).lineBuf (view f).currentEvent = doneSentinel := hdone
        simp only [if_neg hdone, if_neg hdone']
        refine ⟨⟨⟨_, rfl⟩, rfl, ?_, ?_⟩, by simp [hf]⟩
        · simp [view]
        · intro z seen
          simp only [List.map_cons, List.map_nil, convert, slice_append]
          rfl
    · have hend' : ¬ (((view f).lineBuf = [] ∨ (view f).lineBuf = [carriageReturn]) ∧
          processLine (view f).lineBuf (view f).currentEvent ≠ []) := hend
      simp only [if_neg hend, if_neg hend']
      exact ⟨⟨⟨[], by simp⟩, rfl, rfl, fun z seen => rfl⟩, by simp [hf]⟩
  · simp only [if_neg hb]
    by_cases hlong : maxLineBytes < (f.lineBuf ++ [b]).length
    · have hlong' : maxLineBytes < ((view f).lineBuf ++ [b]).length := hlong
      simp only [if_pos hlong, if_pos hlong']
      exact ⟨⟨⟨[], by simp⟩, rfl, rfl, fun z seen => rfl⟩, by simp⟩
    · have hlong' : ¬ maxLineBytes < ((view f).lineBuf ++ [b]).length := hlong
      simp only [if_neg hlong, if_neg hlong']
      exact ⟨⟨⟨[], by simp⟩, rfl, rfl, fun z seen => rfl⟩, by simp [hf]⟩

theorem run_of_stopped {s : View} (h : s.phase ≠ .reading) (bytes : List Byte) : run viewStep s bytes = (s, []) :=
  run_of_terminal (viewStep_terminal h) bytes

/-- The loop is the run of the view: after a break the view takes nothing more. -/
theorem feedBytes_spec {f : SseFramer} (hf : f.phase = .reading) (bytes : List Byte) :
    Tracks f (feedBytes f bytes).1 (feedBytes f bytes).2 (run viewStep (view f) bytes) := by
  induction bytes generalizing f with
  | nil => exact Tracks.refl f
  | cons b bytes ih =>
    obtain ⟨hstep, hbreak⟩ := byteStep_spec hf b
    rcases hr : byteStep f b with ⟨f', emit, stop⟩
    rw [hr] at hstep hbreak
    have hview : (viewStep (view f) b).1 = view f' := hstep.view.symm
    rw [run_cons, hview]
    unfold feedBytes
    rw [hr]
    cases stop with
    | true =>
      have hstopped : (view f').phase ≠ .reading := hbreak.mp rfl
      rw [run_of_stopped hstopped]
      exact ⟨hstep.grows, hstep.cancellation, rfl, fun z seen => by rw [hstep.events z seen, List.append_nil]⟩
    | false =>
      have hreading : f'.phase = .reading := by
        by_contra hne
        exact Bool.false_ne_true (hbreak.mpr hne)
      exact Tracks.trans hstep (ih hreading)

/-! ## Feeds -/

/-- No driver, or one that has not tripped. -/
def NotTripped (f : SseFramer) : Prop := ∀ driver ∈ f.cancellation, driver.isCancelled = false

instance (f : SseFramer) : Decidable (NotTripped f) := inferInstanceAs (Decidable (∀ driver ∈ f.cancellation, _))

theorem filter_notTripped {f : SseFramer} (h : NotTripped f) :
    f.cancellation.filter CancellationDriver.isCancelled = none := by
  rw [Option.filter_eq_none_iff]
  intro driver hdriver
  rw [h driver hdriver]
  exact Bool.false_ne_true

theorem feed_spec (f : SseFramer) (bytes : List Byte) (h : NotTripped f) :
    NotTripped (feed f bytes).1 ∧ run viewStep (view f) bytes = (view (feed f bytes).1, (feed f bytes).2) := by
  unfold feed
  by_cases hphase : f.phase ≠ .reading
  · simp only [if_pos hphase]
    exact ⟨h, run_of_stopped hphase bytes⟩
  · simp only [if_neg hphase, filter_notTripped h]
    have hreading : f.phase = .reading := not_not.mp hphase
    have hloop := @feedBytes_spec { f with outputBuffer := [] } hreading bytes
    refine ⟨?_, ?_⟩
    · unfold NotTripped
      rw [hloop.cancellation]
      exact h
    · have hevents := hloop.events [] (feedBytes { f with outputBuffer := [] } bytes).1.bytesSeen
      rw [List.append_nil] at hevents
      exact Prod.ext hloop.view.symm hevents.symm

/-- **The framer does not see where its input is cut.** -/
theorem feed_insensitive (f : SseFramer) (h : NotTripped f) (chunks : List (List Byte)) :
    (feeds feed f chunks).2 = (feed f chunks.flatten).2 ∧
    (feeds feed f chunks).1.lineBuf = (feed f chunks.flatten).1.lineBuf ∧
    (feeds feed f chunks).1.currentEvent = (feed f chunks.flatten).1.currentEvent ∧
    (feeds feed f chunks).1.bytesSeen = (feed f chunks.flatten).1.bytesSeen ∧
    (feeds feed f chunks).1.phase = (feed f chunks.flatten).1.phase := by
  have hpieces := feeds_eq_run feed_spec f h chunks
  have hwhole := (feed_spec f chunks.flatten h).2
  have hsame := hpieces.symm.trans hwhole
  have hview : view (feeds feed f chunks).1 = view (feed f chunks.flatten).1 := (Prod.mk.inj hsame).1
  have hfields := View.mk.inj hview
  exact ⟨(Prod.mk.inj hsame).2, hfields.1, hfields.2.1, hfields.2.2.1, hfields.2.2.2⟩

/-- The carriage return and both line feeds are cut from what they end. -/
def hiChunks : List (List Byte) := [bytesOf "data: h", bytesOf "i\r", bytesOf "\n\r", bytesOf "\ndata: [DO",
  bytesOf "NE]\n", bytesOf "\nrest"]

theorem hiChunks_insensitive : NotTripped SseFramer.new ∧
    (feed SseFramer.new hiChunks.flatten).2 = [.sseToken (bytesOf "hi"), .sseDone] ∧
    (feeds feed SseFramer.new hiChunks).2 = [.sseToken (bytesOf "hi"), .sseDone] := by
  have hopen : NotTripped SseFramer.new := by decide
  have hwhole : (feed SseFramer.new hiChunks.flatten).2 = [.sseToken (bytesOf "hi"), .sseDone] := by decide +kernel
  exact ⟨hopen, hwhole, (feed_insensitive SseFramer.new hopen hiChunks).1.trans hwhole⟩

/-- A framer that is reset answers like a new one, whatever it has read before. -/
theorem feeds_reset {f : SseFramer} (h : NotTripped f) (chunks : List (List Byte)) :
    (feeds feed (reset f) chunks).2 = (feeds feed .new chunks).2 := by
  have hreset := feeds_eq_run feed_spec (reset f) h chunks
  have hnew := feeds_eq_run feed_spec .new (by decide) chunks
  have hview : view (reset f) = view .new := rfl
  rw [hview] at hreset
  exact (Prod.mk.inj (hreset.symm.trans hnew)).2

/-! ## After the end -/

theorem feed_stopped {f : SseFramer} (h : f.phase ≠ .reading) (bytes : List Byte) :
    feed f bytes = ({ f with outputBuffer := [] }, []) := if_pos h

theorem feed_tripped {f : SseFramer} {driver : CancellationDriver} (hf : f.phase = .reading)
    (hdriver : f.cancellation = some driver) (htripped : driver.isCancelled = true) (bytes : List Byte) :
    feed f bytes = ({ f with outputBuffer := [], phase := .cancelled }, [.cancelled f.bytesSeen driver.cause]) := by
  simp [feed, hf, hdriver, Option.filter, htripped, finalize]

theorem feeds_stopped {f : SseFramer} (h : f.phase ≠ .reading) (chunks : List (List Byte)) :
    (feeds feed f chunks).2 = [] := by
  induction chunks generalizing f with
  | nil => rfl
  | cons c chunks ih =>
    have hrest : (feeds feed { f with outputBuffer := [] } chunks).2 = [] := ih h
    rw [feeds_cons, feed_stopped h, hrest]
    rfl

/-- A driver that has tripped ends the stream with its cause, whatever the input and its cuts. -/
theorem feeds_tripped {f : SseFramer} {driver : CancellationDriver} (hf : f.phase = .reading)
    (hdriver : f.cancellation = some driver) (htripped : driver.isCancelled = true) (c : List Byte)
    (chunks : List (List Byte)) :
    (feeds feed f (c :: chunks)).2 = [.cancelled f.bytesSeen driver.cause] := by
  rw [feeds_cons, feed_tripped hf hdriver htripped, feeds_stopped (by simp), List.append_nil]

example : (feeds feed (.withCancellation ⟨true, .draining⟩) [bytesOf "data: hi\n", bytesOf "\n"]).2 =
    [.cancelled 0 .draining] := by decide

end Riftgate.Sse
