import Riftgate.Code.Cancel
import Riftgate.SseChunks

/-!
# A stream ends once, and with the cause of the first cancel

Whatever the order of the cancels, the drop and the feeds, the events are tokens and then at most one end. The
token is set only after the cause has its first value, so the cause that a feed reads is the one that stays.
-/

open Lib

namespace Riftgate.Sse

open Mcp Parse

/-! ## The race for the cause -/

theorem fromU8_toU8 (c : CancelCause) : fromU8 (toU8 c) = c := by
  cases c <;> rfl

theorem toU8_eq_iff {c : CancelCause} : toU8 c = toU8 .notCancelled ↔ c = .notCancelled := by
  constructor
  · intro h
    have := congrArg fromU8 h
    rwa [fromU8_toU8, fromU8_toU8] at this
  · exact congrArg toU8

/-- Before the first exchange nothing is set. After it the cause does not change. -/
structure Raced (s : Stream) : Prop where
  unset : s.winner = none → s.cancel.cause = toU8 .notCancelled ∧ s.cancel.token = false ∧ s.calls = 0 ∧
    (s.drop = .alive ∨ s.drop = .exchange)
  set : ∀ c, s.winner = some c → s.cancel.cause = toU8 c
  named : ∀ c, s.winner = some c → s.drop = .alive ∨ s.drop = .exchange → c ≠ .notCancelled

/-- What the cancel side may change of a stream: the token is set once, the winner once, and the rest stays. -/
structure Cancels (s s' : Stream) : Prop where
  token : s.cancel.token = true → s'.cancel.token = true
  winner : ∀ c, s.winner = some c → s'.winner = some c
  framer : s'.framer = s.framer
  feed : s'.feed = s.feed
  late : s'.late = s.late
  events : s'.events = s.events
  feeds : s'.feeds = s.feeds

theorem exchange_winner {s : Stream} (h : Raced s) (hopen : s.drop = .alive ∨ s.drop = .exchange)
    (cause : CancelCause) :
    (s.winner = none ∧ (s.exchange cause).winner = some cause ∧ (s.exchange cause).cancel.cause = toU8 cause) ∨
      (∃ c, s.winner = some c ∧ c ≠ .notCancelled) ∧ s.exchange cause = s := by
  cases hw : s.winner with
  | none =>
    have hslot := (h.unset hw).1
    refine .inl ⟨rfl, ?_, ?_⟩
    · simp [Stream.exchange, hslot, hw]
    · simp [Stream.exchange, CancelState.exchange, hslot]
  | some c =>
    have hne := h.named c hw hopen
    have hslot : s.cancel.cause ≠ toU8 .notCancelled := by
      rw [h.set c hw]
      exact mt toU8_eq_iff.mp hne
    refine .inr ⟨⟨c, rfl, hne⟩, ?_⟩
    simp [Stream.exchange, CancelState.exchange, hslot]

theorem exchange_cancels {s : Stream} (h : Raced s) (hopen : s.drop = .alive ∨ s.drop = .exchange)
    (cause : CancelCause) : Cancels s (s.exchange cause) := by
  rcases exchange_winner h hopen cause with ⟨hnone, -, -⟩ | ⟨-, hsame⟩
  · refine ⟨fun ht => ?_, fun c hc => ?_, rfl, rfl, rfl, rfl, rfl⟩
    · rw [(h.unset hnone).2.1] at ht
      cases ht
    · rw [hnone] at hc
      cases hc
  · rw [hsame]
    exact ⟨id, fun _ => id, rfl, rfl, rfl, rfl, rfl⟩

theorem exchange_set {s : Stream} (h : Raced s) (hopen : s.drop = .alive ∨ s.drop = .exchange) (cause : CancelCause) :
    ∃ c, (s.exchange cause).winner = some c ∧ (s.exchange cause).cancel.cause = toU8 c ∧
      (cause ≠ .notCancelled → c ≠ .notCancelled) := by
  rcases exchange_winner h hopen cause with ⟨-, hw, hslot⟩ | ⟨⟨c, hw, hne⟩, hsame⟩
  · exact ⟨cause, hw, hslot, id⟩
  · rw [hsame]
    exact ⟨c, hw, h.set c hw, fun _ => hne⟩

theorem raced_of_winner {s : Stream} {c : CancelCause} (hw : s.winner = some c) (hslot : s.cancel.cause = toU8 c)
    (hnamed : s.drop = .alive ∨ s.drop = .exchange → c ≠ .notCancelled) : Raced s := by
  refine ⟨fun hnone => ?_, fun c' hc => ?_, fun c' hc => ?_⟩
  · rw [hnone] at hw
    cases hw
  · rw [hw, Option.some.injEq] at hc
    exact hc ▸ hslot
  · rw [hw, Option.some.injEq] at hc
    exact hc ▸ hnamed

theorem Raced.winner {s : Stream} (h : Raced s) (hset : s.cancel.token = true ∨ 0 < s.calls ∨ s.drop = .trip) :
    ∃ c, s.winner = some c := by
  cases hw : s.winner with
  | some c => exact ⟨c, rfl⟩
  | none =>
    obtain ⟨-, htoken, hcalls, hdrop⟩ := h.unset hw
    rcases hset with ht | hc | hd
    · rw [htoken] at ht
      cases ht
    · omega
    · rcases hdrop with ha | he
      · rw [hd] at ha
        cases ha
      · rw [hd] at he
        cases he

/-! ## What the framer has emitted -/

/-- The end of a stream. A `Cancelled` has counted the tokens, and has the cause that won. -/
def Ends (winner : Option CancelCause) (tokens : List (List Byte)) : ParseEvent → Prop
  | .sseDone | .error _ => True
  | .cancelled bytesSeen cause =>
    bytesSeen = UInt64.ofNat (tokens.map List.length).sum ∧ winner = some cause
  | _ => False

structure Emitted (winner : Option CancelCause) (v : View) (tokens : List (List Byte)) (events : List ParseEvent) :
    Prop where
  proper : ∀ t ∈ tokens, t ≠ [] ∧ t ≠ doneSentinel
  counted : v.bytesSeen = UInt64.ofNat (tokens.map List.length).sum
  reading : v.phase = .reading → events = tokens.map .sseToken
  ended : v.phase ≠ .reading → ∃ e, events = tokens.map .sseToken ++ [e] ∧ Ends winner tokens e

theorem viewStep_emitted {winner : Option CancelCause} {v : View} {tokens : List (List Byte)}
    {events : List ParseEvent} (h : Emitted winner v tokens events) (b : Byte) :
    ∃ tokens', Emitted winner (viewStep v b).1 tokens' (events ++ (viewStep v b).2) := by
  unfold viewStep
  dsimp only
  split
  · rw [List.append_nil]
    exact ⟨tokens, h⟩
  · rename_i hreading
    have hreading := not_not.mp hreading
    have hevents := h.reading hreading
    split
    · split
      · rename_i hend
        split
        · -- `[DONE]`
          exact ⟨tokens, h.proper, h.counted, nofun, fun _ => ⟨.sseDone, by rw [hevents], trivial⟩⟩
        · rename_i hdone
          refine ⟨tokens ++ [processLine v.lineBuf v.currentEvent], ?_, ?_, ?_, ?_⟩
          · intro t ht
            rcases List.mem_append.mp ht with ht | ht
            · exact h.proper t ht
            · rw [List.mem_singleton.mp ht]
              exact ⟨hend.2, hdone⟩
          · simp [h.counted, UInt64.ofNat_add]
          · intro _
            simp [hevents]
          · exact fun hne => absurd hreading hne
      · rw [List.append_nil]
        exact ⟨tokens, h.proper, h.counted, fun _ => hevents, fun hne => absurd hreading hne⟩
    · split
      · exact ⟨tokens, h.proper, h.counted, nofun, fun _ => ⟨.error lineTooLong, by rw [hevents], trivial⟩⟩
      · rw [List.append_nil]
        exact ⟨tokens, h.proper, h.counted, fun _ => hevents, fun hne => absurd hreading hne⟩

theorem run_emitted {winner : Option CancelCause} {v : View} {tokens : List (List Byte)}
    {events : List ParseEvent} (h : Emitted winner v tokens events) (bytes : List Byte) :
    ∃ tokens', Emitted winner (run viewStep v bytes).1 tokens' (events ++ (run viewStep v bytes).2) := by
  induction bytes generalizing v tokens events with
  | nil => exact ⟨tokens, by simpa [run] using h⟩
  | cons b bytes ih =>
    obtain ⟨tokens', h'⟩ := viewStep_emitted h b
    rw [run_cons, ← List.append_assoc]
    exact ih h'

theorem Emitted.mono {winner winner' : Option CancelCause} {v : View} {tokens : List (List Byte)}
    {events : List ParseEvent} (h : Emitted winner v tokens events)
    (hw : ∀ c, winner = some c → winner' = some c) : Emitted winner' v tokens events := by
  refine ⟨h.proper, h.counted, h.reading, fun hne => ?_⟩
  obtain ⟨e, he, hends⟩ := h.ended hne
  refine ⟨e, he, ?_⟩
  cases e with
  | cancelled seen cause => exact ⟨hends.1, hw cause hends.2⟩
  | sseDone => trivial
  | error => trivial
  | _ => exact hends.elim

/-! ## One step -/

/-- A feed that was late reads the token set, and what it emits has no token. -/
structure Fed (s : Stream) : Prop where
  emitted : ∃ tokens, Emitted s.winner (view s.framer) tokens s.events
  reading : s.feed ≠ .idle → s.framer.phase = .reading
  gate : ∀ bytes, s.feed = .gate bytes → s.late = true → s.cancel.token = true
  cause : ∀ bytes, s.feed = .cause bytes → s.cancel.token = true
  loop : ∀ bytes, s.feed = .loop bytes → s.late = false
  silent : ∀ feed ∈ s.feeds, feed.1 = true → ∀ t, .sseToken t ∉ feed.2

theorem Fed.cancels {s s' : Stream} (h : Fed s) (hc : Cancels s s') : Fed s' := by
  obtain ⟨tokens, hemitted⟩ := h.emitted
  refine ⟨⟨tokens, ?_⟩, ?_, fun bytes hf hl => ?_, fun bytes hf => ?_, fun bytes hf => ?_, ?_⟩
  · rw [hc.framer, hc.events]
    exact hemitted.mono hc.winner
  · rw [hc.feed, hc.framer]
    exact h.reading
  · rw [hc.feed] at hf
    rw [hc.late] at hl
    exact hc.token (h.gate bytes hf hl)
  · rw [hc.feed] at hf
    exact hc.token (h.cause bytes hf)
  · rw [hc.feed] at hf
    rw [hc.late]
    exact h.loop bytes hf
  · rw [hc.feeds]
    exact h.silent

theorem Fed.finish {s : Stream} (h : Fed s) {late : Bool} {r : SseFramer × List ParseEvent}
    (hemitted : ∃ tokens, Emitted s.winner (view r.1) tokens (s.events ++ r.2))
    (hsilent : late = true → ∀ t, .sseToken t ∉ r.2) : Fed (s.finish late r) := by
  refine ⟨hemitted, fun hne => absurd rfl hne, nofun, nofun, nofun, fun feed hfeed => ?_⟩
  rcases List.mem_append.mp hfeed with hold | hnew
  · exact h.silent feed hold
  · rw [List.mem_singleton.mp hnew]
    exact hsilent

theorem view_seen (s : Stream) (driver : CancellationDriver) : view (s.seen driver) = view s.framer := rfl

theorem Fed.loop_finish {s : Stream} (h : Fed s) {bytes : List Byte} (hf : s.feed = .loop bytes) :
    Fed (s.finish s.late (Sse.feed (s.seen ⟨false, .notCancelled⟩) bytes)) := by
  obtain ⟨tokens, hemitted⟩ := h.emitted
  have hopen : NotTripped (s.seen ⟨false, .notCancelled⟩) := by
    rintro driver ⟨⟩
    rfl
  obtain ⟨tokens', hemitted'⟩ := run_emitted hemitted bytes
  rw [← view_seen s ⟨false, .notCancelled⟩, (feed_spec _ bytes hopen).2] at hemitted'
  refine h.finish ⟨tokens', hemitted'⟩ fun hlate => ?_
  rw [h.loop bytes hf] at hlate
  cases hlate

theorem Fed.cause_finish {s : Stream} (h : Fed s) (hr : Raced s) {bytes : List Byte} (hf : s.feed = .cause bytes) :
    Fed (s.finish s.late (Sse.feed (s.seen ⟨true, s.cancel.observedCause⟩) bytes)) := by
  obtain ⟨tokens, hemitted⟩ := h.emitted
  have hreading := h.reading (by rw [hf]; nofun)
  have hwinner : s.winner = some s.cancel.observedCause := by
    cases hw : s.winner with
    | none =>
      have htoken := h.cause bytes hf
      rw [(hr.unset hw).2.1] at htoken
      cases htoken
    | some c => rw [CancelState.observedCause, hr.set c hw, fromU8_toU8]
  rw [feed_tripped (f := s.seen _) hreading rfl rfl]
  refine h.finish ⟨tokens, hemitted.proper, hemitted.counted, nofun, fun _ => ?_⟩ fun _ t ht => ?_
  · rw [hemitted.reading hreading]
    exact ⟨_, rfl, hemitted.counted, hwinner⟩
  · cases List.mem_singleton.mp ht

theorem raced_of_cancel_side {s s' : Stream} (h : Raced s) (hcancel : s'.cancel = s.cancel)
    (hcalls : s'.calls = s.calls)
    (hdrop : s'.drop = s.drop) (hwinner : s'.winner = s.winner) : Raced s' := by
  refine ⟨?_, ?_, ?_⟩
  · rw [hwinner, hcancel, hcalls, hdrop]
    exact h.unset
  · rw [hwinner, hcancel]
    exact h.set
  · rw [hwinner, hdrop]
    exact h.named

section

variable {dropCause : CancelCause} {s s' : Stream}

theorem step_feed (hr : Raced s) (h : Fed s) {bytes : List Byte}
    (hstep : Stream.step dropCause s (.feed bytes) = some s') : Raced s' ∧ Fed s' := by
  simp only [Stream.step, Option.ite_none_left_eq_some, not_not] at hstep
  obtain ⟨hidle, hstep⟩ := hstep
  split at hstep
  · rename_i hstopped
    cases hstep
    refine ⟨raced_of_cancel_side hr rfl rfl rfl rfl, ?_⟩
    rw [feed_stopped hstopped]
    refine h.finish ?_ fun _ t => List.not_mem_nil
    rw [List.append_nil]
    exact h.emitted
  · rename_i hreading
    cases hstep
    refine ⟨raced_of_cancel_side hr rfl rfl rfl rfl, h.emitted, fun _ => not_not.mp hreading, ?_, nofun, nofun,
      h.silent⟩
    exact fun _ _ hlate => hlate

theorem step_readToken (hr : Raced s) (h : Fed s) (hstep : Stream.step dropCause s .readToken = some s') :
    Raced s' ∧ Fed s' := by
  simp only [Stream.step] at hstep
  split at hstep
  · rename_i bytes hgate
    cases hstep
    have hreading := h.reading (by rw [hgate]; nofun)
    refine ⟨raced_of_cancel_side hr rfl rfl rfl rfl, h.emitted, fun _ => hreading, ?_, ?_, ?_, h.silent⟩
    · intro b hb
      split at hb <;> cases hb
    · intro b hb
      split at hb
      · assumption
      · cases hb
    · intro b hb
      split at hb
      · cases hb
      · rename_i htoken
        rw [← Bool.not_eq_true]
        exact fun hlate => htoken (h.gate bytes hgate hlate)
  · cases hstep

theorem step_reset (hr : Raced s) (h : Fed s) (hstep : Stream.step dropCause s .reset = some s') :
    Raced s' ∧ Fed s' := by
  simp only [Stream.step, Option.ite_none_right_eq_some, Option.some.injEq] at hstep
  obtain ⟨hidle, rfl⟩ := hstep
  refine ⟨raced_of_cancel_side hr rfl rfl rfl rfl, ⟨[], ?_⟩, fun _ => rfl, ?_, ?_, ?_, h.silent⟩
  · exact ⟨nofun, rfl, fun _ => rfl, fun hne => absurd rfl hne⟩
  · intro b hb
    rw [hidle] at hb
    cases hb
  · intro b hb
    rw [hidle] at hb
    cases hb
  · intro b hb
    rw [hidle] at hb
    cases hb

end

theorem step_inv {dropCause : CancelCause} {s s' : Stream} {a : Label} (hr : Raced s) (h : Fed s)
    (hstep : Stream.step dropCause s a = some s') : Raced s' ∧ Fed s' := by
  cases a with
  | cancel cause =>
    simp only [Stream.step, Option.ite_none_right_eq_some, Option.some.injEq] at hstep
    obtain ⟨⟨hdrop, hcause⟩, rfl⟩ := hstep
    have hc := exchange_cancels hr (.inl hdrop) cause
    obtain ⟨c, hw, hslot, hnamed⟩ := exchange_set hr (.inl hdrop) cause
    exact ⟨raced_of_winner hw hslot fun _ => hnamed hcause,
      h.cancels ⟨hc.token, hc.winner, hc.framer, hc.feed, hc.late, hc.events, hc.feeds⟩⟩
  | trip =>
    simp only [Stream.step, Option.ite_none_right_eq_some, Option.some.injEq] at hstep
    obtain ⟨hcalls, rfl⟩ := hstep
    obtain ⟨c, hw⟩ := hr.winner (.inr (.inl hcalls))
    exact ⟨raced_of_winner hw (hr.set c hw) (hr.named c hw),
      h.cancels ⟨fun _ => rfl, fun _ => id, rfl, rfl, rfl, rfl, rfl⟩⟩
  | drop =>
    simp only [Stream.step, Option.ite_none_right_eq_some, Option.some.injEq] at hstep
    obtain ⟨⟨hdrop, -⟩, rfl⟩ := hstep
    refine ⟨⟨fun hnone => ?_, hr.set, fun c hw _ => hr.named c hw (.inl hdrop)⟩,
      h.cancels ⟨id, fun _ => id, rfl, rfl, rfl, rfl, rfl⟩⟩
    obtain ⟨hslot, htoken, hcalls, -⟩ := hr.unset hnone
    exact ⟨hslot, htoken, hcalls, .inr (by simp [htoken])⟩
  | dropExchange =>
    simp only [Stream.step, Option.ite_none_right_eq_some, Option.some.injEq] at hstep
    obtain ⟨hdrop, rfl⟩ := hstep
    have hc := exchange_cancels hr (.inr hdrop) dropCause
    obtain ⟨c, hw, hslot, -⟩ := exchange_set hr (.inr hdrop) dropCause
    exact ⟨raced_of_winner hw hslot (by simp),
      h.cancels ⟨hc.token, hc.winner, hc.framer, hc.feed, hc.late, hc.events, hc.feeds⟩⟩
  | dropTrip =>
    simp only [Stream.step, Option.ite_none_right_eq_some, Option.some.injEq] at hstep
    obtain ⟨hdrop, rfl⟩ := hstep
    obtain ⟨c, hw⟩ := hr.winner (.inr (.inr hdrop))
    exact ⟨raced_of_winner hw (hr.set c hw) (by simp),
      h.cancels ⟨fun _ => rfl, fun _ => id, rfl, rfl, rfl, rfl, rfl⟩⟩
  | feed bytes => exact step_feed hr h hstep
  | readToken => exact step_readToken hr h hstep
  | readCause =>
    simp only [Stream.step] at hstep
    split at hstep
    · rename_i bytes hcause
      cases hstep
      exact ⟨raced_of_cancel_side hr rfl rfl rfl rfl, h.cause_finish hr hcause⟩
    · cases hstep
  | loop =>
    simp only [Stream.step] at hstep
    split at hstep
    · rename_i bytes hloop
      cases hstep
      exact ⟨raced_of_cancel_side hr rfl rfl rfl rfl, h.loop_finish hloop⟩
    · cases hstep
  | reset => exact step_reset hr h hstep

/-! ## Every run -/

theorem stream_inv {dropCause : CancelCause} {s : Stream} (hs : (streams dropCause).Reachable s) : Raced s ∧ Fed s := by
  refine Machine.Reachable.invariant (I := fun s => Raced s ∧ Fed s) ⟨?_, ?_⟩
    (fun s a s' hi hstep => step_inv hi.1 hi.2 hstep) hs
  · exact ⟨fun _ => ⟨rfl, rfl, rfl, .inl rfl⟩, nofun, nofun⟩
  · exact ⟨⟨[], nofun, rfl, fun _ => rfl, fun hne => absurd rfl hne⟩, fun hne => absurd rfl hne, nofun, nofun, nofun,
      nofun⟩

/-- **A stream ends once.** In every run of cancels, the drop and feeds, the events are proper tokens and at most one
end after them. An end by cancellation has counted their bytes and has the cause of the first exchange that succeeded.
A feed that begins after the token was set emits no token. -/
theorem stream_ends_once (dropCause : CancelCause) (s : Stream) (hs : (streams dropCause).Reachable s) :
    (∃ tokens tail, s.events = tokens.map .sseToken ++ tail ∧ (∀ t ∈ tokens, t ≠ [] ∧ t ≠ doneSentinel) ∧
      (tail = [] ∨ ∃ e, tail = [e] ∧ Ends s.winner tokens e)) ∧
    ∀ feed ∈ s.feeds, feed.1 = true → ∀ t, .sseToken t ∉ feed.2 := by
  have hfed := (stream_inv hs).2
  obtain ⟨tokens, hemitted⟩ := hfed.emitted
  refine ⟨?_, hfed.silent⟩
  by_cases hreading : s.framer.phase = .reading
  · exact ⟨tokens, [], by rw [hemitted.reading hreading, List.append_nil], hemitted.proper, .inl rfl⟩
  · obtain ⟨e, he, hends⟩ := hemitted.ended hreading
    exact ⟨tokens, [e], he, hemitted.proper, .inr ⟨e, rfl, hends⟩⟩

/-- Two cancels race. The one that loses the exchange sets the token, between the two reads of a feed. -/
def racedLabels : List Label :=
  [.feed (bytesOf "data: hi\n\n"), .readToken, .cancel .hedgeLost, .cancel .draining, .loop, .trip,
    .feed (bytesOf "data: no\n\n"), .readToken, .trip, .drop, .readCause, .feed (bytesOf "data: no\n\n")]

theorem racedLabels_end : ∃ s : Stream, s.events = [.sseToken (bytesOf "hi"), .cancelled 2 .hedgeLost] ∧
    ∀ feed ∈ s.feeds, feed.1 = true → ∀ t, .sseToken t ∉ feed.2 := by
  have hrun : ((streams .droppedByClient).run racedLabels).map
      (fun s => decide (s.events = [.sseToken (bytesOf "hi"), .cancelled 2 .hedgeLost])) = some true := by
    decide +kernel
  obtain ⟨s, hs, hevents⟩ := Machine.exists_of_run hrun
  exact ⟨s, of_decide_eq_true hevents, (stream_ends_once .droppedByClient s hs).2⟩

end Riftgate.Sse
