import Riftgate.Code.Bus
import Riftgate.Handler
import Riftgate.Code.ObservedBody

/-!
# What reaches the sinks

The bus keeps the order of the events that it takes. It gives each of them to all sinks, and it counts the others.
-/

open Lib

namespace Riftgate.Obs

open Proxy

variable {τ : Type}

def Publishing.accepted (s : Publishing τ) : List τ := s.bus.channel.sent

/-! ## One turn -/

/-- What the sinks have been given of the events that the worker has received. -/
def Handed (b : Bus τ) : Prop :=
  match b.worker with
  | .recv => ∀ i < b.sinks, b.given i = b.channel.received
  | .publish event next =>
    ∃ before, b.channel.received = before ++ [event] ∧
      ∀ i < b.sinks, b.given i = if i < next then b.channel.received else before
  | .exited => b.handles = 0 ∧ b.channel.items = [] ∧ ∀ i < b.sinks, b.given i = b.channel.received

theorem trySend_some {b b' : Bus τ} {event : τ} (h : b.trySend event = some b') :
    ∃ channel, b' = { b with channel := channel } ∧ b.worker ≠ .exited ∧ channel.sent = b.channel.sent ++ [event] ∧
      channel.received = b.channel.received ∧ channel.capacity = b.channel.capacity := by
  unfold Bus.trySend at h
  split at h
  · cases h
  · rename_i hworker
    split at h
    · rename_i channel hsend
      cases h
      obtain ⟨-, hsent, hreceived, hcapacity⟩ := Channel.trySend_ok hsend
      exact ⟨channel, rfl, hworker, hsent, hreceived, hcapacity⟩
    · cases h

theorem trySend_none {b : Bus τ} {event : τ} (h : b.trySend event = none) :
    b.worker = .exited ∨ b.channel.items.length = b.channel.capacity := by
  unfold Bus.trySend at h
  split at h
  · exact Or.inl ‹_›
  · split at h
    · cases h
    · rename_i hsend
      exact Or.inr (Channel.trySend_error hsend).2

theorem drain_frame {b b' : Bus τ} (h : b.drain = some b') :
    b'.channel.sent = b.channel.sent ∧ b'.channel.capacity = b.channel.capacity ∧ b'.sinks = b.sinks ∧
      b'.dropped = b.dropped ∧ b'.handles = b.handles := by
  unfold Bus.drain at h
  split at h
  · unfold Bus.recv at h
    split at h
    · rename_i hrecv
      cases h
      obtain ⟨-, hsent, -, hcapacity⟩ := Channel.tryRecv_some hrecv
      exact ⟨hsent, hcapacity, rfl, rfl, rfl⟩
    · split at h
      · cases h
        exact ⟨rfl, rfl, rfl, rfl, rfl⟩
      · cases h
  · split at h
    · cases h
      exact ⟨rfl, rfl, rfl, rfl, rfl⟩
    · cases h
      exact ⟨rfl, rfl, rfl, rfl, rfl⟩
  · cases h

theorem recv_handed {b b' : Bus τ} (hb : ∀ i < b.sinks, b.given i = b.channel.received) (h : b.recv = some b') :
    Handed b' := by
  unfold Bus.recv at h
  split at h
  · rename_i event channel hrecv
    cases h
    obtain ⟨-, -, hreceived, -⟩ := Channel.tryRecv_some hrecv
    refine ⟨b.channel.received, hreceived, fun i hi => ?_⟩
    rw [if_neg (Nat.not_lt_zero i)]
    exact hb i hi
  · rename_i hempty
    split at h
    · rename_i hhandles
      cases h
      exact ⟨hhandles, Channel.tryRecv_none hempty, hb⟩
    · cases h

theorem drain_handed {b b' : Bus τ} (hb : Handed b) (h : b.drain = some b') : Handed b' := by
  unfold Bus.drain at h
  unfold Handed at hb
  split at h
  · rename_i hworker
    rw [hworker] at hb
    exact recv_handed hb h
  · rename_i event next hworker
    rw [hworker] at hb
    obtain ⟨before, hreceived, hgiven⟩ := hb
    split at h
    · cases h
      refine ⟨before, hreceived, fun i hi => ?_⟩
      show Function.update b.given next (b.given next ++ [event]) i =
        if i < next + 1 then b.channel.received else before
      by_cases hnext : i = next
      · subst hnext
        rw [Function.update_self, hgiven i hi, if_neg (lt_irrefl i), if_pos (Nat.lt_succ_self i), hreceived]
      · rw [Function.update_of_ne hnext, hgiven i hi]
        have hiff : i < next ↔ i < next + 1 := by omega
        simp only [hiff]
    · -- the loop is over, so all sinks have it
      rename_i hdone
      cases h
      intro i hi
      have hlt : i < next := by
        have : i < b.sinks := hi
        omega
      exact (hgiven i hi).trans (if_pos hlt)
  · cases h

/-! ## Every run -/

structure Piped (capacity : ℕ+) (sinks : ℕ) (s : Publishing τ) : Prop where
  capacity_eq : s.bus.channel.capacity = capacity
  sinks_eq : s.bus.sinks = sinks
  handed : Handed s.bus
  order : s.accepted.Sublist s.published
  dropped : ∃ counted, s.bus.dropped = UInt64.ofNat counted ∧
    s.published.length = s.accepted.length + counted + s.counting.length
  full : s.accepted ≠ s.published → (capacity : ℕ) ≤ s.accepted.length

section Run

variable {capacity : ℕ+} {sinks : ℕ} {scripts : ℕ → List τ}

theorem Handed.live {b : Bus τ} (hb : Handed b) (hhandles : b.handles ≠ 0) : b.worker ≠ .exited := by
  intro hexited
  unfold Handed at hb
  rw [hexited] at hb
  exact hhandles hb.1

theorem Handed.congr {b b' : Bus τ} (hb : Handed b) (hlive : b.worker ≠ .exited) (hworker : b'.worker = b.worker)
    (hsinks : b'.sinks = b.sinks) (hgiven : b'.given = b.given) (hreceived : b'.channel.received = b.channel.received) :
    Handed b' := by
  unfold Handed at hb ⊢
  rw [hworker, hsinks, hgiven, hreceived]
  cases hw : b.worker with
  | recv => simpa only [hw] using hb
  | publish event next => simpa only [hw] using hb
  | exited => exact absurd hw hlive

theorem Piped.publish {s : Publishing τ} (hs : Piped capacity sinks s) (hhandles : s.bus.handles ≠ 0) (t : ℕ)
    (event : τ) : Piped capacity sinks (s.publish t event) := by
  obtain ⟨counted, hdropped, hlength⟩ := hs.dropped
  have hlive : s.bus.worker ≠ .exited := hs.handed.live hhandles
  cases hsend : s.bus.trySend event with
  | some b' =>
    obtain ⟨channel, rfl, -, hsent, hreceived, hcapacity⟩ := trySend_some hsend
    have haccepted : (s.publish t event).accepted = s.accepted ++ [event] := by
      simp [Publishing.publish, Publishing.accepted, hsend, hsent]
    have hbus : (s.publish t event).bus = { s.bus with channel := channel } := by simp [Publishing.publish, hsend]
    refine ⟨?_, ?_, ?_, ?_, ⟨counted, ?_, ?_⟩, ?_⟩
    · rw [hbus]
      exact hcapacity.trans hs.capacity_eq
    · rw [hbus]
      exact hs.sinks_eq
    · rw [hbus]
      exact hs.handed.congr hlive rfl rfl rfl hreceived
    · rw [haccepted]
      exact hs.order.append_right [event]
    · rw [hbus]
      exact hdropped
    · rw [haccepted]
      simp [Publishing.publish, hsend]
      omega
    · rw [haccepted]
      intro hne
      have hold : s.accepted ≠ s.published := fun heq => hne (by simp [Publishing.publish, heq])
      rw [List.length_append]
      exact (hs.full hold).trans (Nat.le_add_right _ _)
  | none =>
    have hbus : (s.publish t event).bus = s.bus := by simp [Publishing.publish, hsend]
    have haccepted : (s.publish t event).accepted = s.accepted := by rw [Publishing.accepted, hbus, Publishing.accepted]
    have hfull := (trySend_none hsend).resolve_left hlive
    refine ⟨?_, ?_, ?_, ?_, ⟨counted, ?_, ?_⟩, fun _ => ?_⟩
    · rw [hbus]
      exact hs.capacity_eq
    · rw [hbus]
      exact hs.sinks_eq
    · rw [hbus]
      exact hs.handed
    · rw [haccepted]
      exact hs.order.trans (List.sublist_append_left _ _)
    · rw [hbus]
      exact hdropped
    · rw [haccepted]
      simp [Publishing.publish, hsend]
      omega
    · rw [haccepted, Publishing.accepted, s.bus.channel.fifo, List.length_append, hfull, hs.capacity_eq]
      exact Nat.le_add_left _ _

theorem Piped.step {s s' : Publishing τ} (hs : Piped capacity sinks s) {a : Label}
    (h : s.step scripts a = some s') : Piped capacity sinks s' := by
  obtain ⟨counted, hdropped, hlength⟩ := hs.dropped
  cases a with
  | publish t =>
    simp only [Publishing.step, Option.ite_none_left_eq_some, not_or] at h
    obtain ⟨⟨hhandles, -⟩, h⟩ := h
    obtain ⟨event, -, rfl⟩ := Option.map_eq_some_iff.mp h
    exact hs.publish hhandles t event
  | count t =>
    simp only [Publishing.step, Option.ite_none_right_eq_some, Option.some.injEq] at h
    obtain ⟨hmem, rfl⟩ := h
    refine ⟨hs.capacity_eq, hs.sinks_eq, hs.handed, hs.order, ⟨counted + 1, ?_, ?_⟩, hs.full⟩
    · simp only [Bus.countDropped, hdropped, UInt64.ofNat_add]
      rfl
    · have hpos := List.length_pos_of_mem hmem
      show s.published.length = s.accepted.length + (counted + 1) + (s.counting.erase t).length
      rw [List.length_erase_of_mem hmem, hlength]
      omega
  | clone | drop =>
    simp only [Publishing.step, Option.ite_none_left_eq_some, Option.some.injEq] at h
    obtain ⟨hhandles, rfl⟩ := h
    exact ⟨hs.capacity_eq, hs.sinks_eq, hs.handed.congr (hs.handed.live hhandles) rfl rfl rfl rfl, hs.order, hs.dropped, hs.full⟩
  | drain =>
    obtain ⟨bus, hdrain, rfl⟩ := Option.map_eq_some_iff.mp h
    obtain ⟨hsent, hcapacity, hsinks, hsame, -⟩ := drain_frame hdrain
    have haccepted : ({ s with bus := bus } : Publishing τ).accepted = s.accepted := hsent
    refine ⟨hcapacity.trans hs.capacity_eq, hsinks.trans hs.sinks_eq, drain_handed hs.handed hdrain, ?_,
      ⟨counted, hsame.trans hdropped, ?_⟩, ?_⟩
    · rw [haccepted]
      exact hs.order
    · rw [haccepted]
      exact hlength
    · rw [haccepted]
      exact hs.full

theorem reachable_piped {s : Publishing τ} (hs : (publishing capacity sinks scripts).Reachable s) :
    Piped capacity sinks s := by
  refine hs.invariant ?_ fun s a s' hi hstep => hi.step hstep
  exact ⟨rfl, rfl, fun _ _ => rfl, List.Sublist.slnil, ⟨0, rfl, rfl⟩, fun h => absurd rfl h⟩

theorem Piped.waiting {s : Publishing τ} (hs : Piped capacity sinks s) {i : ℕ} (hi : i < sinks) :
    ∃ waiting, s.bus.given i ++ waiting = s.accepted ∧ waiting.length ≤ capacity + 1 ∧
      (s.bus.worker = .exited → waiting = []) := by
  have hhanded := hs.handed
  have hfifo := s.bus.channel.fifo
  have hfits := s.bus.channel.fits
  rw [hs.capacity_eq] at hfits
  rw [← hs.sinks_eq] at hi
  unfold Handed at hhanded
  cases hw : s.bus.worker with
  | recv =>
    simp only [hw] at hhanded
    refine ⟨s.bus.channel.items, ?_, by omega, fun h => by cases h⟩
    rw [hhanded i hi, Publishing.accepted, hfifo]
  | publish event next =>
    simp only [hw] at hhanded
    obtain ⟨before, hreceived, hgiven⟩ := hhanded
    rw [hgiven i hi, Publishing.accepted, hfifo]
    by_cases hnext : i < next
    · rw [if_pos hnext]
      exact ⟨s.bus.channel.items, rfl, by omega, fun h => by cases h⟩
    · rw [if_neg hnext, hreceived]
      refine ⟨event :: s.bus.channel.items, by simp, ?_, fun h => by cases h⟩
      rw [List.length_cons]
      omega
  | exited =>
    simp only [hw] at hhanded
    obtain ⟨-, hitems, hgiven⟩ := hhanded
    refine ⟨[], ?_, by simp, fun _ => rfl⟩
    rw [hgiven i hi, Publishing.accepted, hfifo, hitems]

/-- **All sinks, in order.** A sink has been given the events that the bus took, in their order, up to those that wait.
The bus took them in the order of the calls. It counted the others, and there are none before it was full. -/
theorem sink_in_order {s : Publishing τ} (hs : (publishing capacity sinks scripts).Reachable s) {i : ℕ}
    (hi : i < sinks) :
    (∃ waiting, s.bus.given i ++ waiting = s.accepted ∧ waiting.length ≤ capacity + 1 ∧
      (s.bus.worker = .exited → waiting = [])) ∧
    s.accepted.Sublist s.published ∧
    s.bus.dropped = UInt64.ofNat (s.published.length - s.accepted.length - s.counting.length) ∧
    (s.accepted ≠ s.published → (capacity : ℕ) ≤ s.accepted.length) := by
  have hpiped := reachable_piped hs
  obtain ⟨counted, hdropped, hlength⟩ := hpiped.dropped
  refine ⟨hpiped.waiting hi, hpiped.order, ?_, hpiped.full⟩
  have hcounted : s.published.length - s.accepted.length - s.counting.length = counted := by omega
  rw [hcounted, hdropped]

/-! ## The events of one thread -/

/-- `owns t` is true of the events of the thread `t`, and of no other thread's. -/
def Owned (scripts : ℕ → List τ) (owns : ℕ → τ → Bool) : Prop := ∀ t u, ∀ e ∈ scripts u, owns t e = decide (t = u)

theorem published_of_thread {owns : ℕ → τ → Bool} (howned : Owned scripts owns) {s : Publishing τ}
    (hs : (publishing capacity sinks scripts).Reachable s) (t : ℕ) :
    s.published.filter (owns t) = (scripts t).take (s.positions t) := by
  refine hs.invariant (I := fun s => s.published.filter (owns t) = (scripts t).take (s.positions t)) rfl ?_
  intro s a s' ih h
  cases a with
  | publish u =>
    simp only [publishing, Publishing.step, Option.ite_none_left_eq_some] at h
    obtain ⟨event, hevent, rfl⟩ := Option.map_eq_some_iff.mp h.2
    have howns : owns t event = decide (t = u) := howned t u event (List.mem_of_getElem? hevent)
    simp only [Publishing.publish, List.filter_append, ih]
    by_cases htu : t = u
    · subst htu
      rw [Function.update_self, List.take_add_one, hevent]
      simp [howns]
    · rw [Function.update_of_ne htu]
      simp [howns, htu]
  | count u =>
    simp only [publishing, Publishing.step, Option.ite_none_right_eq_some, Option.some.injEq] at h
    obtain ⟨-, rfl⟩ := h
    exact ih
  | clone | drop =>
    simp only [publishing, Publishing.step, Option.ite_none_left_eq_some, Option.some.injEq] at h
    obtain ⟨-, rfl⟩ := h
    exact ih
  | drain =>
    obtain ⟨bus, -, rfl⟩ := Option.map_eq_some_iff.mp h
    exact ih

theorem Piped.accepted_eq {s : Publishing τ} (hs : Piped capacity sinks s) (hdropped : s.bus.dropped = 0)
    (hcounting : s.counting = []) (hlt : s.published.length < 2 ^ 64) : s.accepted = s.published := by
  obtain ⟨counted, hcounted, hlength⟩ := hs.dropped
  rw [hcounting, List.length_nil, Nat.add_zero] at hlength
  have hzero : counted = 0 := by
    have hmod : (UInt64.ofNat counted).toNat = 0 := by rw [← hcounted, hdropped, UInt64.toNat_zero]
    rw [UInt64.toNat_ofNat', Nat.mod_eq_of_lt (by omega)] at hmod
    exact hmod
  exact hs.order.eq_of_length (by omega)

end Run

/-! ## The spans of one request -/

theorem pollAll_id (b : ObservedBody) (polls : List (FramePoll × Nat)) :
    (b.pollAll polls).1.requestId = b.requestId ∧ ∀ e ∈ (b.pollAll polls).2, e.requestId = b.requestId := by
  induction polls generalizing b with
  | nil => exact ⟨rfl, fun e he => by cases he⟩
  | cons p polls ih =>
    obtain ⟨result, elapsed⟩ := p
    have hframe : (b.pollFrame result elapsed).1.requestId = b.requestId ∧
        ∀ e ∈ (b.pollFrame result elapsed).2, e.requestId = b.requestId := by
      unfold ObservedBody.pollFrame
      split
      · split
        · simp
        · simp
      · simp
    obtain ⟨hid, hevents⟩ := ih (b.pollFrame result elapsed).1
    rw [ObservedBody.pollAll]
    refine ⟨hid.trans hframe.1, fun e he => ?_⟩
    rcases List.mem_append.mp he with he | he
    · exact hframe.2 e he
    · exact (hevents e he).trans hframe.1

theorem requestSpans_id (st : HandlerState) (req : Request) (life : ObservedBody.Life) :
    ∀ e ∈ requestSpans st req life, e.requestId = st.requestId := by
  intro e he
  unfold requestSpans at he
  rcases List.mem_append.mp he with he | he
  · obtain ⟨effect, -, heffect⟩ := List.mem_filterMap.mp he
    cases effect with
    | span name duration =>
      cases heffect
      rfl
    | authorize | route | dispatch | onResponse => cases heffect
  · unfold bodySpans at he
    split at he
    · obtain ⟨hid, hevents⟩ := pollAll_id { requestId := st.requestId } life.polls
      unfold ObservedBody.live at he
      rcases List.mem_append.mp he with he | he
      · exact hevents e he
      · unfold ObservedBody.drop at he
        split at he
        · rw [List.mem_singleton.mp he]
          exact hid
        · cases he
    · cases he

/-- A request, all that it is answered, and what becomes of the body of its response. -/
structure Served where
  env : HandlerState
  request : Request
  life : ObservedBody.Life := {}

def Served.spans (r : Served) : List SpanEnd := requestSpans r.env r.request r.life

def spanScripts (requests : List Served) (t : ℕ) : List SpanEnd := (requests[t]?).elim [] Served.spans

theorem spanScripts_owned {requests : List Served} (hids : (requests.map fun r => r.env.requestId).Nodup) :
    Owned (spanScripts requests) fun t e => (requests[t]?).any fun r => e.requestId = r.env.requestId := by
  intro t u e he
  unfold spanScripts at he
  cases hu : requests[u]? with
  | none =>
    rw [hu] at he
    cases he
  | some r =>
    rw [hu] at he
    have hid : e.requestId = r.env.requestId := requestSpans_id _ _ _ e he
    by_cases htu : t = u
    · subst htu
      simp [hu, hid]
    · cases ht : requests[t]? with
      | none => simp [ht, htu]
      | some r' =>
        have hne : r.env.requestId ≠ r'.env.requestId := by
          intro heq
          refine htu ?_
          have hlt : t < (requests.map fun r => r.env.requestId).length := by
            rw [List.length_map]
            exact (List.getElem?_eq_some_iff.mp ht).1
          exact (List.getElem?_inj hlt hids).mp (by simp [ht, hu, heq])
        simp [ht, htu, hid, hne]

/-- **The spans of a request, in order.** Of many requests at a time, a sink gets the spans of each one in its order,
none twice and none of its own. It gets all of them if none was dropped and the worker is done. -/
theorem request_spans_in_order {capacity : ℕ+} {sinks : ℕ} {requests : List Served}
    (hids : (requests.map fun r => r.env.requestId).Nodup) {s : Publishing SpanEnd}
    (hs : (publishing capacity sinks (spanScripts requests)).Reachable s) {i : ℕ} (hi : i < sinks) {t : ℕ} {r : Served}
    (hr : requests[t]? = some r) :
    ((s.bus.given i).filter fun e => e.requestId = r.env.requestId).Sublist r.spans ∧
    (s.bus.worker = .exited → s.bus.dropped = 0 → s.counting = [] → s.published.length < 2 ^ 64 →
      s.positions t = r.spans.length →
      (s.bus.given i).filter (fun e => e.requestId = r.env.requestId) = r.spans) := by
  have hpiped := reachable_piped hs
  obtain ⟨waiting, hgiven, -, hdone⟩ := hpiped.waiting hi
  have hscript : spanScripts requests t = r.spans := by simp [spanScripts, hr]
  have hown : (s.published.filter fun e => e.requestId = r.env.requestId) = r.spans.take (s.positions t) := by
    have hpublished := published_of_thread (spanScripts_owned hids) hs t
    rw [hscript] at hpublished
    simpa [hr] using hpublished
  constructor
  · have hprefix : (s.bus.given i).Sublist s.published := by
      refine List.Sublist.trans ?_ hpiped.order
      rw [← hgiven]
      exact List.sublist_append_left _ _
    exact (hown ▸ hprefix.filter _).trans (List.take_sublist _ _)
  · intro hexited hdropped hcounting hlt hposition
    have haccepted := hpiped.accepted_eq hdropped hcounting hlt
    rw [hdone hexited, List.append_nil] at hgiven
    rw [hgiven, haccepted, hown, hposition, List.take_length]

/-! ## Two requests, and two sinks -/

/-- A response of one frame. -/
def streamed : Served :=
  ⟨demoState (.response 200 []), demoRequest, { polls := [(.frame (.data [104]), 3)], droppedAt := 5 }⟩

/-- An upstream that refuses the connection. -/
def unreachable : Served := ⟨{ demoState (.failed "connection refused") with requestId := 2 }, demoRequest, {}⟩

def streamedSpans : List SpanEnd :=
  [⟨1, .requestReceived, 0⟩, ⟨1, .requestQueued, 0⟩, ⟨1, .requestDispatched, 0⟩, ⟨1, .requestFirstToken, 3⟩,
    ⟨1, .requestCompleted, 5⟩]

def unreachableSpans : List SpanEnd := [⟨2, .requestReceived, 0⟩, ⟨2, .requestQueued, 0⟩, ⟨2, .requestDispatched, 0⟩]

theorem streamed_spans : streamed.spans = streamedSpans := by
  simp [Served.spans, streamed, requestSpans, handle, beforeRouting, mcpAttestation, forward, buildCoreRequest, finish,
    Except.map, demo_uri, demoState, demoRequest, Effect.published, publishSpan, Span.spanName, bodySpans]
  rfl

theorem unreachable_spans : unreachable.spans = unreachableSpans := by
  simp [Served.spans, unreachable, requestSpans, handle, beforeRouting, mcpAttestation, forward, buildCoreRequest, finish,
    Except.map, demo_uri, demoState, demoRequest, Effect.published, publishSpan, Span.spanName, bodySpans]
  rfl

def twoScripts (t : ℕ) : List SpanEnd := ([streamedSpans, unreachableSpans][t]?).elim [] id

theorem spanScripts_two : spanScripts [streamed, unreachable] = twoScripts := by
  funext t
  match t with
  | 0 => exact streamed_spans
  | 1 => exact unreachable_spans
  | _ + 2 => rfl

theorem refused_run : ∃ s, (publishing 1 2 twoScripts).Reachable s ∧
    s.published = [⟨1, .requestReceived, 0⟩, ⟨2, .requestReceived, 0⟩, ⟨2, .requestQueued, 0⟩] ∧
    s.accepted = [⟨1, .requestReceived, 0⟩, ⟨2, .requestQueued, 0⟩] ∧ s.bus.dropped = 1 ∧
    s.bus.given 0 = [⟨1, .requestReceived, 0⟩, ⟨2, .requestQueued, 0⟩] ∧
    s.bus.given 1 = [⟨1, .requestReceived, 0⟩] := by
  have hrun : Machine.Reachable _ _ := Machine.reachable_of_run
    (show (publishing 1 2 twoScripts).run [.publish 0, .publish 1, .count 1, .drain, .drain, .drain, .drain, .publish 1,
      .drain, .drain] = some _ from rfl)
  exact ⟨_, hrun, rfl, rfl, rfl, rfl, rfl⟩

theorem refused_in_order : ∃ s, (publishing 1 2 twoScripts).Reachable s ∧ s.bus.dropped = 1 ∧
    s.bus.given 1 ≠ s.bus.given 0 ∧ s.accepted.Sublist s.published ∧
    ∀ i < 2, ∃ waiting : List SpanEnd, s.bus.given i ++ waiting = s.accepted ∧ waiting.length ≤ 2 := by
  obtain ⟨s, hs, -, -, hdropped, hfirst, hsecond⟩ := refused_run
  refine ⟨s, hs, hdropped, by rw [hfirst, hsecond]; decide, (sink_in_order hs Nat.two_pos).2.1, fun i hi => ?_⟩
  obtain ⟨waiting, hgiven, hlen, -⟩ := (sink_in_order hs hi).1
  exact ⟨waiting, hgiven, hlen⟩

theorem both_run : ∃ s, (publishing 4 2 twoScripts).Reachable s ∧ s.bus.worker = .exited ∧ s.bus.dropped = 0 ∧
    s.counting = [] ∧ s.published.length = 8 ∧ s.positions 0 = 5 ∧ s.positions 1 = 3 := by
  have hrun : Machine.Reachable _ _ := Machine.reachable_of_run
    (show (publishing 4 2 twoScripts).run ([.publish 0, .publish 1, .publish 1, .publish 0] ++
      List.replicate 12 .drain ++ [.publish 0, .publish 1, .publish 0] ++ List.replicate 8 .drain ++ [.publish 0, .drop] ++
      List.replicate 13 .drain) = some _ from rfl)
  exact ⟨_, hrun, rfl, rfl, rfl, rfl, rfl, rfl⟩

theorem both_in_order : ∃ s, (publishing 4 2 (spanScripts [streamed, unreachable])).Reachable s ∧
    ∀ i < 2, (s.bus.given i).filter (fun e => e.requestId = 1) = streamedSpans ∧
      (s.bus.given i).filter (fun e => e.requestId = 2) = unreachableSpans := by
  obtain ⟨s, hs, hexited, hdropped, hcounting, hlength, hfirst, hsecond⟩ := both_run
  have hids : ([streamed, unreachable].map fun r => r.env.requestId).Nodup := by decide
  have hlt : s.published.length < 2 ^ 64 := by omega
  rw [← spanScripts_two] at hs
  refine ⟨s, hs, fun i hi => ⟨?_, ?_⟩⟩
  · rw [← streamed_spans]
    exact (request_spans_in_order hids hs hi (show [streamed, unreachable][0]? = some streamed from rfl)).2
      hexited hdropped hcounting hlt (by rw [hfirst, streamed_spans]; rfl)
  · rw [← unreachable_spans]
    exact (request_spans_in_order hids hs hi (show [streamed, unreachable][1]? = some unreachable from rfl)).2
      hexited hdropped hcounting hlt (by rw [hsecond, unreachable_spans]; rfl)

end Riftgate.Obs
