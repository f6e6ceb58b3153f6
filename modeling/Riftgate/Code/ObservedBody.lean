import Riftgate.Code.Proxy

/-!
# Spans of a request: `publish_span` and `ObservedBody` of `riftgate/src/proxy.rs`

The body of a forwarded response outlives `handle`. The server polls it as often as it likes, and drops it once. What
the bus does with an event is not followed up.
-/

open Lib

namespace Riftgate.Proxy

/-- `riftgate-obs/src/spans.rs`. -/
inductive SpanName where
  | requestReceived
  | requestQueued
  | requestDispatched
  | requestFirstToken
  | requestCompleted
  | requestRejected
  deriving DecidableEq, Repr

def Span.spanName : Span → SpanName
  | .requestReceived => .requestReceived
  | .requestQueued => .requestQueued
  | .requestDispatched => .requestDispatched
  | .requestCompleted => .requestCompleted
  | .requestRejected => .requestRejected

/-- `ObservabilityEvent::SpanEnd`. -/
structure SpanEnd where
  requestId : UInt64
  name : SpanName
  duration : Nat
  deriving DecidableEq, Repr

def publishSpan (id : UInt64) (name : SpanName) (duration : Nat) : SpanEnd := ⟨id, name, duration⟩

def Effect.published (id : UInt64) : Effect → Option SpanEnd
  | .span name duration => some (publishSpan id name.spanName duration)
  | _ => none

/-! ## The body -/

inductive Frame where
  | data (bytes : List Byte)
  | trailers (headers : Headers)
  deriving DecidableEq, Repr

/-- What `poll_frame` of the inner body answers. -/
inductive FramePoll where
  | pending
  | frame (f : Frame)
  | error (e : String)
  | ended
  deriving DecidableEq, Repr

structure ObservedBody where
  firstSeen : Bool := false
  completed : Bool := false
  requestId : UInt64
  deriving DecidableEq, Repr

namespace ObservedBody

def pollFrame (b : ObservedBody) (result : FramePoll) (elapsed : Nat) : ObservedBody × List SpanEnd :=
  match result with
  | .frame (.data bytes) =>
    if b.firstSeen = false ∧ bytes ≠ [] then
      ({ b with firstSeen := true }, [⟨b.requestId, .requestFirstToken, elapsed⟩])
    else (b, [])
  | _ => (b, [])

def drop (b : ObservedBody) (elapsed : Nat) : ObservedBody × List SpanEnd :=
  if b.completed = false then ({ b with completed := true }, [⟨b.requestId, .requestCompleted, elapsed⟩]) else (b, [])

/-- What the server does with a body. Each poll and the drop come with the time since the request started. -/
structure Life where
  polls : List (FramePoll × Nat) := []
  droppedAt : Nat := 0
  deriving DecidableEq, Repr

def pollAll (b : ObservedBody) : List (FramePoll × Nat) → ObservedBody × List SpanEnd
  | [] => (b, [])
  | (result, elapsed) :: polls =>
    let (b, events) := b.pollFrame result elapsed
    let (b, later) := b.pollAll polls
    (b, events ++ later)

def live (b : ObservedBody) (life : Life) : List SpanEnd :=
  let (b, events) := b.pollAll life.polls
  events ++ (b.drop life.droppedAt).2

end ObservedBody

/-- The body of an upstream response is observed. The others are not. -/
def bodySpans (id : UInt64) (response : Response) (life : ObservedBody.Life) : List SpanEnd :=
  match response with
  | .forwarded _ _ => ObservedBody.live { requestId := id } life
  | _ => []

/-- All that a request publishes: what `handle` does, and then what the body of its response does. -/
def requestSpans (st : HandlerState) (req : Request) (life : ObservedBody.Life) : List SpanEnd :=
  let (log, response) := handle st req
  log.filterMap (Effect.published st.requestId) ++ bodySpans st.requestId response life

end Riftgate.Proxy
