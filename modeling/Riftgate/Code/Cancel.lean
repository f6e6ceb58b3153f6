import Riftgate.Lib.Machine
import Riftgate.Code.Sse

/-!
# Cancelling a stream: `riftgate-core/src/cancel.rs`

`trip` is two writes, the cause and then the token, and a feed reads the token and then the cause. Each of them is
a step. Any number of `cancel` calls share the `Cancellation`. Its drop owns it: no call is under way when the drop
begins, and none begins later. The framer keeps a driver, so the drop never finds the only reference.
-/

open Lib

namespace Riftgate.Sse

open Mcp Parse

/-- `cause as u8`. -/
def toU8 : CancelCause → UInt8
  | .notCancelled => 0
  | .droppedByClient => 1
  | .deadlineExceeded => 2
  | .upstreamFailed => 3
  | .hedgeLost => 4
  | .filterTerminated => 5
  | .draining => 6
  | .other => 7

def fromU8 : UInt8 → CancelCause
  | 1 => .droppedByClient
  | 2 => .deadlineExceeded
  | 3 => .upstreamFailed
  | 4 => .hedgeLost
  | 5 => .filterTerminated
  | 6 => .draining
  | 7 => .other
  | _ => .notCancelled

structure CancelState where
  token : Bool := false
  cause : UInt8 := toU8 .notCancelled
  deriving DecidableEq, Repr

/-- The compare-exchange of `trip`. -/
def CancelState.exchange (c : CancelState) (cause : CancelCause) : CancelState :=
  if c.cause = toU8 .notCancelled then { c with cause := toU8 cause } else c

def CancelState.observedCause (c : CancelState) : CancelCause := fromU8 c.cause

inductive DropAt where
  | alive
  | exchange
  | trip
  | dropped
  deriving DecidableEq, Repr

inductive FeedAt where
  | idle
  | gate (bytes : List Byte)
  | cause (bytes : List Byte)
  | loop (bytes : List Byte)
  deriving DecidableEq, Repr

structure Stream where
  cancel : CancelState := {}
  /-- The `cancel` calls between their two writes. -/
  calls : ℕ := 0
  drop : DropAt := .alive
  framer : SseFramer := .withCancellation ⟨false, .notCancelled⟩
  feed : FeedAt := .idle
  /-- The cause of the first exchange that succeeded. -/
  winner : Option CancelCause := none
  /-- Whether the token was set when the feed under way began. -/
  late : Bool := false
  /-- Since the framer was made or reset. -/
  events : List ParseEvent := []
  /-- The events of each feed, and whether it was late. -/
  feeds : List (Bool × List ParseEvent) := []
  deriving DecidableEq, Repr

inductive Label where
  | cancel (cause : CancelCause)
  | trip
  | drop
  | dropExchange
  | dropTrip
  | feed (bytes : List Byte)
  | readToken
  | readCause
  | loop
  | reset
  deriving DecidableEq, Repr

namespace Stream

def exchange (s : Stream) (cause : CancelCause) : Stream :=
  { s with
    cancel := s.cancel.exchange cause
    winner := if s.cancel.cause = toU8 .notCancelled then s.winner.or (some cause) else s.winner }

def setToken (s : Stream) : Stream := { s with cancel := { s.cancel with token := true } }

/-- The feed returns. -/
def finish (s : Stream) (late : Bool) (r : SseFramer × List ParseEvent) : Stream :=
  { s with framer := r.1, feed := .idle, events := s.events ++ r.2, feeds := s.feeds ++ [(late, r.2)] }

/-- What the driver of the framer sees. -/
def seen (s : Stream) (driver : CancellationDriver) : SseFramer := { s.framer with cancellation := some driver }

def step (dropCause : CancelCause) (s : Stream) : Label → Option Stream
  | .cancel cause =>
    if s.drop = .alive ∧ cause ≠ .notCancelled then some { s.exchange cause with calls := s.calls + 1 } else none
  | .trip => if 0 < s.calls then some { s.setToken with calls := s.calls - 1 } else none
  | .drop =>
    if s.drop = .alive ∧ s.calls = 0 then some { s with drop := if s.cancel.token then .dropped else .exchange }
    else none
  | .dropExchange => if s.drop = .exchange then some { s.exchange dropCause with drop := .trip } else none
  | .dropTrip => if s.drop = .trip then some { s.setToken with drop := .dropped } else none
  | .feed bytes =>
    if s.feed ≠ .idle then none
    else if s.framer.phase ≠ .reading then some (s.finish s.cancel.token (Sse.feed s.framer bytes))
    else some { s with feed := .gate bytes, late := s.cancel.token }
  | .readToken =>
    match s.feed with
    | .gate bytes => some { s with feed := if s.cancel.token then .cause bytes else .loop bytes }
    | _ => none
  | .readCause =>
    match s.feed with
    | .cause bytes => some (s.finish s.late (Sse.feed (s.seen ⟨true, s.cancel.observedCause⟩) bytes))
    | _ => none
  | .loop =>
    match s.feed with
    | .loop bytes => some (s.finish s.late (Sse.feed (s.seen ⟨false, .notCancelled⟩) bytes))
    | _ => none
  | .reset => if s.feed = .idle then some { s with framer := Sse.reset s.framer, events := [] } else none

end Stream

def streams (dropCause : CancelCause) : Machine Stream Label where
  init := {}
  step := Stream.step dropCause

end Riftgate.Sse
