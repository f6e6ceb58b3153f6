import Riftgate.Code.Parser

/-!
# The SSE framer: `riftgate-parser/src/sse.rs`

Tokens are ranges of an output buffer that every feed clears. The counter of bytes wraps at 64 bits.
-/

open Lib

namespace Riftgate.Sse

open Mcp Parse

inductive Phase where
  | reading
  | done
  | error
  | cancelled
  deriving DecidableEq, Repr

structure SseFramer where
  lineBuf : List Byte
  currentEvent : List Byte
  outputBuffer : List Byte
  bytesSeen : UInt64
  cancellation : Option CancellationDriver
  phase : Phase
  deriving DecidableEq, Repr

def SseFramer.new : SseFramer := ⟨[], [], [], 0, none, .reading⟩

def SseFramer.withCancellation (driver : CancellationDriver) : SseFramer :=
  { SseFramer.new with cancellation := some driver }

inductive Emit where
  | token (start stop : Nat)
  | done
  | cancelled (cause : CancelCause)
  | error (e : ParseError)
  deriving DecidableEq, Repr

/-! ## Lines -/

def lineFeed : Byte := 10
def carriageReturn : Byte := 13

/-- The payload of a `data:` line, without one blank after the colon. -/
def dataPayload (rest : List Byte) : List Byte := if rest.head? = some 32 then rest.tail else rest

/-- `process_line`: the current event after a line. -/
def processLine (line currentEvent : List Byte) : List Byte :=
  let line := if line.getLast? = some carriageReturn then line.dropLast else line
  if line.head? = some 58 then currentEvent -- a comment
  else if (bytesOf "data:").isPrefixOf line then
    (if currentEvent = [] then [] else currentEvent ++ [lineFeed]) ++ dataPayload (line.drop 5)
  else currentEvent

def doneSentinel : List Byte := bytesOf "[DONE]"

def maxLineBytes : Nat := 1024 * 1024

def lineTooLong : ParseError := .malformedSse "single SSE line exceeded 1 MiB"

/-! ## The loop -/

/-- One byte: what is emitted, and whether the loop breaks. -/
def byteStep (f : SseFramer) (b : Byte) : SseFramer × List Emit × Bool :=
  if b = lineFeed then
    let current := processLine f.lineBuf f.currentEvent
    let lineWasBlank := f.lineBuf = [] ∨ f.lineBuf = [carriageReturn]
    if lineWasBlank ∧ current ≠ [] then
      if current = doneSentinel then
        ({ f with lineBuf := [], currentEvent := [], phase := .done }, [.done], true)
      else
        let start := f.outputBuffer.length
        let stop := (f.outputBuffer ++ current).length
        ({ f with
            lineBuf := []
            currentEvent := []
            outputBuffer := f.outputBuffer ++ current
            bytesSeen := f.bytesSeen + UInt64.ofNat (stop - start) }, [.token start stop], false)
    else ({ f with lineBuf := [], currentEvent := current }, [], false)
  else
    let line := f.lineBuf ++ [b]
    if maxLineBytes < line.length then ({ f with lineBuf := line, phase := .error }, [.error lineTooLong], true)
    else ({ f with lineBuf := line }, [], false)

def feedBytes : SseFramer → List Byte → SseFramer × List Emit
  | f, [] => (f, [])
  | f, b :: bytes =>
    match byteStep f b with
    | (f', emit, true) => (f', emit)
    | (f', emit, false) =>
      let (f'', emit') := feedBytes f' bytes
      (f'', emit ++ emit')

def convert (outputBuffer : List Byte) (bytesSeen : UInt64) : Emit → ParseEvent
  | .token start stop => .sseToken (slice outputBuffer start stop)
  | .done => .sseDone
  | .cancelled cause => .cancelled bytesSeen cause
  | .error e => .error e

/-- The way out at the cancellation gate: no range is looked up. -/
def finalize (bytesSeen : UInt64) : Emit → ParseEvent
  | .cancelled cause => .cancelled bytesSeen cause
  | .error e => .error e
  | .token _ _ | .done => .sseDone

def feed (f : SseFramer) (bytes : List Byte) : SseFramer × List ParseEvent :=
  let f := { f with outputBuffer := [] }
  if f.phase ≠ .reading then (f, [])
  else match f.cancellation.filter CancellationDriver.isCancelled with
    | some driver => ({ f with phase := .cancelled }, [.cancelled driver.cause].map (finalize f.bytesSeen))
    | none =>
      let (f', emit) := feedBytes f bytes
      (f', emit.map (convert f'.outputBuffer f'.bytesSeen))

def reset (f : SseFramer) : SseFramer :=
  { f with lineBuf := [], currentEvent := [], outputBuffer := [], bytesSeen := 0, phase := .reading }

end Riftgate.Sse
