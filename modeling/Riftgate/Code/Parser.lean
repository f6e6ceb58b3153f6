import Riftgate.Code.Allowlist
import Riftgate.Lib.Text

/-!
# Parse events: `riftgate-core/src/parser.rs`

Also the header list of `riftgate-core/src/request.rs` and the cancellation of `riftgate-core/src/cancel.rs`. The
slices of an event are its bytes.
-/

open Lib

namespace Riftgate.Parse

open Mcp

/-! ## Headers -/

/-- Names in their original case, in the order of insertion. -/
abbrev HeaderList := List (String × List Byte)

/-- The first value of the name, in any letter case. -/
def headerListGet (headers : HeaderList) (name : String) : Option (List Byte) :=
  (headers.find? fun h => eqIgnoreAsciiCase (bytesOf h.1) (bytesOf name)).map Prod.snd

/-! ## Cancellation -/

inductive CancelCause where
  | notCancelled
  | droppedByClient
  | deadlineExceeded
  | upstreamFailed
  | hedgeLost
  | filterTerminated
  | draining
  | other
  deriving DecidableEq, Repr

/-- What a driver sees: the token and the cause are shared with the cancel side. -/
structure CancellationDriver where
  isCancelled : Bool
  cause : CancelCause
  deriving DecidableEq, Repr

/-! ## Events -/

inductive ParseError where
  | headerTooLarge (bytes : Nat)
  | invalidChunkedEncoding (reason : String)
  | malformedRequestLine (reason : String)
  | malformedHeader (offset : Nat)
  | malformedSse (reason : String)
  | unsupportedHttpVersion (version : String)
  deriving DecidableEq, Repr

inductive ParseEvent where
  | headersComplete (headers : HeaderList)
  | bodyChunk (bytes : List Byte)
  | bodyComplete
  | sseToken (bytes : List Byte)
  | sseDone
  | cancelled (bytesSeen : UInt64) (cause : CancelCause)
  | error (e : ParseError)
  deriving DecidableEq, Repr

/-- A slice `buf[start..stop]`. -/
def slice (buf : List Byte) (start stop : Nat) : List Byte := (buf.drop start).take (stop - start)

end Riftgate.Parse
