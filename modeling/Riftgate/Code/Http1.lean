import Riftgate.Code.Parser

/-!
# The HTTP/1.1 request parser: `riftgate-parser/src/http1.rs`

The head is parsed by `httparse`, which is a parameter: a function of the bytes that have not been consumed.
-/

open Lib

namespace Riftgate.Http1

open Mcp Parse

/-- `httparse::Error`, with the arm for errors that are still to come. -/
inductive HttparseError where
  | headerName
  | headerValue
  | newLine
  | token
  | status
  | version
  | tooManyHeaders
  | unknown
  deriving DecidableEq, Repr

/-- What `Request::parse` answers: `Partial`, `Complete(n)` with the headers, or an error. -/
inductive HttparseResult where
  | incomplete
  | complete (n : Nat) (headers : HeaderList)
  | error (e : HttparseError)
  deriving DecidableEq, Repr

abbrev Httparse := List Byte → HttparseResult

def maxHeaderBytes : Nat := 8 * 1024

inductive Phase where
  | awaitingHeaders
  | streamingBodyContentLength (remaining : Nat)
  | done
  | error
  deriving DecidableEq, Repr

structure Http1Parser where
  scratch : List Byte
  consumed : Nat
  phase : Phase
  deriving DecidableEq, Repr

def Http1Parser.new : Http1Parser := ⟨[], 0, .awaitingHeaders⟩

inductive Emit where
  | headers (h : HeaderList)
  | bodyRange (start stop : Nat)
  | bodyComplete
  | error (e : ParseError)
  deriving DecidableEq, Repr

/-! ## Framing -/

def parseContentLength (headers : HeaderList) : Option Nat :=
  ((headerListGet headers "content-length").bind fromUtf8).bind fun s =>
    parseUnsigned 18446744073709551616 (trim s.toList)

def isChunked (headers : HeaderList) : Bool :=
  ((headerListGet headers "transfer-encoding").map fun v => eqIgnoreAsciiCase v (bytesOf "chunked")).getD false

def chunkedReason : String := "chunked encoding lands in v0.2; v0.1 supports Content-Length only"

def httparseError (scratchLen consumed : Nat) : HttparseError → ParseError
  | .headerName | .headerValue | .newLine => .malformedHeader consumed
  | .token => .malformedRequestLine "invalid token in request line"
  | .status => .malformedRequestLine "invalid status (this parser handles requests)"
  | .version => .unsupportedHttpVersion "unknown"
  | .tooManyHeaders => .headerTooLarge scratchLen
  | .unknown => .malformedRequestLine "unknown httparse error (forward-compat)"

/-! ## The loop -/

/-- One turn of the loop of `feed`: what it emits, and whether it goes round again. -/
def turn (httparse : Httparse) (p : Http1Parser) : Http1Parser × List Emit × Bool :=
  match p.phase with
  | .awaitingHeaders =>
    if maxHeaderBytes < p.scratch.length then
      ({ p with phase := .error }, [.error (.headerTooLarge p.scratch.length)], false)
    else match httparse (p.scratch.drop p.consumed) with
      | .complete n parsed =>
        let headers := parsed.takeWhile fun h => h.1 ≠ ""
        if isChunked headers then
          ({ p with consumed := p.consumed + n, phase := .error },
            [.error (.invalidChunkedEncoding chunkedReason)], true)
        else
          let cl := (parseContentLength headers).getD 0
          if cl = 0 then
            ({ p with consumed := p.consumed + n, phase := .done }, [.headers headers, .bodyComplete], true)
          else
            ({ p with consumed := p.consumed + n, phase := .streamingBodyContentLength cl }, [.headers headers], true)
      | .incomplete => (p, [], false)
      | .error e =>
        ({ p with phase := .error }, [.error (httparseError p.scratch.length p.consumed e)], false)
  | .streamingBodyContentLength remaining =>
    let avail := p.scratch.length - p.consumed
    if avail = 0 then (p, [], false)
    else
      let take := min avail remaining
      let range := .bodyRange p.consumed (p.consumed + take)
      if remaining - take = 0 then
        ({ p with consumed := p.consumed + take, phase := .done }, [range, .bodyComplete], true)
      else
        ({ p with consumed := p.consumed + take, phase := .streamingBodyContentLength (remaining - take) },
          [range], true)
  | .done | .error => (p, [], false)

/-- At most so many turns. The head, the body and one turn that ends the loop are enough. -/
def loop (httparse : Httparse) : Nat → Http1Parser → Http1Parser × List Emit
  | 0, p => (p, [])
  | turns + 1, p =>
    match turn httparse p with
    | (p', emit, false) => (p', emit)
    | (p', emit, true) =>
      let (p'', emit') := loop httparse turns p'
      (p'', emit ++ emit')

def convert (scratch : List Byte) : Emit → ParseEvent
  | .headers h => .headersComplete h
  | .bodyRange start stop => .bodyChunk (slice scratch start stop)
  | .bodyComplete => .bodyComplete
  | .error e => .error e

def feed (httparse : Httparse) (p : Http1Parser) (bytes : List Byte) : Http1Parser × List ParseEvent :=
  if p.phase = .error then (p, [])
  else
    let (p', emit) := loop httparse 3 { p with scratch := p.scratch ++ bytes }
    (p', emit.map (convert p'.scratch))

def reset (_p : Http1Parser) : Http1Parser := ⟨[], 0, .awaitingHeaders⟩

end Riftgate.Http1
