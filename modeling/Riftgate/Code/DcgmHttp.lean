import Riftgate.Lib.Cuts
import Riftgate.Code.Dcgm

/-!
# The request of a DCGM scrape: `riftgate-obs/src/gpu/dcgm.rs`

The endpoint, the exchange with the exporter, and what is taken as the body of its response. The operating system is a
parameter, and a timeout is in milliseconds.
-/

open Lib

namespace Riftgate.Dcgm

open Router

/-- `GpuPressureError`, with the failures of the exchange. -/
inductive ScrapeError where
  | scrapeFailed (message : String)
  | parse (message : String)
  deriving DecidableEq, Repr

def ScrapeError.ofReader : GpuPressureError → ScrapeError
  | .parse message => .parse message

/-! ## The endpoint -/

structure HttpEndpoint where
  host : List Char
  port : UInt16
  path : List Char
  deriving DecidableEq

def defaultPath : List Char := "/metrics".toList

def splitAuthority (withoutScheme : List Char) : List Char × List Char :=
  match splitOnce '/' withoutScheme with
  | some (authority, path) => (authority, '/' :: path)
  | none => (withoutScheme, defaultPath)

def splitPort (input authority : List Char) : Except ScrapeError (List Char × UInt16) :=
  match splitLast ':' authority with
  | some (host, port) =>
    match parseUnsigned (2 ^ 16) port with
    | some parsedPort => .ok (host, UInt16.ofNat parsedPort)
    | none => .error (.parse ("invalid scrape port in endpoint: " ++ String.ofList input))
  | none => .ok (authority, 80)

def HttpEndpoint.parse (input : List Char) : Except ScrapeError HttpEndpoint :=
  match stripStart "http://".toList input with
  | none => .error (.parse ("unsupported endpoint scheme: " ++ String.ofList input))
  | some withoutScheme =>
    let (authority, path) := splitAuthority withoutScheme
    if authority = [] then .error (.parse "missing scrape host")
    else do
      let (host, port) ← splitPort input authority
      if host = [] then .error (.parse "missing scrape host") else .ok ⟨host, port, path⟩

/-! ## The exchange -/

/-- What the operating system does with a connection. An error comes with its text, also where the response is not
UTF-8. -/
structure Network where
  Addr : Type
  Stream : Type
  toSocketAddrs : List Char → UInt16 → Except String (List Addr)
  connectTimeout : Addr → Nat → Except String Stream
  setReadTimeout : Stream → Nat → Except String Unit
  setWriteTimeout : Stream → Nat → Except String Unit
  writeAll : Stream → List Char → Except String Stream
  readToString : Stream → Except String (List Char)

/-- `map_err(|err| GpuPressureError::ScrapeFailed(err.to_string()))`. -/
def scrapeFailed {α : Type} : Except String α → Except ScrapeError α
  | .ok a => .ok a
  | .error err => .error (.scrapeFailed err)

def resolveSocketAddr (net : Network) (host : List Char) (port : UInt16) : Except ScrapeError net.Addr := do
  let addrs ← scrapeFailed (net.toSocketAddrs host port)
  match addrs with
  | address :: _ => .ok address
  | [] =>
    .error (.scrapeFailed ("no address resolved for " ++ String.ofList host ++ ":" ++ toString port.toNat))

def crlf : List Char := ['\r', '\n']

def isOkStatus (statusLine : List Char) : Bool :=
  "HTTP/1.1 200".toList.isPrefixOf statusLine || "HTTP/1.0 200".toList.isPrefixOf statusLine

def parseHttpResponseBody (response : List Char) : Except ScrapeError (List Char) :=
  match (splitText (crlf ++ crlf) response).or (splitText ['\n', '\n'] response) with
  | none => .error (.scrapeFailed "malformed HTTP response")
  | some (head, body) =>
    let statusLine := (lines head).head?.getD []
    if isOkStatus statusLine then .ok body
    else .error (.scrapeFailed ("unexpected scrape status: " ++ String.ofList statusLine))

def HttpEndpoint.request (endpoint : HttpEndpoint) : List Char :=
  "GET ".toList ++ endpoint.path ++ " HTTP/1.1\r\nHost: ".toList ++ endpoint.host ++
    "\r\nConnection: close\r\nAccept: text/plain\r\n\r\n".toList

/-- `DcgmScrapeSource`, with the fields of its request. -/
structure HttpScrapeSource extends DcgmScrapeSource where
  endpoint : List Char
  timeout : Nat := 2000

def HttpScrapeSource.scrapeMetrics (source : HttpScrapeSource) (net : Network) : Except ScrapeError (List Char) := do
  let endpoint ← HttpEndpoint.parse source.endpoint
  let address ← resolveSocketAddr net endpoint.host endpoint.port
  let stream ← scrapeFailed (net.connectTimeout address source.timeout)
  scrapeFailed (net.setReadTimeout stream source.timeout)
  scrapeFailed (net.setWriteTimeout stream source.timeout)
  let stream ← scrapeFailed (net.writeAll stream endpoint.request)
  let response ← scrapeFailed (net.readToString stream)
  parseHttpResponseBody response

def HttpScrapeSource.pollOnce {F : Type} [Float64 F] (source : HttpScrapeSource) (net : Network) :
    Except ScrapeError (List (GpuPressure F)) := do
  let body ← source.scrapeMetrics net
  let pressure ← (source.parseMetrics body).mapError ScrapeError.ofReader
  pure [pressure]

end Riftgate.Dcgm
