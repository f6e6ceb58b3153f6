import Riftgate.Lib.Machine
import Riftgate.Code.Broker

/-!
# The ids of requests: `RequestId::next` of `riftgate-core/src/types.rs`

The process has one counter. `handle` draws from it when a request arrives, and `emit_audit` in
`riftgate-mcp/src/allowlist.rs` draws for each record. Many requests run at a time and their steps interleave. A draw
has a number here, which the program does not keep.
-/

open Lib

namespace Riftgate.RequestIds

open Mcp McpParser Proxy Broker

inductive Phase where
  | received
  | auditing (event : McpAuditEvent) (draw : Nat) -- in `emit_audit`, between the draw and the append
  | answered (event : McpAuditEvent)
  | ended (log : List Effect) (response : Response)

structure Handling where
  env : HandlerState -- what the router, the upstream and the clocks answer to this request
  request : Request
  requestId : UInt64
  draw : Nat
  phase : Phase := .received

/-- A record in the WAL, and the request that it was written for. -/
structure Written where
  handler : Nat
  event : McpAuditEvent
  draw : Nat

structure State where
  counter : UInt64 := 1
  draws : Nat := 0
  handlers : List Handling := []
  records : List Written := []

inductive Label where
  | receive (env : HandlerState) (request : Request)
  | authorize (k : Nat) (now : SystemTime)
  | write (k : Nat) (ok : Bool)
  | finish (k : Nat)

section

variable (libs : ParserLibs) (hmac : Hmac) (ephemeral : SigningKey) (mcp : McpConfig)

/-- The state that `handle` works with, once the broker has its correlation id and its clock. -/
def Handling.gateway (h : Handling) (correlationId : UInt64) (now : SystemTime) : HandlerState :=
  mcpGateway libs hmac ephemeral mcp correlationId now { h.env with requestId := h.requestId }

/-- The event of the call that `handle` makes to the broker, if it makes one. -/
def Handling.audit (h : Handling) (correlationId : UInt64) (now : SystemTime) : Option McpAuditEvent :=
  match buildMcpBroker hmac ephemeral mcp correlationId now,
      (beforeRouting (h.gateway libs hmac ephemeral mcp correlationId now) h.request).1 with
  | some authorize, [.authorize request identity _] => some (authorize request identity).2
  | _, _ => none

def State.set (s : State) (k : Nat) (h : Handling) (phase : Phase) : State :=
  { s with handlers := s.handlers.set k { h with phase := phase } }

/-- `RequestId::next`. -/
def State.next (s : State) : State := { s with counter := s.counter + 1, draws := s.draws + 1 }

def State.step (s : State) : Label → Option State
  | .receive env request =>
    some { s.next with handlers := s.handlers ++ [⟨env, request, s.counter, s.draws, .received⟩] }
  | .authorize k now => (s.handlers[k]?).bind fun h =>
    match h.phase, h.audit libs hmac ephemeral mcp s.counter now with
    | .received, some event => some (s.next.set k h (.auditing event s.draws))
    | _, _ => none
  | .write k ok => (s.handlers[k]?).bind fun h =>
    match h.phase with
    | .auditing event draw =>
      some { s.set k h (.answered event) with records := s.records ++ if ok then [⟨k, event, draw⟩] else [] }
    | _ => none
  | .finish k => (s.handlers[k]?).bind fun h =>
    match h.phase with
    | .received =>
      -- No call of the broker, so its correlation id and clock do not matter.
      let (log, response) := handle (h.gateway libs hmac ephemeral mcp 0 0) h.request
      if (h.audit libs hmac ephemeral mcp 0 0).isNone then some (s.set k h (.ended log response)) else none
    | .answered event =>
      let (log, response) := handle (h.gateway libs hmac ephemeral mcp event.correlationId event.timestamp) h.request
      some (s.set k h (.ended log response))
    | _ => none

def process : Machine State Label where
  init := {}
  step := State.step libs hmac ephemeral mcp

end

end Riftgate.RequestIds
