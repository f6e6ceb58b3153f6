import Riftgate.Code.Proxy
import Riftgate.Code.Routers

/-!
# Filters: `riftgate-core/src/filter.rs`, and `chain.rs` and `wasm.rs` of `riftgate-filter`

A filter is shared, and what it keeps is behind locks. `σ` is what all filters keep, together with what the plugins
read of the outside. What is only logged is left out.
-/

open Lib

namespace Riftgate.Filters

open Router Proxy

structure Request where
  id : UInt64
  method : Method
  path : String
  headers : List (String × List Byte)
  body : Body
  deriving DecidableEq, Repr

structure Response where
  id : UInt64
  status : StatusCode
  headers : List (String × List Byte)
  body : Body
  deriving DecidableEq, Repr

inductive FilterAction where
  | continue
  | terminate (status : StatusCode)
  deriving DecidableEq, Repr

/-- The trait. Most filters look at requests only. -/
structure Filter (σ : Type) where
  onRequest : σ → Request → σ × Request × FilterAction
  onResponse : σ → Response → σ × Response × FilterAction := fun s resp => (s, resp, .continue)

variable {σ : Type}

def identityFilter : Filter σ where
  onRequest s req := (s, req, .continue)

/-- It logs both, and changes neither. -/
def loggingFilter : Filter σ where
  onRequest s req := (s, req, .continue)
  onResponse s resp := (s, resp, .continue)

/-! ## The chain -/

structure FilterChain (σ : Type) where
  filters : List (Filter σ)

/-- The loop over requests. -/
def requestLoop : List (Filter σ) → σ → Request → σ × Request × FilterAction
  | [], s, req => (s, req, .continue)
  | f :: filters, s, req =>
    match f.onRequest s req with
    | (s, req, .continue) => requestLoop filters s req
    | (s, req, .terminate status) => (s, req, .terminate status)

/-- The loop over responses. -/
def responseLoop : List (Filter σ) → σ → Response → σ × Response × FilterAction
  | [], s, resp => (s, resp, .continue)
  | f :: filters, s, resp =>
    match f.onResponse s resp with
    | (s, resp, .continue) => responseLoop filters s resp
    | (s, resp, .terminate status) => (s, resp, .terminate status)

/-- A chain is a filter itself. -/
def FilterChain.filter (chain : FilterChain σ) : Filter σ where
  onRequest := requestLoop chain.filters
  onResponse := responseLoop chain.filters.reverse

/-! ## Plugins -/

structure RequestPayload where
  method : String
  path : String
  headers : List (String × String)
  body : List Byte
  deriving DecidableEq, Repr

structure ResponsePayload where
  status : UInt16
  headers : List (String × String)
  body : List Byte
  deriving DecidableEq, Repr

/-- What a component exports as `action`. -/
inductive Action where
  | continue
  | terminate (code : UInt16)
  deriving DecidableEq, Repr

/-- The errors of a call. -/
inductive WasmFilterError where
  | instantiateFailed (why : String)
  | executeFailed (why : String)
  deriving DecidableEq, Repr

/-- A loaded component, in the hands of wasmtime. Each call is on a fresh instance. -/
structure WasmRuntime (σ : Type) where
  debugMethod : Method → String
  fromUtf8Lossy : List Byte → String
  instantiate : σ → Except String Unit
  callOnRequest : σ → RequestPayload → σ × Except String Action
  callOnResponse : σ → ResponsePayload → σ × Except String Action

def mapAction : Action → FilterAction
  | .continue => .continue
  | .terminate code => .terminate ⟨code⟩

namespace WasmRuntime

def requestPayload (rt : WasmRuntime σ) (req : Request) : RequestPayload where
  method := rt.debugMethod req.method
  path := req.path
  headers := req.headers.map fun h => (h.1, rt.fromUtf8Lossy h.2)
  body := req.body.asSlice

def responsePayload (rt : WasmRuntime σ) (resp : Response) : ResponsePayload where
  status := resp.status.code
  headers := resp.headers.map fun h => (h.1, rt.fromUtf8Lossy h.2)
  body := resp.body.asSlice

/-- Instantiate, and call an export. -/
def invoke {π : Type} (rt : WasmRuntime σ) (call : σ → π → σ × Except String Action) (s : σ) (payload : π) :
    σ × Except WasmFilterError FilterAction :=
  match rt.instantiate s with
  | .error e => (s, .error (.instantiateFailed e))
  | .ok () =>
    match call s payload with
    | (s, .error e) => (s, .error (.executeFailed e))
    | (s, .ok action) => (s, .ok (mapAction action))

def onRequest (rt : WasmRuntime σ) (s : σ) (req : Request) : σ × Except WasmFilterError FilterAction :=
  rt.invoke rt.callOnRequest s (rt.requestPayload req)

def onResponse (rt : WasmRuntime σ) (s : σ) (resp : Response) : σ × Except WasmFilterError FilterAction :=
  rt.invoke rt.callOnResponse s (rt.responsePayload resp)

end WasmRuntime

/-- A scaffold has no runtime. -/
structure WasmFilter (σ : Type) where
  runtime : Option (WasmRuntime σ)

def internalServerError : StatusCode := ⟨500⟩

def orTerminate : Except WasmFilterError FilterAction → FilterAction
  | .ok action => action
  | .error _ => .terminate internalServerError

def WasmFilter.filter (w : WasmFilter σ) : Filter σ where
  onRequest s req :=
    match w.runtime with
    | none => (s, req, .continue)
    | some rt => ((rt.onRequest s req).1, req, orTerminate (rt.onRequest s req).2)
  onResponse s resp :=
    match w.runtime with
    | none => (s, resp, .continue)
    | some rt => ((rt.onResponse s resp).1, resp, orTerminate (rt.onResponse s resp).2)

end Riftgate.Filters
