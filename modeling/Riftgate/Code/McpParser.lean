import Riftgate.Code.Capability

/-!
# MCP bodies: `riftgate-mcp/src/parser.rs`

`serde_json` and SHA-256 are parameters: one reads the envelope out of the bytes and writes a value as bytes, the other
hashes them.
-/

open Lib

namespace Riftgate.McpParser

open Mcp

/-- `serde_json::Value`. A number is its text. -/
inductive Json where
  | null
  | bool (b : Bool)
  | number (literal : String)
  | string (s : String)
  | array (items : List Json)
  | object (fields : List (String × Json))

/-- `Value::get`. Only an object has fields. -/
def Json.get (v : Json) (field : String) : Option Json :=
  match v with
  | .object fields => fields.lookup field
  | _ => none

def Json.asStr : Json → Option String
  | .string s => some s
  | _ => none

structure JsonRpcEnvelope where
  jsonrpc : String
  method : String
  params : Json := .null

inductive ParseError where
  | json (error : String)
  | badVersion (version : String)
  | unknownMethod (method : String)
  | missingField (method field : String)
  deriving DecidableEq, Repr

def ParseError.text : ParseError → String
  | .json e => "JSON parse error: " ++ e
  | .badVersion v => "unexpected JSON-RPC version: expected \"2.0\", got \"" ++ v ++ "\""
  | .unknownMethod m => "unknown or unsupported MCP method: \"" ++ m ++ "\""
  | .missingField method field => "missing required field \"" ++ field ++ "\" in " ++ method ++ " params"

def stringField (params : Json) (method field : String) : Except ParseError String :=
  match (params.get field).bind Json.asStr with
  | some s => .ok s
  | none => .error (.missingField method field)

/-- What `parse` calls. -/
structure ParserLibs where
  fromSlice : List Byte → Except String JsonRpcEnvelope
  toVec : Json → Except String (List Byte)
  sha256 : List Byte → List Byte

/-- A value that cannot be written is hashed as no bytes. -/
def ParserLibs.sha256OfValue (libs : ParserLibs) (v : Json) : List Byte :=
  libs.sha256 (match libs.toVec v with
    | .ok bytes => bytes
    | .error _ => [])

def parse (libs : ParserLibs) (body : List Byte) : Except ParseError McpRequest :=
  match libs.fromSlice body with
  | .error e => .error (.json e)
  | .ok env =>
    if env.jsonrpc ≠ "2.0" then .error (.badVersion env.jsonrpc)
    else match env.method with
      | "tools/call" =>
        match stringField env.params "tools/call" "name" with
        | .error e => .error e
        | .ok name => .ok (.toolCall name (libs.sha256OfValue ((env.params.get "arguments").getD .null)))
      | "tools/list" => .ok .toolList
      | "resources/read" => (stringField env.params "resources/read" "uri").map .resourceRead
      | "resources/list" => .ok .resourceList
      | "prompts/get" => (stringField env.params "prompts/get" "name").map .promptGet
      | "prompts/list" => .ok .promptList
      | "initialize" => .ok (.lifecycle .init)
      | "ping" => .ok (.lifecycle .ping)
      | "shutdown" => .ok (.lifecycle .shutdown)
      | other => .error (.unknownMethod other)

end Riftgate.McpParser
