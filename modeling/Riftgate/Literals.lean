import Riftgate.ApiKeys
import Riftgate.Lib.Literals

/-!
# The literals of a rendered configuration

The operator quotes a string with its debug form, and the gateway reads a TOML basic string. The two agree on a string
whose characters are all portable.
-/

open Lib

namespace Riftgate.Operator

open Mcp Tenant Broker

/-- The debug form of a string, as `renderConfig` is given it. -/
def debugForm (t : CharTables) (s : String) : String := String.ofList (debugStr t s.toList)

/-! ## Pieces -/

/-- A rendered configuration is made of fixed text and of quoted strings. -/
inductive Piece where
  | text (s : String)
  | literal (s : String)

def Piece.write (debug : String → String) : Piece → String
  | .text s => s
  | .literal s => debug s

def writeAll (debug : String → String) (l : List Piece) : String := String.join (l.map (Piece.write debug))

@[simp] theorem writeAll_nil (debug : String → String) : writeAll debug [] = "" := rfl

@[simp] theorem writeAll_text (debug : String → String) (s : String) (l : List Piece) :
    writeAll debug (.text s :: l) = s ++ writeAll debug l := by
  simp [writeAll, Piece.write]

@[simp] theorem writeAll_literal (debug : String → String) (s : String) (l : List Piece) :
    writeAll debug (.literal s :: l) = debug s ++ writeAll debug l := by
  simp [writeAll, Piece.write]

@[simp] theorem writeAll_append (debug : String → String) (l l' : List Piece) :
    writeAll debug (l ++ l') = writeAll debug l ++ writeAll debug l' := by
  simp [writeAll]

theorem writeAll_flatMap {α : Type} (debug : String → String) (f : α → List Piece) (l : List α) :
    writeAll debug (l.flatMap f) = String.join (l.map fun a => writeAll debug (f a)) := by
  induction l with
  | nil => rfl
  | cons a l ih => rw [List.flatMap_cons, writeAll_append, ih, List.map_cons, String.join_cons]

def arrayPieces (v : List String) : List Piece :=
  [.text "["] ++ (v.map Piece.literal).intersperse (.text ", ") ++ [.text "]"]

def tenantPieces (name : String) (mcp : McpRouteConfig) : List Piece :=
  [.text "[mcp.tenants.", .text (sanitizeTomlKey name), .text "]\n"] ++
  [.text "allowed_tools = "] ++ arrayPieces mcp.allowedTools ++ [.text "\n"] ++
  [.text "denied_tools = "] ++ arrayPieces mcp.deniedTools ++ [.text "\n"] ++
  [.text "allowed_resource_prefixes = "] ++ arrayPieces mcp.allowedResourcePrefixes ++ [.text "\n\n"]

def mcpPieces (routes : List (String × RiftgateRouteSpec)) : List Piece :=
  if mcpRoutes routes = [] then []
  else .text "[mcp]\nenforce = true\n\n" :: (mcpRoutes routes).flatMap fun route => tenantPieces route.1 route.2

def multitenancyPieces (apiKeys : Table String String) : List Piece :=
  if apiKeys.entries = [] then []
  else [.text "[multitenancy]\nmode = \"api-key\"\n\n[multitenancy.api_keys]\n"] ++
    ((apiKeys.pairs.mergeSort fun a b => decide (a.1 ≤ b.1)).flatMap fun p =>
      [.literal p.1, .text " = ", .literal p.2, .text "\n"]) ++ [.text "\n"]

def backendPieces (backends : List (String × RiftgateBackendSpec)) : List Piece :=
  match backends.head? with
  | none => []
  | some (_, b) =>
    [.text "[backend]\n"] ++ ((b.url.map fun url => [.text "url = ", .literal url, .text "\n"]).getD []) ++
      [.text "timeout_ms = ", .text (toString b.timeoutMs.toNat), .text "\n\n"]

section

variable (gateway : RiftgateSpec) (backends : List (String × RiftgateBackendSpec))
  (routes : List (String × RiftgateRouteSpec)) (apiKeys : Table String String)

def configPieces : List Piece :=
  [.text "[server]\nlisten_addr = ", .literal gateway.listenAddr, .text "\n\n"] ++ backendPieces backends ++
  [.text "[obs]\notel_endpoint = ", .literal gateway.obsEndpoint, .text "\n\n[log]\nlevel = ",
    .literal gateway.logLevel, .text "\n\n"] ++ mcpPieces routes ++ multitenancyPieces apiKeys

variable (debug : String → String)

theorem writeAll_array (v : List String) : writeAll debug (arrayPieces v) = toTomlStringArray debug v := by
  have hitems : writeAll debug ((v.map Piece.literal).intersperse (.text ", ")) = ", ".intercalate (v.map debug) := by
    induction v with
    | nil => rfl
    | cons a v ih =>
      cases v with
      | nil => simp
      | cons b v => simp_all [String.append_assoc]
  unfold arrayPieces toTomlStringArray
  rw [writeAll_append, writeAll_append, hitems, writeAll_text, writeAll_text, writeAll_nil, String.append_empty,
    String.append_empty]

theorem writeAll_tenant (name : String) (mcp : McpRouteConfig) :
    writeAll debug (tenantPieces name mcp) = renderTenant debug name mcp := by
  unfold tenantPieces renderTenant
  simp only [writeAll_append, writeAll_text, writeAll_nil, writeAll_array, String.append_empty]
  simp only [String.append_assoc]

theorem writeAll_mcp : writeAll debug (mcpPieces routes) = renderMcp debug routes := by
  unfold mcpPieces renderMcp
  split
  · rfl
  · simp only [writeAll_text, writeAll_flatMap, writeAll_tenant]

theorem writeAll_multitenancy : writeAll debug (multitenancyPieces apiKeys) = renderMultitenancy debug apiKeys := by
  unfold multitenancyPieces renderMultitenancy
  split
  · rfl
  · simp only [writeAll_append, writeAll_text, writeAll_literal, writeAll_nil, writeAll_flatMap, String.append_assoc,
      String.append_empty]

theorem writeAll_backend : writeAll debug (backendPieces backends) = renderBackend debug backends := by
  unfold backendPieces renderBackend
  cases backends.head? with
  | none => rfl
  | some b =>
    cases hurl : b.2.url with
    | none =>
      simp only [hurl, writeAll_append, writeAll_text, writeAll_nil, String.append_assoc, String.append_empty,
        Option.map_none, Option.getD_none]
    | some url =>
      simp only [hurl, writeAll_append, writeAll_text, writeAll_literal, writeAll_nil, String.append_assoc,
        String.append_empty, Option.map_some, Option.getD_some]

theorem renderConfig_eq_writeAll :
    renderConfig debug gateway backends routes apiKeys =
      writeAll debug (configPieces gateway backends routes apiKeys) := by
  unfold configPieces renderConfig
  simp only [writeAll_append, writeAll_text, writeAll_literal, writeAll_nil, writeAll_backend, writeAll_mcp,
    writeAll_multitenancy, String.append_empty]
  simp only [String.append_assoc]

/-! ## The strings that are placed -/

/-- The strings of the custom resources and of the Secrets that `renderConfig` quotes. -/
inductive Placed : String → Prop
  | listenAddr : Placed gateway.listenAddr
  | url {name : String} {b : RiftgateBackendSpec} {url : String} (hfirst : (name, b) ∈ backends.head?)
      (hurl : url ∈ b.url) : Placed url
  | obsEndpoint : Placed gateway.obsEndpoint
  | logLevel : Placed gateway.logLevel
  | tool {route : String × McpRouteConfig} {s : String} (hroute : route ∈ mcpRoutes routes)
      (hs : s ∈ route.2.allowedTools ++ route.2.deniedTools ++ route.2.allowedResourcePrefixes) : Placed s
  | hash {k tenant : String} (hkey : (k, tenant) ∈ apiKeys.pairs) : Placed k
  | tenant {k tenant : String} (hkey : (k, tenant) ∈ apiKeys.pairs) : Placed tenant

theorem mem_arrayPieces {v : List String} {s : String} : .literal s ∈ arrayPieces v ↔ s ∈ v := by
  have hitems : .literal s ∈ (v.map Piece.literal).intersperse (.text ", ") ↔ s ∈ v := by
    induction v with
    | nil => simp
    | cons a v ih =>
      cases v with
      | nil => simp
      | cons b v => simp_all
  simp [arrayPieces, hitems]

theorem mem_mcpPieces {s : String} :
    .literal s ∈ mcpPieces routes ↔ ∃ route ∈ mcpRoutes routes,
      s ∈ route.2.allowedTools ++ route.2.deniedTools ++ route.2.allowedResourcePrefixes := by
  have htenant : ∀ route : String × McpRouteConfig, .literal s ∈ tenantPieces route.1 route.2 ↔
      s ∈ route.2.allowedTools ++ route.2.deniedTools ++ route.2.allowedResourcePrefixes := by
    intro route
    simp [tenantPieces, mem_arrayPieces]
  unfold mcpPieces
  split
  · simp_all
  · simp [htenant]

theorem mem_multitenancyPieces {s : String} :
    .literal s ∈ multitenancyPieces apiKeys ↔ ∃ p ∈ apiKeys.pairs, s = p.1 ∨ s = p.2 := by
  unfold multitenancyPieces
  split
  · simp_all [Table.pairs]
  · simp

theorem mem_backendPieces {s : String} :
    .literal s ∈ backendPieces backends ↔ ∃ b ∈ backends.head?, s ∈ b.2.url := by
  unfold backendPieces
  cases backends.head? with
  | none => simp
  | some b => cases hurl : b.2.url <;> simp [hurl, eq_comm]

theorem mem_configPieces_iff {s : String} :
    .literal s ∈ configPieces gateway backends routes apiKeys ↔ Placed gateway backends routes apiKeys s := by
  unfold configPieces
  simp only [List.mem_append, List.mem_cons, List.not_mem_nil, or_false, false_or, reduceCtorEq, Piece.literal.injEq,
    mem_backendPieces, mem_mcpPieces, mem_multitenancyPieces]
  constructor
  · rintro ((((rfl | ⟨⟨name, b⟩, hb, hurl⟩) | rfl | rfl) | ⟨route, hroute, hs⟩) | ⟨⟨k, tenant⟩, hkey, rfl | rfl⟩)
    · exact .listenAddr
    · exact .url hb hurl
    · exact .obsEndpoint
    · exact .logLevel
    · exact .tool hroute (by simpa [or_assoc] using hs)
    · exact .hash hkey
    · exact .tenant hkey
  · intro h
    cases h with
    | listenAddr => simp
    | url hfirst hurl => exact .inl (.inl (.inl (.inr ⟨_, hfirst, hurl⟩)))
    | obsEndpoint => simp
    | logLevel => simp
    | tool hroute hs => exact .inl (.inr ⟨_, hroute, by simpa [or_assoc] using hs⟩)
    | hash hkey => exact .inr ⟨_, hkey, .inl rfl⟩
    | tenant hkey => exact .inr ⟨_, hkey, .inr rfl⟩

/-! ## What the gateway reads -/

/-- The literal of a string is a basic string, and the string is what it stands for. -/
def Decodes (t : CharTables) (s : String) : Prop := basicString (debugForm t s).toList = some s.toList

/-- **The literals, exactly.** The rendered text is made of fixed text and of one literal for each string that is
placed. The literal of a string decodes to it if and only if all of its characters are portable. -/
theorem placed_decodes_iff (t : CharTables) :
    renderConfig (debugForm t) gateway backends routes apiKeys =
      writeAll (debugForm t) (configPieces gateway backends routes apiKeys) ∧
    ∀ s, (.literal s ∈ configPieces gateway backends routes apiKeys ↔ Placed gateway backends routes apiKeys s) ∧
      (Placed gateway backends routes apiKeys s → (Decodes t s ↔ ∀ c ∈ s.toList, Portable t c)) := by
  refine ⟨renderConfig_eq_writeAll gateway backends routes apiKeys _, fun s => ⟨mem_configPieces_iff .., fun _ => ?_⟩⟩
  unfold Decodes debugForm
  rw [String.toList_ofList]
  exact basicString_debugStr_iff t s.toList

end

/-- Tables that are right for ASCII, Latin-1 and the combining accents. -/
def accentTables : CharTables where
  graphemeExtended c := decide (768 ≤ c.toNat) && decide (c.toNat < 880)
  printable c := decide (32 ≤ c.toNat) && (decide (c.toNat < 127) || decide (160 < c.toNat) && decide (c.toNat ≠ 173))
  printable_ascii c h := by
    have : ¬ 160 < c.toNat := by omega
    simp [this]

theorem listenAddr_decodes :
    Placed demoGateway [] demoRoutes ∅ "0.0.0.0:8080" ∧ Decodes accentTables "0.0.0.0:8080" := by
  have hportable : "0.0.0.0:8080".toList.all (fun c => decide (Portable accentTables c)) = true := by decide
  refine ⟨.listenAddr, ?_⟩
  apply (((placed_decodes_iff demoGateway [] demoRoutes ∅ accentTables).2 _).2 .listenAddr).mpr
  intro c hc
  exact of_decide_eq_true (List.all_eq_true.mp hportable c hc)

/-- A route with one tool, whose name has two combining accents. -/
def accentRoutes : List (String × RiftgateRouteSpec) :=
  [("acme", { mcp := some { allowedTools := ["re\u0301sume\u0301"] } })]

/-- Each accent is written as a code point in braces, and TOML has no such escape. -/
theorem accents_do_not_decode :
    Placed demoGateway [] accentRoutes ∅ "re\u0301sume\u0301" ∧
    debugForm accentTables "re\u0301sume\u0301" = "\"re\\u\x7b301\x7dsume\\u\x7b301\x7d\"" ∧
    basicString (debugForm accentTables "re\u0301sume\u0301").toList = none ∧
    ¬ Decodes accentTables "re\u0301sume\u0301" := by
  have hnone : basicString (debugForm accentTables "re\u0301sume\u0301").toList = none := by decide
  have hroute : (("acme", { allowedTools := ["re\u0301sume\u0301"] }) : String × McpRouteConfig) ∈
      mcpRoutes accentRoutes := by
    decide
  refine ⟨.tool hroute (by decide), by decide, hnone, ?_⟩
  unfold Decodes
  rw [hnone]
  nofun

end Riftgate.Operator
