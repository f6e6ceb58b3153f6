import Riftgate.Tenants
import Riftgate.Code.Operator

/-!
# The policies that the operator renders

A route is a tenant of the gateway. Its table has the name of the route with each dash and dot rewritten, and
its API keys have the name as it is.
-/

open Lib

namespace Riftgate.Operator

open Mcp Tenant Broker

/-! ## Tables -/

/-- What the gateway reads of a rendered table. -/
def routePolicy (mcp : McpRouteConfig) : McpTenantConfig where
  allowedTools := mcp.allowedTools
  deniedTools := mcp.deniedTools
  allowedResourcePrefixes := mcp.allowedResourcePrefixes

/-- The tables `[mcp.tenants.<key>]`, in the order of the text. -/
def renderedTenants (routes : List (String × RiftgateRouteSpec)) : List (String × McpTenantConfig) :=
  (mcpRoutes routes).map fun route => (sanitizeTomlKey route.1, routePolicy route.2)

/-- Every table has a key of its own, and the id of the key is the id of the route. -/
def KeepsTenants (routes : List (String × RiftgateRouteSpec)) : Prop :=
  ((renderedTenants routes).map Prod.fst).Nodup ∧
  ∀ route ∈ mcpRoutes routes, tenantIdFromKey (sanitizeTomlKey route.1) = tenantIdFromStr route.1

/-- The section that the gateway has loaded holds the tables of the text. -/
def HoldsTables (cfg : McpConfig) (routes : List (String × RiftgateRouteSpec)) : Prop :=
  cfg.enforce = true ∧ ∀ k, cfg.tenants.lookup k = (Table.collect (renderedTenants routes)).lookup k

/-- The broker decides for the tenant of a route by the policy of that route. -/
def GovernedByOwn (cfg : McpConfig) (route : String × McpRouteConfig) : Prop :=
  ∀ hmac ephemeral correlationId now, ∃ broker, buildMcpBroker hmac ephemeral cfg correlationId now = some broker ∧
    ∀ request principal, (broker request ⟨⟨tenantIdFromStr route.1⟩, principal⟩).1 =
      policyDecision hmac (signingKey ephemeral cfg) true (tenantAllowlist (routePolicy route.2)) now request
        ⟨⟨tenantIdFromStr route.1⟩, principal⟩

def PlainName (name : String) : Prop := '-' ∉ name.toList ∧ '.' ∉ name.toList

instance (name : String) : Decidable (PlainName name) := inferInstanceAs (Decidable (_ ∧ _))

def rewritten (c : Char) : Char := if c = '-' ∨ c = '.' then '_' else c

theorem map_rewritten {l : List Char} (h : '-' ∉ l ∧ '.' ∉ l) : l.map rewritten = l := by
  refine Eq.trans (List.map_congr_left fun c hc => ?_) (List.map_id l)
  unfold rewritten
  rw [if_neg]
  · rfl
  · rintro (rfl | rfl)
    · exact h.1 hc
    · exact h.2 hc

theorem sanitizeTomlKey_plain {name : String} (h : PlainName name) : sanitizeTomlKey name = name := by
  have hmap : name.toList.map rewritten = name.toList := map_rewritten h
  unfold sanitizeTomlKey
  exact (congrArg String.ofList hmap).trans String.ofList_toList

theorem mcpRoutes_names (routes : List (String × RiftgateRouteSpec)) :
    ((mcpRoutes routes).map Prod.fst).Sublist (routes.map Prod.fst) := by
  unfold mcpRoutes
  induction routes with
  | nil => exact List.Sublist.slnil
  | cons route routes ih =>
    cases hmcp : route.2.mcp with
    | none =>
      simp only [List.filterMap_cons, hmcp, Option.map_none, List.map_cons]
      exact ih.cons _
    | some mcp =>
      simp only [List.filterMap_cons, hmcp, Option.map_some, List.map_cons]
      exact ih.cons_cons _

/-! ## Plain names -/

section

variable {routes : List (String × RiftgateRouteSpec)} (hnames : (routes.map Prod.fst).Nodup)
  (hplain : ∀ route ∈ mcpRoutes routes, PlainName route.1)

include hplain in
theorem renderedTenants_plain :
    renderedTenants routes = (mcpRoutes routes).map fun route => (route.1, routePolicy route.2) := by
  refine List.map_congr_left fun route hr => ?_
  rw [sanitizeTomlKey_plain (hplain route hr)]

include hnames in
theorem mcpRoutes_unique {route route' : String × McpRouteConfig} (hr : route ∈ mcpRoutes routes)
    (hr' : route' ∈ mcpRoutes routes) (h : route'.1 = route.1) : route' = route :=
  List.inj_on_of_nodup_map ((mcpRoutes_names routes).nodup hnames) hr' hr h

include hnames hplain

theorem keepsTenants_plain : KeepsTenants routes := by
  refine ⟨?_, fun route hr => by rw [sanitizeTomlKey_plain (hplain route hr)]; rfl⟩
  rw [renderedTenants_plain hplain, List.map_map]
  exact (mcpRoutes_names routes).nodup hnames

theorem governedByOwn_plain {cfg : McpConfig} (hcfg : HoldsTables cfg routes) {route : String × McpRouteConfig}
    (hr : route ∈ mcpRoutes routes)
    (hown : ∀ other ∈ mcpRoutes routes, tenantIdFromStr other.1 = tenantIdFromStr route.1 → other.1 = route.1) :
    GovernedByOwn cfg route := by
  have hpair : ∀ k v, (k, v) ∈ cfg.tenants.pairs →
      ∃ other ∈ mcpRoutes routes, (other.1, routePolicy other.2) = (k, v) := by
    intro k v hp
    rw [← Table.lookup_eq_some_iff, hcfg.2] at hp
    have hmem := Table.mem_of_lookup_collect hp
    rw [renderedTenants_plain hplain] at hmem
    exact List.mem_map.mp hmem
  have htable : (route.1, routePolicy route.2) ∈ cfg.tenants.pairs := by
    rw [← Table.lookup_eq_some_iff, hcfg.2, renderedTenants_plain hplain]
    refine Table.lookup_collect_of_unique (List.mem_map.mpr ⟨route, hr, rfl⟩) ?_
    intro v hv
    obtain ⟨other, ho, he⟩ := List.mem_map.mp hv
    obtain ⟨hname, rfl⟩ := Prod.mk.inj he
    rw [mcpRoutes_unique hnames hr ho hname]
  have hlookup : (tenantConfigs cfg).lookup (tenantIdFromStr route.1) =
      some (tenantAllowlist (routePolicy route.2)) := by
    refine Table.lookup_collect_of_unique (List.mem_map.mpr ⟨_, htable, rfl⟩) ?_
    intro al hal
    obtain ⟨⟨k, v⟩, hp, he⟩ := List.mem_map.mp hal
    obtain ⟨hid, rfl⟩ := Prod.mk.inj he
    obtain ⟨other, ho, hkv⟩ := hpair k v hp
    obtain ⟨rfl, rfl⟩ := Prod.mk.inj hkv
    rw [mcpRoutes_unique hnames hr ho (hown other ho hid)]
  intro hmac ephemeral correlationId now
  obtain ⟨broker, hbroker, hdecision⟩ := buildMcpBroker_decision hmac ephemeral cfg correlationId now hlookup
  rw [hcfg.1] at hdecision
  exact ⟨broker, hbroker, hdecision⟩

end

def twoRoutes (first second : String) : List (String × RiftgateRouteSpec) :=
  [(first, { mcp := some { allowedTools := ["read"] } }), (second, { mcp := some { allowedTools := ["write"] } })]

/-- The prime is odd, so that a step of the hash can be undone. -/
theorem mul_fnvPrime_cancel (h : UInt32) : h * fnvPrime * 899433627 = h := by
  have hinv : fnvPrime * 899433627 = 1 := by decide
  rw [UInt32.mul_assoc, hinv, UInt32.mul_one]

theorem fnvStep_inj {h h' : UInt32} {b b' : Byte} (heq : fnvStep h b = fnvStep h' b') :
    h ^^^ b.toUInt32 = h' ^^^ b'.toUInt32 := by
  unfold fnvStep at heq
  have hcancel := congrArg (· * 899433627) heq
  simp only [mul_fnvPrime_cancel] at hcancel
  exact hcancel

theorem foldl_fnvStep_inj {bytes : List Byte} {h h' : UInt32}
    (heq : bytes.foldl fnvStep h = bytes.foldl fnvStep h') : h = h' := by
  induction bytes generalizing h h' with
  | nil => exact heq
  | cons b bytes ih =>
    have hxor := fnvStep_inj (ih heq)
    exact (UInt32.xor_left_inj _).mp hxor

theorem fnv1a_one_byte (l l' : List Byte) {b b' : Byte} (h : b ≠ b') :
    fnv1a (l ++ b :: l') ≠ fnv1a (l ++ b' :: l') := by
  intro heq
  unfold fnv1a at heq
  rw [List.foldl_append, List.foldl_append, List.foldl_cons, List.foldl_cons] at heq
  have hxor := fnvStep_inj (foldl_fnvStep_inj heq)
  have hbyte := congrArg UInt32.toNat ((UInt32.xor_right_inj _).mp hxor)
  rw [UInt8.toNat_toUInt32, UInt8.toNat_toUInt32] at hbyte
  exact h (UInt8.toNat_inj.mp hbyte)

theorem tenantIdFromStr_name {s : String} {c : Char} (hc : c ∈ s.toList) (hdigit : c.isDigit = false) (hplus : c ≠ '+')
    (hzero : fnv1a (bytesOf s) ≠ 0) : tenantIdFromStr s = fnv1a (bytesOf s) := by
  unfold tenantIdFromStr
  rw [parseUnsigned_eq_none hc hdigit hplus]
  exact if_neg hzero

/-- **One dash or dot in the name of a route, and its table is of another tenant.** The two hashes differ, and
an id is its hash unless that is 0. -/
theorem sanitizeTomlKey_changes_id {l l' : List Char} {c : Char} (hc : c = '-' ∨ c = '.')
    (hl : '-' ∉ l ∧ '.' ∉ l) (hl' : '-' ∉ l' ∧ '.' ∉ l')
    (hzero : fnv1a (bytesOf (String.ofList (l ++ c :: l'))) ≠ 0)
    (hzero' : fnv1a (bytesOf (String.ofList (l ++ '_' :: l'))) ≠ 0) :
    tenantIdFromKey (sanitizeTomlKey (String.ofList (l ++ c :: l'))) ≠
      tenantIdFromStr (String.ofList (l ++ c :: l')) := by
  have hkey : sanitizeTomlKey (String.ofList (l ++ c :: l')) = String.ofList (l ++ '_' :: l') := by
    have hmap : (l ++ c :: l').map rewritten = l ++ '_' :: l' := by
      rw [List.map_append, List.map_cons, map_rewritten hl, map_rewritten hl']
      simp only [rewritten, if_pos hc]
    unfold sanitizeTomlKey
    rw [String.toList_ofList]
    exact congrArg String.ofList hmap
  have hbytes : ∀ d : Char, d.toNat < 128 → bytesOf (String.ofList (l ++ d :: l')) =
      l.flatMap String.utf8EncodeChar ++ UInt8.ofNat d.toNat :: l'.flatMap String.utf8EncodeChar := by
    intro d hd
    unfold bytesOf
    rw [toUTF8_ofList, List.flatMap_append, List.flatMap_cons, utf8EncodeChar_ascii hd]
    rfl
  have hdigit : c.isDigit = false ∧ c ≠ '+' ∧ c.toNat < 128 ∧ UInt8.ofNat '_'.toNat ≠ UInt8.ofNat c.toNat := by
    rcases hc with rfl | rfl <;> decide
  obtain ⟨hnot, hplus, hascii, hne⟩ := hdigit
  unfold tenantIdFromKey
  rw [hkey, tenantIdFromStr_name (c := '_') (by simp) (by decide) (by decide) hzero',
    tenantIdFromStr_name (c := c) (by simp) hnot hplus hzero, hbytes '_' (by decide), hbytes c hascii]
  exact fnv1a_one_byte _ _ hne

end Riftgate.Operator
