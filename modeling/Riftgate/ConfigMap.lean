import Mathlib.Data.String.Basic
import Riftgate.Lib.Sorted
import Riftgate.Code.Operator

/-!
# The operator writes one text

The API keys go through a hash map on their way from the Secrets to the configuration. Neither its order nor that of
the lines shows in the text, so a reconciliation of an unchanged cluster changes nothing.
-/

open Lib

namespace Riftgate.Operator

open Mcp Proxy

variable {sha256 : List Byte → List Byte} {debug : String → String}

theorem renderMultitenancy_congr {apiKeys apiKeys' : Table String String}
    (h : ∀ k, apiKeys.lookup k = apiKeys'.lookup k) :
    renderMultitenancy debug apiKeys = renderMultitenancy debug apiKeys' := by
  have hperm := Table.pairs_perm h
  have hlen : apiKeys.entries.length = apiKeys'.entries.length := by
    have := hperm.length_eq
    simpa only [Table.pairs, List.length_map] using this
  have hempty : apiKeys.entries = [] ↔ apiKeys'.entries = [] := by
    rw [← List.length_eq_zero_iff, ← List.length_eq_zero_iff, hlen]
  have hkeys : (apiKeys.pairs.map Prod.fst).Nodup := by
    rw [Table.pairs_keys]
    exact apiKeys.keys_nodup
  have hsort := mergeSort_eq_of_perm hperm hkeys
  unfold renderMultitenancy
  rw [hsort]
  simp only [hempty]

theorem collectApiKeys_perm {getSecret getSecret' : String → Option Secret} {routes : List (String × RiftgateRouteSpec)}
    (hlines : (apiKeyLines getSecret routes).Perm (apiKeyLines getSecret' routes))
    (hkeys : ((apiKeyLines getSecret routes).map fun p => storedKey sha256 p.1).Nodup) (k : String) :
    (collectApiKeys sha256 getSecret routes).lookup k = (collectApiKeys sha256 getSecret' routes).lookup k := by
  refine Table.lookup_collect_perm (hlines.map _) ?_ k
  rw [List.map_map]
  exact hkeys

/-- **Reconciling changes nothing.** Two reconciliations read Secrets whose lines are the same up to their order, with
no key twice, and each has the API keys in some hash map. Then they write the same text. -/
theorem render_any_order (gateway : RiftgateSpec) (backends : List (String × RiftgateBackendSpec))
    (routes : List (String × RiftgateRouteSpec)) {getSecret getSecret' : String → Option Secret}
    (hlines : (apiKeyLines getSecret routes).Perm (apiKeyLines getSecret' routes))
    (hkeys : ((apiKeyLines getSecret routes).map fun p => storedKey sha256 p.1).Nodup)
    {apiKeys apiKeys' : Table String String}
    (h : ∀ k, apiKeys.lookup k = (collectApiKeys sha256 getSecret routes).lookup k)
    (h' : ∀ k, apiKeys'.lookup k = (collectApiKeys sha256 getSecret' routes).lookup k) :
    renderConfig debug gateway backends routes apiKeys = renderConfig debug gateway backends routes apiKeys' := by
  have hsame : ∀ k, apiKeys.lookup k = apiKeys'.lookup k := by
    intro k
    rw [h k, h' k, collectApiKeys_perm hlines hkeys k]
  unfold renderConfig
  rw [renderMultitenancy_congr hsame]

def twoKeySecret (content : String) (name : String) : Option Secret :=
  if name = "keys" then some ⟨some (Table.collect [("keys", bytesOf content)])⟩ else none

def twoKeyRoutes : List (String × RiftgateRouteSpec) := [("acme", { multitenancy := some ⟨some ⟨"keys", "keys"⟩⟩ })]

theorem two_keys_any_order :
    let getSecret := twoKeySecret "sha256:aa=acme\nsha256:bb=beta"
    let getSecret' := twoKeySecret "sha256:bb=beta\n# the first one\nsha256:aa=acme"
    renderConfig (fun s => "\"" ++ s ++ "\"") ⟨"0.0.0.0:80", "", "info"⟩ [] twoKeyRoutes
        (collectApiKeys id getSecret twoKeyRoutes) =
      renderConfig (fun s => "\"" ++ s ++ "\"") ⟨"0.0.0.0:80", "", "info"⟩ [] twoKeyRoutes
        (collectApiKeys id getSecret' twoKeyRoutes) := by
  intro getSecret getSecret'
  have hlines : (apiKeyLines getSecret twoKeyRoutes).Perm (apiKeyLines getSecret' twoKeyRoutes) := by decide
  have hkeys : ((apiKeyLines getSecret twoKeyRoutes).map fun p => storedKey id p.1).Nodup := by decide
  exact render_any_order _ _ _ hlines hkeys (fun _ => rfl) (fun _ => rfl)

end Riftgate.Operator
