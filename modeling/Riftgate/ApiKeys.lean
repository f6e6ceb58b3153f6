import Riftgate.Attestation
import Riftgate.Tenants
import Riftgate.Code.Operator

/-!
# What the operator writes and what the gateway makes of it

API keys on their way from a Secret to a tenant, and policies on their way from a route to a tenant.
-/

open Lib

namespace Riftgate.Operator

open Mcp Proxy Tenant Broker

/-! ## Digests as text -/

theorem digitChar_inj {a b : Nat} (ha : a < 16) (hb : b < 16) (h : a.digitChar = b.digitChar) : a = b := by
  have hall : ∀ a < 16, ∀ b < 16, Nat.digitChar a = Nat.digitChar b → a = b := by decide
  exact hall a ha b hb h

theorem signatureHex_inj {a b : List Byte} (h : signatureHex a = signatureHex b) : a = b := by
  have hchars := congrArg String.toList h
  simp only [signatureHex, String.toList_ofList] at hchars
  clear h
  induction a generalizing b with
  | nil =>
    cases b with
    | nil => rfl
    | cons y b => simp at hchars
  | cons x a ih =>
    cases b with
    | nil => simp at hchars
    | cons y b =>
      simp only [List.flatMap_cons, List.cons_append, List.nil_append, List.cons.injEq] at hchars
      obtain ⟨hhi, hlo, hrest⟩ := hchars
      have hx := x.toNat_lt
      have hy := y.toNat_lt
      have h1 := digitChar_inj (by omega) (by omega) hhi
      have h2 := digitChar_inj (by omega) (by omega) hlo
      rw [ih hrest, UInt8.toNat_inj.mp (show x.toNat = y.toNat by omega)]

theorem hashKey_inj {sha256 : List Byte → List Byte} {k k' : String} (h : hashKey sha256 k = hashKey sha256 k') :
    sha256 (bytesOf k) = sha256 (bytesOf k') := by
  unfold hashKey at h
  have hchars := congrArg String.toList h
  rw [String.toList_append, String.toList_append] at hchars
  exact signatureHex_inj (String.toList_inj.mp (List.append_cancel_left hchars))

/-! ## The bearer token -/

/-- A character that a client can send in a header value. -/
def Visible (c : Char) : Prop := (32 ≤ c.toNat ∧ c.toNat < 127) ∨ c.toNat = 9

instance (c : Char) : Decidable (Visible c) := inferInstanceAs (Decidable (_ ∨ _))

theorem visible_of_all {l : List Char} (h : (l.all fun c => decide (Visible c)) = true) : ∀ c ∈ l, Visible c := by
  intro c hc
  exact of_decide_eq_true (List.all_eq_true.mp h c hc)

theorem bearer_visible : ∀ c ∈ "Bearer ".toList, Visible c := visible_of_all (by decide)

theorem visible_byte {c : Char} (h : Visible c) :
    ((decide (32 ≤ UInt8.ofNat c.toNat) && decide (UInt8.ofNat c.toNat < 127)) ||
      decide (UInt8.ofNat c.toNat = 9)) = true ∧ Char.ofNat (UInt8.ofNat c.toNat).toNat = c := by
  have hlt : c.toNat < 128 := by rcases h with h | h <;> omega
  have hnat : (UInt8.ofNat c.toNat).toNat = c.toNat := by simp; omega
  refine ⟨?_, by rw [hnat, Char.ofNat_toNat]⟩
  simp only [Bool.or_eq_true, Bool.and_eq_true, decide_eq_true_eq, UInt8.le_iff_toNat_le, UInt8.lt_iff_toNat_lt,
    ← UInt8.toNat_inj, hnat]
  exact h

theorem toStr_bytesOf {l : List Char} (h : ∀ c ∈ l, Visible c) :
    toStr (bytesOf (String.ofList l)) = some (String.ofList l) := by
  have hbytes : bytesOf (String.ofList l) = l.map fun c => UInt8.ofNat c.toNat := by
    refine toUTF8_ascii fun c hc => ?_
    rcases h c hc with h | h <;> omega
  have hback : (l.map fun c => UInt8.ofNat c.toNat).map (fun b => Char.ofNat b.toNat) = l := by
    rw [List.map_map]
    refine Eq.trans (List.map_congr_left fun c hc => ?_) (List.map_id l)
    exact (visible_byte (h c hc)).2
  unfold toStr
  rw [hbytes, hback, if_pos]
  rw [List.all_map, List.all_eq_true]
  exact fun c hc => (visible_byte (h c hc)).1

/-! ## From a line to a tenant -/

/-- A key and a tenant that a line can hold: the key is not taken for a digest or a comment, and neither the
search for the equals sign nor the trimming takes a part of them. -/
structure Plain (key tenant : List Char) : Prop where
  visible : ∀ c ∈ key, Visible c
  noEquals : '=' ∉ key
  notHashed : "sha256:".toList.isPrefixOf key = false
  notComment : key.head? ≠ some '#'
  noBlankFirst : ∀ c ∈ key.head?, isWhiteSpace c = false
  noBlankLast : ∀ c ∈ tenant.getLast?, isWhiteSpace c = false

theorem apiKeyLine_plain {key tenant : List Char} (h : Plain key tenant) :
    apiKeyLine (key ++ '=' :: tenant) = some (key, tenant) := by
  have hne : key ++ '=' :: tenant ≠ [] := by simp
  have hhead : (key ++ '=' :: tenant).head? = if key = [] then some '=' else key.head? := by
    cases key <;> simp
  have hfirst : ∀ c ∈ (key ++ '=' :: tenant).head?, isWhiteSpace c = false := by
    intro c hc
    rw [hhead] at hc
    split at hc
    · cases hc
      decide
    · exact h.noBlankFirst c hc
  have hlast : ∀ c ∈ (key ++ '=' :: tenant).getLast?, isWhiteSpace c = false := by
    intro c hc
    rw [List.getLast?_append, List.getLast?_cons] at hc
    cases htenant : tenant.getLast? with
    | none =>
      simp only [htenant, Option.getD_none, Option.some_or, Option.mem_def, Option.some.injEq] at hc
      rw [← hc]
      decide
    | some d =>
      simp only [htenant, Option.getD_some, Option.some_or, Option.mem_def, Option.some.injEq] at hc
      rw [← hc]
      exact h.noBlankLast d htenant
  have hcomment : (key ++ '=' :: tenant).head? ≠ some '#' := by
    rw [hhead]
    split
    · decide
    · exact h.notComment
  unfold apiKeyLine
  rw [trim_eq_self hfirst hlast]
  simp only [hne, hcomment, or_self, if_false]
  exact splitOnce_append h.noEquals tenant

theorem storedKey_plain {sha256 : List Byte → List Byte} {key : List Char}
    (h : "sha256:".toList.isPrefixOf key = false) : storedKey sha256 key = hashKey sha256 (String.ofList key) := by
  unfold storedKey hashKey
  rw [h]
  rfl

theorem storedKey_eq {sha256 : List Byte → List Byte} {k : List Char} {key : String}
    (h : storedKey sha256 k = hashKey sha256 key)
    (hfree : sha256 (bytesOf (String.ofList k)) = sha256 (bytesOf key) → k = key.toList) :
    k = key.toList ∨ String.ofList k = hashKey sha256 key := by
  unfold storedKey at h
  split at h
  · exact Or.inr h
  · exact Or.inl (hfree (hashKey_inj h))

/-! ## The whole way of a key -/

section

variable (sha256 : List Byte → List Byte) (getSecret : String → Option Secret)
  (routes : List (String × RiftgateRouteSpec))

/-- No other line of the Secrets gives the key to another tenant. -/
def OnlyTenant (key tenant : String) : Prop :=
  ∀ k t, (k, t) ∈ apiKeyLines getSecret routes →
    k = key.toList ∨ String.ofList k = hashKey sha256 key → t = tenant.toList

/-- No other key of the Secrets has the digest of this one. -/
def CollisionFree (key : String) : Prop :=
  ∀ k t, (k, t) ∈ apiKeyLines getSecret routes →
    sha256 (bytesOf (String.ofList k)) = sha256 (bytesOf key) → k = key.toList

/-- Some Secret has the line `key=tenant`. -/
def HasLine (key tenant : String) : Prop :=
  ∃ content ∈ routes.filterMap (fun route => secretContent getSecret route.2),
    key.toList ++ '=' :: tenant.toList ∈ lines content.toList

theorem collectApiKeys_lookup {key tenant : String} (hplain : Plain key.toList tenant.toList)
    (hline : HasLine getSecret routes key tenant) (honly : OnlyTenant sha256 getSecret routes key tenant)
    (hfree : CollisionFree sha256 getSecret routes key) :
    (collectApiKeys sha256 getSecret routes).lookup (hashKey sha256 key) = some tenant := by
  obtain ⟨content, hcontent, hmem⟩ := hline
  have hentry : (key.toList, tenant.toList) ∈ apiKeyLines getSecret routes :=
    List.mem_flatMap.mpr ⟨content, hcontent, List.mem_filterMap.mpr ⟨_, hmem, apiKeyLine_plain hplain⟩⟩
  unfold collectApiKeys
  refine Table.lookup_collect_of_unique (List.mem_map.mpr ⟨_, hentry, ?_⟩) ?_
  · simp only [storedKey_plain hplain.notHashed, String.ofList_toList]
  · intro tenant' hmem'
    obtain ⟨⟨k, t⟩, hkt, he⟩ := List.mem_map.mp hmem'
    obtain ⟨hstored, rfl⟩ := Prod.mk.inj he
    have ht := honly k t hkt (storedKey_eq hstored (hfree k t hkt))
    simp only [ht, String.ofList_toList]

theorem resolve_bearer {key tenant : String} {cfg : MultitenancyConfig} {headers : Headers}
    (hvisible : ∀ c ∈ key.toList, Visible c) (hkey : cfg.apiKeys.lookup (hashKey sha256 key) = some tenant)
    (hauth : headerGet headers "authorization" = some (bytesOf ("Bearer " ++ key))) :
    (ApiKeyTenantResolver.fromConfig cfg).resolve sha256 headers = some ⟨⟨tenantIdFromStr tenant⟩, tenant⟩ := by
  have hchars : ∀ c ∈ "Bearer ".toList ++ key.toList, Visible c := by
    intro c hc
    rcases List.mem_append.mp hc with hc | hc
    · exact bearer_visible c hc
    · exact hvisible c hc
  have htext : "Bearer " ++ key = String.ofList ("Bearer ".toList ++ key.toList) := by
    rw [String.ofList_append, String.ofList_toList, String.ofList_toList]
  have hlookup := registry_lookup cfg (hashKey sha256 key)
  rw [hkey] at hlookup
  unfold ApiKeyTenantResolver.resolve
  simp only [hauth, Option.bind_some, htext, toStr_bytesOf hchars, String.toList_ofList, stripStart_append]
  rw [String.ofList_toList, hlookup]
  rfl

variable (debug : String → String) (load : String → Option GatewayConfig) (gateway : RiftgateSpec)
  (backends : List (String × RiftgateBackendSpec))

/-- The TOML reader gives back the strings of `[multitenancy.api_keys]`. -/
def DecodesApiKeys (apiKeys : Table String String) : Prop :=
  ∃ cfg, load (renderConfig debug gateway backends routes apiKeys) = some cfg ∧
    ∀ k, cfg.multitenancy.apiKeys.lookup k = apiKeys.lookup k

/-- **The way of a key.** A plain line `key=tenant` of a Secret, collected, rendered and read back, makes
`Authorization: Bearer key` that tenant. -/
theorem apiKey_resolves {key tenant : String} {headers : Headers} (hplain : Plain key.toList tenant.toList)
    (hline : HasLine getSecret routes key tenant) (honly : OnlyTenant sha256 getSecret routes key tenant)
    (hfree : CollisionFree sha256 getSecret routes key)
    (hload : DecodesApiKeys routes debug load gateway backends (collectApiKeys sha256 getSecret routes))
    (hauth : headerGet headers "authorization" = some (bytesOf ("Bearer " ++ key))) :
    ∃ cfg, load (renderConfig debug gateway backends routes (collectApiKeys sha256 getSecret routes)) = some cfg ∧
      (ApiKeyTenantResolver.fromConfig cfg.multitenancy).resolve sha256 headers =
        some ⟨⟨tenantIdFromStr tenant⟩, tenant⟩ := by
  obtain ⟨cfg, hcfg, hkeys⟩ := hload
  refine ⟨cfg, hcfg, resolve_bearer sha256 hplain.visible ?_ hauth⟩
  rw [hkeys, collectApiKeys_lookup sha256 getSecret routes hplain hline honly hfree]

end

/-- A cluster with one Secret, and a route that refers to it. -/
def demoSecret (content : String) (name : String) : Option Secret :=
  if name = "acme-api-key" then some ⟨some (Table.collect [("keys", bytesOf content)])⟩ else none

def demoRoutes : List (String × RiftgateRouteSpec) :=
  [("acme", { mcp := some { allowedTools := ["search"] }, multitenancy := some ⟨some ⟨"acme-api-key", "keys"⟩⟩ })]

def demoGateway : RiftgateSpec := ⟨"0.0.0.0:8080", "http://127.0.0.1:4317", "info"⟩

/-- The debug form of a text without escapes. -/
def demoDebug (s : String) : String := "\"" ++ s ++ "\""

/-- The TOML reader on the configuration of the example. -/
def demoLoad (apiKeys : Table String String) (text : String) : Option GatewayConfig :=
  if text = renderConfig demoDebug demoGateway [] demoRoutes apiKeys
  then some { multitenancy := { apiKeys := apiKeys } } else none

theorem skAcme_resolves :
    let getSecret := demoSecret "# keys\nsk-acme=acme\n"
    let apiKeys := collectApiKeys demoSha256 getSecret demoRoutes
    let headers : Headers := [("authorization", bytesOf ("Bearer " ++ "sk-acme"))]
    HasLine getSecret demoRoutes "sk-acme" "acme" ∧
    ∃ cfg, demoLoad apiKeys (renderConfig demoDebug demoGateway [] demoRoutes apiKeys) = some cfg ∧
      (ApiKeyTenantResolver.fromConfig cfg.multitenancy).resolve demoSha256 headers =
        some ⟨⟨tenantIdFromStr "acme"⟩, "acme"⟩ := by
  intro getSecret apiKeys headers
  have hlines : apiKeyLines getSecret demoRoutes = [("sk-acme".toList, "acme".toList)] := by decide
  have hline : HasLine getSecret demoRoutes "sk-acme" "acme" :=
    ⟨"# keys\nsk-acme=acme\n", by decide, by decide⟩
  have hfirst : ∀ c ∈ "sk-acme".toList.head?, isWhiteSpace c = false := by
    rintro c hc
    obtain rfl : 's' = c := Option.some.inj hc
    decide
  have hlast : ∀ c ∈ "acme".toList.getLast?, isWhiteSpace c = false := by
    rintro c hc
    obtain rfl : 'e' = c := Option.some.inj hc
    decide
  have hplain : Plain "sk-acme".toList "acme".toList :=
    ⟨visible_of_all (by decide), by decide, by decide, by decide, hfirst, hlast⟩
  refine ⟨hline, apiKey_resolves demoSha256 getSecret demoRoutes demoDebug (demoLoad apiKeys) demoGateway [] hplain
    hline ?_ ?_ ⟨_, if_pos rfl, fun k => rfl⟩ (by decide)⟩
  · intro k t hmem _
    rw [hlines, List.mem_singleton] at hmem
    exact (Prod.mk.inj hmem).2
  · intro k t hmem _
    rw [hlines, List.mem_singleton] at hmem
    exact (Prod.mk.inj hmem).1

/-- A raw key that reads like a digest. -/
def digestLike : String := "sha256:8254c329a92850f6d539dd376f4816ee2764517da5e0235514af433164480d7a"

/-- Such a key is stored as it is, and its client is not known. -/
theorem digestLike_unresolved :
    let getSecret := demoSecret (digestLike ++ "=acme\n")
    let cfg : MultitenancyConfig := { apiKeys := collectApiKeys demoSha256 getSecret demoRoutes }
    HasLine getSecret demoRoutes digestLike "acme" ∧ cfg.apiKeys.lookup digestLike = some "acme" ∧
    (ApiKeyTenantResolver.fromConfig cfg).resolve demoSha256 [("authorization", bytesOf ("Bearer " ++ digestLike))] =
      none :=
  ⟨⟨digestLike ++ "=acme\n", by decide, by decide +kernel⟩, by decide +kernel, by decide +kernel⟩

end Riftgate.Operator
