import Riftgate.Tenants

/-!
# The signing key of the broker

A text of 64 hexadecimal digits is read as the bytes that it spells out. Any other text is not refused: the broker
signs with the zero key, or with what `from_str_radix` makes of a plus sign.
-/

open Lib

namespace Riftgate.Broker

open Mcp Proxy Tenant

/-! ## Hexadecimal texts -/

def HexDigit (c : Char) : Prop := ('0' ≤ c ∧ c ≤ '9') ∨ ('a' ≤ c ∧ c ≤ 'f') ∨ ('A' ≤ c ∧ c ≤ 'F')

instance (c : Char) : Decidable (HexDigit c) := inferInstanceAs (Decidable (_ ∨ _))

/-- The text is the two digits of each byte, in either case. -/
def Spells (text : List Char) (key : List Byte) : Prop :=
  text.map Char.toLower = key.flatMap fun b => [Nat.digitChar (b.toNat / 16), Nat.digitChar (b.toNat % 16)]

/-- What the configuration asks of a signing key. -/
def IsHexKey (text : List Char) : Prop := text.length = 64 ∧ ∀ c ∈ text, HexDigit c

def charByte (c : Char) : Byte := UInt8.ofNat c.toNat

theorem HexDigit.ascii {c : Char} (h : HexDigit c) : c.toNat < 128 := by
  rcases h with ⟨-, h⟩ | ⟨-, h⟩ | ⟨-, h⟩ <;>
    exact lt_of_le_of_lt (UInt32.le_iff_toNat_le.mp h) (by decide)

theorem HexDigit.value {c : Char} (h : HexDigit c) : ∃ v < 16, c.toLower = Nat.digitChar v := by
  refine ascii_cases (p := fun c => HexDigit c → ∃ v < 16, c.toLower = Nat.digitChar v) ?_ h.ascii h
  decide

theorem ascii_of_toLower {c : Char} {v : Nat} (hv : v < 16) (h : c.toLower = Nat.digitChar v) : c.toNat < 128 := by
  have hlow : ∀ v < 16, (Nat.digitChar v).toNat < 128 := by decide
  by_cases hupper : c.val ≥ 'A'.val ∧ c.val ≤ 'Z'.val
  · exact lt_of_le_of_lt (UInt32.le_iff_toNat_le.mp hupper.2) (by decide)
  · have hself : c.toLower = c := dif_neg hupper
    rw [← hself, h]
    exact hlow v hv

theorem hexValue_of_toLower {c : Char} {v : Nat} (hv : v < 16) (h : c.toLower = Nat.digitChar v) :
    HexDigit c ∧ hexValue (charByte c) = some (UInt8.ofNat v) ∧ charByte c ≠ 43 := by
  refine ascii_cases (p := fun c => ∀ v < 16, c.toLower = Nat.digitChar v →
    HexDigit c ∧ hexValue (charByte c) = some (UInt8.ofNat v) ∧ charByte c ≠ 43) ?_ (ascii_of_toLower hv h) v hv h
  decide

theorem hexByte_of_toLower {c d : Char} {b : Byte} (hc : c.toLower = Nat.digitChar (b.toNat / 16))
    (hd : d.toLower = Nat.digitChar (b.toNat % 16)) : hexByte (charByte c) (charByte d) = some b := by
  have hb := b.toNat_lt
  obtain ⟨-, hhi, hplus⟩ := hexValue_of_toLower (by omega) hc
  obtain ⟨-, hlo, -⟩ := hexValue_of_toLower (by omega) hd
  unfold hexByte
  rw [if_neg hplus, hhi, hlo]
  have hsum : 16 * UInt8.ofNat (b.toNat / 16) + UInt8.ofNat (b.toNat % 16) = b := by
    apply UInt8.toNat_inj.mp
    simp
    omega
  simp only [hsum]

/-! ## What a text spells out -/

theorem Spells.digits {text : List Char} {key : List Byte} (h : Spells text key) :
    text.length = 2 * key.length ∧ ∀ c ∈ text, HexDigit c := by
  constructor
  · have hlength := congrArg List.length h
    simp only [List.length_map, List.length_flatMap, List.length_cons, List.length_nil, List.map_const',
      List.sum_replicate_nat] at hlength
    omega
  · intro c hc
    have hmem : c.toLower ∈ text.map Char.toLower := List.mem_map_of_mem hc
    rw [h, List.mem_flatMap] at hmem
    obtain ⟨b, -, hb⟩ := hmem
    have hlt := b.toNat_lt
    simp only [List.mem_cons, List.not_mem_nil, or_false] at hb
    rcases hb with hb | hb
    · exact (hexValue_of_toLower (by omega) hb).1
    · exact (hexValue_of_toLower (by omega) hb).1

theorem Spells.hexBytes {text : List Char} {key : List Byte} (h : Spells text key) :
    hexBytes (text.map charByte) = some key := by
  induction key generalizing text with
  | nil =>
    have : text = [] := List.map_eq_nil_iff.mp h
    subst this
    rfl
  | cons b key ih =>
    obtain - | ⟨c, - | ⟨d, text⟩⟩ := text
    · simp [Spells] at h
    · simp [Spells] at h
    · simp only [Spells, List.map_cons, List.flatMap_cons, List.cons_append, List.nil_append, List.cons.injEq] at h
      obtain ⟨hc, hd, hrest⟩ := h
      simp only [List.map_cons, Broker.hexBytes, hexByte_of_toLower hc hd, ih hrest]

theorem exists_spells {n : Nat} {text : List Char} (hlength : text.length = 2 * n) (hdigits : ∀ c ∈ text, HexDigit c) :
    ∃ key : List Byte, key.length = n ∧ Spells text key := by
  induction n generalizing text with
  | zero =>
    have : text = [] := List.eq_nil_of_length_eq_zero (by omega)
    subst this
    exact ⟨[], rfl, rfl⟩
  | succ n ih =>
    obtain - | ⟨c, - | ⟨d, text⟩⟩ := text
    · simp at hlength
    · simp at hlength; omega
    · obtain ⟨hi, hhi, hc⟩ := (hdigits c (by simp)).value
      obtain ⟨lo, hlo, hd⟩ := (hdigits d (by simp)).value
      have hrest : text.length = 2 * n := by
        simp only [List.length_cons] at hlength
        omega
      obtain ⟨key, hkey, hspells⟩ := ih hrest fun e he => hdigits e (by simp [he])
      have hbyte : (UInt8.ofNat (16 * hi + lo)).toNat = 16 * hi + lo := UInt8.toNat_ofNat_of_lt' (by
        simp [UInt8.size]; omega)
      refine ⟨UInt8.ofNat (16 * hi + lo) :: key, by rw [List.length_cons, hkey], ?_⟩
      simp only [Spells, List.map_cons, List.flatMap_cons, List.cons_append, List.nil_append, List.cons.injEq, hbyte]
      rw [show (16 * hi + lo) / 16 = hi by omega, show (16 * hi + lo) % 16 = lo by omega]
      exact ⟨hc, hd, hspells⟩

theorem isHexKey_iff (text : List Char) : IsHexKey text ↔ ∃ key : List Byte, key.length = 32 ∧ Spells text key := by
  constructor
  · rintro ⟨hlength, hdigits⟩
    exact exists_spells hlength hdigits
  · rintro ⟨key, hkey, hspells⟩
    obtain ⟨hlength, hdigits⟩ := hspells.digits
    exact ⟨by rw [hlength, hkey], hdigits⟩

theorem parseHexKey_spells {hex : String} {key : List Byte} (hkey : key.length = 32)
    (h : Spells (trim hex.toList) key) : parseHexKey hex = key := by
  obtain ⟨hlength, hdigits⟩ := h.digits
  have hbytes : bytesOf (String.ofList (trim hex.toList)) = (trim hex.toList).map charByte :=
    toUTF8_ascii fun c hc => (hdigits c hc).ascii
  unfold parseHexKey
  simp only [hbytes, List.length_map, hlength, hkey, h.hexBytes]
  rfl

/-! ## What the broker signs with -/

/-- Some answer of the broker is signed with the key, whatever the signing function is. -/
def SignsWith (ephemeral : SigningKey) (mcp : McpConfig) (key : SigningKey) : Prop :=
  ∃ correlationId now request identity, ∀ hmac : Hmac, ∃ authorize,
    buildMcpBroker hmac ephemeral mcp correlationId now = some authorize ∧
      (authorize request identity).1 = .allow (sign hmac identity.tenant (requestSubject request) key)

theorem signsWith_iff (ephemeral : SigningKey) (mcp : McpConfig) (key : SigningKey) :
    SignsWith ephemeral mcp key ↔ mcp.tenants.entries ≠ [] ∧ key = signingKey ephemeral mcp := by
  constructor
  · rintro ⟨correlationId, now, request, identity, hsigned⟩
    -- The key itself as the signature tells it.
    obtain ⟨authorize, hbuilt, hanswer⟩ := hsigned fun key _ => key.key
    refine ⟨(buildMcpBroker_eq hbuilt).1, ?_⟩
    rcases buildMcpBroker_attestation hbuilt hanswer with heq | heq
    · have hkey : key.key = (signingKey ephemeral mcp).key := congrArg AttestationHeaders.signature heq
      exact congrArg SigningKey.mk hkey
    · simp [sign] at heq
  · rintro ⟨htenants, rfl⟩
    obtain ⟨⟨k, v⟩, entries, hentries⟩ := List.exists_cons_of_ne_nil htenants
    have hmem : (k, v) ∈ mcp.tenants.pairs := by
      rw [Table.mem_pairs, hentries]
      exact List.mem_cons_self
    obtain ⟨k', v', -, -, hlookup⟩ := tenantConfigs_lookup mcp hmem
    refine ⟨0, 0, .toolList, ⟨⟨tenantIdFromKey k⟩, ""⟩, fun hmac => ?_⟩
    obtain ⟨authorize, hbuilt, hdecision⟩ := buildMcpBroker_decision hmac ephemeral mcp 0 0 hlookup
    exact ⟨authorize, hbuilt, hdecision _ _⟩

/-- The keys that a configuration stands for: the one it spells out, or the random one. -/
def Sourced (ephemeral : SigningKey) (mcp : McpConfig) (key : SigningKey) : Prop :=
  key = ephemeral ∨ ∃ hex ∈ mcp.signingKeyHex, key.key.length = 32 ∧ Spells (trim hex.toList) key.key

/-- **Strict keys, exactly.** A text that spells out 32 bytes is read as these bytes. The broker signs with no other
key than such a one or the random one if and only if it has no tenant, or has no key text, or its key text is one of 64
hexadecimal digits. -/
theorem signing_key_sourced_iff (mcp : McpConfig) :
    (∀ hex key, key.length = 32 → Spells (trim hex.toList) key → parseHexKey hex = key) ∧
    ((∀ ephemeral key, SignsWith ephemeral mcp key → Sourced ephemeral mcp key) ↔
      mcp.tenants.entries = [] ∨ ∀ hex ∈ mcp.signingKeyHex, IsHexKey (trim hex.toList)) := by
  refine ⟨fun hex key hkey h => parseHexKey_spells hkey h, ?_⟩
  simp only [signsWith_iff]
  constructor
  · intro hsourced
    rw [or_iff_not_imp_left]
    intro htenants hex hhex
    have hkey : ∀ ephemeral, signingKey ephemeral mcp = ⟨parseHexKey hex⟩ := fun ephemeral => by
      simp only [signingKey, Option.mem_def.mp hhex]
    -- A random key other than the one in use shows that it is not the random one.
    rcases hsourced ⟨0 :: parseHexKey hex⟩ _ ⟨htenants, rfl⟩ with hrandom | ⟨hex', hhex', hlength, hspells⟩
    · rw [hkey, SigningKey.mk.injEq] at hrandom
      exact absurd (congrArg List.length hrandom) (by simp)
    · rw [Option.mem_unique hhex hhex']
      exact (isHexKey_iff _).mpr ⟨_, hlength, hspells⟩
  · rintro hwhen ephemeral _ ⟨htenants, rfl⟩
    have hdigits := hwhen.resolve_left htenants
    cases hhex : mcp.signingKeyHex with
    | none => exact .inl (by simp only [signingKey, hhex])
    | some hex =>
      obtain ⟨key, hlength, hspells⟩ := (isHexKey_iff _).mp (hdigits hex hhex)
      refine .inr ⟨hex, hhex, ?_⟩
      simp only [signingKey, hhex, parseHexKey_spells hlength hspells]
      exact ⟨hlength, hspells⟩

/-- A broker with one tenant and a key text. -/
def keyed (hex : String) : McpConfig where
  tenants := Table.collect [("acme", {})]
  signingKeyHex := some hex

theorem mixed_case_sourced :
    let hex := " aBaBaBaBaBaBaBaBaBaBaBaBaBaBaBaBaBaBaBaBaBaBaBaBaBaBaBaBaBaBaBaB\n"
    parseHexKey hex = List.replicate 32 171 ∧
    ∀ ephemeral key, SignsWith ephemeral (keyed hex) key → Sourced ephemeral (keyed hex) key := by
  intro hex
  have hspells : Spells (trim hex.toList) (List.replicate 32 171) := by
    unfold Spells
    decide
  obtain ⟨hparse, hsourced⟩ := signing_key_sourced_iff (keyed hex)
  refine ⟨hparse hex _ (by decide) hspells, hsourced.mpr (.inr ?_)⟩
  rintro _ ⟨⟩
  exact (isHexKey_iff _).mpr ⟨_, by decide, hspells⟩

/-- Eight digits, and 32 pairs of a plus sign and a digit. The first broker signs with the zero key. -/
theorem keys_not_spelled_out :
    let short := keyed "deadbeef"
    let signs := keyed "+f+f+f+f+f+f+f+f+f+f+f+f+f+f+f+f+f+f+f+f+f+f+f+f+f+f+f+f+f+f+f+f"
    (SignsWith demoKey short ⟨List.replicate 32 0⟩ ∧ ¬ Sourced demoKey short ⟨List.replicate 32 0⟩) ∧
    SignsWith demoKey signs ⟨List.replicate 32 15⟩ ∧ ¬ Sourced demoKey signs ⟨List.replicate 32 15⟩ := by
  have hnot : ∀ hex key, ¬ IsHexKey (trim hex.toList) → key ≠ demoKey → ¬ Sourced demoKey (keyed hex) key := by
    rintro hex key hdigits hkey (hrandom | ⟨hex', hhex, hlength, hspells⟩)
    · exact hkey hrandom
    · cases hhex
      exact hdigits ((isHexKey_iff _).mpr ⟨_, hlength, hspells⟩)
  refine ⟨⟨(signsWith_iff _ _ _).mpr ⟨by decide, by decide⟩, hnot _ _ (fun h => ?_) (by decide)⟩,
    (signsWith_iff _ _ _).mpr ⟨by decide, by decide⟩, hnot _ _ (fun h => ?_) (by decide)⟩
  · exact absurd h.1 (by decide)
  · exact absurd (h.2 '+' (by decide)) (by decide)

end Riftgate.Broker
