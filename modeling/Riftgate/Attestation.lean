import Riftgate.Code.Allowlist

/-!
# What an attestation proves

The signed message has the tenant, the subject and the decision. It does not have the kind of the
request. So the attestation of a prompt is also the attestation of a tool of the same name.
-/

open Lib

namespace Riftgate.Mcp

theorem bytesOf_injective {s t : String} (h : bytesOf s = bytesOf t) : s = t := by
  unfold bytesOf at h
  rw [String.toUTF8_eq_toByteArray, String.toUTF8_eq_toByteArray, Array.toList_inj] at h
  apply String.toByteArray_inj.mp
  exact ByteArray.ext h

theorem callerBytes_injective {c c' : TenantId} (h : toLe 4 c.id.toNat = toLe 4 c'.id.toNat) : c = c' := by
  have hof := congrArg ofLe h
  have hlt := c.id.toNat_lt
  have hlt' := c'.id.toNat_lt
  rw [ofLe_toLe, ofLe_toLe, Nat.mod_eq_of_lt (by omega), Nat.mod_eq_of_lt (by omega)] at hof
  cases c
  cases c'
  rw [TenantId.mk.injEq]
  exact UInt32.toNat_inj.mp hof

theorem signedMessage_inj {c c' : TenantId} {s s' : String}
    (h : signedMessage c' s' "allow" = signedMessage c s "allow") : c' = c ∧ s' = s := by
  unfold signedMessage at h
  rw [List.append_left_inj, List.append_left_inj] at h
  have hbar := List.append_inj (by simpa only [List.append_assoc] using h) (by rw [toLe_length, toLe_length])
  exact ⟨callerBytes_injective hbar.1, bytesOf_injective ((List.append_right_inj _).mp hbar.2)⟩

theorem verify_sign_iff {hmac : Hmac} (hinj : ∀ key, Function.Injective (hmac key)) (caller : TenantId)
    (subject t : String) (key : SigningKey) :
    verify hmac ⟨caller, t, "allow", (sign hmac caller subject key).signature⟩ key = true ↔ subject = t := by
  unfold verify sign
  rw [decide_eq_true_eq]
  constructor
  · intro h
    exact (signedMessage_inj (hinj key h)).2.symm
  · rintro rfl
    rfl

/-! ## Transplants

The caller has four bytes and the decision is one of two texts that end in different letters. So the bars in a subject
cannot be taken for those of the message.
-/

theorem signedMessage_getLast {decision : String} {b : Byte} (hlast : (bytesOf decision).getLast? = some b)
    (caller : TenantId) (subject : String) : (signedMessage caller subject decision).getLast? = some b := by
  unfold signedMessage
  rw [List.getLast?_append, hlast, Option.some_or]

theorem signedMessage_dryRun_ne (c c' : TenantId) (s s' : String) :
    signedMessage c' s' "allow-dry-run" ≠ signedMessage c s "allow" := by
  intro h
  have hlast := congrArg List.getLast? h
  rw [signedMessage_getLast (b := 110) (by decide), signedMessage_getLast (b := 119) (by decide)] at hlast
  exact absurd hlast (by decide)

/-- **No transplants.** The signature of an attestation is good for its own caller and subject, and for the decision
`allow`, and for nothing else. -/
theorem verify_transplant_iff {hmac : Hmac} (hinj : ∀ key, Function.Injective (hmac key)) (caller caller' : TenantId)
    (subject subject' decision' : String) (key : SigningKey)
    (hdecision : decision' = "allow" ∨ decision' = "allow-dry-run") :
    verify hmac ⟨caller', subject', decision', (sign hmac caller subject key).signature⟩ key = true ↔
      caller' = caller ∧ subject' = subject ∧ decision' = "allow" := by
  unfold verify sign
  rw [decide_eq_true_eq, (hinj key).eq_iff]
  rcases hdecision with rfl | rfl
  · constructor
    · intro h
      obtain ⟨hcaller, hsubject⟩ := signedMessage_inj h
      exact ⟨hcaller, hsubject, rfl⟩
    · rintro ⟨rfl, rfl, -⟩
      rfl
  · constructor
    · intro h
      exact absurd h (signedMessage_dryRun_ne caller caller' subject subject')
    · rintro ⟨-, -, h⟩
      exact absurd h (by decide)

/-- A subject that ends like a message. -/
theorem verify_transplant_bar :
    let hmac : Hmac := fun key message => key.key ++ message
    (∀ key, Function.Injective (hmac key)) ∧
    (verify hmac ⟨⟨7⟩, "search|allow", "allow", (sign hmac ⟨7⟩ "search" ⟨[1, 2, 3]⟩).signature⟩ ⟨[1, 2, 3]⟩ = true ↔
      (⟨7⟩ : TenantId) = ⟨7⟩ ∧ "search|allow" = "search" ∧ "allow" = "allow") := by
  intro hmac
  have hinj : ∀ key, Function.Injective (hmac key) := fun key => List.append_right_injective key.key
  exact ⟨hinj, verify_transplant_iff hinj ⟨7⟩ ⟨7⟩ "search" "search|allow" "allow" ⟨[1, 2, 3]⟩ (.inl rfl)⟩

/-! ## One call of authorize -/

structure AuthorizeCall where
  correlationId : UInt64
  now : SystemTime
  request : McpRequest
  identity : TenantIdentity
  deriving DecidableEq, Repr

def AllowlistBroker.decide (hmac : Hmac) (broker : AllowlistBroker) (c : AuthorizeCall) : CapabilityDecision :=
  (broker.authorize hmac c.correlationId c.now c.request c.identity).1

/-- `check_tool` permits the tool for the tenant of the call, at the time of the call. -/
def AllowlistBroker.Permits (broker : AllowlistBroker) (c : AuthorizeCall) (tool : String) : Prop :=
  ∃ al, broker.tenants c.identity.tenant.id = some al ∧ al.checkTool tool c.now = none

/-- If the call is allowed with a signature that a server accepts for a tool, then the tool is
permitted. -/
def Sound (hmac : Hmac) (broker : AllowlistBroker) (c : AuthorizeCall) : Prop :=
  ∀ attestation tool, broker.decide hmac c = .allow attestation →
    verify hmac ⟨c.identity.tenant, tool, "allow", attestation.signature⟩ broker.signingKey = true →
    broker.Permits c tool

/-- The call is a `tools/call`, or it is denied, or its subject is a permitted tool. -/
def Harmless (broker : AllowlistBroker) (c : AuthorizeCall) : Prop :=
  match broker.tenants c.identity.tenant.id, c.request with
  | none, _ => True
  | some _, .toolCall _ _ => True
  | some al, .resourceRead uri => al.checkResource uri ≠ none ∨ al.checkTool uri c.now = none
  | some al, request => al.checkTool (requestSubject request) c.now = none

theorem authorize_allow_iff {hmac : Hmac} {broker : AllowlistBroker} {c : AuthorizeCall} {att : AttestationHeaders} :
    broker.decide hmac c = .allow att ↔
      ∃ al, broker.tenants c.identity.tenant.id = some al ∧ evaluate al c.request c.now = none ∧
        att = sign hmac c.identity.tenant (requestSubject c.request) broker.signingKey := by
  unfold AllowlistBroker.decide AllowlistBroker.authorize
  split
  · rename_i hal
    simp [hal]
  · rename_i al hal
    split
    · rename_i reason heval
      simp [hal, heval]
    · rename_i heval
      simp [hal, heval, eq_comm]

theorem sound_iff_subject {hmac : Hmac} (hinj : ∀ key, Function.Injective (hmac key)) (broker : AllowlistBroker)
    (c : AuthorizeCall) :
    Sound hmac broker c ↔ ∀ al, broker.tenants c.identity.tenant.id = some al →
      evaluate al c.request c.now = none → al.checkTool (requestSubject c.request) c.now = none := by
  unfold Sound AllowlistBroker.Permits
  constructor
  · intro h al hal heval
    obtain ⟨al', hal', hcheck⟩ := h _ (requestSubject c.request) (authorize_allow_iff.mpr ⟨al, hal, heval, rfl⟩)
      ((verify_sign_iff hinj _ _ _ _).mpr rfl)
    rw [hal, Option.some.injEq] at hal'
    rw [hal']
    exact hcheck
  · intro h att tool hallow hverify
    obtain ⟨al, hal, heval, rfl⟩ := authorize_allow_iff.mp hallow
    rw [verify_sign_iff hinj] at hverify
    subst hverify
    exact ⟨al, hal, h al hal heval⟩

theorem sound_iff_harmless {hmac : Hmac} (hinj : ∀ key, Function.Injective (hmac key)) (broker : AllowlistBroker)
    (c : AuthorizeCall) : Sound hmac broker c ↔ Harmless broker c := by
  rw [sound_iff_subject hinj]
  unfold Harmless
  cases hal : broker.tenants c.identity.tenant.id with
  | none => simp
  | some al =>
    cases c.request with
    | toolCall tool hash => simp [evaluate, requestSubject]
    | resourceRead uri =>
      simp only [Option.some.injEq, forall_eq', evaluate, requestSubject]
      exact imp_iff_not_or
    | _ => simp [evaluate]

/-- **Attested tools, exactly.** For every sequence of calls, each allowed call attests only
permitted tools if and only if each call is a `tools/call`, is denied, or has a permitted tool as
its subject. -/
theorem authorize_sound_iff {hmac : Hmac} (hinj : ∀ key, Function.Injective (hmac key)) (broker : AllowlistBroker)
    (calls : List AuthorizeCall) :
    (∀ c ∈ calls, Sound hmac broker c) ↔ ∀ c ∈ calls, Harmless broker c := by
  constructor
  · intro h c hc
    exact (sound_iff_harmless hinj broker c).mp (h c hc)
  · intro h c hc
    exact (sound_iff_harmless hinj broker c).mpr (h c hc)

theorem authorize_sound_iff_two :
    let hmac : Hmac := fun key message => key.key ++ message
    let broker := AllowlistBroker.new
      (fun tid => if tid = 1 then some { allowedTools := ["search-web"] } else none) ⟨[1, 2, 3]⟩
    let id : TenantIdentity := ⟨⟨1⟩, "alice"⟩
    let calls : List AuthorizeCall := [⟨1, 50, .toolCall "search-web" [], id⟩, ⟨2, 60, .promptGet "search-web", id⟩]
    (∀ key, Function.Injective (hmac key)) ∧
      ((∀ c ∈ calls, Sound hmac broker c) ↔ ∀ c ∈ calls, Harmless broker c) := by
  intro hmac broker id calls
  have hinj : ∀ key, Function.Injective (hmac key) := fun key => List.append_right_injective key.key
  exact ⟨hinj, authorize_sound_iff hinj broker calls⟩

/-- `filesystem-write` is a denied tool. A prompt of that name is allowed, with a signature that
is good for the tool. -/
theorem prompt_attests_denied_tool :
    let hmac : Hmac := fun key message => key.key ++ message
    let broker := AllowlistBroker.new
      (fun tid => if tid = 1 then some { deniedTools := ["filesystem-write"] } else none) ⟨[1, 2, 3]⟩
    let c : AuthorizeCall := ⟨1, 50, .promptGet "filesystem-write", ⟨⟨1⟩, "alice"⟩⟩
    (∀ key, Function.Injective (hmac key)) ∧ ¬ ∀ c' ∈ [c], Sound hmac broker c' := by
  intro hmac broker c
  have hinj : ∀ key, Function.Injective (hmac key) := fun key => List.append_right_injective key.key
  refine ⟨hinj, fun h => ?_⟩
  have hs := (sound_iff_subject hinj broker c).mp (h c (by simp))
  have := hs (fromConfig { deniedTools := ["filesystem-write"] }) (by simp [broker, AllowlistBroker.new, c]) rfl
  simp [CompiledAllowlist.checkTool, fromConfig, requestSubject, c] at this

end Riftgate.Mcp
