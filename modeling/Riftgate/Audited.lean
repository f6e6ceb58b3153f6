import Riftgate.Tenants
import Riftgate.Code.Audit

/-!
# Which decisions are on record

The broker hands each decision to the WAL and does not look at the answer.
-/

open Lib

namespace Riftgate.Audit

open Mcp Broker

/-- One call of `authorize`, with what the WAL answers while it runs. -/
structure Call where
  correlationId : UInt64
  now : SystemTime
  request : McpRequest
  identity : TenantIdentity
  append : WalAppend

/-- What the policy says of a call. A dry run does not change it. -/
def verdict (broker : AllowlistBroker) (c : Call) : AuditDecision :=
  match broker.tenants c.identity.tenant.id with
  | none => .deny
  | some al => if evaluate al c.request c.now = none then .allow else .deny

/-- The event of a call. -/
def Call.event (broker : AllowlistBroker) (c : Call) : McpAuditEvent :=
  auditEvent c.correlationId c.request c.identity (verdict broker c) c.now

section

variable (toVec : ToVec) (hmac : Hmac) (broker : AllowlistBroker) (dryRun : Bool)

/-- The broker itself, or under `DryRunBroker`. -/
def callBroker (c : Call) : McpRequest → TenantIdentity → CapabilityDecision × McpAuditEvent :=
  if dryRun then dryRunAuthorize (broker.authorize hmac c.correlationId c.now)
  else broker.authorize hmac c.correlationId c.now

def Call.authorize (c : Call) : CapabilityDecision × List AppendCall :=
  audited toVec c.append (callBroker hmac broker dryRun c) c.request c.identity

/-- All appends of a sequence of calls. -/
def ledger (calls : List Call) : List AppendCall :=
  calls.flatMap fun c => (c.authorize toVec hmac broker dryRun).2

/-- The ledger has got one entry from this call. It is the line of a record of its tenant, subject and decision, and
the WAL has taken it under `Fsync`. -/
def Recorded (before : List Call) (c : Call) : Prop :=
  ∃ record bytes id, record.tenant = c.identity.tenant.id ∧ record.subject = requestSubject c.request ∧
    record.decision = decisionText (verdict broker c) ∧ toVec record = .ok bytes ∧
    ledger toVec hmac broker dryRun (before ++ [c]) =
      ledger toVec hmac broker dryRun before ++ [⟨bytes ++ [10], .fsync, .ok id⟩]

/-- The record can be written as JSON, and the WAL takes the line. -/
def Written (c : Call) : Prop :=
  ∃ bytes id, toVec (auditRecord (c.event broker)) = .ok bytes ∧ c.append (bytes ++ [10]) .fsync = .ok id

/-! ## One call -/

theorem authorize_event (c : Call) :
    (broker.authorize hmac c.correlationId c.now c.request c.identity).2 = c.event broker := by
  unfold AllowlistBroker.authorize Call.event verdict
  cases htenant : broker.tenants c.identity.tenant.id with
  | none => rfl
  | some al =>
    cases heval : evaluate al c.request c.now with
    | none => simp [heval]
    | some reason => simp [heval]

theorem broker_event (c : Call) : (callBroker hmac broker dryRun c c.request c.identity).2 = c.event broker := by
  rw [← authorize_event hmac broker c]
  unfold callBroker
  split
  · rw [Tenant.dryRunAuthorize_event]
  · rfl

theorem authorize_appends (c : Call) :
    (c.authorize toVec hmac broker dryRun).2 = (write toVec c.append (c.event broker)).1 := by
  have hevent := broker_event hmac broker dryRun c
  unfold Call.authorize audited
  generalize callBroker hmac broker dryRun c c.request c.identity = r at hevent ⊢
  obtain ⟨decision, event⟩ := r
  simp only at hevent ⊢
  subst hevent
  unfold emitAudit
  split <;> simp_all

theorem authorize_allowed_iff (c : Call) :
    (∃ att, (c.authorize toVec hmac broker dryRun).1 = .allow att) ↔ dryRun = true ∨ verdict broker c = .allow := by
  unfold Call.authorize audited callBroker
  cases dryRun with
  | true =>
    simp only [if_true, true_or, iff_true]
    unfold dryRunAuthorize
    split
    · exact ⟨_, rfl⟩
    · exact ⟨_, rfl⟩
  | false =>
    simp only [Bool.false_eq_true, if_false, false_or]
    unfold AllowlistBroker.authorize verdict
    cases htenant : broker.tenants c.identity.tenant.id with
    | none => simp
    | some al =>
      cases heval : evaluate al c.request c.now with
      | none => simp [heval]
      | some reason => simp [heval]

theorem recorded_iff (before : List Call) (c : Call) :
    Recorded toVec hmac broker dryRun before c ↔ Written toVec broker c := by
  have hledger : ledger toVec hmac broker dryRun (before ++ [c]) =
      ledger toVec hmac broker dryRun before ++ (write toVec c.append (c.event broker)).1 := by
    unfold ledger
    rw [List.flatMap_append, List.flatMap_singleton, authorize_appends]
  unfold Recorded Written
  rw [hledger]
  unfold write
  constructor
  · rintro ⟨record, bytes, id, -, -, -, -, happended⟩
    rw [List.append_cancel_left_eq] at happended
    split at happended
    · cases happended
    · rename_i line hline
      simp only [List.cons.injEq, AppendCall.mk.injEq, and_true, true_and] at happended
      exact ⟨line, id, hline, happended.2⟩
  · rintro ⟨bytes, id, hbytes, hid⟩
    refine ⟨auditRecord (c.event broker), bytes, id, rfl, rfl, rfl, hbytes, ?_⟩
    rw [hbytes]
    simp only [hid]

/-! ## All calls -/

/-- **The audit log, exactly.** Along a sequence of calls, each call that is allowed has left its one durable record
if and only if each call that the policy allows, and under a dry run each call, could be written. -/
theorem allowed_recorded_iff (calls : List Call) :
    (∀ before c after, calls = before ++ c :: after → ∀ att, (c.authorize toVec hmac broker dryRun).1 = .allow att →
      Recorded toVec hmac broker dryRun before c) ↔
      ∀ c ∈ calls, dryRun = true ∨ verdict broker c = .allow → Written toVec broker c := by
  constructor
  · intro h c hc hallow
    obtain ⟨before, after, rfl⟩ := List.append_of_mem hc
    obtain ⟨att, hatt⟩ := (authorize_allowed_iff toVec hmac broker dryRun c).mpr hallow
    exact (recorded_iff toVec hmac broker dryRun before c).mp (h before c after rfl att hatt)
  · rintro h before c after rfl att hatt
    have hallow := (authorize_allowed_iff toVec hmac broker dryRun c).mp ⟨att, hatt⟩
    exact (recorded_iff toVec hmac broker dryRun before c).mpr (h c (by simp) hallow)

end

/-- `serde_json::to_vec` of a record whose texts have nothing to escape. -/
def plainToVec : ToVec := fun record =>
  .ok (bytesOf ("\x7b\"correlation_id\":\"" ++ record.correlationId ++ "\",\"tenant\":" ++ toString record.tenant ++
    ",\"subject\":\"" ++ record.subject ++ "\",\"argument_hash\":\"" ++ record.argumentHash ++ "\",\"decision\":\"" ++
    record.decision ++ "\",\"timestamp_unix_secs\":" ++ toString record.timestampUnixSecs ++ "\x7d"))

/-- The disk is full. The tool is allowed, and no record of it exists. -/
theorem allowed_without_record :
    let broker := AllowlistBroker.new (fun id => if id = 1 then some { allowedTools := ["search-web"] } else none)
      ⟨[1, 2, 3]⟩
    let c : Call := ⟨7, 0, .toolCall "search-web" (List.replicate 32 0), ⟨⟨1⟩, "alice"⟩,
      fun _ _ => .error "No space left on device"⟩
    (∃ att, (c.authorize plainToVec Tenant.demoHmac broker false).1 = .allow att) ∧
    ¬ Recorded plainToVec Tenant.demoHmac broker false [] c := by
  intro broker c
  refine ⟨(authorize_allowed_iff plainToVec Tenant.demoHmac broker false c).mpr (.inr rfl), ?_⟩
  rw [recorded_iff]
  rintro ⟨bytes, id, -, hid⟩
  cases hid

end Riftgate.Audit
