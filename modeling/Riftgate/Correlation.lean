import Riftgate.Attested
import Riftgate.Code.RequestIds

/-!
# Which request a record belongs to

A record has an id that no request and no other record has. So it cannot be joined to its request.
-/

open Lib

namespace Riftgate.RequestIds

open Mcp McpParser Proxy Broker Tenant

/-- The id of a draw. -/
def idOf (draw : Nat) : UInt64 := UInt64.ofNat (draw + 1)

theorem idOf_eq_iff {a b : Nat} : idOf a = idOf b ↔ a % 2 ^ 64 = b % 2 ^ 64 := by
  unfold idOf
  rw [← UInt64.toNat_inj, UInt64.toNat_ofNat', UInt64.toNat_ofNat']
  omega

theorem idOf_succ (draw : Nat) : idOf draw + 1 = idOf (draw + 1) := by
  unfold idOf
  rw [← UInt64.toNat_inj, UInt64.toNat_add, UInt64.toNat_ofNat', UInt64.toNat_ofNat']
  have hone : (1 : UInt64).toNat = 1 := rfl
  omega

/-! ## The steps -/

section

variable {libs : ParserLibs} {hmac : Hmac} {ephemeral : SigningKey} {mcp : McpConfig}

theorem audit_correlationId {h : Handling} {correlationId : UInt64} {now : SystemTime} {event : McpAuditEvent}
    (ha : h.audit libs hmac ephemeral mcp correlationId now = some event) : event.correlationId = correlationId := by
  have hinner : ∀ (broker : AllowlistBroker) request identity,
      (broker.authorize hmac correlationId now request identity).2.correlationId = correlationId := by
    intro broker request identity
    unfold AllowlistBroker.authorize
    split
    · rfl
    · split <;> rfl
  unfold Handling.audit at ha
  split at ha
  · rename_i authorize request identity decision hbroker hlog
    cases ha
    obtain ⟨-, broker, -, rfl | rfl⟩ := buildMcpBroker_eq hbroker
    · exact hinner broker request identity
    · rw [dryRunAuthorize_event]
      exact hinner broker request identity
  · cases ha

/-- What each step does to the draws. -/
inductive Steps (s : State) : State → Prop where
  | receive (env : HandlerState) (request : Request) :
      Steps s { s.next with handlers := s.handlers ++ [⟨env, request, s.counter, s.draws, .received⟩] }
  | authorize {k : Nat} {h : Handling} {event : McpAuditEvent} (hk : s.handlers[k]? = some h)
      (hphase : h.phase = .received) (hid : event.correlationId = s.counter) :
      Steps s (s.next.set k h (.auditing event s.draws))
  | written {k : Nat} {h : Handling} {event : McpAuditEvent} {draw : Nat} (hk : s.handlers[k]? = some h)
      (hphase : h.phase = .auditing event draw) :
      Steps s { s.set k h (.answered event) with records := s.records ++ [⟨k, event, draw⟩] }
  | silent {k : Nat} {h : Handling} {phase : Phase} (hk : s.handlers[k]? = some h)
      (hphase : ∀ event draw, phase ≠ .auditing event draw) : Steps s (s.set k h phase)

theorem steps_of_step {s s' : State} {a : Label} (h : s.step libs hmac ephemeral mcp a = some s') : Steps s s' := by
  cases a with
  | receive env request =>
    cases h
    exact .receive env request
  | authorize k now =>
    obtain ⟨handling, hk, h⟩ := Option.bind_eq_some_iff.mp h
    split at h
    · rename_i event hphase haudit
      cases h
      exact .authorize hk hphase (audit_correlationId haudit)
    · cases h
  | write k ok =>
    obtain ⟨handling, hk, h⟩ := Option.bind_eq_some_iff.mp h
    split at h
    · rename_i event draw hphase
      cases h
      cases ok with
      | true => exact .written hk hphase
      | false =>
        simp only [Bool.false_eq_true, if_false, List.append_nil]
        exact .silent hk (by simp)
    · cases h
  | finish k =>
    obtain ⟨handling, hk, h⟩ := Option.bind_eq_some_iff.mp h
    split at h
    · simp only at h
      split at h
      · cases h
        exact .silent hk (by simp)
      · cases h
    · cases h
      exact .silent hk (by simp)
    · cases h

/-! ## The draws -/

/-- The draw of a record that is not written yet. -/
def Handling.pending (h : Handling) : Option Nat :=
  match h.phase with
  | .auditing _ draw => some draw
  | _ => none

theorem set_draws {s : State} {k : Nat} {h : Handling} (hk : s.handlers[k]? = some h) (phase : Phase) :
    (s.set k h phase).handlers.map (·.draw) = s.handlers.map (·.draw) := by
  obtain ⟨hlt, rfl⟩ := List.getElem?_eq_some_iff.mp hk
  unfold State.set
  rw [List.map_set]
  refine List.ext_getElem (by simp) fun j hj hj' => ?_
  rw [List.getElem_set]
  split
  · rename_i hkj
    subst hkj
    simp
  · rfl

theorem mem_set {s : State} {k : Nat} {h x : Handling} {phase : Phase} (hk : s.handlers[k]? = some h)
    (hx : x ∈ (s.set k h phase).handlers) : x ∈ s.handlers ∨ h ∈ s.handlers ∧ x = { h with phase := phase } := by
  rcases List.mem_or_eq_of_mem_set hx with hx | hx
  · exact .inl hx
  · exact .inr ⟨List.mem_of_getElem? hk, hx⟩

/-- Ids follow the draws, and each draw for a record comes after the draw of its request. -/
structure Numbered (s : State) : Prop where
  counter : s.counter = idOf s.draws
  requests : ∀ h ∈ s.handlers, h.requestId = idOf h.draw ∧ h.draw < s.draws
  auditing : ∀ h ∈ s.handlers, ∀ event draw, h.phase = .auditing event draw →
    event.correlationId = idOf draw ∧ h.draw < draw ∧ draw < s.draws
  records : ∀ r ∈ s.records, r.event.correlationId = idOf r.draw ∧ r.draw < s.draws ∧
    ∃ d, (s.handlers.map (·.draw))[r.handler]? = some d ∧ d < r.draw

theorem Numbered.next {s : State} (hi : Numbered s) : Numbered s.next := by
  refine ⟨(congrArg (· + 1) hi.counter).trans (idOf_succ s.draws), ?_, ?_, ?_⟩
  · intro h hh
    obtain ⟨hid, hdraw⟩ := hi.requests h hh
    exact ⟨hid, Nat.lt_succ_of_lt hdraw⟩
  · intro h hh event draw hphase
    obtain ⟨hid, hlt, hdraws⟩ := hi.auditing h hh event draw hphase
    exact ⟨hid, hlt, Nat.lt_succ_of_lt hdraws⟩
  · intro r hr
    obtain ⟨hid, hdraws, hrequest⟩ := hi.records r hr
    exact ⟨hid, Nat.lt_succ_of_lt hdraws, hrequest⟩

theorem Numbered.set {s : State} (hi : Numbered s) {k : Nat} {h : Handling} {phase : Phase}
    (hk : s.handlers[k]? = some h)
    (hphase : ∀ event draw, phase = .auditing event draw →
      event.correlationId = idOf draw ∧ h.draw < draw ∧ draw < s.draws) : Numbered (s.set k h phase) := by
  refine ⟨hi.counter, ?_, ?_, ?_⟩
  · intro x hx
    rcases mem_set hk hx with hx | ⟨hh, rfl⟩
    · exact hi.requests x hx
    · exact hi.requests h hh
  · intro x hx event draw hx'
    rcases mem_set hk hx with hx | ⟨-, rfl⟩
    · exact hi.auditing x hx event draw hx'
    · exact hphase event draw hx'
  · intro r hr
    obtain ⟨hcorr, hdraws, d, hd, hlt⟩ := hi.records r hr
    refine ⟨hcorr, hdraws, d, ?_, hlt⟩
    rw [set_draws hk]
    exact hd

theorem Numbered.add {s : State} (hi : Numbered s) {h : Handling} (hid : h.requestId = idOf h.draw)
    (hdraw : h.draw < s.draws) (hphase : h.phase = .received) : Numbered { s with handlers := s.handlers ++ [h] } := by
  refine ⟨hi.counter, ?_, ?_, ?_⟩
  · intro x hx
    rcases List.mem_append.mp hx with hx | hx
    · exact hi.requests x hx
    · rw [List.mem_singleton.mp hx]
      exact ⟨hid, hdraw⟩
  · intro x hx event draw hx'
    rcases List.mem_append.mp hx with hx | hx
    · exact hi.auditing x hx event draw hx'
    · rw [List.mem_singleton.mp hx, hphase] at hx'
      cases hx'
  · intro r hr
    obtain ⟨hcorr, hdraws, d, hd, hlt⟩ := hi.records r hr
    refine ⟨hcorr, hdraws, d, ?_, hlt⟩
    rw [List.map_append, List.getElem?_append_left (List.getElem?_eq_some_iff.mp hd).1]
    exact hd

theorem steps_numbered {s s' : State} (hi : Numbered s) (hstep : Steps s s') : Numbered s' := by
  cases hstep with
  | receive env request => exact hi.next.add hi.counter (Nat.lt_succ_self s.draws) rfl
  | @authorize k h event hk hphase hid =>
    refine hi.next.set hk ?_
    intro event' draw heq
    cases heq
    exact ⟨hid.trans hi.counter, (hi.requests h (List.mem_of_getElem? hk)).2, Nat.lt_succ_self s.draws⟩
  | @written k h event draw hk hphase =>
    obtain ⟨hcorr, hlt, hdraws⟩ := hi.auditing h (List.mem_of_getElem? hk) event draw hphase
    have hset : Numbered (s.set k h (.answered event)) := hi.set hk nofun
    refine ⟨hset.counter, hset.requests, hset.auditing, ?_⟩
    intro r hr
    rcases List.mem_append.mp hr with hr | hr
    · exact hset.records r hr
    · rw [List.mem_singleton] at hr
      subst hr
      refine ⟨hcorr, hdraws, h.draw, ?_, hlt⟩
      show ((s.set k h (.answered event)).handlers.map (·.draw))[k]? = some h.draw
      rw [set_draws hk, List.getElem?_map, hk, Option.map_some]
  | silent hk hphase => exact hi.set hk fun event draw heq => absurd heq (hphase event draw)

/-! ## No draw is used twice -/

/-- The draws of all records, the pending ones last. -/
def State.auditDraws (s : State) : List Nat := s.records.map (·.draw) ++ s.handlers.filterMap Handling.pending

theorem auditDraws_lt {s : State} (hi : Numbered s) : ∀ d ∈ s.auditDraws, d < s.draws := by
  intro d hd
  unfold State.auditDraws at hd
  rcases List.mem_append.mp hd with hd | hd
  · obtain ⟨r, hr, rfl⟩ := List.mem_map.mp hd
    exact (hi.records r hr).2.1
  · obtain ⟨h, hh, hpending⟩ := List.mem_filterMap.mp hd
    unfold Handling.pending at hpending
    split at hpending
    · rename_i event draw hphase
      cases hpending
      exact (hi.auditing h hh event d hphase).2.2
    · cases hpending

theorem pending_set {l : List Handling} {k : Nat} {h : Handling} (hk : l[k]? = some h) :
    ∃ others, (l.filterMap Handling.pending).Perm (h.pending.toList ++ others) ∧
      ∀ h' : Handling, ((l.set k h').filterMap Handling.pending).Perm (h'.pending.toList ++ others) := by
  obtain ⟨hlt, rfl⟩ := List.getElem?_eq_some_iff.mp hk
  have hperm : ∀ x : Handling, ((l.take k ++ x :: l.drop (k + 1)).filterMap Handling.pending).Perm
      (x.pending.toList ++ ((l.take k).filterMap Handling.pending ++ (l.drop (k + 1)).filterMap Handling.pending)) := by
    intro x
    rw [List.filterMap_append, List.filterMap_cons]
    cases x.pending with
    | none => exact List.Perm.refl _
    | some d => exact List.perm_middle
  refine ⟨(l.take k).filterMap Handling.pending ++ (l.drop (k + 1)).filterMap Handling.pending, ?_, fun h' => ?_⟩
  · have h := hperm l[k]
    rw [List.getElem_cons_drop, List.take_append_drop] at h
    exact h
  · rw [List.set_eq_take_append_cons_drop, if_pos hlt]
    exact hperm h'

theorem steps_distinct {s s' : State} (hi : Numbered s) (hd : s.auditDraws.Nodup) (hstep : Steps s s') :
    s'.auditDraws.Nodup := by
  unfold State.auditDraws at hd
  cases hstep with
  | receive env request =>
    unfold State.auditDraws
    rw [List.filterMap_append]
    simp only [List.filterMap_cons, Handling.pending, List.filterMap_nil, List.append_nil]
    exact hd
  | @authorize k h event hk hphase hid =>
    obtain ⟨others, hbefore, hafter⟩ := pending_set hk
    have hnone : h.pending = none := by simp [Handling.pending, hphase]
    rw [hnone, Option.toList_none, List.nil_append] at hbefore
    have hfresh : s.draws ∉ s.auditDraws := fun hmem => Nat.lt_irrefl _ (auditDraws_lt hi _ hmem)
    have hset := (hafter { h with phase := .auditing event s.draws }).append_left (s.records.map (·.draw))
    have hperm := hset.trans (List.perm_middle.trans ((hbefore.symm.append_left _).cons s.draws))
    exact hperm.nodup_iff.mpr (List.nodup_cons.mpr ⟨hfresh, hd⟩)
  | @written k h event draw hk hphase =>
    obtain ⟨others, hbefore, hafter⟩ := pending_set hk
    have hsome : h.pending = some draw := by simp [Handling.pending, hphase]
    rw [hsome] at hbefore
    have hset : ((s.set k h (.answered event)).handlers.filterMap Handling.pending).Perm others :=
      hafter { h with phase := .answered event }
    have hperm := (hbefore.trans (hset.symm.cons draw)).append_left (s.records.map (·.draw))
    unfold State.auditDraws
    rw [List.map_append, List.append_assoc]
    exact hperm.nodup_iff.mp hd
  | @silent k h phase hk hphase =>
    obtain ⟨others, hbefore, hafter⟩ := pending_set hk
    have hnone : ({ h with phase := phase } : Handling).pending = none := by
      unfold Handling.pending
      split
      · rename_i event draw heq
        exact absurd heq (hphase event draw)
      · rfl
    have hset := hafter { h with phase := phase }
    rw [hnone, Option.toList_none, List.nil_append] at hset
    have hall := (hbefore.append_left (s.records.map (·.draw))).nodup_iff.mp hd
    have hsub := (List.sublist_append_right h.pending.toList others).append_left (s.records.map (·.draw))
    exact (hset.append_left _).nodup_iff.mpr (hall.sublist hsub)

/-! ## Records and requests -/

theorem reachable_numbered {s : State} (hs : (process libs hmac ephemeral mcp).Reachable s) :
    Numbered s ∧ s.auditDraws.Nodup := by
  have hinit : Numbered {} ∧ ({} : State).auditDraws.Nodup := ⟨⟨rfl, by simp, by simp, by simp⟩, List.nodup_nil⟩
  refine hs.invariant (I := fun s => Numbered s ∧ s.auditDraws.Nodup) hinit ?_
  rintro s a s' ⟨hi, hd⟩ hstep
  have hsteps := steps_of_step hstep
  exact ⟨steps_numbered hi hsteps, steps_distinct hi hd hsteps⟩

/-- Each record has the id of its request, and no two records have the same. -/
def Correlated (s : State) : Prop :=
  (∀ r ∈ s.records, ∃ h, s.handlers[r.handler]? = some h ∧ r.event.correlationId = h.requestId) ∧
  s.records.Pairwise fun r r' => r.event.correlationId ≠ r'.event.correlationId

/-- The counter has gone all the way round between each request and its record, and is at another place for each
record. -/
def WrapsAround (s : State) : Prop :=
  (∀ r ∈ s.records, ∃ h, s.handlers[r.handler]? = some h ∧ 2 ^ 64 ∣ r.draw - h.draw) ∧
  s.records.Pairwise fun r r' => r.draw % 2 ^ 64 ≠ r'.draw % 2 ^ 64

theorem record_of_request {s : State} (hi : Numbered s) {r : Written} (hr : r ∈ s.records) :
    ∃ h, s.handlers[r.handler]? = some h ∧ h.draw < r.draw ∧ r.draw < s.draws ∧
      (r.event.correlationId = h.requestId ↔ 2 ^ 64 ∣ r.draw - h.draw) := by
  obtain ⟨hcorr, hdraws, d, hd, hlt⟩ := hi.records r hr
  rw [List.getElem?_map, Option.map_eq_some_iff] at hd
  obtain ⟨h, hh, rfl⟩ := hd
  refine ⟨h, hh, hlt, hdraws, ?_⟩
  rw [hcorr, (hi.requests h (List.mem_of_getElem? hh)).1, idOf_eq_iff]
  omega

/-- **Correlation, exactly.** In every run the records have the ids of their requests, and no two the same, if and only
if the counter has wrapped around for each of them. As long as it does not wrap, that is when there is no record at all,
and the ids of the records are distinct. -/
theorem correlated_iff {s : State} (hs : (process libs hmac ephemeral mcp).Reachable s) :
    (Correlated s ↔ WrapsAround s) ∧
    (s.draws ≤ 2 ^ 64 → (Correlated s ↔ s.records = []) ∧
      s.records.Pairwise fun r r' => r.event.correlationId ≠ r'.event.correlationId) := by
  obtain ⟨hi, hd⟩ := reachable_numbered hs
  have hwraps : Correlated s ↔ WrapsAround s := by
    unfold Correlated WrapsAround
    refine and_congr (forall₂_congr fun r hr => ?_) (List.Pairwise.iff_of_mem fun {r r'} hr hr' => ?_)
    · obtain ⟨h, hh, -, -, hiff⟩ := record_of_request hi hr
      simp only [hh, Option.some.injEq, exists_eq_left', hiff]
    · rw [(hi.records r hr).1, (hi.records r' hr').1, ne_eq, idOf_eq_iff]
  refine ⟨hwraps, fun hbound => ⟨?_, ?_⟩⟩
  · constructor
    · intro hcorr
      refine List.eq_nil_iff_forall_not_mem.mpr fun r hr => ?_
      obtain ⟨h, hh, hlt, hdraws, -⟩ := record_of_request hi hr
      obtain ⟨h', hh', hdvd⟩ := (hwraps.mp hcorr).1 r hr
      rw [hh, Option.some.injEq] at hh'
      subst hh'
      have hle := Nat.le_of_dvd (by omega) hdvd
      omega
    · intro hnil
      simp [Correlated, hnil]
  · have hrecords := (List.nodup_append.mp hd).1
    rw [List.Nodup, List.pairwise_map] at hrecords
    refine hrecords.imp_of_mem fun {r r'} hr hr' hne => ?_
    obtain ⟨hcorr, hlt, -⟩ := hi.records r hr
    obtain ⟨hcorr', hlt', -⟩ := hi.records r' hr'
    rw [hcorr, hcorr', ne_eq, idOf_eq_iff, Nat.mod_eq_of_lt (by omega), Nat.mod_eq_of_lt (by omega)]
    exact hne

end

/-! ## One request -/

def promptHandling (phase : Phase) : Handling :=
  ⟨demoState (.response 200 []), promptRequest "summary", 1, 0, phase⟩

def promptEvent : McpAuditEvent := auditEvent 2 (.promptGet "summary") defaultIdentity .allow 0

/-- One request for a prompt, up to its record. -/
def promptLabels : List Label :=
  [.receive (demoState (.response 200 [])) (promptRequest "summary"), .authorize 0 0, .write 0 true]

def promptRecorded : State := ⟨3, 2, [promptHandling (.answered promptEvent)], [⟨0, promptEvent, 1⟩]⟩

theorem promptRecorded_reachable :
    (process (promptLibs "summary" "summary") demoHmac demoKey promptConfig).Reachable promptRecorded := by
  have haudit : (promptHandling .received).audit (promptLibs "summary" "summary") demoHmac demoKey promptConfig 2 0 =
      some promptEvent := by
    obtain ⟨authorize, hbroker, hallow⟩ := prompt_allowed "summary"
    have hlog : (beforeRouting ((promptHandling .received).gateway (promptLibs "summary" "summary") demoHmac demoKey promptConfig
        2 0) (promptRequest "summary")).1 = _ := congrArg Prod.fst (prompt_admitted "summary" "summary")
    unfold Handling.audit
    rw [hbroker]
    simp only [promptHandling] at hlog ⊢
    rw [hlog]
    simp only [hallow, promptEvent]
  have hrun : (process (promptLibs "summary" "summary") demoHmac demoKey promptConfig).run promptLabels =
      some promptRecorded := by
    simp only [promptHandling] at haudit
    simp [Machine.run, Machine.runFrom, promptLabels, process, State.step, State.next, State.set, haudit,
      promptRecorded, promptHandling]
  exact Machine.reachable_of_run hrun

theorem promptRecorded_correlated_iff :
    (process (promptLibs "summary" "summary") demoHmac demoKey promptConfig).Reachable promptRecorded ∧
    (Correlated promptRecorded ↔ WrapsAround promptRecorded) ∧ promptRecorded.draws ≤ 2 ^ 64 ∧
    (Correlated promptRecorded ↔ promptRecorded.records = []) := by
  have hs := promptRecorded_reachable
  have hdraws : promptRecorded.draws ≤ 2 ^ 64 := by decide
  exact ⟨hs, (correlated_iff hs).1, hdraws, ((correlated_iff hs).2 hdraws).1⟩

/-- The request has the first id and its record the second. -/
theorem prompt_not_correlated :
    (process (promptLibs "summary" "summary") demoHmac demoKey promptConfig).Reachable promptRecorded ∧
    promptRecorded.handlers.map (·.requestId) = [1] ∧ promptRecorded.records.map (·.event.correlationId) = [2] ∧
    ¬ Correlated promptRecorded := by
  refine ⟨promptRecorded_reachable, rfl, rfl, ?_⟩
  rintro ⟨hrecords, -⟩
  obtain ⟨h, hh, hid⟩ := hrecords _ List.mem_cons_self
  cases hh
  exact absurd hid (by decide)

end Riftgate.RequestIds
