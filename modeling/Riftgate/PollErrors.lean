import Riftgate.Arming

/-!
# What `poll` loses when it returns an error

`poll` drains the completions into a local list, then arms again. The list is gone when a submission fails, and so are
the files that the loop has not reached.
-/

open Lib

namespace Riftgate.Uring

open UringIO

/-! ## What the calls take, and what they return -/

/-- The events of the readiness completions that a call takes from the queue. -/
def Label.taken : Label → List Event
  | .poll _ cqes _ _ => cqes.filterMap Cqe.event
  | .register .. | .deregister _ => []

/-- The events that calls return, one call after the other. -/
def returned (s : Client) : List Label → List Event
  | [] => []
  | a :: later =>
    match s.step a with
    | none => []
    | some s' => s'.events ++ returned s' later

theorem waited_entries (io : UringIO) (wait : Wait) : (io.waited wait).entries = io.entries := by
  cases wait with
  | done => rfl
  | interrupted submitted => cases submitted <;> rfl
  | failed => rfl

theorem waited_registrations (io : UringIO) (wait : Wait) : (io.waited wait).registrations = io.registrations := by
  cases wait with
  | done => rfl
  | interrupted submitted => cases submitted <;> rfl
  | failed => rfl

theorem poll_cases {s s' : Client} {wait : Wait} {cqes : List Cqe} {pending : List PollAdd} {submitted : List Bool}
    (h : s.step (.poll wait cqes pending submitted) = some s') :
    (wait = .failed ∧ cqes = [] ∧ s'.io = s.io ∧ s'.ok = false ∧ s'.events = []) ∨
      (wait ≠ .failed ∧
        ∃ r, rearm (s.io.toRearm (cqes.filterMap Cqe.event)) submitted
            { s.io.waited wait with outstanding := pending } = r ∧
          s'.io = r.1 ∧ s'.ok = r.2 ∧ s'.events = if r.2 then cqes.filterMap Cqe.event else []) := by
  simp only [Client.step, Option.ite_none_right_eq_some, Option.some.injEq] at h
  obtain ⟨⟨-, hcqes⟩, rfl⟩ := h
  by_cases hwait : wait = .failed
  · refine Or.inl ⟨hwait, hcqes hwait, ?_⟩
    simp [Client.poll, UringIO.poll, hwait]
  · refine Or.inr ⟨hwait, _, rfl, ?_⟩
    have hrearm : (s.io.waited wait).toRearm (cqes.filterMap Cqe.event) =
        s.io.toRearm (cqes.filterMap Cqe.event) := by
      rw [toRearm, waited_registrations, toRearm]
    simp only [Client.poll, UringIO.poll, if_neg hwait, handle, hrearm]
    split
    · rename_i hok
      simp [hok]
    · rename_i hok
      simp [hok]

theorem events_of_step {s s' : Client} {a : Label} (h : s.step a = some s') : s'.events = a.taken ∨ s'.events = [] := by
  cases a with
  | register fd token interest submitted =>
    cases h
    exact Or.inr rfl
  | deregister fd =>
    cases h
    exact Or.inr rfl
  | poll wait cqes pending submitted =>
    rcases poll_cases h with ⟨-, -, -, -, hevents⟩ | ⟨-, r, -, -, -, hevents⟩
    · exact Or.inr hevents
    · rw [hevents]
      split
      · exact Or.inl rfl
      · exact Or.inr rfl

theorem length_returned_le (s : Client) (later : List Label) :
    (returned s later).length ≤ (later.flatMap Label.taken).length := by
  induction later generalizing s with
  | nil => exact Nat.le_refl 0
  | cons a later ih =>
    rw [returned, List.flatMap_cons, List.length_append]
    split
    · exact Nat.zero_le _
    · rename_i s' hstep
      have hle := ih s'
      rw [List.length_append]
      rcases events_of_step hstep with hevents | hevents
      · rw [hevents]
        omega
      · rw [hevents, List.length_nil]
        omega

/-! ## The loop that arms again -/

theorem rearm_accepted {rs : List (ℤ × UInt64 × Interest)} {submitted : List Bool} {s : UringIO} :
    (rearm rs submitted s).2 = true ↔
      rs = [] ∨ (s.submission.length < s.entries ∧ ∀ b ∈ submitted.take rs.length, b = true) := by
  induction rs generalizing submitted s with
  | nil => exact iff_of_true rfl (Or.inl rfl)
  | cons r rs ih =>
    rw [rearm, submitPoll]
    by_cases hfull : s.entries ≤ s.submission.length
    · rw [if_pos hfull]
      refine iff_of_false Bool.false_ne_true ?_
      rintro (h | ⟨h, -⟩)
      · cases h
      · omega
    · rw [if_neg hfull]
      have hroom : s.submission.length < s.entries := by omega
      have hempty : 0 < s.entries := by omega
      cases submitted with
      | nil => simp [ih, submit, hroom, hempty]
      | cons b submitted =>
        cases b with
        | true =>
          have hnone : rs = [] → false ∉ submitted.take rs.length := by
            rintro rfl
            exact List.not_mem_nil
          simpa [ih, submit, hroom, hempty] using hnone
        | false => simp

/-! ## What an error keeps -/

/-- The entry of a registration is in the kernel, or on its way there. -/
def IsArmed (io : UringIO) (r : ℤ × UInt64 × Interest) : Prop := entryOf r ∈ io.submission ++ io.outstanding

instance (io : UringIO) (r : ℤ × UInt64 × Interest) : Decidable (IsArmed io r) := inferInstanceAs (Decidable (_ ∈ _))

/-- In some continuation, what the call took is returned, by the call itself or on top of what later calls take. -/
def IsDelivered (a : Label) (s' : Client) : Prop :=
  ∃ later, (a.taken ++ later.flatMap Label.taken).Subperm (s'.events ++ returned s' later)

/-- After an error, nothing is lost and no file that is registered has lost its entry. -/
def KeepsOnError (s : Client) (a : Label) (s' : Client) : Prop :=
  s'.ok = false → IsDelivered a s' ∧ ∀ r ∈ s'.io.registrations.pairs, IsArmed s.io r → IsArmed s'.io r

/-- The wait itself fails, or no submission that arms again does: there is none, or the queue has room and the kernel
accepts each of them. -/
def IsAccepted (io : UringIO) (wait : Wait) (cqes : List Cqe) (submitted : List Bool) : Prop :=
  wait = .failed ∨ io.toRearm (cqes.filterMap Cqe.event) = [] ∨
    ((io.waited wait).submission.length < io.entries ∧
      ∀ b ∈ submitted.take (io.toRearm (cqes.filterMap Cqe.event)).length, b = true)

theorem taken_eq_nil {a : Label} {s' : Client} (hevents : s'.events = []) (h : IsDelivered a s') : a.taken = [] := by
  obtain ⟨later, hsub⟩ := h
  have hlength := hsub.length_le
  have hle := length_returned_le s' later
  rw [hevents, List.nil_append, List.length_append] at hlength
  rw [← List.length_eq_zero_iff]
  omega

theorem rearm_ok_iff_isAccepted {io : UringIO} {wait : Wait} {cqes : List Cqe} {pending : List PollAdd}
    {submitted : List Bool} {r : UringIO × Bool} (hwait : wait ≠ .failed)
    (h : rearm (io.toRearm (cqes.filterMap Cqe.event)) submitted { io.waited wait with outstanding := pending } = r) :
    r.2 = true ↔ IsAccepted io wait cqes submitted := by
  rw [← h, rearm_accepted, IsAccepted, or_iff_right hwait, waited_entries]

/-- An error of `poll` loses nothing exactly when the wait fails, or no submission that arms again does. -/
theorem keepsOnError_iff {s s' : Client} {wait : Wait} {cqes : List Cqe} {pending : List PollAdd}
    {submitted : List Bool} (h : s.step (.poll wait cqes pending submitted) = some s') :
    KeepsOnError s (.poll wait cqes pending submitted) s' ↔ IsAccepted s.io wait cqes submitted := by
  rcases poll_cases h with ⟨hwait, hcqes, hio, -, hevents⟩ | ⟨hwait, r, hr, hio, hok, hevents⟩
  · -- nothing was taken, and the ring is as it was
    refine iff_of_true (fun _ => ⟨⟨[], ?_⟩, ?_⟩) (Or.inl hwait)
    · rw [hcqes, hevents]
      exact List.Subperm.refl []
    · rw [hio]
      exact fun _ _ => id
  · rw [← rearm_ok_iff_isAccepted hwait hr]
    constructor
    · intro hkeeps
      by_contra hfailed
      rw [Bool.not_eq_true] at hfailed
      rw [hfailed, if_neg Bool.false_ne_true] at hevents
      obtain ⟨hdelivered, -⟩ := hkeeps (hok.trans hfailed)
      have htaken : cqes.filterMap Cqe.event = [] := taken_eq_nil hevents hdelivered
      rw [htaken] at hr
      -- without an event there is nothing to arm, and the loop cannot fail
      have hnone : s.io.toRearm [] = [] := by
        unfold toRearm
        rw [List.filter_eq_nil_iff]
        simp
      rw [hnone, rearm] at hr
      rw [← hr] at hfailed
      cases hfailed
    · intro haccept herror
      rw [hok, haccept] at herror
      cases herror

/-- A step that is no `poll`, or an accepted one. -/
def IsSteady (s : Client) (a : Label) : Prop :=
  ∀ wait cqes pending submitted, a = .poll wait cqes pending submitted → IsAccepted s.io wait cqes submitted

theorem events_of_isSteady {s s' : Client} {a : Label} (h : s.step a = some s') (hsteady : IsSteady s a) :
    s'.events = a.taken := by
  cases a with
  | register fd token interest submitted =>
    cases h
    rfl
  | deregister fd =>
    cases h
    rfl
  | poll wait cqes pending submitted =>
    have haccepted := hsteady wait cqes pending submitted rfl
    rcases poll_cases h with ⟨-, hcqes, -, -, hevents⟩ | ⟨hwait, r, hr, -, -, hevents⟩
    · rw [hevents, hcqes]
      rfl
    · rw [hevents, if_pos ((rearm_ok_iff_isAccepted hwait hr).mpr haccepted)]
      rfl

/-- **Nothing is lost.** In a run of steady steps, the calls return what they take, in that order. -/
theorem returned_eq_taken {entries : ℕ} {s s' : Client} {labels : List Label}
    (hrun : (clients entries).runFrom s labels = some s') (hsteady : (clients entries).Meets IsSteady s labels) :
    returned s labels = labels.flatMap Label.taken := by
  induction labels generalizing s with
  | nil => rfl
  | cons a labels ih =>
    obtain ⟨next, hstep, hrun⟩ := Option.bind_eq_some_iff.mp hrun
    obtain ⟨hsteady, hlater⟩ := hsteady next hstep
    have hstep : s.step a = some next := hstep
    rw [returned, hstep, List.flatMap_cons, ← ih hrun hlater, ← events_of_isSteady hstep hsteady]

/-- Two files are registered, and both are armed. -/
def twoArmed : Client := ((clients 8).init.register 3 7 .readable true).register 4 8 .readable true

theorem twoArmed_keeps :
    ∃ s', twoArmed.step (.poll .failed [] [⟨3, 7, 1⟩, ⟨4, 8, 1⟩] []) = some s' ∧ s'.ok = false ∧
      IsAccepted twoArmed.io .failed [] [] ∧ KeepsOnError twoArmed (.poll .failed [] [⟨3, 7, 1⟩, ⟨4, 8, 1⟩] []) s' := by
  have hstep : twoArmed.step (.poll .failed [] [⟨3, 7, 1⟩, ⟨4, 8, 1⟩] []) =
      some (twoArmed.poll .failed [] [⟨3, 7, 1⟩, ⟨4, 8, 1⟩] []) := by
    rw [Client.step, if_pos (by decide)]
  exact ⟨_, hstep, rfl, Or.inl rfl, (keepsOnError_iff hstep).mpr (Or.inl rfl)⟩

/-- Both files are ready, and the first submission fails: the events are gone, and the second file has no entry. -/
theorem twoArmed_loses :
    (clients 8).run [.register 3 7 .readable true, .register 4 8 .readable true] = some twoArmed ∧
    ∃ s', twoArmed.step (.poll .done [⟨⟨3, 7, 1⟩, 1⟩, ⟨⟨4, 8, 1⟩, 1⟩] [] [false]) = some s' ∧ s'.ok = false ∧
      ¬ IsDelivered (.poll .done [⟨⟨3, 7, 1⟩, 1⟩, ⟨⟨4, 8, 1⟩, 1⟩] [] [false]) s' ∧
      (∃ r ∈ s'.io.registrations.pairs, IsArmed twoArmed.io r ∧ ¬ IsArmed s'.io r) ∧
      ¬ KeepsOnError twoArmed (.poll .done [⟨⟨3, 7, 1⟩, 1⟩, ⟨⟨4, 8, 1⟩, 1⟩] [] [false]) s' := by
  have hstep : twoArmed.step (.poll .done [⟨⟨3, 7, 1⟩, 1⟩, ⟨⟨4, 8, 1⟩, 1⟩] [] [false]) =
      some (twoArmed.poll .done [⟨⟨3, 7, 1⟩, 1⟩, ⟨⟨4, 8, 1⟩, 1⟩] [] [false]) := by
    rw [Client.step, if_pos (by decide)]
  have hlost : ¬ IsDelivered (.poll .done [⟨⟨3, 7, 1⟩, 1⟩, ⟨⟨4, 8, 1⟩, 1⟩] [] [false])
      (twoArmed.poll .done [⟨⟨3, 7, 1⟩, 1⟩, ⟨⟨4, 8, 1⟩, 1⟩] [] [false]) := by
    intro h
    have htaken := taken_eq_nil (by decide) h
    exact absurd htaken (by decide)
  exact ⟨rfl, _, hstep, by decide, hlost, by decide, fun h => hlost (h (by decide)).1⟩

end Riftgate.Uring
