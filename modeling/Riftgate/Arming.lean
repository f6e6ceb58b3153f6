import Riftgate.Code.Uring

/-!
# Which `PollAdd`s are armed

A registration gets one `PollAdd`, and `poll` replaces it when it has completed. By design `deregister` leaves the
one of its registration to complete, and `poll` does not replace one that has completed with an error.
-/

open Lib

namespace Riftgate.Uring

open UringIO

/-! ## What the calls do to the ring -/

theorem submitPoll_ok {s s' : UringIO} {r : ℤ × UInt64 × Interest} {submitted : Bool}
    (h : s.submitPoll r submitted = (s', true)) :
    s' = { s with submission := [], outstanding := s.outstanding ++ (s.submission ++ [entryOf r]) } := by
  unfold submitPoll at h
  split at h
  · cases h
  · dsimp only at h
    split at h
    · cases h
      rfl
    · cases h

theorem rearm_ok {rs : List (ℤ × UInt64 × Interest)} {submitted : List Bool} {s s' : UringIO}
    (h : rearm rs submitted s = (s', true)) (hs : s.submission = []) :
    s' = { s with outstanding := s.outstanding ++ rs.map entryOf } := by
  induction rs generalizing submitted s with
  | nil =>
    cases h
    rw [List.map_nil, List.append_nil]
  | cons r rs ih =>
    rw [rearm] at h
    split at h
    · rename_i next hnext
      rw [ih h (by rw [submitPoll_ok hnext]), submitPoll_ok hnext, hs]
      simp
    · cases h

/-! ## The claim, and what holds by design -/

/-- Every registration has one `PollAdd` of its file, nothing else has one, and the events are of registrations. -/
def Exact (s : Client) : Prop :=
  (∀ r ∈ s.io.registrations.pairs, s.io.outstanding.filter (·.fd = r.1) = [entryOf r]) ∧
  (∀ p ∈ s.io.outstanding, p.fd ∈ s.io.registrations.pairs.map Prod.fst) ∧
  ∀ e ∈ s.events, e.token ∈ s.io.registrations.pairs.map (·.2.1)

instance (s : Client) : Decidable (Exact s) := inferInstanceAs (Decidable (_ ∧ _ ∧ _))

/-- The call returns `Ok`. A registration is of a file that has none, with a token that is not in use. -/
def Calm (s : Client) (a : Label) : Prop :=
  (s.step a).map Client.ok = some true ∧
  ∀ fd token interest submitted, a = .register fd token interest submitted →
    (∀ r ∈ s.io.registrations.pairs, r.1 ≠ fd ∧ r.2.1 ≠ token) ∧ ∀ p ∈ s.io.outstanding, p.token ≠ token

/-- One `PollAdd` for each registration whose last one has not failed. The others are of registrations that were
removed, and so are the events that are of no registration. -/
structure ByDesign (s : Client) : Prop where
  armed : ∀ r ∈ s.io.registrations.pairs, s.io.outstanding.filter (·.token = r.2.1) = [entryOf r] ∨
    r.2.1 ∈ s.failed ∧ s.io.outstanding.filter (·.token = r.2.1) = []
  others : ∀ p ∈ s.io.outstanding, (∃ r ∈ s.io.registrations.pairs, p = entryOf r) ∨ p.token ∈ s.removed
  events : ∀ e ∈ s.events, e.token ∈ s.io.registrations.pairs.map (·.2.1) ∨ e.token ∈ s.removed

structure Arming (s : Client) : Prop extends ByDesign s where
  submission : s.io.submission = []
  distinct : ∀ r ∈ s.io.registrations.pairs, ∀ r' ∈ s.io.registrations.pairs, r.2.1 = r'.2.1 → r = r'

/-! ## One call -/

theorem Arming.register {s : Client} (h : Arming s) {fd : ℤ} {token : UInt64} {interest : Interest} {submitted : Bool}
    (hc : Calm s (.register fd token interest submitted)) : Arming (s.register fd token interest submitted) := by
  obtain ⟨hok, hfresh⟩ := hc
  obtain ⟨hregistered, houtstanding⟩ := hfresh fd token interest submitted rfl
  have hok : (s.io.register fd token interest submitted).2 = true := by simpa [Client.step, Client.register] using hok
  have hio : (s.io.register fd token interest submitted).1 =
      { s.io with
        registrations := s.io.registrations.insert fd (token, interest)
        outstanding := s.io.outstanding ++ [entryOf (fd, token, interest)] } := by
    have := submitPoll_ok (Prod.ext rfl hok :
      s.io.register fd token interest submitted = ((s.io.register fd token interest submitted).1, true))
    simpa [h.submission] using this
  have hpairs : ∀ r, r ∈ Table.pairs (s.io.registrations.insert fd (token, interest)) ↔
      r = (fd, token, interest) ∨ r ∈ s.io.registrations.pairs := by
    intro r
    rw [Table.mem_pairs_insert]
    exact or_congr_right (and_iff_right_of_imp fun hr => (hregistered r hr).1)
  refine ⟨⟨fun r hr => ?_, fun p hp => ?_, nofun⟩, ?_, fun r hr r' hr' heq => ?_⟩
  · simp only [Client.register, hio] at hr ⊢
    rw [List.filter_append]
    rcases (hpairs r).mp hr with rfl | hr
    · refine .inl ?_
      have hnone : s.io.outstanding.filter (·.token = token) = [] := by
        rw [List.filter_eq_nil_iff]
        intro p hp
        simpa using houtstanding p hp
      simp [hnone, entryOf]
    · have hne : token ≠ r.2.1 := Ne.symm (hregistered r hr).2
      rw [List.filter_cons_of_neg (by simp [entryOf, hne]), List.filter_nil, List.append_nil]
      rcases h.armed r hr with hone | ⟨hfailed, hnone⟩
      · exact .inl hone
      · exact .inr ⟨List.mem_filter.mpr ⟨hfailed, by simpa using hne.symm⟩, hnone⟩
  · simp only [Client.register, hio] at hp ⊢
    rcases List.mem_append.mp hp with hp | hp
    · rcases h.others p hp with ⟨r, hr, rfl⟩ | hremoved
      · exact .inl ⟨r, (hpairs r).mpr (.inr hr), rfl⟩
      · exact .inr hremoved
    · rw [List.mem_singleton] at hp
      exact .inl ⟨_, (hpairs _).mpr (.inl rfl), hp⟩
  · simp only [Client.register, hio]
    exact h.submission
  · simp only [Client.register, hio] at hr hr'
    rcases (hpairs r).mp hr with rfl | hr
    · rcases (hpairs r').mp hr' with rfl | hr'
      · rfl
      · exact absurd heq.symm (hregistered r' hr').2
    · rcases (hpairs r').mp hr' with rfl | hr'
      · exact absurd heq (hregistered r hr).2
      · exact h.distinct r hr r' hr' heq

theorem Arming.deregister {s : Client} (h : Arming s) (fd : ℤ) : Arming (s.deregister fd) := by
  have hpairs : ∀ r, r ∈ (s.deregister fd).io.registrations.pairs ↔ r.1 ≠ fd ∧ r ∈ s.io.registrations.pairs :=
    fun r => Table.mem_pairs_erase
  refine ⟨⟨fun r hr => h.armed r ((hpairs r).mp hr).2, fun p hp => ?_, nofun⟩, h.submission, fun r hr r' hr' => ?_⟩
  · rcases h.others p hp with ⟨r, hr, rfl⟩ | hremoved
    · by_cases hfd : r.1 = fd
      · refine .inr (List.mem_append_right _ ?_)
        have hlookup : s.io.registrations.lookup fd = some r.2 := Table.lookup_eq_some_iff.mpr (hfd ▸ hr)
        simp [hlookup, entryOf]
      · exact .inl ⟨r, (hpairs r).mpr ⟨hfd, hr⟩, rfl⟩
    · exact .inr (List.mem_append_left _ hremoved)
  · exact h.distinct r ((hpairs r).mp hr).2 r' ((hpairs r').mp hr').2

/-- A token is of one registration, so its event arms one `PollAdd`. -/
theorem Arming.pairs_filter {s : Client} (h : Arming s) {r : ℤ × UInt64 × Interest}
    (hr : r ∈ s.io.registrations.pairs) : s.io.registrations.pairs.filter (·.2.1 = r.2.1) = [r] := by
  have hall : ∀ x ∈ s.io.registrations.pairs.filter (·.2.1 = r.2.1), x = r := by
    intro x hx
    obtain ⟨hx, heq⟩ := List.mem_filter.mp hx
    exact h.distinct x hx r hr (by simpa using heq)
  have hnodup : (s.io.registrations.pairs.filter (·.2.1 = r.2.1)).Nodup := (Table.pairs_nodup _).filter _
  have hmem : r ∈ s.io.registrations.pairs.filter (·.2.1 = r.2.1) := List.mem_filter.mpr ⟨hr, by simp⟩
  rw [List.eq_replicate_of_mem hall] at hnodup hmem ⊢
  have hle := List.nodup_replicate.mp hnodup
  have hpos := (List.mem_replicate.mp hmem).1
  rw [show (s.io.registrations.pairs.filter (·.2.1 = r.2.1)).length = 1 by omega]
  rfl

theorem Arming.rearmed {s : Client} (h : Arming s) {r : ℤ × UInt64 × Interest}
    (hr : r ∈ s.io.registrations.pairs) (events : List Event) :
    ((s.io.toRearm events).map entryOf).filter (·.token = r.2.1) =
      if events.any (·.token = r.2.1) then [entryOf r] else [] := by
  have hswap : ((s.io.toRearm events).map entryOf).filter (·.token = r.2.1) =
      ((s.io.registrations.pairs.filter (·.2.1 = r.2.1)).filter
        fun x => events.any fun e => e.token = x.2.1).map entryOf := by
    rw [toRearm, List.filter_map, List.filter_filter, List.filter_filter]
    congr 1
    refine List.filter_congr fun x _ => ?_
    simp only [Function.comp, entryOf]
    exact Bool.and_comm _ _
  rw [hswap, h.pairs_filter hr]
  cases hfired : events.any (·.token = r.2.1) with
  | true => simp [hfired]
  | false => simp [hfired]

theorem mem_events {cqes : List Cqe} {token : UInt64} (h : (cqes.filterMap Cqe.event).any (·.token = token) = true) :
    ∃ c ∈ cqes, c.entry.token = token ∧ ¬ c.result < 0 := by
  obtain ⟨e, he, heq⟩ := List.any_eq_true.mp h
  obtain ⟨c, hc, hce⟩ := List.mem_filterMap.mp he
  unfold Cqe.event at hce
  split at hce
  · cases hce
  · rename_i hresult
    cases hce
    exact ⟨c, hc, by simpa using heq, hresult⟩

theorem event_of_success {cqes : List Cqe} {c : Cqe} (hc : c ∈ cqes) (hresult : ¬ c.result < 0) :
    (cqes.filterMap Cqe.event).any (·.token = c.entry.token) = true := by
  have hevent : ∃ e, c.event = some e ∧ e.token = c.entry.token := by
    unfold Cqe.event
    rw [if_neg hresult]
    exact ⟨_, rfl, rfl⟩
  obtain ⟨e, he, htoken⟩ := hevent
  exact List.any_eq_true.mpr ⟨e, List.mem_filterMap.mpr ⟨c, hc, he⟩, decide_eq_true htoken⟩

theorem Arming.handled {s : Client} (h : Arming s) {cqes : List Cqe} {pending : List PollAdd}
    (hperm : (cqes.map Cqe.entry ++ pending).Perm s.io.outstanding) {r : ℤ × UInt64 × Interest}
    (hr : r ∈ s.io.registrations.pairs) :
    (pending ++ (s.io.toRearm (cqes.filterMap Cqe.event)).map entryOf).filter (·.token = r.2.1) = [entryOf r] ∨
      r.2.1 ∈ s.failed ++ (cqes.filter (·.result < 0)).map (·.entry.token) ∧
        (pending ++ (s.io.toRearm (cqes.filterMap Cqe.event)).map entryOf).filter (·.token = r.2.1) = [] := by
  have hsplit := hperm.filter (·.token = r.2.1)
  rw [List.filter_append] at hsplit
  rw [List.filter_append, h.rearmed hr]
  -- No completion of this token, then no event of it.
  have hquiet : (cqes.map Cqe.entry).filter (·.token = r.2.1) = [] →
      (cqes.filterMap Cqe.event).any (·.token = r.2.1) = false := by
    intro hnone
    rw [← Bool.not_eq_true]
    intro hfired
    obtain ⟨c, hc, heq, -⟩ := mem_events hfired
    have := List.filter_eq_nil_iff.mp hnone c.entry (List.mem_map_of_mem hc)
    simp [heq] at this
  rcases h.armed r hr with hone | ⟨hfailed, hnone⟩
  · rw [hone, List.perm_singleton, List.append_eq_singleton_iff] at hsplit
    rcases hsplit with ⟨hcqes, hpending⟩ | ⟨hcqes, hpending⟩
    · rw [hpending, hquiet hcqes]
      exact .inl rfl
    · -- The one `PollAdd` has completed, and only it.
      rw [List.filter_map, List.map_eq_singleton_iff] at hcqes
      obtain ⟨c, honly, hentry⟩ := hcqes
      have hmem : ∀ c', c' ∈ cqes ∧ c'.entry.token = r.2.1 ↔ c' = c := by
        intro c'
        rw [← List.mem_singleton (b := c), ← honly, List.mem_filter]
        simp
      have hc := (hmem c).mpr rfl
      rw [hpending, List.nil_append]
      by_cases hresult : c.result < 0
      · refine .inr ⟨List.mem_append_right _ (List.mem_map.mpr ⟨c, ?_, hc.2⟩), ?_⟩
        · exact List.mem_filter.mpr ⟨hc.1, by simpa using hresult⟩
        · rw [if_neg]
          intro hfired
          obtain ⟨c', hc', htoken, hsuccess⟩ := mem_events hfired
          rw [(hmem c').mp ⟨hc', htoken⟩] at hsuccess
          exact hsuccess hresult
      · refine .inl (if_pos ?_)
        rw [← hc.2]
        exact event_of_success hc.1 hresult
  · rw [hnone, List.perm_nil, List.append_eq_nil_iff] at hsplit
    rw [hsplit.2, hquiet hsplit.1]
    exact .inr ⟨List.mem_append_left _ hfailed, rfl⟩

theorem waited_eq {s : UringIO} (h : s.submission = []) (wait : Wait) : s.waited wait = s := by
  have hsubmit : s.submit = s := by
    cases s
    simp only at h
    simp [submit, h]
  cases wait with
  | done => exact hsubmit
  | interrupted submitted =>
    cases submitted with
    | true => exact hsubmit
    | false => rfl
  | failed => rfl

theorem Arming.poll {s : Client} (h : Arming s) {wait : Wait} {cqes : List Cqe} {pending : List PollAdd}
    {submitted : List Bool} (hperm : (cqes.map Cqe.entry ++ pending).Perm (s.io.waited wait).outstanding)
    (hok : (s.poll wait cqes pending submitted).ok = true) : Arming (s.poll wait cqes pending submitted) := by
  rw [waited_eq h.submission] at hperm
  have hwait : wait ≠ .failed := by
    rintro rfl
    simp [Client.poll, UringIO.poll] at hok
  have hpoll : s.io.poll wait cqes pending submitted = s.io.handle cqes pending submitted := by
    unfold UringIO.poll
    rw [if_neg hwait, waited_eq h.submission]
  have hrearmed : (rearm (s.io.toRearm (cqes.filterMap Cqe.event)) submitted { s.io with outstanding := pending }).2 =
      true := by
    simpa [Client.poll, hpoll, handle] using hok
  have hio := rearm_ok (Prod.ext rfl hrearmed :
    rearm (s.io.toRearm (cqes.filterMap Cqe.event)) submitted { s.io with outstanding := pending } = (_, true))
    h.submission
  have hafter : s.poll wait cqes pending submitted =
      { s with
        io := { s.io with outstanding := pending ++ (s.io.toRearm (cqes.filterMap Cqe.event)).map entryOf }
        ok := true
        events := cqes.filterMap Cqe.event
        failed := s.failed ++ (cqes.filter (·.result < 0)).map (·.entry.token) } := by
    simp only [Client.poll, hpoll, handle, hrearmed, if_true, Option.isSome_some, Option.getD_some, hio]
  rw [hafter]
  refine ⟨⟨fun r hr => h.handled hperm hr, fun p hp => ?_, fun e he => ?_⟩, h.submission, h.distinct⟩
  · rcases List.mem_append.mp hp with hp | hp
    · exact h.others p (hperm.mem_iff.mp (List.mem_append_right _ hp))
    · obtain ⟨r, hr, rfl⟩ := List.mem_map.mp hp
      exact .inl ⟨r, List.mem_of_mem_filter hr, rfl⟩
  · obtain ⟨c, hc, htoken, -⟩ := mem_events (List.any_eq_true.mpr ⟨e, he, decide_eq_true rfl⟩)
    rw [← htoken]
    rcases h.others c.entry (hperm.mem_iff.mp (List.mem_append_left _ (List.mem_map_of_mem hc))) with ⟨r, hr, heq⟩ | hr
    · rw [heq]
      exact .inl (List.mem_map.mpr ⟨r, hr, rfl⟩)
    · exact .inr hr

theorem Arming.step {s s' : Client} (h : Arming s) {a : Label} (hc : Calm s a) (hstep : s.step a = some s') :
    Arming s' := by
  have hok := hc.1
  rw [hstep, Option.map_some, Option.some.injEq] at hok
  cases a with
  | register fd token interest submitted =>
    cases hstep
    exact h.register hc
  | deregister fd =>
    cases hstep
    exact h.deregister fd
  | poll wait cqes pending submitted =>
    simp only [Client.step, Option.ite_none_right_eq_some, Option.some.injEq] at hstep
    obtain ⟨⟨hperm, -⟩, rfl⟩ := hstep
    exact h.poll hperm hok

/-! ## Every run -/

/-- **What is armed, by design.** In every run of calls that return `Ok`, with tokens and files that are not in use,
each registration has exactly one `PollAdd` with its token and mask, or its last one has failed. Every other `PollAdd`
and every other event is of a registration that was removed. -/
theorem armed_by_design (entries : ℕ) (s : Client) (hs : (clients entries).Reach Calm s) : ByDesign s := by
  have harming : Arming s := by
    refine Machine.Reach.invariant (I := Arming) ?_ (fun s a s' _ hi hc hstep => hi.step hc hstep) hs
    exact ⟨⟨nofun, nofun, nofun⟩, rfl, nofun⟩
  exact harming.toByDesign

/-- The condition, where it can be computed. -/
def isCalm (s : Client) (a : Label) : Bool :=
  (s.step a).map Client.ok = some true &&
    match a with
    | .register fd token _ _ =>
      (∀ r ∈ s.io.registrations.pairs, r.1 ≠ fd ∧ r.2.1 ≠ token) ∧ ∀ p ∈ s.io.outstanding, p.token ≠ token
    | _ => true

theorem calm_of_isCalm {s : Client} {a : Label} (h : isCalm s a = true) : Calm s a := by
  simp only [isCalm, Bool.and_eq_true, decide_eq_true_eq] at h
  refine ⟨h.1, ?_⟩
  rintro fd token interest submitted rfl
  exact of_decide_eq_true h.2

/-- The `PollAdd` of the second file completes after its registration was removed. -/
def twoFiles : List Label :=
  [.register 3 7 .readable true, .register 4 8 .readableAndWritable true,
    .poll .done [⟨⟨3, 7, 1⟩, 1⟩] [⟨4, 8, 5⟩] [], .deregister 4, .poll .done [⟨⟨4, 8, 5⟩, 4⟩] [⟨3, 7, 1⟩] []]

theorem twoFiles_by_design : ∃ s : Client, s.events = [⟨8, false, true⟩] ∧ s.removed = [8] ∧
    s.io.outstanding = [⟨3, 7, 1⟩] ∧ ByDesign s := by
  have hrun : (((clients 1).restrict isCalm).run twoFiles).map (fun s => decide (s.events = [⟨8, false, true⟩] ∧
      s.removed = [8] ∧ s.io.outstanding = [⟨3, 7, 1⟩])) = some true := by
    decide
  obtain ⟨s, hs, hseen⟩ := Machine.exists_of_restrict (C := Calm) (fun _ _ _ => calm_of_isCalm) hrun
  obtain ⟨hevents, hremoved, houtstanding⟩ := of_decide_eq_true hseen
  exact ⟨s, hevents, hremoved, houtstanding, armed_by_design 1 s hs⟩

/-- A removed registration and a failed completion, which the design allows for. A second registration of a file, a
token that two files share, and a registration that found the queue full. -/
def notExact : List (List Label) :=
  [[.register 3 7 .readable true, .deregister 3],
    [.register 3 7 .readable true, .poll .done [⟨⟨3, 7, 1⟩, -9⟩] [] []],
    [.register 3 7 .readable true, .register 3 8 .writable true],
    [.register 3 7 .readable true, .register 4 7 .readable true, .poll .done [⟨⟨3, 7, 1⟩, 1⟩] [⟨4, 7, 1⟩] []],
    [.register 3 7 .readable false, .register 4 8 .readable true, .poll .done [] [⟨3, 7, 1⟩] []]]

theorem arming_not_exact :
    notExact.map (fun labels => ((clients 1).run labels).map fun s => decide (s.ok = true ∧ ¬ Exact s)) =
      [some true, some true, some true, some true, some true] := by
  decide

end Riftgate.Uring
