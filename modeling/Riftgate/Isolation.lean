import Riftgate.Lib.Runs
import Riftgate.Code.RateLimit

/-!
# Subjects do not see each other

All subjects share the limiter, and their calls interleave. What one of them gets is what it would get if it were
alone.
-/

open Lib

namespace Riftgate.RateLimit

def Call.subject : Call → Option SubjectKey
  | .idle => none
  | .read c | .entered c | .loaded c _ | .returned c _ => some c.subject

/-- What there would be if no other subject had called. -/
def State.only (k : SubjectKey) (s : State) : State where
  clock := s.clock
  entries k' := if k' = k then s.entries k' else none
  calls i := if (s.calls i).subject = some k then s.calls i else .idle
  admitted := s.admitted.filter fun a => a.call.subject = k

/-- The clock is for all, and a call is for its subject. -/
def State.about (k : SubjectKey) (s : State) : Label → Bool
  | .tick _ => true
  | .check _ subject _ => subject = k
  | .entry i | .load i | .compareExchange i => (s.calls i).subject = some k

/-! ## Updates -/

theorem only_setCall {k : SubjectKey} {call : Call} (h : call.subject = some k) (s : State) (i : Nat) :
    (s.setCall i call).only k = (s.only k).setCall i call := by
  unfold State.only State.setCall
  congr 1
  funext j
  by_cases hj : j = i
  · subst hj
    simp [h]
  · simp [hj]

theorem only_setCall_other {k : SubjectKey} {s : State} {i : Nat} {call : Call} (h : call.subject ≠ some k)
    (hi : (s.calls i).subject ≠ some k) : (s.setCall i call).only k = s.only k := by
  unfold State.only State.setCall
  congr 1
  funext j
  by_cases hj : j = i
  · subst hj
    simp [h, hi]
  · simp [hj]

theorem only_setEntry (k : SubjectKey) (s : State) (e : Entry) :
    (s.setEntry k e).only k = (s.only k).setEntry k e := by
  unfold State.only State.setEntry
  congr 1
  funext k'
  by_cases hk : k' = k
  · subst hk
    simp
  · simp [hk]

theorem only_setEntry_other {k k' : SubjectKey} (h : k' ≠ k) (s : State) (e : Entry) :
    (s.setEntry k' e).only k = s.only k := by
  unfold State.only State.setEntry
  congr 1
  funext j
  by_cases hj : j = k
  · subst hj
    simp [h.symm]
  · simp [hj]

theorem only_admit {k : SubjectKey} {s : State} {a : Admission} (h : a.call.subject = k) :
    { s with admitted := s.admitted ++ [a] }.only k =
      { s.only k with admitted := (s.only k).admitted ++ [a] } := by
  simp [State.only, List.filter_append, h]

theorem only_admit_other {k : SubjectKey} {s : State} {a : Admission} (h : a.call.subject ≠ k) :
    { s with admitted := s.admitted ++ [a] }.only k = s.only k := by
  simp [State.only, List.filter_append, h]

theorem only_exchange (l : TokenBucketLimiter) (s : State) (i : Nat) (c : CheckArgs) (observed : UInt64) (e : Entry) :
    (s.exchange l i c observed e).only c.subject = (s.only c.subject).exchange l i c observed e := by
  simp only [State.exchange]
  split
  · have hset : ((s.setEntry c.subject ⟨(c.attempt l observed).1, c.readAt⟩).setCall i
        (.returned c (c.attempt l observed).2)).only c.subject =
        ((s.only c.subject).setEntry c.subject ⟨(c.attempt l observed).1, c.readAt⟩).setCall i
          (.returned c (c.attempt l observed).2) := by
      rw [only_setCall rfl, only_setEntry]
    split
    · rw [← hset]
      exact only_admit rfl
    · exact hset
  · split
    · exact only_setCall rfl s i
    · exact only_setCall rfl s i

theorem only_exchange_other {l : TokenBucketLimiter} {k : SubjectKey} {s : State} {i : Nat} {c : CheckArgs}
    {observed : UInt64} {e : Entry} (hc : c.subject ≠ k) (hi : (s.calls i).subject ≠ some k) :
    (s.exchange l i c observed e).only k = s.only k := by
  have hcall : ∀ call : Call, call.subject = some c.subject → call.subject ≠ some k := by
    intro call h hk
    rw [h] at hk
    exact hc (Option.some.inj hk)
  simp only [State.exchange]
  split
  · have hset : ((s.setEntry c.subject ⟨(c.attempt l observed).1, c.readAt⟩).setCall i
        (.returned c (c.attempt l observed).2)).only k = s.only k := by
      rw [only_setCall_other (hcall _ rfl) (s := s.setEntry _ _) hi, only_setEntry_other hc]
    split
    · rw [← hset]
      exact only_admit_other hc
    · exact hset
  · split
    · exact only_setCall_other (hcall _ rfl) hi
    · exact only_setCall_other (hcall _ rfl) hi

/-! ## One step -/

theorem step_subject {l : TokenBucketLimiter} {s s' : State} {a : Label} (h : s.step l a = some s') {i : Nat}
    {k : SubjectKey} (hi : (s.calls i).subject = some k) : (s'.calls i).subject = some k := by
  have hset : ∀ (t : State) (j : Nat) (call : Call), t.calls = s.calls → call.subject = (s.calls j).subject →
      ((t.setCall j call).calls i).subject = some k := by
    intro t j call ht hcall
    simp only [State.setCall]
    by_cases hij : i = j
    · subst hij
      rw [Function.update_self, hcall, hi]
    · rw [Function.update_of_ne hij, ht, hi]
  cases a with
  | tick ms =>
    simp only [State.step, Option.some.injEq] at h
    subst h
    exact hi
  | check j subject cost =>
    simp only [State.step] at h
    split at h
    · rename_i hj
      cases h
      by_cases hij : i = j
      · rw [hij, hj] at hi
        cases hi
      · simpa only [State.setCall, Function.update_of_ne hij] using hi
    · cases h
  | entry j =>
    simp only [State.step] at h
    split at h
    · rename_i c hj
      cases h
      exact hset (s.setEntry _ _) j (.entered c) rfl (by rw [hj]; rfl)
    · cases h
  | load j =>
    simp only [State.step] at h
    split at h
    · rename_i c hj
      obtain ⟨e, -, rfl⟩ := Option.map_eq_some_iff.mp h
      exact hset s j (.loaded c e.state) rfl (by rw [hj]; rfl)
    · cases h
  | compareExchange j =>
    simp only [State.step] at h
    split at h
    · rename_i c observed hj
      obtain ⟨e, -, rfl⟩ := Option.map_eq_some_iff.mp h
      have hsubject : ∀ call : Call, call.subject = some c.subject → call.subject = (s.calls j).subject := by
        intro call hcall
        rw [hcall, hj]
        rfl
      simp only [State.exchange]
      split
      · split
        · exact hset (s.setEntry _ _) j _ rfl (hsubject _ rfl)
        · exact hset (s.setEntry _ _) j _ rfl (hsubject _ rfl)
      · split
        · exact hset s j _ rfl (hsubject _ rfl)
        · exact hset s j _ rfl (hsubject _ rfl)
    · cases h

theorem step_only {l : TokenBucketLimiter} {k : SubjectKey} {s s' : State} {a : Label} (h : s.step l a = some s')
    (ha : s.about k a = true) : (s.only k).step l a = some (s'.only k) := by
  have hentries : (s.only k).entries k = s.entries k := if_pos rfl
  cases a with
  | tick ms =>
    simp only [State.step, Option.some.injEq] at h
    subst h
    rfl
  | check i subject cost =>
    simp only [State.about, decide_eq_true_eq] at ha
    subst ha
    simp only [State.step] at h
    split at h
    · rename_i hi
      cases h
      have hidle : (s.only subject).calls i = .idle := by simp [State.only, hi, Call.subject]
      simp only [State.step, hidle]
      rw [only_setCall rfl]
      rfl
    · cases h
  | entry i =>
    simp only [State.about, decide_eq_true_eq] at ha
    have hcall : (s.only k).calls i = s.calls i := if_pos ha
    simp only [State.step, hcall] at h ⊢
    split at h
    · rename_i c hi
      cases h
      obtain rfl : c.subject = k := by
        rw [hi] at ha
        exact Option.some.inj ha
      rw [only_setCall rfl, only_setEntry, hentries]
    · cases h
  | load i =>
    simp only [State.about, decide_eq_true_eq] at ha
    have hcall : (s.only k).calls i = s.calls i := if_pos ha
    simp only [State.step, hcall] at h ⊢
    split at h
    · rename_i c hi
      obtain ⟨e, he, rfl⟩ := Option.map_eq_some_iff.mp h
      obtain rfl : c.subject = k := by
        rw [hi] at ha
        exact Option.some.inj ha
      rw [hentries, he, only_setCall rfl]
      rfl
    · cases h
  | compareExchange i =>
    simp only [State.about, decide_eq_true_eq] at ha
    have hcall : (s.only k).calls i = s.calls i := if_pos ha
    simp only [State.step, hcall] at h ⊢
    split at h
    · rename_i c observed hi
      obtain ⟨e, he, rfl⟩ := Option.map_eq_some_iff.mp h
      obtain rfl : c.subject = k := by
        rw [hi] at ha
        exact Option.some.inj ha
      rw [hentries, he, only_exchange]
      rfl
    · cases h

theorem step_only_other {l : TokenBucketLimiter} {k : SubjectKey} {s s' : State} {a : Label}
    (h : s.step l a = some s') (ha : s.about k a = false) : s'.only k = s.only k := by
  cases a with
  | tick ms => cases ha
  | check i subject cost =>
    simp only [State.about, decide_eq_false_iff_not] at ha
    simp only [State.step] at h
    split at h
    · rename_i hi
      cases h
      have hidle : (s.calls i).subject ≠ some k := by simp [hi, Call.subject]
      exact only_setCall_other (fun hk => ha (Option.some.inj hk)) hidle
    · cases h
  | entry i =>
    simp only [State.about, decide_eq_false_iff_not] at ha
    simp only [State.step] at h
    split at h
    · rename_i c hi
      cases h
      have hc : c.subject ≠ k := by
        rw [hi] at ha
        exact fun hk => ha (congrArg some hk)
      have hcall : (Call.entered c).subject ≠ some k := fun hk => hc (Option.some.inj hk)
      rw [only_setCall_other hcall (s := s.setEntry _ _) ha, only_setEntry_other hc]
    · cases h
  | load i =>
    simp only [State.about, decide_eq_false_iff_not] at ha
    simp only [State.step] at h
    split at h
    · rename_i c hi
      obtain ⟨e, -, rfl⟩ := Option.map_eq_some_iff.mp h
      refine only_setCall_other ?_ ha
      rw [hi] at ha
      exact ha
    · cases h
  | compareExchange i =>
    simp only [State.about, decide_eq_false_iff_not] at ha
    simp only [State.step] at h
    split at h
    · rename_i c observed hi
      obtain ⟨e, -, rfl⟩ := Option.map_eq_some_iff.mp h
      refine only_exchange_other (fun hk => ?_) ha
      rw [hi] at ha
      exact ha (congrArg some hk)
    · cases h

/-! ## Every run -/

theorem about_last {l : TokenBucketLimiter} {k : SubjectKey} {s t t' : State} {a : Label} {labels : List Label}
    (hstep : t.step l a = some t') (hrun : (limiter l).runFrom t' labels = some s) : s.about k a = t.about k a := by
  have hlast : ∀ i k', (t.calls i).subject = some k' → (s.calls i).subject = some k' := by
    intro i k' hi
    exact Machine.runFrom_invariant (I := fun u => (u.calls i).subject = some k') (p := fun _ => True)
      (fun u a u' hu _ hstep => step_subject hstep hu) (step_subject hstep hi) (fun _ _ => trivial) hrun
  have hcall : ∀ i c, (t.calls i).subject = some c →
      decide ((s.calls i).subject = some k) = decide ((t.calls i).subject = some k) := by
    intro i c hi
    rw [hi, hlast i c hi]
  cases a with
  | tick ms => rfl
  | check i subject cost => rfl
  | entry i =>
    simp only [State.step] at hstep
    split at hstep
    · rename_i c hi
      exact hcall i c.subject (by rw [hi]; rfl)
    · cases hstep
  | load i =>
    simp only [State.step] at hstep
    split at hstep
    · rename_i c hi
      exact hcall i c.subject (by rw [hi]; rfl)
    · cases hstep
  | compareExchange i =>
    simp only [State.step] at hstep
    split at hstep
    · rename_i c observed hi
      exact hcall i c.subject (by rw [hi]; rfl)
    · cases hstep

/-- **Isolation.** Take any interleaving of calls, and leave out those of all subjects but one. What is left is a run
of the limiter, and at its end that subject has the same entry, and its calls the same answers. -/
theorem subject_alone (l : TokenBucketLimiter) (k : SubjectKey) {s : State} {labels : List Label}
    (hrun : (limiter l).run labels = some s) :
    (limiter l).run (labels.filter (s.about k)) = some (s.only k) := by
  have hinit : (limiter l).init.only k = (limiter l).init := by simp [State.only, limiter, Call.subject]
  have hfilter := Machine.runFrom_filter (N := limiter l) (State.only k) (State.about k)
    (fun _ _ _ hstep ha => step_only hstep ha) (fun _ _ _ hstep ha => step_only_other hstep ha)
    (fun _ _ _ _ hstep hrun => about_last hstep hrun) hrun
  rw [hinit] at hfilter
  exact hfilter

/-- One request a second. -/
def slowLimiter : TokenBucketLimiter := ⟨{ ratePerSec := 1, burst := 1 }, by decide, by decide⟩

/-- A tenant makes two calls, and another tenant one. -/
def threeCalls : List Label :=
  [.check 0 ⟨⟨1⟩, ⟨0⟩, none⟩ 1, .check 1 ⟨⟨2⟩, ⟨0⟩, none⟩ 1, .entry 1, .entry 0, .load 0, .load 1, .compareExchange 1,
    .compareExchange 0, .tick 5, .check 2 ⟨⟨1⟩, ⟨0⟩, none⟩ 1, .entry 2, .load 2, .compareExchange 2]

theorem threeCalls_isSome : ((limiter slowLimiter).run threeCalls).isSome = true := by decide

def afterThreeCalls : State := ((limiter slowLimiter).run threeCalls).get threeCalls_isSome

theorem second_tenant_alone :
    (limiter slowLimiter).run (threeCalls.filter (afterThreeCalls.about ⟨⟨2⟩, ⟨0⟩, none⟩)) =
      some (afterThreeCalls.only ⟨⟨2⟩, ⟨0⟩, none⟩) :=
  subject_alone slowLimiter ⟨⟨2⟩, ⟨0⟩, none⟩ (Option.some_get threeCalls_isSome).symm

end Riftgate.RateLimit
