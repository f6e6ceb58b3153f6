import Riftgate.Code.Mio

/-!
# What `MioIO` watches

The set of registered files tells `register` whether to add a watch or to modify one. It is right about epoll, except
for the files that were closed while they were registered: epoll has let go of those on its own.
-/

open Lib

namespace Riftgate.Mio

open Uring

/-- epoll watches what is registered. The set of `MioIO` has that, and what was closed under it. -/
structure Tracks (s : Client) : Prop where
  watched : s.kernel.watched = s.registrations
  isOpen : ∀ fd, (s.registrations fd).isSome → s.kernel.isOpen fd = true
  registered : ∀ fd, fd ∈ s.io.registered ↔ (s.registrations fd).isSome ∨ fd ∈ s.stale
  apart : ∀ fd ∈ s.stale, s.registrations fd = none

variable {s : Client}

/-! ## register -/

theorem Tracks.register_error (h : Tracks s) (fd : ℤ) (token : UInt64) (interest : Interest) (fault : Bool) :
    (s.register fd token interest fault).error = none ↔
      s.kernel.isOpen fd = true ∧ fault = false ∧ fd ∉ s.stale := by
  unfold Client.register MioIO.register Epoll.modify Epoll.add
  rw [h.watched]
  have hregistered := h.registered fd
  have hapart := h.apart fd
  cases hopen : s.kernel.isOpen fd with
  | false => split <;> simp
  | true =>
    cases hreg : s.registrations fd with
    | none =>
      by_cases hstale : fd ∈ s.stale
      · simp [hregistered, hreg, hstale]
      · cases fault <;> simp [hregistered, hreg, hstale]
    | some r =>
      have hstale : fd ∉ s.stale := by
        intro hmem
        rw [hapart hmem] at hreg
        cases hreg
      cases fault <;> simp [hregistered, hreg, hstale]

theorem register_ok {io : MioIO} {k : Epoll} {fd : ℤ} {token : UInt64} {interest : Interest} {fault : Bool}
    (h : (io.register k fd token interest fault).2.2 = none) :
    io.register k fd token interest fault =
      ({ registered := insert fd io.registered }, k.set fd (some (token, interest)), none) ∧ k.isOpen fd = true := by
  unfold MioIO.register Epoll.modify Epoll.add at *
  cases hopen : k.isOpen fd with
  | false => simp [hopen] at h
  | true =>
    split at h <;> rename_i hmem
    · cases hwatched : k.watched fd <;> cases fault <;> simp [hopen, hwatched] at h
      simp [hmem]
    · cases hwatched : k.watched fd <;> cases fault <;> simp [hopen, hwatched] at h
      simp [hmem]

theorem register_failed {io : MioIO} {k : Epoll} {fd : ℤ} {token : UInt64} {interest : Interest} {fault : Bool}
    (h : (io.register k fd token interest fault).2.2 ≠ none) :
    (io.register k fd token interest fault).1 = io ∧ (io.register k fd token interest fault).2.1 = k := by
  unfold MioIO.register at *
  split
  · cases hmodify : k.modify fd token interest fault <;> simp_all
  · cases hadd : k.add fd token interest fault <;> simp_all

theorem Tracks.register (h : Tracks s) (fd : ℤ) (token : UInt64) (interest : Interest) (fault : Bool) :
    Tracks (s.register fd token interest fault) := by
  by_cases hok : (s.io.register s.kernel fd token interest fault).2.2 = none
  · have hstale := ((h.register_error fd token interest fault).mp hok).2.2
    obtain ⟨heq, hopen⟩ := register_ok hok
    unfold Client.register
    simp only [heq, if_true]
    refine ⟨?_, fun fd' hfd' => ?_, fun fd' => ?_, fun fd' hfd' => ?_⟩
    · show Function.update s.kernel.watched fd _ = _
      rw [h.watched]
    · by_cases hne : fd' = fd
      · rw [hne]
        exact hopen
      · have hsome : (Function.update s.registrations fd (some (token, interest)) fd').isSome := hfd'
        rw [Function.update_of_ne hne] at hsome
        exact h.isOpen fd' hsome
    · show fd' ∈ insert fd s.io.registered ↔ _
      rw [Finset.mem_insert, h.registered fd']
      by_cases hne : fd' = fd
      · simp [hne]
      · simp [hne]
    · have hne : fd' ≠ fd := fun heq => hstale (heq ▸ hfd')
      show Function.update s.registrations fd (some (token, interest)) fd' = none
      rw [Function.update_of_ne hne]
      exact h.apart fd' hfd'
  · obtain ⟨hio, hkernel⟩ := register_failed hok
    unfold Client.register
    simp only [hio, hkernel, if_neg hok]
    exact ⟨h.watched, h.isOpen, h.registered, h.apart⟩

/-! ## The other calls -/

theorem isSome_update_none {α : Type} {f : ℤ → Option α} {fd fd' : ℤ}
    (h : (Function.update f fd none fd').isSome = true) : fd' ≠ fd ∧ (f fd').isSome = true := by
  have hne : fd' ≠ fd := by
    rintro rfl
    simp at h
  rw [Function.update_of_ne hne] at h
  exact ⟨hne, h⟩

theorem Tracks.openFile (h : Tracks s) (fd : ℤ) : Tracks (s.openFile fd) := by
  refine ⟨h.watched, fun fd' hfd' => ?_, h.registered, h.apart⟩
  show Function.update s.kernel.isOpen fd true fd' = true
  by_cases hne : fd' = fd
  · rw [hne, Function.update_self]
  · rw [Function.update_of_ne hne]
    exact h.isOpen fd' hfd'

theorem Tracks.closeFile (h : Tracks s) (fd : ℤ) : Tracks (s.closeFile fd) := by
  have hstale : ∀ fd', fd' ∈ (s.closeFile fd).stale ↔ fd' ∈ s.stale ∨ fd' = fd ∧ (s.registrations fd).isSome := by
    intro fd'
    unfold Client.closeFile
    dsimp only
    split
    · rename_i hsome
      simp [hsome, or_comm]
    · rename_i hnone
      simp [hnone]
  refine ⟨?_, fun fd' hfd' => ?_, fun fd' => ?_, fun fd' hfd' => ?_⟩
  · show Function.update s.kernel.watched fd none = Function.update s.registrations fd none
    rw [h.watched]
  · obtain ⟨hne, hsome⟩ := isSome_update_none hfd'
    show Function.update s.kernel.isOpen fd false fd' = true
    rw [Function.update_of_ne hne]
    exact h.isOpen fd' hsome
  · rw [hstale]
    show fd' ∈ s.io.registered ↔ (Function.update s.registrations fd none fd').isSome ∨ _
    rw [h.registered fd']
    by_cases hne : fd' = fd
    · rw [hne, Function.update_self]
      simp [or_comm]
    · simp [hne]
  · show Function.update s.registrations fd none fd' = none
    by_cases hne : fd' = fd
    · rw [hne, Function.update_self]
    · rw [Function.update_of_ne hne]
      rcases (hstale fd').mp hfd' with hmem | ⟨heq, -⟩
      · exact h.apart fd' hmem
      · exact absurd heq hne

/-- Whatever epoll answers, it does not watch the file any more. -/
theorem Tracks.deregister_kernel (h : Tracks s) (fd : ℤ) :
    (s.io.deregister s.kernel fd).1.registered = s.io.registered.erase fd ∧
      (s.io.deregister s.kernel fd).2.1.isOpen = s.kernel.isOpen ∧
      (s.io.deregister s.kernel fd).2.1.watched = Function.update s.kernel.watched fd none ∧
      ((s.io.deregister s.kernel fd).2.2 = none ↔ fd ∉ s.stale) := by
  have hregistered := h.registered fd
  have hapart := h.apart fd
  have hopen := h.isOpen fd
  unfold MioIO.deregister Epoll.delete
  rw [h.watched]
  cases hreg : s.registrations fd with
  | none =>
    have hsame : Function.update s.registrations fd none = s.registrations := by
      rw [← hreg, Function.update_eq_self]
    rw [hreg] at hregistered
    by_cases hstale : fd ∈ s.stale
    · cases hfile : s.kernel.isOpen fd <;> simp [hregistered, hstale, hsame, h.watched]
    · simp [hregistered, hstale, hsame, h.watched]
  | some r =>
    have hstale : fd ∉ s.stale := by
      intro hmem
      rw [hapart hmem] at hreg
      cases hreg
    rw [hreg] at hregistered hopen
    simp [hregistered, hstale, hopen, Epoll.set, h.watched]

theorem Tracks.deregister (h : Tracks s) (fd : ℤ) : Tracks (s.deregister fd) := by
  obtain ⟨hio, hfiles, hwatched, -⟩ := h.deregister_kernel fd
  refine ⟨?_, fun fd' hfd' => ?_, fun fd' => ?_, fun fd' hfd' => ?_⟩
  · show (s.io.deregister s.kernel fd).2.1.watched = Function.update s.registrations fd none
    rw [hwatched, h.watched]
  · show (s.io.deregister s.kernel fd).2.1.isOpen fd' = true
    rw [hfiles]
    exact h.isOpen fd' (isSome_update_none hfd').2
  · show fd' ∈ (s.io.deregister s.kernel fd).1.registered ↔
      (Function.update s.registrations fd none fd').isSome ∨ fd' ∈ s.stale.erase fd
    rw [hio, Finset.mem_erase, Finset.mem_erase, h.registered fd']
    by_cases hne : fd' = fd
    · simp [hne]
    · simp [hne]
  · show Function.update s.registrations fd none fd' = none
    obtain ⟨hne, hmem⟩ := Finset.mem_erase.mp hfd'
    rw [Function.update_of_ne hne]
    exact h.apart fd' hmem

theorem poll_ok {k : Epoll} {answers : List MioIO.Answer} {events : List Event}
    (h : MioIO.poll k answers = some (.ok events)) :
    ∃ ready, k.reports ready = true ∧ events = ready.filterMap k.event := by
  induction answers with
  | nil => cases h
  | cons answer answers ih =>
    cases answer with
    | interrupted => exact ih h
    | failed => cases h
    | ready ready =>
      unfold MioIO.poll at h
      split at h
      · rename_i hreports
        cases h
        exact ⟨ready, hreports, rfl⟩
      · cases h

/-! ## Any calls -/

/-- An event has the token of a registration, and its flags are among what that asks for. -/
def Registered (s : Client) (e : Event) : Prop :=
  ∃ fd interest, s.registrations fd = some (e.token, interest) ∧
    (e.readable = true → Interest.isReadable interest = true) ∧
    (e.writable = true → Interest.isWritable interest = true)

theorem Tracks.poll_registered (h : Tracks s) {ready : List Ready} (hreports : s.kernel.reports ready = true) :
    ∀ e ∈ ready.filterMap s.kernel.event, Registered s e := by
  intro e he
  obtain ⟨r, hr, hevent⟩ := List.mem_filterMap.mp he
  obtain ⟨watch, hwatched, rfl⟩ := Option.map_eq_some_iff.mp hevent
  obtain ⟨token, interest⟩ := watch
  unfold Epoll.reports at hreports
  rw [Bool.and_eq_true, List.all_eq_true] at hreports
  have hflags := hreports.2 r hr
  simp only [hwatched, Bool.and_eq_true, Bool.or_eq_true, Bool.not_eq_true'] at hflags
  refine ⟨r.fd, interest, by rw [← h.watched, hwatched], fun hreadable => ?_, fun hwritable => ?_⟩
  · exact hflags.1.resolve_left fun hfalse => absurd (hreadable.symm.trans hfalse) (by decide)
  · exact hflags.2.resolve_left fun hfalse => absurd (hwritable.symm.trans hfalse) (by decide)

theorem known_step {s s' : Client} {a : Label} (h : Tracks s) (hstep : s.step a = some s') :
    Tracks s' ∧ ∀ e ∈ s'.events, Registered s' e := by
  cases a with
  | openFile fd =>
    simp only [Client.step] at hstep
    split at hstep
    · cases hstep
    · cases hstep
      exact ⟨h.openFile fd, List.forall_mem_nil _⟩
  | closeFile fd =>
    simp only [Client.step] at hstep
    split at hstep
    · cases hstep
      exact ⟨h.closeFile fd, List.forall_mem_nil _⟩
    · cases hstep
  | register fd token interest fault =>
    cases hstep
    exact ⟨h.register fd token interest fault, List.forall_mem_nil _⟩
  | deregister fd =>
    cases hstep
    exact ⟨h.deregister fd, List.forall_mem_nil _⟩
  | poll answers =>
    simp only [Client.step, Client.poll, Option.map_eq_some_iff] at hstep
    obtain ⟨r, hpoll, rfl⟩ := hstep
    refine ⟨⟨h.watched, h.isOpen, h.registered, h.apart⟩, ?_⟩
    cases r with
    | error e => exact List.forall_mem_nil _
    | ok events =>
      obtain ⟨ready, hreports, rfl⟩ := poll_ok hpoll
      exact h.poll_registered hreports

theorem tracks_of_reachable (hs : clients.Reachable s) : Tracks s ∧ ∀ e ∈ s.events, Registered s e := by
  have hinit : Tracks clients.init := by
    refine ⟨rfl, fun fd hfd => ?_, fun fd => ?_, fun fd _ => rfl⟩
    · cases hfd
    · simp [clients]
  refine Machine.Reachable.invariant (I := fun s => Tracks s ∧ ∀ e ∈ s.events, Registered s e)
    ⟨hinit, List.forall_mem_nil _⟩ (fun s a s' h hstep => known_step h.1 hstep) hs

/-- What a caller can rely on. -/
structure Contract (s : Client) : Prop where
  watched : s.kernel.watched = s.registrations
  register : ∀ fd token interest fault, (s.register fd token interest fault).error = none ↔
    s.kernel.isOpen fd = true ∧ fault = false ∧ fd ∉ s.stale
  deregister : ∀ fd, (s.deregister fd).error = none ↔ fd ∉ s.stale
  events : ∀ e ∈ s.events, Registered s e

/-- **epoll watches what is registered.** After any calls and any failures, epoll watches exactly the registrations,
each with its last token and interest, and only they have events. A call fails on a file that was closed while it was
registered, until it is deregistered, even when its number is that of another open file by then. Apart from that,
`register` fails only for a file that is not open or where epoll does, and `deregister` never. -/
theorem contract_of_reachable (hs : clients.Reachable s) : Contract s := by
  obtain ⟨h, hevents⟩ := tracks_of_reachable hs
  exact ⟨h.watched, h.register_error, fun fd => (h.deregister_kernel fd).2.2.2, hevents⟩

/-- A connection is closed without a `deregister`, and the next one gets its number. -/
def reusedNumber : List Label :=
  [.openFile 5, .register 5 7 .readable false, .poll [.interrupted, .ready [⟨5, true, false⟩]], .closeFile 5,
    .openFile 5]

theorem reusedNumber_contract : ∃ s, clients.Reachable s ∧ Contract s ∧
    (s.register 5 8 .readable false).error = some .noEntry ∧
      ((s.deregister 5).register 5 8 .readable false).error = none := by
  have hrun : (clients.run reusedNumber).map (fun s =>
      decide ((s.register 5 8 .readable false).error = some .noEntry ∧
        ((s.deregister 5).register 5 8 .readable false).error = none)) = some true := by decide
  obtain ⟨s, hs, hp⟩ := Machine.exists_of_run hrun
  exact ⟨s, hs, contract_of_reachable hs, of_decide_eq_true hp⟩

end Riftgate.Mio
