import Mathlib.Data.List.Perm.Subperm
import Riftgate.Code.Server

/-!
# When a drain is a drain

The counter counts the connections whose tasks have begun. Those that wait in a shard, or are spawned and have not
begun, are in no counter, and a drain that reads zero does not see them.
-/

open Lib

namespace Riftgate.Server

open Scheduler

/-- A drain that is reported complete leaves no connection behind that was handed to the scheduler. -/
def Drained (s : AcceptLoop) : Prop := s.phase = .reported true → ∀ conn < s.scheduler.next, conn ∈ s.served

/-- When the drain loop reads zero, each connection has been counted in. -/
def CountedAtZero (s : AcceptLoop) (a : Label) : Prop :=
  a = .load → s.inFlight = 0 → ∀ conn < s.scheduler.next, conn ∈ s.counted

structure Tallied (s : AcceptLoop) : Prop where
  inFlight : s.inFlight + s.left.length = s.counted.length
  nodup : s.left.Nodup
  left : ∀ conn ∈ s.left, conn ∈ s.served
  served : ∀ conn ∈ s.served, conn ∈ s.counted

theorem Tallied.served_of_zero {s : AcceptLoop} (h : Tallied s) (hzero : s.inFlight = 0) {conn : ℕ}
    (hconn : conn ∈ s.counted) : conn ∈ s.served := by
  have hsub : s.left.Subperm s.counted :=
    List.subperm_of_subset h.nodup fun c hc => h.served c (h.left c hc)
  have hperm : s.left.Perm s.counted := hsub.perm_of_length_le (by have := h.inFlight; omega)
  exact h.left conn (hperm.mem_iff.mpr hconn)

theorem Tallied.step {s s' : AcceptLoop} (h : Tallied s) {a : Label} (hstep : s.step a = some s') : Tallied s' := by
  have hsched : ∀ r : Option PerShardScheduler, r.map s.setScheduler = some s' → Tallied s' := by
    intro r hr
    obtain ⟨sched, -, rfl⟩ := Option.map_eq_some_iff.mp hr
    exact ⟨h.inFlight, h.nodup, h.left, h.served⟩
  cases a with
  | accept =>
    simp only [AcceptLoop.step, Option.ite_none_right_eq_some] at hstep
    exact hsched _ hstep.2
  | push => exact hsched _ hstep
  | work i => exact hsched _ hstep
  | count conn =>
    simp only [AcceptLoop.step, Option.ite_none_right_eq_some, Option.some.injEq] at hstep
    obtain ⟨-, rfl⟩ := hstep
    refine ⟨?_, h.nodup, h.left, fun c hc => List.mem_append_left _ (h.served c hc)⟩
    have := h.inFlight
    simp only [List.length_append, List.length_singleton]
    omega
  | serve conn =>
    simp only [AcceptLoop.step, Option.ite_none_right_eq_some, Option.some.injEq] at hstep
    obtain ⟨⟨hcounted, -⟩, rfl⟩ := hstep
    refine ⟨h.inFlight, h.nodup, fun c hc => List.mem_append_left _ (h.left c hc), fun c hc => ?_⟩
    rcases List.mem_append.mp hc with hc | hc
    · exact h.served c hc
    · rw [List.mem_singleton.mp hc]
      exact hcounted
  | leave conn =>
    simp only [AcceptLoop.step, Option.ite_none_right_eq_some, Option.some.injEq] at hstep
    obtain ⟨⟨hserved, hnew⟩, rfl⟩ := hstep
    have hnodup : (s.left ++ [conn]).Nodup :=
      List.Nodup.append h.nodup (List.nodup_singleton conn) (by simpa using hnew)
    have hleft : ∀ c ∈ s.left ++ [conn], c ∈ s.served := by
      intro c hc
      rcases List.mem_append.mp hc with hc | hc
      · exact h.left c hc
      · rw [List.mem_singleton.mp hc]
        exact hserved
    refine ⟨?_, hnodup, hleft, h.served⟩
    -- One of those counted in had not left, so the counter was not zero.
    have hle := (List.subperm_of_subset hnodup fun c hc => h.served c (hleft c hc)).length_le
    have := h.inFlight
    simp only [List.length_append, List.length_singleton] at hle ⊢
    omega
  | drain | load | expire =>
    simp only [AcceptLoop.step, Option.ite_none_right_eq_some, Option.some.injEq] at hstep
    obtain ⟨-, rfl⟩ := hstep
    exact ⟨h.inFlight, h.nodup, h.left, h.served⟩

/-! ## One step -/

theorem push_next {s s' : PerShardScheduler} {t : ℕ} (h : s.push t = some s') : s'.next = s.next := by
  unfold PerShardScheduler.push at h
  split at h
  · cases h
  · cases h
    rfl
  · split at h
    · cases h
      rfl
    · cases h
      rfl

theorem work_next {s s' : PerShardScheduler} {i : ℕ} (h : s.step (.work i) = some s') : s'.next = s.next := by
  simp only [PerShardScheduler.step, Option.ite_none_right_eq_some] at h
  obtain ⟨-, h⟩ := h
  unfold PerShardScheduler.work at h
  split at h
  · split at h
    · cases h
      rfl
    · cases h
      rfl
  · cases h
    rfl
  · cases h
    rfl
  · cases h

theorem Drained.step {s s' : AcceptLoop} (hd : Drained s) {a : Label} (hstep : s.step a = some s') (ha : a ≠ .load) :
    Drained s' := by
  intro hphase
  cases a with
  | accept =>
    simp only [AcceptLoop.step, Option.ite_none_right_eq_some] at hstep
    obtain ⟨haccepting, hstep⟩ := hstep
    obtain ⟨sched, -, rfl⟩ := Option.map_eq_some_iff.mp hstep
    have : Phase.accepting = .reported true := haccepting.symm.trans hphase
    cases this
  | push =>
    obtain ⟨sched, hsched, rfl⟩ := Option.map_eq_some_iff.mp hstep
    have hall := hd hphase
    rw [← push_next hsched] at hall
    exact hall
  | work i =>
    obtain ⟨sched, hsched, rfl⟩ := Option.map_eq_some_iff.mp hstep
    have hall := hd hphase
    rw [← work_next hsched] at hall
    exact hall
  | count conn =>
    simp only [AcceptLoop.step, Option.ite_none_right_eq_some, Option.some.injEq] at hstep
    obtain ⟨-, rfl⟩ := hstep
    exact hd hphase
  | serve conn =>
    simp only [AcceptLoop.step, Option.ite_none_right_eq_some, Option.some.injEq] at hstep
    obtain ⟨-, rfl⟩ := hstep
    exact fun c hc => List.mem_append_left _ (hd hphase c hc)
  | leave conn =>
    simp only [AcceptLoop.step, Option.ite_none_right_eq_some, Option.some.injEq] at hstep
    obtain ⟨-, rfl⟩ := hstep
    exact hd hphase
  | drain =>
    simp only [AcceptLoop.step, Option.ite_none_right_eq_some, Option.some.injEq] at hstep
    obtain ⟨-, rfl⟩ := hstep
    cases hphase
  | load => exact absurd rfl ha
  | expire =>
    simp only [AcceptLoop.step, Option.ite_none_right_eq_some, Option.some.injEq] at hstep
    obtain ⟨-, rfl⟩ := hstep
    cases hphase

theorem drained_step_iff {s s' : AcceptLoop} (h : Tallied s) (hd : Drained s) {a : Label} (hstep : s.step a = some s') :
    Drained s' ↔ CountedAtZero s a := by
  by_cases ha : a = .load
  · subst ha
    simp only [AcceptLoop.step, Option.ite_none_right_eq_some, Option.some.injEq] at hstep
    obtain ⟨hdraining, rfl⟩ := hstep
    by_cases hzero : s.inFlight = 0
    · constructor
      · exact fun hd' _ _ conn hconn => h.served conn (hd' (by simp [hzero]) conn hconn)
      · exact fun hc _ conn hconn => h.served_of_zero hzero (hc rfl hzero conn hconn)
    · constructor
      · exact fun _ _ hz => absurd hz hzero
      · intro _ hphase
        simp only [if_neg hzero] at hphase
        cases hphase
  · exact ⟨fun _ hload => absurd hload ha, fun _ => hd.step hstep ha⟩

/-! ## Every run -/

/-- **When a drain is a drain.** A run reports no drain too early exactly when, each time that the drain loop reads
zero, all connections that were handed to the scheduler have been counted in. -/
theorem drained_iff_counted (shards capacity : ℕ) (labels : List Label) :
    (server shards capacity).Throughout Drained (server shards capacity).init labels ↔
      (server shards capacity).Meets CountedAtZero (server shards capacity).init labels := by
  refine Machine.throughout_iff_meets (I := Tallied) (fun s a s' hi _ hstep _ => hi.step hstep)
    (fun s a s' hi hp hstep => drained_step_iff hi hp hstep) labels ?_ ?_
  · exact ⟨rfl, List.nodup_nil, nofun, nofun⟩
  · intro hphase
    cases hphase

/-- One connection waits in its shard when the drain begins. -/
theorem drained_too_early :
    ((server 1 4096).run [.accept, .push, .drain, .load]).map (fun s =>
      decide (s.phase = .reported true ∧ 0 < s.scheduler.next ∧ 0 ∉ s.served)) = some true := by
  decide

end Riftgate.Server
