import Mathlib.Data.List.Nodup
import Riftgate.Lib.Runs
import Riftgate.Code.ServerTasks

/-!
# What a drain leaves behind

The loop returns when no task is left to join. Before the end of the grace period it waits for the connections, and
after that it cancels them.
-/

open Lib

namespace Riftgate.ServerTasks

/-- The loop accepts no more. -/
def Phase.leaving : Phase → Bool
  | .waiting | .aborting | .returned _ => true
  | _ => false

/-- `in_flight` counts the task. -/
def Task.counted : Task → Bool
  | .left => false
  | _ => true

structure Kept (s : AcceptLoop) : Prop where
  accepted : s.accepted = s.tasks.length
  inFlight : s.inFlight = s.tasks.countP Task.counted
  nodup : s.connectionTasks.Nodup
  below : ∀ conn ∈ s.connectionTasks, conn < s.tasks.length
  joined : ∀ conn task, s.tasks[conn]? = some task → conn ∉ s.connectionTasks → task.ended
  cancelled : Task.cancelled ∈ s.tasks → s.phase = .aborting ∨ s.phase = .returned false
  returned : ∀ drained, s.phase = .returned drained → s.connectionTasks = []
  draining : s.draining = true → s.unseen = true ∨ s.phase.leaving = true

theorem Kept.init : Kept server.init where
  accepted := rfl
  inFlight := rfl
  nodup := List.nodup_nil
  below _ h := absurd h List.not_mem_nil
  joined _ _ h _ := by cases h
  cancelled h := absurd h List.not_mem_nil
  returned _ h := by cases h
  draining h := by cases h

theorem Kept.not_cancelled {s : AcceptLoop} (h : Kept s) (haborting : s.phase ≠ .aborting)
    (hreturned : s.phase ≠ .returned false) : Task.cancelled ∉ s.tasks := by
  intro hmem
  rcases h.cancelled hmem with hp | hp
  · exact haborting hp
  · exact hreturned hp

theorem Kept.turn {s : AcceptLoop} (h : Kept s) (hphase : s.phase.leaving = false) {phase : Phase} {unseen : Bool}
    (hreturned : ∀ drained, phase ≠ .returned drained)
    (hdraining : s.draining = true → unseen = true ∨ phase.leaving = true) :
    Kept { s with phase := phase, unseen := unseen } where
  accepted := h.accepted
  inFlight := h.inFlight
  nodup := h.nodup
  below := h.below
  joined := h.joined
  cancelled hmem := by
    rcases h.cancelled hmem with hp | hp
    · rw [hp] at hphase
      cases hphase
    · rw [hp] at hphase
      cases hphase
  returned drained hp := absurd hp (hreturned drained)
  draining := hdraining

theorem Kept.unseen {s : AcceptLoop} (h : Kept s) (hphase : s.phase.leaving = false) (hd : s.draining = true) :
    s.unseen = true := by
  rcases h.draining hd with hu | hl
  · exact hu
  · rw [hphase] at hl
    cases hl

theorem Kept.spawn {s : AcceptLoop} (h : Kept s) (hphase : s.phase = .accept) : Kept s.spawn where
  accepted := by simp [AcceptLoop.spawn, h.accepted]
  inFlight := by simp [AcceptLoop.spawn, h.inFlight, List.countP_append, Task.counted]
  nodup := by
    refine List.Nodup.append h.nodup (List.nodup_singleton _) ?_
    rw [List.disjoint_singleton]
    exact fun hmem => absurd (h.below _ hmem) (Nat.lt_irrefl _)
  below conn hmem := by
    simp only [AcceptLoop.spawn, List.mem_append, List.mem_singleton, List.length_append,
      List.length_singleton] at hmem ⊢
    rcases hmem with hmem | rfl
    · have := h.below conn hmem
      omega
    · omega
  joined conn task htask hmem := by
    simp only [AcceptLoop.spawn, List.mem_append, List.mem_singleton, not_or] at htask hmem
    have hlt : conn < s.tasks.length := by
      have hlen := (List.getElem?_eq_some_iff.mp htask).1
      rw [List.length_append, List.length_singleton] at hlen
      omega
    rw [List.getElem?_append_left hlt] at htask
    exact h.joined conn task htask hmem.1
  cancelled hmem := by
    simp only [AcceptLoop.spawn, List.mem_append, List.mem_singleton, reduceCtorEq, or_false] at hmem
    exact absurd hmem (h.not_cancelled (by simp [hphase]) (by simp [hphase]))
  returned drained hp := by cases hp
  draining hd := by
    exact Or.inl (h.unseen (by rw [hphase]; rfl) hd)

theorem Kept.setTask {s : AcceptLoop} (h : Kept s) {conn : ℕ} {old new : Task} {inFlight : ℕ}
    (hold : s.tasks[conn]? = some old) (hrunning : old.ended = false)
    (hcancelled : new = .cancelled → s.phase = .aborting)
    (hinFlight : inFlight = (s.tasks.set conn new).countP Task.counted) :
    Kept { s.setTask conn new with inFlight := inFlight } where
  accepted := by simp [AcceptLoop.setTask, h.accepted]
  inFlight := hinFlight
  nodup := h.nodup
  below c hc := by
    simp only [AcceptLoop.setTask, List.length_set]
    exact h.below c hc
  joined c task htask hc := by
    simp only [AcceptLoop.setTask, List.getElem?_set] at htask
    by_cases hconn : conn = c
    · subst hconn
      have := h.joined conn old hold hc
      rw [hrunning] at this
      cases this
    · rw [if_neg hconn] at htask
      exact h.joined c task htask hc
  cancelled hmem := by
    rcases List.mem_or_eq_of_mem_set hmem with hmem | hnew
    · exact h.cancelled hmem
    · exact Or.inl (hcancelled hnew.symm)
  returned := h.returned
  draining := h.draining

theorem countP_set_task {p : Task → Bool} {tasks : List Task} {conn : ℕ} {old : Task} (new : Task)
    (h : tasks[conn]? = some old) :
    (tasks.set conn new).countP p + (if p old then 1 else 0) = tasks.countP p + if p new then 1 else 0 := by
  obtain ⟨hlt, hold⟩ := List.getElem?_eq_some_iff.mp h
  rw [List.countP_set hlt, hold]
  have hpos : (if p old then 1 else 0) ≤ tasks.countP p := by
    split
    · rename_i hp
      exact List.countP_pos_iff.mpr ⟨old, List.mem_of_getElem? h, hp⟩
    · exact Nat.zero_le _
  omega

theorem Kept.goOn {s : AcceptLoop} (h : Kept s) {conn : ℕ} {old new : Task} (hold : s.tasks[conn]? = some old)
    (hrunning : old.ended = false) (hnew : new.counted = true) (hcancelled : new = .cancelled → s.phase = .aborting) :
    Kept (s.setTask conn new) := by
  refine h.setTask hold hrunning hcancelled ?_
  have hcount := countP_set_task (p := Task.counted) new hold
  have hcounted : old.counted = true := by cases old <;> first | rfl | cases hrunning
  rw [hnew, hcounted] at hcount
  exact h.inFlight.trans (Nat.add_right_cancel hcount).symm

theorem Kept.leave {s : AcceptLoop} (h : Kept s) {conn : ℕ} (hold : s.tasks[conn]? = some .served) :
    Kept { s.setTask conn .left with inFlight := s.inFlight - 1 } := by
  refine h.setTask hold rfl nofun ?_
  have hcount := countP_set_task (p := Task.counted) .left hold
  have := h.inFlight
  simp only [Task.counted, if_true, Bool.false_eq_true, if_false] at hcount
  omega

theorem Kept.signal {s : AcceptLoop} (h : Kept s) {draining unseen sender : Bool}
    (hdraining : draining = true → unseen = true ∨ s.phase.leaving = true) :
    Kept { s with draining := draining, unseen := unseen, sender := sender } :=
  ⟨h.accepted, h.inFlight, h.nodup, h.below, h.joined, h.cancelled, h.returned, hdraining⟩

theorem Kept.check {s : AcceptLoop} (h : Kept s) (hphase : s.phase = .top) :
    Kept { s with phase := if s.draining then .waiting else .changed } := by
  refine h.turn (by rw [hphase]; rfl) ?_ fun hd => ?_
  · intro drained
    split <;> nofun
  · rw [if_pos hd]
    exact Or.inr rfl

theorem Kept.pollChanged {s s' : AcceptLoop} (h : Kept s) (hstep : s.step .pollChanged = some s') : Kept s' := by
  simp only [AcceptLoop.step, Option.ite_none_right_eq_some] at hstep
  obtain ⟨hphase, hstep⟩ := hstep
  have haccepting : s.phase.leaving = false := by rw [hphase]; rfl
  split at hstep
  · cases hstep
    refine h.turn haccepting ?_ fun hd => ?_
    · intro drained
      split <;> nofun
    · rw [if_pos hd]
      exact Or.inr rfl
  · split at hstep
    · cases hstep
      exact h.turn haccepting nofun fun _ => Or.inr rfl
    · cases hstep
      exact h.turn haccepting nofun fun hd => Or.inl (h.unseen haccepting hd)

theorem Kept.join {s : AcceptLoop} (h : Kept s) {conn : ℕ} (hphase : s.phase = .waiting ∨ s.phase = .aborting)
    (hended : s.tasks[conn]?.any Task.ended = true) :
    Kept { s with connectionTasks := s.connectionTasks.erase conn } := by
  refine ⟨h.accepted, h.inFlight, h.nodup.erase conn, fun c hc => h.below c (List.mem_of_mem_erase hc), ?_,
    h.cancelled, ?_, h.draining⟩
  · intro c task htask hc
    by_cases hcc : c = conn
    · subst hcc
      rw [htask] at hended
      exact hended
    · exact h.joined c task htask fun hmem' => hc ((List.mem_erase_of_ne hcc).mpr hmem')
  · intro drained hp
    rcases hphase with hp' | hp' <;> cases hp.symm.trans hp'

theorem Kept.joinNone {s s' : AcceptLoop} (h : Kept s) (hstep : s.step .joinNone = some s') : Kept s' := by
  simp only [AcceptLoop.step, Option.ite_none_right_eq_some] at hstep
  obtain ⟨hempty, hstep⟩ := hstep
  split at hstep
  · rename_i hphase
    cases hstep
    refine ⟨h.accepted, h.inFlight, h.nodup, h.below, h.joined, fun hmem => ?_, fun _ _ => hempty,
      fun _ => Or.inr rfl⟩
    exact absurd hmem (h.not_cancelled (by simp [hphase]) (by simp [hphase]))
  · split at hstep
    · cases hstep
      exact ⟨h.accepted, h.inFlight, h.nodup, h.below, h.joined, fun _ => Or.inr rfl, fun _ _ => hempty,
        fun _ => Or.inr rfl⟩
    · cases hstep

theorem Kept.step {s s' : AcceptLoop} (h : Kept s) {a : Label} (hstep : s.step a = some s') : Kept s' := by
  have hturn : ∀ {phase : Phase}, s.phase.leaving = false → (∀ drained, phase ≠ .returned drained) →
      Kept { s with phase := phase } :=
    fun haccepting hreturned => h.turn haccepting hreturned fun hd => Or.inl (h.unseen haccepting hd)
  cases a with
  | dropSender =>
    cases hstep
    exact h.signal h.draining
  | pollChanged => exact h.pollChanged hstep
  | joinNone => exact h.joinNone hstep
  | beginDrain =>
    obtain ⟨-, ⟨⟩⟩ := Option.ite_none_right_eq_some.mp hstep
    exact h.signal fun _ => Or.inl rfl
  | check =>
    obtain ⟨hphase, ⟨⟩⟩ := Option.ite_none_right_eq_some.mp hstep
    exact h.check hphase
  | accept =>
    obtain ⟨hphase, ⟨⟩⟩ := Option.ite_none_right_eq_some.mp hstep
    exact h.spawn hphase
  | acceptPending | acceptFailed | wake =>
    obtain ⟨hphase, ⟨⟩⟩ := Option.ite_none_right_eq_some.mp hstep
    exact hturn (by rw [hphase]; rfl) nofun
  | join conn =>
    obtain ⟨⟨hphase, -, hended⟩, ⟨⟩⟩ := Option.ite_none_right_eq_some.mp hstep
    exact h.join hphase hended
  | expire =>
    obtain ⟨-, ⟨⟩⟩ := Option.ite_none_right_eq_some.mp hstep
    exact ⟨h.accepted, h.inFlight, h.nodup, h.below, h.joined, fun _ => Or.inl rfl, nofun, fun _ => Or.inr rfl⟩
  | serve conn =>
    obtain ⟨hold, ⟨⟩⟩ := Option.ite_none_right_eq_some.mp hstep
    exact h.goOn hold rfl rfl nofun
  | panic conn =>
    obtain ⟨hold, ⟨⟩⟩ := Option.ite_none_right_eq_some.mp hstep
    exact h.goOn hold rfl rfl nofun
  | leave conn =>
    obtain ⟨hold, ⟨⟩⟩ := Option.ite_none_right_eq_some.mp hstep
    exact h.leave hold
  | cancel conn =>
    obtain ⟨⟨hphase, -, hold⟩, ⟨⟩⟩ := Option.ite_none_right_eq_some.mp hstep
    exact h.goOn hold rfl rfl fun _ => hphase

theorem kept_of_reachable {s : AcceptLoop} (hs : server.Reachable s) : Kept s :=
  hs.invariant Kept.init fun _ _ _ h hstep => h.step hstep

/-! ## When the loop has returned -/

/-- **Nothing is left behind.** When the loop has returned, each connection that it accepted has ended. If it reports
a complete drain, none of them was cancelled: those that did not panic have counted themselves out. -/
theorem returned_ended {s : AcceptLoop} (hs : server.Reachable s) {drained : Bool}
    (hphase : s.phase = .returned drained) :
    s.tasks.length = s.accepted ∧ (∀ task ∈ s.tasks, task.ended) ∧
      (drained = true → Task.cancelled ∉ s.tasks ∧ s.inFlight = s.tasks.count .panicked) := by
  have h := kept_of_reachable hs
  have hended : ∀ task ∈ s.tasks, task.ended := by
    intro task hmem
    obtain ⟨conn, htask⟩ := List.mem_iff_getElem?.mp hmem
    refine h.joined conn task htask ?_
    rw [h.returned drained hphase]
    exact List.not_mem_nil
  refine ⟨h.accepted.symm, hended, ?_⟩
  rintro rfl
  have hnot : Task.cancelled ∉ s.tasks := h.not_cancelled (by simp [hphase]) (by simp [hphase])
  refine ⟨hnot, h.inFlight.trans (List.countP_congr fun task hmem => ?_)⟩
  have := hended task hmem
  cases task with
  | serving | served => cases this
  | left => simp [Task.counted]
  | panicked => simp [Task.counted]
  | cancelled => exact absurd hmem hnot

/-- A connection is accepted and served, and the drain begins while it is. -/
def oneServed : AcceptLoop where
  phase := .returned true
  draining := true
  unseen := true
  accepted := 1
  tasks := [.left]

theorem one_served :
    server.run [.check, .pollChanged, .accept, .beginDrain, .serve 0, .check, .leave 0, .join 0, .joinNone] =
      some oneServed := by
  decide

theorem oneServed_ended :
    oneServed.tasks.length = oneServed.accepted ∧ (∀ task ∈ oneServed.tasks, task.ended) ∧
      (true = true → Task.cancelled ∉ oneServed.tasks ∧ oneServed.inFlight = oneServed.tasks.count .panicked) :=
  returned_ended (Machine.reachable_of_run one_served) rfl

/-! ## No connection after the drain -/

/-- How many connections the loop may still accept once the drain has begun. -/
def AcceptLoop.room (s : AcceptLoop) : ℕ := if s.phase = .accept then 1 else 0

theorem step_draining {s s' : AcceptLoop} (h : Kept s) (hd : s.draining = true) {a : Label}
    (hstep : s.step a = some s') : s'.draining = true ∧ s'.accepted + s'.room ≤ s.accepted + s.room := by
  cases a with
  | beginDrain =>
    simp only [AcceptLoop.step, Option.ite_none_right_eq_some, Option.some.injEq] at hstep
    obtain ⟨-, rfl⟩ := hstep
    exact ⟨rfl, Nat.le_refl _⟩
  | dropSender =>
    simp only [AcceptLoop.step, Option.some.injEq] at hstep
    subst hstep
    exact ⟨hd, Nat.le_refl _⟩
  | check =>
    simp only [AcceptLoop.step, Option.ite_none_right_eq_some, Option.some.injEq] at hstep
    obtain ⟨-, rfl⟩ := hstep
    exact ⟨hd, by simp [AcceptLoop.room, hd]⟩
  | pollChanged =>
    simp only [AcceptLoop.step, Option.ite_none_right_eq_some] at hstep
    obtain ⟨hphase, hstep⟩ := hstep
    -- The change has not been seen, so the poll sees it.
    rw [if_pos (h.unseen (by rw [hphase]; rfl) hd)] at hstep
    cases hstep
    exact ⟨hd, by simp [AcceptLoop.room, hd]⟩
  | accept =>
    simp only [AcceptLoop.step, Option.ite_none_right_eq_some, Option.some.injEq] at hstep
    obtain ⟨hphase, rfl⟩ := hstep
    exact ⟨hd, by simp [AcceptLoop.room, AcceptLoop.spawn, hphase]⟩
  | acceptPending | acceptFailed | wake | expire =>
    simp only [AcceptLoop.step, Option.ite_none_right_eq_some, Option.some.injEq] at hstep
    obtain ⟨-, rfl⟩ := hstep
    exact ⟨hd, by simp [AcceptLoop.room]⟩
  | joinNone =>
    simp only [AcceptLoop.step, Option.ite_none_right_eq_some] at hstep
    obtain ⟨-, hstep⟩ := hstep
    split at hstep
    · cases hstep
      exact ⟨hd, by simp [AcceptLoop.room]⟩
    · split at hstep
      · cases hstep
        exact ⟨hd, by simp [AcceptLoop.room]⟩
      · cases hstep
  | join conn | serve conn | panic conn | leave conn | cancel conn =>
    simp only [AcceptLoop.step, Option.ite_none_right_eq_some, Option.some.injEq] at hstep
    obtain ⟨-, rfl⟩ := hstep
    exact ⟨hd, Nat.le_refl _⟩

/-- **A drain closes the door.** Once the drain has begun, the loop accepts the connection that it is about to accept,
and no other. -/
theorem drain_stops_accepting {s s' : AcceptLoop} (hs : server.Reachable s) (hd : s.draining = true)
    {labels : List Label} (hrun : server.runFrom s labels = some s') :
    s'.accepted ≤ s.accepted + if s.phase = .accept then 1 else 0 := by
  have hinv : Kept s' ∧ s'.draining = true ∧ s'.accepted + s'.room ≤ s.accepted + s.room := by
    refine Machine.runFrom_invariant (M := server) (p := fun _ => True)
      (I := fun t => Kept t ∧ t.draining = true ∧ t.accepted + t.room ≤ s.accepted + s.room) ?_
      ⟨kept_of_reachable hs, hd, Nat.le_refl _⟩ (fun _ _ => trivial) hrun
    rintro t a t' ⟨hk, hdrain, hle⟩ - hstep
    obtain ⟨hdrain', hle'⟩ := step_draining hk hdrain hstep
    exact ⟨hk.step hstep, hdrain', Nat.le_trans hle' hle⟩
  have := hinv.2.2
  unfold AcceptLoop.room at this
  omega

/-- The drain begins between the two polls of the loop. -/
def atTheDoor : AcceptLoop where
  phase := .accept
  draining := true
  unseen := true

theorem at_the_door : server.run [.check, .pollChanged, .beginDrain] = some atTheDoor := by decide

theorem atTheDoor_accepts : atTheDoor.spawn.accepted ≤ atTheDoor.accepted + if atTheDoor.phase = .accept then 1 else 0 :=
  drain_stops_accepting (Machine.reachable_of_run at_the_door) rfl
    (show server.runFrom atTheDoor [.accept] = some atTheDoor.spawn from rfl)

/-! ## The end of a drain -/

/-- How many steps the loop and its tasks can still take after the loop has stopped accepting. -/
def AcceptLoop.remaining (s : AcceptLoop) : ℕ :=
  2 * s.tasks.count .serving + s.tasks.count .served + s.connectionTasks.length +
    match s.phase with
    | .waiting => 2
    | .aborting => 1
    | _ => 0

theorem step_remaining {s s' : AcceptLoop} (hphase : s.phase.leaving = true) {a : Label} (hdrain : a ≠ .beginDrain)
    (hsender : a ≠ .dropSender) (hstep : s.step a = some s') :
    s'.phase.leaving = true ∧ s'.remaining < s.remaining := by
  have hset : ∀ {conn : ℕ} {new : Task}, s.tasks[conn]? = some .serving → new ≠ .serving →
      (s.setTask conn new).remaining < s.remaining := by
    intro conn new hold hnew
    have hserving := countP_set_task (p := (· == .serving)) new hold
    have hserved := countP_set_task (p := (· == .served)) new hold
    have hlt : (if new == .served then 1 else 0) ≤ 1 := by split <;> omega
    simp only [beq_self_eq_true, if_true, beq_iff_eq, hnew, if_false, reduceCtorEq] at hserving hserved hlt
    simp only [AcceptLoop.remaining, AcceptLoop.setTask, List.count]
    omega
  cases a with
  | beginDrain => exact absurd rfl hdrain
  | dropSender => exact absurd rfl hsender
  | check | pollChanged | accept | acceptPending | acceptFailed | wake =>
    simp only [AcceptLoop.step, Option.ite_none_right_eq_some] at hstep
    rw [hstep.1] at hphase
    cases hphase
  | join conn =>
    simp only [AcceptLoop.step, Option.ite_none_right_eq_some, Option.some.injEq] at hstep
    obtain ⟨⟨-, hmem, -⟩, rfl⟩ := hstep
    have hlen := List.length_erase_of_mem hmem
    have hpos := List.length_pos_of_mem hmem
    refine ⟨hphase, ?_⟩
    simp only [AcceptLoop.remaining, hlen]
    omega
  | joinNone =>
    simp only [AcceptLoop.step, Option.ite_none_right_eq_some] at hstep
    obtain ⟨-, hstep⟩ := hstep
    split at hstep
    · rename_i hwaiting
      cases hstep
      exact ⟨rfl, by simp [AcceptLoop.remaining, hwaiting]⟩
    · split at hstep
      · rename_i haborting
        cases hstep
        exact ⟨rfl, by simp [AcceptLoop.remaining, haborting]⟩
      · cases hstep
  | expire =>
    simp only [AcceptLoop.step, Option.ite_none_right_eq_some, Option.some.injEq] at hstep
    obtain ⟨hwaiting, rfl⟩ := hstep
    exact ⟨rfl, by simp [AcceptLoop.remaining, hwaiting]⟩
  | serve conn =>
    simp only [AcceptLoop.step, Option.ite_none_right_eq_some, Option.some.injEq] at hstep
    obtain ⟨hold, rfl⟩ := hstep
    exact ⟨hphase, hset hold nofun⟩
  | panic conn =>
    simp only [AcceptLoop.step, Option.ite_none_right_eq_some, Option.some.injEq] at hstep
    obtain ⟨hold, rfl⟩ := hstep
    exact ⟨hphase, hset hold nofun⟩
  | cancel conn =>
    simp only [AcceptLoop.step, Option.ite_none_right_eq_some, Option.some.injEq] at hstep
    obtain ⟨⟨-, -, hold⟩, rfl⟩ := hstep
    exact ⟨hphase, hset hold nofun⟩
  | leave conn =>
    simp only [AcceptLoop.step, Option.ite_none_right_eq_some, Option.some.injEq] at hstep
    obtain ⟨hold, rfl⟩ := hstep
    have hserving := countP_set_task (p := (· == .serving)) .left hold
    have hserved := countP_set_task (p := (· == .served)) .left hold
    simp only [beq_self_eq_true, if_true, beq_iff_eq, if_false, reduceCtorEq] at hserving hserved
    refine ⟨hphase, ?_⟩
    simp only [AcceptLoop.remaining, AcceptLoop.setTask, List.count]
    omega

theorem exists_step {s : AcceptLoop} (h : Kept s) (hphase : s.phase = .waiting ∨ s.phase = .aborting) :
    ∃ a, (a ≠ .beginDrain ∧ a ≠ .dropSender) ∧ ∃ s', s.step a = some s' := by
  rcases hphase with hphase | hphase
  · exact ⟨.expire, ⟨nofun, nofun⟩, _, if_pos hphase⟩
  · cases hset : s.connectionTasks with
    | nil => exact ⟨.joinNone, ⟨nofun, nofun⟩, { s with phase := .returned false }, by
        simp [AcceptLoop.step, hset, hphase]⟩
    | cons conn rest =>
      have hmem : conn ∈ s.connectionTasks := by rw [hset]; exact List.mem_cons_self
      obtain ⟨task, htask⟩ : ∃ task, s.tasks[conn]? = some task :=
        ⟨_, List.getElem?_eq_getElem (h.below conn hmem)⟩
      cases task with
      | serving => exact ⟨.cancel conn, ⟨nofun, nofun⟩, _, if_pos ⟨hphase, hmem, htask⟩⟩
      | served => exact ⟨.leave conn, ⟨nofun, nofun⟩, _, if_pos htask⟩
      | left | panicked | cancelled =>
        exact ⟨.join conn, ⟨nofun, nofun⟩, _, if_pos ⟨Or.inr hphase, hmem, by rw [htask]; rfl⟩⟩

/-- A connection hangs, and the loop waits for it. -/
def hanging : AcceptLoop where
  phase := .waiting
  draining := true
  unseen := true
  accepted := 1
  inFlight := 1
  tasks := [.serving]
  connectionTasks := [0]

theorem hangs : server.run [.check, .pollChanged, .accept, .beginDrain, .check] = some hanging := by decide

end Riftgate.ServerTasks
