import Mathlib.Data.List.Flatten
import Mathlib.Data.List.Perm.Lattice
import Riftgate.Code.Scheduler

/-!
# The sharded queue loses nothing and invents nothing

Each shard keeps its order by itself. Over all shards together, what the pushes have put in is what the pops have
taken out and what is still there.
-/

open Lib

namespace Riftgate.Scheduler

open ShardedMpmcQueue

variable {τ : Type}

/-! ## One shard -/

theorem setShard_field_apply {β : Type} (q : ShardedMpmcQueue τ) (i : ℕ) (c : Channel τ) (g : Channel τ → β) (j : ℕ) :
    g ((q.setShard i c).shards j) = if j = i then g c else g (q.shards j) := by
  by_cases hj : j = i
  · subst hj
    simp [setShard]
  · simp [setShard, hj]

theorem setShard_field {β : Type} (q : ShardedMpmcQueue τ) (i : ℕ) (c : Channel τ) (g : Channel τ → β) :
    (fun j => g ((q.setShard i c).shards j)) = Function.update (fun j => g (q.shards j)) i (g c) := by
  funext j
  rw [setShard_field_apply q i c g j, Function.update_apply]

theorem setShard_capacity {q : ShardedMpmcQueue τ} {capacity : ℕ} (h : ∀ j, (q.shards j).capacity = capacity) (i : ℕ)
    {c : Channel τ} (hc : c.capacity = (q.shards i).capacity) (j : ℕ) :
    ((q.setShard i c).shards j).capacity = capacity := by
  rw [setShard_field_apply q i c Channel.capacity, hc, h i, h j, ite_self]

theorem pushInner_ok {q q' : ShardedMpmcQueue τ} {i : ℕ} {item : τ} (h : q.pushInner i item = .ok q') :
    ∃ c, (q.shards i).trySend item = .ok c ∧ q' = q.setShard i c := by
  unfold pushInner at h
  cases hc : (q.shards i).trySend item with
  | ok c =>
    rw [hc] at h
    cases h
    exact ⟨c, rfl, rfl⟩
  | error y =>
    rw [hc] at h
    cases h

theorem pushInner_error {q : ShardedMpmcQueue τ} {i : ℕ} {item returned : τ}
    (h : q.pushInner i item = .error returned) :
    returned = item ∧ (q.shards i).items.length = (q.shards i).capacity := by
  unfold pushInner at h
  cases hc : (q.shards i).trySend item with
  | ok c =>
    rw [hc] at h
    cases h
  | error y =>
    rw [hc] at h
    cases h
    exact Channel.trySend_error hc

theorem popFrom_some {q q' : ShardedMpmcQueue τ} {i : ℕ} {item : τ} (h : q.popFrom i = some (item, q')) :
    ∃ c, (q.shards i).tryRecv = some (item, c) ∧ q' = q.setShard i c := by
  obtain ⟨⟨x, c⟩, hc, heq⟩ := Option.map_eq_some_iff.mp h
  cases heq
  exact ⟨c, hc, rfl⟩

theorem popFrom_none {q : ShardedMpmcQueue τ} {i : ℕ} (h : q.popFrom i = none) : (q.shards i).items = [] :=
  Channel.tryRecv_none (Option.map_eq_none_iff.mp h)

/-! ## What a call has seen -/

/-- A call that has found each shard so far at this depth. One for the whole queue leaves no shard out. -/
structure Scan (n depth : ℕ) (whole : Bool) (rest : List ℕ) (probes : Probes) : Prop where
  inRange : ∀ i ∈ rest, i < n
  depths : ∀ p ∈ probes, p.2 = depth
  covers : whole = true → ∀ i < n, i ∈ rest ∨ (i, depth) ∈ probes

theorem Scan.next {n depth : ℕ} {whole : Bool} {i : ℕ} {rest : List ℕ} {probes : Probes}
    (h : Scan n depth whole (i :: rest) probes) : Scan n depth whole rest (probes ++ [(i, depth)]) := by
  refine ⟨fun j hj => h.inRange j (List.mem_cons_of_mem i hj), fun p hp => ?_, fun hw j hj => ?_⟩
  · rcases List.mem_append.mp hp with hp | hp
    · exact h.depths p hp
    · rw [List.mem_singleton.mp hp]
  · rcases h.covers hw j hj with hmem | hmem
    · rcases List.mem_cons.mp hmem with rfl | hmem
      · exact .inr (by simp)
      · exact .inl hmem
    · exact .inr (List.mem_append_left _ hmem)

theorem mem_wrap {n i : ℕ} (start : ℕ) (hi : i < n) :
    i ∈ (List.range n).map fun offset => (start % n + offset) % n := by
  have hs : start % n < n := Nat.mod_lt _ (by omega)
  refine List.mem_map.mpr ⟨(i + n - start % n) % n, List.mem_range.mpr (Nat.mod_lt _ (by omega)), ?_⟩
  rw [Nat.add_mod_mod, Nat.add_sub_cancel' (by omega), Nat.add_mod_right, Nat.mod_eq_of_lt hi]

theorem scan_pushOrder (q : ShardedMpmcQueue τ) (depth : ℕ) : Scan q.shardCount depth true q.pushOrder [] := by
  refine ⟨fun i hi => ?_, nofun, fun _ i hi => .inl (mem_wrap _ hi)⟩
  obtain ⟨offset, ho, rfl⟩ := List.mem_map.mp hi
  exact Nat.mod_lt _ (Nat.zero_lt_of_lt (List.mem_range.mp ho))

theorem scan_popOrder (q : ShardedMpmcQueue τ) (depth : ℕ) : Scan q.shardCount depth true q.popOrder [] :=
  ⟨fun _ => List.mem_range.mp, nofun, fun _ _ hi => .inl (List.mem_range.mpr hi)⟩

theorem scan_stealOrder (q : ShardedMpmcQueue τ) (depth : ℕ) {idx : ℕ} (hidx : idx < q.shardCount) :
    Scan q.shardCount depth true (q.stealOrder idx) [] := by
  refine ⟨fun i hi => ?_, nofun, fun _ i hi => .inl ?_⟩
  · rcases List.mem_cons.mp hi with rfl | hi
    · exact hidx
    · obtain ⟨offset, -, rfl⟩ := List.mem_map.mp hi
      exact Nat.mod_lt _ (by omega)
  · obtain ⟨offset, ho, heq⟩ := List.mem_map.mp (mem_wrap idx hi)
    rw [Nat.mod_eq_of_lt hidx] at heq
    rw [List.mem_range] at ho
    by_cases h0 : offset = 0
    · subst h0
      rw [Nat.add_zero, Nat.mod_eq_of_lt hidx] at heq
      exact heq ▸ List.mem_cons_self
    · refine List.mem_cons_of_mem _ (List.mem_map.mpr ⟨offset, ?_, heq⟩)
      rw [List.mem_range'_1]
      omega

/-! ## One step -/

/-- The item goes from shard to shard unchanged. -/
def Call.Ok (n capacity : ℕ) : Call τ → Prop
  | .idle => True
  | .push given current rest probes => current = given ∧ Scan n capacity true rest probes
  | .pop whole rest probes => Scan n 0 whole rest probes

structure Conserving (n capacity : ℕ) (s : Clients τ) : Prop where
  shardCount : s.queue.shardCount = n
  capacities : ∀ i, (s.queue.shards i).capacity = capacity
  sent : s.accepted.Perm (gather n fun i => (s.queue.shards i).sent)
  received : s.popped.Perm (gather n fun i => (s.queue.shards i).received)
  calls : ∀ t, (s.calls t).Ok n capacity
  rejected : ∀ r ∈ s.rejected, r.returned = r.given ∧ Scan n capacity true [] r.probes
  missed : ∀ probes ∈ s.missed, Scan n 0 true [] probes

variable {n capacity : ℕ} {s s' : Clients τ}

theorem calls_setCall (h : Conserving n capacity s) (t : ℕ) {c : Call τ} (hc : c.Ok n capacity) :
    ∀ t', ((s.setCall t c).calls t').Ok n capacity := by
  intro t'
  by_cases ht : t' = t
  · subst ht
    simpa [Clients.setCall] using hc
  · simpa [Clients.setCall, ht] using h.calls t'

theorem Conserving.setCall (h : Conserving n capacity s) (t : ℕ) {c : Call τ} (hc : c.Ok n capacity) :
    Conserving n capacity (s.setCall t c) :=
  ⟨h.shardCount, h.capacities, h.sent, h.received, calls_setCall h t hc, h.rejected, h.missed⟩

theorem Conserving.accept (h : Conserving n capacity s) (t : ℕ) {i : ℕ} (hi : i < n) {item : τ}
    {q : ShardedMpmcQueue τ} (hq : s.queue.pushInner i item = .ok q) :
    Conserving n capacity { s.setCall t .idle with queue := q, accepted := s.accepted ++ [item] } := by
  obtain ⟨c, hc, rfl⟩ := pushInner_ok hq
  obtain ⟨-, hsent, hreceived, hcapacity⟩ := Channel.trySend_ok hc
  refine ⟨h.shardCount, setShard_capacity h.capacities i hcapacity, ?_, ?_, calls_setCall h t trivial, h.rejected,
    h.missed⟩
  · rw [setShard_field s.queue i c Channel.sent, hsent]
    refine List.Perm.trans ?_ (gather_concat hi _ item).symm
    exact (List.perm_append_singleton item s.accepted).trans (h.sent.cons item)
  · rw [setShard_field s.queue i c Channel.received, hreceived, Function.update_eq_self]
    exact h.received

theorem Conserving.take (h : Conserving n capacity s) (t : ℕ) {i : ℕ} (hi : i < n) {item : τ}
    {q : ShardedMpmcQueue τ} (hq : s.queue.popFrom i = some (item, q)) :
    Conserving n capacity { s.setCall t .idle with queue := q, popped := s.popped ++ [item] } := by
  obtain ⟨c, hc, rfl⟩ := popFrom_some hq
  obtain ⟨-, hsent, hreceived, hcapacity⟩ := Channel.tryRecv_some hc
  refine ⟨h.shardCount, setShard_capacity h.capacities i hcapacity, ?_, ?_, calls_setCall h t trivial, h.rejected,
    h.missed⟩
  · rw [setShard_field s.queue i c Channel.sent, hsent, Function.update_eq_self]
    exact h.sent
  · rw [setShard_field s.queue i c Channel.received, hreceived]
    refine List.Perm.trans ?_ (gather_concat hi _ item).symm
    exact (List.perm_append_singleton item s.popped).trans (h.received.cons item)

theorem Conserving.probe (h : Conserving n capacity s) (t : ℕ) (hstep : s.probe t = some s') :
    Conserving n capacity s' := by
  have hok := h.calls t
  unfold Clients.probe at hstep
  split at hstep
  · cases hstep
  · rename_i given current probes hcall
    rw [hcall] at hok
    obtain ⟨rfl, hscan⟩ := hok
    cases hstep
    refine ⟨h.shardCount, h.capacities, h.sent, h.received, calls_setCall h t trivial, fun r hr => ?_, h.missed⟩
    rcases List.mem_append.mp hr with hr | hr
    · exact h.rejected r hr
    · rw [List.mem_singleton.mp hr]
      exact ⟨rfl, hscan⟩
  · rename_i given current i rest probes hcall
    rw [hcall] at hok
    obtain ⟨rfl, hscan⟩ := hok
    split at hstep
    · rename_i q hq
      cases hstep
      exact h.accept t (hscan.inRange i List.mem_cons_self) hq
    · rename_i returned hq
      obtain ⟨rfl, hfull⟩ := pushInner_error hq
      cases hstep
      refine h.setCall t ⟨rfl, ?_⟩
      rw [probed, hfull, h.capacities]
      exact hscan.next
  · rename_i whole probes hcall
    rw [hcall] at hok
    cases hstep
    refine ⟨h.shardCount, h.capacities, h.sent, h.received, calls_setCall h t trivial, h.rejected, fun p hp => ?_⟩
    cases whole with
    | false => exact h.missed p hp
    | true =>
      rcases List.mem_append.mp hp with hp | hp
      · exact h.missed p hp
      · rw [List.mem_singleton.mp hp]
        exact hok
  · rename_i whole i rest probes hcall
    rw [hcall] at hok
    split at hstep
    · rename_i item q hq
      cases hstep
      exact h.take t (hok.inRange i List.mem_cons_self) hq
    · rename_i hq
      cases hstep
      refine h.setCall t ?_
      rw [probed, popFrom_none hq]
      exact hok.next

theorem Conserving.step (h : Conserving n capacity s) {a : ClientLabel τ} (hstep : s.step a = some s') :
    Conserving n capacity s' := by
  cases a with
  | push t item =>
    simp only [Clients.step, Option.ite_none_right_eq_some, Option.some.injEq] at hstep
    obtain ⟨-, rfl⟩ := hstep
    refine ⟨h.shardCount, h.capacities, h.sent, h.received, calls_setCall h t ⟨rfl, ?_⟩, h.rejected, h.missed⟩
    rw [← h.shardCount]
    exact scan_pushOrder s.queue capacity
  | pop t =>
    simp only [Clients.step, Option.ite_none_right_eq_some, Option.some.injEq] at hstep
    obtain ⟨-, rfl⟩ := hstep
    refine h.setCall t ?_
    have hscan := scan_popOrder s.queue 0
    rwa [h.shardCount] at hscan
  | popFrom t idx =>
    simp only [Clients.step, Option.ite_none_right_eq_some, Option.some.injEq] at hstep
    obtain ⟨⟨-, hidx⟩, rfl⟩ := hstep
    refine h.setCall t ⟨fun i hi => ?_, nofun, nofun⟩
    rw [List.mem_singleton.mp hi, ← h.shardCount]
    exact hidx
  | popOrSteal t idx =>
    simp only [Clients.step, Option.ite_none_right_eq_some, Option.some.injEq] at hstep
    obtain ⟨⟨-, hidx⟩, rfl⟩ := hstep
    refine h.setCall t ?_
    have hscan := scan_stealOrder s.queue 0 hidx
    rwa [h.shardCount] at hscan
  | probe t => exact h.probe t hstep

/-! ## Every run -/

theorem conserving_reachable (hs : (clients n capacity).Reachable s) : Conserving n capacity s := by
  refine Machine.Reachable.invariant (I := Conserving n capacity) ?_ (fun s a s' hi hstep => hi.step hstep) hs
  have hempty : gather n (fun _ => ([] : List τ)) = [] := by simp [gather]
  exact ⟨rfl, fun _ => rfl, hempty ▸ .refl _, hempty ▸ .refl _, fun _ => trivial,
    fun _ hr => absurd hr List.not_mem_nil, fun _ hp => absurd hp List.not_mem_nil⟩

/-- What is in the shards now. -/
def Clients.queued (s : Clients τ) : List τ := gather s.queue.shardCount fun i => (s.queue.shards i).items

/-- Each shard had this depth when the call looked at it, and the call looked at all of them. -/
def SawAll (n depth : ℕ) (probes : Probes) : Prop := (∀ i < n, (i, depth) ∈ probes) ∧ ∀ p ∈ probes, p.2 = depth

theorem Scan.sawAll {depth : ℕ} {probes : Probes} (h : Scan n depth true [] probes) : SawAll n depth probes :=
  ⟨fun i hi => (h.covers rfl i hi).resolve_left List.not_mem_nil, h.depths⟩

/-- **The queue conserves its items.** In every interleaving of calls, the items accepted are those popped and those
still there, and each shard gives them out in its order. A push fails with its own item, and only after it has seen
each shard full; a pop of the whole queue finds nothing only after it has seen each shard empty. -/
theorem items_conserved (n capacity : ℕ) (s : Clients τ) (hs : (clients n capacity).Reachable s) :
    s.accepted.Perm (s.popped ++ s.queued) ∧ (s.accepted.Nodup → s.popped.Nodup) ∧
    (∀ i, (s.queue.shards i).sent = (s.queue.shards i).received ++ (s.queue.shards i).items) ∧
    s.accepted.Perm (gather n fun i => (s.queue.shards i).sent) ∧
    s.popped.Perm (gather n fun i => (s.queue.shards i).received) ∧
    (∀ r ∈ s.rejected, r.returned = r.given ∧ SawAll n capacity r.probes) ∧
    ∀ probes ∈ s.missed, SawAll n 0 probes := by
  have h := conserving_reachable hs
  have hperm : s.accepted.Perm (s.popped ++ s.queued) := by
    refine h.sent.trans ?_
    simp only [fun i => (s.queue.shards i).fifo]
    refine List.Perm.trans (List.flatMap_append_perm _ _ _).symm ?_
    rw [Clients.queued, h.shardCount]
    exact h.received.symm.append_right _
  refine ⟨hperm, fun hnodup => ?_, fun i => (s.queue.shards i).fifo, h.sent, h.received, fun r hr => ?_, fun p hp => ?_⟩
  · exact (List.nodup_append.mp (hperm.nodup_iff.mp hnodup)).1
  · exact ⟨(h.rejected r hr).1, (h.rejected r hr).2.sawAll⟩
  · exact (h.missed p hp).sawAll

/-- Two shards for one item each: three pushes, of which the last fails, and a pop that steals. -/
def threePushes : List (ClientLabel Char) :=
  [.push 0 'a', .push 1 'b', .push 2 'c', .probe 1, .probe 0, .popOrSteal 3 1, .probe 2, .probe 2, .probe 2, .probe 3,
    .popOrSteal 3 1, .probe 3, .probe 3]

theorem threePushes_conserved : ∃ s : Clients Char, s.accepted = ['b', 'a'] ∧ s.popped = ['b', 'a'] ∧
    s.rejected.map Rejection.returned = ['c'] ∧ ∀ r ∈ s.rejected, r.returned = r.given ∧ SawAll 2 1 r.probes := by
  have hrun : ((clients 2 1).run threePushes).map (fun s => decide (s.accepted = ['b', 'a'] ∧ s.popped = ['b', 'a'] ∧
      s.rejected.map Rejection.returned = ['c'])) = some true := by
    decide
  obtain ⟨s, hs, hseen⟩ := Machine.exists_of_run hrun
  obtain ⟨haccepted, hpopped, hrejected⟩ := of_decide_eq_true hseen
  exact ⟨s, haccepted, hpopped, hrejected, (items_conserved 2 1 s hs).2.2.2.2.2.1⟩

end Riftgate.Scheduler
