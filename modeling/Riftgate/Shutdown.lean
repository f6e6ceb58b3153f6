import Riftgate.Shards

/-!
# A shutdown leaves no task behind

A worker leaves its first loop only after it has read the flag, and then it empties its shard once more. A task that
was in the shard before the flag was set is gone by then, because it has run.
-/

open Lib

namespace Riftgate.Scheduler

open ShardedMpmcQueue

/-- What has gone into a shard. -/
def PerShardScheduler.sent (s : PerShardScheduler) (i : ℕ) : List ℕ := (s.queue.shards i).sent

theorem pushInner_shardCount {q q' : ShardedMpmcQueue ℕ} {i task : ℕ} (h : q.pushInner i task = .ok q') :
    q'.shardCount = q.shardCount := by
  obtain ⟨c, -, rfl⟩ := pushInner_ok h
  rfl

theorem pushInner_sent {q q' : ShardedMpmcQueue ℕ} {i task : ℕ} (h : q.pushInner i task = .ok q') (j : ℕ) :
    (q'.shards j).sent = if j = i then (q.shards i).sent ++ [task] else (q.shards j).sent := by
  obtain ⟨c, hc, rfl⟩ := pushInner_ok h
  rw [← (Channel.trySend_ok hc).2.1]
  exact setShard_field_apply q i c Channel.sent j

/-! ## Every task is in one shard at most -/

structure Numbered (n : ℕ) (s : PerShardScheduler) : Prop where
  shardCount : s.queue.shardCount = n
  below : ∀ i, ∀ k ∈ s.sent i, k < s.next
  nodup : ∀ i, (s.sent i).Nodup
  apart : ∀ i j k, k ∈ s.sent i → k ∈ s.sent j → i = j
  pending : ∀ t task rest, s.submits t = .push task rest →
    task < s.next ∧ (∀ i, task ∉ s.sent i) ∧ ∀ i ∈ rest, i < n
  single : ∀ t t' task rest rest', s.submits t = .push task rest → s.submits t' = .push task rest' → t = t'
  due : ∀ k ∈ s.due, ∃ i < n, k ∈ s.sent i

variable {n : ℕ} {s s' : PerShardScheduler}

theorem Numbered.frame (h : Numbered n s) (hcount : s'.queue.shardCount = s.queue.shardCount)
    (hsent : s'.sent = s.sent) (hsubmits : s'.submits = s.submits) (hnext : s'.next = s.next)
    (hdue : s'.due = s.due) : Numbered n s' := by
  refine ⟨hcount.trans h.shardCount, ?_, ?_, ?_, ?_, ?_, ?_⟩
  · rw [hsent, hnext]
    exact h.below
  · rw [hsent]
    exact h.nodup
  · rw [hsent]
    exact h.apart
  · rw [hsubmits, hnext, hsent]
    exact h.pending
  · rw [hsubmits]
    exact h.single
  · rw [hdue, hsent]
    exact h.due

theorem setSubmit_cases {t t' : ℕ} {c c' : Submit} (h : (s.setSubmit t c).submits t' = c') :
    (t' = t ∧ c' = c) ∨ (t' ≠ t ∧ s.submits t' = c') := by
  by_cases ht : t' = t
  · subst ht
    refine .inl ⟨rfl, ?_⟩
    simpa [PerShardScheduler.setSubmit] using h.symm
  · refine .inr ⟨ht, ?_⟩
    simpa [PerShardScheduler.setSubmit, ht] using h

theorem Numbered.submit (h : Numbered n s) {t : ℕ} (hstep : s.submit t = some s') : Numbered n s' := by
  unfold PerShardScheduler.submit at hstep
  split at hstep
  · cases hstep
    refine ⟨h.shardCount, fun i k hk => Nat.lt_succ_of_lt (h.below i k hk), h.nodup, h.apart, ?_, ?_, h.due⟩
    · intro t' task rest hcall
      rcases setSubmit_cases hcall with ⟨rfl, heq⟩ | ⟨-, hold⟩
      · cases heq
        refine ⟨Nat.lt_succ_self _, fun i hi => Nat.lt_irrefl _ (h.below i _ hi), ?_⟩
        rw [← h.shardCount]
        exact (scan_pushOrder s.queue 0).inRange
      · obtain ⟨hlt, hnew, hrest⟩ := h.pending t' task rest hold
        exact ⟨Nat.lt_succ_of_lt hlt, hnew, hrest⟩
    · intro t₁ t₂ task rest rest' h₁ h₂
      rcases setSubmit_cases h₁ with ⟨rfl, heq₁⟩ | ⟨-, hold₁⟩
      · rcases setSubmit_cases h₂ with ⟨rfl, -⟩ | ⟨-, hold₂⟩
        · rfl
        · cases heq₁
          exact absurd (h.pending t₂ _ _ hold₂).1 (Nat.lt_irrefl _)
      · rcases setSubmit_cases h₂ with ⟨rfl, heq₂⟩ | ⟨-, hold₂⟩
        · cases heq₂
          exact absurd (h.pending t₁ _ _ hold₁).1 (Nat.lt_irrefl _)
        · exact h.single t₁ t₂ task rest rest' hold₁ hold₂
  · cases hstep

theorem Numbered.setSubmit (h : Numbered n s) (t : ℕ) {task : ℕ} {rest : List ℕ}
    (hcall : s.submits t = .push task rest) {c : Submit}
    (hc : c = .idle ∨ ∃ rest', c = .push task rest' ∧ ∀ i ∈ rest', i < n) : Numbered n (s.setSubmit t c) := by
  refine ⟨h.shardCount, h.below, h.nodup, h.apart, ?_, ?_, h.due⟩
  · intro t' task' rest' hcall'
    rcases setSubmit_cases hcall' with ⟨rfl, heq⟩ | ⟨-, hold⟩
    · rcases hc with rfl | ⟨rest'', rfl, hrange⟩
      · cases heq
      · cases heq
        obtain ⟨hlt, hnew, -⟩ := h.pending t' _ _ hcall
        exact ⟨hlt, hnew, hrange⟩
    · exact h.pending t' task' rest' hold
  · intro t₁ t₂ task' rest₁ rest₂ h₁ h₂
    have hsame : ∀ t' r, (s.setSubmit t c).submits t' = .push task' r → ∃ r', s.submits t' = .push task' r' := by
      intro t' r hcall'
      rcases setSubmit_cases hcall' with ⟨rfl, heq⟩ | ⟨-, hold⟩
      · rcases hc with rfl | ⟨rest'', rfl, -⟩
        · cases heq
        · cases heq
          exact ⟨rest, hcall⟩
      · exact ⟨r, hold⟩
    obtain ⟨r₁, hold₁⟩ := hsame t₁ rest₁ h₁
    obtain ⟨r₂, hold₂⟩ := hsame t₂ rest₂ h₂
    exact h.single t₁ t₂ task' r₁ r₂ hold₁ hold₂

theorem Numbered.accept (h : Numbered n s) {t task i : ℕ} {rest : List ℕ} (hcall : s.submits t = .push task rest)
    (hi : i < n) {q : ShardedMpmcQueue ℕ} (hcount : q.shardCount = s.queue.shardCount)
    (hsent : ∀ j, (q.shards j).sent = if j = i then s.sent i ++ [task] else s.sent j) {due : List ℕ}
    (hdue : due = s.due ∨ due = s.due ++ [task]) :
    Numbered n { s.setSubmit t .idle with queue := q, due := due } := by
  obtain ⟨hlt, hnew, -⟩ := h.pending t _ _ hcall
  have hmem : ∀ j k, k ∈ (q.shards j).sent ↔ k ∈ s.sent j ∨ j = i ∧ k = task := by
    intro j k
    rw [hsent]
    by_cases hj : j = i
    · subst hj
      simp
    · simp [hj]
  refine ⟨hcount.trans h.shardCount, ?_, ?_, ?_, ?_, ?_, ?_⟩
  · intro j k hk
    rcases (hmem j k).mp hk with hk | ⟨-, rfl⟩
    · exact h.below j k hk
    · exact hlt
  · intro j
    simp only [PerShardScheduler.sent, hsent]
    split
    · exact List.Nodup.append (h.nodup i) (List.nodup_singleton task) (by simpa [PerShardScheduler.sent] using hnew i)
    · exact h.nodup j
  · intro j j' k hk hk'
    rcases (hmem j k).mp hk with hk | ⟨rfl, rfl⟩
    · rcases (hmem j' k).mp hk' with hk' | ⟨rfl, rfl⟩
      · exact h.apart j j' k hk hk'
      · exact absurd hk (hnew j)
    · rcases (hmem j' k).mp hk' with hk' | ⟨rfl, -⟩
      · exact absurd hk' (hnew j')
      · rfl
  · intro t' task' rest' hcall'
    rcases setSubmit_cases hcall' with ⟨-, heq⟩ | ⟨hne, hold⟩
    · cases heq
    · obtain ⟨hlt', hnew', hrest'⟩ := h.pending t' task' rest' hold
      refine ⟨hlt', fun j hj => ?_, hrest'⟩
      rcases (hmem j task').mp hj with hj | ⟨-, rfl⟩
      · exact hnew' j hj
      · exact hne (h.single t' t _ _ _ hold hcall)
  · intro t₁ t₂ task' rest₁ rest₂ h₁ h₂
    rcases setSubmit_cases h₁ with ⟨-, heq⟩ | ⟨-, hold₁⟩
    · cases heq
    · rcases setSubmit_cases h₂ with ⟨-, heq⟩ | ⟨-, hold₂⟩
      · cases heq
      · exact h.single t₁ t₂ task' rest₁ rest₂ hold₁ hold₂
  · intro k hk
    have hk : k ∈ s.due ∨ k = task := by
      rcases hdue with rfl | rfl
      · exact .inl hk
      · simpa using hk
    rcases hk with hk | rfl
    · obtain ⟨j, hj, hkj⟩ := h.due k hk
      exact ⟨j, hj, (hmem j k).mpr (.inl hkj)⟩
    · exact ⟨i, hi, (hmem i k).mpr (.inr ⟨rfl, rfl⟩)⟩

theorem Numbered.push (h : Numbered n s) {t : ℕ} (hstep : s.push t = some s') : Numbered n s' := by
  unfold PerShardScheduler.push at hstep
  split at hstep
  · cases hstep
  · rename_i task hcall
    cases hstep
    exact h.setSubmit t hcall (.inl rfl)
  · rename_i task i rest hcall
    obtain ⟨hlt, hnew, hrest⟩ := h.pending t _ _ hcall
    split at hstep
    · rename_i q hq
      cases hstep
      refine h.accept hcall (hrest i List.mem_cons_self) (pushInner_shardCount hq) (pushInner_sent hq) ?_
      split
      · exact .inl rfl
      · exact .inr rfl
    · rename_i returned hq
      obtain ⟨rfl, -⟩ := pushInner_error hq
      cases hstep
      exact h.setSubmit t hcall (.inr ⟨rest, rfl, fun j hj => hrest j (List.mem_cons_of_mem i hj)⟩)

/-! ## What a worker has done -/

/-- The task that a worker has popped and not run. -/
def Worker.held : Worker → List ℕ
  | .run task _ => [task]
  | _ => []

/-- In the second loop, or past it. -/
def Worker.draining : Worker → Bool
  | .pop draining | .run _ draining => draining
  | .load => false
  | .exited => true

structure Drains (s : PerShardScheduler) : Prop where
  received : ∀ i, (s.queue.shards i).received = s.ran i ++ (s.workers i).held
  draining : ∀ i, (s.workers i).draining = true → s.shutdown = true
  called : s.shutdown = true → s.called = true
  storing : ∀ t, s.stops t = .store → s.called = true
  exited : ∀ i, s.workers i = .exited → ∀ k ∈ s.due, k ∈ s.sent i → k ∈ s.ran i

theorem Drains.submitted (h : Drains s) (hreceived : ∀ i, (s'.queue.shards i).received = (s.queue.shards i).received)
    (hsent : ∀ i k, k ∈ s.due → k ∈ s'.sent i → k ∈ s.sent i) (hdue : s.called = true → s'.due = s.due)
    (hworkers : s'.workers = s.workers) (hran : s'.ran = s.ran) (hshutdown : s'.shutdown = s.shutdown)
    (hcalled : s'.called = s.called) (hstops : s'.stops = s.stops) : Drains s' := by
  refine ⟨?_, ?_, ?_, ?_, ?_⟩
  · intro i
    rw [hreceived, hran, hworkers]
    exact h.received i
  · rw [hworkers, hshutdown]
    exact h.draining
  · rw [hshutdown, hcalled]
    exact h.called
  · rw [hstops, hcalled]
    exact h.storing
  · intro i hexit k hk hki
    rw [hworkers] at hexit
    rw [hdue (h.called (h.draining i (by rw [hexit]; rfl)))] at hk
    rw [hran]
    exact h.exited i hexit k hk (hsent i k hk hki)

theorem pushInner_received {q q' : ShardedMpmcQueue ℕ} {i task : ℕ} (h : q.pushInner i task = .ok q') (j : ℕ) :
    (q'.shards j).received = (q.shards j).received := by
  obtain ⟨c, hc, rfl⟩ := pushInner_ok h
  rw [setShard_field_apply q i c Channel.received j, (Channel.trySend_ok hc).2.2.1]
  split
  · rename_i hj
    rw [hj]
  · rfl

theorem Drains.push (h : Drains s) (hn : Numbered n s) {t : ℕ} (hstep : s.push t = some s') : Drains s' := by
  unfold PerShardScheduler.push at hstep
  split at hstep
  · cases hstep
  · cases hstep
    exact h.submitted (fun _ => rfl) (fun _ _ _ => id) (fun _ => rfl) rfl rfl rfl rfl rfl
  · rename_i task i rest hcall
    split at hstep
    · rename_i q hq
      cases hstep
      refine h.submitted (pushInner_received hq) (fun j k hk hkj => ?_) (fun hcalled => if_pos hcalled) rfl rfl rfl rfl
        rfl
      have hkj : k ∈ (q.shards j).sent := hkj
      rw [pushInner_sent hq] at hkj
      split at hkj
      · rename_i hj
        subst hj
        rcases List.mem_append.mp hkj with hold | hnew
        · exact hold
        · -- The new task is not due: it was in no shard.
          rw [List.mem_singleton] at hnew
          subst hnew
          obtain ⟨l, -, hl⟩ := hn.due k hk
          exact absurd hl ((hn.pending t _ _ hcall).2.1 l)
      · exact hkj
    · cases hstep
      exact h.submitted (fun _ => rfl) (fun _ _ _ => id) (fun _ => rfl) rfl rfl rfl rfl rfl

theorem popFrom_logs {q q' : ShardedMpmcQueue ℕ} {i task : ℕ} (h : q.popFrom i = some (task, q')) (j : ℕ) :
    (q'.shards j).sent = (q.shards j).sent ∧
      (q'.shards j).received = if j = i then (q.shards i).received ++ [task] else (q.shards j).received := by
  obtain ⟨c, hc, rfl⟩ := popFrom_some h
  obtain ⟨-, hsent, hreceived, -⟩ := Channel.tryRecv_some hc
  refine ⟨?_, hreceived ▸ setShard_field_apply q i c Channel.received j⟩
  rw [setShard_field_apply q i c Channel.sent j, hsent]
  split
  · rename_i hj
    rw [hj]
  · rfl

theorem Drains.worked (h : Drains s) {i : ℕ} {w : Worker} {ran : List ℕ}
    (hworkers : s'.workers = Function.update s.workers i w) (hran : s'.ran = Function.update s.ran i ran)
    (hsent : s'.sent = s.sent) (hothers : ∀ j, j ≠ i → (s'.queue.shards j).received = (s.queue.shards j).received)
    (hself : (s'.queue.shards i).received = ran ++ w.held) (hdraining : w.draining = true → s.shutdown = true)
    (hexited : w = .exited → ∀ k ∈ s.due, k ∈ s.sent i → k ∈ ran) (hshutdown : s'.shutdown = s.shutdown)
    (hcalled : s'.called = s.called) (hstops : s'.stops = s.stops) (hdue : s'.due = s.due) : Drains s' := by
  refine ⟨fun j => ?_, fun j hj => ?_, ?_, ?_, fun j hexit k hk hkj => ?_⟩
  · by_cases hj : j = i
    · subst hj
      rw [hself, hran, hworkers, Function.update_self, Function.update_self]
    · rw [hothers j hj, hran, hworkers, Function.update_of_ne hj, Function.update_of_ne hj]
      exact h.received j
  · rw [hshutdown]
    by_cases hji : j = i
    · subst hji
      rw [hworkers, Function.update_self] at hj
      exact hdraining hj
    · rw [hworkers, Function.update_of_ne hji] at hj
      exact h.draining j hj
  · rw [hshutdown, hcalled]
    exact h.called
  · rw [hstops, hcalled]
    exact h.storing
  · rw [hdue] at hk
    rw [hsent] at hkj
    by_cases hji : j = i
    · subst hji
      rw [hworkers, Function.update_self] at hexit
      rw [hran, Function.update_self]
      exact hexited hexit k hk hkj
    · rw [hworkers, Function.update_of_ne hji] at hexit
      rw [hran, Function.update_of_ne hji]
      exact h.exited j hexit k hk hkj

theorem Drains.work (h : Drains s) {i : ℕ} (hstep : s.work i = some s') : Drains s' := by
  have hlog := h.received i
  unfold PerShardScheduler.work at hstep
  split at hstep
  · rename_i draining hw
    have hdraining : draining = true → s.shutdown = true := fun hd => h.draining i (by rw [hw]; exact hd)
    simp only [hw, Worker.held, List.append_nil] at hlog
    split at hstep
    · rename_i task q hq
      cases hstep
      refine h.worked (w := .run task draining) rfl (Function.update_eq_self i s.ran).symm ?_ (fun j hj => ?_) ?_
        hdraining nofun rfl rfl rfl rfl
      · funext j
        exact (popFrom_logs hq j).1
      · exact (popFrom_logs hq j).2.trans (if_neg hj)
      · exact (popFrom_logs hq i).2.trans ((if_pos rfl).trans (by rw [hlog]; rfl))
    · rename_i hq
      cases hstep
      -- The shard is empty, so all that ever went into it has run.
      have hall : s.sent i = s.ran i := by
        rw [PerShardScheduler.sent, (s.queue.shards i).fifo, popFrom_none hq, hlog, List.append_nil]
      refine h.worked rfl (Function.update_eq_self i s.ran).symm rfl (fun _ _ => rfl) ?_ (fun hd => ?_)
        (fun _ k _ hk => hall ▸ hk) rfl rfl rfl rfl
      · cases draining <;> exact hlog.trans (List.append_nil _).symm
      · cases draining with
        | false => cases hd
        | true => exact hdraining rfl
  · rename_i task draining hw
    have hdraining : draining = true → s.shutdown = true := fun hd => h.draining i (by rw [hw]; exact hd)
    rw [hw] at hlog
    cases hstep
    exact h.worked (w := .pop draining) rfl rfl rfl (fun _ _ => rfl) (hlog.trans (List.append_nil _).symm) hdraining
      nofun
      rfl rfl rfl rfl
  · rename_i hw
    rw [hw] at hlog
    cases hstep
    exact h.worked (w := .pop s.shutdown) rfl (Function.update_eq_self i s.ran).symm rfl (fun _ _ => rfl) hlog id nofun
      rfl rfl rfl rfl
  · cases hstep

/-! ## The joins -/

structure Joined (n : ℕ) (s : PerShardScheduler) : Prop where
  handles : ∀ i < n, i ∈ s.handles ∨ (∃ t rest, s.stops t = .join rest ∧ i ∈ rest) ∨ s.workers i = .exited
  holder : ∀ t rest, s.stops t = .join rest → s.handlesLock = some t ∧ s.handles = []
  returned : ∀ t, s.stops t = .returned → ∀ i < n, s.workers i = .exited

theorem Joined.worked (h : Joined n s) (hhandles : s'.handles = s.handles) (hlock : s'.handlesLock = s.handlesLock)
    (hstops : s'.stops = s.stops) (hexited : ∀ i, s.workers i = .exited → s'.workers i = .exited) : Joined n s' := by
  refine ⟨fun i hi => ?_, ?_, fun t ht i hi => ?_⟩
  · rw [hhandles, hstops]
    rcases h.handles i hi with hmem | hjoin | hexit
    · exact .inl hmem
    · exact .inr (.inl hjoin)
    · exact .inr (.inr (hexited i hexit))
  · rw [hstops, hlock, hhandles]
    exact h.holder
  · rw [hstops] at ht
    exact hexited i (h.returned t ht i hi)

theorem setStop_cases {t t' : ℕ} {c c' : Stop} (h : (s.setStop t c).stops t' = c') :
    (t' = t ∧ c' = c) ∨ (t' ≠ t ∧ s.stops t' = c') := by
  by_cases ht : t' = t
  · subst ht
    refine .inl ⟨rfl, ?_⟩
    simpa [PerShardScheduler.setStop] using h.symm
  · refine .inr ⟨ht, ?_⟩
    simpa [PerShardScheduler.setStop, ht] using h

theorem setStop_self (t : ℕ) (c : Stop) : (s.setStop t c).stops t = c := by
  simp [PerShardScheduler.setStop]

theorem setStop_of_ne {t t' : ℕ} (h : t' ≠ t) (c : Stop) : (s.setStop t c).stops t' = s.stops t' := by
  simp [PerShardScheduler.setStop, h]

theorem Joined.setStop (h : Joined n s) {t : ℕ} {c : Stop} (hfrom : ∀ rest, s.stops t ≠ .join rest)
    (hto : ∀ rest, c ≠ .join rest) (hreturned : c ≠ .returned) (hhandles : s'.handles = s.handles)
    (hlock : s'.handlesLock = s.handlesLock) (hstops : s'.stops = (s.setStop t c).stops)
    (hworkers : s'.workers = s.workers) : Joined n s' := by
  refine ⟨fun i hi => ?_, fun t' rest hjoin => ?_, fun t' hret => ?_⟩
  · rw [hhandles, hworkers]
    rcases h.handles i hi with hmem | ⟨t', rest, hjoin, hmem⟩ | hexit
    · exact .inl hmem
    · refine .inr (.inl ⟨t', rest, ?_, hmem⟩)
      have hne : t' ≠ t := fun heq => hfrom rest (heq ▸ hjoin)
      rw [hstops, setStop_of_ne hne]
      exact hjoin
    · exact .inr (.inr hexit)
  · rw [hstops] at hjoin
    rw [hlock, hhandles]
    rcases setStop_cases hjoin with ⟨-, heq⟩ | ⟨-, hold⟩
    · exact absurd heq.symm (hto rest)
    · exact h.holder t' rest hold
  · rw [hstops] at hret
    rw [hworkers]
    rcases setStop_cases hret with ⟨-, heq⟩ | ⟨-, hold⟩
    · exact absurd heq.symm hreturned
    · exact h.returned t' hold

theorem Joined.takeHandles (h : Joined n s) (t : ℕ) (hfree : s.handlesLock = none) :
    Joined n { s.setStop t (.join s.handles) with handlesLock := some t, handles := [] } := by
  have hnobody : ∀ t' rest, s.stops t' ≠ .join rest := by
    intro t' rest hjoin
    have := (h.holder t' rest hjoin).1
    rw [hfree] at this
    cases this
  refine ⟨fun i hi => ?_, fun t' rest hjoin => ?_, fun t' hret => ?_⟩
  · rcases h.handles i hi with hmem | ⟨t', rest, hjoin, -⟩ | hexit
    · exact .inr (.inl ⟨t, s.handles, setStop_self t _, hmem⟩)
    · exact absurd hjoin (hnobody t' rest)
    · exact .inr (.inr hexit)
  · rcases setStop_cases hjoin with ⟨rfl, -⟩ | ⟨-, hold⟩
    · exact ⟨rfl, rfl⟩
    · exact absurd hold (hnobody t' rest)
  · rcases setStop_cases hret with ⟨-, heq⟩ | ⟨-, hold⟩
    · cases heq
    · exact h.returned t' hold

theorem Joined.joinWorker (h : Joined n s) {t i : ℕ} {rest : List ℕ} (hjoining : s.stops t = .join (i :: rest))
    (hexit : s.workers i = .exited) : Joined n (s.setStop t (.join rest)) := by
  refine ⟨fun j hj => ?_, fun t' rest' hjoin => ?_, fun t' hret => ?_⟩
  · rcases h.handles j hj with hmem | ⟨t', rest', hjoin, hmem⟩ | hexit'
    · exact .inl hmem
    · by_cases ht : t' = t
      · subst ht
        rw [hjoining] at hjoin
        cases hjoin
        rcases List.mem_cons.mp hmem with rfl | hmem
        · exact .inr (.inr hexit)
        · exact .inr (.inl ⟨t', rest, setStop_self t' _, hmem⟩)
      · exact .inr (.inl ⟨t', rest', (setStop_of_ne ht _).trans hjoin, hmem⟩)
    · exact .inr (.inr hexit')
  · rcases setStop_cases hjoin with ⟨rfl, heq⟩ | ⟨-, hold⟩
    · cases heq
      exact h.holder t' _ hjoining
    · exact h.holder t' rest' hold
  · rcases setStop_cases hret with ⟨-, heq⟩ | ⟨-, hold⟩
    · cases heq
    · exact h.returned t' hold

theorem Joined.all_exited (h : Joined n s) {t : ℕ} (hjoining : s.stops t = .join []) :
    ∀ i < n, s.workers i = .exited := by
  obtain ⟨hlock, hempty⟩ := h.holder t [] hjoining
  intro i hi
  rcases h.handles i hi with hmem | ⟨t', rest, hjoin, hmem⟩ | hexit
  · rw [hempty] at hmem
    cases hmem
  · have hsame := (h.holder t' rest hjoin).1
    rw [hlock, Option.some.injEq] at hsame
    subst hsame
    rw [hjoining] at hjoin
    cases hjoin
    cases hmem
  · exact hexit

theorem Joined.release (h : Joined n s) {t : ℕ} (hjoining : s.stops t = .join []) :
    Joined n { s.setStop t .returned with handlesLock := none } := by
  have hall := h.all_exited hjoining
  refine ⟨fun i hi => .inr (.inr (hall i hi)), fun t' rest hjoin => ?_, fun _ _ => hall⟩
  rcases setStop_cases hjoin with ⟨-, heq⟩ | ⟨hne, hold⟩
  · cases heq
  · have hsame := (h.holder t' rest hold).1
    rw [(h.holder t [] hjoining).1, Option.some.injEq] at hsame
    exact absurd hsame.symm hne

theorem Joined.stop (h : Joined n s) {t : ℕ} (hstep : s.stop t = some s') : Joined n s' := by
  unfold PerShardScheduler.stop at hstep
  split at hstep
  · rename_i hstore
    cases hstep
    exact h.setStop (c := .lock) (by rw [hstore]; nofun) nofun nofun rfl rfl rfl rfl
  · split at hstep
    · rename_i hfree
      cases hstep
      exact h.takeHandles t hfree
    · cases hstep
  · rename_i i rest hjoining
    split at hstep
    · rename_i hexit
      cases hstep
      exact h.joinWorker hjoining hexit
    · cases hstep
  · rename_i hjoining
    cases hstep
    exact h.release hjoining
  · cases hstep

/-! ## Every run -/

theorem push_frame {t : ℕ} (h : s.push t = some s') :
    s'.handles = s.handles ∧ s'.handlesLock = s.handlesLock ∧ s'.stops = s.stops ∧ s'.workers = s.workers := by
  unfold PerShardScheduler.push at h
  split at h
  · cases h
  · cases h
    exact ⟨rfl, rfl, rfl, rfl⟩
  · split at h
    · cases h
      exact ⟨rfl, rfl, rfl, rfl⟩
    · cases h
      exact ⟨rfl, rfl, rfl, rfl⟩

theorem work_frame {i : ℕ} (h : s.work i = some s') (hn : Numbered n s) (hj : Joined n s) :
    Numbered n s' ∧ Joined n s' := by
  have hexited : ∀ w, s.workers i ≠ .exited → ∀ j, s.workers j = .exited → (s.setWorker i w).workers j = .exited := by
    intro w hne j hj
    have hji : j ≠ i := fun heq => hne (heq ▸ hj)
    simpa [PerShardScheduler.setWorker, hji] using hj
  unfold PerShardScheduler.work at h
  split at h
  · rename_i draining hw
    have hne : s.workers i ≠ .exited := by rw [hw]; nofun
    split at h
    · rename_i task q hq
      cases h
      have hcount : q.shardCount = s.queue.shardCount := by
        obtain ⟨c, -, rfl⟩ := popFrom_some hq
        rfl
      exact ⟨hn.frame hcount (funext fun j => (popFrom_logs hq j).1) rfl rfl rfl, hj.worked rfl rfl rfl (hexited _ hne)⟩
    · cases h
      exact ⟨hn.frame rfl rfl rfl rfl rfl, hj.worked rfl rfl rfl (hexited _ hne)⟩
  · rename_i task draining hw
    have hne : s.workers i ≠ .exited := by rw [hw]; nofun
    cases h
    exact ⟨hn.frame rfl rfl rfl rfl rfl, hj.worked rfl rfl rfl (hexited _ hne)⟩
  · rename_i hw
    have hne : s.workers i ≠ .exited := by rw [hw]; nofun
    cases h
    exact ⟨hn.frame rfl rfl rfl rfl rfl, hj.worked rfl rfl rfl (hexited _ hne)⟩
  · cases h

theorem stop_frame {t : ℕ} (h : s.stop t = some s') (hn : Numbered n s) (hd : Drains s) :
    Numbered n s' ∧ Drains s' := by
  have hstops : ∀ c : Stop, c ≠ .store → ∀ t', (s.setStop t c).stops t' = .store → s.called = true := by
    intro c hc t' hstore
    rcases setStop_cases hstore with ⟨-, heq⟩ | ⟨-, hold⟩
    · exact absurd heq.symm hc
    · exact hd.storing t' hold
  unfold PerShardScheduler.stop at h
  split at h
  · rename_i hstore
    cases h
    exact ⟨hn.frame rfl rfl rfl rfl rfl,
      hd.received, fun _ _ => rfl, fun _ => hd.storing t hstore, hstops _ nofun, hd.exited⟩
  · split at h
    · cases h
      exact ⟨hn.frame rfl rfl rfl rfl rfl, hd.received, hd.draining, hd.called, hstops _ nofun, hd.exited⟩
    · cases h
  · split at h
    · cases h
      exact ⟨hn.frame rfl rfl rfl rfl rfl, hd.received, hd.draining, hd.called, hstops _ nofun, hd.exited⟩
    · cases h
  · cases h
    exact ⟨hn.frame rfl rfl rfl rfl rfl, hd.received, hd.draining, hd.called, hstops _ nofun, hd.exited⟩
  · cases h

structure Orderly (n : ℕ) (s : PerShardScheduler) : Prop where
  numbered : Numbered n s
  drains : Drains s
  joined : Joined n s

theorem Orderly.step (h : Orderly n s) {a : Label} (hstep : s.step a = some s') : Orderly n s' := by
  cases a with
  | submit t =>
    have hnumbered := h.numbered.submit hstep
    simp only [PerShardScheduler.step, PerShardScheduler.submit] at hstep
    split at hstep
    · cases hstep
      exact ⟨hnumbered, h.drains.submitted (fun _ => rfl) (fun _ _ _ => id) (fun _ => rfl) rfl rfl rfl rfl rfl,
        h.joined.worked rfl rfl rfl fun _ => id⟩
    · cases hstep
  | push t =>
    obtain ⟨hhandles, hlock, hstops, hworkers⟩ := push_frame hstep
    exact ⟨h.numbered.push hstep, h.drains.push h.numbered hstep,
      h.joined.worked hhandles hlock hstops fun i hi => hworkers ▸ hi⟩
  | work i =>
    simp only [PerShardScheduler.step, Option.ite_none_right_eq_some] at hstep
    obtain ⟨hnumbered, hjoined⟩ := work_frame hstep.2 h.numbered h.joined
    exact ⟨hnumbered, h.drains.work hstep.2, hjoined⟩
  | shutdown t =>
    simp only [PerShardScheduler.step, Option.ite_none_right_eq_some, Option.some.injEq] at hstep
    obtain ⟨hfree, rfl⟩ := hstep
    refine ⟨h.numbered.frame rfl rfl rfl rfl rfl, ?_, ?_⟩
    · exact ⟨h.drains.received, h.drains.draining, fun _ => rfl, fun _ _ => rfl, h.drains.exited⟩
    · refine h.joined.setStop (c := .store) ?_ nofun nofun rfl rfl rfl rfl
      rcases hfree with hidle | hret
      · rw [hidle]
        nofun
      · rw [hret]
        nofun
  | stop t =>
    obtain ⟨hnumbered, hdrains⟩ := stop_frame hstep h.numbered h.drains
    exact ⟨hnumbered, hdrains, h.joined.stop hstep⟩

theorem orderly_reachable {capacity : ℕ} (hs : (scheduler n capacity).Reachable s) : Orderly n s := by
  refine Machine.Reachable.invariant (I := Orderly n) ?_ (fun s a s' hi hstep => hi.step hstep) hs
  exact ⟨⟨rfl, nofun, fun _ => List.nodup_nil, nofun, nofun, nofun, nofun⟩,
    ⟨fun _ => rfl, nofun, nofun, nofun, nofun⟩, fun i hi => .inl (List.mem_range.mpr hi), nofun, nofun⟩

theorem Orderly.ran_sublist (h : Orderly n s) (i : ℕ) : (s.ran i).Sublist (s.sent i) := by
  rw [PerShardScheduler.sent, (s.queue.shards i).fifo, h.drains.received i, List.append_assoc]
  exact List.sublist_append_left _ _

theorem Orderly.ran_nodup (h : Orderly n s) : (gather n s.ran).Nodup := by
  rw [gather, List.nodup_flatMap]
  refine ⟨fun i _ => (h.numbered.nodup i).sublist (h.ran_sublist i), ?_⟩
  refine List.nodup_range.imp fun hne => ?_
  intro k hk hk'
  exact hne (h.numbered.apart _ _ k ((h.ran_sublist _).subset hk) ((h.ran_sublist _).subset hk'))

/-- **A shutdown leaves no task behind.** When a call of `shutdown` has returned, every task that was accepted before
`shutdown` was called has run exactly once. -/
theorem due_ran_once (n capacity : ℕ) (s : PerShardScheduler) (hs : (scheduler n capacity).Reachable s) (t : ℕ)
    (ht : s.stops t = .returned) (task : ℕ) (htask : task ∈ s.due) : (gather n s.ran).count task = 1 := by
  have h := orderly_reachable hs
  obtain ⟨i, hi, hsent⟩ := h.numbered.due task htask
  have hran := h.drains.exited i (h.joined.returned t ht i hi) task htask hsent
  exact List.count_eq_one_of_mem h.ran_nodup (mem_gather.mpr ⟨i, hi, hran⟩)

/-- One worker. It has seen an empty shard when the task comes, and the flag is set before it looks at it. -/
def lateTask : List Label :=
  [.work 0, .submit 0, .push 0, .shutdown 1, .stop 1, .work 0, .stop 1, .work 0, .work 0, .work 0, .stop 1, .stop 1]

theorem lateTask_ran : ∃ s : PerShardScheduler, s.due = [0] ∧ s.stops 1 = .returned ∧
    (gather 1 s.ran).count 0 = 1 := by
  have hrun : ((scheduler 1 1).run lateTask).map (fun s => decide (s.due = [0] ∧ s.stops 1 = .returned)) =
      some true := by
    decide
  obtain ⟨s, hs, hseen⟩ := Machine.exists_of_run hrun
  obtain ⟨hdue, hreturned⟩ := of_decide_eq_true hseen
  exact ⟨s, hdue, hreturned, due_ran_once 1 1 s hs 1 hreturned 0 (by rw [hdue]; exact List.mem_cons_self)⟩

end Riftgate.Scheduler
