import Mathlib.Algebra.Order.Floor.Semiring
import Mathlib.Algebra.Order.Field.Rat
import Mathlib.Data.Rat.Floor
import Riftgate.Timers

/-!
# The backlog of cancelled timers

A cancel compacts the heap when the cancelled entries are more than their share. A tick takes live entries out and does
not look at the share.
-/

namespace Riftgate.Timers

variable {κ : Type}

/-- The threshold of a compaction, with the ratio as an exact number. -/
def share (ratio : ℚ) (n : ℕ) : ℕ := ⌊ratio * n⌋₊

theorem share_mono {ratio : ℚ} (h : 0 ≤ ratio) {m n : ℕ} (hle : m ≤ n) : share ratio m ≤ share ratio n := by
  unfold share
  apply Nat.floor_mono
  apply mul_le_mul_of_nonneg_left _ h
  exact_mod_cast hle

/-- The entries of cancelled timers that are still in the heap. -/
def BinaryHeapTimers.backlog (s : BinaryHeapTimers κ) : ℕ := s.heap.toList.countP (·.id ∈ s.cancelled)

/-- The bound on the backlog. -/
def BinaryHeapTimers.Within (s : BinaryHeapTimers κ) (ratio : ℚ) : Prop := s.backlog ≤ share ratio s.heap.size

/-- The bound, for the entries that a tick at `now` leaves in the heap. -/
def BinaryHeapTimers.WithinAfter (s : BinaryHeapTimers κ) (ratio : ℚ) (now : ℕ) : Prop :=
  (s.heap.toList.filter (now < ·.deadline)).countP (·.id ∈ s.cancelled) ≤
    share ratio (s.heap.toList.filter (now < ·.deadline)).length

instance (s : BinaryHeapTimers κ) (ratio : ℚ) (now : ℕ) : Decidable (s.WithinAfter ratio now) :=
  inferInstanceAs (Decidable (_ ≤ _))

namespace Refines

variable {s : BinaryHeapTimers κ} {live : List (Entry × κ)} {n : ℕ}

theorem backlog_eq (h : Refines s live n) : s.backlog = s.cancelled.card := by
  have hnodup : ((s.heap.toList.filter (·.id ∈ s.cancelled)).map Entry.id).Nodup :=
    h.nodup.sublist (List.filter_sublist.map _)
  have hset : ((s.heap.toList.filter (·.id ∈ s.cancelled)).map Entry.id).toFinset = s.cancelled := by
    ext id
    simp only [List.mem_toFinset, List.mem_map, List.mem_filter, decide_eq_true_eq]
    constructor
    · rintro ⟨e, ⟨-, he⟩, rfl⟩
      exact he
    · intro hid
      obtain ⟨e, he, rfl⟩ := List.mem_map.mp (h.stale id hid)
      exact ⟨e, ⟨he, hid⟩, rfl⟩
  rw [BinaryHeapTimers.backlog, List.countP_eq_length_filter, ← hset, List.toFinset_card_of_nodup hnodup,
    List.length_map, hset]

/-- What the state `s'` after a tick has of the state `s` before: the entries that are not due, and their cancels. -/
structure Leaves (now : ℕ) (s s' : BinaryHeapTimers κ) : Prop where
  heap : s'.heap.toList.Perm (s.heap.toList.filter (now < ·.deadline))
  cancelled : ∀ e ∈ s.heap.toList, now < e.deadline → (e.id ∈ s'.cancelled ↔ e.id ∈ s.cancelled)

theorem leaves_all {now : ℕ} (hnone : ∀ e ∈ s.heap.toList, now < e.deadline) : Leaves now s s := by
  refine ⟨?_, fun _ _ _ => Iff.rfl⟩
  rw [List.filter_eq_self.mpr]
  intro e he
  simpa using hnone e he

theorem Leaves.pop {now : ℕ} {s₁ s' : BinaryHeapTimers κ} {e : Entry} (h : Leaves now s₁ s')
    (hp : s.heap.toList.Perm (e :: s₁.heap.toList)) (hdue : ¬ now < e.deadline)
    (hcancelled : ∀ x ∈ s₁.heap.toList, (x.id ∈ s₁.cancelled ↔ x.id ∈ s.cancelled)) : Leaves now s s' := by
  constructor
  · have hfilter := hp.filter (now < ·.deadline)
    rw [List.filter_cons_of_neg (by simpa using hdue)] at hfilter
    exact h.heap.trans hfilter.symm
  · intro x hx hlater
    have hmem : x ∈ s₁.heap.toList := by
      rcases List.mem_cons.mp (hp.mem_iff.mp hx) with rfl | hmem
      · exact absurd hlater hdue
      · exact hmem
    exact (h.cancelled x hmem hlater).trans (hcancelled x hmem)

theorem tickLoop_leaves (h : Refines s live n) (now : ℕ) {fuel : ℕ} (hfuel : s.heap.size ≤ fuel) :
    Leaves now s (s.tickLoop now fuel).2 := by
  induction fuel generalizing s live with
  | zero =>
    have hempty : s.heap = #[] := by simpa using hfuel
    exact leaves_all (by simp [hempty])
  | succ fuel ih =>
    rw [BinaryHeapTimers.tickLoop]
    cases htop : s.heap[0]? with
    | none =>
      have hempty : s.heap = #[] := by simpa using htop
      exact leaves_all (by simp [hempty])
    | some e =>
      obtain ⟨heap, hpop, hp, ho⟩ := Lib.Heap.exists_pop htop
      have hsize : s.heap.size = heap.size + 1 := by simpa using hp.length_eq
      obtain ⟨hout, -⟩ := List.nodup_cons.mp ((hp.map Entry.id).nodup_iff.mp h.nodup)
      simp only [hpop]
      split
      · rename_i hlate
        refine leaves_all fun x hx => ?_
        have hle := (Entry.le_iff e x).mp (h.order.head_le htop (Array.mem_toList_iff.mp hx))
        omega
      · rename_i hdue
        split
        · rename_i hstale
          refine (ih (h.pop_stale hp (ho h.order) hstale) (by simp; omega)).pop hp hdue fun x hx => ?_
          have hne : x.id ≠ e.id := fun heq => hout (heq ▸ List.mem_map_of_mem hx)
          simp [hne]
        · rename_i hlive
          obtain ⟨k, rest, hcallback, -, h'⟩ := h.fire hp (ho h.order) hlive
          rw [hcallback]
          exact (ih h' (by simp; omega)).pop hp hdue fun x hx => Iff.rfl

theorem tick_within_iff (h : Refines s live n) (ratio : ℚ) (now : ℕ) :
    (s.tick now).2.Within ratio ↔ s.WithinAfter ratio now := by
  have hleaves : Leaves now s (s.tick now).2 := h.tickLoop_leaves now le_rfl
  have hsize : (s.tick now).2.heap.size = (s.heap.toList.filter (now < ·.deadline)).length := by
    rw [← Array.length_toList]
    exact hleaves.heap.length_eq
  have hbacklog : (s.tick now).2.backlog =
      (s.heap.toList.filter (now < ·.deadline)).countP (·.id ∈ s.cancelled) := by
    rw [BinaryHeapTimers.backlog, hleaves.heap.countP_eq]
    refine List.countP_congr fun e he => ?_
    obtain ⟨hmem, hlater⟩ := List.mem_filter.mp he
    simpa using hleaves.cancelled e hmem (by simpa using hlater)
  rw [BinaryHeapTimers.Within, BinaryHeapTimers.WithinAfter, hbacklog, hsize]

theorem schedule_within (h : Refines s live n) (hn : n + 1 < 2 ^ 64) {ratio : ℚ} (hratio : 0 ≤ ratio)
    (hwithin : s.Within ratio) (deadline : ℕ) (onFire : κ) : (s.schedule deadline onFire).2.Within ratio := by
  have hsize : (s.schedule deadline onFire).2.heap.size = s.heap.size + 1 := by
    have := (Lib.Heap.push_perm s.heap ⟨deadline, s.nextId⟩).length_eq
    simp only [BinaryHeapTimers.schedule]
    simpa using this
  unfold BinaryHeapTimers.Within at hwithin ⊢
  rw [(h.schedule hn deadline onFire).backlog_eq, hsize]
  rw [h.backlog_eq] at hwithin
  exact hwithin.trans (share_mono hratio (Nat.le_succ _))

theorem maybeCompact_within {ratio : ℚ} (hthreshold : s.threshold = share ratio)
    (h : Refines s.maybeCompact live n) : s.maybeCompact.Within ratio := by
  have hcard := h.backlog_eq
  unfold BinaryHeapTimers.Within
  unfold BinaryHeapTimers.maybeCompact at hcard ⊢
  split
  · rename_i hempty
    have hle : s.backlog ≤ s.heap.toList.length := List.countP_le_length
    rw [Array.length_toList, hempty] at hle
    omega
  · rename_i hnonempty
    rw [if_neg hnonempty] at hcard
    split
    · rename_i hover
      rw [if_pos hover] at hcard
      rw [hcard]
      exact Nat.zero_le _
    · rename_i hunder
      rw [if_neg hunder, hthreshold] at *
      omega

theorem cancel_within (h : Refines s live n) {ratio : ℚ} (hthreshold : s.threshold = share ratio)
    (hwithin : s.Within ratio) (handle : UInt64) : (s.cancel handle).2.Within ratio := by
  have h' := (h.cancel handle).2
  unfold BinaryHeapTimers.cancel at h' ⊢
  split
  · rename_i hfound
    rw [if_pos hfound] at h'
    exact maybeCompact_within hthreshold h'
  · exact hwithin

end Refines

/-! ## Whole runs -/

theorem maybeCompact_threshold (s : BinaryHeapTimers κ) : s.maybeCompact.threshold = s.threshold := by
  unfold BinaryHeapTimers.maybeCompact
  split
  · rfl
  · split <;> rfl

theorem tickLoop_threshold (now fuel : ℕ) (s : BinaryHeapTimers κ) :
    (s.tickLoop now fuel).2.threshold = s.threshold := by
  induction fuel generalizing s with
  | zero => rfl
  | succ fuel ih =>
    unfold BinaryHeapTimers.tickLoop
    split
    · split
      · rfl
      · split
        · exact ih _
        · split
          · exact ih _
          · exact ih _
    · rfl

theorem apply_threshold (s : BinaryHeapTimers κ) (op : Op κ) : (s.apply op).1.threshold = s.threshold := by
  cases op with
  | schedule deadline onFire => rfl
  | cancel handle =>
    simp only [BinaryHeapTimers.apply, BinaryHeapTimers.cancel]
    split
    · exact maybeCompact_threshold _
    · rfl
  | tick now => exact tickLoop_threshold now _ s

/-- The state after some calls on new timers. -/
def after (ratio : ℚ) (ops : List (Op κ)) : BinaryHeapTimers κ :=
  (Lib.run BinaryHeapTimers.apply (.withCompaction (share ratio)) ops).1

theorem after_concat (ratio : ℚ) (ops : List (Op κ)) (op : Op κ) :
    after ratio (ops ++ [op]) = ((after ratio ops).apply op).1 := by
  unfold after
  rw [Lib.run_append]
  rfl

theorem after_threshold (ratio : ℚ) (ops : List (Op κ)) : (after ratio ops).threshold = share ratio := by
  induction ops using List.reverseRecOn with
  | nil => rfl
  | append_singleton ops op ih => rw [after_concat, apply_threshold, ih]

theorem after_refines (ratio : ℚ) (ops : List (Op κ)) (hops : ops.countP Op.isSchedule < 2 ^ 64) :
    ∃ live, Refines (after ratio ops) live (ops.countP Op.isSchedule) := by
  have hscheduled := run_scheduled (.empty : Live κ) ops
  simp only [Live.empty, List.length_nil, Nat.zero_add] at hscheduled
  have hrun := (Refines.run (L := .empty) (.init (share ratio)) ops (by simpa [Live.empty] using hops)).2
  rw [Live.empty, hscheduled] at hrun
  exact ⟨_, hrun⟩

/-- **The backlog, exactly.** In a run of fewer than 2^64 schedules the bound holds in every state if and only if each
tick finds it to hold for the entries that are not due. -/
theorem backlog_within_iff {ratio : ℚ} (hratio : 0 ≤ ratio) (ops : List (Op κ))
    (hops : ops.countP Op.isSchedule < 2 ^ 64) :
    (∀ front, front <+: ops → (after ratio front).Within ratio) ↔
      ∀ front now, front ++ [.tick now] <+: ops → (after ratio front).WithinAfter ratio now := by
  have hcount : ∀ front, front <+: ops → front.countP Op.isSchedule < 2 ^ 64 :=
    fun front hfront => (hfront.sublist.countP_le).trans_lt hops
  constructor
  · intro hwithin front now hfront
    obtain ⟨live, h⟩ := after_refines ratio front (hcount front (( List.prefix_append _ _).trans hfront))
    have htick := hwithin _ hfront
    rw [after_concat] at htick
    exact (h.tick_within_iff ratio now).mp htick
  · intro hticks front
    -- From the first call on: only a tick needs its condition.
    induction front using List.reverseRecOn with
    | nil => exact fun _ => Nat.zero_le _
    | append_singleton front op ih =>
      intro hfront
      have hbefore := ( List.prefix_append front [op]).trans hfront
      obtain ⟨live, h⟩ := after_refines ratio front (hcount front hbefore)
      rw [after_concat]
      cases op with
      | schedule deadline onFire =>
        have hlast := hcount _ hfront
        rw [List.countP_append] at hlast
        exact h.schedule_within hlast hratio (ih hbefore) deadline onFire
      | cancel handle => exact h.cancel_within (after_threshold ratio front) (ih hbefore) handle
      | tick now => exact (h.tick_within_iff ratio now).mpr (hticks front now hfront)

/-- One of the timers that are due later has been cancelled, and a quarter of them may be. -/
def fiveTimers : List (Op Char) :=
  [.schedule 1 'a', .schedule 10 'b', .schedule 10 'c', .schedule 10 'd', .schedule 10 'e', .cancel 5]

theorem fiveTimers_within :
    (after (1 / 4) (fiveTimers ++ [.tick 1])).backlog = 1 ∧
      ∀ front, front <+: fiveTimers ++ [.tick 1] → (after (1 / 4) front).Within (1 / 4) := by
  refine ⟨by decide +kernel, (backlog_within_iff (by decide +kernel) _ (by decide)).mpr fun front now hfront => ?_⟩
  rcases List.prefix_concat_iff.mp hfront with htick | hearlier
  · obtain ⟨rfl, hlast⟩ := List.append_inj' htick rfl
    obtain rfl : now = 1 := by simpa using hlast
    decide +kernel
  · have hmem : Op.tick now ∈ fiveTimers := hearlier.subset (by simp)
    simp [fiveTimers] at hmem

/-- The default ratio. Three timers are due at 1, and the one that is due at 10 has been cancelled. -/
def fourTimers : List (Op Char) :=
  [.schedule 1 'a', .schedule 1 'b', .schedule 1 'c', .schedule 10 'd', .cancel 4, .tick 1]

theorem fourTimers_over :
    (after (1 / 4) fourTimers).backlog = 1 ∧ (after (1 / 4) fourTimers).heap.size = 1 ∧
    share (1 / 4) 1 = 0 ∧ ¬ (after (1 / 4) fourTimers).Within (1 / 4) := by
  have hbacklog : (after (1 / 4) fourTimers).backlog = 1 := by decide +kernel
  have hsize : (after (1 / 4) fourTimers).heap.size = 1 := by decide +kernel
  have hshare : share (1 / 4) 1 = 0 := by decide +kernel
  refine ⟨hbacklog, hsize, hshare, ?_⟩
  unfold BinaryHeapTimers.Within
  rw [hbacklog, hsize, hshare]
  decide

end Riftgate.Timers
