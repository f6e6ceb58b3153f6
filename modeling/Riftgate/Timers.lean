import Mathlib.Data.List.Sort
import Mathlib.Data.List.Perm.Basic
import Mathlib.Algebra.Order.Group.Multiset
import Mathlib.Tactic.Abel
import Mathlib.Order.Bounds.Basic
import Riftgate.Code.Timers
import Riftgate.Lib.Transducer

/-!
# Timers fire once, in order, and never after a cancel

The heap keeps the entry of a cancelled timer until it is on top or until a compaction. What the callers see is a
list of live timers: no answer depends on when the heap forgets an entry.
-/

namespace Riftgate.Timers

variable {κ : Type}

inductive Op (κ : Type) where
  | schedule (deadline : ℕ) (onFire : κ)
  | cancel (handle : UInt64)
  | tick (now : ℕ)

inductive Answer (κ : Type) where
  | handle (id : UInt64)
  | preempted (b : Bool)
  | fired (timers : List (Entry × κ))
deriving DecidableEq

/-- One call, with its answer and with `len` after it. -/
def BinaryHeapTimers.apply (s : BinaryHeapTimers κ) : Op κ → BinaryHeapTimers κ × List (Answer κ × ℕ)
  | .schedule deadline onFire =>
    ((s.schedule deadline onFire).2, [(.handle (s.schedule deadline onFire).1, (s.schedule deadline onFire).2.len)])
  | .cancel handle => ((s.cancel handle).2, [(.preempted (s.cancel handle).1, (s.cancel handle).2.len)])
  | .tick now => ((s.tick now).2, [(.fired (s.tick now).1, (s.tick now).2.len)])

/-! ## The live timers -/

/-- What the timers are for. A timer is live from its `schedule` on, until it fires or is cancelled. -/
structure Live (κ : Type) where
  scheduled : List (Entry × κ)
  live : List (Entry × κ)
  fired : List (Entry × κ)
  cancelled : List (Entry × κ)

namespace Live

def empty : Live κ := ⟨[], [], [], []⟩

/-- The next timer. Its id is its number. -/
def next (L : Live κ) (deadline : ℕ) (onFire : κ) : Entry × κ :=
  (⟨deadline, UInt64.ofNat (L.scheduled.length + 1)⟩, onFire)

/-- What `tick` calls: the live timers that are due, in the order of their deadlines and ids. -/
def due (L : Live κ) (now : ℕ) : List (Entry × κ) :=
  (L.live.filter (·.1.deadline ≤ now)).insertionSort (·.1 ≤ ·.1)

def apply (L : Live κ) : Op κ → Live κ × List (Answer κ × ℕ)
  | .schedule deadline onFire =>
    ({ L with
        scheduled := L.scheduled ++ [L.next deadline onFire]
        live := L.live ++ [L.next deadline onFire] },
      [(.handle (L.next deadline onFire).1.id, L.live.length + 1)])
  | .cancel handle =>
    ({ L with
        live := L.live.filter (·.1.id ≠ handle)
        cancelled := L.cancelled ++ L.live.filter (·.1.id = handle) },
      [(.preempted (L.live.any (·.1.id = handle)), (L.live.filter (·.1.id ≠ handle)).length)])
  | .tick now =>
    ({ L with
        live := L.live.filter (now < ·.1.deadline)
        fired := L.fired ++ L.due now },
      [(.fired (L.due now), (L.live.filter (now < ·.1.deadline)).length)])

end Live

/-! ## What the heap, the map and the set know together -/

/-- The state after `n` schedules, while the timers of `live` are live. -/
structure Refines (s : BinaryHeapTimers κ) (live : List (Entry × κ)) (n : ℕ) : Prop where
  order : Lib.Heap.Ordered s.heap
  nodup : (s.heap.toList.map Entry.id).Nodup
  entries : (s.heap.toList.filter (·.id ∉ s.cancelled)).Perm (live.map Prod.fst)
  /-- An id in the set is still in the heap, so that no later timer can have it. -/
  stale : ∀ id ∈ s.cancelled, id ∈ s.heap.toList.map Entry.id
  callbacks : ∀ id k, s.callbacks.lookup id = some k ↔ ∃ e, e.id = id ∧ (e, k) ∈ live
  next : s.nextId = UInt64.ofNat (n + 1)
  fresh : ∀ e ∈ s.heap.toList, e.id.toNat ≤ n

namespace Refines

variable {s : BinaryHeapTimers κ} {live : List (Entry × κ)} {n : ℕ}

theorem ids_nodup (h : Refines s live n) : (live.map (·.1.id)).Nodup := by
  have hids := (h.entries.map Entry.id).nodup_iff.mp (h.nodup.sublist (List.filter_sublist.map _))
  rwa [List.map_map] at hids

theorem mem_entries (h : Refines s live n) {e : Entry} :
    (∃ k, (e, k) ∈ live) ↔ e ∈ s.heap.toList ∧ e.id ∉ s.cancelled := by
  have hmem := h.entries.mem_iff (a := e)
  simp only [List.mem_filter, decide_eq_true_eq, List.mem_map, Prod.exists, exists_and_right, exists_eq_right] at hmem
  exact hmem.symm

theorem len_eq (h : Refines s live n) : s.len = live.length := by
  have hperm : s.callbacks.keys.Perm (live.map (·.1.id)) := by
    refine (List.perm_ext_iff_of_nodup s.callbacks.keys_nodup h.ids_nodup).mpr fun id => ?_
    rw [← AList.mem_keys, ← AList.lookup_isSome, Option.isSome_iff_exists]
    simp only [h.callbacks, List.mem_map, Prod.exists]
    constructor
    · rintro ⟨k, e, rfl, he⟩
      exact ⟨e, k, he, rfl⟩
    · rintro ⟨e, k, he, rfl⟩
      exact ⟨k, e, rfl, he⟩
  rw [BinaryHeapTimers.len, hperm.length_eq, List.length_map]

theorem init (threshold : ℕ → ℕ) : Refines (.withCompaction threshold : BinaryHeapTimers κ) [] 0 := by
  refine ⟨fun i _ => ?_, by simp [BinaryHeapTimers.withCompaction], by simp [BinaryHeapTimers.withCompaction],
    by simp [BinaryHeapTimers.withCompaction], by simp [BinaryHeapTimers.withCompaction], rfl,
    by simp [BinaryHeapTimers.withCompaction]⟩
  rw [Lib.Heap.view_of_size (i := i) (by simp [BinaryHeapTimers.withCompaction])]
  exact le_top

theorem schedule (h : Refines s live n) (hn : n + 1 < 2 ^ 64) (deadline : ℕ) (onFire : κ) :
    Refines (s.schedule deadline onFire).2 (live ++ [(⟨deadline, s.nextId⟩, onFire)]) (n + 1) := by
  have hid : s.nextId.toNat = n + 1 := by
    rw [h.next, UInt64.toNat_ofNat_of_lt' (by simpa [UInt64.size] using hn)]
  have hheap : s.nextId ∉ s.heap.toList.map Entry.id := by
    intro hmem
    obtain ⟨e, he, heq⟩ := List.mem_map.mp hmem
    have := h.fresh e he
    rw [heq] at this
    omega
  have hset : s.nextId ∉ s.cancelled := fun hmem => hheap (h.stale _ hmem)
  have hperm := Lib.Heap.push_perm s.heap ⟨deadline, s.nextId⟩
  refine ⟨Lib.Heap.push_ordered h.order _, ?_, ?_, ?_, ?_, ?_, ?_⟩
  · rw [BinaryHeapTimers.schedule, (hperm.map Entry.id).nodup_iff]
    exact List.nodup_cons.mpr ⟨hheap, h.nodup⟩
  · refine (hperm.filter fun e => decide (e.id ∉ s.cancelled)).trans ?_
    rw [List.filter_cons_of_pos (by simpa using hset), List.map_append]
    exact (h.entries.cons _).trans (List.perm_append_singleton _ _).symm
  · intro id hmem
    rw [BinaryHeapTimers.schedule, (hperm.map Entry.id).mem_iff]
    exact List.mem_cons_of_mem _ (h.stale id hmem)
  · intro id k
    simp only [BinaryHeapTimers.schedule, List.mem_append, List.mem_singleton, Prod.mk.injEq]
    by_cases hnew : id = s.nextId
    · subst hnew
      rw [AList.lookup_insert]
      constructor
      · intro hk
        cases hk
        exact ⟨_, rfl, .inr ⟨rfl, rfl⟩⟩
      · rintro ⟨e, heq, hold | ⟨rfl, rfl⟩⟩
        · exact absurd (List.mem_map.mpr ⟨e, (h.mem_entries.mp ⟨k, hold⟩).1, heq⟩) hheap
        · rfl
    · rw [AList.lookup_insert_ne hnew, h.callbacks]
      constructor
      · rintro ⟨e, heq, hold⟩
        exact ⟨e, heq, .inl hold⟩
      · rintro ⟨e, heq, hold | ⟨rfl, rfl⟩⟩
        · exact ⟨e, heq, hold⟩
        · exact absurd heq.symm hnew
  · simp [BinaryHeapTimers.schedule, h.next]
  · intro e he
    rcases List.mem_cons.mp (hperm.mem_iff.mp he) with rfl | he
    · exact hid.le
    · exact (h.fresh e he).trans (Nat.le_succ n)

theorem compact (h : Refines s live n) : Refines s.compact live n := by
  obtain ⟨hperm, hsorted⟩ := Lib.Heap.popAll_spec le_rfl h.order
  have hkept := hsorted.sublist (List.filter_sublist (p := fun e => decide (e.id ∉ s.cancelled)))
  have hheap : s.compact.heap =
      ((Lib.Heap.popAll s.heap.size s.heap).filter fun e => decide (e.id ∉ s.cancelled)).toArray :=
    Lib.Heap.rebuild_eq_self (Lib.Heap.ordered_of_sorted hkept)
  have hlist : s.compact.heap.toList.Perm (s.heap.toList.filter fun e => decide (e.id ∉ s.cancelled)) := by
    rw [hheap]
    exact hperm.filter _
  refine ⟨?_, ?_, ?_, by simp [BinaryHeapTimers.compact], h.callbacks, h.next, fun e he => ?_⟩
  · rw [hheap]
    exact Lib.Heap.ordered_of_sorted hkept
  · rw [(hlist.map Entry.id).nodup_iff]
    exact h.nodup.sublist (List.filter_sublist.map _)
  · refine List.Perm.trans ?_ (hlist.trans h.entries)
    rw [List.filter_eq_self.mpr]
    simp [BinaryHeapTimers.compact]
  · exact h.fresh e (List.mem_of_mem_filter (hlist.mem_iff.mp he))

theorem maybeCompact (h : Refines s live n) : Refines s.maybeCompact live n := by
  unfold BinaryHeapTimers.maybeCompact
  split
  · exact h
  · split
    · exact h.compact
    · exact h

theorem lookup_isSome (h : Refines s live n) (handle : UInt64) :
    (s.callbacks.lookup handle).isSome = live.any (·.1.id = handle) := by
  rw [Bool.eq_iff_iff, Option.isSome_iff_exists, List.any_eq_true]
  simp only [h.callbacks, decide_eq_true_eq, Prod.exists]
  constructor
  · rintro ⟨k, e, rfl, he⟩
    exact ⟨e, k, he, rfl⟩
  · rintro ⟨e, k, he, rfl⟩
    exact ⟨k, e, rfl, he⟩

theorem callbacks_erase (h : Refines s live n) (handle id : UInt64) (k : κ) :
    (s.callbacks.erase handle).lookup id = some k ↔
      ∃ e, e.id = id ∧ (e, k) ∈ live.filter (·.1.id ≠ handle) := by
  by_cases hid : id = handle
  · subst hid
    simp only [AList.lookup_erase, reduceCtorEq, List.mem_filter, decide_eq_true_eq, false_iff, not_exists, not_and,
      not_not]
    exact fun e he _ => he
  · rw [AList.lookup_erase_ne hid, h.callbacks]
    constructor
    · rintro ⟨e, rfl, he⟩
      exact ⟨e, rfl, List.mem_filter.mpr ⟨he, by simpa using hid⟩⟩
    · rintro ⟨e, rfl, he⟩
      exact ⟨e, rfl, (List.mem_filter.mp he).1⟩

theorem cancel (h : Refines s live n) (handle : UInt64) :
    (s.cancel handle).1 = live.any (·.1.id = handle) ∧
      Refines (s.cancel handle).2 (live.filter (·.1.id ≠ handle)) n := by
  have hsome := h.lookup_isSome handle
  rw [BinaryHeapTimers.cancel]
  split
  · rename_i hlive
    rw [hlive] at hsome
    refine ⟨hsome, Refines.maybeCompact ⟨h.order, h.nodup, ?_, ?_, h.callbacks_erase handle, h.next, h.fresh⟩⟩
    · have hboth := h.entries.filter (·.id ≠ handle)
      rw [List.filter_filter, List.filter_map] at hboth
      rwa [← List.filter_congr fun e _ => ?_] at hboth
      simp [not_or]
    · intro id hmem
      rcases Finset.mem_insert.mp hmem with rfl | hmem
      · obtain ⟨e, he, heq⟩ := List.any_eq_true.mp hsome.symm
        exact List.mem_map.mpr ⟨e.1, (h.mem_entries.mp ⟨e.2, he⟩).1, by simpa using heq⟩
      · exact h.stale id hmem
  · rename_i hdead
    rw [Bool.not_eq_true] at hdead
    rw [hdead] at hsome
    have hall : live.filter (·.1.id ≠ handle) = live := by
      rw [List.filter_eq_self]
      intro e he
      have := List.any_eq_false.mp hsome.symm e he
      simpa using this
    exact ⟨hsome, hall.symm ▸ h⟩

theorem perm (h : Refines s live n) {live' : List (Entry × κ)} (hp : live.Perm live') : Refines s live' n :=
  ⟨h.order, h.nodup, h.entries.trans (hp.map _), h.stale,
    fun id k => (h.callbacks id k).trans (exists_congr fun _ => and_congr_right fun _ => hp.mem_iff), h.next, h.fresh⟩

theorem pop_stale (h : Refines s live n) {e : Entry} {heap : Array Entry} (hp : s.heap.toList.Perm (e :: heap.toList))
    (ho : Lib.Heap.Ordered heap) (he : e.id ∈ s.cancelled) :
    Refines { s with heap := heap, cancelled := s.cancelled.erase e.id } live n := by
  obtain ⟨hout, hin⟩ := List.nodup_cons.mp ((hp.map Entry.id).nodup_iff.mp h.nodup)
  refine ⟨ho, hin, ?_, ?_, h.callbacks, h.next, fun x hx => h.fresh x (hp.mem_iff.mpr (List.mem_cons_of_mem e hx))⟩
  · have hold := (hp.filter (·.id ∉ s.cancelled)).symm.trans h.entries
    rw [List.filter_cons_of_neg (by simpa using he)] at hold
    rwa [← List.filter_congr fun x hx => ?_] at hold
    have hne : x.id ≠ e.id := fun heq => hout (heq ▸ List.mem_map_of_mem hx)
    simp [hne]
  · intro id hid
    obtain ⟨hne, hid⟩ := Finset.mem_erase.mp hid
    exact ((List.mem_cons.mp ((hp.map Entry.id).mem_iff.mp (h.stale id hid)))).resolve_left hne

theorem pop_live {e : Entry} {k : κ} (h : Refines s ((e, k) :: live) n) {heap : Array Entry}
    (hp : s.heap.toList.Perm (e :: heap.toList)) (ho : Lib.Heap.Ordered heap) (he : e.id ∉ s.cancelled) :
    Refines { s with heap := heap, callbacks := s.callbacks.erase e.id } live n := by
  obtain ⟨-, hin⟩ := List.nodup_cons.mp ((hp.map Entry.id).nodup_iff.mp h.nodup)
  obtain ⟨hout, -⟩ := List.nodup_cons.mp h.ids_nodup
  have hrest : ((e, k) :: live).filter (·.1.id ≠ e.id) = live := by
    rw [List.filter_cons_of_neg (by simp), List.filter_eq_self]
    intro x hx
    simpa using fun heq => hout (List.mem_map.mpr ⟨x, hx, heq⟩)
  refine ⟨ho, hin, ?_, ?_, ?_, h.next, fun x hx => h.fresh x (hp.mem_iff.mpr (List.mem_cons_of_mem e hx))⟩
  · have hold := (hp.filter (·.id ∉ s.cancelled)).symm.trans h.entries
    rw [List.filter_cons_of_pos (by simpa using he), List.map_cons] at hold
    exact hold.cons_inv
  · intro id hid
    have hne : id ≠ e.id := fun heq => he (heq ▸ hid)
    exact ((List.mem_cons.mp ((hp.map Entry.id).mem_iff.mp (h.stale id hid)))).resolve_left hne
  · intro id c
    have hcallbacks := h.callbacks_erase e.id id c
    rwa [hrest] at hcallbacks

theorem fire {e : Entry} (h : Refines s live n) {heap : Array Entry} (hp : s.heap.toList.Perm (e :: heap.toList))
    (ho : Lib.Heap.Ordered heap) (he : e.id ∉ s.cancelled) :
    ∃ k rest, s.callbacks.lookup e.id = some k ∧ live.Perm ((e, k) :: rest) ∧
      Refines { s with heap := heap, callbacks := s.callbacks.erase e.id } rest n := by
  obtain ⟨k, hk⟩ := h.mem_entries.mpr ⟨hp.mem_iff.mpr (List.mem_cons_self), he⟩
  have hcallback := (h.callbacks e.id k).mpr ⟨e, rfl, hk⟩
  obtain ⟨front, back, rfl⟩ := List.append_of_mem hk
  have hmid : (front ++ (e, k) :: back).Perm ((e, k) :: (front ++ back)) := List.perm_middle
  exact ⟨k, front ++ back, hcallback, hmid, (h.perm hmid).pop_live hp ho he⟩

theorem head_le (h : Refines s live n) {e : Entry} (he : s.heap[0]? = some e) {x : Entry × κ} (hx : x ∈ live) :
    e ≤ x.1 := by
  refine h.order.head_le he ?_
  rw [← Array.mem_toList_iff]
  exact (h.mem_entries.mp ⟨x.2, hx⟩).1

theorem idle (h : Refines s live n) {now : ℕ} (hnone : ∀ x ∈ live, now < x.1.deadline) :
    ([] : List (Entry × κ)).Perm (live.filter (·.1.deadline ≤ now)) ∧
      [].Pairwise (fun x y : Entry × κ => x.1 ≤ y.1) ∧ Refines s (live.filter (now < ·.1.deadline)) n := by
  have hdue : live.filter (·.1.deadline ≤ now) = [] := by
    rw [List.filter_eq_nil_iff]
    intro x hx
    simpa using hnone x hx
  have hall : live.filter (now < ·.1.deadline) = live := by
    rw [List.filter_eq_self]
    intro x hx
    simpa using hnone x hx
  rw [hdue, hall]
  exact ⟨.refl _, .nil, h⟩

theorem eq_nil_of_empty (h : Refines s live n) (hheap : s.heap = #[]) : live = [] := by
  have hentries := h.entries
  rw [hheap] at hentries
  simpa using hentries.symm.eq_nil

theorem tickLoop (h : Refines s live n) (now : ℕ) {fuel : ℕ} (hfuel : s.heap.size ≤ fuel) :
    (s.tickLoop now fuel).1.Perm (live.filter (·.1.deadline ≤ now)) ∧
      (s.tickLoop now fuel).1.Pairwise (·.1 ≤ ·.1) ∧
      Refines (s.tickLoop now fuel).2 (live.filter (now < ·.1.deadline)) n := by
  induction fuel generalizing s live with
  | zero =>
    refine h.idle ?_
    simp [h.eq_nil_of_empty (by simpa using hfuel)]
  | succ fuel ih =>
    rw [BinaryHeapTimers.tickLoop]
    cases htop : s.heap[0]? with
    | none =>
      refine h.idle ?_
      simp [h.eq_nil_of_empty (by simpa using htop)]
    | some e =>
      obtain ⟨heap, hpop, hp, ho⟩ := Lib.Heap.exists_pop htop
      have hsize : s.heap.size = heap.size + 1 := by simpa using hp.length_eq
      simp only [hpop]
      split
      · rename_i hlate
        refine h.idle fun x hx => hlate.trans_le ?_
        have hle := (Entry.le_iff e x.1).mp (h.head_le htop hx)
        omega
      · rename_i hdue
        split
        · rename_i hstale
          exact ih (h.pop_stale hp (ho h.order) hstale) (by simp; omega)
        · rename_i hlive
          obtain ⟨k, rest, hcallback, hmid, h'⟩ := h.fire hp (ho h.order) hlive
          rw [hcallback]
          obtain ⟨hfired, hsorted, hrest⟩ := ih h' (by simp; omega)
          refine ⟨?_, List.pairwise_cons.mpr ⟨fun x hx => ?_, hsorted⟩, ?_⟩
          · refine (hfired.cons (e, k)).trans ?_
            have := (hmid.filter (·.1.deadline ≤ now)).symm
            rwa [List.filter_cons_of_pos (by simpa using hdue)] at this
          · exact (h.perm hmid).head_le htop (List.mem_cons_of_mem _ (List.mem_of_mem_filter (hfired.mem_iff.mp hx)))
          · refine hrest.perm ?_
            have := (hmid.filter (now < ·.1.deadline)).symm
            rwa [List.filter_cons_of_neg (by simpa using hdue)] at this

theorem tick (h : Refines s live n) (now : ℕ) :
    (s.tick now).1 = (live.filter (·.1.deadline ≤ now)).insertionSort (·.1 ≤ ·.1) ∧
      Refines (s.tick now).2 (live.filter (now < ·.1.deadline)) n := by
  obtain ⟨hperm, hsorted, hrest⟩ := h.tickLoop now (le_refl s.heap.size)
  refine ⟨?_, hrest⟩
  have htotal : Std.Total fun x y : Entry × κ => x.1 ≤ y.1 := ⟨fun x y => le_total x.1 y.1⟩
  have htrans : IsTrans (Entry × κ) fun x y => x.1 ≤ y.1 := ⟨fun _ _ _ => le_trans⟩
  have hsort := List.perm_insertionSort (·.1 ≤ ·.1) (live.filter (·.1.deadline ≤ now))
  -- Two live timers with one entry are one timer.
  refine List.Perm.eq_of_pairwise (fun x y hx hy hxy hyx => ?_) hsorted (List.pairwise_insertionSort _ _)
    (hperm.trans hsort.symm)
  have hx' := List.mem_of_mem_filter (hperm.mem_iff.mp hx)
  have hy' := List.mem_of_mem_filter (hsort.mem_iff.mp hy)
  exact List.inj_on_of_nodup_map h.ids_nodup hx' hy' (congrArg Entry.id (le_antisymm hxy hyx))

/-- One call: the answers are equal, and the states still belong together. -/
theorem apply {L : Live κ} (h : Refines s L.live L.scheduled.length) (op : Op κ)
    (hop : (L.apply op).1.scheduled.length < 2 ^ 64) :
    (s.apply op).2 = (L.apply op).2 ∧
      Refines (s.apply op).1 (L.apply op).1.live (L.apply op).1.scheduled.length := by
  cases op with
  | schedule deadline onFire =>
    simp only [Live.apply, List.length_append, List.length_singleton] at hop
    have h' := h.schedule hop deadline onFire
    rw [h.next] at h'
    have hlen := h'.len_eq
    rw [List.length_append, List.length_singleton] at hlen
    refine ⟨?_, ?_⟩
    · simp only [BinaryHeapTimers.apply, Live.apply, hlen]
      simp only [BinaryHeapTimers.schedule, h.next, Live.next]
    · simp only [BinaryHeapTimers.apply, Live.apply, List.length_append, List.length_singleton]
      exact h'
  | cancel handle =>
    obtain ⟨hanswer, h'⟩ := h.cancel handle
    refine ⟨?_, h'⟩
    simp only [BinaryHeapTimers.apply, Live.apply, hanswer, h'.len_eq]
  | tick now =>
    obtain ⟨hanswer, h'⟩ := h.tick now
    refine ⟨?_, h'⟩
    simp only [BinaryHeapTimers.apply, Live.apply, hanswer, h'.len_eq, Live.due]

end Refines

/-! ## Whole runs -/

def Op.isSchedule : Op κ → Bool
  | .schedule _ _ => true
  | _ => false

theorem Live.apply_scheduled (L : Live κ) (op : Op κ) :
    (L.apply op).1.scheduled.length = L.scheduled.length + if op.isSchedule then 1 else 0 := by
  cases op <;> simp [Live.apply, Op.isSchedule]

theorem Refines.run {s : BinaryHeapTimers κ} {L : Live κ} (h : Refines s L.live L.scheduled.length) (ops : List (Op κ))
    (hops : L.scheduled.length + ops.countP Op.isSchedule < 2 ^ 64) :
    (Lib.run BinaryHeapTimers.apply s ops).2 = (Lib.run Live.apply L ops).2 ∧
      Refines (Lib.run BinaryHeapTimers.apply s ops).1 (Lib.run Live.apply L ops).1.live
        (Lib.run Live.apply L ops).1.scheduled.length := by
  induction ops generalizing s L with
  | nil => exact ⟨rfl, h⟩
  | cons op ops ih =>
    rw [List.countP_cons] at hops
    have hscheduled := L.apply_scheduled op
    obtain ⟨hanswer, h'⟩ := h.apply op (by omega)
    obtain ⟨hanswers, h''⟩ := ih h' (by omega)
    rw [Lib.run_cons, Lib.run_cons, hanswer, hanswers]
    exact ⟨rfl, h''⟩

/-- A timer ends once: it fires or it is cancelled, and until then it is live. -/
structure Conserved (L : Live κ) : Prop where
  once : (L.live ++ L.fired ++ L.cancelled).Perm L.scheduled
  ids : L.scheduled.map (·.1.id) = (List.range L.scheduled.length).map fun i => UInt64.ofNat (i + 1)

theorem Conserved.apply {L : Live κ} (h : Conserved L) (op : Op κ) : Conserved (L.apply op).1 := by
  cases op with
  | schedule deadline onFire =>
    refine ⟨?_, ?_⟩
    · simp only [Live.apply]
      refine List.Perm.trans ?_ (h.once.append_right _)
      simp only [List.append_assoc]
      refine List.Perm.append_left _ ?_
      rw [← List.append_assoc L.fired]
      exact List.perm_append_comm
    · simp only [Live.apply, List.map_append, h.ids, List.length_append, List.length_singleton, List.range_succ]
      rfl
  | cancel handle =>
    refine ⟨List.Perm.trans ?_ h.once, h.ids⟩
    have hsplit := List.filter_append_perm (fun x : Entry × κ => decide (x.1.id = handle)) L.live
    simp only [← decide_not, ← Multiset.coe_eq_coe, ← Multiset.coe_add] at hsplit
    simp only [Live.apply, ← Multiset.coe_eq_coe, ← Multiset.coe_add, ← hsplit]
    abel
  | tick now =>
    refine ⟨List.Perm.trans ?_ h.once, h.ids⟩
    have hsplit := List.filter_append_perm (fun x : Entry × κ => decide (x.1.deadline ≤ now)) L.live
    have hdue := List.perm_insertionSort (·.1 ≤ ·.1) (L.live.filter (·.1.deadline ≤ now))
    simp only [← decide_not, not_le, ← Multiset.coe_eq_coe, ← Multiset.coe_add] at hsplit hdue
    simp only [Live.apply, Live.due, ← Multiset.coe_eq_coe, ← Multiset.coe_add, hdue, ← hsplit]
    abel

theorem Conserved.run {L : Live κ} (h : Conserved L) (ops : List (Op κ)) : Conserved (Lib.run Live.apply L ops).1 := by
  induction ops generalizing L with
  | nil => exact h
  | cons op ops ih =>
    rw [Lib.run_cons]
    exact ih (h.apply op)

theorem Conserved.ids_nodup {L : Live κ} (h : Conserved L) (hn : L.scheduled.length < 2 ^ 64) :
    (L.scheduled.map (·.1.id)).Nodup := by
  rw [h.ids]
  refine List.Nodup.map_on (fun i hi j hj heq => ?_) List.nodup_range
  have := congrArg UInt64.toNat heq
  rw [List.mem_range] at hi hj
  rw [UInt64.toNat_ofNat_of_lt' (by simp [UInt64.size]; omega),
    UInt64.toNat_ofNat_of_lt' (by simp [UInt64.size]; omega)] at this
  omega

theorem run_scheduled (L : Live κ) (ops : List (Op κ)) :
    (Lib.run Live.apply L ops).1.scheduled.length = L.scheduled.length + ops.countP Op.isSchedule := by
  induction ops generalizing L with
  | nil => rfl
  | cons op ops ih =>
    rw [Lib.run_cons, ih, L.apply_scheduled, List.countP_cons]
    omega

/-- **The timers are the list of the live ones.** Every answer, and `len` after it, is the answer of that list,
whatever the threshold of the compaction. -/
theorem answers_of_live (threshold : ℕ → ℕ) (ops : List (Op κ)) (hops : ops.countP Op.isSchedule < 2 ^ 64) :
    (Lib.run BinaryHeapTimers.apply (.withCompaction threshold) ops).2 = (Lib.run Live.apply .empty ops).2 ∧
      ((Lib.run Live.apply .empty ops).1.live ++ (Lib.run Live.apply .empty ops).1.fired ++
        (Lib.run Live.apply .empty ops).1.cancelled).Perm (Lib.run Live.apply .empty ops).1.scheduled ∧
      ((Lib.run Live.apply .empty ops).1.scheduled.map (·.1.id)).Nodup := by
  have hconserved : Conserved (Lib.run Live.apply (.empty : Live κ) ops).1 :=
    Conserved.run ⟨.refl _, rfl⟩ ops
  have hscheduled := run_scheduled (.empty : Live κ) ops
  simp only [Live.empty, List.length_nil, Nat.zero_add] at hscheduled
  refine ⟨?_, hconserved.once, hconserved.ids_nodup (by rw [Live.empty, hscheduled]; exact hops)⟩
  exact (Refines.run (L := .empty) (.init threshold) ops (by simpa [Live.empty] using hops)).1

/-- With a compaction at the cancel. -/
theorem answers_of_three :
    (Lib.run BinaryHeapTimers.apply (.withCompaction (· / 4))
      [.schedule 20 'b', .schedule 10 'a', .schedule 10 'c', .cancel 3, .tick 15, .cancel 2, .tick 5, .tick 20]).2 =
    [(.handle 1, 1), (.handle 2, 2), (.handle 3, 3), (.preempted true, 2), (.fired [(⟨10, 2⟩, 'a')], 1),
      (.preempted false, 1), (.fired [], 1), (.fired [(⟨20, 1⟩, 'b')], 0)] := by
  rw [(answers_of_live (· / 4) _ (by decide)).1]
  decide

/-! ## The next deadline

The walk takes the first entry of the array that is not cancelled. Only the top of a heap is its least entry: after
a cancelled top the walk is in one branch, and the least live entry may be in the other.
-/

/-- The least deadline of a live timer. -/
def earliest (live : List (Entry × κ)) : Option ℕ := (live.map (·.1.deadline)).min?

def BinaryHeapTimers.LiveAt (s : BinaryHeapTimers κ) (i : ℕ) (e : Entry) : Prop :=
  s.heap[i]? = some e ∧ e.id ∉ s.cancelled

/-- No live entry is earlier than the first one and outside its branch. -/
def BinaryHeapTimers.FirstBranchLeads (s : BinaryHeapTimers κ) : Prop :=
  ∀ i e, s.LiveAt i e → (∀ j < i, ∀ e', ¬ s.LiveAt j e') →
    ∀ j e', s.LiveAt j e' → (∀ k, Lib.Heap.parent^[k] j ≠ i) → e.deadline ≤ e'.deadline

theorem Refines.exists_liveAt {s : BinaryHeapTimers κ} {live : List (Entry × κ)} {n : ℕ} (h : Refines s live n)
    {e : Entry} : (∃ k, (e, k) ∈ live) ↔ ∃ i, s.LiveAt i e := by
  rw [h.mem_entries, Array.mem_toList_iff, Array.mem_iff_getElem?]
  simp only [BinaryHeapTimers.LiveAt, exists_and_right]

theorem Refines.earliest_eq_some {s : BinaryHeapTimers κ} {live : List (Entry × κ)} {n : ℕ} (h : Refines s live n)
    {i : ℕ} {e : Entry} (he : s.LiveAt i e) :
    earliest live = some e.deadline ↔ ∀ j e', s.LiveAt j e' → e.deadline ≤ e'.deadline := by
  obtain ⟨k, hk⟩ := h.exists_liveAt.mpr ⟨i, he⟩
  rw [earliest, List.min?_eq_some_iff, and_iff_right (List.mem_map.mpr ⟨(e, k), hk, rfl⟩)]
  constructor
  · intro hall j e' he'
    obtain ⟨k', hk'⟩ := h.exists_liveAt.mpr ⟨j, he'⟩
    exact hall _ (List.mem_map.mpr ⟨(e', k'), hk', rfl⟩)
  · intro hall d hd
    obtain ⟨x, hx, rfl⟩ := List.mem_map.mp hd
    obtain ⟨j, hj⟩ := h.exists_liveAt.mp ⟨x.2, hx⟩
    exact hall j x.1 hj

theorem Refines.deadline_le_of_above {s : BinaryHeapTimers κ} {live : List (Entry × κ)} {n : ℕ} (h : Refines s live n)
    {i j k : ℕ} {e e' : Entry} (he : s.LiveAt i e) (he' : s.LiveAt j e') (hk : Lib.Heap.parent^[k] j = i) :
    e.deadline ≤ e'.deadline := by
  have habove := h.order.above k j
  rw [hk, Lib.Heap.view_of_get he.1, Lib.Heap.view_of_get he'.1, WithTop.coe_le_coe, Entry.le_iff] at habove
  omega

theorem Refines.nextDeadline_iff {s : BinaryHeapTimers κ} {live : List (Entry × κ)} {n : ℕ} (h : Refines s live n) :
    s.nextDeadline = earliest live ↔ s.FirstBranchLeads := by
  rw [BinaryHeapTimers.nextDeadline]
  cases hfind : s.heap.toList.find? fun e => decide (e.id ∉ s.cancelled) with
  | none =>
    have hnone : ∀ i e, ¬ s.LiveAt i e := by
      rintro i e ⟨hi, he⟩
      have hmem : e ∈ s.heap.toList := by
        rw [Array.mem_toList_iff, Array.mem_iff_getElem?]
        exact ⟨i, hi⟩
      have := List.find?_eq_none.mp hfind e hmem
      simp [he] at this
    have hlive : live = [] := by
      rw [List.eq_nil_iff_forall_not_mem]
      intro x hx
      obtain ⟨i, hi⟩ := h.exists_liveAt.mp ⟨x.2, hx⟩
      exact hnone i x.1 hi
    subst hlive
    simp only [Option.map_none, earliest, List.map_nil, List.min?_nil, true_iff]
    exact fun i e he => absurd he (hnone i e)
  | some e =>
    obtain ⟨he, i, hi, hat, hfirst⟩ := List.find?_eq_some_iff_getElem.mp hfind
    have hlive : s.LiveAt i e := by
      refine ⟨?_, by simpa using he⟩
      rw [← Array.getElem?_toList, List.getElem?_eq_getElem hi, hat]
    have hfirst : ∀ j < i, ∀ e', ¬ s.LiveAt j e' := by
      rintro j hj e' ⟨hj', hlive'⟩
      have := hfirst j hj
      rw [← Array.getElem?_toList, List.getElem?_eq_getElem (by omega), Option.some.injEq] at hj'
      rw [hj'] at this
      simp [hlive'] at this
    rw [Option.map_some, eq_comm, h.earliest_eq_some hlive]
    constructor
    · intro hall i' e₁ he₁ hfirst' j e' he' _
      have hii : i' = i := by
        rcases Nat.lt_trichotomy i' i with hlt | heq | hlt
        · exact absurd he₁ (hfirst i' hlt e₁)
        · exact heq
        · exact absurd hlive (hfirst' i hlt e)
      have hee : e₁ = e := by
        have := he₁.1
        rw [hii, hlive.1] at this
        exact (Option.some.inj this).symm
      rw [hee]
      exact hall j e' he'
    · intro hlead j e' he'
      by_cases hk : ∃ k, Lib.Heap.parent^[k] j = i
      · obtain ⟨k, hk⟩ := hk
        exact h.deadline_le_of_above hlive he' hk
      · exact hlead i e hlive hfirst j e' he' (not_exists.mp hk)

theorem BinaryHeapTimers.firstBranchLeads_of_top {s : BinaryHeapTimers κ} {e : Entry} (h : s.LiveAt 0 e) :
    s.FirstBranchLeads := by
  intro i e' _ hfirst j _ _ houtside
  have hi : i = 0 := by
    by_contra hne
    exact hfirst 0 (by omega) e h
  obtain ⟨k, hk⟩ := Lib.Heap.exists_iterate_parent j
  exact absurd (hk.trans hi.symm) (houtside k)

/-- **When the walk is right.** In every state of every run, `next_deadline` is the least live deadline exactly when
no live entry outside the branch of the first one is earlier. -/
theorem nextDeadline_exact_iff (threshold : ℕ → ℕ) (ops : List (Op κ)) (hops : ops.countP Op.isSchedule < 2 ^ 64) :
    (Lib.run BinaryHeapTimers.apply (.withCompaction threshold) ops).1.nextDeadline =
        earliest (Lib.run Live.apply .empty ops).1.live ↔
      (Lib.run BinaryHeapTimers.apply (.withCompaction threshold) ops).1.FirstBranchLeads :=
  (Refines.run (L := .empty) (.init threshold) ops (by simpa [Live.empty] using hops)).2.nextDeadline_iff

theorem nextDeadline_of_two :
    (Lib.run BinaryHeapTimers.apply (.withCompaction id) [.schedule 10 'a', .schedule 20 'b', .cancel 2]).1.nextDeadline
      = some 10 :=
  ((nextDeadline_exact_iff id [.schedule 10 'a', .schedule 20 'b', .cancel 2] (by decide)).mpr
    (BinaryHeapTimers.firstBranchLeads_of_top (e := ⟨10, 1⟩) ⟨by decide, by decide⟩)).trans (by decide)

/-- The ratio is the default one. The first timer is cancelled, and the walk stops at the second, due at 30. -/
theorem nextDeadline_late :
    (Lib.run BinaryHeapTimers.apply (.withCompaction (· / 4))
      [.schedule 10 'a', .schedule 30 'b', .schedule 20 'c', .schedule 40 'd', .cancel 1]).1.nextDeadline = some 30 ∧
    earliest (Lib.run Live.apply .empty
      [.schedule 10 'a', .schedule 30 'b', .schedule 20 'c', .schedule 40 'd', .cancel 1]).1.live = some 20 := by
  decide

end Riftgate.Timers
