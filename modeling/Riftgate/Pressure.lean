import Riftgate.Code.Signals

/-!
# What the poller leaves in the store

The store is a vector that grows. What a router gets from it is a map from backends to signals, and a poll changes the
pressure of the backends it has samples of, and nothing else.
-/

namespace Riftgate.Signals

open Router Dcgm

variable {F : Type} [Float64 F]

/-- The signal with the pressure of a sample, when there is one. -/
def withPressure (toBits : F → UInt32) (signal : BackendSignal) : Option (GpuPressure F) → BackendSignal
  | none => signal
  | some sample => { signal with gpuPressure := some (toBits (scalarPressure sample)) }

/-- The last of the samples of a backend. -/
def lastOf (b : BackendId) (samples : List (GpuPressure F)) : Option (GpuPressure F) :=
  (samples.filter fun s => s.backend = b).getLast?

omit [Float64 F] in
theorem lastOf_append (b : BackendId) (l l' : List (GpuPressure F)) :
    lastOf b (l ++ l') = (lastOf b l').or (lastOf b l) := by
  unfold lastOf
  rw [List.filter_append, List.getLast?_append]

theorem withPressure_or (toBits : F → UInt32) (signal : BackendSignal) (o o' : Option (GpuPressure F)) :
    withPressure toBits (withPressure toBits signal o) o' = withPressure toBits signal (o'.or o) := by
  cases o <;> cases o' <;> rfl

/-! ## One sample -/

theorem getD_replicate (next : List BackendSignal) (n i : Nat) :
    ((next ++ List.replicate n ({} : BackendSignal))[i]?).getD {} = (next[i]?).getD {} := by
  rcases Nat.lt_or_ge i next.length with hlt | hge
  · rw [List.getElem?_append_left hlt]
  · rw [List.getElem?_append_right hge, List.getElem?_eq_none hge, List.getElem?_replicate]
    split <;> rfl

theorem getD_setPressure (next : List BackendSignal) (idx : Nat) (pressure : UInt32) (i : Nat) :
    ((setPressure next idx pressure)[i]?).getD {} =
      if idx = i then { (next[i]?).getD {} with gpuPressure := some pressure } else (next[i]?).getD {} := by
  have hpad : ∀ padded : List BackendSignal, idx < padded.length →
      (∀ j : Nat, (padded[j]?).getD {} = (next[j]?).getD ({} : BackendSignal)) →
      ((padded.modify idx fun signal => { signal with gpuPressure := some pressure })[i]?).getD {} =
        if idx = i then { (next[i]?).getD {} with gpuPressure := some pressure } else (next[i]?).getD {} := by
    intro padded hlen hget
    rw [List.getElem?_modify, ← hget i]
    by_cases hi : idx = i
    · subst hi
      simp [List.getElem?_eq_getElem hlen]
    · simp [hi]
  unfold setPressure
  split
  · rename_i hle
    refine hpad _ ?_ (getD_replicate next _)
    rw [List.length_append, List.length_replicate]
    omega
  · rename_i hlt
    exact hpad next (Nat.lt_of_not_le hlt) fun _ => rfl

theorem get_setPressure (next : List BackendSignal) (b c : BackendId) (pressure : UInt32) :
    (BackendSignals.mk (setPressure next b.id.toNat pressure)).get c =
      if b = c then { (BackendSignals.mk next).get c with gpuPressure := some pressure }
      else (BackendSignals.mk next).get c := by
  unfold BackendSignals.get
  rw [getD_setPressure]
  have hid : b.id.toNat = c.id.toNat ↔ b = c := by
    rw [UInt16.toNat_inj]
    exact ⟨fun h => by cases b; cases c; cases h; rfl, fun h => h ▸ rfl⟩
  by_cases hbc : b = c
  · rw [if_pos (hid.mpr hbc), if_pos hbc]
  · rw [if_neg (fun h => hbc (hid.mp h)), if_neg hbc]

/-! ## One poll -/

theorem get_range (store : BackendSignals) {n : Nat} (hn : store.signals.length ≤ n) (b : BackendId) :
    (BackendSignals.mk ((List.range n).map fun idx => store.get ⟨UInt16.ofNat idx⟩)).get b = store.get b := by
  show ((((List.range n).map fun idx => store.get ⟨UInt16.ofNat idx⟩)[b.id.toNat]?).getD {} : BackendSignal) = _
  rw [List.getElem?_map]
  rcases Nat.lt_or_ge b.id.toNat n with hlt | hge
  · rw [List.getElem?_range hlt]
    simp
  · rw [List.getElem?_eq_none (by rw [List.length_range]; exact hge)]
    unfold BackendSignals.get
    rw [List.getElem?_eq_none (Nat.le_trans hn hge)]
    rfl

theorem get_samples (toBits : F → UInt32) (next : List BackendSignal) (samples : List (GpuPressure F))
    (b : BackendId) :
    (BackendSignals.mk (samples.foldl
        (fun next s => setPressure next s.backend.id.toNat (toBits (scalarPressure s))) next)).get b =
      withPressure toBits ((BackendSignals.mk next).get b) (lastOf b samples) := by
  induction samples generalizing next with
  | nil => rfl
  | cons s samples ih =>
    rw [List.foldl_cons, ih, get_setPressure, ← List.singleton_append, lastOf_append, ← withPressure_or]
    by_cases hb : s.backend = b
    · simp [lastOf, hb, withPressure]
    · simp [lastOf, hb, withPressure]

theorem get_applyGpuPressureUpdates (toBits : F → UInt32) (store : BackendSignals)
    (samples : List (GpuPressure F)) (b : BackendId) :
    (applyGpuPressureUpdates toBits store samples).get b = withPressure toBits (store.get b) (lastOf b samples) := by
  unfold applyGpuPressureUpdates
  split
  · rfl
  · rw [get_samples, get_range store]
    omega

/-! ## All polls -/

/-- The samples of the polls that have not failed, in order. -/
def samplesOf {E : Type} (polls : List (Except E (List (GpuPressure F)))) : List (GpuPressure F) :=
  polls.flatMap fun result => result.toOption.getD []

/-- **The store refines a map.** After any polls, failed ones among them, the signal of a backend is what it was
before, with the pressure of the last sample of that backend. -/
theorem get_polls {E : Type} (toBits : F → UInt32) (store : BackendSignals)
    (polls : List (Except E (List (GpuPressure F)))) (b : BackendId) :
    (polls.foldl (poll toBits) store).get b =
      withPressure toBits (store.get b) ((samplesOf polls).filter fun s => s.backend = b).getLast? := by
  show _ = withPressure toBits (store.get b) (lastOf b (samplesOf polls))
  induction polls generalizing store with
  | nil => rfl
  | cons result polls ih =>
    have hcons : samplesOf (result :: polls) = result.toOption.getD [] ++ samplesOf polls := List.flatMap_cons
    rw [List.foldl_cons, ih, hcons, lastOf_append, ← withPressure_or]
    congr 1
    cases result with
    | error e => rfl
    | ok samples => exact get_applyGpuPressureUpdates toBits store samples b

end Riftgate.Signals
