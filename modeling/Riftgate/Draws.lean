import Riftgate.Code.RngThreads

/-!
# The generator is never stuck

An exchange that expects 1 where 0 is stored fails for ever. No draw stores 0.
-/

open Lib

namespace Riftgate.Router

open WeightedRandomRouter (attempt)

theorem max_one_eq_self {v : UInt64} (h : v ≠ 0) : max v 1 = v := by
  have hpos : 0 < v.toNat := by
    rw [Nat.pos_iff_ne_zero]
    intro hzero
    exact h (UInt64.toNat_inj.mp hzero)
  have hone : (1 : UInt64).toNat = 1 := rfl
  rw [← UInt64.toNat_inj, toNat_max, hone]
  omega

theorem attempt_eq {v : UInt64} (h : v ≠ 0) : attempt v = (v, xorshift64 v) := by
  unfold WeightedRandomRouter.attempt
  rw [max_one_eq_self h]

/-! ## One thread -/

theorem withSeed_rngState {weights : List (BackendId × UInt32)} {seed : UInt64} {r : WeightedRandomRouter}
    (h : WeightedRandomRouter.withSeed weights seed = some r) : (nextU64Threads seed).init.cell = r.rngState := by
  unfold WeightedRandomRouter.withSeed at h
  split at h
  · cases h
    rfl
  · cases h

/-- The draw of a thread that is alone is `next_u64`. -/
theorem nextU64_eq_run (r : WeightedRandomRouter) (seed : UInt64) {s : CasLoop.State UInt64} {t : Nat}
    (hcell : s.cell = r.rngState) (hidle : s.pcs t = .idle) :
    (nextU64Threads seed).runFrom s [.call t, .load t, .exchange t] =
      some ({ s with cell := r.nextU64.1.rngState }.set t (.returned r.nextU64.2)) := by
  have hattempt : attempt s.cell = (s.cell, r.nextU64.2) := by
    rw [hcell]
    exact attempt_eq r.rngState_ne
  have hrun : (nextU64Threads seed).runFrom s [.call t, .load t, .exchange t] =
      some ({ s with cell := (attempt s.cell).2 }.set t (.returned (attempt s.cell).2)) :=
    CasLoop.run_alone (congrArg Prod.fst hattempt) hidle
  rw [hattempt] at hrun
  exact hrun

/-! ## Any threads -/

theorem nonzero_of_reachable {seed : UInt64} {s : CasLoop.State UInt64} (hs : (nextU64Threads seed).Reachable s) :
    CasLoop.Holds (· ≠ 0) s := by
  refine CasLoop.holds_of_reachable (max_one_ne_zero seed) (fun v hv => ?_) hs
  rw [attempt_eq hv]
  exact xorshift64_ne_zero hv

/-- **The generator is never stuck.** What is stored is never 0, so an exchange expects the very value that its thread
has loaded. It succeeds when that value is still stored. -/
theorem rng_never_stuck (seed : UInt64) :
    (∀ x : UInt64, x ≠ 0 → xorshift64 x ≠ 0) ∧
      ∀ s, (nextU64Threads seed).Reachable s →
        s.cell ≠ 0 ∧ (∀ t seen, s.pcs t = .loaded seen → (attempt seen).1 = seen) ∧
        ∀ t loaded later s', (nextU64Threads seed).step s (.load t) = some loaded →
          (∀ a ∈ later, a ≠ .exchange t) → (nextU64Threads seed).runFrom loaded later = some s' →
            s'.cell = s.cell →
              (nextU64Threads seed).step s' (.exchange t) =
                some ({ s' with cell := xorshift64 s.cell }.set t (.returned (xorshift64 s.cell))) := by
  refine ⟨fun x hx => xorshift64_ne_zero hx, fun s hs => ?_⟩
  have hnonzero := nonzero_of_reachable hs
  refine ⟨hnonzero.cell, fun t seen hpc => ?_, fun t loaded later s' hload hlater hrun hcell => ?_⟩
  · rw [attempt_eq (hnonzero.loaded t seen hpc)]
  · have hattempt := attempt_eq hnonzero.cell
    have hexchange := CasLoop.exchange_of_unchanged (congrArg Prod.fst hattempt) hload hlater hrun hcell
    rw [hattempt] at hexchange
    exact hexchange

/-- Two threads at the head of their loops. -/
def twoHeads : CasLoop.State UInt64 := ((nextU64Threads 0).init.set 0 .head).set 1 .head

/-- The seed is 0, and the second thread loads before the first one exchanges. -/
theorem rng_never_stuck_two :
    xorshift64 1 ≠ 0 ∧
      (nextU64Threads 0).step ((twoHeads.set 0 (.loaded 1)).set 1 (.loaded 1)) (.exchange 0) =
        some ({ (twoHeads.set 0 (.loaded 1)).set 1 (.loaded 1) with cell := xorshift64 1 }.set 0
          (.returned (xorshift64 1))) := by
  have hrun : (nextU64Threads 0).run [.call 0, .call 1] = some twoHeads := rfl
  have hload : (nextU64Threads 0).step twoHeads (.load 0) = some (twoHeads.set 0 (.loaded 1)) := rfl
  have hlater : (nextU64Threads 0).runFrom (twoHeads.set 0 (.loaded 1)) [.load 1] =
      some ((twoHeads.set 0 (.loaded 1)).set 1 (.loaded 1)) := rfl
  have hexchange : ∀ a ∈ [CasLoop.Label.load 1], a ≠ .exchange 0 := by decide
  obtain ⟨hshift, hstates⟩ := rng_never_stuck 0
  obtain ⟨-, -, hsucceeds⟩ := hstates twoHeads (Machine.reachable_of_run hrun)
  exact ⟨hshift 1 (by decide), hsucceeds 0 _ _ _ hload hexchange hlater rfl⟩

end Riftgate.Router
