import Riftgate.Lib.Rotation
import Riftgate.Code.Routers

/-!
# The shares of a round robin

The cursor is a rotation that wraps at `2 ^ 64`. Threads draw from it in some order, one atomic operation each.
-/

open Lib

namespace Riftgate.Router

/-- The calls in the order of their draws, by thread. -/
def draws (pool : BackendPool) : RoundRobinRouter → List Nat → List (Nat × RoutingDecision)
  | _, [] => []
  | r, t :: threads => (t, (r.route pool).2) :: draws pool (r.route pool).1 threads

def timesChosen (b : BackendId) (window : List (Nat × RoutingDecision)) : Nat :=
  window.countP fun d => d.2 = .send b

/-- Each backend is chosen `⌊m / n⌋` or `⌈m / n⌉` times. -/
def FairWindow (pool : BackendPool) (r : RoundRobinRouter) (threads : List Nat) : Prop :=
  let n := pool.backends.length
  let m := threads.length
  ∀ b ∈ pool.backends, timesChosen b (draws pool r threads) = m / n ∨
    timesChosen b (draws pool r threads) = (m + n - 1) / n

section Shares

variable {pool : BackendPool}

theorem roundRobin_route (hne : 0 < pool.backends.length) (r : RoundRobinRouter) :
    r.route pool = (⟨r.cursor + 1⟩,
      .send (pool.backends.get ⟨r.cursor.toNat % pool.backends.length, Nat.mod_lt _ hne⟩)) := by
  have hget : pool.getModulo r.cursor.toNat =
      some (pool.backends.get ⟨r.cursor.toNat % pool.backends.length, Nat.mod_lt _ hne⟩) :=
    List.getElem?_eq_getElem (Nat.mod_lt _ hne)
  rw [RoundRobinRouter.route, hget]

theorem send_get_iff (hnodup : pool.backends.Nodup) (i k : Fin pool.backends.length) :
    RoutingDecision.send (pool.backends.get i) = .send (pool.backends.get k) ↔ i.val = k.val := by
  rw [RoutingDecision.send.injEq, hnodup.injective_get.eq_iff, Fin.ext_iff]

theorem timesChosen_draws (hnodup : pool.backends.Nodup) (k : Fin pool.backends.length) (r : RoundRobinRouter)
    (threads : List Nat) :
    timesChosen (pool.backends.get k) (draws pool r threads) =
      Rotation.hits (2 ^ 64) pool.backends.length r.cursor.toNat threads.length k := by
  have hne : 0 < pool.backends.length := Fin.pos k
  unfold Rotation.hits timesChosen
  induction threads generalizing r with
  | nil => rfl
  | cons t threads ih =>
    rw [draws, List.countP_cons, List.length_cons, Nat.count_succ', roundRobin_route hne, ih]
    simp only [send_get_iff hnodup, decide_eq_true_eq, Nat.add_zero, Nat.mod_eq_of_lt r.cursor.toNat_lt,
      UInt64.toNat_add, UInt64.reduceToNat, Nat.mod_add_mod, Nat.add_right_comm, Nat.add_assoc]

theorem fairWindow_iff_fair (hnodup : pool.backends.Nodup) (r : RoundRobinRouter) (threads : List Nat) :
    FairWindow pool r threads ↔
      Rotation.Fair (2 ^ 64) pool.backends.length r.cursor.toNat threads.length := by
  constructor
  · intro h k hk
    rw [← timesChosen_draws hnodup ⟨k, hk⟩]
    exact h _ (List.get_mem pool.backends ⟨k, hk⟩)
  · intro h b hb
    obtain ⟨k, rfl⟩ := List.get_of_mem hb
    rw [timesChosen_draws hnodup]
    exact h k k.isLt

/-- The window wraps `w` times, and begins and ends at the slots `u` and `v`. -/
theorem fairWindow_iff (hne : pool.backends ≠ []) (hnodup : pool.backends.Nodup) (r : RoundRobinRouter) :
    (∀ threads : List Nat,
      let n := pool.backends.length
      let w := (r.cursor.toNat + threads.length) / 2 ^ 64
      let u := r.cursor.toNat % n
      let v := (r.cursor.toNat + threads.length) % 2 ^ 64 % n
      FairWindow pool r threads ↔ Rotation.Kept w (2 ^ 64 % n) u v) ∧
    ((∀ threads, FairWindow pool r threads) ↔ pool.backends.length ∣ 2 ^ 64) := by
  have hn : 0 < pool.backends.length := List.length_pos_iff_ne_nil.mpr hne
  have hc := r.cursor.toNat_lt
  constructor
  · intro threads n w u v
    rw [fairWindow_iff_fair hnodup]
    exact Rotation.fair_iff hn hc
  · rw [← Rotation.forall_fair_iff hn hc]
    constructor
    · intro h m
      have hwindow := (fairWindow_iff_fair hnodup r _).mp (h (List.replicate m 0))
      rwa [List.length_replicate] at hwindow
    · exact fun h threads => (fairWindow_iff_fair hnodup r threads).mpr (h threads.length)

end Shares

theorem fairWindow_iff_four :
    let pool : BackendPool := ⟨[⟨0⟩, ⟨1⟩, ⟨2⟩, ⟨3⟩]⟩
    (∀ threads, FairWindow pool ⟨2 ^ 64 - 1⟩ threads) ∧ pool.backends.length ∣ 2 ^ 64 :=
  have hne : (BackendPool.mk [⟨0⟩, ⟨1⟩, ⟨2⟩, ⟨3⟩]).backends ≠ [] := by decide
  ⟨((fairWindow_iff hne (by decide) _).2).mpr (by decide), by decide⟩

/-- Two threads draw the last cursor and the first one. Both send to the same of three backends. -/
theorem unfair_window :
    ¬ FairWindow ⟨[⟨0⟩, ⟨1⟩, ⟨2⟩]⟩ ⟨UInt64.ofNat (2 ^ 64 - 1)⟩ [0, 1] := by
  intro h
  have hfirst := h ⟨0⟩ (by decide)
  have htwice : timesChosen ⟨0⟩ (draws ⟨[⟨0⟩, ⟨1⟩, ⟨2⟩]⟩ ⟨UInt64.ofNat (2 ^ 64 - 1)⟩ [0, 1]) = 2 := by decide
  rw [htwice] at hfirst
  revert hfirst
  decide

end Riftgate.Router
