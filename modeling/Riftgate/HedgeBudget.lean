import Mathlib.Algebra.BigOperators.Fin
import Mathlib.Algebra.Order.BigOperators.Group.Finset
import Mathlib.Algebra.Order.Field.Rat
import Mathlib.Tactic.Linarith
import Riftgate.Code.HedgedThreads
import Riftgate.Code.Routers

/-!
# The budget of the hedges

A thread that has passed the check has not yet counted its hedge, so the invariant counts it. When a thread passes, the
fraction that it sees is below the limit, and the total that it had loaded can only have grown. So the counted hedges
are below the limit then, and at most `k` threads have passed.
-/

open Lib

namespace Riftgate.Hedged

open Router

variable {ρ : Type} {k : Nat}

/-! ## What the threads are about to do -/

/-- The decision is counted, and a hedge may still come of it. -/
def Pc.counted : Pc → Nat
  | .quantile _ _ | .loadTotal _ _ | .loadFired _ _ _ | .pickSecondary _ _ | .fire _ _ => 1
  | _ => 0

/-- The budget has allowed a hedge that is not counted yet. -/
def Pc.passed : Pc → Nat
  | .pickSecondary _ _ | .fire _ _ => 1
  | _ => 0

/-- What a thread has loaded was there. -/
def Pc.Loaded (decisions : Nat) : Pc → Prop
  | .loadFired _ _ total => 0 < total.toNat ∧ total.toNat ≤ decisions
  | _ => True

def Pc.Counts : Pc → Prop
  | .count _ _ => True
  | _ => False

theorem Pc.passed_le_one (pc : Pc) : pc.passed ≤ 1 := by
  cases pc <;> simp [Pc.passed]

theorem Pc.Loaded.mono {d d' : Nat} (h : d ≤ d') {pc : Pc} (hpc : pc.Loaded d) : pc.Loaded d' := by
  cases pc with
  | loadFired r primary total => exact ⟨hpc.1, hpc.2.trans h⟩
  | _ => trivial

theorem sum_update (w : Pc → Nat) (pcs : Fin k → Pc) (t : Fin k) (pc : Pc) :
    ∑ i, w (Function.update pcs t pc i) + w (pcs t) = ∑ i, w (pcs i) + w pc := by
  have hmem := Finset.mem_univ t
  have hrest : ∀ i ∈ Finset.univ.erase t, w (Function.update pcs t pc i) = w (pcs i) := by
    intro i hi
    rw [Function.update_of_ne (Finset.ne_of_mem_erase hi)]
  rw [← Finset.add_sum_erase _ _ hmem, ← Finset.add_sum_erase _ (fun i => w (pcs i)) hmem, Finset.sum_congr rfl hrest,
    Function.update_self]
  omega

/-! ## One move -/

theorem toNat_succ {x : UInt64} (h : x.toNat + 1 < 2 ^ 64) : (x + 1).toNat = x.toNat + 1 := by
  rw [UInt64.toNat_add]
  exact Nat.mod_eq_of_lt h

theorem lt_of_allowed {fired total decisions : Nat} {f : ℚ} (hpos : 0 < total) (hle : total ≤ decisions)
    (h : (fired : ℚ) / (total : ℚ) < f) : (fired : ℚ) < f * decisions := by
  have htotal : (0 : ℚ) < total := by exact_mod_cast hpos
  have hdecisions : (total : ℚ) ≤ decisions := by exact_mod_cast hle
  have hf : 0 ≤ f := (div_nonneg (Nat.cast_nonneg fired) htotal.le).trans h.le
  calc (fired : ℚ) < f * total := (div_lt_iff₀ htotal).mp h
    _ ≤ f * decisions := mul_le_mul_of_nonneg_left hdecisions hf

structure Moved (sh sh' : HedgedRouter ℚ ρ) (pc pc' : Pc) : Prop where
  cfg : sh'.cfg = sh.cfg
  decisions : sh.decisionsTotal.toNat ≤ sh'.decisionsTotal.toNat
  loaded : pc'.Loaded sh'.decisionsTotal.toNat
  counted : sh'.hedgesTotal.toNat + pc'.counted + sh.decisionsTotal.toNat ≤
    sh.hedgesTotal.toNat + pc.counted + sh'.decisionsTotal.toNat
  passed : sh'.hedgesTotal.toNat + pc'.passed ≤ sh.hedgesTotal.toNat + pc.passed ∨
    sh'.hedgesTotal = sh.hedgesTotal ∧
      (sh.hedgesTotal.toNat : ℚ) < sh.cfg.hedgeMaxFraction * sh.decisionsTotal.toNat

theorem Moved.same {sh : HedgedRouter ℚ ρ} {pc pc' : Pc} (hloaded : pc'.Loaded sh.decisionsTotal.toNat)
    (hcounted : pc'.counted ≤ pc.counted)
    (hpassed : pc'.passed ≤ pc.passed ∨
      (sh.hedgesTotal.toNat : ℚ) < sh.cfg.hedgeMaxFraction * sh.decisionsTotal.toNat) : Moved sh sh pc pc' where
  cfg := rfl
  decisions := le_rfl
  loaded := hloaded
  counted := by omega
  passed := hpassed.imp (fun h => by omega) fun h => ⟨rfl, h⟩

theorem moved_of_move {sh sh' : HedgedRouter ℚ ρ} {pc pc' : Pc} (h : move sh pc = some (sh', pc'))
    (hwrap : pc.Counts → sh.decisionsTotal.toNat + 1 < 2 ^ 64) (hloaded : pc.Loaded sh.decisionsTotal.toNat)
    (hcounted : sh.hedgesTotal.toNat + pc.counted ≤ sh.decisionsTotal.toNat) : Moved sh sh' pc pc' := by
  cases pc with
  | idle => cases h
  | inner r => cases h
  | routed decision => cases h
  | count r decision =>
    cases h
    have hnext := toNat_succ (hwrap trivial)
    cases decision <;>
      exact ⟨rfl, by simp only; omega, trivial, by simp only [afterCount, Pc.counted]; omega, Or.inl le_rfl⟩
  | quantile r primary =>
    cases h
    cases sh.quantileMs primary with
    | none => exact .same trivial (Nat.zero_le _) (Or.inl le_rfl)
    | some qMs =>
      unfold afterQuantile
      simp only
      split
      · exact .same trivial (Nat.zero_le _) (Or.inl le_rfl)
      · exact .same trivial le_rfl (Or.inl le_rfl)
  | loadTotal r primary =>
    cases h
    have hpos : 0 < sh.decisionsTotal.toNat := Nat.lt_of_lt_of_le (Nat.succ_pos _) hcounted
    rw [if_neg (by rintro hzero; rw [hzero] at hpos; cases hpos)]
    exact .same ⟨hpos, le_rfl⟩ le_rfl (Or.inl le_rfl)
  | loadFired r primary total =>
    cases h
    split
    · rename_i hallowed
      exact .same trivial le_rfl (Or.inr (lt_of_allowed hloaded.1 hloaded.2 hallowed))
    · exact .same trivial (Nat.zero_le _) (Or.inl le_rfl)
  | pickSecondary r primary =>
    cases h
    cases Router.pickSecondary primary r.pool r.signals with
    | none => exact .same trivial (Nat.zero_le _) (Or.inl (Nat.zero_le _))
    | some secondary => exact .same trivial le_rfl (Or.inl le_rfl)
  | fire primary secondary =>
    cases h
    have hfull := sh.decisionsTotal.toNat_lt
    have hnext := toNat_succ (x := sh.hedgesTotal) (lt_of_le_of_lt hcounted hfull)
    exact ⟨rfl, le_rfl, trivial, by simp only [Pc.counted]; omega, Or.inl (by simp only [Pc.passed]; omega)⟩

/-! ## Every interleaving -/

/-- The step counts no decision past the largest `u64`. -/
def NoWrap (s : Threads ℚ ρ k) : Label ρ k → Prop
  | .move t => (s.pcs t).Counts → s.shared.decisionsTotal.toNat + 1 < 2 ^ 64
  | _ => True

structure Budgeted (f : ℚ) (s : Threads ℚ ρ k) : Prop where
  fraction : s.shared.cfg.hedgeMaxFraction = f
  loaded : ∀ t, (s.pcs t).Loaded s.shared.decisionsTotal.toNat
  counted : s.shared.hedgesTotal.toNat + ∑ t, (s.pcs t).counted ≤ s.shared.decisionsTotal.toNat
  budget : ((s.shared.hedgesTotal.toNat + ∑ t, (s.pcs t).passed : ℕ) : ℚ) <
    max f 0 * s.shared.decisionsTotal.toNat + k

theorem sum_passed_le (pcs : Fin k → Pc) : ∑ t, (pcs t).passed ≤ k := by
  have h := Finset.sum_le_card_nsmul Finset.univ (fun t => (pcs t).passed) 1 fun t _ => (pcs t).passed_le_one
  simpa using h

theorem le_sum (w : Pc → Nat) (pcs : Fin k → Pc) (t : Fin k) : w (pcs t) ≤ ∑ i, w (pcs i) :=
  Finset.single_le_sum (f := fun i => w (pcs i)) (fun _ _ => Nat.zero_le _) (Finset.mem_univ t)

theorem Budgeted.moved {f : ℚ} {s : Threads ℚ ρ k} (h : Budgeted f s) {t : Fin k} {sh' : HedgedRouter ℚ ρ} {pc' : Pc}
    (hm : Moved s.shared sh' (s.pcs t) pc') : Budgeted f ⟨sh', Function.update s.pcs t pc'⟩ where
  fraction := by rw [← h.fraction, ← hm.cfg]
  loaded i := by
    by_cases hi : i = t
    · subst hi
      simp only [Function.update_self]
      exact hm.loaded
    · simp only [Function.update_of_ne hi]
      exact (h.loaded i).mono hm.decisions
  counted := by
    have hsum := sum_update Pc.counted s.pcs t pc'
    have hold := h.counted
    have hmoved := hm.counted
    simp only
    omega
  budget := by
    have hsum := sum_update Pc.passed s.pcs t pc'
    have hle := sum_passed_le (Function.update s.pcs t pc')
    have hmore : max f 0 * (s.shared.decisionsTotal.toNat : ℚ) ≤ max f 0 * sh'.decisionsTotal.toNat :=
      mul_le_mul_of_nonneg_left (by exact_mod_cast hm.decisions) (le_max_right f 0)
    rcases hm.passed with hpassed | ⟨hsame, hlt⟩
    · have hfewer : sh'.hedgesTotal.toNat + ∑ i, (Function.update s.pcs t pc' i).passed ≤
          s.shared.hedgesTotal.toNat + ∑ i, (s.pcs i).passed := by omega
      have hcast : ((sh'.hedgesTotal.toNat + ∑ i, (Function.update s.pcs t pc' i).passed : ℕ) : ℚ) ≤
          ((s.shared.hedgesTotal.toNat + ∑ i, (s.pcs i).passed : ℕ) : ℚ) := by exact_mod_cast hfewer
      linarith [h.budget]
    · have hmax : s.shared.cfg.hedgeMaxFraction * (s.shared.decisionsTotal.toNat : ℚ) ≤
          max f 0 * s.shared.decisionsTotal.toNat :=
        mul_le_mul_of_nonneg_right (h.fraction.le.trans (le_max_left f 0)) (Nat.cast_nonneg _)
      have hcast : ((∑ i, (Function.update s.pcs t pc' i).passed : ℕ) : ℚ) ≤ k := by exact_mod_cast hle
      rw [Nat.cast_add, hsame]
      linarith

theorem Budgeted.outside {f : ℚ} {s : Threads ℚ ρ k} (h : Budgeted f s) {t : Fin k} {sh' : HedgedRouter ℚ ρ} {pc' : Pc}
    (hcfg : sh'.cfg = s.shared.cfg) (hd : sh'.decisionsTotal = s.shared.decisionsTotal)
    (hh : sh'.hedgesTotal = s.shared.hedgesTotal) (hloaded : pc'.Loaded s.shared.decisionsTotal.toNat)
    (hcounted : pc'.counted = 0) (hpassed : pc'.passed = 0) : Budgeted f ⟨sh', Function.update s.pcs t pc'⟩ :=
  h.moved
    { cfg := hcfg
      decisions := by rw [hd]
      loaded := by rw [hd]; exact hloaded
      counted := by rw [hd, hh, hcounted]; omega
      passed := Or.inl (by rw [hh, hpassed]; omega) }

theorem Budgeted.hedges_lt {f : ℚ} {s : Threads ℚ ρ k} (h : Budgeted f s) :
    (s.shared.hedgesTotal.toNat : ℚ) < max f 0 * s.shared.decisionsTotal.toNat + k := by
  have hbudget := h.budget
  have hpassed : (0 : ℚ) ≤ ((∑ t, (s.pcs t).passed : ℕ) : ℚ) := Nat.cast_nonneg _
  rw [Nat.cast_add] at hbudget
  linarith

variable [Router ρ]

theorem Budgeted.step {f : ℚ} {s s' : Threads ℚ ρ k} {a : Label ρ k} (h : Budgeted f s) (hwrap : NoWrap s a)
    (hstep : s.step a = some s') : Budgeted f s' := by
  cases a with
  | route t pool signals =>
    simp only [Threads.step] at hstep
    split at hstep
    · cases hstep
      exact h.outside rfl rfl rfl trivial rfl rfl
    · cases hstep
  | decide t inner decision =>
    simp only [Threads.step, Threads.decide] at hstep
    split at hstep
    · cases hstep
      exact h.outside rfl rfl rfl trivial rfl rfl
    · cases hstep
  | move t =>
    obtain ⟨⟨sh', pc'⟩, hmove, heq⟩ := Option.map_eq_some_iff.mp hstep
    cases heq
    refine h.moved (moved_of_move hmove hwrap (h.loaded t) ?_)
    have hone := le_sum Pc.counted s.pcs t
    have hall := h.counted
    omega
  | onResponse decision outcome =>
    cases hstep
    exact ⟨h.fraction, h.loaded, h.counted, h.budget⟩

theorem budgeted_init (hk : 1 ≤ k) (inner : ρ) (cfg : HedgedConfig ℚ) :
    Budgeted cfg.hedgeMaxFraction (threads inner cfg k).init where
  fraction := rfl
  loaded _ := trivial
  counted := by
    have hzero : ∑ _t : Fin k, Pc.counted .idle = 0 := Finset.sum_const_zero
    simp only [threads, hzero]
    exact le_rfl
  budget := by
    have hzero : ∑ _t : Fin k, Pc.passed .idle = 0 := Finset.sum_const_zero
    have hpos : (0 : ℚ) < k := by exact_mod_cast hk
    simp only [threads, hzero]
    simpa using hpos

theorem budgeted_of_reach (hk : 1 ≤ k) {inner : ρ} {cfg : HedgedConfig ℚ} {s : Threads ℚ ρ k}
    (hs : (threads inner cfg k).Reach NoWrap s) : Budgeted cfg.hedgeMaxFraction s :=
  hs.invariant (budgeted_init hk inner cfg) fun _ _ _ _ h hwrap hstep => h.step hwrap hstep

/-! ## One caller at a time -/

section Sequential

variable {inner : ρ} {cfg : HedgedConfig ℚ} {r : HedgedRouter ℚ ρ} {pcs : Fin k → Pc} {t : Fin k}

theorem reach_move (hs : (threads inner cfg k).Reach NoWrap ⟨r, pcs⟩) {pc : Pc} (hpc : pcs t = pc)
    (hwrap : pc.Counts → r.decisionsTotal.toNat + 1 < 2 ^ 64) {r' : HedgedRouter ℚ ρ} {pc' : Pc}
    (h : move r pc = some (r', pc')) : (threads inner cfg k).Reach NoWrap ⟨r', Function.update pcs t pc'⟩ := by
  refine hs.step (a := .move t) ?_ ?_
  · simp only [threads, Threads.step, hpc, h, Option.map_some]
  · simp only [NoWrap, hpc]
    exact hwrap

theorem reach_budgetAllows (hs : (threads inner cfg k).Reach NoWrap ⟨r, pcs⟩) {args : RouteArgs} {primary : BackendId}
    (hpc : pcs t = .loadTotal args primary) :
    ∃ pcs' : Fin k → Pc, (threads inner cfg k).Reach NoWrap ⟨r, pcs'⟩ ∧
      pcs' t = if r.budgetAllows then .pickSecondary args primary else .routed (.send primary) := by
  have htotal := reach_move hs hpc (fun h => h.elim) rfl
  by_cases hzero : r.decisionsTotal = 0
  · refine ⟨_, htotal, ?_⟩
    rw [Function.update_self, if_pos hzero, HedgedRouter.budgetAllows, decide_eq_true hzero]
    rfl
  · rw [if_neg hzero] at htotal
    refine ⟨_, reach_move htotal (Function.update_self t _ pcs) (fun h => h.elim) rfl, ?_⟩
    rw [Function.update_self, HedgedRouter.budgetAllows, decide_eq_false hzero, Bool.false_or]
    simp only [decide_eq_true_eq]

theorem reach_pickSecondary (hs : (threads inner cfg k).Reach NoWrap ⟨r, pcs⟩) {args : RouteArgs} {primary : BackendId}
    (hpc : pcs t = .pickSecondary args primary) :
    match pickSecondary primary args.pool args.signals with
    | some secondary => ∃ pcs' : Fin k → Pc,
        (threads inner cfg k).Reach NoWrap ⟨{ r with hedgesTotal := r.hedgesTotal + 1 }, pcs'⟩ ∧
          pcs' t = .routed (.hedge [primary, secondary])
    | none => ∃ pcs' : Fin k → Pc, (threads inner cfg k).Reach NoWrap ⟨r, pcs'⟩ ∧ pcs' t = .routed (.send primary) := by
  have hpick := reach_move hs hpc (fun h => h.elim) rfl
  cases hsec : pickSecondary primary args.pool args.signals with
  | none =>
    rw [hsec] at hpick
    exact ⟨_, hpick, Function.update_self t _ pcs⟩
  | some secondary =>
    rw [hsec] at hpick
    exact ⟨_, reach_move hpick (Function.update_self t _ pcs) (fun h => h.elim) rfl, Function.update_self t _ _⟩

/-- What `promote` does in one go, the moves of a thread do one after the other. -/
theorem reach_promote (hs : (threads inner cfg k).Reach NoWrap ⟨r, pcs⟩) {args : RouteArgs} {primary : BackendId}
    (hpc : pcs t = .quantile args primary) :
    ∃ pcs' : Fin k → Pc,
      (threads inner cfg k).Reach NoWrap ⟨(r.promote primary args.pool args.signals).1, pcs'⟩ ∧
        pcs' t = .routed (r.promote primary args.pool args.signals).2 := by
  have hquantile := reach_move hs hpc (fun h => h.elim) rfl
  unfold HedgedRouter.promote
  cases hq : r.quantileMs primary with
  | none =>
    rw [hq] at hquantile
    exact ⟨_, hquantile, Function.update_self t _ pcs⟩
  | some qMs =>
    rw [hq] at hquantile
    simp only [afterQuantile] at hquantile ⊢
    split
    · rename_i hlow
      rw [if_pos hlow] at hquantile
      exact ⟨_, hquantile, Function.update_self t _ pcs⟩
    · rename_i hhigh
      rw [if_neg hhigh] at hquantile
      obtain ⟨pcs₁, hallows, hpc₁⟩ := reach_budgetAllows hquantile (Function.update_self t _ pcs)
      by_cases hb : r.budgetAllows = true
      · rw [hb, if_pos rfl] at hpc₁
        have hpick := reach_pickSecondary hallows hpc₁
        rw [hb]
        cases hsec : pickSecondary primary args.pool args.signals with
        | none =>
          rw [hsec] at hpick
          exact hpick
        | some secondary =>
          rw [hsec] at hpick
          exact hpick
      · rw [if_neg hb] at hpc₁
        rw [Bool.not_eq_true] at hb
        rw [hb]
        exact ⟨pcs₁, hallows, hpc₁⟩

theorem reach_route (hs : (threads inner cfg k).Reach NoWrap ⟨r, pcs⟩) (hfree : (pcs t).free)
    (hwrap : r.decisionsTotal.toNat + 1 < 2 ^ 64) (req : Request) (pool : BackendPool) (signals : BackendSignals) :
    ∃ pcs' : Fin k → Pc, (threads inner cfg k).Reach NoWrap ⟨(r.route req pool signals).1, pcs'⟩ ∧
      pcs' t = .routed (r.route req pool signals).2 := by
  have hroute : (threads inner cfg k).Reach NoWrap ⟨r, Function.update pcs t (.inner ⟨pool, signals⟩)⟩ :=
    hs.step (a := .route t pool signals) (if_pos hfree) trivial
  unfold HedgedRouter.route
  obtain ⟨inner', decision⟩ := Router.route r.inner req pool signals
  have hinner : (threads inner cfg k).Reach NoWrap
      ⟨{ r with inner := inner' }, Function.update pcs t (.count ⟨pool, signals⟩ decision)⟩ := by
    refine hroute.step (a := .decide t inner' decision) ?_ trivial
    simp only [threads, Threads.step, Threads.decide, Function.update_self, Function.update_idem]
  have hcount := reach_move hinner (Function.update_self t _ pcs) (fun _ => hwrap) rfl
  cases decision with
  | send primary => exact reach_promote hcount (Function.update_self t _ _)
  | hedge bs => exact ⟨_, hcount, Function.update_self t _ _⟩
  | reject status => exact ⟨_, hcount, Function.update_self t _ _⟩

omit [Router ρ] in
theorem promote_decisionsTotal (r : HedgedRouter ℚ ρ) (primary : BackendId) (pool : BackendPool)
    (signals : BackendSignals) : (r.promote primary pool signals).1.decisionsTotal = r.decisionsTotal := by
  unfold HedgedRouter.promote
  repeat' split
  all_goals rfl

theorem route_decisionsTotal (r : HedgedRouter ℚ ρ) (req : Request) (pool : BackendPool) (signals : BackendSignals) :
    (r.route req pool signals).1.decisionsTotal = r.decisionsTotal + 1 := by
  unfold HedgedRouter.route
  obtain ⟨inner', decision⟩ := Router.route r.inner req pool signals
  cases decision with
  | send primary => exact promote_decisionsTotal _ primary pool signals
  | hedge bs => rfl
  | reject status => rfl

end Sequential

inductive Call where
  | route (req : Request) (pool : BackendPool) (signals : BackendSignals)
  | onResponse (decision : RoutingDecision) (outcome : Outcome)

def call (r : HedgedRouter ℚ ρ) : Call → HedgedRouter ℚ ρ
  | .route req pool signals => (r.route req pool signals).1
  | .onResponse decision outcome => r.onResponse decision outcome

theorem reach_calls {inner : ρ} {cfg : HedgedConfig ℚ} (calls : List Call) {r : HedgedRouter ℚ ρ} {pcs : Fin k → Pc}
    {t : Fin k} (hs : (threads inner cfg k).Reach NoWrap ⟨r, pcs⟩) (hfree : (pcs t).free)
    (hwrap : r.decisionsTotal.toNat + calls.length < 2 ^ 64) :
    ∃ pcs' : Fin k → Pc, (threads inner cfg k).Reach NoWrap ⟨calls.foldl call r, pcs'⟩ := by
  induction calls generalizing r pcs with
  | nil => exact ⟨pcs, hs⟩
  | cons c calls ih =>
    rw [List.length_cons] at hwrap
    cases c with
    | route req pool signals =>
      have hroom : r.decisionsTotal.toNat + 1 < 2 ^ 64 := by omega
      obtain ⟨pcs', hroute, hpc⟩ := reach_route hs hfree hroom req pool signals
      refine ih hroute (by rw [hpc]; rfl) ?_
      rw [call, route_decisionsTotal, toNat_succ hroom]
      omega
    | onResponse decision outcome =>
      refine ih (hs.step (a := .onResponse decision outcome) rfl trivial) hfree ?_
      exact Nat.lt_of_le_of_lt (Nat.add_le_add_left (Nat.le_succ _) _) hwrap

/-- The second part is a run of one thread. -/
theorem hedges_within_budget (inner : ρ) (cfg : HedgedConfig ℚ) :
    (∀ k, 1 ≤ k → ∀ s, (threads inner cfg k).Reach NoWrap s →
      (s.shared.hedgesTotal.toNat : ℚ) < max cfg.hedgeMaxFraction 0 * s.shared.decisionsTotal.toNat + k) ∧
    ∀ calls : List Call, calls.length < 2 ^ 64 →
      let r := calls.foldl call { inner := inner, cfg := cfg }
      (r.hedgesTotal.toNat : ℚ) < max cfg.hedgeMaxFraction 0 * r.decisionsTotal.toNat + 1 := by
  have hall : ∀ k, 1 ≤ k → ∀ s, (threads inner cfg k).Reach NoWrap s →
      (s.shared.hedgesTotal.toNat : ℚ) < max cfg.hedgeMaxFraction 0 * s.shared.decisionsTotal.toNat + k :=
    fun k hk s hs => (budgeted_of_reach hk hs).hedges_lt
  refine ⟨hall, fun calls hlen => ?_⟩
  obtain ⟨pcs', hs⟩ := reach_calls calls (.init : (threads inner cfg 1).Reach NoWrap _) (t := 0) rfl
    (by simpa using hlen)
  simpa using hall 1 le_rfl _ hs

/-! ## Runs of two backends -/

/-- Enough observations for a quantile of both backends, of 100 ms each. -/
def warmUp : List Call :=
  [⟨0⟩, ⟨1⟩].flatMap fun b => List.replicate 5 (.onResponse (.send b) ⟨b, none, 100000000, true⟩)

def twoHedges : List Call := List.replicate 2 (.route ⟨.empty⟩ ⟨[⟨0⟩, ⟨1⟩]⟩ ⟨[]⟩)

def always : HedgedConfig ℚ := { hedgeMaxFraction := 1, warmupObservations := 5 }

theorem twoHedges_counted :
    let r := (warmUp ++ twoHedges).foldl call { inner := RoundRobinRouter.mk 0, cfg := always }
    r.hedgesTotal = 2 ∧ r.decisionsTotal = 2 := by
  decide +kernel

theorem hedges_within_budget_two :
    let r := (warmUp ++ twoHedges).foldl call { inner := RoundRobinRouter.mk 0, cfg := always }
    (r.hedgesTotal.toNat : ℚ) < max 1 0 * r.decisionsTotal.toNat + 1 :=
  (hedges_within_budget (RoundRobinRouter.mk 0) always).2 (warmUp ++ twoHedges) (by decide)

theorem route_empty (r : HedgedRouter ℚ RoundRobinRouter) (req : Request) (signals : BackendSignals) :
    (r.route req ⟨[]⟩ signals).1 = { r with decisionsTotal := r.decisionsTotal + 1 } := rfl

theorem calls_empty (n : Nat) (r : HedgedRouter ℚ RoundRobinRouter) :
    (List.replicate n (.route ⟨.empty⟩ ⟨[]⟩ ⟨[]⟩)).foldl call r =
      { r with decisionsTotal := r.decisionsTotal + UInt64.ofNat n } := by
  induction n generalizing r with
  | zero => simp
  | succ n ih =>
    have hadd : r.decisionsTotal + 1 + UInt64.ofNat n = r.decisionsTotal + UInt64.ofNat (n + 1) := by
      rw [UInt64.ofNat_add, UInt64.add_assoc, UInt64.add_comm 1]
      rfl
    rw [List.replicate_succ, List.foldl_cons, ih, call, route_empty]
    simp only [hadd]

/-- A fraction below zero, and a counter of decisions that has wrapped around. -/
theorem hedges_over_budget :
    (∃ s, (threads (RoundRobinRouter.mk 0) { hedgeMaxFraction := (-1 : ℚ) } 1).Reachable s ∧
      ¬ ((s.shared.hedgesTotal.toNat : ℚ) < -1 * s.shared.decisionsTotal.toNat + 1)) ∧
    ∃ calls : List Call,
      let r := calls.foldl call { inner := RoundRobinRouter.mk 0, cfg := always }
      ¬ ((r.hedgesTotal.toNat : ℚ) ≤ 1 * r.decisionsTotal.toNat + 1) := by
  constructor
  · have hrun : ((threads (RoundRobinRouter.mk 0) { hedgeMaxFraction := (-1 : ℚ) } 1).run
        [.route 0 ⟨[⟨0⟩, ⟨1⟩]⟩ ⟨[]⟩, .decide 0 ⟨1⟩ (.send ⟨0⟩), .move 0]).map (fun s =>
          !decide ((s.shared.hedgesTotal.toNat : ℚ) < -1 * s.shared.decisionsTotal.toNat + 1)) = some true := by
      decide +kernel
    obtain ⟨s, hs, hlt⟩ := Machine.exists_of_run hrun
    exact ⟨s, hs, by simpa using hlt⟩
  · refine ⟨warmUp ++ twoHedges ++ List.replicate (2 ^ 64 - 2) (.route ⟨.empty⟩ ⟨[]⟩ ⟨[]⟩), ?_⟩
    obtain ⟨hhedges, hdecisions⟩ := twoHedges_counted
    rw [List.foldl_append, calls_empty, hhedges, hdecisions]
    decide +kernel

end Riftgate.Hedged
