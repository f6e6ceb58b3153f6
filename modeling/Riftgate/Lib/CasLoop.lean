import Mathlib.Logic.Function.Basic
import Riftgate.Lib.Machine

/-!
# Loops that compare and exchange

Threads share one cell. A call loads the cell, computes what it expects there and what it wants to store, and exchanges
them. When the cell holds something else, it starts over. Each load and each exchange is a step.
-/

namespace Lib.CasLoop

variable {α : Type}

inductive Pc (α : Type) where
  | idle
  | head -- of the loop
  | loaded (seen : α)
  | returned (value : α)
  deriving DecidableEq, Repr

structure State (α : Type) where
  cell : α
  pcs : Nat → Pc α := fun _ => .idle

inductive Label where
  | call (t : Nat)
  | load (t : Nat)
  | exchange (t : Nat)
  deriving DecidableEq, Repr

def State.set (s : State α) (t : Nat) (pc : Pc α) : State α := { s with pcs := Function.update s.pcs t pc }

@[simp] theorem State.set_cell (s : State α) (t : Nat) (pc : Pc α) : (s.set t pc).cell = s.cell := rfl

@[simp] theorem State.set_pcs_self (s : State α) (t : Nat) (pc : Pc α) : (s.set t pc).pcs t = pc :=
  Function.update_self ..

@[simp] theorem State.set_set (s : State α) (t : Nat) (pc pc' : Pc α) : (s.set t pc).set t pc' = s.set t pc' := by
  simp only [State.set, Function.update_idem]

theorem State.set_pcs_of_ne {s : State α} {t u : Nat} (h : u ≠ t) (pc : Pc α) : (s.set t pc).pcs u = s.pcs u :=
  Function.update_of_ne h ..

/-- `attempt` is what the exchange expects after a load, and what it stores and returns. -/
def State.step [DecidableEq α] (attempt : α → α × α) (s : State α) : Label → Option (State α)
  | .call t =>
    match s.pcs t with
    | .idle | .returned _ => some (s.set t .head)
    | .head | .loaded _ => none
  | .load t =>
    match s.pcs t with
    | .head => some (s.set t (.loaded s.cell))
    | _ => none
  | .exchange t =>
    match s.pcs t with
    | .loaded seen =>
      let (expected, next) := attempt seen
      some (if s.cell = expected then { s with cell := next }.set t (.returned next) else s.set t .head)
    | _ => none

def threads [DecidableEq α] (attempt : α → α × α) (init : α) : Machine (State α) Label where
  init := { cell := init }
  step := State.step attempt

/-! ## What a step is -/

inductive Steps (attempt : α → α × α) (s : State α) : Label → State α → Prop where
  | call {t : Nat} (hpc : s.pcs t = .idle ∨ ∃ value, s.pcs t = .returned value) :
      Steps attempt s (.call t) (s.set t .head)
  | load {t : Nat} (hpc : s.pcs t = .head) : Steps attempt s (.load t) (s.set t (.loaded s.cell))
  | stored {t : Nat} {seen : α} (hpc : s.pcs t = .loaded seen) (hcell : s.cell = (attempt seen).1) :
      Steps attempt s (.exchange t) ({ s with cell := (attempt seen).2 }.set t (.returned (attempt seen).2))
  | failed {t : Nat} {seen : α} (hpc : s.pcs t = .loaded seen) (hcell : s.cell ≠ (attempt seen).1) :
      Steps attempt s (.exchange t) (s.set t .head)

variable {attempt : α → α × α} {s s' : State α} {t : Nat}

/-! ## What a step keeps -/

/-- `P` holds of the cell, and of all that threads have loaded from it. -/
structure Holds (P : α → Prop) (s : State α) : Prop where
  cell : P s.cell
  loaded : ∀ t seen, s.pcs t = .loaded seen → P seen

theorem Holds.set {P : α → Prop} (h : Holds P s) {pc : Pc α} (hpc : ∀ seen, pc = .loaded seen → P seen) :
    Holds P (s.set t pc) := by
  refine ⟨h.cell, fun u seen hu => ?_⟩
  by_cases hut : u = t
  · subst hut
    rw [State.set_pcs_self] at hu
    exact hpc seen hu
  · rw [State.set_pcs_of_ne hut] at hu
    exact h.loaded u seen hu

theorem Holds.step {P : α → Prop} (hnext : ∀ v, P v → P (attempt v).2) (h : Holds P s) {a : Label}
    (hstep : Steps attempt s a s') : Holds P s' := by
  cases hstep with
  | call _ => exact h.set nofun
  | load _ =>
    refine h.set fun seen heq => ?_
    cases heq
    exact h.cell
  | @stored t seen hpc _ =>
    have hstored : Holds P { s with cell := (attempt seen).2 } := ⟨hnext seen (h.loaded t seen hpc), h.loaded⟩
    exact hstored.set nofun
  | failed _ _ => exact h.set nofun

theorem loaded_of_step {seen : α} {a : Label} (hpc : s.pcs t = .loaded seen) (ha : a ≠ .exchange t)
    (hstep : Steps attempt s a s') : s'.pcs t = .loaded seen := by
  have hother : ∀ (cell : α) (u : Nat) (pc : Pc α), u ≠ t → ({ s with cell := cell }.set u pc).pcs t = .loaded seen :=
    fun cell u pc hu => (State.set_pcs_of_ne (Ne.symm hu) pc).trans hpc
  cases hstep with
  | @call u hu =>
    refine hother s.cell u _ ?_
    rintro rfl
    rw [hpc] at hu
    rcases hu with hu | ⟨value, hu⟩ <;> cases hu
  | @load u hu =>
    refine hother s.cell u _ ?_
    rintro rfl
    rw [hpc] at hu
    cases hu
  | @stored u seen' _ _ => exact hother _ u _ fun hu => ha (by rw [hu])
  | @failed u seen' _ _ => exact hother s.cell u _ fun hu => ha (by rw [hu])

/-! ## Runs -/

variable [DecidableEq α] {init : α}

theorem load_eq (h : s.pcs t = .head) : s.step attempt (.load t) = some (s.set t (.loaded s.cell)) := by
  rw [State.step, h]

theorem exchange_stored {seen : α} (h : s.pcs t = .loaded seen) (hcell : s.cell = (attempt seen).1) :
    s.step attempt (.exchange t) =
      some ({ s with cell := (attempt seen).2 }.set t (.returned (attempt seen).2)) := by
  rw [State.step, h]
  simp only [if_pos hcell]

theorem exchange_failed {seen : α} (h : s.pcs t = .loaded seen) (hcell : s.cell ≠ (attempt seen).1) :
    s.step attempt (.exchange t) = some (s.set t .head) := by
  rw [State.step, h]
  simp only [if_neg hcell]

theorem steps_of_step {a : Label} (h : s.step attempt a = some s') : Steps attempt s a s' := by
  cases a with
  | call t =>
    rw [State.step] at h
    split at h
    · rename_i hpc
      cases h
      exact .call (Or.inl hpc)
    · rename_i value hpc
      cases h
      exact .call (Or.inr ⟨value, hpc⟩)
    · cases h
    · cases h
  | load t =>
    cases hpc : s.pcs t with
    | head =>
      rw [load_eq hpc] at h
      cases h
      exact .load hpc
    | idle | loaded | returned =>
      rw [State.step, hpc] at h
      cases h
  | exchange t =>
    cases hpc : s.pcs t with
    | loaded seen =>
      by_cases hcell : s.cell = (attempt seen).1
      · rw [exchange_stored hpc hcell] at h
        cases h
        exact .stored hpc hcell
      · rw [exchange_failed hpc hcell] at h
        cases h
        exact .failed hpc hcell
    | idle | head | returned =>
      rw [State.step, hpc] at h
      cases h

/-- The rule for what holds of the cell. -/
theorem holds_of_reachable {P : α → Prop} (hinit : P init) (hnext : ∀ v, P v → P (attempt v).2)
    (hs : (threads attempt init).Reachable s) : Holds P s :=
  Machine.Reachable.invariant (I := Holds P) ⟨hinit, fun _ _ hpc => by cases hpc⟩
    (fun _ _ _ hi hstep => hi.step hnext (steps_of_step hstep)) hs

theorem loaded_of_runFrom {seen : α} {later : List Label} (hpc : s.pcs t = .loaded seen)
    (hlater : ∀ a ∈ later, a ≠ .exchange t) (hrun : (threads attempt init).runFrom s later = some s') :
    s'.pcs t = .loaded seen := by
  induction later generalizing s with
  | nil =>
    cases hrun
    exact hpc
  | cons a later ih =>
    rw [List.forall_mem_cons] at hlater
    obtain ⟨next, hstep, hrun⟩ := Option.bind_eq_some_iff.mp hrun
    exact ih (loaded_of_step hpc hlater.1 (steps_of_step hstep)) hlater.2 hrun

theorem exchange_of_unchanged {loaded : State α} {later : List Label} (hexact : (attempt s.cell).1 = s.cell)
    (hload : (threads attempt init).step s (.load t) = some loaded) (hlater : ∀ a ∈ later, a ≠ .exchange t)
    (hrun : (threads attempt init).runFrom loaded later = some s') (hcell : s'.cell = s.cell) :
    (threads attempt init).step s' (.exchange t) =
      some ({ s' with cell := (attempt s.cell).2 }.set t (.returned (attempt s.cell).2)) := by
  have hsteps : Steps attempt s (.load t) loaded := steps_of_step hload
  cases hsteps
  have hpc : s'.pcs t = .loaded s.cell := loaded_of_runFrom (State.set_pcs_self s t (.loaded s.cell)) hlater hrun
  exact exchange_stored hpc (hcell.trans hexact.symm)

theorem run_alone (hexact : (attempt s.cell).1 = s.cell) (hidle : s.pcs t = .idle) :
    (threads attempt init).runFrom s [.call t, .load t, .exchange t] =
      some ({ s with cell := (attempt s.cell).2 }.set t (.returned (attempt s.cell).2)) := by
  have hcall : s.step attempt (.call t) = some (s.set t .head) := by
    rw [State.step, hidle]
  have hload : (s.set t .head).step attempt (.load t) = some (s.set t (.loaded s.cell)) := by
    rw [load_eq (State.set_pcs_self s t .head), State.set_set, State.set_cell]
  have hexchange : (s.set t (.loaded s.cell)).step attempt (.exchange t) =
      some ({ s with cell := (attempt s.cell).2 }.set t (.returned (attempt s.cell).2)) := by
    rw [exchange_stored (State.set_pcs_self s t (.loaded s.cell)) hexact.symm]
    simp only [State.set, Function.update_idem]
  simp only [Machine.runFrom, threads, hcall, hload, hexchange, Option.bind_some]

end Lib.CasLoop
