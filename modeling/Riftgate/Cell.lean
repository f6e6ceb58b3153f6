import Mathlib.Tactic.SplitIfs
import Riftgate.Lib.Words
import Riftgate.Code.Circuit

/-!
# One backend on its own

The maps are shared by all backends, but each function touches the entries of one backend. What it
does to them depends on nothing else.
-/

open Lib

namespace Riftgate.Circuit

open Router

/-! ## The packed state -/

theorem unpack_pack (tag failures : UInt32) : unpackState (packState tag failures) = (tag, failures) := by
  unfold unpackState packState
  rw [high_halves, low_halves]

theorem tagOpen_ne_closed : tagOpen ≠ tagClosed := by decide

theorem tagHalfOpen_ne_closed : tagHalfOpen ≠ tagClosed := by decide

@[simp] theorem tag_pack (tag failures : UInt32) (n : UInt64) :
    (BackendBreaker.mk (packState tag failures) n).tag = tag := by
  rw [BackendBreaker.tag, unpack_pack]

@[simp] theorem failures_pack (tag failures : UInt32) (n : UInt64) :
    (BackendBreaker.mk (packState tag failures) n).failures = failures := by
  rw [BackendBreaker.failures, unpack_pack]

theorem tagToState_halfOpen_iff {tag : UInt32} : tagToState tag = .halfOpen ↔ tag = tagHalfOpen := by
  unfold tagToState
  by_cases h1 : tag = tagOpen
  · simp [h1, tagOpen, tagHalfOpen]
  · by_cases h2 : tag = tagHalfOpen
    · simp [h2, tagOpen, tagHalfOpen]
    · simp [h1, h2]

theorem tagToState_open_iff {tag : UInt32} : tagToState tag = .open ↔ tag = tagOpen := by
  unfold tagToState
  by_cases h1 : tag = tagOpen
  · simp [h1]
  · by_cases h2 : tag = tagHalfOpen
    · simp [h2, tagOpen, tagHalfOpen]
    · simp [h1, h2]

/-! ## The entries of one backend -/

/-- A backend that is not in the map yet is like one with a new breaker. -/
structure Cell where
  state : UInt64
  inflight : UInt64
  since : Option Nat
  resets : Nat
  deriving DecidableEq, Repr

def Arbiter.cell (a : Arbiter) (b : BackendId) : Cell where
  state := ((a.breakers b).getD {}).state
  inflight := ((a.breakers b).getD {}).halfOpenInflight
  since := a.transitionedAt b
  resets := a.resets b

def Cell.tag (c : Cell) : UInt32 := (unpackState c.state).1

def Cell.failures (c : Cell) : UInt32 := (unpackState c.state).2

def Cell.reset (c : Cell) (tag : UInt32) (since : Option Nat) : Cell := ⟨packState tag 0, 0, since, c.resets + 1⟩

def Cell.look (cfg : CircuitBreakerConfig) (c : Cell) (now : Nat) : Cell :=
  match c.since with
  | none => c
  | some t => if c.tag = tagOpen ∧ cfg.resetTimeout ≤ now - t then c.reset tagHalfOpen (some now) else c

def Cell.record (cfg : CircuitBreakerConfig) (c : Cell) (fails : Bool) (now : Nat) : Cell :=
  if c.tag = tagClosed then
    if fails then
      if cfg.failureThreshold ≤ c.failures + 1 then { c with state := packState tagOpen 0, since := some now }
      else { c with state := packState tagClosed (c.failures + 1) }
    else if 0 < c.failures then { c with state := packState tagClosed 0 } else c
  else if c.tag = tagHalfOpen then
    if fails then c.reset tagOpen (some now) else c.reset tagClosed c.since
  else c

def Cell.probe (c : Cell) : Cell := if c.tag = tagHalfOpen then { c with inflight := c.inflight + 1 } else c

/-! ## Each function works on one cell -/

theorem cell_setBreaker (a : Arbiter) (b b' : BackendId) (br : BackendBreaker) :
    (a.setBreaker b' br).cell b =
      if b = b' then { a.cell b with state := br.state, inflight := br.halfOpenInflight } else a.cell b := by
  by_cases h : b = b'
  · subst h
    simp [Arbiter.cell, Arbiter.setBreaker]
  · simp [Arbiter.cell, Arbiter.setBreaker, h]

theorem cell_setInstant (a : Arbiter) (b b' : BackendId) (now : Nat) :
    (a.setInstant b' now).cell b = if b = b' then { a.cell b with since := some now } else a.cell b := by
  by_cases h : b = b'
  · subst h
    simp [Arbiter.cell, Arbiter.setInstant]
  · simp [Arbiter.cell, Arbiter.setInstant, h]

theorem cell_reset (a : Arbiter) (b b' : BackendId) (tag : UInt32) :
    (a.reset b' tag).cell b = if b = b' then (a.cell b).reset tag (a.cell b).since else a.cell b := by
  by_cases h : b = b'
  · subst h
    simp [Arbiter.cell, Arbiter.reset, Arbiter.setBreaker, Cell.reset]
  · simp [Arbiter.cell, Arbiter.reset, Arbiter.setBreaker, h]

theorem cell_some {a : Arbiter} {b : BackendId} {br : BackendBreaker} (h : a.breakers b = some br) :
    (a.cell b).state = br.state ∧ (a.cell b).inflight = br.halfOpenInflight := by
  simp [Arbiter.cell, h]

theorem cell_none {a : Arbiter} {b : BackendId} (h : a.breakers b = none) : (a.cell b).tag = tagClosed := by
  simp only [Arbiter.cell, Cell.tag, h, Option.getD_none]
  rw [unpack_pack]

theorem cell_ensure (a : Arbiter) (b b' : BackendId) : (ensureBackend a b').cell b = a.cell b := by
  unfold ensureBackend
  rw [cell_setBreaker]
  split
  · rename_i h
    subst h
    rfl
  · rfl

theorem cell_transition (cfg : CircuitBreakerConfig) (a : Arbiter) (b b' : BackendId) (now : Nat) :
    (maybeTransitionOpenToHalfopen cfg a b' now).cell b = if b = b' then (a.cell b).look cfg now else a.cell b := by
  have hnone : a.breakers b' = none ∨ a.transitionedAt b' = none → b = b' → (a.cell b).look cfg now = a.cell b := by
    rintro h rfl
    unfold Cell.look
    split
    · rfl
    · rename_i t ht
      rcases h with h | h
      · rw [if_neg]
        rw [cell_none h]
        exact fun hopen => tagOpen_ne_closed hopen.1.symm
      · simp [Arbiter.cell, h] at ht
  unfold maybeTransitionOpenToHalfopen
  split
  · rename_i br t hbr ht
    by_cases hb : b = b'
    · subst hb
      have htag : (a.cell b).tag = br.tag := by rw [Cell.tag, (cell_some hbr).1, BackendBreaker.tag]
      have hsince : (a.cell b).since = some t := ht
      rw [if_pos rfl, Cell.look, hsince]
      simp only [htag]
      split
      · rw [cell_setInstant, if_pos rfl, cell_reset, if_pos rfl]
        rfl
      · rfl
    · rw [if_neg hb]
      split
      · rw [cell_setInstant, if_neg hb, cell_reset, if_neg hb]
      · rfl
  · rename_i h
    split
    · rename_i hb
      refine (hnone ?_ hb).symm
      by_contra hcon
      push Not at hcon
      obtain ⟨br, hbr⟩ := Option.ne_none_iff_exists'.mp hcon.1
      obtain ⟨t, ht⟩ := Option.ne_none_iff_exists'.mp hcon.2
      exact h br t hbr ht
    · rfl

theorem cell_countProbe (a : Arbiter) (b b' : BackendId) :
    (countProbe a b').cell b = if b = b' then (a.cell b).probe else a.cell b := by
  unfold countProbe
  split
  · rename_i hbr
    split
    · rename_i hb
      subst hb
      rw [Cell.probe, cell_none hbr, if_neg tagHalfOpen_ne_closed.symm]
    · rfl
  · rename_i br hbr
    by_cases hb : b = b'
    · subst hb
      have htag : (a.cell b).tag = br.tag := by rw [Cell.tag, (cell_some hbr).1, BackendBreaker.tag]
      rw [if_pos rfl, Cell.probe, htag]
      split
      · rw [cell_setBreaker, if_pos rfl, ← (cell_some hbr).1, ← (cell_some hbr).2]
      · rfl
    · rw [if_neg hb]
      split
      · rw [cell_setBreaker, if_neg hb]
      · rfl

theorem cell_recordOutcome {cfg : CircuitBreakerConfig} {a : Arbiter} {o : Outcome} {br : BackendBreaker} (now : Nat)
    (hbr : a.breakers o.backend = some br) (b : BackendId) :
    (recordOutcome cfg a o br now).cell b =
      if b = o.backend then (a.cell b).record cfg (outcomeFails o) now else a.cell b := by
  unfold recordOutcome
  by_cases hb : b = o.backend
  · subst hb
    have htag : (a.cell o.backend).tag = br.tag := by rw [Cell.tag, (cell_some hbr).1, BackendBreaker.tag]
    have hfail : (a.cell o.backend).failures = br.failures := by
      rw [Cell.failures, (cell_some hbr).1, BackendBreaker.failures]
    rw [if_pos rfl, Cell.record, htag, hfail]
    simp only
    split_ifs <;> simp only [cell_setInstant, cell_setBreaker, cell_reset, if_true, ← (cell_some hbr).2, Cell.reset]
  · rw [if_neg hb]
    simp only
    split_ifs <;> simp only [cell_setInstant, cell_setBreaker, cell_reset, if_neg hb]

theorem cell_onOutcome (cfg : CircuitBreakerConfig) (a : Arbiter) (o : Outcome) (now : Nat) (b : BackendId) :
    (onOutcome cfg a o now).cell b =
      if b = o.backend then (a.cell b).record cfg (outcomeFails o) now else a.cell b := by
  have hbr : (ensureBackend a o.backend).breakers o.backend = some ((a.breakers o.backend).getD {}) := by
    simp [ensureBackend, Arbiter.setBreaker]
  unfold onOutcome
  simp only [hbr]
  rw [cell_recordOutcome now hbr, cell_ensure]

theorem stateOf_cell (a : Arbiter) (b : BackendId) : a.stateOf b = tagToState (a.cell b).tag := by
  unfold Arbiter.stateOf
  cases h : a.breakers b with
  | none =>
    rw [cell_none h]
    rfl
  | some br =>
    rw [Cell.tag, (cell_some h).1]
    rfl

theorem stateOf_halfOpen_cell {a : Arbiter} {b : BackendId} :
    a.stateOf b = .halfOpen ↔ (a.cell b).tag = tagHalfOpen := by
  rw [stateOf_cell, tagToState_halfOpen_iff]

theorem resets_cell (a : Arbiter) (b : BackendId) : a.resets b = (a.cell b).resets := rfl

/-! ## The loop of `route` over the pool -/

/-- The breaker is open and its time is over. -/
def Cell.Due (cfg : CircuitBreakerConfig) (c : Cell) (now : Nat) : Prop :=
  c.tag = tagOpen ∧ ∃ t, c.since = some t ∧ cfg.resetTimeout ≤ now - t

def Due (cfg : CircuitBreakerConfig) (a : Arbiter) (b : BackendId) (now : Nat) : Prop :=
  a.stateOf b = .open ∧ ∃ t, a.transitionedAt b = some t ∧ cfg.resetTimeout ≤ now - t

theorem due_cell {cfg : CircuitBreakerConfig} {a : Arbiter} {b : BackendId} {now : Nat} :
    Due cfg a b now ↔ (a.cell b).Due cfg now := by
  unfold Due Cell.Due
  rw [stateOf_cell, tagToState_open_iff]
  rfl

theorem look_due {cfg : CircuitBreakerConfig} {c : Cell} {now : Nat} (h : c.Due cfg now) :
    c.look cfg now = c.reset tagHalfOpen (some now) := by
  obtain ⟨htag, t, ht, hle⟩ := h
  simp only [Cell.look, ht]
  rw [if_pos ⟨htag, hle⟩]

theorem look_not_due {cfg : CircuitBreakerConfig} {c : Cell} {now : Nat} (h : ¬ c.Due cfg now) :
    c.look cfg now = c := by
  unfold Cell.look
  split
  · rfl
  · rename_i t ht
    rw [if_neg]
    rintro ⟨htag, hle⟩
    exact h ⟨htag, t, ht, hle⟩

theorem looks_cell (cfg : CircuitBreakerConfig) (c : Cell) (times : List Nat) :
    ((∃ now ∈ times, c.Due cfg now) ∧ (times.foldl (Cell.look cfg) c).tag = tagHalfOpen ∧
        (times.foldl (Cell.look cfg) c).inflight = 0) ∨
      ((∀ now ∈ times, ¬ c.Due cfg now) ∧ times.foldl (Cell.look cfg) c = c) := by
  induction times generalizing c with
  | nil => exact Or.inr ⟨by simp, rfl⟩
  | cons now times ih =>
    rw [List.foldl_cons]
    by_cases h : c.Due cfg now
    · rw [look_due h]
      have htag : (c.reset tagHalfOpen (some now)).tag = tagHalfOpen := by
        rw [Cell.tag, Cell.reset, unpack_pack]
      refine Or.inl ⟨⟨now, List.mem_cons_self, h⟩, ?_⟩
      rcases ih (c.reset tagHalfOpen (some now)) with ⟨⟨now', -, hdue⟩, -⟩ | ⟨-, hsame⟩
      · have hopen := hdue.1
        rw [htag] at hopen
        exact absurd hopen (by decide)
      · rw [hsame]
        exact ⟨htag, rfl⟩
    · rw [look_not_due h]
      rcases ih c with ⟨⟨now', hmem, hdue⟩, hafter⟩ | ⟨hnot, hsame⟩
      · exact Or.inl ⟨⟨now', List.mem_cons_of_mem _ hmem, hdue⟩, hafter⟩
      · refine Or.inr ⟨?_, hsame⟩
        rw [List.forall_mem_cons]
        exact ⟨h, hnot⟩

/-- The instants at which the loop looks at a backend. -/
def timesOf (b : BackendId) (looks : List (BackendId × Nat)) : List Nat :=
  looks.filterMap fun look => if look.1 = b then some look.2 else none

theorem mem_timesOf {b : BackendId} {looks : List (BackendId × Nat)} {now : Nat} :
    now ∈ timesOf b looks ↔ (b, now) ∈ looks := by
  simp only [timesOf, List.mem_filterMap, Prod.exists, Option.ite_none_right_eq_some, Option.some.injEq]
  constructor
  · rintro ⟨b', now', hmem, rfl, rfl⟩
    exact hmem
  · intro hmem
    exact ⟨b, now, hmem, rfl, rfl⟩

theorem cell_visit (cfg : CircuitBreakerConfig) (a : Arbiter) (b : BackendId) (looks : List (BackendId × Nat)) :
    (visit cfg a looks).cell b = (timesOf b looks).foldl (Cell.look cfg) (a.cell b) := by
  induction looks generalizing a with
  | nil => rfl
  | cons look looks ih =>
    obtain ⟨b', now⟩ := look
    have hcell := cell_transition cfg (ensureBackend a b') b b' now
    rw [cell_ensure] at hcell
    refine (ih _).trans ?_
    rw [hcell]
    by_cases hb : b = b'
    · subst hb
      simp [timesOf]
    · simp [timesOf, hb, Ne.symm hb]

theorem visit_cases (cfg : CircuitBreakerConfig) (a : Arbiter) (b : BackendId) (looks : List (BackendId × Nat)) :
    ((∃ now, (b, now) ∈ looks ∧ Due cfg a b now) ∧ ((visit cfg a looks).cell b).tag = tagHalfOpen ∧
        ((visit cfg a looks).cell b).inflight = 0) ∨
      ((∀ now, (b, now) ∈ looks → ¬ Due cfg a b now) ∧ (visit cfg a looks).cell b = a.cell b) := by
  have h := looks_cell cfg (a.cell b) (timesOf b looks)
  simpa only [← cell_visit, mem_timesOf, ← due_cell] using h

end Riftgate.Circuit
