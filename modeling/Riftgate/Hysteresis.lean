import Mathlib.Data.List.Induction
import Riftgate.Lib.Runs
import Riftgate.Code.Backpressure

/-!
# When load is shed

The flag is set by a queue at its high mark, and cleared by one at its low mark. Between the marks it stays, however
the calls interleave.
-/

open Lib

namespace Riftgate.Backpressure

variable (p : HighWaterPolicy)

/-! ## One caller at a time -/

/-- The flag after calls that have found these depths. -/
def HighWaterPolicy.after (depths : List Nat) : Bool := depths.foldl (fun shedding d => (p.onEnqueue shedding d).1) false

/-- The queue has been at its high mark, and since then above its low mark. -/
def HighWaterPolicy.Full (depths : List Nat) : Prop :=
  ∃ pre d post, depths = pre ++ d :: post ∧ p.highWater ≤ d ∧ ∀ e ∈ post, p.lowWater < e

theorem full_concat (depths : List Nat) (d : Nat) :
    p.Full (depths ++ [d]) ↔ p.highWater ≤ d ∨ p.Full depths ∧ p.lowWater < d := by
  constructor
  · rintro ⟨pre, e, post, heq, hhigh, hlow⟩
    rcases List.eq_nil_or_concat post with rfl | ⟨post, f, rfl⟩
    · obtain ⟨rfl, he⟩ := List.append_inj' heq rfl
      cases he
      exact Or.inl hhigh
    · rw [List.concat_eq_append] at heq hlow
      rw [← List.cons_append, ← List.append_assoc] at heq
      obtain ⟨rfl, hf⟩ := List.append_inj' heq rfl
      cases hf
      refine Or.inr ⟨⟨pre, e, post, rfl, hhigh, fun x hx => hlow x (List.mem_append_left _ hx)⟩, hlow d ?_⟩
      exact List.mem_append_right _ (List.mem_singleton_self d)
  · rintro (hhigh | ⟨⟨pre, e, post, rfl, hhigh, hlow⟩, hd⟩)
    · exact ⟨depths, d, [], rfl, hhigh, fun _ h => absurd h List.not_mem_nil⟩
    · refine ⟨pre, e, post ++ [d], by simp, hhigh, fun x hx => ?_⟩
      rcases List.mem_append.mp hx with hx | hx
      · exact hlow x hx
      · rw [List.mem_singleton.mp hx]
        exact hd

theorem after_concat (depths : List Nat) (d : Nat) :
    p.after (depths ++ [d]) = p.newShedding (p.after depths) d := by
  simp [HighWaterPolicy.after, List.foldl_append, HighWaterPolicy.onEnqueue]

theorem after_iff (depths : List Nat) : p.after depths = true ↔ p.Full depths := by
  induction depths using List.reverseRecOn with
  | nil =>
    refine iff_of_false Bool.false_ne_true ?_
    rintro ⟨pre, d, post, h, -⟩
    cases pre <;> cases h
  | append_singleton depths d ih =>
    rw [full_concat, ← ih]
    rw [after_concat]
    cases p.after depths with
    | false => simp [HighWaterPolicy.newShedding]
    | true =>
      have := p.low_lt_high
      simp only [HighWaterPolicy.newShedding, if_true, decide_eq_true_eq, true_and]
      omega

/-- **Hysteresis.** After calls that have found any depths, load is shed when the queue has been at its high mark and
since then above its low mark. Each call is answered as the flag is after it. -/
theorem onEnqueue_after (depths : List Nat) :
    (p.after depths = true ↔
      ∃ pre d post, depths = pre ++ d :: post ∧ p.highWater ≤ d ∧ ∀ e ∈ post, p.lowWater < e) ∧
    ∀ depth,
      let full := ∃ pre d post, depths ++ [depth] = pre ++ d :: post ∧ p.highWater ≤ d ∧ ∀ e ∈ post, p.lowWater < e
      (full → (p.onEnqueue (p.after depths) depth).2 = .reject .queueFull p.retryAfter) ∧
        (¬ full → (p.onEnqueue (p.after depths) depth).2 = .admitted) := by
  refine ⟨after_iff p depths, fun depth => ?_⟩
  intro full
  have hfull : p.newShedding (p.after depths) depth = true ↔ full := by
    rw [← after_concat]
    exact after_iff p (depths ++ [depth])
  constructor
  · intro h
    simp [HighWaterPolicy.onEnqueue, HighWaterPolicy.decision, hfull.mpr h]
  · intro h
    have hfalse : p.newShedding (p.after depths) depth = false := Bool.eq_false_iff.mpr fun ht => h (hfull.mp ht)
    simp [HighWaterPolicy.onEnqueue, HighWaterPolicy.decision, hfalse]

/-! ## Many callers -/

/-- The flag is `b` and will stay so: no call that has loaded it is about to change it. The calls that were idle in
`s` have been answered as `b` says. -/
structure Steady (s : State) (b : Bool) (t : State) : Prop where
  shedding : t.shedding = b
  loaded : ∀ i depth, t.calls i = .loaded depth b → p.newShedding b depth = b
  idle : ∀ i, s.calls i = .idle →
    t.calls i = .idle ∨ (∃ depth, t.calls i = .loaded depth b) ∨ t.calls i = .returned (p.decision b)

variable {p}

theorem Steady.update {s t : State} {b : Bool} (h : Steady p s b t) {i : Nat} {call : Call}
    (hloaded : ∀ depth, call = .loaded depth b → p.newShedding b depth = b)
    (hidle : s.calls i = .idle → (∃ depth, call = .loaded depth b) ∨ call = .returned (p.decision b)) :
    Steady p s b { shedding := b, calls := Function.update t.calls i call } where
  shedding := rfl
  loaded j depth hj := by
    simp only at hj
    by_cases hij : j = i
    · subst hij
      rw [Function.update_self] at hj
      exact hloaded depth hj
    · rw [Function.update_of_ne hij] at hj
      exact h.loaded j depth hj
  idle j hj := by
    simp only
    by_cases hij : j = i
    · subst hij
      rw [Function.update_self]
      exact Or.inr (hidle hj)
    · rw [Function.update_of_ne hij]
      exact h.idle j hj

theorem Steady.step {s t t' : State} {b : Bool} (h : Steady p s b t) {a : Label}
    (ha : ∀ i depth, a = .load i depth → p.newShedding b depth = b) (hstep : t.step p a = some t') :
    Steady p s b t' := by
  cases a with
  | load i depth =>
    simp only [State.step] at hstep
    split at hstep
    · cases hstep
      rw [h.shedding]
      refine h.update (fun d hd => ?_) fun _ => Or.inl ⟨depth, rfl⟩
      cases hd
      exact ha i depth rfl
    · cases hstep
  | store i =>
    simp only [State.step] at hstep
    split at hstep
    · rename_i depth loaded hi
      cases hstep
      -- A call that has loaded `b` keeps it, and one that has not can only set it.
      have hflag : (if p.newShedding loaded depth ≠ loaded then p.newShedding loaded depth else t.shedding) = b := by
        by_cases hb : loaded = b
        · subst hb
          rw [if_neg (not_not.mpr (h.loaded i depth hi))]
          exact h.shedding
        · split
          · rename_i hne
            exact (Bool.eq_not.mpr hne).trans (Bool.eq_not.mpr (Ne.symm hb)).symm
          · exact h.shedding
      rw [hflag]
      refine h.update nofun fun hs => Or.inr ?_
      rcases h.idle i hs with hidle | ⟨d, hd⟩ | hr
      · cases hi.symm.trans hidle
      · cases hi.symm.trans hd
        rw [h.loaded i depth hd]
      · cases hi.symm.trans hr
    · cases hstep

/-- **Between the marks.** Let the flag be `b`, and let no call that has loaded it be about to change it. As long as
all calls find depths that keep `b`, it stays, and each call that begins is answered as it says. -/
theorem between_marks {s s' : State} {b : Bool} {labels : List Label} (hflag : s.shedding = b)
    (hloaded : ∀ i depth, s.calls i = .loaded depth b → p.newShedding b depth = b)
    (hdepths : ∀ i depth, Label.load i depth ∈ labels → p.newShedding b depth = b)
    (hrun : (policy p).runFrom s labels = some s') :
    s'.shedding = b ∧ ∀ i answer, s.calls i = .idle → s'.calls i = .returned answer → answer = p.decision b := by
  have h : Steady p s b s' := by
    refine Machine.runFrom_invariant (I := Steady p s b)
      (p := fun a => ∀ i depth, a = .load i depth → p.newShedding b depth = b)
      (fun t a t' ht ha hstep => ht.step ha hstep) ⟨hflag, hloaded, fun i hi => Or.inl hi⟩ ?_ hrun
    rintro a hmem i depth rfl
    exact hdepths i depth hmem
  refine ⟨h.shedding, fun i answer hi hanswer => ?_⟩
  rcases h.idle i hi with hidle | ⟨d, hd⟩ | hr
  · cases hanswer.symm.trans hidle
  · cases hanswer.symm.trans hd
  · cases hanswer.symm.trans hr
    rfl

def tenToFive : HighWaterPolicy := ⟨10, 5, 25, by decide, by decide⟩

/-- One call has loaded the flag before it was set, and another one after that. -/
def inFlight : State where
  shedding := true
  calls := fun i => if i = 2 then .loaded 12 false else if i = 3 then .loaded 7 true else .idle

/-- Two more calls find a queue between the marks. -/
def betweenMarks : List Label := [.load 0 9, .store 2, .load 1 6, .store 1, .store 3, .store 0]

theorem betweenMarks_isSome : ((policy tenToFive).runFrom inFlight betweenMarks).isSome = true := by decide

theorem betweenMarks_rejected :
    (((policy tenToFive).runFrom inFlight betweenMarks).get betweenMarks_isSome).shedding = true ∧
      ∀ i answer, inFlight.calls i = .idle →
        (((policy tenToFive).runFrom inFlight betweenMarks).get betweenMarks_isSome).calls i =
          .returned answer → answer = .reject .queueFull 25 := by
  refine between_marks (p := tenToFive) (b := true) rfl (fun i depth h => ?_) ?_ (Option.some_get betweenMarks_isSome).symm
  · simp only [inFlight] at h
    split_ifs at h <;> cases h
    rfl
  · intro i depth hmem
    simp only [betweenMarks, List.mem_cons, Label.load.injEq, reduceCtorEq, List.not_mem_nil, or_false, false_or] at hmem
    rcases hmem with ⟨-, rfl⟩ | ⟨-, rfl⟩ <;> rfl

end Riftgate.Backpressure
