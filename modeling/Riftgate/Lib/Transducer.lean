import Mathlib.Data.List.Basic

/-!
# Input in pieces

A consumer takes its input in pieces and answers each with some output. It does not see the pieces if it goes
through its input symbol by symbol.
-/

namespace Lib

variable {σ α β : Type}

/-- One piece after the other. -/
def feeds (feed : σ → List α → σ × List β) : σ → List (List α) → σ × List β
  | s, [] => (s, [])
  | s, c :: cs => ((feeds feed (feed s c).1 cs).1, (feed s c).2 ++ (feeds feed (feed s c).1 cs).2)

@[simp] theorem feeds_nil (feed : σ → List α → σ × List β) (s : σ) : feeds feed s [] = (s, []) := rfl

theorem feeds_cons (feed : σ → List α → σ × List β) (s : σ) (c : List α) (cs : List (List α)) :
    feeds feed s (c :: cs) =
      ((feeds feed (feed s c).1 cs).1, (feed s c).2 ++ (feeds feed (feed s c).1 cs).2) := rfl

theorem feeds_append (feed : σ → List α → σ × List β) (s : σ) (cs cs' : List (List α)) :
    feeds feed s (cs ++ cs') = ((feeds feed (feeds feed s cs).1 cs').1,
      (feeds feed s cs).2 ++ (feeds feed (feeds feed s cs).1 cs').2) := by
  induction cs generalizing s with
  | nil => rfl
  | cons c cs ih => rw [List.cons_append, feeds_cons, ih, feeds_cons, List.append_assoc]

/-- Symbol by symbol. -/
def run (step : σ → α → σ × List β) : σ → List α → σ × List β
  | s, [] => (s, [])
  | s, a :: l => ((run step (step s a).1 l).1, (step s a).2 ++ (run step (step s a).1 l).2)

theorem run_cons (step : σ → α → σ × List β) (s : σ) (a : α) (l : List α) :
    run step s (a :: l) = ((run step (step s a).1 l).1, (step s a).2 ++ (run step (step s a).1 l).2) := rfl

theorem run_append (step : σ → α → σ × List β) (s : σ) (l l' : List α) :
    run step s (l ++ l') =
      ((run step (run step s l).1 l').1, (run step s l).2 ++ (run step (run step s l).1 l').2) := by
  induction l generalizing s with
  | nil => rfl
  | cons a l ih => rw [List.cons_append, run_cons, ih, run_cons, List.append_assoc]

theorem run_of_terminal {step : σ → α → σ × List β} {s : σ} (h : ∀ a, step s a = (s, [])) (l : List α) :
    run step s l = (s, []) := by
  induction l with
  | nil => rfl
  | cons a l ih => rw [run_cons, h a, ih, List.append_nil]

/-- **Where the cuts are does not matter.** The consumer may have more state than what it computes with: `view`
is what counts, and `Ok` holds of a state that it can be in. -/
theorem feeds_eq_run {τ : Type} {feed : τ → List α → τ × List β} {step : σ → α → σ × List β} {view : τ → σ}
    {Ok : τ → Prop} (hfeed : ∀ t c, Ok t → Ok (feed t c).1 ∧
      run step (view t) c = (view (feed t c).1, (feed t c).2)) (t : τ) (ht : Ok t) (cs : List (List α)) :
    run step (view t) cs.flatten = (view (feeds feed t cs).1, (feeds feed t cs).2) := by
  induction cs generalizing t with
  | nil => rfl
  | cons c cs ih =>
    obtain ⟨hok, hrun⟩ := hfeed t c ht
    rw [List.flatten_cons, run_append, hrun, ih _ hok, feeds_cons]

end Lib
