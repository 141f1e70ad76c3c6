import Mathlib.Data.List.Basic
import Mathlib.Tactic

/-!
# Streaming machines

A machine reads one input at a time, keeps a state and emits a list of outputs. An input offered in
two parts with the carried state is the input offered whole (`run_append`). An invariant of the step
is an invariant of the run (`run_invariant`), and what a run emits at step `i` is what the step emits
from the state after the first `i` inputs (`run_output`).
-/

namespace Ds4.Lib.Machine

variable {σ α β : Type*} (step : σ → α → σ × List β)

/-- The final state and all outputs of an input. -/
def run : σ → List α → σ × List β
  | s, [] => (s, [])
  | s, a :: as =>
    let r := run (step s a).1 as
    (r.1, (step s a).2 ++ r.2)

@[simp] theorem run_nil (s : σ) : run step s [] = (s, []) := rfl

theorem run_cons (s : σ) (a : α) (as : List α) :
    run step s (a :: as) = ((run step (step s a).1 as).1, (step s a).2 ++ (run step (step s a).1 as).2) :=
  rfl

/-- **The split law.** -/
theorem run_append (s : σ) (as bs : List α) :
    run step s (as ++ bs) =
      ((run step (run step s as).1 bs).1, (run step s as).2 ++ (run step (run step s as).1 bs).2) := by
  induction as generalizing s with
  | nil => rfl
  | cons a as ih => simp only [List.cons_append, run_cons, ih, List.append_assoc]

/-- An invariant that every step on an admitted input keeps holds after every run on such inputs. -/
theorem run_invariant (I : σ → Prop) (ok : α → Prop)
    (hstep : ∀ s a, I s → ok a → I (step s a).1) {s : σ} {as : List α} (hs : I s)
    (has : ∀ a ∈ as, ok a) : I (run step s as).1 := by
  induction as generalizing s with
  | nil => exact hs
  | cons a as ih =>
    exact ih (hstep s a hs (has a (by simp))) fun b hb => has b (by simp [hb])

/-- When every step emits `n` outputs, the output at `i * n + c` is output `c` of the `i`-th step. -/
theorem run_output {n : Nat} (hn : ∀ s a, (step s a).2.length = n) (s : σ) (as : List α) (i c : Nat)
    (hi : i < as.length) (hc : c < n) :
    (run step s as).2[i * n + c]? =
      (step (run step s (as.take i)).1 (as.get ⟨i, hi⟩)).2[c]? := by
  induction as generalizing s i with
  | nil => simp at hi
  | cons a as ih =>
    cases i with
    | zero =>
      rw [run_cons, Nat.zero_mul, Nat.zero_add]
      exact List.getElem?_append_left (by rw [hn]; exact hc)
    | succ i =>
      rw [run_cons, List.getElem?_append_right (by rw [hn, Nat.succ_mul]; omega), hn,
        show (i + 1) * n + c - n = i * n + c by rw [Nat.succ_mul]; omega]
      exact ih (step s a).1 i (by simpa using hi)

theorem run_length {n : Nat} (hn : ∀ s a, (step s a).2.length = n) (s : σ) (as : List α) :
    (run step s as).2.length = as.length * n := by
  induction as generalizing s with
  | nil => simp
  | cons a as ih => rw [run_cons, List.length_append, hn, ih, List.length_cons, Nat.succ_mul]; omega

end Ds4.Lib.Machine
