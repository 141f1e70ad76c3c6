import Ds4.Sampler.Probabilities

/-!
# Plain decoding

Tokens are drawn one after another, each from the row of probabilities after the tokens before it. A
sequence comes with the product of its chances.
-/

namespace Ds4.Sampler

open Ds4.Lib
open scoped ENNReal

/-- Rows of probabilities, one after any tokens. -/
abbrev Rows := List Nat → Option (Nat → ℝ)

/-- Plain decoding: `k` more tokens, each drawn from the row after the tokens before it. -/
noncomputable def decode (n : Nat) (rows : Rows) : Nat → List Nat → RandProg (List Nat)
  | 0, tokens => .ret tokens
  | k + 1, tokens =>
    match rows tokens with
    | none => .ret tokens
    | some p => (sampleProbabilities p n).bind fun t => decode n rows k (tokens ++ [t])

/-- The expectation of a test after plain decoding up to `len` tokens. -/
noncomputable def after (n : Nat) (rows : Rows) (f : List Nat → ℝ≥0∞) (len : Nat) (tokens : List Nat) :
    ℝ≥0∞ :=
  (decode n rows (len - tokens.length) tokens).expect f

/-- The probabilities after some tokens. -/
noncomputable def rowAt (rows : Rows) (tokens : List Nat) : Nat → ℝ := (rows tokens).getD fun _ => 0

/-- Every row is a distribution of the ids below `n`. -/
structure RowsOk (n : Nat) (rows : Rows) : Prop where
  vocab : 0 < n
  some : ∀ tokens, rows tokens = some (rowAt rows tokens)
  distr : ∀ tokens, Distr n (rowAt rows tokens)

/-- The chance of some tokens behind others, one after another. -/
noncomputable def chance (pr : List Nat → Nat → ℝ) : List Nat → List Nat → ℝ≥0∞
  | _, [] => 1
  | tokens, y :: ys => ENNReal.ofReal (pr tokens y) * chance pr (tokens ++ [y]) ys

theorem chance_append (pr : List Nat → Nat → ℝ) (tokens ys zs : List Nat) :
    chance pr tokens (ys ++ zs) = chance pr tokens ys * chance pr (tokens ++ ys) zs := by
  induction ys generalizing tokens with
  | nil => rw [List.nil_append, List.append_nil, chance, one_mul]
  | cons y ys ih =>
    rw [List.cons_append, chance, chance, ih, mul_assoc, List.append_assoc]
    rfl

theorem chance_ne_top (pr : List Nat → Nat → ℝ) (tokens ys : List Nat) : chance pr tokens ys ≠ ∞ := by
  induction ys generalizing tokens with
  | nil => exact ENNReal.one_ne_top
  | cons y ys ih => exact ENNReal.mul_ne_top ENNReal.ofReal_ne_top (ih _)

section Rows

variable {n : Nat} {rows : Rows} {f : List Nat → ℝ≥0∞} {len : Nat}

theorem RowsOk.after_eq (h : RowsOk n rows) {tokens : List Nat} (hlen : tokens.length < len) :
    after n rows f len tokens =
      ∑ y ∈ Finset.range n, ENNReal.ofReal (rowAt rows tokens y) * after n rows f len (tokens ++ [y]) := by
  obtain ⟨k, hk⟩ := Nat.exists_eq_add_of_lt hlen
  have hdecode : len - tokens.length = k + 1 := by omega
  rw [after, hdecode, decode, h.some]
  simp only [RandProg.expect_bind]
  rw [(h.distr tokens).hasLaw h.vocab]
  refine Finset.sum_congr rfl fun y _ => ?_
  rw [after, List.length_append, List.length_singleton]
  congr 3
  omega

theorem RowsOk.after_only_eq_zero (h : RowsOk n rows) {tokens all : List Nat} (hp : ¬tokens <+: all) :
    after n rows (RandProg.only all) len tokens = 0 := by
  obtain ⟨k, hk⟩ : ∃ k, k = len - tokens.length := ⟨_, rfl⟩
  induction k generalizing tokens with
  | zero =>
    rw [after, ← hk, decode, RandProg.expect_ret, RandProg.only_of_ne]
    rintro rfl
    exact hp List.prefix_rfl
  | succ k ih =>
    rw [h.after_eq (by omega)]
    refine Finset.sum_eq_zero fun y _ => ?_
    rw [ih (fun hpre => hp ((List.prefix_append tokens [y]).trans hpre)) (by simp; omega), mul_zero]

/-- **Plain decoding** draws some tokens with their chance. -/
theorem RowsOk.after_only (h : RowsOk n rows) (tokens ys : List Nat) :
    after n rows (RandProg.only (tokens ++ ys)) (tokens.length + ys.length) tokens =
      chance (rowAt rows) tokens ys := by
  induction ys generalizing tokens with
  | nil =>
    rw [after, List.length_nil, Nat.add_zero, Nat.sub_self, decode, RandProg.expect_ret, List.append_nil,
      RandProg.only_self, chance]
  | cons y ys ih =>
    have hnext := ih (tokens ++ [y])
    rw [List.append_assoc, List.length_append, List.length_singleton, Nat.add_assoc, Nat.add_comm 1] at hnext
    rw [h.after_eq (by simp), chance, ← hnext, Finset.sum_eq_single y]
    · rfl
    · intro x _ hx
      rw [h.after_only_eq_zero, mul_zero]
      rw [List.prefix_append_right_inj, List.cons_prefix_cons]
      exact fun hpre => hx hpre.1
    · intro hy
      rw [(h.distr tokens).out y (by rwa [Finset.mem_range, not_lt] at hy), ENNReal.ofReal_zero, zero_mul]

theorem RowsOk.exists_chance (h : RowsOk n rows) (tokens : List Nat) (k : Nat) :
    ∃ ys : List Nat, ys.length = k ∧ chance (rowAt rows) tokens ys ≠ 0 := by
  induction k generalizing tokens with
  | zero => exact ⟨[], rfl, one_ne_zero⟩
  | succ k ih =>
    obtain ⟨y, -, hy⟩ := Finset.exists_ne_zero_of_sum_ne_zero ((h.distr tokens).sum.trans_ne one_ne_zero)
    obtain ⟨ys, hlen, hys⟩ := ih (tokens ++ [y])
    refine ⟨y :: ys, by rw [List.length_cons, hlen], mul_ne_zero ?_ hys⟩
    exact (ENNReal.ofReal_pos.mpr (lt_of_le_of_ne ((h.distr tokens).nonneg y) (Ne.symm hy))).ne'

theorem RowsOk.chance_le_one (h : RowsOk n rows) (tokens ys : List Nat) :
    chance (rowAt rows) tokens ys ≤ 1 := by
  induction ys generalizing tokens with
  | nil => exact le_rfl
  | cons y ys ih =>
    rw [chance]
    refine mul_le_one' ?_ (ih _)
    by_cases hy : y < n
    · exact (h.distr tokens).ofReal_le_one hy
    · rw [(h.distr tokens).out y (not_lt.mp hy), ENNReal.ofReal_zero]
      exact zero_le_one

theorem RowsOk.after_certain (h : RowsOk n rows) {tokens ys : List Nat}
    (hone : chance (rowAt rows) tokens ys = 1) (hlen : tokens.length + ys.length ≤ len) :
    after n rows f len tokens = after n rows f len (tokens ++ ys) := by
  induction ys generalizing tokens with
  | nil => rw [List.append_nil]
  | cons y ys ih =>
    rw [List.length_cons] at hlen
    rw [chance] at hone
    have hy : y < n := by
      by_contra hout
      rw [(h.distr tokens).out y (not_lt.mp hout), ENNReal.ofReal_zero, zero_mul] at hone
      exact zero_ne_one hone
    have hfirst : ENNReal.ofReal (rowAt rows tokens y) = 1 := by
      refine le_antisymm ((h.distr tokens).ofReal_le_one hy) ?_
      calc (1 : ℝ≥0∞) = _ := hone.symm
        _ ≤ ENNReal.ofReal (rowAt rows tokens y) * 1 := mul_le_mul_right (h.chance_le_one _ _) _
        _ = _ := mul_one _
    rw [hfirst, one_mul] at hone
    have hothers : ∀ x ∈ Finset.range n, x ≠ y → ENNReal.ofReal (rowAt rows tokens x) = 0 := by
      intro x hx hne
      have hsum := (h.distr tokens).sum_ofReal
      rw [← Finset.add_sum_erase _ _ (Finset.mem_range.mpr hy), hfirst] at hsum
      have hzero : ∑ x ∈ (Finset.range n).erase y, ENNReal.ofReal (rowAt rows tokens x) = 0 := by
        refine (ENNReal.add_right_inj ENNReal.one_ne_top).mp ?_
        rw [hsum, add_zero]
      exact Finset.sum_eq_zero_iff.mp hzero x (Finset.mem_erase.mpr ⟨hne, hx⟩)
    rw [h.after_eq (by omega), Finset.sum_eq_single y, hfirst, one_mul]
    · have hrest := ih hone (by rw [List.length_append, List.length_singleton]; omega)
      rw [hrest, List.append_assoc]
      rfl
    · intro x hx hne
      rw [hothers x hx hne, zero_mul]
    · intro hnot
      exact absurd (Finset.mem_range.mpr hy) hnot

end Rows

end Ds4.Sampler
