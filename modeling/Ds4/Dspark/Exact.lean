import Ds4.Dspark.Speculate
import Ds4.Sampler.Agreement

/-!
# Exact speculative sampling

A cycle with exact sampling on the CPU, and plain decoding behind it, is distributed as plain decoding
alone, as long as no block is declined because of the tokens that were drawn for it. The draws of PQ_GPU
are hashes of one key and not uniform: the cycles here run without it.
-/

namespace Ds4.Dspark

open Ds4.Lib Ds4.Sampler
open scoped ENNReal

variable {n : Nat} {c : Cycle n}

namespace Cycle

/-- The cycle runs with exact sampling: it is called on a valid session and not interrupted, and draws on
the CPU. The callers do not ignore the end of sequence when they sample. -/
structure Runs (c : Cycle n) : Prop where
  vocab : 0 < n
  valid : c.valid = true
  cap : 1 ≤ c.cap
  exact : c.exact = true
  temperature : 0 < c.temperature
  pqGpu : c.pqGpu = none
  ignoreEos : c.ignoreEos = false
  going : c.cancelled = true → c.others ≠ 0

/-! ## The distributions -/

/-- The target probabilities after some tokens. -/
noncomputable def p (c : Cycle n) : List Nat → Nat → ℝ := rowAt c.rows

/-- The draft probabilities after some tokens. -/
noncomputable def q (c : Cycle n) (tokens : List Nat) : Nat → ℝ :=
  (c.probs (c.draft tokens)).getD fun _ => 0

theorem probs_distr (hn : 0 < n) (ht : 0 < c.temperature) (row : LogitRow n) :
    ∃ probs, c.probs row = some probs ∧ Distr n probs := by
  have hne : row.val ≠ [] := by
    rw [← List.length_pos_iff, row.property]
    exact hn
  have h := sampleBuildProbabilities_distr Real.exp_pos hne ht c.fullProbs c.topK c.topP c.minP
  rw [row.property] at h
  exact h

theorem Runs.pq_eq (h : c.Runs) : c.pq = none := by
  rw [pq, if_pos h.exact, h.pqGpu]

theorem Runs.drawKey_eq (h : c.Runs) : c.drawKey = .ret 0 := by
  rw [drawKey, h.pq_eq]
  rfl

theorem Runs.drawKeys_eq (h : c.Runs) (k : Nat) : c.drawKeys k = .ret (List.replicate k 0) := by
  induction k with
  | zero => rfl
  | succ k ih =>
    rw [drawKeys, h.drawKey_eq, ih]
    rfl

theorem Runs.draftProbs_eq (h : c.Runs) (tokens : List Nat) :
    c.draftProbs tokens = c.probs (c.draft tokens) := by
  rw [draftProbs, h.pq_eq]
  rfl

theorem keepRows_keys (keys : List UInt64) (kept rest : List Nat) :
    c.keepRows none keys kept rest = c.keepRows none [] kept rest := by
  induction rest generalizing keys kept with
  | nil => rfl
  | cons t rest ih =>
    rw [keepRows, keepRows, ih keys.tail, ih ([] : List UInt64).tail]
    rfl

theorem Runs.p_spec (h : c.Runs) (tokens : List Nat) :
    c.probs (c.target tokens) = some (c.p tokens) ∧ Distr n (c.p tokens) := by
  obtain ⟨probs, hprobs, hdistr⟩ := probs_distr h.vocab h.temperature (c.target tokens)
  rw [p, rowAt, rows, hprobs]
  exact ⟨rfl, hdistr⟩

theorem Runs.rowsOk (h : c.Runs) : RowsOk n c.rows :=
  ⟨h.vocab, fun tokens => (h.p_spec tokens).1, fun tokens => (h.p_spec tokens).2⟩

theorem Runs.q_spec (h : c.Runs) (tokens : List Nat) :
    c.probs (c.draft tokens) = some (c.q tokens) ∧ Distr n (c.q tokens) := by
  obtain ⟨probs, hprobs, hdistr⟩ := probs_distr h.vocab h.temperature (c.draft tokens)
  rw [q, hprobs]
  exact ⟨rfl, hdistr⟩

theorem Runs.keepRows_cons (h : c.Runs) (kept rest : List Nat) (t : Nat) :
    c.keepRows none [] kept (t :: rest) = .draw fun u =>
      if c.p kept t < u * c.q kept t then
        (sampleResidualProbabilities (c.p kept) (c.q kept) n).bind fun y => .ret (some (kept, some y))
      else c.keepRows none [] (kept ++ [t]) rest := by
  rw [keepRows, if_pos h.exact, targetProbs, h.draftProbs_eq, (h.p_spec kept).1, (h.q_spec kept).1]
  rfl

/-! ## Plain decoding -/

section After

variable (c) (f : List Nat → ℝ≥0∞) (len : Nat)

/-- The expectation of a test after plain decoding up to `len` tokens. -/
noncomputable def after (tokens : List Nat) : ℝ≥0∞ :=
  Sampler.after n c.rows f len tokens

/-- The expectation when the residual of a row is drawn from. -/
noncomputable def corrected (kept : List Nat) : ℝ≥0∞ :=
  (sampleResidualProbabilities (c.p kept) (c.q kept) n).expect fun y => c.after f len (kept ++ [y])

/-- The expectation behind what the verification keeps. -/
noncomputable def keptAfter : Option (List Nat × Option Nat) → ℝ≥0∞
  | none => 0
  | some (kept, correction) => c.after f len (kept ++ correction.toList)

/-- The expectation when some tokens are kept and others are to be verified. -/
noncomputable def verified (kept rest : List Nat) : ℝ≥0∞ :=
  (c.keepRows none [] kept rest).expect (c.keptAfter f len)

variable {c f len}

theorem Runs.after_eq (h : c.Runs) {tokens : List Nat} (hlen : tokens.length < len) :
    c.after f len tokens =
      ∑ y ∈ Finset.range n, ENNReal.ofReal (c.p tokens y) * c.after f len (tokens ++ [y]) :=
  h.rowsOk.after_eq hlen

theorem Runs.corrected_eq (h : c.Runs) (kept : List Nat) :
    (∑ y ∈ Finset.range n, (ENNReal.ofReal (c.p kept y) - ENNReal.ofReal (c.q kept y))) *
        c.corrected f len kept =
      ∑ y ∈ Finset.range n, (ENNReal.ofReal (c.p kept y) - ENNReal.ofReal (c.q kept y)) *
        c.after f len (kept ++ [y]) :=
  sampleResidualProbabilities_expect (h.q_spec kept).2.nonneg h.vocab _

/-! ## Verification -/

theorem verified_nil (kept : List Nat) : c.verified f len kept [] = c.after f len kept := by
  rw [verified, keepRows, RandProg.expect_ret, keptAfter, Option.toList_none, List.append_nil]

/-- **One verified row**, weighted by the chance of its draft. -/
theorem Runs.verified_cons (h : c.Runs) (kept rest : List Nat) (t : Nat) :
    ENNReal.ofReal (c.q kept t) * c.verified f len kept (t :: rest) =
      (ENNReal.ofReal (c.q kept t) - ENNReal.ofReal (c.p kept t)) * c.corrected f len kept +
        min (ENNReal.ofReal (c.q kept t)) (ENNReal.ofReal (c.p kept t)) *
          c.verified f len (kept ++ [t]) rest := by
  rw [verified, h.keepRows_cons, RandProg.expect_draw]
  have hbranch : ∀ u : ℝ, (if c.p kept t < u * c.q kept t then
        (sampleResidualProbabilities (c.p kept) (c.q kept) n).bind fun y => .ret (some (kept, some y))
      else c.keepRows none [] (kept ++ [t]) rest).expect (c.keptAfter f len) =
      if c.p kept t < u * c.q kept t then c.corrected f len kept
      else c.verified f len (kept ++ [t]) rest := by
    intro u
    split_ifs
    · rw [RandProg.expect_bind]
      rfl
    · rfl
  simp only [hbranch]
  exact RandProg.lintegral_test ((h.p_spec kept).2.nonneg t) ((h.q_spec kept).2.nonneg t) _ _

theorem Runs.keepRows_congr (h : c.Runs) {g g' : Option (List Nat × Option Nat) → ℝ≥0∞}
    {kept : List Nat} (hg : ∀ kept' correction, kept <+: kept' →
      g (some (kept', correction)) = g' (some (kept', correction))) (rest : List Nat) :
    (c.keepRows none [] kept rest).expect g = (c.keepRows none [] kept rest).expect g' := by
  induction rest generalizing kept with
  | nil => exact hg kept none List.prefix_rfl
  | cons t rest ih =>
    have hnext : (c.keepRows none [] (kept ++ [t]) rest).expect g =
        (c.keepRows none [] (kept ++ [t]) rest).expect g' :=
      ih fun kept' correction hp => hg kept' correction ((List.prefix_append kept [t]).trans hp)
    rw [h.keepRows_cons, RandProg.expect_draw, RandProg.expect_draw]
    congr 1
    funext u
    split_ifs
    · rw [RandProg.expect_bind, RandProg.expect_bind]
      congr 1
      funext y
      exact hg kept (some y) List.prefix_rfl
    · exact hnext

/-! ## The draft -/

/-- The draft behind a token that was drawn. -/
noncomputable def goOn (c : Cycle n) (fuel : Nat) (tokens : List Nat) (t : Nat) :
    RandProg (Option (List Nat)) :=
  if (t : Int) = c.eos then .ret (some (tokens ++ [t])) else c.draftBlock fuel (tokens ++ [t])

/-- The blocks that can be drafted. -/
def Yields (c : Cycle n) : Nat → List Nat → List Nat → Prop
  | 0, tokens, block => block = tokens
  | fuel + 1, tokens, block =>
    (c.Unsure tokens ∧ block = if c.admission.isSome then tokens.take 1 else tokens) ∨
    (¬c.Unsure tokens ∧ ∃ t < n, 0 < c.q tokens t ∧
      if (t : Int) = c.eos then block = tokens ++ [t] else Yields c fuel (tokens ++ [t]) block)

theorem Runs.draftBlock_unsure (h : c.Runs) {tokens : List Nat} (hunsure : c.Unsure tokens) (fuel : Nat) :
    c.draftBlock (fuel + 1) tokens = .ret (some (if c.admission.isSome then tokens.take 1 else tokens)) := by
  rw [draftBlock, h.drawKey_eq, RandProg.bind, if_pos hunsure]

theorem Runs.draftBlock_sure (h : c.Runs) {tokens : List Nat} (hsure : ¬c.Unsure tokens) (fuel : Nat) :
    c.draftBlock (fuel + 1) tokens = (sampleProbabilities (c.q tokens) n).bind (c.goOn fuel tokens) := by
  rw [draftBlock, h.drawKey_eq, RandProg.bind, if_neg hsure, draftToken, if_pos h.exact, h.pq_eq,
    Option.filter_none]
  simp only [(h.q_spec tokens).1, Option.map_some, h.ignoreEos, Bool.false_and, Bool.false_eq_true, if_false]
  rfl

theorem Runs.draftBlock_affine (h : c.Runs) (fuel : Nat) (tokens : List Nat) :
    (c.draftBlock fuel tokens).Affine := by
  induction fuel generalizing tokens with
  | zero => exact RandProg.affine_ret _
  | succ fuel ih =>
    by_cases hunsure : c.Unsure tokens
    · rw [h.draftBlock_unsure hunsure]
      exact RandProg.affine_ret _
    · rw [h.draftBlock_sure hunsure]
      have hq := (h.q_spec tokens).2
      refine (hq.hasLaw h.vocab).affine_bind hq.sum_ofReal fun t => ?_
      rw [goOn]
      split_ifs
      · exact RandProg.affine_ret _
      · exact ih _

theorem Runs.expect_sure (h : c.Runs) {tokens : List Nat} (hsure : ¬c.Unsure tokens) (fuel : Nat)
    (g : Option (List Nat) → ℝ≥0∞) :
    (c.draftBlock (fuel + 1) tokens).expect g =
      ∑ t ∈ Finset.range n, ENNReal.ofReal (c.q tokens t) * (c.goOn fuel tokens t).expect g := by
  rw [h.draftBlock_sure hsure, RandProg.expect_bind, (h.q_spec tokens).2.hasLaw h.vocab]

theorem Runs.draftBlock_congr (h : c.Runs) {g g' : Option (List Nat) → ℝ≥0∞} {fuel : Nat}
    {tokens : List Nat} (hg : ∀ block, c.Yields fuel tokens block → g (some block) = g' (some block)) :
    (c.draftBlock fuel tokens).expect g = (c.draftBlock fuel tokens).expect g' := by
  induction fuel generalizing tokens with
  | zero => exact hg tokens rfl
  | succ fuel ih =>
    by_cases hunsure : c.Unsure tokens
    · rw [h.draftBlock_unsure hunsure]
      exact hg _ (Or.inl ⟨hunsure, rfl⟩)
    · rw [h.expect_sure hunsure, h.expect_sure hunsure]
      refine Finset.sum_congr rfl fun t ht => ?_
      by_cases hq : 0 < c.q tokens t
      · have hyields : ∀ block, (if (t : Int) = c.eos then block = tokens ++ [t]
            else c.Yields fuel (tokens ++ [t]) block) → c.Yields (fuel + 1) tokens block := by
          intro block hblock
          exact Or.inr ⟨hunsure, t, Finset.mem_range.mp ht, hq, hblock⟩
        congr 1
        rw [goOn]
        split_ifs with heos
        · exact hg _ (hyields _ (by rw [if_pos heos]))
        · exact ih fun block hblock => hg block (hyields block (by rw [if_neg heos]; exact hblock))
      · rw [ENNReal.ofReal_of_nonpos (not_lt.mp hq), zero_mul, zero_mul]

theorem take_one_append {tokens : List Nat} (hne : tokens ≠ []) (t : Nat) :
    (tokens ++ [t]).take 1 = tokens.take 1 := by
  cases tokens with
  | nil => exact absurd rfl hne
  | cons a tokens => rfl

/-- A block is declined or extends what was drafted. -/
theorem yields_prefix {fuel : Nat} {tokens block : List Nat} (h : c.Yields fuel tokens block)
    (hne : tokens ≠ []) :
    (c.admission.isSome = true ∧ block = tokens.take 1) ∨ tokens <+: block := by
  induction fuel generalizing tokens with
  | zero => exact Or.inr (h ▸ List.prefix_rfl)
  | succ fuel ih =>
    rcases h with ⟨-, hblock⟩ | ⟨-, t, -, -, hblock⟩
    · split_ifs at hblock with hadm
      · exact Or.inl ⟨hadm, hblock⟩
      · exact Or.inr (hblock ▸ List.prefix_rfl)
    · split_ifs at hblock
      · exact Or.inr (hblock ▸ List.prefix_append tokens [t])
      · rcases ih hblock (by simp) with ⟨hadm, htaken⟩ | hp
        · exact Or.inl ⟨hadm, htaken.trans (take_one_append hne t)⟩
        · exact Or.inr ((List.prefix_append tokens [t]).trans hp)

/-! ## Draft and verification -/

/-- The expectation behind a block whose first tokens are kept. -/
noncomputable def blockAfter (c : Cycle n) (f : List Nat → ℝ≥0∞) (len : Nat) (tokens : List Nat) :
    Option (List Nat) → ℝ≥0∞
  | none => 0
  | some block => c.verified f len tokens (block.drop tokens.length)

/-- No block that can be drafted is declined by the controller. -/
def NeverDeclined (c : Cycle n) (fuel : Nat) (tokens : List Nat) : Prop :=
  c.admission.isSome = true → ∀ block, c.Yields fuel tokens block → block ≠ tokens.take 1

theorem drop_of_isPrefix {tokens block : List Nat} {t : Nat} (h : tokens ++ [t] <+: block) :
    block.drop tokens.length = t :: block.drop (tokens ++ [t]).length := by
  obtain ⟨rest, rfl⟩ := h
  rw [List.drop_left, List.append_assoc, List.drop_left]
  rfl

/-- **A drafted token and its verification** are a draw from the target, given that what follows is. -/
theorem Runs.goOn_after (h : c.Runs) {fuel : Nat} {tokens : List Nat} (hne : tokens ≠ []) {t : Nat}
    (ht : t < n) (hq : 0 < c.q tokens t) (hsure : ¬c.Unsure tokens)
    (hverdict : c.NeverDeclined (fuel + 1) tokens)
    (ih : (t : Int) ≠ c.eos → c.NeverDeclined fuel (tokens ++ [t]) →
      (c.draftBlock fuel (tokens ++ [t])).expect (c.blockAfter f len (tokens ++ [t])) =
        c.after f len (tokens ++ [t])) :
    ENNReal.ofReal (c.q tokens t) * (c.goOn fuel tokens t).expect (c.blockAfter f len tokens) =
      (ENNReal.ofReal (c.q tokens t) - ENNReal.ofReal (c.p tokens t)) * c.corrected f len tokens +
        min (ENNReal.ofReal (c.q tokens t)) (ENNReal.ofReal (c.p tokens t)) *
          c.after f len (tokens ++ [t]) := by
  have hdrop := @drop_of_isPrefix tokens
  rw [goOn]
  split_ifs with heos
  · rw [RandProg.expect_ret, blockAfter, List.drop_left, h.verified_cons, verified_nil]
  · have hnever : c.NeverDeclined fuel (tokens ++ [t]) := by
      intro hadm block hblock
      rw [take_one_append hne]
      exact hverdict hadm block (Or.inr ⟨hsure, t, ht, hq, by rw [if_neg heos]; exact hblock⟩)
    have hextends : ∀ block, c.Yields fuel (tokens ++ [t]) block → tokens ++ [t] <+: block := by
      intro block hblock
      rcases yields_prefix hblock (by simp) with ⟨hadm, htaken⟩ | hp
      · exact absurd htaken (hnever hadm block hblock)
      · exact hp
    rw [(h.draftBlock_affine fuel _).mul_expect, ← ih heos hnever, ← h.draftBlock_affine fuel]
    apply h.draftBlock_congr
    intro block hblock
    rw [blockAfter, hdrop (hextends block hblock), h.verified_cons]
    rfl

/-- **A block and its verification** are plain decoding, when no block is declined. -/
theorem Runs.draft_after (h : c.Runs) {fuel : Nat} {tokens : List Nat} (hne : tokens ≠ [])
    (hlen : tokens.length + fuel ≤ len) (hverdict : c.NeverDeclined fuel tokens) :
    (c.draftBlock fuel tokens).expect (c.blockAfter f len tokens) = c.after f len tokens := by
  induction fuel generalizing tokens with
  | zero => rw [draftBlock, RandProg.expect_ret, blockAfter, List.drop_length, verified_nil]
  | succ fuel ih =>
    by_cases hunsure : c.Unsure tokens
    · rw [h.draftBlock_unsure hunsure, RandProg.expect_ret]
      split_ifs with hadm
      · exact absurd rfl (hverdict hadm _ (Or.inl ⟨hunsure, by rw [if_pos hadm]⟩))
      · rw [blockAfter, List.drop_length, verified_nil]
    · have hp := (h.p_spec tokens).2
      have hq := (h.q_spec tokens).2
      rw [h.expect_sure hunsure, h.after_eq (by omega),
        ← RandProg.rejection hp.sum_ofReal hq.sum_ofReal (h.corrected_eq tokens)]
      refine Finset.sum_congr rfl fun t ht => ?_
      by_cases hpos : 0 < c.q tokens t
      · refine h.goOn_after hne (Finset.mem_range.mp ht) hpos hunsure hverdict fun heos hnever => ?_
        apply ih (by simp) _ hnever
        rw [List.length_append, List.length_singleton]
        omega
      · simp [ENNReal.ofReal_of_nonpos (not_lt.mp hpos)]

/-! ## The cycle -/

/-- The expectation behind what a cycle returns. -/
noncomputable def resultAfter (c : Cycle n) (f : List Nat → ℝ≥0∞) (len : Nat) (r : SpecResult) : ℝ≥0∞ :=
  c.after f len (c.tokensOf r)

theorem sequence_expect (k : Nat) :
    (c.sequence k).expect f = c.speculate.expect (c.resultAfter f (k + 1)) := by
  rw [sequence, RandProg.expect_bind]
  rfl

theorem yields_first {fuel t : Nat} {block : List Nat} (h : c.Yields fuel [t] block) : [t] <+: block := by
  rcases yields_prefix h (by simp) with ⟨-, rfl⟩ | hp
  · exact List.prefix_rfl
  · exact hp

theorem Runs.speculate_expect (h : c.Runs) (hready : c.ready = true) :
    c.speculate.expect (c.resultAfter f len) =
      if c.cancelled = true then c.after f len [c.firstToken]
      else (c.draftBlock (c.blockCap - 1) [c.firstToken]).expect (c.blockAfter f len [c.firstToken]) := by
  have hroom : ¬min c.cap c.room < 1 := by
    intro hlow
    have hcap : c.blockCap ≤ 1 := by
      unfold blockCap
      simp only []
      split_ifs <;> omega
    rw [ready, Bool.and_eq_true, Bool.and_eq_true, Bool.and_eq_true, decide_eq_true_eq] at hready
    omega
  have hvalid : ¬(c.valid = false ∨ c.cap < 1) := by
    rw [h.valid, not_or, not_lt]
    exact ⟨by decide, h.cap⟩
  unfold speculate
  rw [if_neg hvalid, if_neg hroom, if_neg (by rw [hready]; decide), RandProg.expect_bind]
  by_cases hcancel : c.cancelled = true
  · rw [if_pos hcancel]
    refine (h.draftBlock_congr fun block hblock => ?_).trans
      ((h.draftBlock_affine _ _).expect_const _)
    obtain ⟨rest, rfl⟩ := yields_first hblock
    simp only [h.going hcancel, hcancel, ne_eq, not_false_eq_true, and_self, if_true]
    rfl
  · rw [if_neg hcancel]
    apply h.draftBlock_congr
    intro block hblock
    obtain ⟨rest, rfl⟩ := yields_first hblock
    have hnot : ¬(c.others ≠ 0 ∧ c.cancelled = true) := fun hboth => hcancel hboth.2
    simp only [if_neg hnot]
    cases rest with
    | nil =>
      rw [if_pos (by simp)]
      exact (verified_nil _).symm
    | cons t rest =>
      rw [if_neg (by simp), if_neg hcancel, h.drawKeys_eq, h.pq_eq, Option.filter_none, RandProg.bind,
        keepRows_keys, RandProg.expect_bind, blockAfter]
      apply h.keepRows_congr
      intro kept correction hp
      obtain ⟨kept, rfl⟩ := hp
      cases correction with
      | none => rfl
      | some y =>
        simp only
        split_ifs
        · rfl
        · simp [resultAfter, keptAfter, tokensOf]

theorem Runs.speculate_plain (h : c.Runs) (hready : c.ready = false) :
    c.speculate.expect (c.resultAfter f len) = c.after f len [c.firstToken] := by
  have hvalid : ¬(c.valid = false ∨ c.cap < 1) := by
    rw [h.valid, not_or, not_lt]
    exact ⟨by decide, h.cap⟩
  unfold speculate
  rw [if_neg hvalid, if_pos hready]
  split_ifs <;> rfl

/-- The controller has one verdict for every block that can be drafted. -/
def SameVerdict (c : Cycle n) : Prop :=
  ∀ block block', c.Yields (c.blockCap - 1) [c.firstToken] block →
    c.Yields (c.blockCap - 1) [c.firstToken] block' →
      (block = [c.firstToken] ↔ block' = [c.firstToken])

/-- The cycle drafts a block that it goes on to verify. -/
def Drafts (c : Cycle n) : Prop := c.ready = true ∧ c.cancelled = false

/-- **The cycle is plain decoding**, when the verdict does not depend on the draws. -/
theorem Runs.speculate_eq (h : c.Runs) (hverdict : c.Drafts → c.SameVerdict) (hlen : c.blockCap ≤ len) :
    c.speculate.expect (c.resultAfter f len) = c.after f len [c.firstToken] := by
  cases hready : c.ready with
  | false => exact h.speculate_plain hready
  | true =>
    rw [h.speculate_expect hready]
    split_ifs with hcancel
    · rfl
    · have hsame := hverdict ⟨hready, Bool.not_eq_true _ ▸ hcancel⟩
      have hcap : 1 < c.blockCap := by
        rw [ready, Bool.and_eq_true, Bool.and_eq_true, Bool.and_eq_true, decide_eq_true_eq] at hready
        exact hready.1.1.2
      by_cases hall : ∀ block, c.Yields (c.blockCap - 1) [c.firstToken] block → block = [c.firstToken]
      · -- every block is declined: nothing is drafted
        refine (h.draftBlock_congr fun block hblock => ?_).trans
          ((h.draftBlock_affine _ _).expect_const (c.after f len [c.firstToken]))
        rw [hall block hblock]
        exact verified_nil _
      · push Not at hall
        obtain ⟨kept, hkept, hne⟩ := hall
        apply h.draft_after (by simp)
        · rw [List.length_singleton]
          omega
        · intro _ block hblock hdeclined
          exact hne ((hsame block kept hblock hkept).mp hdeclined)

end After

/-! ## Exactness -/

/-- The cycle is exact: behind the first token, any long enough sequence of tokens comes with the chance
that plain decoding gives it. -/
def Exact (c : Cycle n) : Prop :=
  ∀ ys : List Nat, c.blockCap ≤ ys.length + 1 →
    (c.sequence ys.length).prob (c.firstToken :: ys) = chance c.p [c.firstToken] ys

theorem Runs.exact_iff (h : c.Runs) : c.Exact ↔ ∀ ys : List Nat, c.blockCap ≤ ys.length + 1 →
    c.speculate.expect (c.resultAfter (RandProg.only (c.firstToken :: ys)) (ys.length + 1)) =
      c.after (RandProg.only (c.firstToken :: ys)) (ys.length + 1) [c.firstToken] := by
  refine forall_congr' fun ys => imp_congr Iff.rfl ?_
  have hafter := h.rowsOk.after_only [c.firstToken] ys
  rw [List.length_singleton, Nat.add_comm] at hafter
  rw [p, ← hafter, ← sequence_expect]
  exact Iff.rfl

/-- **A cycle whose verdict does not depend on the draws is exact.** -/
theorem exact_of_sameVerdict (h : c.Runs) (hverdict : c.Drafts → c.SameVerdict) : c.Exact :=
  h.exact_iff.mpr fun _ hlen => h.speculate_eq hverdict hlen

/-! ## A verdict that depends on the draws -/

section Declined

variable {f : List Nat → ℝ≥0∞} {len : Nat}

theorem Runs.verified_same (h : c.Runs) (hsame : c.target = c.draft) (kept rest : List Nat) :
    c.verified f len kept rest = c.after f len (kept ++ rest) := by
  induction rest generalizing kept with
  | nil => rw [verified_nil, List.append_nil]
  | cons t rest ih =>
    have hpq : c.p kept = c.q kept := by rw [p, rowAt, rows, q, hsame]
    have hq := (h.q_spec kept).2.nonneg t
    rw [verified, h.keepRows_cons, RandProg.expect_draw, hpq]
    have hconst : ∫⁻ u in Set.Ico (0 : ℝ) 1, (if c.q kept t < u * c.q kept t then
          (sampleResidualProbabilities (c.q kept) (c.q kept) n).bind fun y => .ret (some (kept, some y))
        else c.keepRows none [] (kept ++ [t]) rest).expect (c.keptAfter f len) =
        ∫⁻ _ in Set.Ico (0 : ℝ) 1, c.verified f len (kept ++ [t]) rest := by
      refine MeasureTheory.setLIntegral_congr_fun measurableSet_Ico fun u hu => ?_
      have hnot : ¬c.q kept t < u * c.q kept t := by
        have := hu.2.le
        nlinarith
      rw [if_neg hnot]
      rfl
    rw [hconst, MeasureTheory.setLIntegral_const, Real.volume_Ico, sub_zero, ENNReal.ofReal_one, mul_one, ih,
      List.append_assoc]
    rfl

variable {value : Option (List Nat) → ℝ≥0∞}

theorem Runs.le_expect_sure (h : c.Runs) {fuel t : Nat} {tokens : List Nat} (hsure : ¬c.Unsure tokens)
    (ht : t < n) : ENNReal.ofReal (c.q tokens t) * (c.goOn fuel tokens t).expect value ≤
      (c.draftBlock (fuel + 1) tokens).expect value := by
  rw [h.expect_sure hsure]
  exact Finset.single_le_sum_of_canonicallyOrdered (f := fun t => ENNReal.ofReal (c.q tokens t) *
    (c.goOn fuel tokens t).expect value) (Finset.mem_range.mpr ht)

theorem Runs.le_of_yields (h : c.Runs) {fuel : Nat} {tokens block : List Nat}
    (hblock : c.Yields fuel tokens block) :
    ∃ w ≠ 0, w * value (some block) ≤ (c.draftBlock fuel tokens).expect value := by
  induction fuel generalizing tokens with
  | zero => exact ⟨1, one_ne_zero, by rw [one_mul, hblock]; exact le_rfl⟩
  | succ fuel ih =>
    rcases hblock with ⟨hunsure, rfl⟩ | ⟨hsure, t, ht, hq, hblock⟩
    · exact ⟨1, one_ne_zero, by rw [one_mul, h.draftBlock_unsure hunsure]; exact le_rfl⟩
    · have hpos := (ENNReal.ofReal_pos.mpr hq).ne'
      have hstep := @Runs.le_expect_sure _ _ value h fuel t tokens hsure ht
      rw [goOn] at hstep
      split_ifs at hblock hstep with heos
      · exact ⟨_, hpos, hblock ▸ hstep⟩
      · obtain ⟨w, hw, hle⟩ := ih hblock
        refine ⟨ENNReal.ofReal (c.q tokens t) * w, mul_ne_zero hpos hw, le_trans ?_ hstep⟩
        rw [mul_assoc]
        exact mul_le_mul_right hle _

theorem chance_le_goOn {fuel t : Nat} {tokens rest : List Nat} (hne : tokens ≠ [])
    (hblock : if (t : Int) = c.eos then tokens ++ rest = tokens ++ [t]
      else c.Yields fuel (tokens ++ [t]) (tokens ++ rest))
    (hkept : tokens ++ rest ≠ tokens.take 1)
    (hle : ∀ rest, c.Yields fuel (tokens ++ [t]) (tokens ++ [t] ++ rest) →
      tokens ++ [t] ++ rest ≠ (tokens ++ [t]).take 1 →
      chance c.q (tokens ++ [t]) rest * value (some (tokens ++ [t] ++ rest)) ≤
        (c.draftBlock fuel (tokens ++ [t])).expect value) :
    chance c.q tokens rest * value (some (tokens ++ rest)) ≤
      ENNReal.ofReal (c.q tokens t) * (c.goOn fuel tokens t).expect value := by
  rw [goOn]
  split_ifs at hblock ⊢ with heos
  · have hrest : rest = [t] := (List.append_right_inj tokens).mp hblock
    rw [hrest, chance, chance, mul_one]
    exact le_rfl
  · rcases yields_prefix hblock (by simp) with ⟨-, htaken⟩ | hp
    · exact absurd (htaken.trans (take_one_append hne t)) hkept
    · rw [List.prefix_append_right_inj] at hp
      obtain ⟨rest, rfl⟩ := hp
      have happend : tokens ++ ([t] ++ rest) = tokens ++ [t] ++ rest := (List.append_assoc _ _ _).symm
      rw [happend] at hblock hkept ⊢
      rw [List.singleton_append, chance, mul_assoc]
      exact mul_le_mul_right (hle rest hblock (take_one_append hne t ▸ hkept)) _

theorem Runs.chance_le_of_yields (h : c.Runs) {fuel : Nat} {tokens rest : List Nat} (hne : tokens ≠ [])
    (hblock : c.Yields fuel tokens (tokens ++ rest)) (hkept : tokens ++ rest ≠ tokens.take 1) :
    chance c.q tokens rest * value (some (tokens ++ rest)) ≤ (c.draftBlock fuel tokens).expect value := by
  induction fuel generalizing tokens rest with
  | zero =>
    have hrest : rest = [] := by simpa [Yields] using hblock
    rw [hrest, chance, one_mul, List.append_nil]
    exact le_rfl
  | succ fuel ih =>
    rcases hblock with ⟨hunsure, hdone⟩ | ⟨hsure, t, ht, hq, hblock⟩
    · rw [h.draftBlock_unsure hunsure]
      split_ifs at hdone ⊢
      · exact absurd hdone hkept
      · have hrest : rest = [] := by simpa using hdone
        rw [hrest, chance, one_mul, List.append_nil]
        exact le_rfl
    · exact (chance_le_goOn hne hblock hkept fun rest => ih (by simp)).trans (h.le_expect_sure hsure ht)

theorem chance_ne_zero_of_yields {fuel : Nat} {tokens rest : List Nat} (hne : tokens ≠ [])
    (hblock : c.Yields fuel tokens (tokens ++ rest)) (hkept : tokens ++ rest ≠ tokens.take 1) :
    chance c.q tokens rest ≠ 0 := by
  induction fuel generalizing tokens rest with
  | zero =>
    have hrest : rest = [] := by simpa [Yields] using hblock
    rw [hrest, chance]
    exact one_ne_zero
  | succ fuel ih =>
    rcases hblock with ⟨-, hdone⟩ | ⟨-, t, -, hq, hblock⟩
    · split_ifs at hdone
      · exact absurd hdone hkept
      · have hrest : rest = [] := by simpa using hdone
        rw [hrest, chance]
        exact one_ne_zero
    · have hpos := (ENNReal.ofReal_pos.mpr hq).ne'
      split_ifs at hblock
      · have hrest : rest = [t] := (List.append_right_inj tokens).mp hblock
        rw [hrest, chance, chance, mul_one]
        exact hpos
      · rcases yields_prefix hblock (by simp) with ⟨-, htaken⟩ | hp
        · exact absurd (htaken.trans (take_one_append hne t)) hkept
        · rw [List.prefix_append_right_inj] at hp
          obtain ⟨rest, rfl⟩ := hp
          rw [← List.append_assoc] at hblock hkept
          exact mul_ne_zero hpos (ih (by simp) hblock (take_one_append hne t ▸ hkept))

theorem Runs.add_le_of_yields (h : c.Runs) {fuel : Nat} {tokens rest : List Nat} (hne : tokens ≠ [])
    (hblock : c.Yields fuel tokens (tokens ++ rest)) (hkept : tokens ++ rest ≠ tokens.take 1)
    (hdeclined : c.Yields fuel tokens (tokens.take 1)) :
    ∃ w ≠ 0, chance c.q tokens rest * value (some (tokens ++ rest)) + w * value (some (tokens.take 1)) ≤
      (c.draftBlock fuel tokens).expect value := by
  induction fuel generalizing tokens rest with
  | zero => exact absurd (hblock.trans hdeclined.symm) hkept
  | succ fuel ih =>
    have hlong : ∀ t, tokens ++ [t] ≠ tokens.take 1 := by
      intro t heq
      have hlen := congrArg List.length heq
      have hpos := List.length_pos_iff.mpr hne
      rw [List.length_append, List.length_take, List.length_singleton] at hlen
      omega
    rcases hblock with ⟨hunsure, hdone⟩ | ⟨hsure, t, ht, hq, hblock⟩
    · rcases hdeclined with ⟨-, hdone'⟩ | ⟨hsure, -⟩
      · exact absurd (hdone.trans hdone'.symm) hkept
      · exact absurd hunsure hsure
    · rcases hdeclined with ⟨hunsure, -⟩ | ⟨-, t', ht', hq', hdeclined⟩
      · exact absurd hunsure hsure
      · obtain ⟨hgo, hdeclined⟩ : ¬(t' : Int) = c.eos ∧
            c.Yields fuel (tokens ++ [t']) (tokens.take 1) := by
          split_ifs at hdeclined with heos
          · exact absurd hdeclined.symm (hlong t')
          · exact ⟨heos, hdeclined⟩
        by_cases heq : t = t'
        · -- the two drafts go the same way
          subst heq
          rw [if_neg hgo] at hblock
          rcases yields_prefix hblock (by simp) with ⟨-, htaken⟩ | hp
          · exact absurd (htaken.trans (take_one_append hne t)) hkept
          · rw [List.prefix_append_right_inj] at hp
            obtain ⟨rest, rfl⟩ := hp
            have happend : tokens ++ ([t] ++ rest) = tokens ++ [t] ++ rest :=
              (List.append_assoc _ _ _).symm
            rw [happend] at hblock hkept ⊢
            obtain ⟨w, hw, hle⟩ := ih (by simp) hblock (take_one_append hne t ▸ hkept)
              (take_one_append hne t ▸ hdeclined)
            have hstep := @Runs.le_expect_sure _ _ value h fuel t tokens hsure ht
            rw [goOn, if_neg hgo] at hstep
            refine ⟨ENNReal.ofReal (c.q tokens t) * w, mul_ne_zero (ENNReal.ofReal_pos.mpr hq).ne' hw,
              le_trans ?_ hstep⟩
            rw [take_one_append hne] at hle
            rw [List.singleton_append, chance, mul_assoc, mul_assoc, ← mul_add]
            exact mul_le_mul_right hle _
        · -- they part here
          have hboth : ENNReal.ofReal (c.q tokens t) * (c.goOn fuel tokens t).expect value +
              ENNReal.ofReal (c.q tokens t') * (c.goOn fuel tokens t').expect value ≤
                (c.draftBlock (fuel + 1) tokens).expect value := by
            rw [h.expect_sure hsure, ← Finset.sum_pair (f := fun t => ENNReal.ofReal (c.q tokens t) *
              (c.goOn fuel tokens t).expect value) heq]
            refine Finset.sum_le_sum_of_subset fun x hx => ?_
            rw [Finset.mem_insert, Finset.mem_singleton] at hx
            rw [Finset.mem_range]
            rcases hx with rfl | rfl
            · exact ht
            · exact ht'
          obtain ⟨w, hw, hle⟩ := @Runs.le_of_yields _ _ value h _ _ _ hdeclined
          refine ⟨ENNReal.ofReal (c.q tokens t') * w, mul_ne_zero (ENNReal.ofReal_pos.mpr hq').ne' hw,
            le_trans (add_le_add ?_ ?_) hboth⟩
          · exact chance_le_goOn hne hblock hkept fun rest => h.chance_le_of_yields (by simp)
          · rw [goOn, if_neg hgo, mul_assoc]
            exact mul_le_mul_right hle _

end Declined

/-- **A verdict that depends on the draws shows**: with the drafter's own distribution as the target, a
block that would have been kept comes more often than plain decoding has it. -/
theorem Runs.not_exact (h : c.Runs) (hsame : c.target = c.draft) (hdrafts : c.Drafts)
    {rest : List Nat} (hkept : c.Yields (c.blockCap - 1) [c.firstToken] ([c.firstToken] ++ rest))
    (hrest : rest ≠ []) (hdeclined : c.Yields (c.blockCap - 1) [c.firstToken] [c.firstToken]) :
    ¬c.Exact := by
  intro hexact
  have hpq : c.p = c.q := by
    funext tokens
    rw [p, rowAt, rows, q, hsame]
  obtain ⟨zs, hlen, hzs⟩ := h.rowsOk.exists_chance ([c.firstToken] ++ rest) c.blockCap
  have heq := h.exact_iff.mp hexact (rest ++ zs) (by rw [List.length_append]; omega)
  have hall := h.rowsOk.after_only [c.firstToken] (rest ++ zs)
  have htail := h.rowsOk.after_only ([c.firstToken] ++ rest) zs
  have hlength : ([c.firstToken] ++ rest).length + zs.length = (rest ++ zs).length + 1 := by
    simp only [List.length_append, List.length_singleton]
    omega
  rw [List.length_singleton, Nat.add_comm] at hall
  rw [hlength, List.append_assoc] at htail
  rw [h.speculate_expect hdrafts.1, if_neg (by rw [hdrafts.2]; decide)] at heq
  obtain ⟨w, hw, hle⟩ := @Runs.add_le_of_yields _ _ (c.blockAfter (RandProg.only (c.firstToken :: (rest ++ zs)))
    ((rest ++ zs).length + 1) [c.firstToken]) h (c.blockCap - 1) [c.firstToken] rest (by simp) hkept
    (by simpa using hrest) hdeclined
  have hblock : c.blockAfter (RandProg.only (c.firstToken :: (rest ++ zs))) ((rest ++ zs).length + 1)
      [c.firstToken] (some ([c.firstToken] ++ rest)) = chance c.p ([c.firstToken] ++ rest) zs := by
    rw [blockAfter, List.drop_left, h.verified_same hsame]
    exact htail
  have hfirst : c.blockAfter (RandProg.only (c.firstToken :: (rest ++ zs))) ((rest ++ zs).length + 1)
      [c.firstToken] (some ([c.firstToken].take 1)) = chance c.p [c.firstToken] (rest ++ zs) := by
    rw [blockAfter, h.verified_same hsame]
    exact hall
  rw [hblock, hfirst, heq, ← hpq, ← chance_append] at hle
  have hafter : c.after (RandProg.only (c.firstToken :: (rest ++ zs))) ((rest ++ zs).length + 1)
      [c.firstToken] = chance c.p [c.firstToken] (rest ++ zs) := hall
  rw [hafter] at hle
  have hpos : chance c.p [c.firstToken] (rest ++ zs) ≠ 0 := by
    rw [chance_append]
    refine mul_ne_zero ?_ hzs
    rw [hpq]
    exact chance_ne_zero_of_yields (by simp) hkept (by simpa using hrest)
  exact absurd hle (not_le.mpr (ENNReal.lt_add_right (chance_ne_top _ _ _) (mul_ne_zero hw hpos)))

/-! ## All targets -/

/-- The cycle on another model. -/
def withTarget (c : Cycle n) (target : List Nat → LogitRow n) : Cycle n := { c with target := target }

theorem Runs.withTarget (h : c.Runs) (target : List Nat → LogitRow n) : (c.withTarget target).Runs :=
  ⟨h.vocab, h.valid, h.cap, h.exact, h.temperature, h.pqGpu, h.ignoreEos, h.going⟩

theorem yields_withTarget (target : List Nat → LogitRow n) {fuel : Nat} {tokens block : List Nat} :
    (c.withTarget target).Yields fuel tokens block ↔ c.Yields fuel tokens block := by
  induction fuel generalizing tokens with
  | zero => exact Iff.rfl
  | succ fuel ih =>
    refine or_congr Iff.rfl (and_congr Iff.rfl (exists_congr fun t => and_congr Iff.rfl
      (and_congr Iff.rfl ?_)))
    have heos : (c.withTarget target).eos = c.eos := rfl
    rw [heos]
    split_ifs
    · exact Iff.rfl
    · exact ih

/-- **Exact speculative sampling.** On every model a cycle is exact, if and only if the verdict of the
controller does not depend on the tokens that were drawn for the block. -/
theorem exact_iff_sameVerdict (h : c.Runs) :
    (∀ target, (c.withTarget target).Exact) ↔ (c.Drafts → c.SameVerdict) := by
  constructor
  · intro hexact hdrafts block block' hblock hblock'
    have hr := h.withTarget c.draft
    -- one block kept and another declined contradict exactness on the drafter itself
    have hnone : ∀ kept, c.Yields (c.blockCap - 1) [c.firstToken] kept → kept ≠ [c.firstToken] →
        ¬c.Yields (c.blockCap - 1) [c.firstToken] [c.firstToken] := by
      intro kept hkept hne hdeclined
      obtain ⟨rest, rfl⟩ := yields_first hkept
      have hrest : rest ≠ [] := by
        rintro rfl
        exact hne rfl
      exact hr.not_exact rfl hdrafts ((yields_withTarget _).mpr hkept) hrest
        ((yields_withTarget _).mpr hdeclined) (hexact c.draft)
    constructor
    · rintro rfl
      by_contra hne
      exact hnone block' hblock' hne hblock
    · rintro rfl
      by_contra hne
      exact hnone block hblock hne hblock'
  · intro hverdict target
    refine exact_of_sameVerdict (h.withTarget target) fun hdrafts block block' hblock hblock' => ?_
    exact hverdict hdrafts block block' ((yields_withTarget target).mp hblock)
      ((yields_withTarget target).mp hblock')

/-! ## A declined draft -/

local instance atLeastTwoTwo : Nat.AtLeastTwo 2 := ⟨le_rfl⟩

/-- Two tokens of equal chance; the drafter is not sure behind the second one. -/
noncomputable def evenCycle : Cycle 2 where
  valid := true
  room := 100
  firstToken := 0
  cap := 3
  draftCap := 0
  eos := -1
  ignoreEos := false
  isStop := fun _ => false
  exact := true
  temperature := 1
  topK := 0
  topP := 1
  minP := 0
  fullProbs := true
  pqGpu := none
  others := 0
  cancelled := false
  supported := true
  admission := some ⟨0, 1, 0⟩
  threshold := 0
  carryOn := false
  target := fun _ => ⟨[.fin 0, .fin 0], rfl⟩
  draft := fun _ => ⟨[.fin 0, .fin 0], rfl⟩
  confidence := fun row previous => if row = 1 ∧ previous = 1 then -2 else 2

theorem evenCycle_runs : evenCycle.Runs := ⟨by decide, rfl, by decide, rfl, one_pos, rfl, rfl, fun h => by cases h⟩

theorem exact_iff_sameVerdict_even :
    evenCycle.Runs ∧
      ((∀ target, (evenCycle.withTarget target).Exact) ↔ (evenCycle.Drafts → evenCycle.SameVerdict)) :=
  ⟨evenCycle_runs, exact_iff_sameVerdict evenCycle_runs⟩

theorem evenCycle_q (tokens : List Nat) {i : Nat} (hi : i < 2) : 0 < evenCycle.q tokens i := by
  have habove : ∃ x : ℝ, Logit.fin x ∈ [Logit.fin 0, Logit.fin 0] ∧ negInf < x :=
    ⟨0, by simp, by norm_num [negInf]⟩
  have hok : RowOk (ranked Real.exp [Logit.fin (0 : ℝ), .fin 0] 1) :=
    ranked_ok expLike_exp one_pos (entries_pairwise _)
  have hsupport : support Real.exp [Logit.fin (0 : ℝ), .fin 0] 1 0 1 0 = _ :=
    support_untruncated hok le_rfl (by norm_num [clampTopP]) (by norm_num [clampMinP])
  have hmem : candidate Real.exp (topLogit [Logit.fin (0 : ℝ), .fin 0]) 1 (i, 0) ∈
      ranked Real.exp [Logit.fin (0 : ℝ), .fin 0] 1 := by
    refine (sortCandidates_perm _).mem_iff.mpr (List.mem_map_of_mem (mem_entries.2 ?_))
    interval_cases i <;> rfl
  have hbuilt := sampleBuildProbabilities_eq expLike_exp one_pos habove true 0 1 0
  have hq : evenCycle.q tokens = reference Real.exp [Logit.fin (0 : ℝ), .fin 0] 1 0 1 0 := by
    rw [q, probs]
    exact congrArg (fun probs => Option.getD probs fun _ => 0) hbuilt
  rw [hq, reference, hsupport]
  exact div_pos (weightOf_pos hok hmem) (mass_pos hok.pos (List.ne_nil_of_mem hmem))

theorem evenCycle_unsure {tokens : List Nat} : evenCycle.Unsure tokens ↔
    tokens.length = 2 ∧ tokens.getLastD 0 = 1 := by
  have hlow : Real.exp (-2) < 1 / 3 := by
    have hlt := Real.exp_neg_one_lt_d9
    have hpos := Real.exp_pos (-1)
    have hmul : Real.exp (-2) = Real.exp (-1) * Real.exp (-1) := by
      rw [← Real.exp_add]
      norm_num
    rw [hmul]
    nlinarith
  have hpos := Real.exp_pos (-2)
  have hsure : 3 / 4 ≤ sigmoidStable 2 := by
    rw [sigmoidStable, if_pos (by norm_num), le_div_iff₀ (by positivity)]
    linarith
  have hunsure : ¬3 / 4 ≤ sigmoidStable (-2) := by
    rw [sigmoidStable, if_neg (by norm_num), not_le, div_lt_iff₀ (by positivity)]
    linarith
  have hrow : tokens.length - 1 = 1 ↔ tokens.length = 2 := by omega
  rw [Unsure]
  simp only [evenCycle, Option.isSome_some, if_true, admitConfident, hrow]
  split_ifs with h
  · have hthree : ¬3 ≤ tokens.length - 1 := by omega
    exact iff_of_true (fun hor => hor.elim hthree hunsure) h
  · exact iff_of_false (fun hnot => hnot (Or.inr hsure)) h

/-- The first token behind an even draft is more often the one that the drafter is sure of. -/
theorem evenCycle_not_exact : ¬evenCycle.Exact := by
  have hcap : evenCycle.blockCap = 3 := by decide
  have h0 := fun tokens => evenCycle_q tokens (i := 0) (by decide)
  have h1 := fun tokens => evenCycle_q tokens (i := 1) (by decide)
  have hfirst : ¬evenCycle.Unsure [0] := by simp [evenCycle_unsure]
  have hzero : ¬evenCycle.Unsure [0, 0] := by simp [evenCycle_unsure]
  have hone : evenCycle.Unsure [0, 1] := by simp [evenCycle_unsure]
  have hkept : evenCycle.Yields (evenCycle.blockCap - 1) [0] [0, 0, 0] := by
    rw [hcap]
    exact Or.inr ⟨hfirst, 0, by decide, h0 _, Or.inr ⟨hzero, 0, by decide, h0 _, rfl⟩⟩
  have hdeclined : evenCycle.Yields (evenCycle.blockCap - 1) [0] [0] := by
    rw [hcap]
    exact Or.inr ⟨hfirst, 1, by decide, h1 _, Or.inl ⟨hone, rfl⟩⟩
  exact @Runs.not_exact _ _ evenCycle_runs rfl ⟨by decide, rfl⟩ [0, 0] hkept (by simp) hdeclined

end Cycle

end Ds4.Dspark
