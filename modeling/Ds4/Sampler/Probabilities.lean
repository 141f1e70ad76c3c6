import Ds4.Lib.Rand
import Ds4.Sampler.Distribution

/-!
# Drawing from probabilities

`sample_probabilities` draws from a row of probabilities and `sample_residual_probabilities` from what
one row exceeds another by. What `sample_build_probabilities` builds from any row of logits is a
distribution.
-/

namespace Ds4.Sampler

open Ds4.Lib MeasureTheory

/-! ## The source -/

/-- The positive entries of a row. -/
noncomputable def positives (probs : Nat → ℝ) (n : Nat) : List (Nat × ℝ) :=
  (List.range n).filterMap fun i => if 0 < probs i then some (i, probs i) else none

/-- The first id of the greatest probability. -/
noncomputable def bestProb (probs : Nat → ℝ) (n : Nat) : Nat :=
  ((List.range n).foldl (fun best i => if best.2 < probs i then (i, probs i) else best) (0, probs 0)).1

/-- `sample_probabilities`. -/
noncomputable def sampleProbabilities (probs : Nat → ℝ) (n : Nat) : RandProg Nat :=
  let row := positives probs n
  let sum := weights row
  if sum ≤ 0 then .ret (bestProb probs n)
  else .draw fun u => .ret (walk row (u * sum) (bestProb probs n))

/-- What one row exceeds another by. -/
noncomputable def residual (targetProbs draftProbs : Nat → ℝ) (i : Nat) : ℝ :=
  if 0 < targetProbs i - draftProbs i then targetProbs i - draftProbs i else 0

/-- `sample_residual_probabilities`. -/
noncomputable def sampleResidualProbabilities (targetProbs draftProbs : Nat → ℝ) (n : Nat) : RandProg Nat :=
  if ((List.range n).map (residual targetProbs draftProbs)).sum ≤ 0 then .ret (bestProb targetProbs n)
  else sampleProbabilities (residual targetProbs draftProbs) n

/-- A row of probabilities of the ids below `n`. -/
structure Distr (n : Nat) (probs : Nat → ℝ) : Prop where
  nonneg : ∀ i, 0 ≤ probs i
  sum : ∑ i ∈ Finset.range n, probs i = 1
  out : ∀ i, n ≤ i → probs i = 0

/-! ## The draw -/

section Draw

variable {probs : Nat → ℝ} {n : Nat}

theorem positives_succ (probs : Nat → ℝ) (n : Nat) : positives probs (n + 1) =
    positives probs n ++ if 0 < probs n then [(n, probs n)] else [] := by
  rw [positives, List.range_succ, List.filterMap_append]
  congr 1
  split_ifs with h
  · simp [h]
  · simp [h]

theorem weights_positives (h : ∀ i, 0 ≤ probs i) (n : Nat) :
    weights (positives probs n) = ∑ i ∈ Finset.range n, probs i := by
  induction n with
  | zero => rfl
  | succ n ih =>
    rw [positives_succ, weights_append, ih, Finset.sum_range_succ]
    split_ifs with hpos
    · rw [weights_cons]
      simp [weights]
    · rw [le_antisymm (not_lt.mp hpos) (h n)]
      rfl

theorem weights_filter_positives (h : ∀ i, 0 ≤ probs i) (n id : Nat) :
    weights ((positives probs n).filter fun a => decide (a.1 = id)) = if id < n then probs id else 0 := by
  induction n with
  | zero => rfl
  | succ n ih =>
    rw [positives_succ, List.filter_append, weights_append, ih]
    by_cases hid : n = id
    · subst hid
      rw [if_neg (lt_irrefl n), if_pos (Nat.lt_succ_self n), zero_add]
      split_ifs with hpos
      · simp [weights]
      · rw [le_antisymm (not_lt.mp hpos) (h n)]
        rfl
    · have hnone : ((if 0 < probs n then [(n, probs n)] else []).filter
          fun a => decide (a.1 = id)) = [] := by
        split_ifs <;> simp [hid]
      have hlt : id < n + 1 ↔ id < n := by omega
      rw [hnone, if_congr hlt rfl rfl]
      simp [weights]

theorem mem_positives {a : Nat × ℝ} (h : a ∈ positives probs n) :
    a.1 < n ∧ 0 < a.2 ∧ a.2 = probs a.1 := by
  obtain ⟨i, hi, hsome⟩ := List.mem_filterMap.mp h
  split_ifs at hsome with hpos
  obtain rfl := Option.some.inj hsome
  exact ⟨List.mem_range.mp hi, hpos, rfl⟩

theorem positives_pairwise (probs : Nat → ℝ) (n : Nat) :
    (positives probs n).Pairwise fun a b => a.1 ≠ b.1 := by
  rw [positives, List.pairwise_filterMap]
  refine List.pairwise_lt_range.imp fun {i j} hij a ha b hb => ?_
  split_ifs at ha with hi
  split_ifs at hb with hj
  obtain rfl := Option.some.inj ha
  obtain rfl := Option.some.inj hb
  exact hij.ne

theorem bestProb_lt (probs : Nat → ℝ) (hn : 0 < n) : bestProb probs n < n := by
  have hrun : ∀ (l : List Nat) (best : Nat × ℝ), (∀ i ∈ l, i < n) → best.1 < n →
      (l.foldl (fun best i => if best.2 < probs i then (i, probs i) else best) best).1 < n := by
    intro l
    induction l with
    | nil =>
      intro best _ hbest
      exact hbest
    | cons i l ih =>
      intro best hl hbest
      apply ih _ (fun j hj => hl j (by simp [hj]))
      dsimp only
      split_ifs
      · exact hl i (by simp)
      · exact hbest
  exact hrun _ _ (fun i hi => List.mem_range.mp hi) hn

theorem walk_lt {l : List (Nat × ℝ)} {last : Nat} (hl : ∀ a ∈ l, a.1 < n) (hlast : last < n) (r : ℝ) :
    walk l r last < n := by
  induction l generalizing r with
  | nil => exact hlast
  | cons a l ih =>
    rw [walk]
    split_ifs
    · exact hl a (by simp)
    · exact ih (fun b hb => hl b (by simp [hb])) _

theorem measurable_walk (l : List (Nat × ℝ)) (last : Nat) {f : ℝ → ℝ} (hf : Measurable f) :
    Measurable fun u => walk l (f u) last := by
  induction l generalizing f with
  | nil => exact measurable_const
  | cons a l ih =>
    have hsub : Measurable fun u => f u - a.2 := hf.sub_const _
    exact Measurable.ite (measurableSet_le hsub measurable_const) measurable_const (ih hsub)

/-- **A draw from probabilities.** -/
theorem sampleProbabilities_hasLaw (h : ∀ i, 0 ≤ probs i) (hn : 0 < n)
    (hsum : 0 < ∑ i ∈ Finset.range n, probs i) :
    (sampleProbabilities probs n).HasLaw n
      fun i => ENNReal.ofReal (probs i / ∑ i ∈ Finset.range n, probs i) := by
  have hweights := weights_positives h n
  have hne : positives probs n ≠ [] := by
    intro hnil
    rw [hnil] at hweights
    exact hsum.ne hweights
  have hpositive : ¬weights (positives probs n) ≤ 0 := hweights ▸ hsum.not_ge
  unfold sampleProbabilities
  simp only [if_neg hpositive]
  have hmeasurable := measurable_walk (positives probs n) (bestProb probs n)
    (measurable_id.mul_const (weights (positives probs n)))
  refine (RandProg.hasLaw_draw hmeasurable fun u => ?_).congr fun i hi => ?_
  · exact walk_lt (fun a ha => (mem_positives ha).1) (bestProb_lt probs hn) _
  · have hvolume := volume_walk (positives_pairwise probs n) (fun a ha => (mem_positives ha).2.1) hne
      (bestProb probs n) i
    rw [weights_filter_positives h, if_pos hi] at hvolume
    rw [← hweights]
    exact hvolume

theorem Distr.hasLaw (h : Distr n probs) (hn : 0 < n) :
    (sampleProbabilities probs n).HasLaw n fun i => ENNReal.ofReal (probs i) := by
  have hone : 0 < ∑ i ∈ Finset.range n, probs i := by
    rw [h.sum]
    exact one_pos
  refine (sampleProbabilities_hasLaw h.nonneg hn hone).congr fun i _ => ?_
  rw [h.sum, div_one]

theorem Distr.sum_ofReal (h : Distr n probs) :
    ∑ i ∈ Finset.range n, ENNReal.ofReal (probs i) = 1 := by
  rw [← ENNReal.ofReal_sum_of_nonneg fun i _ => h.nonneg i, h.sum, ENNReal.ofReal_one]

theorem Distr.ofReal_le_one (h : Distr n probs) {i : Nat} (hi : i < n) : ENNReal.ofReal (probs i) ≤ 1 := by
  rw [← h.sum_ofReal]
  exact Finset.single_le_sum (f := fun i => ENNReal.ofReal (probs i)) (fun _ _ => zero_le)
    (Finset.mem_range.mpr hi)

end Draw

/-! ## The residual -/

section Residual

variable {target draft : Nat → ℝ} {n : Nat}

theorem residual_nonneg (i : Nat) : 0 ≤ residual target draft i := by
  unfold residual
  split_ifs with h
  · exact h.le
  · exact le_rfl

theorem ofReal_residual (hq : ∀ i, 0 ≤ draft i) (i : Nat) :
    ENNReal.ofReal (residual target draft i) =
      ENNReal.ofReal (target i) - ENNReal.ofReal (draft i) := by
  rw [← ENNReal.ofReal_sub _ (hq i)]
  unfold residual
  split_ifs with h
  · rfl
  · rw [ENNReal.ofReal_zero, ENNReal.ofReal_of_nonpos (not_lt.mp h)]

theorem sum_map_range (f : Nat → ℝ) (n : Nat) :
    ((List.range n).map f).sum = ∑ i ∈ Finset.range n, f i := by
  induction n with
  | zero => rfl
  | succ n ih => simp [List.range_succ, Finset.sum_range_succ, ih]

/-- **The residual draw**, weighted by the mass of the residual. -/
theorem sampleResidualProbabilities_expect (hq : ∀ i, 0 ≤ draft i) (hn : 0 < n) (f : Nat → ENNReal) :
    (∑ i ∈ Finset.range n, (ENNReal.ofReal (target i) - ENNReal.ofReal (draft i))) *
        (sampleResidualProbabilities target draft n).expect f =
      ∑ i ∈ Finset.range n, (ENNReal.ofReal (target i) - ENNReal.ofReal (draft i)) * f i := by
  have hnonneg : ∀ i, 0 ≤ residual target draft i := residual_nonneg
  simp only [← ofReal_residual hq]
  unfold sampleResidualProbabilities
  rw [sum_map_range, ← ENNReal.ofReal_sum_of_nonneg fun i _ => hnonneg i]
  generalize residual target draft = excess at hnonneg ⊢
  by_cases hzero : ∑ i ∈ Finset.range n, excess i ≤ 0
  · have hall : ∀ i ∈ Finset.range n, excess i = 0 := by
      refine (Finset.sum_eq_zero_iff_of_nonneg fun i _ => hnonneg i).mp (le_antisymm hzero ?_)
      exact Finset.sum_nonneg fun i _ => hnonneg i
    rw [ENNReal.ofReal_of_nonpos hzero, zero_mul]
    refine (Finset.sum_eq_zero fun i hi => ?_).symm
    rw [hall i hi, ENNReal.ofReal_zero, zero_mul]
  · have hpos := not_le.mp hzero
    rw [if_neg hzero, sampleProbabilities_hasLaw hnonneg hn hpos f, Finset.mul_sum]
    refine Finset.sum_congr rfl fun i _ => ?_
    rw [← mul_assoc, ← ENNReal.ofReal_mul hpos.le, mul_div_cancel₀ _ hpos.ne']

end Residual

/-! ## The built row -/

section Built

variable {row : List (Candidate ℝ)} {n : Nat}

/-- A row of candidates with positive weights and distinct ids below `n`. -/
structure Within (n : Nat) (row : List (Candidate ℝ)) : Prop where
  pos : ∀ c ∈ row, 0 < c.prob
  lt : ∀ c ∈ row, c.id < n
  ids : row.Pairwise fun a b => a.id ≠ b.id

theorem Within.perm {row' : List (Candidate ℝ)} (h : Within n row) (hperm : row'.Perm row) :
    Within n row' :=
  ⟨fun c hc => h.pos c (hperm.mem_iff.mp hc), fun c hc => h.lt c (hperm.mem_iff.mp hc),
    (hperm.pairwise_iff fun {_ _} hab => hab.symm).mpr h.ids⟩

theorem Within.sublist {row' : List (Candidate ℝ)} (h : Within n row) (hsub : row'.Sublist row) :
    Within n row' :=
  ⟨fun c hc => h.pos c (hsub.subset hc), fun c hc => h.lt c (hsub.subset hc), h.ids.sublist hsub⟩

theorem sum_weightOf (h : ∀ c ∈ row, c.id < n) :
    ∑ id ∈ Finset.range n, weightOf row id = mass row := by
  induction row with
  | nil => exact Finset.sum_eq_zero fun _ _ => rfl
  | cons a row ih =>
    have hsplit : ∀ id, weightOf (a :: row) id = (if a.id = id then a.prob else 0) + weightOf row id := by
      intro id
      rw [weightOf, List.filter_cons]
      by_cases hid : a.id = id
      · simp [hid, weightOf]
      · simp [hid, weightOf]
    simp only [hsplit]
    rw [Finset.sum_add_distrib, Finset.sum_ite_eq, if_pos (Finset.mem_range.mpr (h a (by simp))),
      ih fun c hc => h c (by simp [hc]), mass_cons]

theorem distr_single {id : Nat} (h : id < n) : Distr n (single id) := by
  constructor
  · intro i
    rw [single, Function.update_apply]
    split_ifs
    · exact zero_le_one
    · exact le_rfl
  · simp only [single, Function.update_apply]
    rw [Finset.sum_ite_eq', if_pos (Finset.mem_range.mpr h)]
  · intro i hi
    rw [single, Function.update_apply, if_neg (by omega)]

theorem distr_scatter (h : Within n row) (hne : 0 < mass row) : Distr n (scatter (1 / mass row) row) := by
  constructor
  · intro i
    rw [scatter_eq _ h.ids]
    exact mul_nonneg (mass_nonneg fun c hc => h.pos c (List.mem_of_mem_filter hc))
      (one_div_nonneg.mpr hne.le)
  · simp only [scatter_eq _ h.ids]
    rw [← Finset.sum_mul, sum_weightOf h.lt, mul_one_div, div_self hne.ne']
  · intro i hi
    have hnone : row.filter (fun c => decide (c.id = i)) = [] := by
      rw [List.filter_eq_nil_iff]
      intro c hc
      have := h.lt c hc
      rw [decide_eq_true_eq]
      omega
    rw [scatter_eq _ h.ids, weightOf, hnone, mass_nil, zero_mul]

theorem sampleArgmax_lt {logits : List (Logit ℝ)} (h : logits ≠ []) :
    sampleArgmax logits < logits.length := by
  have hrun : ∀ (l : List (Logit ℝ × Nat)) (best : Nat × Logit ℝ), (∀ v ∈ l, v.2 < logits.length) →
      best.1 < logits.length →
      (l.foldl (fun best v => if v.1.gt best.2 then (v.2, v.1) else best) best).1 < logits.length := by
    intro l
    induction l with
    | nil =>
      intro best _ hbest
      exact hbest
    | cons v l ih =>
      intro best hl hbest
      apply ih _ (fun w hw => hl w (by simp [hw]))
      dsimp only
      split_ifs
      · exact hl v (by simp)
      · exact hbest
  refine hrun _ _ (fun v hv => ?_) (List.length_pos_iff.mpr h)
  obtain ⟨hlt, -⟩ := List.getElem?_eq_some_iff.mp (List.mem_zipIdx_iff_getElem?.mp hv)
  exact hlt

theorem distr_cut {low enough : ℝ → Bool} (h : Within n row) (hn : 0 < n) :
    Distr n (if (cut low enough row).filtered = 0 ∨ (cut low enough row).filteredSum ≤ 0 then
        single (row.headD ⟨0, 0, 0⟩).id
      else scatter (1 / (cut low enough row).filteredSum) (row.take (cut low enough row).filtered)) := by
  split_ifs with hcut
  · apply distr_single
    cases row with
    | nil => exact hn
    | cons a row => exact h.lt a (by simp)
  · obtain ⟨htake, -, hsum⟩ := @cut_spec _ _ low enough row
    rw [hsum, ← htake] at hcut ⊢
    exact distr_scatter (h.sublist (List.take_sublist _ _)) (not_le.mp fun h0 => hcut (Or.inr h0))

/-- **What is built from any row of logits is a distribution.** -/
theorem sampleBuildProbabilities_distr {expf : ℝ → ℝ} (hexp : ∀ x, 0 < expf x)
    {logits : List (Logit ℝ)} (hne : logits ≠ []) {temperature : ℝ} (ht : 0 < temperature)
    (fullProbs : Bool) (topK : Int) (topP minP : ℝ) :
    ∃ probs, sampleBuildProbabilities expf fullProbs logits temperature topK topP minP = some probs ∧
      Distr logits.length probs := by
  have hn := List.length_pos_iff.mpr hne
  have hargmax := distr_single (sampleArgmax_lt hne)
  have hwithin : ∀ maxLogit, Within logits.length
      ((entries logits).map (candidate expf maxLogit temperature)) := by
    intro maxLogit
    refine ⟨fun c hc => ?_, fun c hc => ?_, ?_⟩
    · obtain ⟨e, -, rfl⟩ := List.mem_map.mp hc
      exact hexp _
    · obtain ⟨e, he, rfl⟩ := List.mem_map.mp hc
      obtain ⟨hlt, -⟩ := List.getElem?_eq_some_iff.mp (mem_entries.1 he)
      exact hlt
    · rw [List.pairwise_map]
      exact (entries_pairwise logits).imp fun hab => hab.ne
  unfold sampleBuildProbabilities
  rw [if_neg hne, if_neg ht.not_ge]
  simp only []
  by_cases hfinite : (scanMax (entries logits)).finite = 0
  · rw [if_pos hfinite]
    exact ⟨_, rfl, hargmax⟩
  rw [if_neg hfinite]
  by_cases hfull : clampTopK topK logits.length = 0 ∧ 1 ≤ clampTopP topP ∧ clampMinP minP ≤ 0 ∧
      fullProbs = true
  · rw [if_pos hfull]
    simp only [mul_one_div]
    by_cases hsum : 0 < mass ((entries logits).map
        (candidate expf (scanMax (entries logits)).maxLogit temperature))
    · exact ⟨_, if_neg (not_not.mpr hsum), distr_scatter (hwithin _) hsum⟩
    · exact ⟨_, if_pos hsum, hargmax⟩
  · rw [if_neg hfull]
    obtain ⟨cap, hcapdef⟩ : ∃ cap, cap = if 0 < clampTopK topK logits.length then
      clampTopK topK logits.length else 512 := ⟨_, rfl⟩
    have hcap : 0 < cap := by
      rw [hcapdef]
      split_ifs <;> omega
    rw [← hcapdef]
    have hcands := hwithin (scanMax (entries logits)).maxLogit
    generalize (entries logits).map (candidate expf (scanMax (entries logits)).maxLogit temperature) =
      cands at hcands ⊢
    have hheap : Within logits.length
        (sortCandidates (Heap.entries (heapPass cap cands).n (heapPass cap cands).heap)) := by
      obtain ⟨rest, hperm, -⟩ := (heapPass_inv hcap cands).largest
      exact ((hcands.perm hperm).sublist (List.sublist_append_left _ rest)).perm
        (sortCandidates_perm _)
    have hall : Within logits.length (sortCandidates cands) := hcands.perm (sortCandidates_perm _)
    generalize heapPass cap cands = pass at hheap ⊢
    generalize sortCandidates (Heap.entries pass.n pass.heap) = heap at hheap ⊢
    by_cases hnone : pass.fullSum ≤ 0 ∨ pass.n = 0
    · rw [if_pos hnone]
      exact ⟨_, rfl, hargmax⟩
    rw [if_neg hnone]
    -- the heap decides, or the candidates are sorted as a whole: either way a row is cut
    generalize (decide (0 < clampTopK topK logits.length) || decide (pass.n = _) || _ || _) = fast
    cases fast
    · simp only [Bool.false_eq_true, if_false, ← apply_ite some]
      exact ⟨_, rfl, distr_cut hall hn⟩
    · simp only [if_true, ← apply_ite some]
      exact ⟨_, rfl, distr_cut hheap hn⟩

end Built

end Ds4.Sampler
