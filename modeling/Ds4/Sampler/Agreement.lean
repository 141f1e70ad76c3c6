import Ds4.Sampler.Distribution
import Mathlib.Analysis.SpecialFunctions.Exp
import Mathlib.Analysis.Complex.ExponentialBounds

/-!
# The samplers agree

The built distribution and every way of drawing give the reference distribution over the reals. A
`min_p` above one leaves the top id alone, and the scan of the vocabulary returns it without a draw.
-/

namespace Ds4.Sampler

open Ds4.Lib MeasureTheory

section Pick

variable {K : Type*} [Field K] [LinearOrder K] {expf logf nextBelow : K → K}
  {logits : List (Logit K)} {temperature : K} {topK : Int} {topP minP : K}

theorem one_lt_clampMinP [IsStrictOrderedRing K] : 1 < clampMinP minP ↔ 1 < minP := by
  unfold clampMinP
  split_ifs with h
  · exact iff_of_false (by simp) (not_lt.mpr (h.le.trans zero_le_one))
  · rfl

variable [IsStrictOrderedRing K]

theorem support_ok (hexp : ExpLike expf) (ht : 0 < temperature)
    (habove : ∃ x, Logit.fin x ∈ logits ∧ negInf < x) :
    RowOk (support expf logits temperature topK topP minP) ∧
      support expf logits temperature topK topP minP ≠ [] := by
  obtain ⟨hok, hne, -⟩ := facts hexp ht habove
  refine ⟨?_, nucleus_ne_nil (limited_ne_nil hne)⟩
  have hlimited : limited topK (ranked expf logits temperature) <+: ranked expf logits temperature := by
    rw [limited]
    split_ifs
    · exact List.prefix_rfl
    · exact List.take_prefix _ _
  exact hok.of_prefix ((nucleus_isPrefix _ _ _).trans hlimited)

/-- **Each way draws once from the support**, but for a `min_p` above one without other limits. -/
theorem sampleTopPMinP_draws (hexp : ExpLike expf) (ht : 0 < temperature)
    (habove : ∃ x, Logit.fin x ∈ logits ∧ negInf < x)
    (h : ¬(topK ≤ 0 ∧ 1 ≤ clampTopP topP ∧ 1 < minP)) :
    Draws (sampleTopPMinP expf logf nextBelow logits temperature topK topP minP)
      (support expf logits temperature topK topP minP) := by
  obtain ⟨hfinite, hpos, -⟩ := @ready _ _ _ expf logits temperature habove
  unfold sampleTopPMinP
  rw [if_neg ht.not_ge]
  split_ifs with hk
  · unfold sampleFullVocab
    simp only []
    rw [if_neg (by omega)]
    by_cases hp : clampTopP topP < 1
    · rw [if_pos hp]
      cases hfast : sampleFastTopP expf (entries logits) (scanMax (entries logits)) temperature
          (clampTopP topP) (clampMinP minP) with
      | some pick => exact sampleFastTopP_draws hexp ht habove hk hfast
      | none =>
        simp only [if_neg hp.not_ge]
        exact sortFullVocab_draws hexp ht habove hk
    · rw [if_neg hp]
      rw [not_lt] at hp
      simp only [if_pos hp]
      refine scanFullVocab_draws hexp ht habove hk hp (not_lt.mp fun hmin => ?_)
      exact h ⟨hk, hp, one_lt_clampMinP.1 hmin⟩
  · exact sampleTopK_draws hexp ht habove (not_le.mp hk)

omit [IsStrictOrderedRing K] in
theorem sampleTopPMinP_scan (ht : 0 < temperature) (hk : topK ≤ 0) (hp : 1 ≤ clampTopP topP)
    (hfinite : (scanMax (entries logits)).finite ≠ 0) :
    sampleTopPMinP expf logf nextBelow logits temperature topK topP minP =
      scanFullVocab expf logf nextBelow (entries logits) (scanMax (entries logits)) temperature
        (clampMinP minP) := by
  unfold sampleTopPMinP sampleFullVocab
  simp only []
  rw [if_neg ht.not_ge, if_pos hk, if_neg hfinite, if_neg hp.not_gt]
  simp only [if_pos hp]

theorem sampleTopPMinP_fixed (hexp : ExpLike expf) (ht : 0 < temperature)
    (habove : ∃ x, Logit.fin x ∈ logits ∧ negInf < x)
    (h : topK ≤ 0 ∧ 1 ≤ clampTopP topP ∧ 1 < minP) :
    ∃ id, sampleTopPMinP expf logf nextBelow logits temperature topK topP minP = .fixed id ∧
      reference expf logits temperature topK topP minP id = 1 := by
  obtain ⟨hk, hp, hmin⟩ := h
  obtain ⟨hfinite, hpos, -⟩ := @ready _ _ _ expf logits temperature habove
  obtain ⟨hok, hne, hmass, top, htop, hone, hid⟩ := facts hexp ht habove
  refine ⟨(scanMax (entries logits)).best, ?_, ?_⟩
  · rw [sampleTopPMinP_scan ht hk hp (by omega)]
    unfold scanFullVocab
    simp only []
    rw [if_pos (by rw [clampMinP_clampMinP]; exact one_lt_clampMinP.2 hmin)]
  · cases hrow : ranked expf logits temperature with
    | nil => exact absurd hrow hne
    | cons a row =>
      rw [hrow] at htop hok
      obtain rfl : a = top := Option.some.inj htop
      have hsupport : support expf logits temperature topK topP minP = [a] := by
        have hrest : row.takeWhile (fun b => !decide (b.prob < clampMinP minP)) = [] := by
          cases row with
          | nil => rfl
          | cons b row =>
            have hfall := (List.pairwise_cons.mp hok.falling).1 b (by simp)
            have hlow : b.prob < clampMinP minP :=
              (hfall.trans hone.le).trans_lt (one_lt_clampMinP.2 hmin)
            rw [List.takeWhile_cons, decide_eq_true hlow, if_neg (by simp)]
        rw [support, limited, if_pos hk, rowNucleus, nucleus, hrow, cutLow]
        simp only [List.headD_cons, hone, one_mul, hrest]
        simp [cutEnough]
      rw [reference, hsupport, ← hid]
      simp [weightOf, hone]

end Pick

section Real

variable {row : List (Candidate ℝ)}

theorem weights_filter_weighted (row : List (Candidate ℝ)) (id : Nat) :
    weights ((row.map Candidate.weighted).filter fun a => decide (a.1 = id)) = weightOf row id := by
  rw [List.filter_map, weights, weightOf, sum_weighted]
  rfl

theorem Draws.volume_eq {pick : Pick ℝ} (h : Draws pick row) (hok : RowOk row) (hne : row ≠ []) :
    ∃ f, pick = .drawn f ∧ ∀ id, volume {u : ℝ | 0 ≤ u ∧ u < 1 ∧ f u = id} =
      ENNReal.ofReal (weightOf row id / mass row) := by
  obtain ⟨l, last, rfl, hperm⟩ := h
  refine ⟨_, rfl, fun id => ?_⟩
  have hids : l.Pairwise fun a b => a.1 ≠ b.1 := by
    refine (hperm.pairwise_iff fun {a b} hab => hab.symm).mpr ?_
    rw [List.pairwise_map]
    exact hok.ids
  have hpos : ∀ a ∈ l, 0 < a.2 := by
    intro a ha
    obtain ⟨c, hc, rfl⟩ := List.mem_map.mp (hperm.mem_iff.mp ha)
    exact hok.pos c hc
  have hl : l ≠ [] := by
    rintro rfl
    exact hne (List.map_eq_nil_iff.mp hperm.nil_eq.symm)
  have htotal : weights l = mass row := by
    rw [weights, (hperm.map Prod.snd).sum_eq, sum_weighted]
  have hweight : weights (l.filter fun a => decide (a.1 = id)) = weightOf row id := by
    rw [← weights_filter_weighted, weights, weights, ((hperm.filter _).map Prod.snd).sum_eq]
  rw [← htotal, ← hweight]
  exact volume_walk hids hpos hl last id

/-- **The samplers agree.** The distribution that is built, whichever way decides it, is the
reference, and a draw returns each id with its probability in the reference; when `min_p` alone leaves
one id, it is returned without a draw. -/
theorem samplers_agree {expf : ℝ → ℝ} (hexp : ExpLike expf) (logf nextBelow : ℝ → ℝ)
    {logits : List (Logit ℝ)} (habove : ∃ x, Logit.fin x ∈ logits ∧ negInf < x)
    {temperature : ℝ} (ht : 0 < temperature) (topK : Int) (topP minP : ℝ) :
    (∀ fullProbs, sampleBuildProbabilities expf fullProbs logits temperature topK topP minP =
      some (reference expf logits temperature topK topP minP)) ∧
    if topK ≤ 0 ∧ 1 ≤ clampTopP topP ∧ 1 < minP then
      ∃ id, sampleTopPMinP expf logf nextBelow logits temperature topK topP minP = .fixed id ∧
        reference expf logits temperature topK topP minP id = 1
    else
      ∃ f, sampleTopPMinP expf logf nextBelow logits temperature topK topP minP = .drawn f ∧
        ∀ id, volume {u : ℝ | 0 ≤ u ∧ u < 1 ∧ f u = id} =
          ENNReal.ofReal (reference expf logits temperature topK topP minP id) := by
  refine ⟨fun fullProbs => sampleBuildProbabilities_eq hexp ht habove fullProbs topK topP minP, ?_⟩
  split_ifs with h
  · exact sampleTopPMinP_fixed hexp ht habove h
  · obtain ⟨hok, hne⟩ := @support_ok _ _ _ expf logits temperature topK topP minP _ hexp ht habove
    exact (sampleTopPMinP_draws hexp ht habove h).volume_eq hok hne

/-! ## Concrete rows -/

theorem expLike_exp : ExpLike Real.exp := ⟨Real.exp_pos, Real.exp_strictMono, Real.exp_zero⟩

theorem samplers_agree_two :
    (ExpLike Real.exp ∧ (∃ x, Logit.fin x ∈ [Logit.fin (0 : ℝ), .nan, .fin 1] ∧ negInf < x) ∧
      (0 : ℝ) < 1) ∧
    (∀ fullProbs, sampleBuildProbabilities Real.exp fullProbs [.fin 0, .nan, .fin 1] 1 2 (1 / 2) 0 =
      some (reference Real.exp [.fin 0, .nan, .fin 1] 1 2 (1 / 2) 0)) ∧
    if (2 : Int) ≤ 0 ∧ (1 : ℝ) ≤ clampTopP (1 / 2) ∧ (1 : ℝ) < 0 then
      ∃ id, sampleTopPMinP Real.exp Real.log (fun x => x - 1 / 2 ^ 24) [.fin 0, .nan, .fin 1] 1 2
          (1 / 2) 0 = .fixed id ∧
        reference Real.exp [.fin 0, .nan, .fin 1] 1 2 (1 / 2) 0 id = 1
    else
      ∃ f, sampleTopPMinP Real.exp Real.log (fun x => x - 1 / 2 ^ 24) [.fin 0, .nan, .fin 1] 1 2
          (1 / 2) 0 = .drawn f ∧
        ∀ id, volume {u : ℝ | 0 ≤ u ∧ u < 1 ∧ f u = id} =
          ENNReal.ofReal (reference Real.exp [.fin 0, .nan, .fin 1] 1 2 (1 / 2) 0 id) := by
  have habove : ∃ x, Logit.fin x ∈ [Logit.fin (0 : ℝ), .nan, .fin 1] ∧ negInf < x :=
    ⟨1, by simp, by norm_num [negInf]⟩
  exact ⟨⟨expLike_exp, habove, one_pos⟩,
    samplers_agree expLike_exp Real.log (fun x => x - 1 / 2 ^ 24) habove one_pos 2 (1 / 2) 0⟩

theorem mem_replicate_above (n : Nat) :
    ∃ x : ℝ, Logit.fin x ∈ List.replicate (n + 1) (Logit.fin 0) ∧ negInf < x :=
  ⟨0, by simp, by norm_num [negInf]⟩

theorem exists_weightOf_eq_zero {n : Nat} (h : row.length < n) :
    ∃ id < n, weightOf row id = (0 : ℝ) := by
  have hcard : (row.map Candidate.id).toFinset.card < (Finset.range n).card := by
    rw [Finset.card_range]
    exact (List.toFinset_card_le _).trans_lt (by rwa [List.length_map])
  obtain ⟨id, hid, hnot⟩ := Finset.exists_mem_notMem_of_card_lt_card hcard
  refine ⟨id, Finset.mem_range.mp hid, ?_⟩
  have hnone : row.filter (fun c => decide (c.id = id)) = [] := by
    rw [List.filter_eq_nil_iff]
    intro c hc
    rw [decide_eq_true_eq]
    exact fun h => hnot (List.mem_toFinset.mpr (List.mem_map.mpr ⟨c, hc, h⟩))
  rw [weightOf, hnone, mass_nil]

theorem weightOf_pos (hok : RowOk row) {c : Candidate ℝ} (hc : c ∈ row) : 0 < weightOf row c.id :=
  mass_pos (fun a ha => hok.pos a (List.mem_of_mem_filter ha))
    (List.ne_nil_of_mem (List.mem_filter.mpr ⟨hc, decide_eq_true rfl⟩))

/-- Where the samplers leave the plain reading of the knobs: with a `min_p` above one there is no draw,
nor with no logit above `DS4_NEG_INF`; the scan takes `min_p` for a weight, not for a share of the top
one, so a top weight of two keeps more; 1025 ids are more than `top_k` keeps; and a `top_p` of zero
keeps all ids. -/
theorem samplers_disagree :
    sampleTopPMinP Real.exp Real.log (fun x => x - 1 / 2 ^ 24) [.fin 0] 1 0 1 2 = .fixed 0 ∧
    sampleTopPMinP Real.exp Real.log (fun x => x - 1 / 2 ^ 24) [.fin (-2 * 10 ^ 30)] 1 0 1 (1 / 2) =
      .fixed 0 ∧
    (∃ f, sampleTopPMinP (fun x => 2 * Real.exp x) Real.log (fun x => x - 1 / 2 ^ 24)
        [.fin 0, .fin (-1)] 1 0 1 (7 / 10) = .drawn f ∧
      (∀ u, 9 / 10 < u → u < 1 → f u = 1) ∧ 2 * Real.exp (-1) < 7 / 10 * (2 * Real.exp 0)) ∧
    (∃ probs, sampleBuildProbabilities Real.exp true (List.replicate 1025 (.fin 0)) 1 1025 1 0 =
        some probs ∧ ∃ id < 1025, probs id = 0) ∧
    ∃ probs, sampleBuildProbabilities Real.exp true [.fin 0, .fin 0] 1 0 0 0 = some probs ∧
      0 < probs 1 := by
  have hmono : StrictMono fun x : ℝ => 2 * Real.exp x := fun x y h => by
    have := Real.exp_strictMono h
    simpa using this
  refine ⟨?_, ?_, ?_, ?_, ?_⟩
  · have hentries : entries [Logit.fin (0 : ℝ)] = [(0, 0)] := rfl
    have hscan : scanMax [(0, (0 : ℝ))] = ⟨1, 0, 0⟩ := by
      norm_num [scanMax, Scan.step, negInf]
    rw [sampleTopPMinP_scan one_pos le_rfl (by norm_num [clampTopP]) (by rw [hentries, hscan]; simp),
      hentries, hscan, scanFullVocab, if_pos (by norm_num [clampMinP])]
  · have hentries : entries [Logit.fin (-2 * 10 ^ 30 : ℝ)] = [(0, -2 * 10 ^ 30)] := rfl
    have hscan : scanMax [(0, (-2 * 10 ^ 30 : ℝ))] = ⟨1, negInf, 0⟩ := by
      norm_num [scanMax, Scan.step, negInf]
    have hlow : Real.exp ((-2 * 10 ^ 30 - negInf) / 1) < clampMinP (clampMinP (1 / 2)) := by
      have hle : Real.exp ((-2 * 10 ^ 30 - negInf) / 1) ≤ Real.exp (-1) :=
        Real.exp_le_exp.mpr (by norm_num [negInf])
      refine (hle.trans_lt Real.exp_neg_one_lt_d9).trans ?_
      norm_num [clampMinP]
    rw [sampleTopPMinP_scan one_pos le_rfl (by norm_num [clampTopP]) (by rw [hentries, hscan]; simp),
      hentries, hscan, scanFullVocab_eq Real.exp_strictMono _ _ (by norm_num [clampMinP])]
    simp only [List.map_cons, List.map_nil, candidate, List.filter_cons, hlow, decide_true, Bool.not_true,
      Bool.false_eq_true, if_false, List.filter_nil, List.sum_nil, le_refl, if_true]
  · have hentries : entries [Logit.fin (0 : ℝ), .fin (-1)] = [(0, 0), (1, -1)] := rfl
    have hscan : scanMax [(0, (0 : ℝ)), (1, -1)] = ⟨2, 0, 0⟩ := by
      norm_num [scanMax, Scan.step, negInf]
    have hgt := Real.exp_neg_one_gt_d9
    have hlt := Real.exp_neg_one_lt_d9
    have hone : Real.exp 0 = 1 := Real.exp_zero
    rw [sampleTopPMinP_scan one_pos le_rfl (by norm_num [clampTopP]) (by rw [hentries, hscan]; simp),
      hentries, hscan, scanFullVocab_eq hmono _ _ (by norm_num [clampMinP])]
    have hmin : clampMinP (clampMinP (7 / 10 : ℝ)) = 7 / 10 := by norm_num [clampMinP]
    have hkeep : ¬2 * Real.exp (-1) < 7 / 10 := by linarith
    simp only [List.map_cons, List.map_nil, candidate, hmin, sub_zero, div_one, hone, List.filter_cons,
      List.filter_nil]
    norm_num [hkeep, Candidate.weighted]
    rw [if_neg (by linarith)]
    refine ⟨_, rfl, fun u hlow hhigh => ?_, by linarith⟩
    have hfirst : ¬u * (2 + 2 * Real.exp (-1)) - 2 ≤ 0 := by nlinarith
    have hsecond : u * (2 + 2 * Real.exp (-1)) - 2 - 2 * Real.exp (-1) ≤ 0 := by nlinarith
    rw [walk, if_neg hfirst, walk, if_pos hsecond]
  · refine ⟨_, sampleBuildProbabilities_eq expLike_exp one_pos (mem_replicate_above 1024) _ _ _ _, ?_⟩
    have hlen : (support Real.exp (List.replicate 1025 (.fin 0)) 1 1025 1 0).length < 1025 := by
      refine (nucleus_isPrefix _ _ _).length_le.trans_lt ?_
      rw [limited, if_neg (by norm_num)]
      exact (List.length_take_le _ _).trans_lt (by norm_num)
    obtain ⟨id, hid, hzero⟩ := exists_weightOf_eq_zero hlen
    exact ⟨id, hid, by rw [reference, hzero, zero_div]⟩
  · have habove := mem_replicate_above 1
    have hok : RowOk (ranked Real.exp (List.replicate 2 (.fin (0 : ℝ))) 1) :=
      ranked_ok expLike_exp one_pos (entries_pairwise _)
    have hsupport : support Real.exp (List.replicate 2 (.fin (0 : ℝ))) 1 0 0 0 = _ :=
      support_untruncated hok le_rfl (by norm_num [clampTopP]) (by norm_num [clampMinP])
    have hmem : candidate Real.exp (topLogit (List.replicate 2 (.fin (0 : ℝ)))) 1 (1, 0) ∈
        ranked Real.exp (List.replicate 2 (.fin (0 : ℝ))) 1 :=
      (sortCandidates_perm _).mem_iff.mpr (List.mem_map_of_mem (mem_entries.2 rfl))
    refine ⟨_, sampleBuildProbabilities_eq expLike_exp one_pos habove _ _ _ _, ?_⟩
    rw [reference, hsupport]
    exact div_pos (weightOf_pos hok hmem) (mass_pos hok.pos (List.ne_nil_of_mem hmem))

end Real

end Ds4.Sampler
