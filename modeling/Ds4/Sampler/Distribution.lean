import Ds4.Sampler.Reference
import Mathlib.MeasureTheory.Measure.Lebesgue.Basic

/-!
# The samplers draw from the reference distribution

Each way of `sample_top_p_min_p` draws once from the weights of the support, in some order. The draws
that give an id are an interval as long as its probability.
-/

namespace Ds4.Sampler

open Ds4.Lib

variable {K : Type*} [Field K] [LinearOrder K]

/-- A pick that draws once from the weights of a row. -/
def Draws (pick : Pick K) (row : List (Candidate K)) : Prop :=
  ∃ l last, pick = .drawn (fun u => walk l (u * (l.map Prod.snd).sum) last) ∧
    l.Perm (row.map Candidate.weighted)

omit [LinearOrder K] in
theorem sum_weighted (row : List (Candidate K)) :
    ((row.map Candidate.weighted).map Prod.snd).sum = mass row := by
  rw [List.map_map]
  rfl

theorem drawFiltered_draws {row row' : List (Candidate K)} {c : Cut K} (htake : row.take c.filtered = row')
    (hsum : c.filteredSum = mass row') : Draws (drawFiltered row c) row' := by
  refine ⟨row'.map Candidate.weighted, (row'.getLastD ⟨0, 0, 0⟩).id, ?_, List.Perm.refl _⟩
  rw [drawFiltered, htake, hsum, sum_weighted]

theorem clampMinP_clampMinP (minP : K) : clampMinP (clampMinP minP) = clampMinP minP := by
  unfold clampMinP
  split_ifs <;> rfl

variable [IsStrictOrderedRing K]

/-- The samplers compare shares; the shares of a positive mass compare as the weights. -/
theorem low_share {m top minP : K} (hm : 0 < m) :
    (fun p => decide (p / m < top / m * minP)) = fun p => decide (p < top * minP) := by
  funext p
  exact decide_eq_decide.mpr (by rw [div_mul_eq_mul_div, div_lt_div_iff_of_pos_right hm])

section Ways

variable {expf : K → K} {logits : List (Logit K)} {temperature : K} {topP minP : K}

/-- What the ways share about the ranked row. -/
structure Facts (expf : K → K) (logits : List (Logit K)) (temperature : K) : Prop where
  ok : RowOk (ranked expf logits temperature)
  ne : ranked expf logits temperature ≠ []
  mass : 0 < mass (ranked expf logits temperature)
  head : ∃ c, (ranked expf logits temperature).head? = some c ∧ c.prob = 1 ∧
    c.id = (scanMax (entries logits)).best

theorem facts (hexp : ExpLike expf) (ht : 0 < temperature)
    (habove : ∃ x, Logit.fin x ∈ logits ∧ negInf < x) : Facts expf logits temperature := by
  obtain ⟨-, hpos, -, c, hc, hprob, hid, -⟩ := @ready _ _ _ expf logits temperature habove
  have hok : RowOk (ranked expf logits temperature) := ranked_ok hexp ht (entries_pairwise logits)
  have hne : ranked expf logits temperature ≠ [] := by
    rw [← List.length_pos_iff, length_ranked]
    exact hpos
  exact ⟨hok, hne, mass_pos hok.pos hne, c, hc, hprob.trans hexp.zero, hid⟩

theorem sampleFastTopP_draws (hexp : ExpLike expf) (ht : 0 < temperature)
    (habove : ∃ x, Logit.fin x ∈ logits ∧ negInf < x) {topK : Int} (hk : topK ≤ 0) {pick : Pick K}
    (h : sampleFastTopP expf (entries logits) (scanMax (entries logits)) temperature (clampTopP topP)
      (clampMinP minP) = some pick) :
    Draws pick (support expf logits temperature topK topP minP) := by
  obtain ⟨hfinite, hpos, hranked, -⟩ := @ready _ _ _ expf logits temperature habove
  obtain ⟨hok, hne, hmass, -⟩ := facts hexp ht habove
  have hlen := @length_ranked _ _ _ expf logits temperature
  unfold sampleFastTopP at h
  rw [if_neg (by omega)] at h
  by_cases hlarge : 512 < (scanMax (entries logits)).finite ∧ 999 / 1000 ≤ clampTopP topP
  · rw [if_pos hlarge] at h
    cases h
  rw [if_neg hlarge] at h
  obtain ⟨cap, hcapdef⟩ : ∃ cap, cap = if (scanMax (entries logits)).finite < 512 then
    (scanMax (entries logits)).finite else 512 := ⟨_, rfl⟩
  have hcap : 0 < cap := by
    rw [hcapdef]
    split_ifs <;> omega
  have hpass := @heap_front _ _ _ expf logits temperature habove cap hcap
  simp only [← hcapdef] at h
  generalize heapPass cap ((entries logits).map (candidate expf (scanMax (entries logits)).maxLogit
    temperature)) = pass at hpass h
  obtain ⟨hheap, hn, hheapSum, hfullSum⟩ := hpass
  rw [hfullSum, if_neg hmass.not_ge] at h
  by_cases hshort : pass.n < (scanMax (entries logits)).finite ∧
      pass.heapSum < clampTopP topP * mass (ranked expf logits temperature)
  · rw [if_pos hshort] at h
    cases h
  rw [if_neg hshort, hheap] at h
  simp only [headD_take hcap, low_share hmass, clampMinP_clampMinP] at h
  generalize hlow : (fun p : K => decide (p < ((ranked expf logits temperature).headD ⟨0, 0, 0⟩).prob *
    clampMinP minP)) = low at h
  generalize henough : (fun s : K => decide (clampTopP topP ≤ s /
    mass (ranked expf logits temperature))) = enough at h
  have hsupport : support expf logits temperature topK topP minP =
      nucleus low enough (ranked expf logits temperature) := by
    rw [support, limited, if_pos hk, rowNucleus, hlow, henough]
  have hcut : cut low enough ((ranked expf logits temperature).take cap) =
      cut low enough (ranked expf logits temperature) := by
    by_cases hall : pass.n < (scanMax (entries logits)).finite
    · by_cases hflag : (cut low enough ((ranked expf logits temperature).take cap)).stoppedByMinP = true ∨
          (cut low enough ((ranked expf logits temperature).take cap)).reachedTopP = true
      · exact cut_take hflag
      · -- the mass of the heap reaches the share, so the loop cannot run through it
        rw [not_or, Bool.not_eq_true, Bool.not_eq_true] at hflag
        obtain ⟨hsum, hno⟩ := @cutLoop_through _ _ low enough
          ((ranked expf logits temperature).take cap) ⟨0, 0, false, false⟩ ⟨rfl, rfl⟩ hflag
        have htakeNe : (ranked expf logits temperature).take cap ≠ [] := by
          rw [Ne, List.take_eq_nil_iff]
          exact fun h => h.elim (by omega) hne
        have hnot := hno htakeNe
        rw [hsum, zero_add, ← henough, decide_eq_false_iff_not, le_div_iff₀ hmass, ← hheapSum] at hnot
        exact absurd ⟨hall, not_le.mp hnot⟩ hshort
    · rw [List.take_of_length_le (by omega)]
  obtain ⟨htake, hcount, hsum⟩ := @cut_spec _ _ low enough (ranked expf logits temperature)
  have hcountNe : (cut low enough (ranked expf logits temperature)).filtered ≠ 0 := by
    rw [hcount]
    exact fun h0 => nucleus_ne_nil hne (List.length_eq_zero_iff.mp h0)
  have hfront := take_take_cut hcut
  rw [hcut, if_neg hcountNe] at h
  split_ifs at h
  obtain rfl := Option.some.inj h
  rw [hsupport]
  exact drawFiltered_draws (hfront.trans htake) hsum

omit [Field K] [LinearOrder K] [IsStrictOrderedRing K] in
theorem cutLow_cutLow (low : K → Bool) (row : List (Candidate K)) :
    cutLow low (cutLow low row) = cutLow low row := by
  cases row with
  | nil => rfl
  | cons a row => rw [cutLow, cutLow, List.takeWhile_takeWhile]; simp

omit [Field K] [IsStrictOrderedRing K] in
theorem sortCandidates_filter (p : Candidate K → Bool) {cands : List (Candidate K)} (hinj : KeyInj cands) :
    sortCandidates (cands.filter p) = (sortCandidates cands).filter p := by
  have hperm := ((sortCandidates_perm cands).filter p).symm
  refine eq_of_perm_of_desc (fun a ha b hb => ?_) ((sortCandidates_perm _).trans hperm)
    (sortCandidates_pairwise _) ((sortCandidates_pairwise cands).filter p)
  have hmem : ∀ c ∈ (sortCandidates cands).filter p, c ∈ cands := fun c hc =>
    (sortCandidates_perm cands).mem_iff.mp (List.mem_of_mem_filter hc)
  exact hinj a (hmem a ha) b (hmem b hb)

theorem sortFullVocab_draws (hexp : ExpLike expf) (ht : 0 < temperature)
    (habove : ∃ x, Logit.fin x ∈ logits ∧ negInf < x) {topK : Int} (hk : topK ≤ 0) :
    Draws (sortFullVocab expf (entries logits) (scanMax (entries logits)) temperature (clampTopP topP)
      (clampMinP minP)) (support expf logits temperature topK topP minP) := by
  obtain ⟨-, -, hranked, -⟩ := @ready _ _ _ expf logits temperature habove
  obtain ⟨hok, hne, hmass, top, htop, hone, -⟩ := facts hexp ht habove
  have hinj := @keyInj_candidates _ _ expf temperature (scanMax (entries logits)).maxLogit
    (entries logits)
  have hperm := sortCandidates_perm
    ((entries logits).map (candidate expf (scanMax (entries logits)).maxLogit temperature))
  rw [← hranked] at hperm
  generalize hcands : (entries logits).map (candidate expf (scanMax (entries logits)).maxLogit
    temperature) = cands at hperm hinj hranked
  have hsum : (cands.map Candidate.prob).sum = mass (ranked expf logits temperature) :=
    (mass_perm hperm).symm
  have hheadD : ((ranked expf logits temperature).headD ⟨0, 0, 0⟩).prob = 1 := by
    rw [List.headD_eq_head?_getD, htop]
    exact hone
  generalize hlow : (fun p : K => decide (p < ((ranked expf logits temperature).headD ⟨0, 0, 0⟩).prob *
    clampMinP minP)) = low
  generalize henough : (fun s : K => decide (clampTopP topP ≤ s /
    mass (ranked expf logits temperature))) = enough
  have hsupport : support expf logits temperature topK topP minP =
      nucleus low enough (ranked expf logits temperature) := by
    rw [support, limited, if_pos hk, rowNucleus, hlow, henough]
  -- the row that is sorted: its nucleus is that of the ranked row, with the same first candidate
  have hdraw : ∀ row, row.headD ⟨0, 0, 0⟩ = (ranked expf logits temperature).headD ⟨0, 0, 0⟩ →
      nucleus low enough row = nucleus low enough (ranked expf logits temperature) →
      Draws (
        let minProb := (row.headD ⟨0, 0, 0⟩).prob / mass (ranked expf logits temperature) *
          clampMinP (clampMinP minP)
        let c := cut (fun p => decide (p / mass (ranked expf logits temperature) < minProb))
          (fun s => decide (clampTopP topP ≤ s / mass (ranked expf logits temperature))) row
        if c.filtered = 0 then .fixed (scanMax (entries logits)).best else drawFiltered row c)
        (nucleus low enough (ranked expf logits temperature)) := by
    intro row hhead hnucleus
    simp only [hhead, low_share hmass, clampMinP_clampMinP, hlow, henough]
    obtain ⟨htake, hcount, hmassCut⟩ := @cut_spec _ _ low enough row
    rw [hnucleus] at htake hcount hmassCut
    rw [if_neg]
    · exact drawFiltered_draws htake hmassCut
    · rw [hcount]
      exact fun h0 => nucleus_ne_nil hne (List.length_eq_zero_iff.mp h0)
  rw [hsupport]
  unfold sortFullVocab
  simp only [hcands, hsum]
  rw [if_neg hmass.not_ge]
  by_cases hpre : 0 < clampMinP minP ∧ clampMinP minP ≤ 1
  · have hlowOne : ∀ p, decide (p / mass (ranked expf logits temperature) <
        1 / mass (ranked expf logits temperature) * clampMinP minP) = low p := by
      intro p
      rw [← hlow, hheadD]
      exact congrFun (low_share hmass) p
    have hfilter : sortCandidates (cands.filter fun c => !low c.prob) =
        cutLow low (ranked expf logits temperature) := by
      rw [sortCandidates_filter _ hinj, ← hranked]
      refine (cutLow_eq_filter (fun p q hpq hq => ?_) hok.falling fun c hc => ?_).symm
      · rw [← hlow] at hq ⊢
        exact decide_eq_true (hpq.trans_lt (of_decide_eq_true hq))
      · obtain rfl := Option.some.inj (htop.symm.trans hc)
        rw [← hlow, hheadD, hone, one_mul]
        exact decide_eq_false (not_lt.mpr hpre.2)
    have hhead : (cutLow low (ranked expf logits temperature)).headD ⟨0, 0, 0⟩ =
        (ranked expf logits temperature).headD ⟨0, 0, 0⟩ := by
      cases ranked expf logits temperature <;> rfl
    have hsome : ¬(cands.filter fun c => !low c.prob).length = 0 := by
      intro h0
      have hnil := List.length_eq_zero_iff.mp h0
      rw [hnil, sortCandidates, sortDesc, List.mergeSort_nil] at hfilter
      cases hrow : ranked expf logits temperature with
      | nil => exact hne hrow
      | cons a row =>
        rw [hrow] at hfilter
        cases hfilter
    simp only [hpre, true_and, if_true, hlowOne, and_self]
    rw [if_neg hsome, hfilter]
    exact hdraw _ hhead (by rw [nucleus, cutLow_cutLow, nucleus])
  · simp only [hpre, false_and, if_false]
    rw [← hranked]
    exact hdraw _ rfl rfl

omit [Field K] [IsStrictOrderedRing K] in
/-- The boundary only spares `expf` where the weight fails. -/
theorem rejectBoundary_sound {nextBelow : K → K} {minRel r : K} {n : Nat} {cutoff : K}
    (h : rejectBoundary expf nextBelow minRel n cutoff = some r) : expf r < minRel := by
  induction n generalizing cutoff with
  | zero => cases h
  | succ n ih =>
    rw [rejectBoundary] at h
    split_ifs at h with hlt
    · exact Option.some.inj h ▸ hlt
    · exact ih h

omit [IsStrictOrderedRing K] in
theorem scan_kept (hmono : StrictMono expf) {reject : Option K} {minRel maxLogit : K}
    (hreject : ∀ r, reject = some r → expf r < minRel) (es : List (Nat × K)) :
    es.filterMap (fun e =>
      if (reject.any fun r => decide ((e.2 - maxLogit) / temperature ≤ r)) = true then none
      else if expf ((e.2 - maxLogit) / temperature) < minRel then none
      else some (e.1, expf ((e.2 - maxLogit) / temperature))) =
      ((es.map (candidate expf maxLogit temperature)).filter
        fun c => !decide (c.prob < minRel)).map Candidate.weighted := by
  have hspared : ∀ scaled, (reject.any fun r => decide (scaled ≤ r)) = true → expf scaled < minRel := by
    intro scaled h
    cases reject with
    | none => cases h
    | some r => exact (hmono.monotone (of_decide_eq_true h)).trans_lt (hreject r rfl)
  induction es with
  | nil => rfl
  | cons e es ih =>
    rw [List.filterMap_cons, List.map_cons, List.filter_cons, ih]
    by_cases hfail : expf ((e.2 - maxLogit) / temperature) < minRel
    · have hnone : (!decide ((candidate expf maxLogit temperature e).prob < minRel)) = false := by
        simp only [candidate, hfail, decide_true, Bool.not_true]
      simp only [hfail, hnone, if_true, ite_self, Bool.false_eq_true, if_false]
    · have hpass : (!decide ((candidate expf maxLogit temperature e).prob < minRel)) = true := by
        simp only [candidate, hfail, decide_false, Bool.not_false]
      have hnot : ¬(reject.any fun r => decide ((e.2 - maxLogit) / temperature ≤ r)) = true :=
        fun h => hfail (hspared _ h)
      simp only [hfail, hpass, if_neg hnot, if_true, if_false]
      rfl

omit [IsStrictOrderedRing K] in
theorem scanFullVocab_eq {logf nextBelow : K → K} (hmono : StrictMono expf) (es : List (Nat × K))
    (scan : Scan K) (hmin : clampMinP minP ≤ 1) :
    scanFullVocab expf logf nextBelow es scan temperature minP =
      let kept := ((es.map (candidate expf scan.maxLogit temperature)).filter
        fun c => !decide (c.prob < clampMinP minP)).map Candidate.weighted
      let sum := (kept.map Prod.snd).sum
      if sum ≤ 0 then .fixed scan.best else .drawn fun u => walk kept (u * sum) scan.best := by
  unfold scanFullVocab
  generalize hreject : (if 0 < clampMinP minP then
    rejectBoundary expf nextBelow (clampMinP minP) 8 (logf (clampMinP minP)) else none) = reject
  have hsound : ∀ r, reject = some r → expf r < clampMinP minP := by
    intro r h
    rw [h] at hreject
    split_ifs at hreject
    exact rejectBoundary_sound hreject
  simp only [hreject, scan_kept hmono hsound]
  rw [if_neg hmin.not_gt]

theorem scanFullVocab_draws {logf nextBelow : K → K} (hexp : ExpLike expf) (ht : 0 < temperature)
    (habove : ∃ x, Logit.fin x ∈ logits ∧ negInf < x) {topK : Int} (hk : topK ≤ 0)
    (htopP : 1 ≤ clampTopP topP) (hmin : clampMinP minP ≤ 1) :
    Draws (scanFullVocab expf logf nextBelow (entries logits) (scanMax (entries logits)) temperature
      (clampMinP minP)) (support expf logits temperature topK topP minP) := by
  obtain ⟨-, -, hranked, -⟩ := @ready _ _ _ expf logits temperature habove
  obtain ⟨hok, hne, hmass, top, htop, hone, -⟩ := facts hexp ht habove
  have hshare : clampTopP topP = 1 := le_antisymm (clampTopP_le_one topP) htopP
  have hperm := sortCandidates_perm
    ((entries logits).map (candidate expf (scanMax (entries logits)).maxLogit temperature))
  rw [← hranked] at hperm
  have hheadD : ((ranked expf logits temperature).headD ⟨0, 0, 0⟩).prob = 1 := by
    rw [List.headD_eq_head?_getD, htop]
    exact hone
  have hsupport : support expf logits temperature topK topP minP =
      (ranked expf logits temperature).filter fun c => !decide (c.prob < clampMinP minP) := by
    rw [support, limited, if_pos hk, rowNucleus, hshare, nucleus_share_one hok.pos (fun _ => rfl), hheadD]
    simp only [one_mul]
    refine cutLow_eq_filter (fun p q hpq hq => ?_) hok.falling fun c hc => ?_
    · exact decide_eq_true (hpq.trans_lt (of_decide_eq_true hq))
    · obtain rfl := Option.some.inj (htop.symm.trans hc)
      rw [hone]
      exact decide_eq_false (not_lt.mpr hmin)
  have hfilterPerm := hperm.symm.filter fun c => !decide (c.prob < clampMinP minP)
  have hpos : 0 < mass ((ranked expf logits temperature).filter fun c =>
      !decide (c.prob < clampMinP minP)) := by
    rw [← hsupport]
    apply mass_pos
    · intro c hc
      rw [hsupport] at hc
      exact hok.pos c (List.mem_of_mem_filter hc)
    · rw [support, limited, if_pos hk]
      exact nucleus_ne_nil hne
  rw [scanFullVocab_eq hexp.mono _ _ ((clampMinP_clampMinP minP).le.trans hmin)]
  simp only [clampMinP_clampMinP, sum_weighted]
  rw [mass_perm hfilterPerm, if_neg hpos.not_ge, hsupport, ← mass_perm hfilterPerm,
    ← sum_weighted]
  exact ⟨_, _, rfl, hfilterPerm.map _⟩

omit [IsStrictOrderedRing K] in
theorem topK_row {k : Nat} (hk : 0 < k) :
    ((entries logits).foldl (topKStep k) []).reverse.map (candidate expf (topLogit logits) temperature) =
      (ranked expf logits temperature).take k := by
  obtain ⟨hsorted, hlargest⟩ := topK_inv hk (entries_pairwise logits)
  generalize (entries logits).foldl (topKStep k) [] = rev at hsorted hlargest
  obtain ⟨rest, hperm, hlen, hle⟩ := hlargest
  have hrev : (rev.reverse.map (candidate expf (topLogit logits) temperature)).Perm
      (rev.map (candidate expf (topLogit logits) temperature)) := rev.reverse_perm.map _
  have hkept : IsLargest Candidate.key k
      ((entries logits).map (candidate expf (topLogit logits) temperature))
      (rev.map (candidate expf (topLogit logits) temperature)) := by
    refine ⟨rest.map (candidate expf (topLogit logits) temperature), ?_, ?_, ?_⟩
    · rw [← List.map_append]
      exact hperm.map _
    · rw [List.length_map, List.length_map, hlen]
    · intro a ha b hb
      obtain ⟨e, he, rfl⟩ := List.mem_map.mp ha
      obtain ⟨f, hf, rfl⟩ := List.mem_map.mp hb
      exact hle e he f hf
  refine (hkept.of_perm hrev).eq_take sampleCandidateGt_iff keyInj_candidates ?_
    (sortCandidates_pairwise _) (sortCandidates_perm _)
  rw [List.pairwise_map, List.pairwise_reverse]
  exact hsorted

theorem sampleTopK_draws (hexp : ExpLike expf) (ht : 0 < temperature)
    (habove : ∃ x, Logit.fin x ∈ logits ∧ negInf < x) {topK : Int} (hk : 0 < topK) :
    Draws (sampleTopK expf logits temperature (clampTopK topK logits.length) (clampTopP topP)
      (clampMinP minP)) (support expf logits temperature topK topP minP) := by
  obtain ⟨-, hpos, -⟩ := @ready _ _ _ expf logits temperature habove
  obtain ⟨hok, hne, hmass, -⟩ := facts hexp ht habove
  have hlen := @length_ranked _ _ _ expf logits temperature
  have hkpos : 0 < clampTopK topK logits.length := by
    have := length_entries_le logits
    unfold clampTopK
    omega
  have hrow := @topK_row _ _ _ expf logits temperature _ hkpos
  have hlimited := limited_eq_take hk (hlen.trans_le (length_entries_le logits))
  have hlimitedNe := @limited_ne_nil _ topK _ hne
  have hmassLimited : 0 < mass (limited topK (ranked expf logits temperature)) := by
    refine mass_pos (fun c hc => hok.pos c ?_) hlimitedNe
    rw [hlimited] at hc
    exact List.mem_of_mem_take hc
  rw [← hlimited] at hrow
  -- the weights are relative to the first entry that is kept, which is the greatest
  obtain ⟨c, hc, -, -, hlogit⟩ := @Ready.head _ _ _ expf logits temperature (ready habove)
  have hhead : (limited topK (ranked expf logits temperature)).head? = some c := by
    rw [hlimited]
    cases hcons : ranked expf logits temperature with
    | nil => exact absurd hcons hne
    | cons a row =>
      rw [hcons] at hc
      obtain ⟨n, hn⟩ := Nat.exists_eq_add_of_le' hkpos
      rw [hn]
      exact hc
  unfold sampleTopK
  generalize ((entries logits).foldl (topKStep (clampTopK topK logits.length)) []).reverse = kept at hrow
  cases kept with
  | nil => exact absurd hrow.symm hlimitedNe
  | cons e kept =>
    have he : e.2 = topLogit logits := by
      rw [← hlogit, ← Option.some.inj ((congrArg List.head? hrow).trans hhead)]
      rfl
    simp only [he, hrow]
    rw [← mass, if_neg hmassLimited.not_ge]
    simp only [low_share hmassLimited]
    obtain ⟨htake, hcount, hsum⟩ := @cut_spec _ _
      (fun p => decide (p < ((limited topK (ranked expf logits temperature)).headD ⟨0, 0, 0⟩).prob *
        clampMinP minP))
      (fun s => decide (clampTopP topP ≤ s / mass (limited topK (ranked expf logits temperature))))
      (limited topK (ranked expf logits temperature))
    rw [if_neg]
    · exact drawFiltered_draws htake hsum
    · rw [hcount]
      exact fun h0 => nucleus_ne_nil hlimitedNe (List.length_eq_zero_iff.mp h0)

end Ways

/-! ## The draw -/

section Walk

variable {l pre post : List (Nat × K)} {id last : Nat} {w r : K}

/-- The mass of a list of weights. -/
def weights (l : List (Nat × K)) : K := (l.map Prod.snd).sum

omit [LinearOrder K] [IsStrictOrderedRing K] in
theorem weights_cons (a : Nat × K) (l : List (Nat × K)) : weights (a :: l) = a.2 + weights l := by
  simp [weights]

omit [LinearOrder K] [IsStrictOrderedRing K] in
theorem weights_append (l l' : List (Nat × K)) : weights (l ++ l') = weights l + weights l' := by
  simp [weights]

theorem weights_nonneg (h : ∀ a ∈ l, 0 < a.2) : 0 ≤ weights l := by
  apply List.sum_nonneg
  intro x hx
  obtain ⟨a, ha, rfl⟩ := List.mem_map.mp hx
  exact (h a ha).le

theorem walk_mem (hne : l ≠ []) (hr : r ≤ weights l) : walk l r last ∈ l.map Prod.fst := by
  induction l generalizing r with
  | nil => exact absurd rfl hne
  | cons a l ih =>
    rw [weights_cons] at hr
    rw [walk]
    split_ifs with hstop
    · simp
    · have hl : l ≠ [] := by
        rintro rfl
        apply hstop
        have hzero : weights ([] : List (Nat × K)) = 0 := rfl
        rw [hzero] at hr
        linarith
      exact List.mem_map.mpr ((List.mem_map.mp (ih hl (by linarith))).imp fun b hb => ⟨by simp [hb.1], hb.2⟩)

/-- **The draws that give an id.** -/
theorem walk_eq_iff (hids : (pre ++ (id, w) :: post).Pairwise fun a b => a.1 ≠ b.1)
    (hpos : ∀ a ∈ pre ++ (id, w) :: post, 0 < a.2) (hr : r ≤ weights (pre ++ (id, w) :: post)) :
    walk (pre ++ (id, w) :: post) r last = id ↔
      r ≤ weights pre + w ∧ (pre = [] ∨ weights pre < r) := by
  induction pre generalizing r with
  | nil =>
    have hzero : weights ([] : List (Nat × K)) = 0 := rfl
    rw [List.nil_append] at hids hpos hr ⊢
    rw [weights_cons] at hr
    rw [walk, hzero, zero_add]
    split_ifs with hstop
    · exact iff_of_true rfl ⟨by linarith, Or.inl rfl⟩
    · refine iff_of_false (fun heq => ?_) fun h => hstop (by linarith [h.1])
      have hpost : post ≠ [] := by
        rintro rfl
        rw [hzero] at hr
        exact hstop (by linarith)
      have hmem := @walk_mem _ _ _ _ post last (r - w) hpost (by linarith)
      rw [heq] at hmem
      obtain ⟨a, ha, hid⟩ := List.mem_map.mp hmem
      exact (List.pairwise_cons.mp hids).1 a ha hid.symm
  | cons a pre ih =>
    rw [List.cons_append] at hids hpos hr ⊢
    obtain ⟨ha, hids⟩ := List.pairwise_cons.mp hids
    have hpre : 0 ≤ weights pre := weights_nonneg fun b hb => hpos b (by simp [hb])
    have hapos := hpos a (by simp)
    have hw : 0 < w := hpos (id, w) (by simp)
    rw [weights_cons] at hr
    rw [walk, weights_cons]
    split_ifs with hstop
    · refine iff_of_false (fun h => ha (id, w) (by simp) h) ?_
      rintro ⟨-, h | h⟩
      · cases h
      · linarith
    · rw [ih hids (fun b hb => hpos b (List.mem_cons_of_mem a hb)) (by linarith)]
      constructor
      · rintro ⟨h1, h2⟩
        refine ⟨by linarith, Or.inr ?_⟩
        rcases h2 with rfl | h2
        · have hzero : weights ([] : List (Nat × K)) = 0 := rfl
          rw [hzero]
          linarith
        · linarith
      · rintro ⟨h1, h2 | h2⟩
        · cases h2
        · exact ⟨by linarith, Or.inr (by linarith)⟩

end Walk

section Real

open MeasureTheory

theorem weights_filter {pre post : List (Nat × ℝ)} {id : Nat} {w : ℝ}
    (hids : (pre ++ (id, w) :: post).Pairwise fun a b => a.1 ≠ b.1) :
    weights ((pre ++ (id, w) :: post).filter fun a => decide (a.1 = id)) = w := by
  obtain ⟨-, hpost, hpre⟩ := List.pairwise_append.mp hids
  obtain ⟨hpost, -⟩ := List.pairwise_cons.mp hpost
  have hpreNone : pre.filter (fun a => decide (a.1 = id)) = [] := by
    rw [List.filter_eq_nil_iff]
    intro a ha
    rw [decide_eq_true_eq]
    exact hpre a ha (id, w) (by simp)
  have hpostNone : post.filter (fun a => decide (a.1 = id)) = [] := by
    rw [List.filter_eq_nil_iff]
    intro a ha
    rw [decide_eq_true_eq]
    exact fun h => hpost a ha h.symm
  rw [List.filter_append, List.filter_cons, hpreNone, hpostNone]
  simp [weights]

/-- **A draw from weights.** The draws between zero and one that give an id are as long as its share. -/
theorem volume_walk {l : List (Nat × ℝ)} (hids : l.Pairwise fun a b => a.1 ≠ b.1)
    (hpos : ∀ a ∈ l, 0 < a.2) (hne : l ≠ []) (last id : Nat) :
    volume {u : ℝ | 0 ≤ u ∧ u < 1 ∧ walk l (u * weights l) last = id} =
      ENNReal.ofReal (weights (l.filter fun a => decide (a.1 = id)) / weights l) := by
  have htotal : 0 < weights l := by
    obtain ⟨a, l', rfl⟩ := List.exists_cons_of_ne_nil hne
    rw [weights_cons]
    exact add_pos_of_pos_of_nonneg (hpos a (by simp)) (weights_nonneg fun b hb => hpos b (by simp [hb]))
  have hless : ∀ u : ℝ, u < 1 → u * weights l ≤ weights l := fun u hu => by
    nlinarith
  by_cases hmem : id ∈ l.map Prod.fst
  · obtain ⟨⟨i, w⟩, hw, hid⟩ := List.mem_map.mp hmem
    obtain ⟨pre, post, rfl⟩ := List.append_of_mem hw
    obtain rfl : i = id := hid
    rw [weights_filter hids]
    generalize hS : weights (pre ++ (i, w) :: post) = S at *
    have hpre : 0 ≤ weights pre := weights_nonneg fun b hb => hpos b (by simp [hb])
    have hpost : 0 ≤ weights post := weights_nonneg fun b hb => hpos b (by simp [hb])
    have hwpos : 0 < w := hpos (i, w) (by simp)
    have hsplit : S = weights pre + (w + weights post) := by
      rw [← hS, weights_append, weights_cons]
    have hlength : (weights pre + w) / S - weights pre / S = w / S := by
      rw [← sub_div, add_sub_cancel_left]
    apply le_antisymm
    · -- a draw that gives the id lies between the two ends of its interval
      rw [← hlength, ← Real.volume_Icc]
      apply measure_mono
      rintro u ⟨hu0, hu1, hwalk⟩
      obtain ⟨hle, hge⟩ := (walk_eq_iff hids hpos (hS ▸ hless u hu1)).mp hwalk
      refine ⟨?_, (le_div_iff₀ htotal).mpr hle⟩
      rw [div_le_iff₀ htotal]
      rcases hge with rfl | hge
      · exact mul_nonneg hu0 htotal.le
      · exact hge.le
    · rw [← hlength, ← Real.volume_Ioo]
      apply measure_mono
      rintro u ⟨hlow, hhigh⟩
      rw [div_lt_iff₀ htotal] at hlow
      rw [lt_div_iff₀ htotal] at hhigh
      have hu1 : u < 1 := by
        by_contra hge
        rw [not_lt] at hge
        nlinarith
      have hu0 : 0 ≤ u := by
        by_contra hneg
        rw [not_le] at hneg
        nlinarith
      exact ⟨hu0, hu1, (walk_eq_iff hids hpos (hS ▸ hless u hu1)).mpr ⟨hhigh.le, Or.inr hlow⟩⟩
  · have hnone : l.filter (fun a => decide (a.1 = id)) = [] := by
      rw [List.filter_eq_nil_iff]
      intro a ha
      rw [decide_eq_true_eq]
      exact fun h => hmem (List.mem_map.mpr ⟨a, ha, h⟩)
    have hempty : {u : ℝ | 0 ≤ u ∧ u < 1 ∧ walk l (u * weights l) last = id} = ∅ := by
      rw [Set.eq_empty_iff_forall_notMem]
      rintro u ⟨-, hu, h⟩
      exact hmem (h ▸ walk_mem hne (hless u hu))
    rw [hempty, hnone]
    simp [weights]

end Real

end Ds4.Sampler
