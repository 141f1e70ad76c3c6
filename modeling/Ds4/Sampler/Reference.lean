import Ds4.Sampler.Nucleus
import Mathlib.Algebra.Order.Field.Basic
import Mathlib.Data.List.TakeWhile

/-!
# The reference distribution

The finite ids by falling logit, the smaller id first among equal ones; the first `top_k` of them; of
these what is not below `min_p` of the top weight, up to the share `top_p`; renormalized. The knobs are
read as both samplers read them.
-/

namespace Ds4.Sampler

open Ds4.Lib

variable {K : Type*}

/-! ## Rows -/

/-- The first `top_k` of a row, of 1024 at most; all of it when `top_k` is no limit. -/
def limited (topK : Int) (row : List (Candidate K)) : List (Candidate K) :=
  if topK ≤ 0 then row else row.take (min topK.toNat 1024)

theorem limited_eq_take {topK : Int} (hk : 0 < topK) {row : List (Candidate K)} {n : Nat}
    (hrow : row.length ≤ n) : limited topK row = row.take (clampTopK topK n) := by
  rw [limited, if_neg (by omega), clampTopK]
  rcases Nat.le_total (min topK.toNat 1024) n with h | h
  · rw [Nat.min_eq_left h]
  · rw [Nat.min_eq_right h, List.take_of_length_le (by omega), List.take_of_length_le hrow]

theorem length_entries_le (logits : List (Logit K)) : (entries logits).length ≤ logits.length := by
  refine (List.length_filterMap_le _ _).trans ?_
  rw [List.length_zipIdx]

theorem mem_entries_of_mem {logits : List (Logit K)} {x : K} (h : Logit.fin x ∈ logits) :
    ∃ e ∈ entries logits, e.2 = x := by
  obtain ⟨i, hi⟩ := List.mem_iff_getElem?.mp h
  exact ⟨(i, x), mem_entries.2 hi, rfl⟩

theorem limited_ne_nil {topK : Int} {row : List (Candidate K)} (h : row ≠ []) :
    limited topK row ≠ [] := by
  rw [limited]
  split_ifs with hk
  · exact h
  · rw [Ne, List.take_eq_nil_iff]
    rintro (hmin | hrow)
    · omega
    · exact h hrow

theorem headD_take {row : List (Candidate K)} {n : Nat} (hn : 0 < n) (d : Candidate K) :
    (row.take n).headD d = row.headD d := by
  obtain ⟨n, rfl⟩ := Nat.exists_eq_add_of_le' hn
  cases row <;> rfl

theorem cutLow_eq_self {low : K → Bool} {row : List (Candidate K)}
    (h : ∀ c ∈ row, low c.prob = false) : cutLow low row = row := by
  cases row with
  | nil => rfl
  | cons a row =>
    rw [cutLow, List.takeWhile_eq_self_iff.mpr]
    intro c hc
    simp [h c (List.mem_cons_of_mem a hc)]

/-! ## The distribution -/

variable [Field K] [LinearOrder K]

/-- The greatest finite logit. -/
def topLogit (logits : List (Logit K)) : K := (((entries logits).map Prod.snd).max?).getD 0

/-- The finite ids in order. -/
def ranked (expf : K → K) (logits : List (Logit K)) (temperature : K) : List (Candidate K) :=
  sortCandidates ((entries logits).map (candidate expf (topLogit logits) temperature))

/-- The nucleus of a sorted row under the knobs. -/
def rowNucleus (topP minP : K) (row : List (Candidate K)) : List (Candidate K) :=
  nucleus (fun p => decide (p < (row.headD ⟨0, 0, 0⟩).prob * clampMinP minP))
    (fun s => decide (clampTopP topP ≤ s / mass row)) row

/-- The ids that can be drawn, with their weights. -/
def support (expf : K → K) (logits : List (Logit K)) (temperature : K) (topK : Int) (topP minP : K) :
    List (Candidate K) :=
  rowNucleus topP minP (limited topK (ranked expf logits temperature))

/-- The reference distribution. -/
def reference (expf : K → K) (logits : List (Logit K)) (temperature : K) (topK : Int) (topP minP : K)
    (id : Nat) : K :=
  weightOf (support expf logits temperature topK topP minP) id /
    mass (support expf logits temperature topK topP minP)

/-- A function like `expf`. -/
structure ExpLike (expf : K → K) : Prop where
  pos : ∀ x, 0 < expf x
  mono : StrictMono expf
  zero : expf 0 = 1

/-! ## The first pass -/

/-- What the first pass has found: nothing above `DS4_NEG_INF`, or the greatest entry. -/
structure Scan.Inv (seen : List (Nat × K)) (s : Scan K) : Prop where
  finite : s.finite = seen.length
  max : ((∀ e ∈ seen, e.2 ≤ negInf) ∧ s.maxLogit = negInf) ∨
    ∃ e ∈ seen, s.maxLogit = e.2 ∧ s.best = e.1 ∧ ∀ a ∈ seen, entryKey a ≤ entryKey e

omit [Field K] in
theorem le_of_entryKey_le {a e : Nat × K} (h : entryKey a ≤ entryKey e) : a.2 ≤ e.2 :=
  (Prod.Lex.toLex_le_toLex.mp h).elim le_of_lt fun h => h.1.le

theorem Scan.Inv.step {seen : List (Nat × K)} {s : Scan K} (h : s.Inv seen) {e : Nat × K}
    (hids : ∀ a ∈ seen, a.1 < e.1) : (s.step e).Inv (seen ++ [e]) := by
  have hcount : s.finite + 1 = (seen ++ [e]).length := by simp [h.finite]
  rw [Scan.step]
  split_ifs with hlt
  · refine ⟨hcount, Or.inr ⟨e, by simp, rfl, rfl, fun a ha => ?_⟩⟩
    rcases List.mem_append.mp ha with ha | ha
    · refine ((entryKey_lt (hids a ha)).mpr ?_).le
      rcases h.max with ⟨hlow, hneg⟩ | ⟨b, hb, hbmax, -, hall⟩
      · exact (hneg ▸ hlow a ha).trans_lt hlt
      · exact (le_of_entryKey_le (hall a ha)).trans_lt (hbmax ▸ hlt)
    · exact List.mem_singleton.mp ha ▸ le_rfl
  · rw [not_lt] at hlt
    refine ⟨hcount, ?_⟩
    rcases h.max with ⟨hlow, hneg⟩ | ⟨b, hb, hbmax, hbest, hall⟩
    · refine Or.inl ⟨fun a ha => ?_, hneg⟩
      rcases List.mem_append.mp ha with ha | ha
      · exact hlow a ha
      · exact List.mem_singleton.mp ha ▸ hneg ▸ hlt
    · refine Or.inr ⟨b, by simp [hb], hbmax, hbest, fun a ha => ?_⟩
      rcases List.mem_append.mp ha with ha | ha
      · exact hall a ha
      · rw [List.mem_singleton.mp ha, ← not_lt, entryKey_lt (hids b hb)]
        exact not_lt.mpr (hbmax ▸ hlt)

/-- **The first pass finds the greatest entry**, when one is above `DS4_NEG_INF`. -/
theorem scanMax_spec {es : List (Nat × K)} (hids : es.Pairwise fun a b => a.1 < b.1)
    (habove : ∃ e ∈ es, negInf < e.2) :
    ∃ e ∈ es, scanMax es = ⟨es.length, e.2, e.1⟩ ∧ ∀ a ∈ es, entryKey a ≤ entryKey e := by
  have hrun : ∀ (l seen : List (Nat × K)) (s : Scan K), s.Inv seen →
      (∀ a ∈ seen, ∀ e ∈ l, a.1 < e.1) → l.Pairwise (fun a b => a.1 < b.1) →
      (l.foldl Scan.step s).Inv (seen ++ l) := by
    intro l
    induction l with
    | nil =>
      intro seen s h _ _
      simpa using h
    | cons e l ih =>
      intro seen s h hseen hl
      obtain ⟨hel, hl⟩ := List.pairwise_cons.mp hl
      have hstep := h.step fun a ha => hseen a ha e (by simp)
      refine List.append_assoc seen [e] l ▸ ih (seen ++ [e]) _ hstep (fun a ha b hb => ?_) hl
      rcases List.mem_append.mp ha with ha | ha
      · exact hseen a ha b (by simp [hb])
      · exact List.mem_singleton.mp ha ▸ hel b hb
  have h := hrun es [] ⟨0, negInf, 0⟩ ⟨rfl, Or.inl ⟨by simp, rfl⟩⟩ (by simp) hids
  rw [List.nil_append] at h
  obtain ⟨top, htop, hgt⟩ := habove
  rcases h.max with ⟨hlow, -⟩ | ⟨e, he, hemax, hebest, hall⟩
  · exact absurd (hlow top htop) (not_le.mpr hgt)
  · refine ⟨e, he, ?_, hall⟩
    rw [← hemax, ← hebest, ← h.finite]
    rfl

theorem topLogit_eq {logits : List (Logit K)} {e : Nat × K} (he : e ∈ entries logits)
    (hall : ∀ a ∈ entries logits, entryKey a ≤ entryKey e) : topLogit logits = e.2 := by
  have hmax : ((entries logits).map Prod.snd).max? = some e.2 := by
    rw [List.max?_eq_some_iff]
    refine ⟨List.mem_map_of_mem he, fun b hb => ?_⟩
    obtain ⟨a, ha, rfl⟩ := List.mem_map.mp hb
    exact le_of_entryKey_le (hall a ha)
  rw [topLogit, hmax, Option.getD_some]

/-! ## The ranked row -/

section Ranked

variable {expf : K → K} {temperature maxLogit : K} {es : List (Nat × K)}

omit [LinearOrder K] in
theorem keyInj_candidates :
    KeyInj (es.map (candidate expf maxLogit temperature)) := by
  intro a ha b hb hkey
  obtain ⟨e, -, rfl⟩ := List.mem_map.mp ha
  obtain ⟨f, -, rfl⟩ := List.mem_map.mp hb
  have hpair : (e.2, OrderDual.toDual e.1) = (f.2, OrderDual.toDual f.1) := toLex.injective hkey
  have heq : e = f := Prod.ext (OrderDual.toDual.injective (Prod.ext_iff.mp hpair).2)
    (Prod.ext_iff.mp hpair).1
  rw [heq]

/-- A row as the cuts need it. -/
structure RowOk (row : List (Candidate K)) : Prop where
  pos : ∀ c ∈ row, 0 < c.prob
  falling : row.Pairwise fun a b => b.prob ≤ a.prob
  ids : row.Pairwise fun a b => a.id ≠ b.id

theorem RowOk.of_prefix {row row' : List (Candidate K)} (h : RowOk row) (hp : row' <+: row) :
    RowOk row' :=
  ⟨fun c hc => h.pos c (hp.subset hc), h.falling.sublist hp.sublist, h.ids.sublist hp.sublist⟩

theorem ranked_head {e : Nat × K} (he : e ∈ es)
    (hall : ∀ a ∈ es, entryKey a ≤ entryKey e) :
    (sortCandidates (es.map (candidate expf maxLogit temperature))).head? =
      some (candidate expf maxLogit temperature e) := by
  have hperm := sortCandidates_perm (es.map (candidate expf maxLogit temperature))
  have hdesc := sortCandidates_pairwise (es.map (candidate expf maxLogit temperature))
  have hmem := hperm.mem_iff.mpr (List.mem_map_of_mem (f := candidate expf maxLogit temperature) he)
  cases hrow : sortCandidates (es.map (candidate expf maxLogit temperature)) with
  | nil =>
    rw [hrow] at hmem
    cases hmem
  | cons h rest =>
    rw [hrow] at hmem hdesc hperm
    have hhead : h ∈ es.map (candidate expf maxLogit temperature) := hperm.mem_iff.mp (by simp)
    obtain ⟨a, ha, rfl⟩ := List.mem_map.mp hhead
    have hge : (candidate expf maxLogit temperature e).key ≤
        (candidate expf maxLogit temperature a).key := by
      rcases List.mem_cons.mp hmem with heq | hmem
      · exact heq ▸ le_rfl
      · exact (List.pairwise_cons.mp hdesc).1 _ hmem
    exact congrArg some (keyInj_candidates _ hhead _ (List.mem_map_of_mem he)
      (le_antisymm (hall a ha) hge))

variable [IsStrictOrderedRing K]

theorem ranked_ok (hexp : ExpLike expf) (ht : 0 < temperature)
    (hids : es.Pairwise fun a b => a.1 < b.1) :
    RowOk (sortCandidates (es.map (candidate expf maxLogit temperature))) := by
  have hperm := sortCandidates_perm (es.map (candidate expf maxLogit temperature))
  have hform : ∀ c ∈ sortCandidates (es.map (candidate expf maxLogit temperature)),
      c.prob = expf ((c.logit - maxLogit) / temperature) := by
    intro c hc
    obtain ⟨e, -, rfl⟩ := List.mem_map.mp (hperm.mem_iff.mp hc)
    rfl
  refine ⟨fun c hc => hform c hc ▸ hexp.pos _, ?_, ?_⟩
  · refine (sortCandidates_pairwise _).imp_of_mem fun {a b} ha hb hab => ?_
    have hlogit : b.logit ≤ a.logit :=
      (Prod.Lex.toLex_le_toLex.mp hab).elim le_of_lt fun h => h.1.le
    rw [hform a ha, hform b hb]
    apply hexp.mono.monotone
    gcongr
  · refine (hperm.pairwise_iff fun {a b} hab => hab.symm).mpr ?_
    rw [List.pairwise_map]
    exact hids.imp fun hab => hab.ne

end Ranked

/-! ## The built distribution -/

section Build

variable {low enough : K → Bool}

omit [LinearOrder K] in
theorem nucleus_ne_nil {row : List (Candidate K)} (h : row ≠ []) : nucleus low enough row ≠ [] := by
  cases row with
  | nil => exact absurd rfl h
  | cons a row => simp [nucleus, cutLow, cutEnough]

variable [IsStrictOrderedRing K]

theorem cut_scatter {row : List (Candidate K)} (hrow : RowOk row) (hne : row ≠ []) :
    ¬((cut low enough row).filtered = 0 ∨ (cut low enough row).filteredSum ≤ 0) ∧
      scatter (1 / (cut low enough row).filteredSum) (row.take (cut low enough row).filtered) =
        fun id => weightOf (nucleus low enough row) id / mass (nucleus low enough row) := by
  obtain ⟨htake, hcount, hsum⟩ := @cut_spec _ _ low enough row
  have hnucleus := hrow.of_prefix (nucleus_isPrefix low enough row)
  have hmass := mass_pos hnucleus.pos (nucleus_ne_nil hne)
  constructor
  · rw [hcount, hsum, not_or, not_le]
    exact ⟨fun h => nucleus_ne_nil hne (List.length_eq_zero_iff.mp h), hmass⟩
  · funext id
    rw [htake, hsum, scatter_eq _ hnucleus.ids, mul_one_div]

end Build

section Main

variable {expf : K → K} {logits : List (Logit K)} {temperature : K}

theorem clampTopK_eq_zero {topK : Int} {n : Nat} (hn : 0 < n) : clampTopK topK n = 0 ↔ topK ≤ 0 := by
  unfold clampTopK
  omega

/-- What the first pass and the ranked row are, when a finite logit is above `DS4_NEG_INF`. -/
structure Ready (expf : K → K) (logits : List (Logit K)) (temperature : K) : Prop where
  finite : (scanMax (entries logits)).finite = (entries logits).length
  pos : 0 < (entries logits).length
  ranked : ranked expf logits temperature = sortCandidates
    ((entries logits).map (candidate expf (scanMax (entries logits)).maxLogit temperature))
  head : ∃ c, (Sampler.ranked expf logits temperature).head? = some c ∧ c.prob = expf 0 ∧
    c.id = (scanMax (entries logits)).best ∧ c.logit = topLogit logits

theorem ready (habove : ∃ x, Logit.fin x ∈ logits ∧ negInf < x) : Ready expf logits temperature := by
  obtain ⟨x, hx, hgt⟩ := habove
  obtain ⟨e', he', rfl⟩ := mem_entries_of_mem hx
  obtain ⟨e, he, hscan, hall⟩ := scanMax_spec (entries_pairwise logits) ⟨e', he', hgt⟩
  have htop := topLogit_eq he hall
  refine ⟨by rw [hscan], List.length_pos_iff.mpr (List.ne_nil_of_mem he), ?_, ?_⟩
  · rw [ranked, hscan, htop]
  · refine ⟨_, ranked_head he hall, ?_, by rw [hscan]; rfl, htop.symm⟩
    rw [htop, candidate, sub_self, zero_div]

theorem length_ranked : (ranked expf logits temperature).length = (entries logits).length := by
  rw [ranked, (sortCandidates_perm _).length_eq, List.length_map]

theorem heap_front (habove : ∃ x, Logit.fin x ∈ logits ∧ negInf < x) {cap : Nat} (hcap : 0 < cap) :
    let pass := heapPass cap
      ((entries logits).map (candidate expf (scanMax (entries logits)).maxLogit temperature))
    sortCandidates (Heap.entries pass.n pass.heap) = (ranked expf logits temperature).take cap ∧
      pass.n = min cap (entries logits).length ∧
      pass.heapSum = mass ((ranked expf logits temperature).take cap) ∧
      pass.fullSum = mass (ranked expf logits temperature) := by
  obtain ⟨-, -, hranked, -⟩ := @ready _ _ _ expf logits temperature habove
  obtain ⟨hheap, hn, hheapSum, hfullSum⟩ := heapPass_spec hcap
    (@keyInj_candidates _ _ expf temperature (scanMax (entries logits)).maxLogit (entries logits))
  rw [List.length_map] at hn
  rw [hranked]
  exact ⟨hheap, hn, hheapSum, hfullSum.trans (mass_perm (sortCandidates_perm _)).symm⟩

omit [LinearOrder K] in
theorem cut_take {low enough : K → Bool} {row : List (Candidate K)} {n : Nat}
    (h : (cut low enough (row.take n)).stoppedByMinP = true ∨
      (cut low enough (row.take n)).reachedTopP = true) :
    cut low enough (row.take n) = cut low enough row := by
  conv_rhs => rw [← List.take_append_drop n row]
  exact (cutLoop_append _ _ _ ⟨rfl, rfl⟩ h).symm

omit [LinearOrder K] in
theorem take_take_cut {low enough : K → Bool} {row : List (Candidate K)} {n : Nat}
    (h : cut low enough (row.take n) = cut low enough row) :
    (row.take n).take (cut low enough row).filtered = row.take (cut low enough row).filtered := by
  rw [List.take_take, Nat.min_eq_left]
  have hlen := (@cut_spec _ _ low enough (row.take n)).2.1
  rw [h] at hlen
  rw [hlen]
  exact (nucleus_isPrefix low enough _).length_le.trans (List.length_take_le n row)

theorem clampTopP_le_one (topP : K) : clampTopP topP ≤ 1 := by
  unfold clampTopP
  split_ifs with h
  · exact le_rfl
  · rw [not_or, not_lt] at h
    exact h.2

variable [IsStrictOrderedRing K]

theorem support_untruncated {topK : Int} {topP minP : K} (hok : RowOk (ranked expf logits temperature))
    (hk : topK ≤ 0) (htop : 1 ≤ clampTopP topP) (hmin : clampMinP minP ≤ 0) :
    support expf logits temperature topK topP minP = ranked expf logits temperature := by
  have hone : clampTopP topP = 1 := le_antisymm (clampTopP_le_one topP) htop
  rw [support, limited, if_pos hk, rowNucleus, hone,
    nucleus_share_one hok.pos (fun _ => rfl), cutLow_eq_self]
  intro c hc
  have hhead : 0 ≤ ((ranked expf logits temperature).headD ⟨0, 0, 0⟩).prob := by
    cases hrow : ranked expf logits temperature with
    | nil => exact le_rfl
    | cons a row => exact (hok.pos a (by simp [hrow])).le
  rw [decide_eq_false_iff_not, not_lt]
  exact (mul_nonpos_of_nonneg_of_nonpos hhead hmin).trans (hok.pos c hc).le

/-- **The built distribution is the reference distribution**, whichever way decides. -/
theorem sampleBuildProbabilities_eq (hexp : ExpLike expf) (ht : 0 < temperature)
    (habove : ∃ x, Logit.fin x ∈ logits ∧ negInf < x) (fullProbs : Bool) (topK : Int) (topP minP : K) :
    sampleBuildProbabilities expf fullProbs logits temperature topK topP minP =
      some (reference expf logits temperature topK topP minP) := by
  obtain ⟨hfinite, hpos, hranked, -⟩ := @ready _ _ _ expf logits temperature habove
  have hlogits : 0 < logits.length := hpos.trans_le (length_entries_le logits)
  have hok : RowOk (ranked expf logits temperature) := ranked_ok hexp ht (entries_pairwise logits)
  have hne : ranked expf logits temperature ≠ [] := by
    rw [← List.length_pos_iff, length_ranked]
    exact hpos
  have hmass := mass_pos hok.pos hne
  have hperm := sortCandidates_perm
    ((entries logits).map (candidate expf (scanMax (entries logits)).maxLogit temperature))
  rw [← hranked] at hperm
  unfold sampleBuildProbabilities
  rw [if_neg (List.length_pos_iff.mp hlogits), if_neg ht.not_ge]
  simp only []
  rw [if_neg (by omega)]
  by_cases hfull : clampTopK topK logits.length = 0 ∧ 1 ≤ clampTopP topP ∧ clampMinP minP ≤ 0 ∧
      fullProbs = true
  · rw [if_pos hfull]
    have hrow : (entries logits).map (fun e => (⟨e.1, e.2,
        expf ((e.2 - (scanMax (entries logits)).maxLogit) * (1 / temperature))⟩ : Candidate K)) =
        (entries logits).map (candidate expf (scanMax (entries logits)).maxLogit temperature) := by
      simp only [mul_one_div]
      rfl
    rw [hrow, ← mass, ← mass_perm hperm, if_neg (not_not.mpr hmass)]
    congr 1
    funext id
    have hids := (hperm.pairwise_iff fun {a b} (hab : a.id ≠ b.id) => hab.symm).mp hok.ids
    rw [scatter_eq _ hids, ← weightOf_perm hperm, reference, support_untruncated hok
      ((clampTopK_eq_zero hlogits).mp hfull.1) hfull.2.1 hfull.2.2.1, mul_one_div]
  · rw [if_neg hfull]
    have hlen := @length_ranked _ _ _ expf logits temperature
    -- the row of the reference: what the heap holds is its front
    obtain ⟨row, hrowdef⟩ : ∃ row, row = limited topK (ranked expf logits temperature) := ⟨_, rfl⟩
    have hrowOk : RowOk row := by
      rw [hrowdef, limited]
      split_ifs
      · exact hok
      · exact hok.of_prefix (List.take_prefix _ _)
    have hrowNe : row ≠ [] := hrowdef ▸ limited_ne_nil hne
    obtain ⟨cap, hcapdef⟩ : ∃ cap, cap = if 0 < clampTopK topK logits.length then
      clampTopK topK logits.length else 512 := ⟨_, rfl⟩
    have hcap : 0 < cap := by
      rw [hcapdef]
      split_ifs <;> omega
    have hfront : (ranked expf logits temperature).take cap = row.take cap := by
      rw [hrowdef, limited]
      split_ifs with hk
      · rfl
      · have hcapk : cap = clampTopK topK logits.length := by
          rw [hcapdef, if_pos]
          have := (@clampTopK_eq_zero topK _ hlogits).not.mpr hk
          omega
        rw [List.take_take, hcapk]
        congr 1
        unfold clampTopK
        omega
    have hpass := @heap_front _ _ _ expf logits temperature habove cap hcap
    rw [← hcapdef]
    generalize heapPass cap ((entries logits).map (candidate expf (scanMax (entries logits)).maxLogit
      temperature)) = pass at hpass ⊢
    obtain ⟨hheap, hn, hheapSum, hfullSum⟩ := hpass
    rw [hfront] at hheap hheapSum
    have hbase : (if 0 < clampTopK topK logits.length then pass.heapSum else pass.fullSum) = mass row := by
      split_ifs with hk
      · have hk' : ¬topK ≤ 0 := fun h => by
          have := (@clampTopK_eq_zero topK _ hlogits).mpr h
          omega
        rw [hheapSum, ← hfront, hcapdef, if_pos hk, hrowdef,
          limited_eq_take (not_le.mp hk') (hlen.trans_le (length_entries_le logits))]
      · have hk' : topK ≤ 0 := (@clampTopK_eq_zero topK _ hlogits).mp (by omega)
        rw [hfullSum, hrowdef, limited, if_pos hk']
    rw [if_neg (by rw [hfullSum, not_or, not_le]; exact ⟨hmass, by omega⟩), hbase, hheap]
    simp only [headD_take hcap]
    generalize hlow : (fun p : K => decide (p < (row.headD ⟨0, 0, 0⟩).prob * clampMinP minP)) = low
    generalize henough : (fun s : K => decide (clampTopP topP ≤ s / mass row)) = enough
    have hreference : reference expf logits temperature topK topP minP =
        fun id => weightOf (nucleus low enough row) id / mass (nucleus low enough row) := by
      funext id
      rw [reference, support, ← hrowdef, rowNucleus, hlow, henough]
    obtain ⟨hnonzero, hscatter⟩ := @cut_scatter _ _ _ low enough _ row hrowOk hrowNe
    rw [hreference, ← hscatter]
    obtain ⟨fast, hfast⟩ : ∃ fast, fast = (decide (0 < clampTopK topK logits.length) ||
        decide (pass.n = (scanMax (entries logits)).finite) ||
        (cut low enough (row.take cap)).reachedTopP ||
        ((cut low enough (row.take cap)).stoppedByMinP &&
          decide (((row.take cap).getLastD ⟨0, 0, 0⟩).prob <
            (row.headD ⟨0, 0, 0⟩).prob * clampMinP minP))) := ⟨_, rfl⟩
    rw [← hfast]
    cases fast
    · -- the heap does not decide: the row is sorted as a whole
      simp only [Bool.false_eq_true, if_false]
      have hk : ¬0 < clampTopK topK logits.length := by
        intro h
        simp [h] at hfast
      have hrow : row = ranked expf logits temperature := by
        rw [hrowdef, limited, if_pos ((@clampTopK_eq_zero topK _ hlogits).mp (by omega))]
      rw [← hranked, hfullSum, ← hrow, hlow, henough, if_neg hnonzero]
    · simp only [if_true]
      have hcut : cut low enough (row.take cap) = cut low enough row := by
        rw [eq_comm, Bool.or_eq_true, Bool.or_eq_true, Bool.or_eq_true, Bool.and_eq_true,
          decide_eq_true_eq, decide_eq_true_eq] at hfast
        have hrowLen : row.length ≤ (ranked expf logits temperature).length := by
          rw [hrowdef, limited]
          split_ifs
          · exact le_rfl
          · exact List.length_take_le' _ _
        rcases hfast with ((hk | hall) | hreached) | ⟨hstopped, -⟩
        · have hk' : ¬topK ≤ 0 := fun h => by
            have := (@clampTopK_eq_zero topK _ hlogits).mpr h
            omega
          have hle : row.length ≤ cap := by
            rw [hcapdef, if_pos hk, hrowdef,
              limited_eq_take (not_le.mp hk') (hlen.trans_le (length_entries_le logits))]
            exact List.length_take_le _ _
          rw [List.take_of_length_le hle]
        · rw [List.take_of_length_le (by omega)]
        · exact cut_take (Or.inr hreached)
        · exact cut_take (Or.inl hstopped)
      rw [hcut, if_neg hnonzero, take_take_cut hcut]

end Main

end Ds4.Sampler
