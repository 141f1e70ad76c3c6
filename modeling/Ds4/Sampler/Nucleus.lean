import Ds4.Sampler.Draw

/-!
# The nucleus of a row

`nucleus` is what the cuts by `min_p` and `top_p` leave of a sorted row. The loop over a row takes the
nucleus; a loop over the front of a row that ends by a cut takes the nucleus of the whole row. The heap
and the insertion both hold the front of the sorted row.
-/

namespace Ds4.Sampler

open Ds4.Lib

variable {K : Type*}

/-! ## Low candidates -/

section Low

/-- A row before the first candidate that is `low`, its first one apart. -/
def cutLow (low : K → Bool) : List (Candidate K) → List (Candidate K)
  | [] => []
  | a :: rest => a :: rest.takeWhile fun b => !low b.prob

theorem cutLow_isPrefix (low : K → Bool) (row : List (Candidate K)) : cutLow low row <+: row := by
  cases row with
  | nil => exact List.prefix_rfl
  | cons a row => exact (List.prefix_cons_inj a).mpr (List.takeWhile_prefix _)

variable [LinearOrder K] {low : K → Bool}

theorem filter_eq_takeWhile {l : List (Candidate K)} (hmono : ∀ p q, p ≤ q → low q = true → low p = true)
    (hl : l.Pairwise fun a b => b.prob ≤ a.prob) :
    l.filter (fun c => !low c.prob) = l.takeWhile fun c => !low c.prob := by
  induction l with
  | nil => rfl
  | cons a l ih =>
    obtain ⟨ha, hl⟩ := List.pairwise_cons.mp hl
    rw [List.filter_cons, List.takeWhile_cons]
    cases hlow : low a.prob
    · rw [Bool.not_false, if_pos rfl, if_pos rfl, ih hl]
    · rw [Bool.not_true, if_neg (by simp), if_neg (by simp), List.filter_eq_nil_iff]
      intro b hb
      simp [hmono _ _ (ha b hb) hlow]

theorem cutLow_eq_filter {sorted : List (Candidate K)}
    (hmono : ∀ p q, p ≤ q → low q = true → low p = true)
    (hsorted : sorted.Pairwise fun a b => b.prob ≤ a.prob)
    (hfirst : ∀ c, sorted.head? = some c → low c.prob = false) :
    cutLow low sorted = sorted.filter fun c => !low c.prob := by
  cases sorted with
  | nil => rfl
  | cons a rest =>
    rw [filter_eq_takeWhile hmono hsorted, cutLow, List.takeWhile_cons, hfirst a rfl]
    rfl

end Low

/-! ## The nucleus -/

section Field

variable [Field K]

/-- The mass of a row. -/
def mass (row : List (Candidate K)) : K := (row.map Candidate.prob).sum

/-- A row up to the first mass that is `enough`. -/
def cutEnough (enough : K → Bool) : K → List (Candidate K) → List (Candidate K)
  | _, [] => []
  | acc, a :: rest =>
    a :: if enough (acc + a.prob) then [] else cutEnough enough (acc + a.prob) rest

/-- What both cuts leave. -/
def nucleus (low enough : K → Bool) (row : List (Candidate K)) : List (Candidate K) :=
  cutEnough enough 0 (cutLow low row)

@[simp] theorem mass_nil : mass ([] : List (Candidate K)) = 0 := rfl

@[simp] theorem mass_cons (a : Candidate K) (row : List (Candidate K)) :
    mass (a :: row) = a.prob + mass row := by simp [mass]

theorem mass_append (row row' : List (Candidate K)) : mass (row ++ row') = mass row + mass row' := by
  simp [mass]

theorem mass_perm {row row' : List (Candidate K)} (h : row.Perm row') : mass row = mass row' :=
  (h.map _).sum_eq

theorem cutEnough_isPrefix (enough : K → Bool) (acc : K) (row : List (Candidate K)) :
    cutEnough enough acc row <+: row := by
  induction row generalizing acc with
  | nil => exact List.prefix_rfl
  | cons a row ih =>
    rw [cutEnough]
    split_ifs
    · exact (List.prefix_cons_inj a).mpr List.nil_prefix
    · exact (List.prefix_cons_inj a).mpr (ih _)

theorem nucleus_isPrefix (low enough : K → Bool) (row : List (Candidate K)) :
    nucleus low enough row <+: row :=
  (cutEnough_isPrefix enough 0 _).trans (cutLow_isPrefix low row)

variable {low enough : K → Bool} {row : List (Candidate K)}

theorem cutLoop_spec (row : List (Candidate K)) (c : Cut K) (hc : 0 < c.filtered) :
    (cutLoop low enough row c).filtered =
        c.filtered + (cutEnough enough c.filteredSum (row.takeWhile fun b => !low b.prob)).length ∧
      (cutLoop low enough row c).filteredSum =
        c.filteredSum + mass (cutEnough enough c.filteredSum (row.takeWhile fun b => !low b.prob)) := by
  induction row generalizing c with
  | nil => simp [cutLoop, cutEnough]
  | cons a row ih =>
    rw [cutLoop, List.takeWhile_cons]
    cases hlow : low a.prob
    · simp only [Bool.false_eq_true, and_false, if_false, Bool.not_false, if_true, cutEnough]
      cases henough : enough (c.filteredSum + a.prob)
      · obtain ⟨hn, hs⟩ := ih ⟨c.filtered + 1, c.filteredSum + a.prob, c.stoppedByMinP, c.reachedTopP⟩
          (Nat.succ_pos _)
        simp only [Bool.false_eq_true, if_false] at hn hs ⊢
        rw [hn, hs, List.length_cons, mass_cons]
        exact ⟨by omega, by ring⟩
      · simp
    · simp [hc, cutEnough]

/-- **The loop takes the nucleus.** -/
theorem cut_spec (row : List (Candidate K)) :
    row.take (cut low enough row).filtered = nucleus low enough row ∧
      (cut low enough row).filtered = (nucleus low enough row).length ∧
      (cut low enough row).filteredSum = mass (nucleus low enough row) := by
  have hcount : (cut low enough row).filtered = (nucleus low enough row).length ∧
      (cut low enough row).filteredSum = mass (nucleus low enough row) := by
    cases row with
    | nil => exact ⟨rfl, rfl⟩
    | cons a row =>
      simp only [cut, cutLoop, nucleus, cutLow, cutEnough, lt_irrefl, false_and, if_false, zero_add]
      cases henough : enough a.prob
      · obtain ⟨hn, hs⟩ := @cutLoop_spec _ _ low enough row ⟨1, a.prob, false, false⟩ Nat.one_pos
        simp only [Bool.false_eq_true, if_false] at hn hs ⊢
        rw [hn, hs, List.length_cons, mass_cons]
        exact ⟨by omega, rfl⟩
      · simp
  refine ⟨?_, hcount⟩
  rw [hcount.1]
  exact (List.prefix_iff_eq_take.mp (nucleus_isPrefix low enough row)).symm

theorem cutLoop_append (row rest : List (Candidate K)) (c : Cut K)
    (hc : c.stoppedByMinP = false ∧ c.reachedTopP = false)
    (h : (cutLoop low enough row c).stoppedByMinP = true ∨
      (cutLoop low enough row c).reachedTopP = true) :
    cutLoop low enough (row ++ rest) c = cutLoop low enough row c := by
  induction row generalizing c with
  | nil => simp [cutLoop, hc] at h
  | cons a row ih =>
    rw [List.cons_append]
    simp only [cutLoop] at h ⊢
    split_ifs at h ⊢
    · rfl
    · rfl
    · exact ih _ hc h

theorem cutLoop_through (row : List (Candidate K)) (c : Cut K)
    (hc : c.stoppedByMinP = false ∧ c.reachedTopP = false)
    (h : (cutLoop low enough row c).stoppedByMinP = false ∧
      (cutLoop low enough row c).reachedTopP = false) :
    (cutLoop low enough row c).filteredSum = c.filteredSum + mass row ∧
      (row ≠ [] → enough (cutLoop low enough row c).filteredSum = false) := by
  induction row generalizing c with
  | nil => simp [cutLoop]
  | cons a row ih =>
    simp only [cutLoop] at h ⊢
    split_ifs at h ⊢ with hlow henough
    · cases h.1
    · cases h.2
    · obtain ⟨hsum, hno⟩ := ih ⟨c.filtered + 1, c.filteredSum + a.prob, c.stoppedByMinP, c.reachedTopP⟩ hc h
      refine ⟨by rw [hsum, mass_cons]; ring, fun _ => ?_⟩
      cases row with
      | nil => simpa [cutLoop] using henough
      | cons b row => exact hno (by simp)

theorem cutEnough_eq_self {acc : K}
    (h : ∀ pre a b post, row = pre ++ a :: b :: post → enough (acc + mass (pre ++ [a])) = false) :
    cutEnough enough acc row = row := by
  induction row generalizing acc with
  | nil => rfl
  | cons a row ih =>
    rw [cutEnough]
    cases row with
    | nil => simp [cutEnough]
    | cons b row =>
      have hfirst := h [] a b row rfl
      rw [List.nil_append, mass_cons, mass_nil, add_zero] at hfirst
      rw [hfirst, if_neg (by simp), ih]
      intro pre c d post hrow
      have := h (a :: pre) c d post (by rw [hrow]; rfl)
      rwa [List.cons_append, mass_cons, ← add_assoc] at this

/-- The weight of an id in a row. -/
def weightOf (row : List (Candidate K)) (id : Nat) : K :=
  mass (row.filter fun c => decide (c.id = id))

theorem weightOf_perm {row' : List (Candidate K)} (h : row.Perm row') (id : Nat) :
    weightOf row id = weightOf row' id := mass_perm (h.filter _)

theorem scatter_eq (inv : K) (hids : row.Pairwise fun a b => a.id ≠ b.id) (id : Nat) :
    scatter inv row id = weightOf row id * inv := by
  have hrun : ∀ (l : List (Candidate K)) (f : Nat → K), l.Pairwise (fun a b => a.id ≠ b.id) →
      (∀ a ∈ l, f a.id = 0) →
      l.foldl (fun probs c => Function.update probs c.id (c.prob * inv)) f id =
        f id + weightOf l id * inv := by
    intro l
    induction l with
    | nil =>
      intro f _ _
      simp [weightOf]
    | cons a l ih =>
      intro f hl hf
      obtain ⟨ha, hl⟩ := List.pairwise_cons.mp hl
      rw [List.foldl_cons, ih _ hl]
      · by_cases hid : a.id = id
        · subst hid
          simp only [weightOf, List.filter_cons, decide_true, if_true, mass_cons]
          rw [Function.update_self, hf a (by simp)]
          ring
        · rw [Function.update_of_ne (Ne.symm hid)]
          simp [weightOf, hid]
      · intro b hb
        rw [Function.update_of_ne (ha b hb).symm]
        exact hf b (by simp [hb])
  have h := hrun row (fun _ => 0) hids fun _ _ => rfl
  rw [zero_add] at h
  exact h

variable [LinearOrder K] [IsStrictOrderedRing K]

theorem mass_pos (hrow : ∀ c ∈ row, 0 < c.prob) (hne : row ≠ []) : 0 < mass row := by
  apply List.sum_pos
  · intro x hx
    obtain ⟨c, hc, rfl⟩ := List.mem_map.mp hx
    exact hrow c hc
  · simpa using hne

theorem mass_nonneg (hrow : ∀ c ∈ row, 0 < c.prob) : 0 ≤ mass row := by
  rcases List.eq_nil_or_concat row with rfl | ⟨_, _, rfl⟩
  · exact le_rfl
  · exact (mass_pos hrow (by simp)).le

theorem nucleus_share_one {sorted : List (Candidate K)} (hpos : ∀ c ∈ sorted, 0 < c.prob)
    (henough : ∀ s, enough s = decide (1 ≤ s / mass sorted)) :
    nucleus low enough sorted = cutLow low sorted := by
  obtain ⟨rest, hrest⟩ := cutLow_isPrefix low sorted
  apply cutEnough_eq_self
  intro pre a b post hsplit
  rw [hsplit] at hrest
  have hmass : mass sorted = mass (pre ++ [a]) + mass (b :: post ++ rest) := by
    rw [← mass_append, ← hrest]
    simp
  have hmore : 0 < mass (b :: post ++ rest) := by
    apply mass_pos
    · intro c hc
      apply hpos c
      rw [← hrest]
      simp only [List.mem_append, List.mem_cons] at hc ⊢
      tauto
    · simp
  have hall : 0 < mass sorted := mass_pos hpos (by rw [← hrest]; simp)
  rw [henough, zero_add, decide_eq_false_iff_not, not_le, div_lt_one hall, hmass]
  exact lt_add_of_pos_right _ hmore

end Field

/-! ## Keys -/

/-- No two candidates of a list have the same key. -/
def KeyInj (l : List (Candidate K)) : Prop := ∀ a ∈ l, ∀ b ∈ l, a.key = b.key → a = b

theorem length_entries (n : Nat) (heap : Nat → Candidate K) : (Heap.entries n heap).length = n := by
  rw [Heap.entries, List.length_map, List.length_range]

section Keys

variable [LinearOrder K]

theorem sortCandidates_perm (l : List (Candidate K)) : (sortCandidates l).Perm l := sortDesc_perm _ l

theorem sortCandidates_pairwise (l : List (Candidate K)) :
    (sortCandidates l).Pairwise fun a b => b.key ≤ a.key :=
  sortDesc_pairwise sampleCandidateGt_iff l

/-! ## The insertion -/

/-- The key of an entry. -/
def entryKey (e : Nat × K) : K ×ₗ Natᵒᵈ := toLex (e.2, OrderDual.toDual e.1)

theorem entryKey_lt {a e : Nat × K} (hid : a.1 < e.1) : entryKey a < entryKey e ↔ a.2 < e.2 := by
  rw [entryKey, entryKey, Prod.Lex.toLex_lt_toLex]
  constructor
  · rintro (h | ⟨-, h⟩)
    · exact h
    · exact absurd hid (not_lt.mpr (le_of_lt (OrderDual.toDual_lt_toDual.mp h)))
  · exact Or.inl

theorem insertEntry_perm (e : Nat × K) (rev : List (Nat × K)) : (insertEntry e rev).Perm (e :: rev) := by
  induction rev with
  | nil => rfl
  | cons a rev ih =>
    rw [insertEntry]
    split_ifs
    · exact (ih.cons a).trans (List.Perm.swap e a rev)
    · rfl

theorem insertEntry_pairwise {e : Nat × K} {rev : List (Nat × K)} (hids : ∀ a ∈ rev, a.1 < e.1)
    (h : rev.Pairwise fun a b => entryKey a ≤ entryKey b) :
    (insertEntry e rev).Pairwise fun a b => entryKey a ≤ entryKey b := by
  induction rev with
  | nil => simp [insertEntry]
  | cons a rev ih =>
    obtain ⟨ha, hrev⟩ := List.pairwise_cons.mp h
    have hae := entryKey_lt (hids a (by simp))
    rw [insertEntry]
    split_ifs with hlt
    · refine List.pairwise_cons.mpr ⟨fun b hb => ?_, ih (fun b hb => hids b (by simp [hb])) hrev⟩
      rcases List.mem_cons.mp ((insertEntry_perm e rev).mem_iff.mp hb) with rfl | hb
      · exact (hae.mpr hlt).le
      · exact ha b hb
    · rw [← hae, not_lt] at hlt
      refine List.pairwise_cons.mpr ⟨fun b hb => ?_, h⟩
      rcases List.mem_cons.mp hb with rfl | hb
      · exact hlt
      · exact hlt.trans (ha b hb)

/-- What holds after some entries of the `top_k` loop. -/
structure TopKInv (topK : Nat) (seen rev : List (Nat × K)) : Prop where
  sorted : rev.Pairwise fun a b => entryKey a ≤ entryKey b
  largest : IsLargest entryKey topK seen rev

theorem TopKInv.step {topK : Nat} (hk : 0 < topK) {seen rev : List (Nat × K)} {e : Nat × K}
    (h : TopKInv topK seen rev) (hids : ∀ a ∈ seen, a.1 < e.1) :
    TopKInv topK (seen ++ [e]) (topKStep topK rev e) := by
  obtain ⟨rest, hperm, hlen, -⟩ := id h.largest
  have hmem : ∀ a ∈ rev, a ∈ seen := fun a ha => hperm.mem_iff.mp (List.mem_append_left _ ha)
  cases rev with
  | nil =>
    rw [topKStep, if_neg hk.ne']
    exact ⟨List.pairwise_singleton _ _, h.largest.push hk (List.Perm.refl _)⟩
  | cons last rev =>
    obtain ⟨hlast, hrev⟩ := List.pairwise_cons.mp h.sorted
    have hlid := entryKey_lt (hids last (hmem last (by simp)))
    have hmin : ∀ b ∈ last :: rev, entryKey last ≤ entryKey b := by
      intro b hb
      rcases List.mem_cons.mp hb with rfl | hb
      · exact le_rfl
      · exact hlast b hb
    simp only [topKStep]
    split_ifs with hskip hroom
    · have hle : entryKey e ≤ entryKey last := by
        rw [← not_lt, hlid]
        exact not_lt.mpr hskip.2
      exact ⟨h.sorted, h.largest.skip hskip.1 fun b hb => hle.trans (hmin b hb)⟩
    · exact ⟨insertEntry_pairwise (fun a ha => hids a (hmem a ha)) h.sorted,
        h.largest.push hroom (insertEntry_perm e _)⟩
    · have hfull : (last :: rev).length = topK := by omega
      have hlt : entryKey last < entryKey e := by
        rw [hlid]
        exact not_le.mp fun hle => hskip ⟨hfull, hle⟩
      refine ⟨insertEntry_pairwise (fun a ha => hids a (hmem a (by simp [ha]))) hrev,
        h.largest.replace hfull (by simp) hmin hlt ?_⟩
      exact ((insertEntry_perm e rev).cons last).trans (List.Perm.swap e last rev)

/-- **The insertion keeps the largest entries, in order.** -/
theorem topK_inv {topK : Nat} (hk : 0 < topK) {es : List (Nat × K)}
    (hids : es.Pairwise fun a b => a.1 < b.1) : TopKInv topK es (es.foldl (topKStep topK) []) := by
  have hrun : ∀ (l seen rev : List (Nat × K)), TopKInv topK seen rev →
      (∀ a ∈ seen, ∀ e ∈ l, a.1 < e.1) → l.Pairwise (fun a b => a.1 < b.1) →
      TopKInv topK (seen ++ l) (l.foldl (topKStep topK) rev) := by
    intro l
    induction l with
    | nil =>
      intro seen rev h _ _
      simpa using h
    | cons e l ih =>
      intro seen rev h hseen hl
      obtain ⟨hel, hl⟩ := List.pairwise_cons.mp hl
      have hstep := h.step hk fun a ha => hseen a ha e (by simp)
      refine List.append_assoc seen [e] l ▸ ih (seen ++ [e]) _ hstep (fun a ha b hb => ?_) hl
      rcases List.mem_append.mp ha with ha | ha
      · exact hseen a ha b (by simp [hb])
      · exact List.mem_singleton.mp ha ▸ hel b hb
  exact hrun es [] [] ⟨List.Pairwise.nil, IsLargest.nil⟩ (by simp) hids

end Keys

/-! ## The heap -/

section Heap

variable [Field K] [LinearOrder K]

/-- What holds after some candidates of the pass. -/
structure HeapPass.Inv (cap : Nat) (seen : List (Candidate K)) (s : HeapPass K) : Prop where
  ordered : Heap.Ordered Candidate.key s.n s.heap
  largest : IsLargest Candidate.key cap seen (Heap.entries s.n s.heap)
  heapSum : s.heapSum = mass (Heap.entries s.n s.heap)
  fullSum : s.fullSum = mass seen

theorem HeapPass.Inv.step {cap : Nat} (hcap : 0 < cap) {seen : List (Candidate K)} {s : HeapPass K}
    (h : s.Inv cap seen) (cand : Candidate K) : (s.step cap cand).Inv cap (seen ++ [cand]) := by
  have hfull : s.fullSum + cand.prob = mass (seen ++ [cand]) := by
    rw [mass_append, mass_cons, mass_nil, h.fullSum, add_zero]
  have hlen := length_entries s.n s.heap
  by_cases hroom : s.n < cap
  · obtain ⟨hord, hperm⟩ := h.ordered.push sampleCandidateGt_iff cand
    simp only [HeapPass.step, if_pos hroom]
    refine ⟨hord, h.largest.push (hlen.symm ▸ hroom) hperm, ?_, hfull⟩
    rw [mass_perm hperm, mass_cons, h.heapSum]
    exact add_comm _ _
  · have hn : (Heap.entries s.n s.heap).length = cap := by
      obtain ⟨_, -, hmin, -⟩ := h.largest
      omega
    have hpos : 0 < s.n := by omega
    have hroot : s.heap 0 ∈ Heap.entries s.n s.heap :=
      List.mem_map.mpr ⟨0, List.mem_range.mpr hpos, rfl⟩
    have hmin : ∀ b ∈ Heap.entries s.n s.heap, (s.heap 0).key ≤ b.key := by
      intro b hb
      obtain ⟨j, hj, rfl⟩ := List.mem_map.mp hb
      exact h.ordered.root_le (List.mem_range.mp hj)
    by_cases hgt : sampleCandidateGt cand (s.heap 0) = true
    · obtain ⟨hord, hperm⟩ := h.ordered.replaceRoot sampleCandidateGt_iff hpos cand
      simp only [HeapPass.step, if_neg hroom, if_pos hgt]
      refine ⟨hord, h.largest.replace hn hroot hmin ((sampleCandidateGt_iff _ _).mp hgt) hperm, ?_, hfull⟩
      have hmass := mass_perm hperm
      rw [mass_cons, mass_cons] at hmass
      simp only
      rw [h.heapSum]
      linear_combination -hmass
    · simp only [HeapPass.step, if_neg hroom, if_neg hgt]
      rw [sampleCandidateGt_iff, not_lt] at hgt
      exact ⟨h.ordered, h.largest.skip hn fun b hb => hgt.trans (hmin b hb), h.heapSum, hfull⟩

theorem heapPass_inv {cap : Nat} (hcap : 0 < cap) (cands : List (Candidate K)) :
    (heapPass cap cands).Inv cap cands := by
  have hrun : ∀ (l seen : List (Candidate K)) (s : HeapPass K), s.Inv cap seen →
      (l.foldl (HeapPass.step cap) s).Inv cap (seen ++ l) := by
    intro l
    induction l with
    | nil =>
      intro seen s h
      simpa using h
    | cons a l ih =>
      intro seen s h
      simpa using ih _ _ (h.step hcap a)
  exact hrun cands [] _ ⟨fun j _ hj => absurd hj (Nat.not_lt_zero j), IsLargest.nil, rfl, rfl⟩

/-- **The heap holds the front of the sorted row.** -/
theorem heapPass_spec {cap : Nat} (hcap : 0 < cap) {cands : List (Candidate K)} (hinj : KeyInj cands) :
    sortCandidates (Heap.entries (heapPass cap cands).n (heapPass cap cands).heap) =
        (sortCandidates cands).take cap ∧
      (heapPass cap cands).n = min cap cands.length ∧
      (heapPass cap cands).heapSum = mass ((sortCandidates cands).take cap) ∧
      (heapPass cap cands).fullSum = mass cands := by
  have h := heapPass_inv hcap cands
  have hlargest := h.largest.of_perm (sortCandidates_perm _)
  have hfront := hlargest.eq_take sampleCandidateGt_iff hinj (sortCandidates_pairwise _)
    (sortCandidates_pairwise cands) (sortCandidates_perm cands)
  refine ⟨hfront, ?_, ?_, h.fullSum⟩
  · obtain ⟨_, -, hlen, -⟩ := h.largest
    rwa [length_entries] at hlen
  · rw [h.heapSum, ← hfront]
    exact (mass_perm (sortCandidates_perm _)).symm

end Heap

end Ds4.Sampler
