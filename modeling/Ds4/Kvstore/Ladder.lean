import Mathlib.Data.List.Sort
import Mathlib.Tactic

/-!
# The waypoint ladder

`ladderSelect` is `ds4_kvstore_ladder_select`: over the depths of the earlier rungs, deepest first,
it keeps every rung inside the dense window behind the frontier and then every rung that is at most
`5/7` of the previous kept one. `ladderThin` is what `kv_cache_ladder_thin` does with the flags to
one chain, and `chainRun s k` is the chain after the stores of the frontiers `s, 2s, …, k·s`.

One call gives a geometric ladder, but the rule is applied again to its own survivors. A rung that
leaves the dense window is compared with the rung right behind it, which is only one step deeper,
so from the third rung on every leaving rung is dropped (`chainRun_eq`): the chain keeps its first
two rungs and the dense window, and nothing between them. `covered_chainRun_iff` says exactly up to
which frontier that still covers the history.
-/

namespace Ds4.Kvstore

/-- `KV_CACHE_LADDER_DENSE_WINDOW`. -/
def ladderDenseWindow : Nat := 32768

/-- `KV_CACHE_LADDER_RATIO_NUM`. -/
def ladderRatioNum : Nat := 5

/-- `KV_CACHE_LADDER_RATIO_DEN`. -/
def ladderRatioDen : Nat := 7

/-- The loop body of `ds4_kvstore_ladder_select`: is the rung at `depth` kept? -/
def ladderKeep (frontier lastKept depth : Nat) : Bool :=
  if depth ≥ frontier then false -- not behind the frontier: not this ladder's business
  else if frontier - depth ≤ ladderDenseWindow then true
  else decide (depth * ladderRatioDen ≤ lastKept * ladderRatioNum)

/-- The loop of `ds4_kvstore_ladder_select`, with `last_kept` as its accumulator. -/
def ladderLoop (frontier : Nat) : Nat → List Nat → List Bool
  | _, [] => []
  | lastKept, d :: ds =>
    let k := ladderKeep frontier lastKept d
    k :: ladderLoop frontier (if k then d else lastKept) ds

/-- `ds4_kvstore_ladder_select`: the `keep` array and the kept count. -/
def ladderSelect (frontier : Nat) (depths : List Nat) : List Bool × Nat :=
  let keep := ladderLoop frontier frontier depths
  (keep, keep.count true)

/-- The elements whose flag is set. -/
def keptOf {α : Type} (xs : List α) (keep : List Bool) : List α :=
  (xs.zip keep).filterMap (fun x => if x.2 then some x.1 else none)

/-- `kv_cache_ladder_thin` on one chain, each entry given by its depth: the rungs behind the
frontier are sorted by descending depth and the ones not kept are unlinked. -/
def ladderThin (frontier : Nat) (rungs : List Nat) : List Nat :=
  let depths := (rungs.filter (· < frontier)).insertionSort (· ≥ ·)
  rungs.filter (frontier ≤ ·) ++ keptOf depths (ladderSelect frontier depths).1

/-- One continued store: the chain is thinned, then the frontier becomes a rung itself. -/
def chainStore (rungs : List Nat) (frontier : Nat) : List Nat :=
  frontier :: ladderThin frontier rungs

/-- The rungs after the stores of the frontiers `s, 2s, …, k·s` of one growing chat. -/
def chainRun (s : Nat) : Nat → List Nat
  | 0 => []
  | k + 1 => chainStore (chainRun s k) ((k + 1) * s)

/-- Every multiple of the step behind the frontier has a rung at or below it, at a constant fraction
of its depth up to three steps. -/
def Covered (s frontier : Nat) (rungs : List Nat) : Prop :=
  ∀ q, s ∣ q → s ≤ q → q < frontier → ∃ r ∈ rungs, r ≤ q ∧ q ≤ 3 * r + 3 * s

/-! ## The kept rungs of one selection -/

@[simp] theorem keptOf_nil {α : Type} (keep : List Bool) : keptOf ([] : List α) keep = [] := rfl

@[simp] theorem keptOf_cons {α : Type} (x : α) (xs : List α) (k : Bool) (keep : List Bool) :
    keptOf (x :: xs) (k :: keep) = if k then x :: keptOf xs keep else keptOf xs keep := by
  cases k <;> rfl

/-! ## The survivors of a run, in units of the step -/

/-- The number of steps that fit in the dense window. -/
def denseSteps (s : Nat) : Nat := ladderDenseWindow / s

theorem ladderKeep_scaled {s : Nat} (hs : 0 < s) (f l d : Nat) :
    ladderKeep (f * s) (l * s) (d * s) = decide (d < f ∧ (f ≤ d + denseSteps s ∨ 7 * d ≤ 5 * l)) := by
  have hwin : f * s - d * s ≤ ladderDenseWindow ↔ f - d ≤ denseSteps s := by
    rw [← Nat.sub_mul, denseSteps, Nat.le_div_iff_mul_le hs]
  have hgeo : d * s * ladderRatioDen ≤ l * s * ladderRatioNum ↔ 7 * d ≤ 5 * l := by
    rw [show d * s * ladderRatioDen = 7 * d * s by simp only [ladderRatioDen]; ring,
      show l * s * ladderRatioNum = 5 * l * s by simp only [ladderRatioNum]; ring]
    exact Nat.mul_le_mul_right_iff hs
  have hlt : d * s ≥ f * s ↔ d ≥ f := Nat.mul_le_mul_right_iff hs
  unfold ladderKeep
  simp only [hwin, hgeo, hlt]
  split_ifs with h1 h2
  · exact (decide_eq_false (by omega)).symm
  · exact (decide_eq_true (by omega)).symm
  · congr 1
    rw [eq_iff_iff]
    omega

/-- The survivors of the first `k` stores: the dense window and the first two rungs. -/
def survives (m k j : Nat) : Bool := decide (k ≤ j + m ∨ j ≤ 2)

/-- The unit depths `n, …, 1`, deepest first. -/
def unitsDown : Nat → List Nat
  | 0 => []
  | n + 1 => (n + 1) :: unitsDown n

@[simp] theorem mem_unitsDown {n j : Nat} : j ∈ unitsDown n ↔ 1 ≤ j ∧ j ≤ n := by
  induction n with
  | zero => simp [unitsDown]; omega
  | succ n ih => simp [unitsDown, ih]; omega

theorem pairwise_unitsDown (n : Nat) : (unitsDown n).Pairwise (· > ·) := by
  induction n with
  | zero => exact List.Pairwise.nil
  | succ n ih =>
    refine List.Pairwise.cons (fun j hj => ?_) ih
    have := (mem_unitsDown.1 hj).2
    omega

/-- One thinning of the survivors. Going down the rungs, the last kept one is above the next unit
`n`, and right above it as long as `n` was in the window of the store before: this is what makes the
leaving rung, compared with its neighbour, fail the ratio from the third one on. -/
theorem keptOf_survivors {s : Nat} (hs : 0 < s) (k n : Nat) (hn : n ≤ k) :
    ∀ l, n + 1 ≤ l → (k ≤ n + denseSteps s → l = n + 1) → 0 < denseSteps s →
      keptOf (((unitsDown n).filter (survives (denseSteps s) k)).map (· * s))
          (ladderLoop ((k + 1) * s) (l * s)
            (((unitsDown n).filter (survives (denseSteps s) k)).map (· * s))) =
        ((unitsDown n).filter (survives (denseSteps s) (k + 1))).map (· * s) := by
  induction n with
  | zero => intros; rfl
  | succ n ih =>
    intro l hl hadj hm
    have hkeep := ladderKeep_scaled hs (k + 1) l (n + 1)
    by_cases hold : survives (denseSteps s) k (n + 1) = true
    · have hold' : k ≤ n + 1 + denseSteps s ∨ n + 1 ≤ 2 := of_decide_eq_true hold
      rw [unitsDown, List.filter_cons_of_pos hold, List.map_cons, ladderLoop]
      simp only [keptOf_cons, hkeep]
      by_cases hnew : survives (denseSteps s) (k + 1) (n + 1) = true
      · have hnew' : k + 1 ≤ n + 1 + denseSteps s ∨ n + 1 ≤ 2 := of_decide_eq_true hnew
        have hk : n + 1 < k + 1 ∧ (k + 1 ≤ n + 1 + denseSteps s ∨ 7 * (n + 1) ≤ 5 * l) := by omega
        rw [List.filter_cons_of_pos hnew, List.map_cons]
        rw [decide_eq_true hk]
        simp only [if_true]
        rw [ih (by omega) (n + 1) (by omega) (fun _ => rfl) hm]
      · have hnew' : ¬(k + 1 ≤ n + 1 + denseSteps s ∨ n + 1 ≤ 2) := fun h => hnew (decide_eq_true h)
        have hlast := hadj (by omega)
        have hk : ¬(n + 1 < k + 1 ∧ (k + 1 ≤ n + 1 + denseSteps s ∨ 7 * (n + 1) ≤ 5 * l)) := by
          omega
        rw [List.filter_cons_of_neg hnew]
        rw [decide_eq_false hk]
        simp only [Bool.false_eq_true, if_false]
        exact ih (by omega) l (by omega) (by omega) hm
    · have hold' : ¬(k ≤ n + 1 + denseSteps s ∨ n + 1 ≤ 2) := fun h => hold (decide_eq_true h)
      have hnew : ¬survives (denseSteps s) (k + 1) (n + 1) = true := by
        intro h
        have : k + 1 ≤ n + 1 + denseSteps s ∨ n + 1 ≤ 2 := of_decide_eq_true h
        omega
      rw [unitsDown, List.filter_cons_of_neg hold, List.filter_cons_of_neg hnew]
      exact ih (by omega) l (by omega) (by omega) hm

theorem chainRun_eq {s : Nat} (hs : 0 < s) (hwin : s ≤ ladderDenseWindow) (k : Nat) :
    chainRun s k = ((unitsDown k).filter (survives (denseSteps s) k)).map (· * s) := by
  have hm : 0 < denseSteps s := Nat.div_pos hwin hs
  induction k with
  | zero => rfl
  | succ k ih =>
    have hlt : ∀ r ∈ ((unitsDown k).filter (survives (denseSteps s) k)).map (· * s),
        r < (k + 1) * s := by
      intro r hr
      obtain ⟨j, hj, rfl⟩ := List.mem_map.mp hr
      have := (mem_unitsDown.1 (List.mem_filter.mp hj).1).2
      exact Nat.mul_lt_mul_of_pos_right (by omega) hs
    have hsorted : (((unitsDown k).filter (survives (denseSteps s) k)).map (· * s)).Pairwise
        (· ≥ ·) := by
      rw [List.pairwise_map]
      exact ((pairwise_unitsDown k).filter _).imp fun h => Nat.mul_le_mul_right s (le_of_lt h)
    have hbehind : (((unitsDown k).filter (survives (denseSteps s) k)).map (· * s)).filter
        (· < (k + 1) * s) = ((unitsDown k).filter (survives (denseSteps s) k)).map (· * s) :=
      List.filter_eq_self.mpr fun r hr => decide_eq_true (hlt r hr)
    have hfront : (((unitsDown k).filter (survives (denseSteps s) k)).map (· * s)).filter
        ((k + 1) * s ≤ ·) = [] :=
      List.filter_eq_nil_iff.mpr fun r hr h => by
        have := hlt r hr
        have : (k + 1) * s ≤ r := of_decide_eq_true h
        omega
    have htop : survives (denseSteps s) (k + 1) (k + 1) = true := decide_eq_true (by omega)
    rw [chainRun, ih, chainStore, ladderThin, hbehind, hfront, hsorted.insertionSort_eq,
      List.nil_append, ladderSelect, unitsDown, List.filter_cons_of_pos htop, List.map_cons]
    rw [keptOf_survivors hs k k le_rfl (k + 1) le_rfl (fun _ => rfl) hm]

/-- A rung survives exactly in the dense window or as one of the first two. -/
theorem mem_chainRun {s : Nat} (hs : 0 < s) (hwin : s ≤ ladderDenseWindow) (k r : Nat) :
    r ∈ chainRun s k ↔ ∃ j, 1 ≤ j ∧ j ≤ k ∧ (k ≤ j + denseSteps s ∨ j ≤ 2) ∧ j * s = r := by
  rw [chainRun_eq hs hwin]
  constructor
  · intro h
    obtain ⟨j, hj, rfl⟩ := List.mem_map.mp h
    obtain ⟨hj, hsurv⟩ := List.mem_filter.mp hj
    exact ⟨j, (mem_unitsDown.1 hj).1, (mem_unitsDown.1 hj).2, of_decide_eq_true hsurv, rfl⟩
  · rintro ⟨j, h1, hk, hsurv, rfl⟩
    exact List.mem_map.mpr ⟨j, List.mem_filter.mpr ⟨mem_unitsDown.2 ⟨h1, hk⟩,
      decide_eq_true hsurv⟩, rfl⟩

/-! ## Coverage of a run -/

theorem covered_iff {s : Nat} (hs : 0 < s) (hwin : s ≤ ladderDenseWindow) (k : Nat) :
    Covered s (k * s) (chainRun s k) ↔ k ≤ denseSteps s + 10 := by
  constructor
  · intro hcov
    by_contra hk
    -- the deepest rung that has left the window is covered by `2s` at best
    obtain ⟨r, hr, hrq, hq⟩ := hcov ((k - denseSteps s - 1) * s) (Nat.dvd_mul_left s _)
      (Nat.le_mul_of_pos_left s (by omega)) (Nat.mul_lt_mul_of_pos_right (by omega) hs)
    obtain ⟨j, -, -, hsurv, rfl⟩ := (mem_chainRun hs hwin k r).mp hr
    have hjq : j ≤ k - denseSteps s - 1 := Nat.le_of_mul_le_mul_right hrq hs
    have hq' : k - denseSteps s - 1 ≤ 3 * j + 3 := by
      refine Nat.le_of_mul_le_mul_right ?_ hs
      calc (k - denseSteps s - 1) * s ≤ 3 * (j * s) + 3 * s := hq
        _ = (3 * j + 3) * s := by ring
    omega
  · rintro hk q ⟨n, rfl⟩ hlow hhigh
    have hn1 : 1 ≤ n := Nat.pos_of_ne_zero fun h => by subst h; omega
    have hnk : n < k := by
      rw [Nat.mul_comm s n] at hhigh
      exact Nat.lt_of_mul_lt_mul_right hhigh
    by_cases hsurv : k ≤ n + denseSteps s ∨ n ≤ 2
    · refine ⟨n * s, (mem_chainRun hs hwin k _).mpr ⟨n, hn1, by omega, hsurv, rfl⟩, ?_, ?_⟩
      · exact (Nat.mul_comm n s).le
      · rw [Nat.mul_comm s n]; omega
    · refine ⟨2 * s, (mem_chainRun hs hwin k _).mpr ⟨2, by omega, by omega, by omega, rfl⟩, ?_, ?_⟩
      · rw [Nat.mul_comm 2 s]
        exact Nat.mul_le_mul_left s (by omega)
      · calc s * n ≤ s * 9 := Nat.mul_le_mul_left s (by omega)
          _ = 3 * (2 * s) + 3 * s := by ring

/-- **Coverage of a whole chat.** Every store of the run leaves the history covered exactly when the
run is at most ten steps longer than the dense window. -/
theorem covered_chainRun_iff (s : Nat) (hs : 0 < s) (hwin : s ≤ 32768) (n : Nat) :
    (∀ k ≤ n, Covered s (k * s) (chainRun s k)) ↔ n ≤ 32768 / s + 10 :=
  ⟨fun h => (covered_iff hs hwin n).mp (h n le_rfl),
    fun h _ hk => (covered_iff hs hwin _).mpr (le_trans hk h)⟩

/-- The default step, within the bound. -/
theorem covered_chainRun_default : Covered 10240 (13 * 10240) (chainRun 10240 13) :=
  (covered_chainRun_iff 10240 (by norm_num) (by norm_num) 13).mpr (by norm_num) 13 le_rfl

/-- The default step loses its history at the fourteenth store. -/
theorem chainRun_default_uncovered :
    ¬∀ k ≤ 14, Covered 10240 (k * 10240) (chainRun 10240 k) := by
  intro h
  obtain ⟨r, hr, hrq, hq⟩ := h 14 le_rfl 102400 (by norm_num) (by norm_num) (by norm_num)
  have hrun : chainRun 10240 14 = [143360, 133120, 122880, 112640, 20480, 10240] := by
    decide
  rw [hrun] at hr
  fin_cases hr <;> omega

end Ds4.Kvstore
