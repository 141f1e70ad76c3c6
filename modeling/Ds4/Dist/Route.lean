import Ds4.Dist.Registry

/-!
# Route planning

`dist_route_search_workers` looks for a chain of workers behind the local slice. It goes through the
sorted workers and backs out of a worker behind which there is no way. The search finds a chain if and
only if there is one.
-/

namespace Ds4.Dist

open Ds4.Lib

variable {nLayers : UInt32}

/-- `dist_worker_route_cmp`. -/
def routeCmp (a b : Worker nLayers) : Int :=
  if a.layerStart < b.layerStart then -1
  else if b.layerStart < a.layerStart then 1
  else if a.hasOutput ≠ b.hasOutput then if a.hasOutput then -1 else 1
  else if b.layerEnd < a.layerEnd then -1
  else if a.layerEnd < b.layerEnd then 1
  else 0

/-- A sort like `qsort`: which of two equal elements comes first is not said. -/
structure Qsort {α : Type} (cmp : α → α → Int) where
  sort : List α → List α
  perm : ∀ l, (sort l).Perm l
  sorted : ∀ l, (sort l).Pairwise fun a b => cmp a b ≤ 0

/-- How a search ends. Writing behind the end of the path array would be an overrun. -/
inductive Search (nLayers : UInt32)
  | found (path : List (Worker nLayers))
  | missing (layer : UInt32)
  | overrun

/-- `dist_worker_route_candidate_ok`. -/
def candidateOk (canOutputHead : Bool) (last : UInt32) (w : Worker nLayers) : Bool :=
  if (w.layerEnd < last ∨ w.hasOutput = false) ∧ w.hasHidden = false then false
  else if last ≤ w.layerEnd ∧ w.hasOutput = false ∧ canOutputHead = false then false
  else true

theorem toNat_succ {a b : UInt32} (h : a < b) : (a + 1).toNat = a.toNat + 1 := by
  have hb := b.toNat_lt
  rw [UInt32.lt_iff_toNat_lt] at h
  rw [UInt32.toNat_add]
  have hone : (1 : UInt32).toNat = 1 := rfl
  rw [hone]
  omega

/-- `dist_route_search_workers`: the loop from the workers `rest` on. -/
def searchWorkers (canOutputHead : Bool) (workers : List (Worker nLayers)) (last next : UInt32)
    (rest : List (Worker nLayers)) (sawStart : Bool) (path : List (Worker nLayers)) (missingLayer : UInt32) :
    Search nLayers :=
  match rest with
  | [] => .missing (if sawStart = false ∧ missingLayer < next then next else missingLayer)
  | w :: rest =>
    if _hbefore : w.layerStart < next then
      searchWorkers canOutputHead workers last next rest sawStart path missingLayer
    else if next < w.layerStart then
      .missing (if sawStart = false ∧ missingLayer < next then next else missingLayer)
    else if candidateOk canOutputHead last w = false then
      searchWorkers canOutputHead workers last next rest true path missingLayer
    else if workers.length ≤ path.length then .overrun
    else if _hend : last ≤ w.layerEnd then .found (path ++ [w])
    else
      match searchWorkers canOutputHead workers last (w.layerEnd + 1) workers false (path ++ [w])
        (w.layerEnd + 1) with
      | .missing childMissing =>
        searchWorkers canOutputHead workers last next rest true path
          (if missingLayer < childMissing then childMissing else missingLayer)
      | result => result
termination_by (last.toNat + 1 - next.toNat, rest.length)
decreasing_by
  · exact Prod.Lex.right _ (Nat.lt_succ_self _)
  · exact Prod.Lex.right _ (Nat.lt_succ_self _)
  · apply Prod.Lex.left
    have hsucc := toNat_succ (UInt32.not_le.mp _hend)
    have hle := w.start_le
    rw [UInt32.le_iff_toNat_le] at hle
    have hlast := UInt32.not_le.mp _hend
    rw [UInt32.lt_iff_toNat_lt] at hlast _hbefore
    omega
  · exact Prod.Lex.right _ (Nat.lt_succ_self _)

/-! ## Chains -/

/-- A way behind the layers before `next`: each worker starts where the one before it ends. -/
inductive Goes (canOutputHead : Bool) (workers : List (Worker nLayers)) (last : UInt32) :
    UInt32 → List (Worker nLayers) → Prop
  | final {w : Worker nLayers} (hmem : w ∈ workers) (hok : candidateOk canOutputHead last w = true)
      (hend : last ≤ w.layerEnd) : Goes canOutputHead workers last w.layerStart [w]
  | hop {w : Worker nLayers} {ws : List (Worker nLayers)} (hmem : w ∈ workers)
      (hok : candidateOk canOutputHead last w = true) (hend : w.layerEnd < last)
      (hnext : Goes canOutputHead workers last (w.layerEnd + 1) ws) :
      Goes canOutputHead workers last w.layerStart (w :: ws)

section Search

variable {canOutputHead : Bool} {workers : List (Worker nLayers)} {last : UInt32}

theorem start_eq {a b : UInt32} (h : ¬a < b) (h' : ¬b < a) : a = b :=
  UInt32.le_antisymm (UInt32.not_lt.mp h') (UInt32.not_lt.mp h)

theorem Goes.first {next : UInt32} {ws : List (Worker nLayers)}
    (h : Goes canOutputHead workers last next ws) :
    ∃ w rest, ws = w :: rest ∧ w ∈ workers ∧ w.layerStart = next := by
  cases h with
  | final hmem => exact ⟨_, _, rfl, hmem, rfl⟩
  | hop hmem => exact ⟨_, _, rfl, hmem, rfl⟩

/-- **What is found is a chain.** -/
theorem goes_of_found {next : UInt32} {rest : List (Worker nLayers)} {sawStart : Bool}
    {path p : List (Worker nLayers)} {missingLayer : UInt32} (hrest : rest ⊆ workers)
    (h : searchWorkers canOutputHead workers last next rest sawStart path missingLayer = .found p) :
    ∃ ws, p = path ++ ws ∧ Goes canOutputHead workers last next ws := by
  fun_induction searchWorkers canOutputHead workers last next rest sawStart path missingLayer with
  | case1 => cases h
  | case2 next sawStart path missingLayer w rest hbefore ih =>
    exact ih (fun x hx => hrest (List.mem_cons_of_mem _ hx)) h
  | case3 => cases h
  | case4 next sawStart path missingLayer w rest hbefore hafter hok ih =>
    exact ih (fun x hx => hrest (List.mem_cons_of_mem _ hx)) h
  | case5 => cases h
  | case6 next sawStart path missingLayer w rest hbefore hafter hok hroom hend =>
    cases h
    refine ⟨[w], rfl, ?_⟩
    rw [← start_eq hbefore hafter]
    exact .final (hrest (by simp)) (by simpa using hok) hend
  | case7 next sawStart path missingLayer w rest hbefore hafter hok hroom hend childMissing hchild ihchild ih =>
    exact ih (fun x hx => hrest (List.mem_cons_of_mem _ hx)) h
  | case8 next sawStart path missingLayer w rest hbefore hafter hok hroom hend hchild ihchild =>
    obtain ⟨ws, rfl, hws⟩ := ihchild (fun x hx => hx) h
    refine ⟨w :: ws, by rw [List.append_assoc]; rfl, ?_⟩
    rw [← start_eq hbefore hafter]
    exact .hop (hrest (by simp)) (by simpa using hok) (UInt32.not_le.mp hend) hws

/-- **A chain is not missed.** -/
theorem not_missing_of_goes (hworkers : workers.Pairwise fun a b => a.layerStart ≤ b.layerStart)
    {next : UInt32} {rest : List (Worker nLayers)} {sawStart : Bool} {path : List (Worker nLayers)}
    {missingLayer : UInt32} (hrest : rest.Pairwise fun a b => a.layerStart ≤ b.layerStart)
    {first : Worker nLayers} {ws : List (Worker nLayers)} (hfirst : first ∈ rest)
    (hgoes : Goes canOutputHead workers last next (first :: ws)) (layer : UInt32) :
    searchWorkers canOutputHead workers last next rest sawStart path missingLayer ≠ .missing layer := by
  fun_induction searchWorkers canOutputHead workers last next rest sawStart path missingLayer
      generalizing first ws layer with
  | case1 => cases hfirst
  | case2 next sawStart path missingLayer w rest hbefore ih =>
    rcases List.mem_cons.mp hfirst with rfl | hmem
    · cases hgoes <;> exact absurd hbefore (UInt32.lt_irrefl _)
    · exact ih (List.pairwise_cons.mp hrest).2 hmem hgoes layer
  | case3 next sawStart path missingLayer w rest hbefore hafter =>
    have hstart : first.layerStart = next := by cases hgoes <;> rfl
    have hle : w.layerStart ≤ first.layerStart := by
      rcases List.mem_cons.mp hfirst with rfl | hmem
      · exact UInt32.le_refl _
      · exact (List.pairwise_cons.mp hrest).1 _ hmem
    exact absurd hafter (UInt32.not_lt.mpr (hstart ▸ hle))
  | case4 next sawStart path missingLayer w rest hbefore hafter hok ih =>
    rcases List.mem_cons.mp hfirst with rfl | hmem
    · cases hgoes with
      | final _ hgood => exact absurd (hgood.symm.trans hok) (by decide)
      | hop _ hgood => exact absurd (hgood.symm.trans hok) (by decide)
    · exact ih (List.pairwise_cons.mp hrest).2 hmem hgoes layer
  | case5 => nofun
  | case6 => nofun
  | case7 next sawStart path missingLayer w rest hbefore hafter hok hroom hend childMissing hchild ihchild ih =>
    rcases List.mem_cons.mp hfirst with rfl | hmem
    · cases hgoes with
      | final _ _ hlast => exact absurd hlast hend
      | hop _ _ _ hnext =>
        obtain ⟨w', ws', rfl, hmem, -⟩ := hnext.first
        exact absurd hchild (ihchild hworkers hmem hnext childMissing)
    · exact ih (List.pairwise_cons.mp hrest).2 hmem hgoes layer
  | case8 next sawStart path missingLayer w rest hbefore hafter hok hroom hend hchild ihchild =>
    exact hchild layer

/-- The workers on the path so far. -/
structure Behind (workers : List (Worker nLayers)) (next : UInt32) (path : List (Worker nLayers)) : Prop where
  mem : ∀ w ∈ path, w ∈ workers ∧ w.layerStart < next
  starts : path.Pairwise fun a b => a.layerStart < b.layerStart

theorem Behind.append {next : UInt32} {path : List (Worker nLayers)} (h : Behind workers next path)
    {w : Worker nLayers} (hw : w ∈ workers) (hstart : w.layerStart = next) (hend : w.layerEnd < last) :
    Behind workers (w.layerEnd + 1) (path ++ [w]) := by
  have hsucc := toNat_succ hend
  have hle := w.start_le
  rw [UInt32.le_iff_toNat_le] at hle
  have hlt : w.layerStart < w.layerEnd + 1 := by
    rw [UInt32.lt_iff_toNat_lt, hsucc]
    omega
  constructor
  · intro x hx
    rcases List.mem_append.mp hx with hx | hx
    · exact ⟨(h.mem x hx).1, UInt32.lt_trans (hstart ▸ (h.mem x hx).2) hlt⟩
    · rw [List.mem_singleton] at hx
      subst hx
      exact ⟨hw, hlt⟩
  · rw [List.pairwise_append]
    refine ⟨h.starts, List.pairwise_singleton _ _, fun x hx y hy => ?_⟩
    rw [List.mem_singleton] at hy
    rw [hy, hstart]
    exact (h.mem x hx).2

theorem Behind.length_lt {next : UInt32} {path : List (Worker nLayers)} (h : Behind workers next path)
    {w : Worker nLayers} (hw : w ∈ workers) (hstart : w.layerStart = next) :
    path.length < workers.length := by
  have hnodup : (path ++ [w]).Nodup := by
    rw [List.nodup_append]
    refine ⟨h.starts.imp fun hlt heq => ?_, List.nodup_singleton _, fun x hx y hy heq => ?_⟩
    · rw [heq] at hlt
      exact UInt32.lt_irrefl _ hlt
    · rw [List.mem_singleton] at hy
      have hlt := (h.mem x hx).2
      rw [heq, hy, hstart] at hlt
      exact UInt32.lt_irrefl _ hlt
  have hsubset : path ++ [w] ⊆ workers := by
    intro x hx
    rcases List.mem_append.mp hx with hx | hx
    · exact (h.mem x hx).1
    · rw [List.mem_singleton] at hx
      exact hx ▸ hw
  have hlength := (List.subperm_of_subset hnodup hsubset).length_le
  rw [List.length_append, List.length_singleton] at hlength
  exact hlength

/-- **The path array is not overrun.** -/
theorem not_overrun {next : UInt32} {rest : List (Worker nLayers)} {sawStart : Bool}
    {path : List (Worker nLayers)} {missingLayer : UInt32} (hrest : rest ⊆ workers)
    (h : Behind workers next path) :
    searchWorkers canOutputHead workers last next rest sawStart path missingLayer ≠ .overrun := by
  fun_induction searchWorkers canOutputHead workers last next rest sawStart path missingLayer with
  | case1 => nofun
  | case2 next sawStart path missingLayer w rest hbefore ih =>
    exact ih (fun x hx => hrest (List.mem_cons_of_mem _ hx)) h
  | case3 => nofun
  | case4 next sawStart path missingLayer w rest hbefore hafter hok ih =>
    exact ih (fun x hx => hrest (List.mem_cons_of_mem _ hx)) h
  | case5 next sawStart path missingLayer w rest hbefore hafter hok hroom =>
    have hlt := h.length_lt (hrest (by simp)) (start_eq hbefore hafter)
    exact absurd hroom (Nat.not_le.mpr hlt)
  | case6 => nofun
  | case7 next sawStart path missingLayer w rest hbefore hafter hok hroom hend childMissing hchild ihchild ih =>
    exact ih (fun x hx => hrest (List.mem_cons_of_mem _ hx)) h
  | case8 next sawStart path missingLayer w rest hbefore hafter hok hroom hend hchild ihchild =>
    exact ihchild (fun x hx => hx)
      (h.append (hrest (by simp)) (start_eq hbefore hafter) (UInt32.not_le.mp hend))

end Search

end Ds4.Dist
