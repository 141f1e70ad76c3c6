import Ds4.Lib.Heap
import Ds4.Lib.Largest
import Mathlib.Algebra.BigOperators.Group.List.Basic
import Mathlib.Data.Prod.Lex

/-!
# Logits and candidates

Numbers are taken to be exact, in an ordered field; `expf` is any function. A loop over the
vocabulary that passes over the entries that are not finite is a loop over `entries`.
-/

namespace Ds4.Sampler

open Ds4.Lib

variable {K : Type*} [Field K] [LinearOrder K]

/-- A `float` logit. -/
inductive Logit (K : Type*)
  | fin (x : K)
  | nan
  | posInf
  | negInf

/-- The value of a finite logit. -/
def Logit.value? : Logit K → Option K
  | fin x => some x
  | _ => none

/-- `>` of two floats. -/
def Logit.gt : Logit K → Logit K → Bool
  | fin x, fin y => decide (y < x)
  | posInf, fin _ => true
  | posInf, negInf => true
  | fin _, negInf => true
  | _, _ => false

/-- `DS4_NEG_INF`. -/
def negInf : K := -10 ^ 30

/-- `sample_argmax`, the scalar loop: the first strict maximum above `DS4_NEG_INF`. -/
def sampleArgmax (logits : List (Logit K)) : Nat :=
  (logits.zipIdx.foldl (fun best v => if v.1.gt best.2 then (v.2, v.1) else best)
    (0, Logit.fin negInf)).1

/-- The finite entries of a row, by id. -/
def entries (logits : List (Logit K)) : List (Nat × K) :=
  logits.zipIdx.filterMap fun v => v.1.value?.map fun x => (v.2, x)

/-- What the first pass over a row finds. -/
structure Scan (K : Type*) where
  finite : Nat
  maxLogit : K
  best : Nat

/-- One finite entry of the first pass. -/
def Scan.step (s : Scan K) (e : Nat × K) : Scan K :=
  if s.maxLogit < e.2 then ⟨s.finite + 1, e.2, e.1⟩ else { s with finite := s.finite + 1 }

/-- The first pass: the number of finite entries, the maximum above `DS4_NEG_INF` and its first id. -/
def scanMax (es : List (Nat × K)) : Scan K := es.foldl Scan.step ⟨0, negInf, 0⟩

/-- `sample_candidate`. -/
structure Candidate (K : Type*) where
  id : Nat
  logit : K
  prob : K

/-- `sample_candidate_gt`. -/
def sampleCandidateGt (a b : Candidate K) : Bool :=
  if a.logit ≠ b.logit then decide (b.logit < a.logit) else decide (a.id < b.id)

/-- `qsort` with `sample_candidate_cmp_desc`. -/
def sortCandidates (l : List (Candidate K)) : List (Candidate K) := sortDesc sampleCandidateGt l

/-- The order of candidates: by logit, then the smaller id. -/
def Candidate.key (c : Candidate K) : K ×ₗ Natᵒᵈ := toLex (c.logit, OrderDual.toDual c.id)

omit [Field K] in
theorem sampleCandidateGt_iff (a b : Candidate K) :
    sampleCandidateGt a b = true ↔ b.key < a.key := by
  rw [sampleCandidateGt, Candidate.key, Candidate.key, Prod.Lex.toLex_lt_toLex]
  split_ifs with h
  · simp only [decide_eq_true_eq, Ne.symm h, false_and, or_false]
  · rw [not_not] at h
    simp [h]

/-! ## Entries -/

omit [Field K] [LinearOrder K] in
theorem mem_entries {logits : List (Logit K)} {e : Nat × K} :
    e ∈ entries logits ↔ logits[e.1]? = some (.fin e.2) := by
  rw [entries, List.mem_filterMap]
  constructor
  · rintro ⟨⟨v, i⟩, hmem, hv⟩
    rw [List.mem_zipIdx_iff_getElem?] at hmem
    cases v with
    | fin x =>
      obtain rfl := Option.some.inj hv
      exact hmem
    | nan | posInf | negInf => cases hv
  · intro h
    exact ⟨(.fin e.2, e.1), List.mem_zipIdx_iff_getElem?.mpr h, rfl⟩

omit [Field K] [LinearOrder K] in
theorem entries_pairwise (logits : List (Logit K)) :
    (entries logits).Pairwise fun a b => a.1 < b.1 := by
  rw [entries, List.pairwise_filterMap]
  have hidx : logits.zipIdx.Pairwise fun a b => a.2 < b.2 := by
    have hmap : (logits.zipIdx.map Prod.snd).Pairwise (· < ·) := by
      rw [List.zipIdx_map_snd]
      exact List.pairwise_lt_range'
    exact List.pairwise_map.mp hmap
  refine hidx.imp fun {a b} hab x hx y hy => ?_
  obtain ⟨v, -, rfl⟩ := Option.map_eq_some_iff.mp hx
  obtain ⟨w, -, rfl⟩ := Option.map_eq_some_iff.mp hy
  exact hab

end Ds4.Sampler
