import Ds4.Sampler.Logits

/-!
# Building a distribution

`sample_build_probabilities` and the three parts it shares with the samplers: the heap of the largest
candidates, the cut of a sorted row, and the draw from a list of weights.
-/

namespace Ds4.Sampler

open Ds4.Lib

variable {K : Type*} [Field K] [LinearOrder K]

/-! ## Shared parts -/

/-- The candidate of an entry; its weight is relative to a maximum. -/
def candidate (expf : K → K) (maxLogit temperature : K) (e : Nat × K) : Candidate K :=
  ⟨e.1, e.2, expf ((e.2 - maxLogit) / temperature)⟩

/-- The heap of the largest candidates, its size and its mass, with the mass of all candidates. -/
structure HeapPass (K : Type*) where
  heap : Nat → Candidate K
  n : Nat
  heapSum : K
  fullSum : K

/-- One candidate of the pass: it is pushed, or takes the place of the root, or is passed over. -/
def HeapPass.step (cap : Nat) (s : HeapPass K) (cand : Candidate K) : HeapPass K :=
  let fullSum := s.fullSum + cand.prob
  if s.n < cap then
    { heap := Heap.siftUp sampleCandidateGt (Function.update s.heap s.n cand) s.n
      n := s.n + 1
      heapSum := s.heapSum + cand.prob
      fullSum := fullSum }
  else if sampleCandidateGt cand (s.heap 0) then
    { heap := Heap.siftDown sampleCandidateGt s.n (Function.update s.heap 0 cand) 0
      n := s.n
      heapSum := s.heapSum - (s.heap 0).prob + cand.prob
      fullSum := fullSum }
  else { s with fullSum := fullSum }

/-- The pass over the vocabulary that fills the heap. -/
def heapPass (cap : Nat) (cands : List (Candidate K)) : HeapPass K :=
  cands.foldl (HeapPass.step cap) ⟨fun _ => ⟨0, 0, 0⟩, 0, 0, 0⟩

/-- What the cut of a sorted row has taken, and why it ended. -/
structure Cut (K : Type*) where
  filtered : Nat
  filteredSum : K
  stoppedByMinP : Bool
  reachedTopP : Bool

/-- The loop over a sorted row: it ends before a candidate that is `low`, the first one apart, and
behind one that makes the mass `enough`. -/
def cutLoop (low enough : K → Bool) : List (Candidate K) → Cut K → Cut K
  | [], c => c
  | a :: rest, c =>
    if 0 < c.filtered ∧ low a.prob then { c with stoppedByMinP := true }
    else
      let c' := { c with filtered := c.filtered + 1, filteredSum := c.filteredSum + a.prob }
      if enough c'.filteredSum then { c' with reachedTopP := true } else cutLoop low enough rest c'

/-- The cut of a sorted row. -/
def cut (low enough : K → Bool) (row : List (Candidate K)) : Cut K :=
  cutLoop low enough row ⟨0, 0, false, false⟩

/-- The loop that takes weights off `r` until nothing is left of it. -/
def walk : List (Nat × K) → K → Nat → Nat
  | [], _, last => last
  | (id, p) :: rest, r, last => if r - p ≤ 0 then id else walk rest (r - p) last

/-! ## The distribution -/

/-- A distribution on one id. -/
def single (id : Nat) : Nat → K := Function.update (fun _ => 0) id 1

/-- The weights of a row over their sum, by id. -/
def scatter (inv : K) (row : List (Candidate K)) : Nat → K :=
  row.foldl (fun probs c => Function.update probs c.id (c.prob * inv)) fun _ => 0

/-- `top_p` as both samplers take it. -/
def clampTopP (topP : K) : K := if topP ≤ 0 ∨ 1 < topP then 1 else topP

/-- `min_p` as both samplers take it. -/
def clampMinP (minP : K) : K := if minP < 0 then 0 else minP

/-- `top_k` as `sample_build_probabilities` takes it, zero for no limit. -/
def clampTopK (topK : Int) (nVocab : Nat) : Nat := min (min topK.toNat 1024) nVocab

/-- `sample_build_probabilities`, none for false; `fullProbs` is `sample_full_probs_on`. -/
def sampleBuildProbabilities (expf : K → K) (fullProbs : Bool) (logits : List (Logit K))
    (temperature : K) (topK : Int) (topP minP : K) : Option (Nat → K) :=
  if logits = [] then none
  else if temperature ≤ 0 then some (single (sampleArgmax logits))
  else
    let topP := clampTopP topP
    let minP := clampMinP minP
    let topK := clampTopK topK logits.length
    let es := entries logits
    let scan := scanMax es
    if scan.finite = 0 then some (single (sampleArgmax logits))
    else if topK = 0 ∧ 1 ≤ topP ∧ minP ≤ 0 ∧ fullProbs then
      let row := es.map fun e => ⟨e.1, e.2, expf ((e.2 - scan.maxLogit) * (1 / temperature))⟩
      let sum := (row.map Candidate.prob).sum
      if ¬0 < sum then some (single (sampleArgmax logits)) else some (scatter (1 / sum) row)
    else
      let cands := es.map (candidate expf scan.maxLogit temperature)
      let pass := heapPass (if 0 < topK then topK else 512) cands
      if pass.fullSum ≤ 0 ∨ pass.n = 0 then some (single (sampleArgmax logits))
      else
        let heap := sortCandidates (Heap.entries pass.n pass.heap)
        let baseSum := if 0 < topK then pass.heapSum else pass.fullSum
        let top := heap.headD ⟨0, 0, 0⟩
        let lowest := heap.getLastD ⟨0, 0, 0⟩
        let minRaw := top.prob * minP
        let fast := cut (fun p => decide (p < minRaw)) (fun s => decide (topP ≤ s / baseSum)) heap
        let fastComplete := decide (0 < topK) || decide (pass.n = scan.finite) || fast.reachedTopP ||
          (fast.stoppedByMinP && decide (lowest.prob < minRaw))
        let row := if fastComplete then heap else sortCandidates cands
        let slowMinRaw := (row.headD ⟨0, 0, 0⟩).prob * minP
        let c :=
          if fastComplete then fast
          else
            cut (fun p => decide (p < slowMinRaw)) (fun s => decide (topP ≤ s / pass.fullSum)) row
        if c.filtered = 0 ∨ c.filteredSum ≤ 0 then some (single (row.headD ⟨0, 0, 0⟩).id)
        else some (scatter (1 / c.filteredSum) (row.take c.filtered))

end Ds4.Sampler
