import Ds4.Sampler.Build

/-!
# Drawing a token

`sample_top_p_min_p` with its four ways: the heap of `sample_fast_top_p`, the full sort, the scan of
the whole vocabulary, and the insertion of the largest `top_k`. A token that needs no draw is `fixed`;
otherwise it is a function of the one draw.
-/

namespace Ds4.Sampler

open Ds4.Lib

variable {K : Type*} [Field K] [LinearOrder K]

/-- How a token is picked: without a draw, or from one draw between zero and one. -/
inductive Pick (K : Type*)
  | fixed (id : Nat)
  | drawn (f : K → Nat)

/-- The id and weight of a candidate. -/
def Candidate.weighted (c : Candidate K) : Nat × K := (c.id, c.prob)

/-- The end of the sorted ways: a draw from the first `filtered` candidates of a row. -/
def drawFiltered (row : List (Candidate K)) (c : Cut K) : Pick K :=
  .drawn fun u => walk ((row.take c.filtered).map Candidate.weighted) (u * c.filteredSum)
    ((row.take c.filtered).getLastD ⟨0, 0, 0⟩).id

/-- `sample_fast_top_p`, none for false. -/
def sampleFastTopP (expf : K → K) (es : List (Nat × K)) (scan : Scan K) (temperature topP minP : K) :
    Option (Pick K) :=
  if scan.finite = 0 then none
  else if 512 < scan.finite ∧ 999 / 1000 ≤ topP then none
  else
    let cap := if scan.finite < 512 then scan.finite else 512
    let pass := heapPass cap (es.map (candidate expf scan.maxLogit temperature))
    if pass.fullSum ≤ 0 then some (.fixed scan.best)
    else if pass.n < scan.finite ∧ pass.heapSum < topP * pass.fullSum then none
    else
      let heap := sortCandidates (Heap.entries pass.n pass.heap)
      let top := heap.headD ⟨0, 0, 0⟩
      let lowest := heap.getLastD ⟨0, 0, 0⟩
      let minProb := top.prob / pass.fullSum * clampMinP minP
      let minProbRaw := top.prob * clampMinP minP
      let c := cut (fun p => decide (p / pass.fullSum < minProb))
        (fun s => decide (topP ≤ s / pass.fullSum)) heap
      if pass.n < scan.finite ∧ c.stoppedByMinP ∧ 0 < minP ∧ minProbRaw ≤ lowest.prob then none
      else if c.filtered = 0 then some (.fixed scan.best)
      else some (drawFiltered heap c)

/-- The loop that looks for a boundary whose `expf` fails `min_p`, `n` steps below `logf`. -/
def rejectBoundary (expf nextBelow : K → K) (minRel : K) : Nat → K → Option K
  | 0, _ => none
  | n + 1, cutoff =>
    if expf (nextBelow cutoff) < minRel then some (nextBelow cutoff)
    else rejectBoundary expf nextBelow minRel n (nextBelow cutoff)

/-- The way of `sample_full_vocab` without `top_p`: every entry that passes `min_p`, in id order. -/
def scanFullVocab (expf logf nextBelow : K → K) (es : List (Nat × K)) (scan : Scan K)
    (temperature minP : K) : Pick K :=
  let minRel := clampMinP minP
  if 1 < minRel then .fixed scan.best
  else
    let reject := if 0 < minRel then rejectBoundary expf nextBelow minRel 8 (logf minRel) else none
    let kept := es.filterMap fun e =>
      let scaled := (e.2 - scan.maxLogit) / temperature
      if reject.any fun r => decide (scaled ≤ r) then none
      else if expf scaled < minRel then none
      else some (e.1, expf scaled)
    let sum := (kept.map Prod.snd).sum
    if sum ≤ 0 then .fixed scan.best else .drawn fun u => walk kept (u * sum) scan.best

/-- The way of `sample_full_vocab` that sorts: all candidates, or those that can pass `min_p`. -/
def sortFullVocab (expf : K → K) (es : List (Nat × K)) (scan : Scan K) (temperature topP minP : K) :
    Pick K :=
  let all := es.map (candidate expf scan.maxLogit temperature)
  let sum := (all.map Candidate.prob).sum
  let cands :=
    if 0 < minP ∧ minP ≤ 1 then all.filter fun c => !decide (c.prob / sum < 1 / sum * minP) else all
  if sum ≤ 0 then .fixed scan.best
  else if (0 < minP ∧ minP ≤ 1) ∧ cands.length = 0 then .fixed scan.best
  else
    let row := sortCandidates cands
    let minProb := (row.headD ⟨0, 0, 0⟩).prob / sum * clampMinP minP
    let c := cut (fun p => decide (p / sum < minProb)) (fun s => decide (topP ≤ s / sum)) row
    if c.filtered = 0 then .fixed scan.best else drawFiltered row c

/-- `sample_full_vocab`. -/
def sampleFullVocab (expf logf nextBelow : K → K) (logits : List (Logit K))
    (temperature topP minP : K) : Pick K :=
  let es := entries logits
  let scan := scanMax es
  if scan.finite = 0 then .fixed (sampleArgmax logits)
  else
    match (if topP < 1 then sampleFastTopP expf es scan temperature topP minP else none) with
    | some pick => pick
    | none =>
      if 1 ≤ topP then scanFullVocab expf logf nextBelow es scan temperature minP
      else sortFullVocab expf es scan temperature topP minP

/-- The insertion of an entry, the last of the row first. -/
def insertEntry (e : Nat × K) : List (Nat × K) → List (Nat × K)
  | [] => [e]
  | a :: rest => if a.2 < e.2 then a :: insertEntry e rest else e :: a :: rest

/-- One entry of the `top_k` loop, on the row with its last first. -/
def topKStep (topK : Nat) (rev : List (Nat × K)) (e : Nat × K) : List (Nat × K) :=
  match rev with
  | [] => if topK = 0 then rev else [e]
  | last :: rest =>
    if rev.length = topK ∧ e.2 ≤ last.2 then rev
    else if rev.length < topK then insertEntry e rev
    else insertEntry e rest

/-- The way of `sample_top_p_min_p` with `top_k`. -/
def sampleTopK (expf : K → K) (logits : List (Logit K)) (temperature : K) (topK : Nat) (topP minP : K) :
    Pick K :=
  let kept := ((entries logits).foldl (topKStep topK) []).reverse
  match kept with
  | [] => .fixed (sampleArgmax logits)
  | top :: _ =>
    let row := kept.map (candidate expf top.2 temperature)
    let sum := (row.map Candidate.prob).sum
    if sum ≤ 0 then .fixed top.1
    else
      let minProb := (row.headD ⟨0, 0, 0⟩).prob / sum * minP
      let c := cut (fun p => decide (p / sum < minProb)) (fun s => decide (topP ≤ s / sum)) row
      if c.filtered = 0 then .fixed top.1 else drawFiltered row c

/-- `sample_top_p_min_p`. -/
def sampleTopPMinP (expf logf nextBelow : K → K) (logits : List (Logit K)) (temperature : K)
    (topK : Int) (topP minP : K) : Pick K :=
  if temperature ≤ 0 then .fixed (sampleArgmax logits)
  else if topK ≤ 0 then
    sampleFullVocab expf logf nextBelow logits temperature (clampTopP topP) (clampMinP minP)
  else
    sampleTopK expf logits temperature (clampTopK topK logits.length) (clampTopP topP) (clampMinP minP)

end Ds4.Sampler
