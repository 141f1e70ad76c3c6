import Ds4.Dspark.Speculate

/-!
# A stochastic block

`ds4_session_eval_dspark_speculative_stochastic` verifies a block of proposed tokens in a batch. A draft
is kept with its target probability, and a token that takes the place of a rejected draft is drawn from
what is left of the row. The row of a position is a function of the tokens in the graph; any step on the
device or the link may fail, and a step that fails may leave anything in the graph.
-/

namespace Ds4.Dspark

open Ds4.Lib Ds4.Sampler

/-- A session, and the tokens whose rows are in its graph. -/
structure Session (n : Nat) where
  checkpoint : List Nat
  valid : Bool
  graph : List Nat
  logits : LogitRow n
  draftValid : Bool
  stochasticDraft : Bool
  draftTokens : List Int

/-- What the leader of two ranks sends and receives. -/
structure Link where
  sendVerify : Bool
  sendCommit : Bool
  vocabSplit : Bool
  recvHalf : Bool

/-- The steps that may fail. -/
structure Device where
  snapshot : Bool
  /-- `spec_row_logits` is there. -/
  rowBuffer : Bool
  verify : Bool
  readRow : Nat → Bool
  prefixCommit : Bool
  restore : Bool
  replay : Nat → Bool
  evaluate : Bool
  /-- What a step that fails leaves in the graph. -/
  broken : List Nat
  /-- The link of a leader. -/
  link : Option Link

/-- What the function is called with. -/
structure StochasticCall (n : Nat) where
  session : Session n
  ctxSize : Nat
  accepted : List Nat
  maxTokens : Nat
  acceptedCap : Nat
  eos : Int
  temperature : ℝ
  topK : Int
  topP : ℝ
  minP : ℝ
  fullProbs : Bool
  /-- `DS4_SPEC_PREFIX_SLOTS`, 5 or 4 with the backend. -/
  prefixSlots : Nat
  /-- The row of the model after some tokens. -/
  target : List Nat → LogitRow n

/-- What the function returns: -1, or the accepted tokens. -/
inductive StochasticResult (n : Nat)
  | failed
  | returned (accepted : List Nat) (session : Session n)

/-- How the loop over the verified rows ends. -/
inductive Verdict
  | unavailable
  | all
  | rejected (kept : List Nat) (replacement : Nat)

variable {n : Nat}

/-- A commit message goes out, or there is no worker. -/
def Device.commitSent (d : Device) : Bool := d.link.all Link.sendCommit

/-! ## The coins -/

/-- `speculative_point_accept`. -/
noncomputable def speculativePointAccept (targetP draftP : ℝ) : RandProg Bool :=
  if draftP ≤ 0 then .ret false
  else if draftP ≤ targetP then .ret true
  else if targetP ≤ 0 then .ret false
  else .draw fun u => .ret (decide (u * draftP ≤ targetP))

/-- `speculative_point_replacement`. -/
noncomputable def speculativePointReplacement (probs : Nat → ℝ) (draftToken n : Nat) : RandProg Nat :=
  sampleProbabilities (Function.update probs draftToken 0) n

/-! ## The session -/

namespace Session

def clearDraft (s : Session n) : Session n :=
  { s with draftValid := false, stochasticDraft := false, draftTokens := [] }

/-- The checkpoint is cut back and the frontier restored. -/
def rollback (s : Session n) (start : Nat) (frontier : List Nat) : Session n :=
  { s with checkpoint := s.checkpoint.take start, graph := frontier }

end Session

namespace StochasticCall

variable (c : StochasticCall n) (d : Device)

/-- The probabilities of a row under the knobs. -/
noncomputable def probs (row : LogitRow n) : Option (Nat → ℝ) :=
  sampleBuildProbabilities Real.exp c.fullProbs row.val c.temperature c.topK c.topP c.minP

/-- `ds4_session_eval_probe_tp`. -/
def evalToken (s : Session n) (token : Nat) : Option (Session n) :=
  if s.valid = false ∨ c.ctxSize ≤ s.checkpoint.length ∨ d.evaluate = false then none
  else some { s with
    checkpoint := s.checkpoint ++ [token]
    graph := s.graph ++ [token]
    logits := c.target (s.graph ++ [token]) }

/-- The replay of kept drafts, from the `i`-th on. -/
def replayTokens : Nat → Session n → List Nat → Option (Session n)
  | _, s, [] => some s
  | i, s, t :: rest =>
    if d.replay i = false then none
    else replayTokens (i + 1)
      { s with checkpoint := s.checkpoint ++ [t], graph := s.graph ++ [t] } rest

/-! ## The block -/

/-- A block up to its first end of sequence. -/
def throughEos (eos : Int) : List Nat → List Nat
  | [] => []
  | t :: rest => if (t : Int) = eos then [t] else t :: throughEos eos rest

/-- The block cut to the limits and to the end of sequence: none when it is empty or has a token that
is not in the vocabulary. -/
def block : Option (List Nat) :=
  let draftN := min c.session.draftTokens.length (c.maxTokens - c.accepted.length)
  let draftN := min draftN (c.acceptedCap - c.accepted.length)
  let draftN := min draftN (c.ctxSize - c.session.checkpoint.length - 1)
  let drafts := c.session.draftTokens.take draftN
  if draftN = 0 ∨ ∃ t ∈ drafts, t < 0 ∨ (n : Int) ≤ t then none
  else some (throughEos c.eos (drafts.map Int.toNat))

/-- The loop that stores a fully accepted block. -/
def emit (eos : Int) (acceptedCap : Nat) : List Nat → List Nat → List Nat
  | accepted, [] => accepted
  | accepted, t :: rest =>
    if acceptedCap ≤ accepted.length then accepted
    else if (t : Int) = eos then accepted ++ [t]
    else emit eos acceptedCap (accepted ++ [t]) rest

/-! ## The verification -/

/-- The session while a block is verified. -/
def verifying (drafts : List Nat) : Session n :=
  let s := c.session.clearDraft
  { s with
    checkpoint := s.checkpoint ++ drafts
    graph := if d.verify then s.graph ++ drafts else d.broken }

/-- The loop over the rows behind a kept draft. -/
noncomputable def verdict : List Nat → List Nat → RandProg Verdict
  | _, [] => .ret .all
  | kept, t :: rest =>
    if d.readRow (kept.length - 1) = false then .ret .unavailable
    else
      match c.probs (c.target (c.session.graph ++ kept)) with
      | none => .ret .unavailable
      | some p => (speculativePointAccept (p t) 1).bind fun accept =>
        if accept then verdict (kept ++ [t]) rest
        else (speculativePointReplacement p t n).bind fun y => .ret (.rejected kept y)

/-- The exit without a verdict. -/
def rollBack (s : Session n) : StochasticResult n :=
  if d.restore = false ∨ d.commitSent = false then .failed
  else .returned c.accepted (s.rollback c.session.checkpoint.length c.session.graph)

/-- The exit with the whole block. -/
def commitFull (drafts : List Nat) : StochasticResult n :=
  let s := c.verifying d drafts
  if d.readRow (drafts.length - 1) = false then c.rollBack d s
  else if d.commitSent = false then .failed
  else .returned (emit c.eos c.acceptedCap c.accepted drafts)
    { s with valid := true, logits := c.target (c.session.graph ++ drafts) }

/-- The session behind the kept drafts: the prefix that the verifier captured, or a replay. -/
def keepDrafts (drafts kept : List Nat) : Option (Session n) :=
  let s := c.verifying d drafts
  let start := c.session.checkpoint.length
  if d.link = none ∧ kept.length ≤ c.prefixSlots ∧ d.prefixCommit = true then
    some { s with
      checkpoint := s.checkpoint.take start ++ kept
      graph := c.session.graph ++ kept
      valid := true }
  else if d.restore = false ∨ d.commitSent = false then none
  else
    match replayTokens d 0 (s.rollback start c.session.graph) kept with
    | none => none
    | some s =>
      if d.link.any (fun l => l.vocabSplit && !l.recvHalf) then none
      else some { s with valid := true }

/-- The exit with a replacement. -/
def commitPartial (drafts kept : List Nat) (replacement : Nat) : StochasticResult n :=
  match (c.keepDrafts d drafts kept).bind fun s => c.evalToken d s replacement with
  | none => .failed
  | some s =>
    let accepted := c.accepted ++ kept.take (c.acceptedCap - c.accepted.length)
    .returned (if accepted.length < c.acceptedCap then accepted ++ [replacement] else accepted) s

/-- The exits behind the verifier. -/
def settle (drafts : List Nat) : Verdict → StochasticResult n
  | .unavailable => c.rollBack d (c.verifying d drafts)
  | .all => c.commitFull d drafts
  | .rejected kept replacement => c.commitPartial d drafts kept replacement

/-- What follows when the first draft is kept. -/
noncomputable def firstKept (first : Nat) (rest : List Nat) : RandProg (StochasticResult n) :=
  if d.snapshot = false ∨ d.rowBuffer = false then .ret (.returned c.accepted c.session.clearDraft)
  else if d.link.any (fun l => !l.sendVerify) then .ret .failed
  else if d.verify = false then .ret (c.rollBack d (c.verifying d (first :: rest)))
  else (c.verdict d [first] rest).bind fun v => .ret (c.settle d (first :: rest) v)

/-- What follows when the first draft is rejected. -/
def firstRejected (replacement : Nat) : StochasticResult n :=
  match c.evalToken d c.session.clearDraft replacement with
  | none => .failed
  | some s => .returned (c.accepted ++ [replacement]) s

/-- `ds4_session_eval_dspark_speculative_stochastic`. -/
noncomputable def evalStochastic : RandProg (StochasticResult n) :=
  if c.session.draftValid = false ∨ c.session.stochasticDraft = false ∨ c.session.draftTokens = [] then
    .ret (.returned c.accepted c.session)
  else
    match c.block with
    | none | some [] => .ret (.returned c.accepted c.session.clearDraft)
    | some (first :: rest) =>
      match c.probs c.session.logits with
      | none => .ret (.returned c.accepted c.session.clearDraft)
      | some p => (speculativePointAccept (p first) 1).bind fun accept =>
        if accept then c.firstKept d first rest
        else (speculativePointReplacement p first n).bind fun y => .ret (c.firstRejected d y)

/-! ## The caller -/

/-- Plain draws of the caller from `s->logits`, each one evaluated, behind some tokens. -/
noncomputable def plainDraws : Nat → Session n → List Nat → RandProg (List Nat)
  | 0, _, tokens => .ret tokens
  | k + 1, s, tokens =>
    match c.probs s.logits with
    | none => .ret tokens
    | some p => (sampleProbabilities p n).bind fun t => plainDraws k { s with
        checkpoint := s.checkpoint ++ [t]
        graph := s.graph ++ [t]
        logits := c.target (s.graph ++ [t]) } (tokens ++ [t])

/-- The block, and plain draws behind it up to `k` tokens more than the caller had. -/
noncomputable def sequence (k : Nat) : RandProg (List Nat) :=
  (c.evalStochastic d).bind fun r =>
    match r with
    | .failed => .ret []
    | .returned accepted s => c.plainDraws (c.accepted.length + k - accepted.length) s accepted

end StochasticCall

end Ds4.Dspark
