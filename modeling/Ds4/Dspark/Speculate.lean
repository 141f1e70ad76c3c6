import Ds4.Dspark.Block
import Ds4.Sampler.Keyed
import Ds4.Sampler.Plain

/-!
# A speculative cycle

`ds41_session_speculate` drafts tokens one by one, has the model verify the block and keeps the drafts
that pass. The rows of logits that the model and the drafter return are functions of the tokens before
them; the cycle is a program that draws. With PQ_GPU, what the GPU builds is a parameter: its rows of
probabilities, and its candidates under a key.
-/

namespace Ds4.Dspark

open Ds4.Lib Ds4.Sampler

/-- `DS4_TP_BATCH_MAX_ROWS`. -/
abbrev batchMaxRows : Nat := 8

/-- A row of logits of a vocabulary. -/
abbrev LogitRow (n : Nat) := {l : List (Logit ℝ) // l.length = n}

/-- What `ds41_admission` has for the next cycle. -/
structure Admission where
  skip : Nat
  attempts : Nat
  serialTokens : Nat

/-- `ds41_admit_draft`. -/
def Admission.admitDraft (a : Admission) : Bool :=
  a.skip = 0 && (a.attempts ≠ 0 || 16 ≤ a.serialTokens)

/-- `ds41_admit_confident`. -/
noncomputable def admitConfident (row : Nat) (confidence : ℝ) : Prop := 3 ≤ row ∨ 3 / 4 ≤ confidence

/-- `sigmoid_stable`. -/
noncomputable def sigmoidStable (x : ℝ) : ℝ :=
  if 0 ≤ x then 1 / (1 + Real.exp (-x)) else Real.exp x / (1 + Real.exp x)

/-- What PQ_GPU builds on the GPU for a row, after some tokens: the rows that the drafter and the
verifier could build, their probabilities, and the candidates of their draws under a key. -/
structure PqGpu where
  /-- `d->pq_q`. -/
  draftBuilt : List Nat → Bool
  draftProbs : List Nat → Nat → ℝ
  draftCand : List Nat → UInt64 → Option KgGpuRow
  /-- `d->pq_done`, after the verification of a block. -/
  verifyBuilt : List Nat → Bool
  verifyProbs : List Nat → Nat → ℝ
  verifyCand : List Nat → UInt64 → Option KgGpuRow

/-- What a cycle is called with and what it reads from the session. -/
structure Cycle (n : Nat) where
  /-- The checkpoint and the graph are valid and agree. -/
  valid : Bool
  /-- The positions left in the context. -/
  room : Nat
  firstToken : Nat
  cap : Nat
  /-- `DS4_DSPARK_VERIFY_CAP`, zero for none. -/
  draftCap : Nat
  eos : Int
  ignoreEos : Bool
  /-- `ds4_token_is_stop_for_think_mode`. -/
  isStop : Nat → Bool
  /-- `temperature > 0 && dspark_exact_sampling`. -/
  exact : Bool
  temperature : ℝ
  topK : Int
  topP : ℝ
  minP : ℝ
  fullProbs : Bool
  /-- `ds41_pq_gpu`. -/
  pqGpu : Option PqGpu
  /-- The rows of other sessions in the step. -/
  others : Nat
  cancelled : Bool
  /-- The drafter is there and allowed, and its feature window is whole. -/
  supported : Bool
  /-- The public controller, when it decides. -/
  admission : Option Admission
  /-- `dspark_confidence_threshold`. -/
  threshold : ℝ
  /-- A correction is carried to the next step. -/
  carryOn : Bool
  /-- The row of the model after the checkpoint and some tokens. -/
  target : List Nat → LogitRow n
  /-- The row of the drafter after the checkpoint and some tokens. -/
  draft : List Nat → LogitRow n
  /-- The confidence of the drafter at a row, after a token. -/
  confidence : Nat → Nat → ℝ

/-- What a cycle returns: -1, or the accepted tokens and what is carried. -/
inductive SpecResult
  | failed
  | accepted (tokens : List Nat) (carry : Option Nat)

variable {n : Nat} (c : Cycle n)

namespace Cycle

/-- The probabilities of a row under the knobs. -/
noncomputable def probs (row : LogitRow n) : Option (Nat → ℝ) :=
  sampleBuildProbabilities Real.exp c.fullProbs row.val c.temperature c.topK c.topP c.minP

/-- The rows of the block, the first token's included. -/
def blockCap : Nat :=
  let cap := min c.cap c.room
  let cap := min cap verifyRows
  let cap := if c.draftCap ≠ 0 ∧ c.draftCap < cap - 1 then c.draftCap + 1 else cap
  if c.others ≠ 0 then min cap (batchMaxRows - c.others) else cap

/-- `ds41_cycle_ready`. -/
def ready : Bool :=
  c.supported && 1 < c.blockCap && c.admission.all Admission.admitDraft && (c.firstToken : Int) ≠ c.eos

/-- The confidence at the end of a draft is too low to go on. -/
noncomputable def Unsure (tokens : List Nat) : Prop :=
  let row := tokens.length - 1
  let confidence := sigmoidStable (c.confidence row (tokens.getLastD 0))
  if c.admission.isSome then ¬admitConfident row confidence
  else 0 < c.threshold ∧ confidence < c.threshold

/-- The GPU builds the rows of this cycle. -/
def pq : Option PqGpu := if c.exact then c.pqGpu else none

/-- A key from a draw, which the generator makes of 64 bits. -/
noncomputable def keyOf (u : ℝ) : UInt64 := sampleKeyMix (UInt64.ofNat ⌊u * (2 ^ 64 : Nat)⌋₊)

/-- The key of a draw on the GPU; without PQ_GPU there is none. -/
noncomputable def drawKey : RandProg UInt64 :=
  if c.pq.isSome then .draw fun u => .ret (keyOf u) else .ret 0

/-- The keys of some rows. -/
noncomputable def drawKeys : Nat → RandProg (List UInt64)
  | 0 => .ret []
  | k + 1 => c.drawKey.bind fun key => (drawKeys k).bind fun keys => .ret (key :: keys)

/-- The draft probabilities of a row: the GPU's or those of the CPU. -/
noncomputable def draftProbs (tokens : List Nat) : Option (Nat → ℝ) :=
  match c.pq.filter fun g => g.draftBuilt tokens with
  | some g => some (g.draftProbs tokens)
  | none => c.probs (c.draft tokens)

/-- The next draft token, none when there are no probabilities. A row of candidates that decides
nothing is drawn on the CPU from the probabilities of the GPU. -/
noncomputable def draftToken (tokens : List Nat) (key : UInt64) : Option (RandProg Nat) :=
  if c.exact then
    match c.pq.filter fun g => g.draftBuilt tokens with
    | some g =>
      match ds41KgFinish (g.draftCand tokens key) (c.draft tokens).val c.temperature key with
      | .decided t => some (.ret t)
      | _ => some (sampleProbabilities (g.draftProbs tokens) n)
    | none => (c.probs (c.draft tokens)).map fun q => sampleProbabilities q n
  else some (.ret (sampleArgmax (c.draft tokens).val))

open Classical in
/-- The loop that drafts, with room for `fuel` more tokens. A controller that is not sure of a row
declines the whole block. -/
noncomputable def draftBlock : Nat → List Nat → RandProg (Option (List Nat))
  | 0, tokens => .ret (some tokens)
  | fuel + 1, tokens => c.drawKey.bind fun key =>
    if c.Unsure tokens then .ret (some (if c.admission.isSome then tokens.take 1 else tokens))
    else
      match c.draftToken tokens key with
      | none => .ret none
      | some token => token.bind fun t =>
        if c.ignoreEos && c.isStop t then .ret (some tokens)
        else if (t : Int) = c.eos then .ret (some (tokens ++ [t]))
        else draftBlock fuel (tokens ++ [t])

/-- The target probabilities of a verified row; `gpu` is there when the verification built them. -/
noncomputable def targetProbs (gpu : Option PqGpu) (kept : List Nat) : Option (Nat → ℝ) :=
  match gpu with
  | some g => some (g.verifyProbs kept)
  | none => c.probs (c.target kept)

/-- The correction of a row: from the candidates of the GPU, at no residual mass the argmax of `p`, and
otherwise drawn on the CPU. -/
noncomputable def correctionDraw (n : Nat) (gpu : Option PqGpu) (kept : List Nat) (key : UInt64)
    (p q : Nat → ℝ) : RandProg Nat :=
  match gpu.map fun g => ds41PqResidualFinish (g.verifyCand kept key) n p q key with
  | some (.decided y) => .ret y
  | some .noMass => .ret (sampleArgmax ((List.range n).map fun i => Logit.fin (p i)))
  | _ => sampleResidualProbabilities p q n

open Classical in
/-- The loop over the verified rows with their keys: the tokens that are kept and the correction after
them. -/
noncomputable def keepRows (gpu : Option PqGpu) :
    List UInt64 → List Nat → List Nat → RandProg (Option (List Nat × Option Nat))
  | _, kept, [] => .ret (some (kept, none))
  | keys, kept, t :: rest =>
    if c.exact then
      match c.targetProbs gpu kept, c.draftProbs kept with
      | some p, some q => .draw fun u =>
        if p t < u * q t then
          (correctionDraw n gpu kept (keys.headD 0) p q).bind fun y => .ret (some (kept, some y))
        else keepRows gpu keys.tail (kept ++ [t]) rest
      | _, _ => .ret none
    else if sampleArgmax (c.target kept).val = t then keepRows gpu keys.tail (kept ++ [t]) rest
    else .ret (some (kept, none))

/-- `ds41_session_speculate`. -/
noncomputable def speculate : RandProg SpecResult :=
  if c.valid = false ∨ c.cap < 1 then .ret .failed
  else if min c.cap c.room < 1 then .ret (.accepted [] none)
  else if c.ready = false then .ret (.accepted [c.firstToken] none)
  else
    (c.draftBlock (c.blockCap - 1) [c.firstToken]).bind fun block =>
      match block with
      | none => .ret .failed
      | some tokens =>
        let tokens := if c.others ≠ 0 ∧ c.cancelled = true then tokens.take 1 else tokens
        if tokens.length = 1 then .ret (.accepted tokens none)
        else if c.cancelled = true then .ret .failed
        else
          (c.drawKeys (tokens.length - 1)).bind fun keys =>
            (c.keepRows (c.pq.filter fun g => g.verifyBuilt tokens) keys (tokens.take 1)
              (tokens.drop 1)).bind fun kept =>
              match kept with
              | none => .ret .failed
              | some (kept, none) => .ret (.accepted kept none)
              | some (kept, some correction) =>
                if c.carryOn then .ret (.accepted kept (some correction))
                else .ret (.accepted (kept ++ [correction]) none)

/-! ## The sequence of tokens -/

/-- The rows of probabilities of the model. -/
noncomputable def rows : Rows := fun tokens => c.probs (c.target tokens)

/-- The tokens of a cycle from the first on, with what it carries. -/
def tokensOf : SpecResult → List Nat
  | .failed => []
  | .accepted tokens carry => c.firstToken :: (tokens.drop 1 ++ carry.toList)

/-- A cycle, and plain decoding after it up to `k` tokens behind the first one. -/
noncomputable def sequence (k : Nat) : RandProg (List Nat) :=
  c.speculate.bind fun r => decode n c.rows (k + 1 - (c.tokensOf r).length) (c.tokensOf r)

end Cycle

end Ds4.Dspark
