import Ds4.Engram.Hash
import Ds4.Lib.Ring

/-!
# A drafted block

`capture`, `verify` and `commit` are `ds41_dspark_capture`, `ds41_dspark_verify` and
`ds41_dspark_commit`, and `appendRow` is what `ds41_graph_step` does to the same state. A row of a GPU
tensor is a value of a type `V`, and what decoding one token computes is a `Row`: the batch kernels of
a block and the kernels of a single step write the same values. The rows are text rows and GPU calls
succeed. The compressed caches are left out: appends behind the frontier are invisible.

A block goes one of two ways through the attention (`BlockPath`): all rows at once over a
chronological copy of the window, or row by row. Both store the keys of the block in the ring and
leave, for each row, the pooling carry that its own step would leave.
-/

namespace Ds4.Dspark

open Ds4.Lib Ds4.Engram

/-- `DS41_DRAFT_WINDOW`, also the raw window of the target. -/
abbrev draftWindow : Nat := 128

/-- `DS41_VERIFY_ROWS`. -/
abbrev verifyRows : Nat := 6

/-- `DS4_N_LAYER`, one raw window each. -/
abbrev nLayer : Nat := 40

scoped instance neZeroDraftWindow : NeZero draftWindow := ⟨by decide⟩

scoped instance (priority := high) neZeroRows : NeZero (verifyRows + 1) := ⟨by decide⟩

/-- The owners of the compressed keys: the layers of `ds41_kv_source`. -/
abbrev nOwner : Nat := 4

/-- The compression ratio of an owner's layer. -/
def ownerRatio (o : Fin nOwner) : Nat := if o.val < 3 then 2 else 1

/-- The target layers of the three drafter stages. -/
def targetLayers : Fin 3 → Nat := ![37, 38, 39]

variable {V : Type*}

/-- The pooling carry of an owner: `previous_kv` and `previous_score`. -/
structure Carry (V : Type*) where
  kv : V
  score : V

/-- What decoding one token computes: the raw key of each layer, the HC mean in front of each layer,
the pooled inputs of each owner, and the outputs. -/
structure Row (V : Type*) where
  token : Int
  kv : Fin nLayer → V
  mean : Nat → V
  pool : Fin nOwner → Carry V
  residual : V
  pre : V
  logits : V

/-- The fields of `ds41_gpu_graph` that rows write. -/
structure Graph (V : Type*) where
  ctx : Nat
  ctx_lt : ctx < 2 ^ 32
  pos : Nat
  valid : Bool
  /-- CED: window keys in front of it are not visible. -/
  windowFloor : Nat
  history : History
  window : Fin nLayer → Ring draftWindow V
  previous : Fin nOwner → Carry V
  residual : V
  pre : V
  logits : V

/-- The fields of a row graph of a block. -/
structure Saved (V : Type*) where
  pos : Nat
  history : History
  residual : V
  pre : V
  logits : V
  verifyPrevious : Fin nOwner → Carry V

/-- The fields of `ds41_dspark` that a block uses. -/
structure Drafter (V : Type*) where
  target : Fin 3 → Ring draftWindow V
  positions : Fin 3 → Ring draftWindow Nat
  oldRaw : Fin nLayer → Fin verifyRows → V
  oldFeatures : Fin 3 → Fin verifyRows → V
  oldPositions : Fin 3 → Fin verifyRows → Nat
  verified : Fin (verifyRows + 1) → Saved V
  hostVerified : Fin (verifyRows + 1) → V
  verifyStart : Nat
  verifyCount : Fin (verifyRows + 1)
  rewindEnd : Nat

/-! ## Capturing features -/

/-- The search for the stage of a layer. -/
def stageOf (layer : Nat) : Option (Fin 3) := (List.finRange 3).find? (targetLayers · == layer)

/-- `ds4_gpu_tensor_copy` of consecutive rows into a ring without wrapping. -/
def copyRows (r : Ring draftWindow V) (at' : Nat) (src : List V) : Ring draftWindow V := fun s =>
  if at' ≤ s.val then src.getD (s.val - at') (r s) else r s

/-- `ds41_dspark_capture`. -/
def capture (d : Drafter V) (layer pos : Nat) (rows : List V) : Option (Drafter V) :=
  let d := { d with rewindEnd := 0 }
  match stageOf layer with
  | none => some d
  | some stage =>
    if rows = [] ∨ 2 ^ 32 - 1 < pos + rows.length then none
    else
      let count := min rows.length draftWindow
      let first := rows.length - count
      let start := pos + first
      let out := rows.drop first
      let slot := start % draftWindow
      let part := min count (draftWindow - slot)
      let ring := copyRows (copyRows (d.target stage) slot (out.take part)) 0 (out.drop part)
      let positions := (List.range count).foldl
        (fun p i => Function.update p (Ring.slot draftWindow (start + i)) (start + i))
        (d.positions stage)
      some { d with
        target := Function.update d.target stage ring
        positions := Function.update d.positions stage positions }

/-! ## Pooling carries -/

/-- What `ds4_gpu_dsv41_pool2` leaves as the carry: the last row at an even position. -/
def pool2 (previous : Carry V) (rows : List (Carry V)) (start : Nat) : Carry V :=
  let lastEven := (start + rows.length - 1) / 2 * 2
  if start ≤ lastEven then rows.getD (lastEven - start) previous else previous

/-- The carry after one row of `ds41_attention_publish`. -/
def publish (o : Fin nOwner) (previous : Carry V) (row : Row V) (pos : Nat) : Carry V :=
  if ownerRatio o = 2 then pool2 previous [row.pool o] pos else previous

/-- The carry after `ds41_attention_publish_batch`. -/
def publishBatch (o : Fin nOwner) (previous : Carry V) (rows : List (Row V)) (start : Nat) : Carry V :=
  if ownerRatio o = 2 then pool2 previous (rows.map (·.pool o)) start else previous

/-- The carry that a block keeps for its row `t`, published all at once. -/
def batchCarry (o : Fin nOwner) (previous : Carry V) (rows : List (Row V)) (start t : Nat) :
    Carry V :=
  let even := (start + t) / 2 * 2
  if ownerRatio o ≠ 2 ∨ even < start then previous
  else (rows.map (·.pool o)).getD (even - start) previous

/-- The carries that a block keeps for its rows, published row by row. -/
def rowCarries (o : Fin nOwner) (previous : Carry V) : List (Row V) → Nat → List (Carry V)
  | [], _ => []
  | row :: rows, pos =>
    let c := publish o previous row pos
    c :: rowCarries o c rows (pos + 1)

/-! ## One step -/

/-- The captures of one row, layer by layer. -/
def captureLayers (d : Drafter V) (pos : Nat) (row : Row V) : Option (Drafter V) :=
  (List.range nLayer).foldlM (fun d il => capture d il pos [row.mean il]) d

/-- `ds41_graph_step`. -/
def appendRow (l : Layout) (g : Graph V) (d : Drafter V) (row : Row V) :
    Option (Graph V × Drafter V) :=
  if g.valid = false ∨ g.ctx ≤ g.pos then none
  else
    let r := hash l g.history [row.token] none
    if r.1 = false then none
    else
      (captureLayers d g.pos row).map fun d =>
        ({ g with
          window := fun il => Ring.writeAll (g.window il) g.pos [row.kv il]
          previous := fun o => publish o (g.previous o) row g.pos
          residual := row.residual
          pre := row.pre
          logits := row.logits
          history := r.2.1
          pos := g.pos + 1 }, d)

/-- Rows appended one after the other. -/
def appendRows (l : Layout) (s : Graph V × Drafter V) (rows : List (Row V)) :
    Option (Graph V × Drafter V) :=
  rows.foldlM (fun s row => appendRow l s.1 s.2 row) s

/-! ## Verifying a block -/

/-- How a block goes through the attention. -/
structure BlockPath where
  /-- The rows attend at once (`ds41_attention_batch`). -/
  attendBatch : Bool
  /-- The compressed rows of an owner are published at once. -/
  publishBatch : Fin nOwner → Bool

/-- The window ring after the rows of a block, written from the chronological copy `raw_prefill`. -/
def batchWindow (r : Ring draftWindow V) (floor start : Nat) (kv : List V) : Ring draftWindow V :=
  let previous := min (start - floor) (draftWindow - 1)
  let raw := Ring.readAll r (start - previous) previous ++ kv
  let kept := min raw.length draftWindow
  Ring.writeAll r (start + kv.length - kept) (raw.drop (raw.length - kept))

/-- The window ring after the rows of a block. -/
def blockWindow (path : BlockPath) (r : Ring draftWindow V) (floor start : Nat) (kv : List V) :
    Ring draftWindow V :=
  if path.attendBatch then batchWindow r floor start kv else Ring.writeAll r start kv

/-- The carry that a block keeps for its row `t`. -/
def blockCarry (path : BlockPath) (o : Fin nOwner) (previous : Carry V) (rows : List (Row V))
    (start t : Nat) : Carry V :=
  if path.publishBatch o then batchCarry o previous rows start t
  else (rowCarries o previous rows start).getD t previous

/-- The carry of the session behind a block. -/
def blockPrevious (path : BlockPath) (o : Fin nOwner) (previous : Carry V) (rows : List (Row V))
    (start : Nat) : Carry V :=
  if path.publishBatch o then publishBatch o previous rows start
  else (rowCarries o previous rows start).getLastD previous

/-- The histories behind each token of a block; `none` when one is refused. -/
def blockHistories (l : Layout) : History → List (Row V) → Option (List History)
  | _, [] => some []
  | h, row :: rows =>
    let r := hash l h [row.token] none
    if r.1 = false then none else (blockHistories l r.2.1 rows).map (r.2.1 :: ·)

/-- The captures of a block, layer by layer and in each layer row by row. -/
def captureBlock (d : Drafter V) (start : Nat) (rows : List (Row V)) : Option (Drafter V) :=
  (List.range nLayer).foldlM
    (fun d il => rows.zipIdx.foldlM (fun d x => capture d il (start + x.2) [x.1.mean il]) d) d

/-- The ring slots that a block will overwrite. -/
def saveOld (d : Drafter V) (g : Graph V) (count : Nat) : Drafter V :=
  { d with
    oldRaw := fun il i =>
      if i.val < count then g.window il (Ring.slot draftWindow (g.pos + i.val)) else d.oldRaw il i
    oldFeatures := fun stage i =>
      if i.val < count then d.target stage (Ring.slot draftWindow (g.pos + i.val))
      else d.oldFeatures stage i
    oldPositions := fun stage i =>
      if i.val < count then d.positions stage (Ring.slot draftWindow (g.pos + i.val))
      else d.oldPositions stage i
    verifyStart := g.pos
    verifyCount := 0
    rewindEnd := 0 }

/-- The row graph of the block start: row `DS41_VERIFY_ROWS`. -/
def startSaved (g : Graph V) : Saved V :=
  ⟨g.pos, g.history, g.residual, g.pre, g.logits, g.previous⟩

/-- The row graphs behind a block. -/
def savedRows (path : BlockPath) (g : Graph V) (rows : List (Row V)) (hs : List History) :
    List (Saved V) :=
  (rows.zip hs).zipIdx.map fun x =>
    { pos := g.pos + x.2 + 1
      history := x.1.2
      residual := x.1.1.residual
      pre := x.1.1.pre
      logits := x.1.1.logits
      verifyPrevious := fun o => blockCarry path o (g.previous o) rows g.pos x.2 }

/-- `ds41_dspark_verify`: the graph, the drafter, and whether the block was verified. -/
def verify (l : Layout) (path : BlockPath) (g : Graph V) (d : Drafter V) (rows : List (Row V)) :
    Graph V × Drafter V × Bool :=
  if g.valid = false ∨ rows.length < 2 ∨ verifyRows < rows.length ∨ g.ctx < g.pos ∨
    g.ctx - g.pos < rows.length then (g, d, false)
  else
    let saved := saveOld d g rows.length
    let failed := ({ g with valid := false }, saved, false)
    match blockHistories l g.history rows with
    | none => failed
    | some hs =>
      match captureBlock saved g.pos rows with
      | none => failed
      | some d' =>
        let done := savedRows path g rows hs
        ({ g with
          window := fun il =>
            blockWindow path (g.window il) g.windowFloor g.pos (rows.map (·.kv il))
          previous := fun o => blockPrevious path o (g.previous o) rows g.pos },
          { d' with
            verified := fun i =>
              if i.val = verifyRows then startSaved g else done.getD i.val (d.verified i)
            hostVerified := fun i =>
              if i.val = verifyRows then g.logits
              else (rows.map (·.logits)).getD i.val (d.hostVerified i)
            verifyCount := Fin.ofNat (verifyRows + 1) rows.length },
          true)

/-! ## Committing -/

/-- The guard of `ds41_dspark_commit`. -/
def commitRefused (g : Graph V) (d : Drafter V) (keep : Nat) : Bool :=
  d.verifyCount == 0 || d.verifyCount.val < keep ||
    (g.pos != d.verifyStart && g.pos != d.rewindEnd) ||
    (d.rewindEnd != 0 && d.rewindEnd < d.verifyStart + keep)

/-- The slots of a ring behind the first `keep` rows of a block get their saved values. -/
def restore {α : Type*} (d : Drafter V) (keep : Nat) (r : Ring draftWindow α)
    (old : Fin verifyRows → α) : Ring draftWindow α :=
  Ring.writeAll r (d.verifyStart + keep) (((List.ofFn old).take d.verifyCount.val).drop keep)

/-- `ds41_dspark_commit`: the graph, the drafter, and the logits; `none` is refused. -/
def commit (g : Graph V) (d : Drafter V) (keep : Nat) : Graph V × Drafter V × Option V :=
  if commitRefused g d keep then (g, d, none)
  else
    let row : Fin (verifyRows + 1) := if keep ≠ 0 then Fin.ofNat _ (keep - 1) else Fin.last _
    let last := d.verified row
    ({ g with
      window := fun il => restore d keep (g.window il) (d.oldRaw il)
      previous := last.verifyPrevious
      residual := last.residual
      pre := last.pre
      logits := last.logits
      pos := last.pos
      history := last.history },
      { d with
        target := fun stage => restore d keep (d.target stage) (d.oldFeatures stage)
        positions := fun stage => restore d keep (d.positions stage) (d.oldPositions stage)
        rewindEnd := last.pos },
      some (d.hostVerified row))

end Ds4.Dspark
