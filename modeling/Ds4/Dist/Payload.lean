import Ds4.Dist.Registry

/-!
# Checkpoints of a route

Every party of a route holds the rows of its own layers. A saved session is one file for the whole model:
`ds4_dist_session_save_payload` gathers the shards of the parties, checks each one and writes their parts
behind one header, and `ds4_dist_session_load_payload` cuts such a file into the shards of the route of the
day. What a party does with a shard it is sent is its answer.
-/

namespace Ds4.Dist

open Ds4.Lib

/-! ## Files -/

/-- A file that is read from its start, and how much of it is left to read. -/
structure Source where
  file : Bytes
  remaining : Nat

/-- `dist_payload_read_bytes`. -/
def Source.read (s : Source) (n : Nat) : Except String (Bytes × Source) :=
  if s.remaining < n then .error "truncated distributed payload"
  else if s.file.length < n then .error "failed to read distributed payload"
  else .ok (s.file.take n, ⟨s.file.drop n, s.remaining - n⟩)

/-- `dist_payload_read_u32`. -/
def Source.readU32 (s : Source) : Except String (UInt32 × Source) := do
  let (b, s) ← s.read 4
  .ok (get32 b, s)

/-- The words of a header. -/
def Source.readWords (s : Source) : Nat → Except String (List UInt32 × Source)
  | 0 => .ok ([], s)
  | n + 1 => do
    let (v, s) ← s.readU32
    let (vs, s) ← s.readWords n
    .ok (v :: vs, s)

/-- Words as `dist_payload_write_u32` writes them. -/
def putWords (ws : List UInt32) : Bytes := ws.flatMap put32

/-- `dist_u64_mul`. -/
def u64Mul (a b : Nat) : Option Nat := if a * b < 2 ^ 64 then some (a * b) else none

/-- `dist_u64_add`. -/
def u64Add (a b : Nat) : Option Nat := if a + b < 2 ^ 64 then some (a + b) else none

/-! ## Sizes -/

/-- What the payload asks of the engine. -/
structure Engine where
  layerCount : UInt32
  vocabSize : UInt32
  isGlmDsa : Bool
  /-- `ds4_engine_layer_compress_ratio`. -/
  compressRatio : Nat → UInt32
  /-- `ds4_engine_glm_layer_payload_bytes`: layer, live rows, two widths and two counts. -/
  glmLayerBytes : Nat → UInt32 → UInt32 → UInt32 → UInt32 → UInt32 → Option UInt64
  /-- A vocabulary size is an `int`. -/
  vocab_lt : vocabSize.toNat < 2 ^ 31

/-- `ds4_dist_kv_layout`. -/
structure Layout where
  ctx : UInt32
  prefillCap : UInt32
  rawCap : UInt32
  rawWindow : UInt32
  compCap : UInt32
  tokenCount : UInt32
  nLayers : UInt32
  headDim : UInt32
  indexerHeadDim : UInt32
  vocab : UInt32
  rawLive : UInt32
deriving DecidableEq

/-- `dist_kv_state_bytes`. -/
def stateBytes (ratio headDim : UInt32) : Option Nat := do
  let coff := if ratio = 4 then 2 else 1
  let t ← u64Mul coff headDim.toNat
  let t ← u64Mul t coff
  let t ← u64Mul t ratio.toNat
  u64Mul t 4

/-- `dist_kv_layer_tensor_bytes`. -/
def layerTensorBytes (e : Engine) (layout : Layout) (layer : Nat) (nComp nIndexComp : UInt32) : Option Nat :=
  if e.isGlmDsa then
    (e.glmLayerBytes layer layout.rawLive layout.headDim layout.indexerHeadDim nComp nIndexComp).map
      UInt64.toNat
  else do
    let t ← u64Mul layout.rawLive.toNat layout.headDim.toNat
    let t ← u64Mul t 4
    let bytes ← u64Add 0 t
    let ratio := e.compressRatio layer
    if ratio = 0 then return bytes
    let t ← u64Mul nComp.toNat layout.headDim.toNat
    let t ← u64Mul t 4
    let bytes ← u64Add bytes t
    let attnState ← stateBytes ratio layout.headDim
    let bytes ← u64Add bytes attnState
    let bytes ← u64Add bytes attnState
    if ratio ≠ 4 then return bytes
    let t ← u64Mul nIndexComp.toNat layout.indexerHeadDim.toNat
    let t ← u64Mul t 4
    let bytes ← u64Add bytes t
    let indexState ← stateBytes ratio layout.indexerHeadDim
    let bytes ← u64Add bytes indexState
    u64Add bytes indexState

/-- The layers from one to another. -/
def layerRange (layerStart layerEnd : UInt32) : List Nat :=
  List.range' layerStart.toNat (layerEnd.toNat + 1 - layerStart.toNat)

/-- The bytes of some layers together. -/
def tensorBytes (e : Engine) (layout : Layout) (nComp nIndexComp : Nat → UInt32) : List Nat → Option Nat
  | [] => some 0
  | il :: rest => do
    let n ← layerTensorBytes e layout il (nComp il) (nIndexComp il)
    let m ← tensorBytes e layout nComp nIndexComp rest
    return n + m

/-- `comp_cap`, as `metal_graph_alloc_raw_cap` sizes it for the layers that a party holds: a party without compressed
layers has another one. -/
def graphCompCap (e : Engine) (ctxSize : UInt32) (layers : List Nat) : UInt32 :=
  let minRatio := layers.foldl (fun minRatio il =>
    if e.compressRatio il ≠ 0 ∧ e.compressRatio il < minRatio then e.compressRatio il else minRatio) 0xffffffff
  let minRatio := if minRatio = 0xffffffff then (if ctxSize ≠ 0 then ctxSize else 1) else minRatio
  let compCap := ctxSize / minRatio + 2
  if compCap < 2 then 2 else compCap

/-! ## Shards -/

/-- `DS4_SESSION_LAYER_PAYLOAD_MAGIC`, `DS4_SESSION_LAYER_PAYLOAD_VERSION`, `DS4_SESSION_LAYER_PAYLOAD_U32_FIELDS`. -/
abbrev layerPayloadMagic : UInt32 := 0x4c565344
abbrev layerPayloadVersion : UInt32 := 1
abbrev layerPayloadFields : Nat := 14

/-- `DS4_SESSION_PAYLOAD_MAGIC`, `DS4_SESSION_PAYLOAD_VERSION`, `DS4_SESSION_PAYLOAD_U32_FIELDS`. -/
abbrev payloadMagic : UInt32 := 0x34565344
abbrev payloadVersion : UInt32 := 2
abbrev payloadFields : Nat := 13

/-- The header words of a shard. -/
def layerHeader (l : Layout) (layerStart layerEnd : UInt32) : List UInt32 :=
  [layerPayloadMagic, layerPayloadVersion, l.ctx, l.prefillCap, l.rawCap, l.rawWindow, l.compCap, l.tokenCount,
    l.nLayers, l.headDim, l.indexerHeadDim, layerStart, layerEnd, l.rawLive]

/-- `dist_kv_write_layer_header`. -/
def writeLayerHeader (l : Layout) (layerStart layerEnd : UInt32) (nComp nIndexComp : Nat → UInt32) : Bytes :=
  putWords (layerHeader l layerStart layerEnd) ++ (putWords ((layerRange layerStart layerEnd).map nComp) ++
    putWords ((layerRange layerStart layerEnd).map nIndexComp))

/-- `dist_kv_layout_matches`. -/
def layoutMatches (a b : Layout) : Bool :=
  a.ctx = b.ctx ∧ a.prefillCap = b.prefillCap ∧ a.rawCap = b.rawCap ∧ a.rawWindow = b.rawWindow ∧
    a.compCap = b.compCap ∧ a.tokenCount = b.tokenCount ∧ a.nLayers = b.nLayers ∧ a.headDim = b.headDim ∧
      a.indexerHeadDim = b.indexerHeadDim ∧ a.rawLive = b.rawLive

/-- `dist_kv_raw_live_valid`. -/
def rawLiveValid (e : Engine) (l : Layout) : Bool :=
  let maxLive := if l.tokenCount < l.rawWindow then l.tokenCount else l.rawWindow
  if l.rawWindow = 0 ∨ l.rawCap = 0 then false
  else if e.isGlmDsa then l.rawLive ≤ maxLive ∧ l.rawLive ≤ l.rawCap
  else l.rawLive = maxLive ∧ l.rawLive ≤ l.rawCap

/-- The row counts of some layers, none above the cap. -/
def readCounts (cap : UInt32) (text : String) :
    List Nat → (Nat → UInt32) → Source → Except String ((Nat → UInt32) × Source)
  | [], counts, s => .ok (counts, s)
  | il :: rest, counts, s => do
    let (v, s) ← s.readU32
    if cap < v then .error text
    else readCounts cap text rest (Function.update counts il v) s

/-- What a save gathers from the shards. -/
structure Gather where
  layout : Layout
  layoutSet : Bool
  nComp : Nat → UInt32
  nIndexComp : Nat → UInt32

/-- Nothing is gathered yet. -/
def Gather.start (e : Engine) : Gather where
  layout := ⟨0, 0, 0, 0, 0, 0, 0, 0, 0, e.vocabSize, 0⟩
  layoutSet := false
  nComp := fun _ => 0
  nIndexComp := fun _ => 0

/-- `ds4_dist_kv_shard_file`. -/
structure Shard where
  file : Bytes
  tensorOffset : Nat
  tensorBytes : Nat

/-- The sum of the tensor sizes that a shard should have. -/
def expectedBytes (e : Engine) (layout : Layout) (nComp nIndexComp : Nat → UInt32) :
    List Nat → Nat → Option Nat
  | [], sum => some sum
  | il :: rest, sum => do
    let n ← layerTensorBytes e layout il (nComp il) (nIndexComp il)
    let sum ← u64Add sum n
    expectedBytes e layout nComp nIndexComp rest sum

/-- `dist_kv_parse_layer_payload`. -/
def parseLayerPayload (e : Engine) (file : Bytes) (bytes : Nat) (expectedStart expectedEnd : UInt32) (g : Gather) :
    Except String (Gather × Shard) := do
  let (h, s) ← (Source.mk file bytes).readWords layerPayloadFields
  if h.getD 0 0 ≠ layerPayloadMagic ∨ h.getD 1 0 ≠ layerPayloadVersion then
    .error "unsupported distributed KV layer payload"
  else
  let got : Layout :=
    { ctx := h.getD 2 0
      prefillCap := h.getD 3 0
      rawCap := h.getD 4 0
      rawWindow := h.getD 5 0
      compCap := h.getD 6 0
      tokenCount := h.getD 7 0
      nLayers := h.getD 8 0
      headDim := h.getD 9 0
      indexerHeadDim := h.getD 10 0
      vocab := g.layout.vocab
      rawLive := h.getD 13 0 }
  let layerStart := h.getD 11 0
  let layerEnd := h.getD 12 0
  if layerStart ≠ expectedStart ∨ layerEnd ≠ expectedEnd ∨ layerEnd < layerStart ∨ got.nLayers ≤ layerEnd then
    .error "distributed KV shard range mismatch"
  else if got.nLayers ≠ e.layerCount ∨ rawLiveValid e got = false then
    .error "distributed KV shard layout is invalid"
  else if g.layoutSet = true ∧ layoutMatches g.layout got = false then
    .error "distributed KV shards use different layouts"
  else
  let layers := layerRange layerStart layerEnd
  let (nComp, s) ← readCounts got.compCap "distributed KV shard has invalid compressed row count" layers g.nComp s
  let (nIndexComp, s) ←
    readCounts got.compCap "distributed KV shard has invalid indexer row count" layers g.nIndexComp s
  match expectedBytes e got nComp nIndexComp layers 0 with
  | none => .error "distributed KV shard tensor size overflow"
  | some n =>
    if s.remaining ≠ n then .error "distributed KV shard tensor byte count mismatch"
    else .ok (⟨if g.layoutSet then g.layout else got, true, nComp, nIndexComp⟩,
      ⟨file, file.length - s.file.length, s.remaining⟩)

/-! ## The route -/

/-- `dist_kv_route_shard` for every shard: the own layers, then those of each entry. -/
def routeShards (c : Coordinator) (entries : List RouteEntry) : List (UInt32 × UInt32) :=
  (c.localStart, c.localEnd) :: entries.map fun e => (e.layerStart, e.layerEnd)

/-- The loop of `dist_kv_route_validate`. -/
def routeContiguous (nLayers : UInt32) : UInt32 → List RouteEntry → Except String Unit
  | prev, [] =>
    if prev + 1 ≠ nLayers then .error "distributed KV route does not cover all layers" else .ok ()
  | prev, e :: rest =>
    if prev = 0xffffffff ∨ e.layerStart ≠ prev + 1 ∨ e.layerEnd < e.layerStart ∨ nLayers ≤ e.layerEnd then
      .error "distributed KV route is not contiguous"
    else routeContiguous nLayers e.layerEnd rest

/-- `dist_kv_route_validate`. -/
def routeValidate (c : Coordinator) (entries : List RouteEntry) : Except String Unit :=
  if c.nLayers = 0 ∨ c.localStart ≠ 0 ∨ c.nLayers ≤ c.localEnd then
    .error "distributed KV route does not start at layer 0"
  else routeContiguous c.nLayers c.localEnd entries

/-! ## Saving -/

/-- The loop of `ds4_dist_session_save_payload` over the shards, with the file that each party sends. -/
def gatherShards (e : Engine) (shardFile : Nat → Except String Bytes) :
    List (UInt32 × UInt32) → Nat → Gather → Except String (List Shard × Gather)
  | [], _, g => .ok ([], g)
  | (layerStart, layerEnd) :: rest, k, g => do
    let file ← shardFile k
    if file.length = 0 then .error "distributed KV shard is empty"
    else
    let (g, shard) ← parseLayerPayload e file file.length layerStart layerEnd g
    let (shards, g) ← gatherShards e shardFile rest (k + 1) g
    .ok (shard :: shards, g)

/-- The header words of a session. -/
def sessionHeader (l : Layout) : List UInt32 :=
  [payloadMagic, payloadVersion, l.ctx, l.prefillCap, l.rawCap, l.rawWindow, l.compCap, l.tokenCount, l.nLayers,
    l.headDim, l.indexerHeadDim, l.vocab, l.rawLive]

/-- The bytes that `dist_copy_file_range` copies. -/
def Shard.tensors (s : Shard) : Bytes := (s.file.drop s.tensorOffset).take s.tensorBytes

/-- `ds4_dist_session_save_payload` on a route. -/
def savePayload (e : Engine) (c : Coordinator) (entries : List RouteEntry)
    (shardFile : Nat → Except String Bytes) (tokens : List UInt32) (logits : Bytes) : Except String Bytes := do
  routeValidate c entries
  let (shards, g) ← gatherShards e shardFile (routeShards c entries) 0 (.start e)
  if g.layoutSet = false ∨ g.layout.tokenCount ≠ UInt32.ofNat tokens.length ∨ g.layout.nLayers ≠ c.nLayers ∨
      g.layout.vocab ≠ e.vocabSize then
    .error "distributed KV shard metadata mismatch"
  else
  let layers := List.range g.layout.nLayers.toNat
  .ok (putWords (sessionHeader g.layout) ++ (putWords tokens ++ (logits ++ (putWords (layers.map g.nComp) ++
    (putWords (layers.map g.nIndexComp) ++ (shards.map Shard.tensors).flatten)))))

/-! ## Loading -/

/-- The rows of one layer. -/
structure LayerState where
  nComp : UInt32
  nIndexComp : UInt32
  tensor : Bytes
deriving DecidableEq

/-- The session of a party: whether it claims its tokens, and the rows of its layers. -/
structure Slice where
  valid : Bool
  tokens : List UInt32
  layers : Nat → LayerState

/-- The parties, the coordinator first, and the coordinator's logits. -/
structure World where
  slices : Nat → Slice
  logits : Bytes

/-- What `ds4_session_load_layer_payload` does with a shard. -/
inductive Taking
  /-- Something does not fit. -/
  | refused (text : String)
  /-- The rows were being written. -/
  | broken (text : String)
  | taken

/-- What a party does, and whether the coordinator hears of it. Its own session it always hears of. -/
structure Answer where
  taking : Taking
  lost : Option String

/-- What a payload says in front of its tensors. -/
structure Head where
  layout : Layout
  tokens : List UInt32
  logits : Bytes
  nComp : Nat → UInt32
  nIndexComp : Nat → UInt32

/-- The tokens of a payload. -/
def readTokens (e : Engine) : Nat → Source → Except String (List UInt32 × Source)
  | 0, s => .ok ([], s)
  | n + 1, s => do
    let (t, s) ← s.readU32
    if 2 ^ 31 - 1 < t.toNat ∨ e.vocabSize ≤ t then .error "distributed KV payload token is outside vocabulary"
    else
    let (ts, s) ← readTokens e n s
    .ok (t :: ts, s)

/-- The first part of `ds4_dist_session_load_payload`, for a session of `ctx` tokens. -/
def readHead (e : Engine) (c : Coordinator) (ctx : UInt32) (s : Source) : Except String (Head × Source) := do
  let (h, s) ← s.readWords payloadFields
  if h.getD 0 0 ≠ payloadMagic ∨ h.getD 1 0 ≠ payloadVersion then .error "unsupported DS4 KV payload version"
  else
  let layout : Layout :=
    { ctx := h.getD 2 0
      prefillCap := h.getD 3 0
      rawCap := h.getD 4 0
      rawWindow := h.getD 5 0
      compCap := h.getD 6 0
      tokenCount := h.getD 7 0
      nLayers := h.getD 8 0
      headDim := h.getD 9 0
      indexerHeadDim := h.getD 10 0
      vocab := h.getD 11 0
      rawLive := h.getD 12 0 }
  if layout.nLayers ≠ c.nLayers ∨ ctx < layout.ctx ∨ ctx ≤ layout.tokenCount ∨ layout.vocab ≠ e.vocabSize ∨
      rawLiveValid e layout = false then
    .error "DS4 KV payload does not match current distributed runtime"
  else
  let (tokens, s) ← readTokens e layout.tokenCount.toNat s
  let (logits, s) ← s.read (layout.vocab.toNat * 4)
  let layers := List.range layout.nLayers.toNat
  let (nComp, s) ←
    readCounts layout.compCap "DS4 KV payload has invalid compressed row count" layers (fun _ => 0) s
  let (nIndexComp, s) ←
    readCounts layout.compCap "DS4 KV payload has invalid indexer row count" layers (fun _ => 0) s
  .ok (⟨layout, tokens, logits, nComp, nIndexComp⟩, s)

/-- The copying loop of `dist_prepare_shard_from_session_payload`. -/
def copyTensors (e : Engine) (h : Head) : List Nat → Source → Except String (Bytes × Source)
  | [], s => .ok ([], s)
  | il :: rest, s =>
    match layerTensorBytes e h.layout il (h.nComp il) (h.nIndexComp il) with
    | none => .error "distributed KV layer byte count overflow"
    | some n => do
      let (b, s) ← s.read n
      let (bs, s) ← copyTensors e h rest s
      .ok (b ++ bs, s)

/-- `dist_prepare_shard_from_session_payload`. -/
def prepareShard (e : Engine) (h : Head) (layerStart layerEnd : UInt32) (s : Source) :
    Except String (Bytes × Source) := do
  let (b, s) ← copyTensors e h (layerRange layerStart layerEnd) s
  .ok (writeLayerHeader h.layout layerStart layerEnd h.nComp h.nIndexComp ++ b, s)

/-- The rows of some layers, one layer's behind the other's. -/
def cutTensors (e : Engine) (g : Gather) : List Nat → Bytes → (Nat → LayerState) → (Nat → LayerState)
  | [], _, layers => layers
  | il :: rest, p, layers =>
    match layerTensorBytes e g.layout il (g.nComp il) (g.nIndexComp il) with
    | none => layers
    | some n => cutTensors e g rest (p.drop n) (Function.update layers il ⟨g.nComp il, g.nIndexComp il, p.take n⟩)

/-- A party takes a shard for some tokens: its counts and its tensors, layer by layer. -/
def Slice.take (e : Engine) (tokens : List UInt32) (layerStart layerEnd : UInt32) (file : Bytes) (s : Slice) :
    Slice where
  valid := true
  tokens := tokens
  layers :=
    match parseLayerPayload e file file.length layerStart layerEnd (.start e) with
    | .error _ => s.layers
    | .ok (g, shard) => cutTensors e g (layerRange layerStart layerEnd) shard.tensors s.layers

/-- A party that was writing its rows does not claim them. -/
def Slice.broken (s : Slice) : Slice := { s with valid := false }

/-- The shards of `ds4_dist_session_load_payload`, each one sent to its party. -/
def installShards (e : Engine) (h : Head) (answer : Nat → Answer) :
    List (UInt32 × UInt32) → Nat → Source → World → Except String Source × World
  | [], _, s, w => (.ok s, w)
  | (layerStart, layerEnd) :: rest, k, s, w =>
    match prepareShard e h layerStart layerEnd s with
    | .error text => (.error text, w)
    | .ok (file, s) =>
      match (answer k).taking with
      | .refused text => (.error text, w)
      | .broken text => (.error text, { w with slices := Function.update w.slices k (w.slices k).broken })
      | .taken =>
        let w := { w with
          slices := Function.update w.slices k ((w.slices k).take e h.tokens layerStart layerEnd file) }
        match k, (answer k).lost with
        | _ + 1, some text => (.error text, w)
        | _, _ => installShards e h answer rest (k + 1) s w

/-- `ds4_dist_session_load_payload` on a route. -/
def loadPayload (e : Engine) (c : Coordinator) (entries : List RouteEntry) (ctx : UInt32) (s : Source)
    (answer : Nat → Answer) (w : World) : Except String Unit × World :=
  match routeValidate c entries with
  | .error text => (.error text, w)
  | .ok () =>
    match readHead e c ctx s with
    | .error text => (.error text, w)
    | .ok (h, s) =>
      match installShards e h answer (routeShards c entries) 0 s w with
      | (.error text, w) => (.error text, w)
      | (.ok s, w) =>
        if s.remaining ≠ 0 then (.error "DS4 KV payload has trailing bytes", w)
        else (.ok (), { w with logits := h.logits })

end Ds4.Dist
