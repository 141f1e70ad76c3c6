import Ds4.Kvstore.Ladder
import Ds4.Kvstore.Load

/-!
# Storing into the directory

The calls that change the checkpoint directory: `touchFile`, `evict`, `cacheLadderThin`,
`existingCompatible`, `rewriteTrailer`, `storeLivePrefixText` and `openStore` are
`ds4_kvstore_touch_file`, `ds4_kvstore_evict`, `kv_cache_ladder_thin`,
`kv_cache_existing_compatible`, `kv_cache_rewrite_trailer`, `ds4_kvstore_store_live_prefix_text` and
`ds4_kvstore_open`. System calls succeed, so the temporary file of a store is never left behind.
The eviction score is floating point: it is a parameter of each call, and so are the times.
-/

namespace Ds4.Kvstore

open Ds4.Lib

/-! ## The directory -/

namespace Dir

/-- `unlink`. -/
def unlink (dir : Dir) (name : Bytes) : Dir where
  files := dir.files.filter (·.1 != name)
  nodup := (List.filter_sublist.map _).nodup dir.nodup

/-- A file changed in place. -/
def update (dir : Dir) (name : Bytes) (f : Bytes → Bytes) : Dir where
  files := dir.files.map fun x => if x.1 = name then (x.1, f x.2) else x
  nodup := by
    rw [List.map_map, show (·.1) ∘ (fun x : Bytes × Bytes => if x.1 = name then (x.1, f x.2) else x) =
      (·.1) from funext fun x => by simp only [Function.comp_apply]; split <;> rfl]
    exact dir.nodup

/-- `rename` of a new file over a name. -/
def rename (dir : Dir) (name content : Bytes) : Dir where
  files := (dir.unlink name).files ++ [(name, content)]
  nodup := by
    rw [List.map_append]
    refine List.nodup_append.mpr ⟨(dir.unlink name).nodup, by simp, ?_⟩
    rintro a ha b hb rfl
    obtain rfl : a = name := by simpa using hb
    obtain ⟨x, hx, hxa⟩ := List.mem_map.mp ha
    exact absurd hxa (by simpa [unlink] using (List.mem_filter.mp hx).2)

end Dir

/-- `ds4_kvstore_read_header`: a refused header is not read. -/
def readHeader (g : Process) (f : File) : Option (Entry × UInt32 × File) :=
  (parseHeader g f).filter fun r => r.1.refusal.isNone

/-- The writes of `ds4_kvstore_touch_file`. -/
def touchContent (g : Process) (hits : UInt32) (now : UInt64) (content : Bytes) : Bytes :=
  match readHeader g (File.open' content) with
  | none => content
  | some (_, _, f) => ((((f.seek 12).write (put32 hits)).seek 32).write (put64 now)).data

/-- `ds4_kvstore_touch_file`. -/
def touchFile (g : Process) (dir : Dir) (path : Bytes) (hits : UInt32) (now : UInt64) : Dir :=
  dir.update path (touchContent g hits now)

/-! ## Eviction -/

/-- The fields of a `ds4_kvstore` that its stores read. -/
structure Cache extends StoreOptions where
  enabled : Bool
  budgetBytes : UInt64
  /-- `kv_cache_ladder_enabled`. -/
  ladder : Bool

section Evict

variable {S : Type*} [LT S] [DecidableLT S] [DecidableEq S] (score : IndexEntry → S)

/-- One round of the search for a victim: a lower score, or the same one used longer ago. -/
def victimStep (v x : IndexEntry × Nat) : IndexEntry × Nat :=
  if score x.1 < score v.1 ∨ (score x.1 = score v.1 ∧ x.1.lastUsed < v.1.lastUsed) then x else v

/-- The victim among the entries, with its index. -/
def victim (e : IndexEntry) (es : List IndexEntry) : IndexEntry × Nat :=
  (es.zipIdx 1).foldl (victimStep score) (e, 0)

theorem foldl_victimStep_mem (l : List (IndexEntry × Nat)) (v : IndexEntry × Nat) :
    l.foldl (victimStep score) v ∈ v :: l := by
  induction l generalizing v with
  | nil => simp
  | cons x l ih =>
    have h := ih (victimStep score v x)
    rw [List.foldl_cons]
    rcases List.mem_cons.mp h with h | h
    · rw [h, victimStep]
      split <;> simp
    · exact List.mem_cons_of_mem _ (List.mem_cons_of_mem _ h)

theorem victim_get (e : IndexEntry) (es : List IndexEntry) :
    (e :: es)[(victim score e es).2]? = some (victim score e es).1 := by
  have hall : ∀ x ∈ (e, 0) :: es.zipIdx 1, (e :: es)[x.2]? = some x.1 := by
    rw [← List.zipIdx_cons]
    exact fun x hx => List.mem_zipIdx_iff_getElem?.mp hx
  exact hall _ (foldl_victimStep_mem score _ _)

/-- The loop of `ds4_kvstore_evict`. -/
def evictLoop (target total : Nat) (entries : List IndexEntry) (dir : Dir) : Dir :=
  match entries with
  | [] => dir
  | e :: es =>
    if target < total then
      let v := victim score e es
      evictLoop target (if v.1.fileSize ≤ total then total - v.1.fileSize else 0)
        ((e :: es).eraseIdx v.2) (dir.unlink v.1.path)
    else dir
termination_by entries.length
decreasing_by
  have hlt : (victim score e es).2 < (e :: es).length :=
    (List.getElem?_eq_some_iff.mp (victim_get score e es)).1
  rw [List.length_eraseIdx_of_lt hlt]
  omega

/-- `ds4_kvstore_evict`. -/
def evict (g : Process) (kc : Cache) (dir : Dir) (extraBytes : Nat) : Dir :=
  if kc.enabled = false ∨ kc.budgetBytes = 0 then dir
  else if kc.budgetBytes.toNat < extraBytes then dir
  else
    let entries := refresh g dir
    evictLoop score (kc.budgetBytes.toNat - extraBytes)
      ((entries.map (·.fileSize)).sum % 2 ^ 64) entries dir

end Evict

/-- `DS4_KVSTORE_DEFAULT_MB`. -/
def defaultMb : UInt64 := 4096

/-- `ds4_kvstore_open` on an existing directory. -/
def openStore {S : Type*} [LT S] [DecidableLT S] [DecidableEq S] (score : IndexEntry → S)
    (g : Process) (opt : StoreOptions) (ladder : Bool) (budgetMb : UInt64) (dir : Dir) :
    Cache × Dir :=
  let mb := if budgetMb = 0 then defaultMb else budgetMb
  let kc : Cache := { opt with enabled := true, budgetBytes := mb * 1024 * 1024, ladder := ladder }
  (kc, evict score g kc dir 0)

/-! ## Thinning the ladder -/

/-- `ds4_kvstore_eviction_context`. -/
structure EvictionContext where
  text : Bytes
  modelId : UInt8
  quantBits : UInt8
  ctxSize : UInt32
  rejectDifferentQuant : Bool
  images : Option Images

/-- `DS4_KVSTORE_REASON_CONTINUED`. -/
def reasonContinued : UInt8 := 2

/-- `kv_cache_incoming_supersedes_continued`. -/
def incomingSupersedesContinued (e : IndexEntry) (incoming : EvictionContext) : Bool :=
  if e.reason ≠ reasonContinued then false
  else if e.textBytes = 0 then false
  else if incoming.text.length ≤ e.textBytes.toNat then false
  else if e.modelId ≠ incoming.modelId then false
  else if incoming.rejectDifferentQuant = true ∧ e.quantBits ≠ incoming.quantBits then false
  else if e.ctxSize < incoming.ctxSize then false
  else entrySha (incoming.text.take e.textBytes.toNat) incoming.images == e.sha

/-- `kv_cache_ladder_thin`; `touchedAt` is the time at which a file is touched. -/
def cacheLadderThin (g : Process) (kc : Cache) (dir : Dir) (incoming : EvictionContext)
    (frontierTokens : UInt32) (touchedAt : Bytes → UInt64) : Dir :=
  if kc.enabled = false ∨ kc.ladder = false then dir
  else
    let idx := ((refresh g dir).filter fun e =>
      e.tokens < frontierTokens && incomingSupersedesContinued e incoming).insertionSort
        fun a b => b.tokens ≤ a.tokens
    let keep := (ladderSelect frontierTokens.toNat (idx.map (·.tokens.toNat))).1
    (idx.zip keep).foldl
      (fun dir x =>
        if x.2 then touchFile g dir x.1.path x.1.hits (touchedAt x.1.path)
        else dir.unlink x.1.path)
      dir

/-! ## File sizes -/

/-- `kv_cache_file_size_bytes`. -/
def fileSizeBytes (textBytes payloadBytes trailerBytes : Nat) : Option Nat :=
  if 2 ^ 64 ≤ 84 + textBytes + payloadBytes + trailerBytes then none
  else some (84 + textBytes + payloadBytes + trailerBytes)

/-- `kv_cache_budget_required`. -/
def budgetRequired (fileBytes : Nat) : Option Nat :=
  let slack := if fileBytes % 100 ≠ 0 then fileBytes / 100 + 1 else fileBytes / 100
  if uint64Max - fileBytes < slack then none else some (fileBytes + slack)

/-- `ds4_kvstore_file_size_fits`: the size of a file that fits. -/
def fileSizeFits (kc : Cache) (textBytes payloadBytes trailerBytes : Nat) : Option Nat :=
  match fileSizeBytes textBytes payloadBytes trailerBytes with
  | none => none
  | some fileBytes =>
    if kc.budgetBytes = 0 then some fileBytes
    else
      match budgetRequired fileBytes with
      | none => none
      | some required => if required ≤ kc.budgetBytes.toNat then some fileBytes else none

/-! ## A file that exists -/

/-- `ds4_kvstore_trailer_hooks`. -/
structure TrailerHooks where
  serializedSize : Option (Bytes → Option UInt64)
  write : Option TrailerWrite
  extFlag : UInt8

/-- `kv_trailer_serialized_size`. -/
def trailerSerializedSize (hooks : Option TrailerHooks) (text : Bytes) : Option UInt64 :=
  match hooks.bind (·.serializedSize) with
  | none => some 0
  | some f => f text

/-- What a store writes its checkpoint under. -/
structure StoreKey where
  text : Bytes
  images : Images
  sha : Bytes
  trailerEst : UInt64
deriving DecidableEq

/-- The file name of a key: `ds4_kvstore_path_for_sha`. -/
def StoreKey.path (key : StoreKey) : Bytes := key.sha ++ lit ".kv"

/-- `kv_cache_file_text_matches`. -/
def fileTextMatches (g : Process) (content : Bytes) (key : StoreKey) : Bool :=
  if 2 ^ 32 ≤ key.text.length then false
  else
    match readHeader g (File.open' content) with
    | none => false
    | some (_, tb, f) =>
      tb == UInt32.ofNat key.text.length && (f.read tb.toNat).1.length == tb.toNat &&
        entrySha (f.read tb.toNat).1 (some key.images) == key.sha && (f.read tb.toNat).1 == key.text

/-- The test of `kv_cache_existing_compatible` on a readable entry. -/
def compatible (g : Process) (opt : StoreOptions) (dir : Dir) (key : StoreKey)
    (modelId quantBits : UInt8) (ctxSize : UInt32) (e : IndexEntry) (content : Bytes) : Bool :=
  match entryImages g dir e with
  | none => false
  | some stored =>
    stored.v.length == key.images.v.length &&
      (imagesMismatch (some stored) (some key.images) key.text.length).isNone &&
      e.modelId == modelId && (!opt.rejectDifferentQuant || e.quantBits == quantBits) &&
      e.ctxSize ≤ ctxSize && fileTextMatches g content key

/-- `kv_cache_existing_compatible`: an incompatible file is removed. -/
def existingCompatible (g : Process) (opt : StoreOptions) (dir : Dir) (key : StoreKey)
    (modelId quantBits : UInt8) (ctxSize : UInt32) : Dir × Bool :=
  match dir.content key.path with
  | none => (dir, false)
  | some content =>
    match readEntry g key.path content key.sha false with
    | none => (dir, false)
    | some e =>
      if compatible g opt dir key modelId quantBits ctxSize e content then (dir, true)
      else (dir.unlink key.path, false)

/-- `ftruncate`. -/
def truncate (content : Bytes) (n : Nat) : Bytes :=
  content.take n ++ List.replicate (n - content.length) 0

/-- The writes of `kv_cache_rewrite_trailer`. -/
def rewriteContent (g : Process) (write : TrailerWrite) (extFlag : UInt8) (text : Bytes)
    (now : UInt64) (content : Bytes) : Bytes :=
  match readHeader g (File.open' content) with
  | none => content
  | some (hdr, tb, f) =>
    let payloadEnd := (84 + tb.toNat + hdr.payloadBytes.toNat) % 2 ^ 64
    if payloadEnd < 2 ^ 63 then
      let base := truncate content payloadEnd
      match write text with
      | none => base
      | some t =>
        let f := (File.mk base f.pos).seek payloadEnd |>.write t
        if t.length = 0 then f.data
        else ((((f.seek 6).write [hdr.extFlags ||| extFlag]).seek 32).write (put64 now)).data
    else content

/-- `kv_cache_rewrite_trailer`. -/
def rewriteTrailer (g : Process) (dir : Dir) (key : StoreKey) (hooks : Option TrailerHooks)
    (now : UInt64) : Dir :=
  match hooks with
  | none => dir
  | some hk =>
    match hk.write, hk.serializedSize.bind fun f => f key.text with
    | some write, some est =>
      if est = 0 then dir
      else dir.update key.path (rewriteContent g write hk.extFlag key.text now)
    | _, _ => dir

/-! ## Rendering a key -/

/-- `ds4_kvstore_render_tokens_text`. -/
def renderTokensText (tokenText : Int → Bytes) (tokens : List Int) : Bytes :=
  tokens.flatMap tokenText

/-- The loop of `kv_render_tokens_text_images`: the images placed so far, the images left, and the
text. -/
def renderLoop (tokenText : Int → Bytes) (tokens : List Int) (i : Nat) (placed left : List Image)
    (b : Bytes) : List Image × List Image × Bytes :=
  if hi : i < tokens.length then
    match left with
    | [] => renderLoop tokenText tokens (i + 1) placed [] (b ++ tokenText tokens[i])
    | im :: rest =>
      if i = im.tokenStart.toNat then
        if hc : im.tokenCount.toNat = 0 ∨ 2 ^ 32 ≤ b.length ∨
            tokens.length < im.tokenStart.toNat + im.tokenCount.toNat then
          (placed ++ [im], rest, b)
        else
          renderLoop tokenText tokens (i + im.tokenCount.toNat)
            (placed ++ [{ im with textOffset := UInt32.ofNat b.length }]) rest
            (b ++ List.replicate im.textLen.toNat 30)
      else renderLoop tokenText tokens (i + 1) placed (im :: rest) (b ++ tokenText tokens[i])
  else (placed, left, b)
termination_by tokens.length - i

/-- `kv_render_tokens_text_images`. -/
def renderTokensTextImages (tokenText : Int → Bytes) (tokens : List Int) (images : Images) :
    Option (Bytes × Images) :=
  let r := renderLoop tokenText tokens 0 [] images.v []
  let placed : Images := { images with v := r.1 ++ r.2.1 }
  if r.2.1 ≠ [] ∨ imagesWellFormed placed = false then none else some (r.2.2, placed)

/-- `kv_override_images_ok`. -/
def overrideImagesOk (text : Bytes) (images : Images) (tokenLen : Nat) : Bool :=
  imagesWellFormed images && images.v.all fun im =>
    im.textOffset.toNat + im.textLen.toNat ≤ text.length &&
      im.tokenStart.toNat + im.tokenCount.toNat ≤ tokenLen &&
      ((text.drop im.textOffset.toNat).take im.textLen.toNat).all (· == 30)

/-! ## Storing -/

/-- A staged payload on disk; file offsets are `off_t`. -/
def StagedFile := { st : Staged // st.content.length < 2 ^ 63 }

/-- What a store uses of the engine and of its session. -/
structure StoreEngine (σ : Type*) extends Engine σ where
  /-- `ds4_token_text`. -/
  tokenText : Int → Bytes
  /-- `ds4_session_stage_payload`. -/
  stage : σ → Except Bytes StagedFile

/-- The arguments of a store, with the times and the eviction scores while it runs. -/
structure StoreCall (σ S : Type*) where
  session : σ
  tokens : Option (List Int)
  storeLen : Int
  reason : Bytes
  textOverride : Bytes
  textExt : UInt8
  images : Option Images
  hooks : Option TrailerHooks
  canaryReady : Bool
  score : IndexEntry → S
  touchedAt : Bytes → UInt64
  now : UInt64

/-- `ds4_kvstore_reason_code`. -/
def reasonCode (reason : Bytes) : UInt8 :=
  if reason = lit "cold" then 1
  else if reason = lit "continued" then 2
  else if reason = lit "evict" then 3
  else if reason = lit "shutdown" then 4
  else if reason = lit "agent-system" then 5
  else if reason = lit "agent-session" then 6
  else 0

/-- The result of a store: the returned value, the directory, the globals and the error text. -/
structure StoreResult where
  stored : Bool
  dir : Dir
  process : Process
  err : Option Bytes

section Store

variable {σ S : Type*} [LT S] [DecidableLT S] [DecidableEq S] (eng : StoreEngine σ)

/-- The key text of a store with the images placed in it. -/
def storeText (c : StoreCall σ S) (storeTokens : List Int) : Option (Bytes × Images) :=
  let im := c.images.getD ⟨0, []⟩
  if c.textOverride ≠ [] then
    if im.v ≠ [] ∧ overrideImagesOk c.textOverride im storeTokens.length = false then none
    else some (c.textOverride, im)
  else if im.v ≠ [] then renderTokensTextImages eng.tokenText storeTokens im
  else some (renderTokensText eng.tokenText storeTokens, im)

/-- The globals of a store or a load: the identity is bound by the first. -/
def bindIdentity (g : Process) (identity : UInt64) : Process :=
  if g.identity = 0 then { g with identity := identity } else g

/-- `ds4_kvstore_tokens_copy_prefix`. -/
def storeTokens (c : StoreCall σ S) : List Int := (c.tokens.getD []).take c.storeLen.toNat

/-- The checks of a store before it looks at the directory. -/
def storeKey (kc : Cache) (c : StoreCall σ S) : Option StoreKey :=
  if kc.enabled = false then none
  else if c.tokens = none ∨ c.storeLen < kc.minTokens then none
  else if c.canaryReady = false then none
  else if quantBitsSupported eng.quantBits = false then none
  else
    match eng.tokens c.session with
    | none => none
    | some live =>
      if live.length ≠ (storeTokens c).length ∨ ¬ storeTokens c <+: live then none
      else
        match storeText eng c (storeTokens c) with
        | none => none
        | some (text, im) =>
          if 2 ^ 32 ≤ text.length then none
          else
            match trailerSerializedSize c.hooks text with
            | none => none
            | some est => some ⟨text, im, entrySha text (some im), est⟩

/-- The header of a new entry. -/
def storeHeader (g : Process) (c : StoreCall σ S) (key : StoreKey) (stagedBytes : UInt64) : Bytes :=
  let ext : UInt8 := if key.trailerEst ≠ 0 then (c.hooks.map (·.extFlag)).getD 0 else 0
  fillHeader g
    { modelId := eng.modelId
      quantBits := eng.quantBits
      reason := reasonCode c.reason
      extFlags := if c.textOverride ≠ [] then ext ||| c.textExt else ext
      tokens := UInt32.ofNat (storeTokens c).length
      hits := 0
      ctxSize := eng.ctx c.session
      createdAt := c.now
      lastUsed := c.now
      payloadBytes := stagedBytes }

/-- What the thinning and the eviction of a store know of the new entry. -/
def storeIncoming (kc : Cache) (c : StoreCall σ S) (key : StoreKey) : EvictionContext where
  text := key.text
  modelId := eng.modelId
  quantBits := eng.quantBits
  ctxSize := eng.ctx c.session
  rejectDifferentQuant := kc.rejectDifferentQuant
  images := some key.images

/-- The directory with room for the new entry. -/
def makeRoom (g : Process) (kc : Cache) (dir : Dir) (c : StoreCall σ S) (key : StoreKey)
    (est : Nat) : Dir :=
  evict c.score g kc
    (cacheLadderThin g kc dir (storeIncoming eng kc c key) (UInt32.ofNat (storeTokens c).length)
      c.touchedAt) est

/-- The part of a store that writes a new file. -/
def storeNew (g : Process) (kc : Cache) (dir : Dir) (c : StoreCall σ S) (key : StoreKey) :
    StoreResult :=
  let failed (dir : Dir) (why : Bytes) : StoreResult :=
    ⟨false, dir, g, some (if why = [] then lit "unknown error" else why)⟩
  match eng.stage c.session with
  | .error why => failed dir why
  | .ok staged =>
    let payloadBytes := staged.1.bytes + UInt64.ofNat (imagesBytes (some key.images))
    match fileSizeFits kc key.text.length payloadBytes.toNat key.trailerEst.toNat with
    | none => ⟨false, dir, g, none⟩
    | some est =>
      let dir := makeRoom eng g kc dir c key est
      match writeEntryImages File.empty (storeHeader eng g c key staged.1.bytes) key.text
        (some key.images) (some staged.1) (c.hooks.bind (·.write)) with
      | .error why => failed dir why
      | .ok (f, trailerBytes, _) =>
        match fileSizeFits kc key.text.length payloadBytes.toNat trailerBytes with
        | none => failed dir []
        | some _ => ⟨true, dir.rename key.path f.data, g, none⟩

/-- `ds4_kvstore_store_live_prefix_text`. -/
def storeLivePrefixText (g : Process) (kc : Cache) (dir : Dir) (c : StoreCall σ S) : StoreResult :=
  if kc.enabled = false ∨ c.tokens = none ∨ c.storeLen < kc.minTokens ∨ c.canaryReady = false then
    ⟨false, dir, g, none⟩
  else
    let g := bindIdentity g eng.identity
    match storeKey eng kc c with
    | none => ⟨false, dir, g, none⟩
    | some key =>
      let r := existingCompatible g kc.toStoreOptions dir key eng.modelId eng.quantBits
        (eng.ctx c.session)
      if r.2 then ⟨true, rewriteTrailer g r.1 key c.hooks c.now, g, none⟩
      else storeNew eng g kc r.1 c key

end Store

/-! ## Runs -/

/-- What a load does to the directory. -/
def Dir.apply (g : Process) (now : UInt64) (dir : Dir) : DirChange → Dir
  | .none => dir
  | .unlink path => dir.unlink path
  | .touch path hits => touchFile g dir path hits now

/-- The globals and the directory. -/
structure State where
  process : Process
  dir : Dir

/-- A call on an open store; between calls the numerics canary may become ready. -/
inductive Call (σ S : Type*)
  | store (c : StoreCall σ S)
  | load (session : σ) (prompt : Bytes) (images : Option Images) (canaryReady : Bool) (now : UInt64)
  | touch (path : Bytes) (hits : UInt32) (now : UInt64)
  | canary (value : UInt64)

/-- The state after a call. -/
def step {σ S : Type*} [LT S] [DecidableLT S] [DecidableEq S] (eng : StoreEngine σ) (kc : Cache)
    (st : State) : Call σ S → State
  | .store c =>
    let r := storeLivePrefixText eng st.process kc st.dir c
    ⟨r.process, r.dir⟩
  | .load session prompt images canaryReady now =>
    let r := tryLoadText eng.toEngine st.process ⟨kc.toStoreOptions, kc.enabled, canaryReady⟩ st.dir
      session prompt images
    ⟨r.process, st.dir.apply r.process now r.change⟩
  | .touch path hits now => ⟨st.process, touchFile st.process st.dir path hits now⟩
  | .canary value => ⟨{ st.process with canary := value }, st.dir⟩

end Ds4.Kvstore
