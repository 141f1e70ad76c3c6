import Ds4.Kvstore.Lookup
import Ds4.Kvstore.RoundTrip

/-!
# Loading a checkpoint

`tryLoadText` is `ds4_kvstore_try_load_text`. The engine and its session are parameters: loading a
payload may change the session before it fails. Every check of the file stands in front of that call
(`loadChecks`), so a load ends in one of three ways (`tryLoadText_outcome`): the session is
untouched, it is invalidated, or it holds the verified content.
-/

namespace Ds4.Kvstore

open Ds4.Lib

/-! ## Checking a file -/

/-- Why a file is refused before the session is touched; a corrupt file is removed. -/
structure LoadRefusal where
  reason : Bytes
  corrupt : Bool

/-- What the checks of a file leave: the header, the text length, the image list with its size, and
the file at the payload behind the list. -/
structure Checked where
  hdr : Entry
  textBytes : UInt32
  text : Bytes
  stored : Images
  listBytes : Nat
  file : File

/-- The image list in front of a verified payload. -/
def storedImages (hdr : Entry) (f : File) : Option (Nat × Images × File) :=
  if hdr.images then readImages f hdr.payloadBytes else some (0, ⟨0, []⟩, f)

/-- The checks between opening a file and loading its payload. -/
def loadChecks (g : Process) (q : Query) (sha content : Bytes) : Except LoadRefusal Checked :=
  match parseHeader g (File.open' content) with
  | none => .error ⟨lit "invalid header", false⟩
  | some (hdr, tb, f) =>
    match hdr.refusal with
    | some why => .error ⟨why, false⟩
    | none =>
      if hdr.modelId ≠ q.modelId then
        .error ⟨lit "cached checkpoint was written for a different model", false⟩
      else if q.prompt.length < tb.toNat then
        .error ⟨lit "cached text is longer than prompt", false⟩
      else
        let r := f.read tb.toNat
        if r.1.length ≠ tb.toNat then .error ⟨lit "truncated cached text", false⟩
        else if entrySha r.1 q.images ≠ sha then .error ⟨lit "cached text hash mismatch", false⟩
        else if ¬ r.1 <+: q.prompt then .error ⟨lit "cached text prefix mismatch", false⟩
        else
          match verifyPayload r.2 hdr with
          | .error why => .error ⟨why, true⟩
          | .ok f =>
            match storedImages hdr f with
            | none => .error ⟨lit "malformed image identity list", false⟩
            | some (n, stored, f) =>
              match imagesMismatch (some stored) q.images tb.toNat with
              | some why => .error ⟨why, false⟩
              | none => .ok ⟨hdr, tb, r.1, stored, n, f⟩

/-! ## The engine -/

/-- The rows of an image that a restore attaches: `ds4_vision_span`. -/
structure Span where
  tokenStart : UInt32
  tokenCount : UInt32
  fingerprint : Vector UInt8 32
deriving DecidableEq

/-- The spans of a stored list. -/
def spansOf (stored : Images) : List Span :=
  stored.v.map fun im => ⟨im.tokenStart, im.tokenCount, im.fingerprint⟩

/-- What a load uses of the engine and of its session `σ`. -/
structure Engine (σ : Type*) where
  /-- `ds4_kvstore_engine_identity`. -/
  identity : UInt64
  /-- `ds4_engine_routed_quant_bits`. -/
  quantBits : UInt8
  /-- `ds4_engine_model_id`. -/
  modelId : UInt8
  /-- `ds4_session_ctx`. -/
  ctx : σ → UInt32
  /-- `ds4_session_tokens`. -/
  tokens : σ → Option (List Int)
  /-- `ds4_session_load_payload`: the session afterwards, and whether it succeeded. -/
  loadPayload : σ → File → Nat → σ × Bool
  /-- `ds4_session_restore_vision_identities`. -/
  restoreVision : σ → List Span → σ × Bool
  /-- `ds4_session_invalidate`. -/
  invalidate : σ → σ
  /-- `ds4_tokenize_rendered_chat`. -/
  tokenizeChat : Bytes → List Int

/-- A change of the directory. -/
inductive DirChange
  | none
  | unlink (path : Bytes)
  | touch (path : Bytes) (hits : UInt32)
deriving DecidableEq

/-- The fields of `ds4_kvstore_load_result`. -/
structure LoadInfo where
  textBytes : UInt32
  quantBits : UInt8
  extFlags : UInt8
  path : Bytes
deriving DecidableEq

/-- The result of a load: the returned count, the session, the prompt, the globals, what happens to
the file, and what the caller is told. -/
structure LoadResult (σ : Type*) where
  loaded : Int
  session : σ
  effectivePrompt : List Int
  process : Process
  change : DirChange
  info : Option LoadInfo

/-- The store of a load. -/
structure LoadStore extends StoreOptions where
  enabled : Bool
  canaryReady : Bool

section Load

variable {σ : Type*} (eng : Engine σ)

/-- `ds4_kvstore_build_prompt_from_exact_prefix_and_text_suffix`. -/
def buildPrompt (exactPrefix : List Int) (suffix : Bytes) : List Int :=
  exactPrefix ++ eng.tokenizeChat suffix

/-- `loaded_tokens && loaded_tokens->len == (int)hdr.tokens`. -/
def holdsTokens (s : σ) (n : UInt32) : Bool :=
  match eng.tokens s with
  | none => false
  | some ts => (ts.length : Int) == tokensInt n

/-- The part of a load behind the checks. -/
def loadChecked (g : Process) (s : σ) (q : Query) (path : Bytes) (c : Checked) : LoadResult σ :=
  let failed (s' : σ) (change : DirChange) : LoadResult σ :=
    ⟨0, eng.invalidate s', [], g, change, none⟩
  let r := eng.loadPayload s c.file (c.hdr.payloadBytes.toNat - c.listBytes)
  if r.2 = false then failed r.1 .none
  else if holdsTokens eng r.1 c.hdr.tokens then
    let v := eng.restoreVision r.1 (spansOf c.stored)
    if v.2 = false then failed v.1 .none
    else if holdsTokens eng v.1 c.hdr.tokens then
      { loaded := tokensInt c.hdr.tokens
        session := v.1
        effectivePrompt :=
          buildPrompt eng ((eng.tokens v.1).getD []) (q.prompt.drop c.textBytes.toNat)
        process := g
        change := .touch path (c.hdr.hits + 1)
        info := some ⟨c.textBytes, c.hdr.quantBits, c.hdr.extFlags, path⟩ }
    else failed v.1 (.unlink path)
  else failed r.1 (.unlink path)

/-- `ds4_kvstore_try_load_text` for a prompt and its images. -/
def tryLoadText (g : Process) (kc : LoadStore) (dir : Dir) (s : σ) (prompt : Bytes)
    (images : Option Images) : LoadResult σ :=
  let untouched (g : Process) (change : DirChange) : LoadResult σ := ⟨0, s, [], g, change, none⟩
  if kc.enabled = false ∨ kc.canaryReady = false then untouched g .none
  else
    let g : Process := if g.identity = 0 then { g with identity := eng.identity } else g
    if quantBitsSupported eng.quantBits = false then untouched g .none
    else
      let q : Query := ⟨prompt, images, eng.modelId, eng.quantBits, eng.ctx s⟩
      match (findImagePrefix g kc.toStoreOptions dir q).bind fun i => (refresh g dir)[i]? with
      | none => untouched g .none
      | some e =>
        match dir.content e.path with
        | none => untouched g .none
        | some content =>
          match loadChecks g q e.sha content with
          | .error why => untouched g (if why.corrupt then .unlink e.path else .none)
          | .ok c => loadChecked eng g s q e.path c

end Load

/-! ## What the checks give -/

/-- The content of a file that a load may restore: everything that `c` holds was read from it. -/
structure Verified (g : Process) (q : Query) (content : Bytes) (c : Checked) : Prop where
  parsed : ∃ f, parseHeader g (File.open' content) = some (c.hdr, c.textBytes, f) ∧
    (f.read c.textBytes.toNat).1 = c.text
  list : storedImages c.hdr ⟨content, fixedBytes c.hdr.version + c.textBytes.toNat⟩ =
    some (c.listBytes, c.stored, c.file)
  not_refused : c.hdr.refusal = none
  model : c.hdr.modelId = q.modelId
  text : c.text <+: q.prompt
  text_length : c.text.length = c.textBytes.toNat
  digest : payloadHash ((content.drop (fixedBytes c.hdr.version + c.textBytes.toNat)).take
    c.hdr.payloadBytes.toNat) = c.hdr.payloadHash
  whole : fixedBytes c.hdr.version + c.textBytes.toNat + c.hdr.payloadBytes.toNat ≤ content.length
  images : List.Forall₂ SameImage c.stored.v (requestImages q.images c.textBytes.toNat)
  encoder : c.stored.v ≠ [] → c.stored.encoder = (q.images.map (·.encoder)).getD 0

theorem loadChecks_ok {g : Process} {q : Query} {sha content : Bytes} {c : Checked}
    (ho : Ordered q.images) (h : loadChecks g q sha content = .ok c) : Verified g q content c := by
  unfold loadChecks at h
  split at h
  · cases h
  next hdr tb f hparse =>
  obtain ⟨hdata, hpos, -, -, hin⟩ := parseHeader_spec hparse
  simp only at h
  split at h
  · cases h
  next hrefusal =>
  split_ifs at h with hmodel hlong hshort hsha hhead
  split at h
  · cases h
  next f₁ hverify =>
  obtain ⟨rfl, hwhole, hdigest⟩ := verifyPayload_ok hverify
  split at h
  · cases h
  next n stored f₂ hstored =>
  split at h
  · cases h
  next hmis =>
  obtain rfl : _ = c := by simpa using h
  have henc : stored.v ≠ [] → stored.encoder ≠ 0 := by
    unfold storedImages at hstored
    split at hstored
    · exact fun _ => (readImages_ok hstored).encoder
    · obtain ⟨-, rfl, -⟩ : 0 = n ∧ (⟨0, []⟩ : Images) = stored ∧ _ = f₂ := by simpa using hstored
      exact fun hne => absurd rfl hne
  obtain ⟨hsame, -, hencoder⟩ := (imagesMismatch_eq_none_iff henc).mp hmis
  rw [not_not] at hshort hmodel
  have hrest : (f.read tb.toNat).2.rest = content.drop (fixedBytes hdr.version + tb.toNat) := by
    rw [File.rest_read, File.rest, hdata, hpos, List.drop_drop]
    simp [File.open']
  have hlen : fixedBytes hdr.version + tb.toNat ≤ content.length := by
    have := File.read_pos_le (hin (Nat.zero_le _)) tb.toNat
    rw [File.read_pos, File.read_data, hdata, hpos, hshort] at this
    simpa [File.open'] using this
  have hfile : (f.read tb.toNat).2 = ⟨content, fixedBytes hdr.version + tb.toNat⟩ := by
    have hdata' : (f.read tb.toNat).2.data = content := by
      rw [File.read_data, hdata]
      rfl
    have hpos' : (f.read tb.toNat).2.pos = fixedBytes hdr.version + tb.toNat := by
      rw [File.read_pos, hshort, hpos]
      simp [File.open']
    rw [← hdata', ← hpos']
  rw [hrest] at hdigest hwhole
  rw [List.length_drop] at hwhole
  have hsize : fixedBytes hdr.version + tb.toNat + hdr.payloadBytes.toNat ≤ content.length := by
    omega
  exact
    { parsed := ⟨f, hparse, rfl⟩
      list := hfile ▸ hstored
      not_refused := hrefusal
      model := hmodel
      text := hhead
      text_length := hshort
      digest := hdigest
      whole := hsize
      images := by rwa [← imagesInside_ordered ho]
      encoder := hencoder }

theorem Verified.tokens_ne {g : Process} {q : Query} {content : Bytes} {c : Checked}
    (h : Verified g q content c) : c.hdr.tokens ≠ 0 := by
  obtain ⟨f, hf, -⟩ := h.parsed
  exact (parseHeader_spec hf).2.2.2.1

/-! ## How a load ends -/

section Outcome

variable {σ : Type*} (eng : Engine σ)

/-- The session and the verdict of `ds4_session_load_payload` on the payload of a checked file,
behind its image list. -/
def payloadLoaded (s : σ) (c : Checked) : σ × Bool :=
  eng.loadPayload s c.file (c.hdr.payloadBytes.toNat - c.listBytes)

/-- The session and the verdict of the restore of the images of a checked file. -/
def visionRestored (s : σ) (c : Checked) : σ × Bool :=
  eng.restoreVision (payloadLoaded eng s c).1 (spansOf c.stored)

/-- A load that ended with the state of a verified file: the session is the one that the payload
and the stored images of this file gave, and the file at `path` is touched. -/
structure Loaded (r : LoadResult σ) (s : σ) (prompt path : Bytes) (c : Checked) : Prop where
  payload : (payloadLoaded eng s c).2 = true
  vision : (visionRestored eng s c).2 = true
  session : r.session = (visionRestored eng s c).1
  pos : 0 < r.loaded
  count : r.loaded = c.hdr.tokens.toNat
  prompt_eq : ∃ ts, eng.tokens r.session = some ts ∧ (ts.length : Int) = r.loaded ∧
    r.effectivePrompt = ts ++ eng.tokenizeChat (prompt.drop c.textBytes.toNat)
  info : r.info = some ⟨c.textBytes, c.hdr.quantBits, c.hdr.extFlags, path⟩
  change : r.change = .touch path (c.hdr.hits + 1)

/-- A load that gave up behind the payload and invalidated the session; a file whose tokens the
session does not hold is removed. -/
structure Invalidated (r : LoadResult σ) (s : σ) (path : Bytes) (c : Checked) : Prop where
  loaded : r.loaded = 0
  session : r.session = eng.invalidate (payloadLoaded eng s c).1 ∨
    r.session = eng.invalidate (visionRestored eng s c).1
  info : r.info = none
  change : r.change = .none ∨ r.change = .unlink path

theorem holdsTokens_iff {s : σ} {n : UInt32} : holdsTokens eng s n = true ↔
    ∃ ts, eng.tokens s = some ts ∧ (ts.length : Int) = tokensInt n := by
  unfold holdsTokens
  cases eng.tokens s <;> simp

theorem tokensInt_of_nonneg {n : UInt32} (h : 0 ≤ tokensInt n) : tokensInt n = n.toNat := by
  have hcond : tokensInt n = if 2 * n.toNat < 2 ^ 32 then (n.toNat : Int) else n.toNat - 2 ^ 32 :=
    BitVec.toInt_eq_toNat_cond n.toBitVec
  have := n.toNat_lt
  rw [hcond] at h ⊢
  split at h
  next hlt => rw [if_pos hlt]
  · omega

theorem loadChecked_process (g : Process) (s : σ) (q : Query) (path : Bytes) (c : Checked) :
    (loadChecked eng g s q path c).process = g := by
  unfold loadChecked
  simp only
  split_ifs <;> rfl

theorem loadChecked_outcome {g : Process} {s : σ} {q : Query} {path content : Bytes} {c : Checked}
    (hc : Verified g q content c) :
    Invalidated eng (loadChecked eng g s q path c) s path c ∨
      Loaded eng (loadChecked eng g s q path c) s q.prompt path c := by
  unfold loadChecked
  simp only
  split
  · exact .inl ⟨rfl, .inl rfl, rfl, .inl rfl⟩
  next hpayload =>
  split
  swap
  · exact .inl ⟨rfl, .inl rfl, rfl, .inr rfl⟩
  split
  · exact .inl ⟨rfl, .inr rfl, rfl, .inl rfl⟩
  next hvision =>
  split
  swap
  · exact .inl ⟨rfl, .inr rfl, rfl, .inr rfl⟩
  next hholds =>
    obtain ⟨ts, hts, hlen⟩ := (holdsTokens_iff eng).mp hholds
    have hcount : tokensInt c.hdr.tokens = c.hdr.tokens.toNat := tokensInt_of_nonneg (by omega)
    have hne : c.hdr.tokens.toNat ≠ 0 := fun h0 =>
      hc.tokens_ne (UInt32.toNat_inj.mp (by simpa using h0))
    refine .inr ⟨Bool.eq_true_of_not_eq_false hpayload, Bool.eq_true_of_not_eq_false hvision, rfl, ?_,
      hcount, ⟨ts, hts, hlen, ?_⟩, rfl, rfl⟩
    · simp only
      omega
    · simp only [hts, Option.getD_some, buildPrompt]

/-- **Loading.** A load leaves the session alone; or the file of the entry that the lookup found was
verified, and the session is invalidated, or it is the one that this file's payload and images gave,
holds exactly its tokens, and the prompt is these tokens and the tokenization of the text behind the
key. -/
theorem tryLoadText_outcome (g : Process) (kc : LoadStore) (dir : Dir) (s : σ) (prompt : Bytes)
    (images : Option Images) (ho : Ordered images) :
    let r := tryLoadText eng g kc dir s prompt images
    let q : Query := ⟨prompt, images, eng.modelId, eng.quantBits, eng.ctx s⟩
    (r.loaded = 0 ∧ r.session = s ∧ r.info = none) ∨
      ∃ i e content c, findImagePrefix r.process kc.toStoreOptions dir q = some i ∧
        (refresh r.process dir)[i]? = some e ∧ dir.content e.path = some content ∧
        Verified r.process q content c ∧
        (Invalidated eng r s e.path c ∨ Loaded eng r s prompt e.path c) := by
  unfold tryLoadText
  simp only
  split
  · exact .inl ⟨rfl, rfl, rfl⟩
  split
  · exact .inl ⟨rfl, rfl, rfl⟩
  split
  · exact .inl ⟨rfl, rfl, rfl⟩
  next e hfound =>
  split
  · exact .inl ⟨rfl, rfl, rfl⟩
  next content hcontent =>
  split
  · exact .inl ⟨rfl, rfl, rfl⟩
  next c hchecks =>
    have hc := loadChecks_ok ho hchecks
    obtain ⟨i, hi, he⟩ := Option.bind_eq_some_iff.mp hfound
    refine .inr ⟨i, e, content, c, ?_, ?_, hcontent, ?_, loadChecked_outcome eng hc⟩
    · rwa [loadChecked_process]
    · rwa [loadChecked_process]
    · rwa [loadChecked_process]

end Outcome

/-- An engine whose session is its token list and whose payloads hold 600 tokens. -/
def listEngine : Engine (List Int) where
  identity := 1
  quantBits := 2
  modelId := 0
  ctx _ := 32768
  tokens s := some s
  loadPayload _ _ _ := (List.replicate 600 7, true)
  restoreVision s _ := (s, true)
  invalidate _ := []
  tokenizeChat text := text.map fun b => (b.toNat : Int)

/-- The prompt `hello <i> world` with its image restores the entry that ends behind the image. -/
theorem tryLoadText_shot :
    let r := tryLoadText listEngine ⟨0, 0⟩ ⟨⟨512, false⟩, true, true⟩ shotDir [] shotQuery.prompt
      shotQuery.images
    ∃ c, Verified r.process shotQuery shotFile c ∧
      Loaded listEngine r [] shotQuery.prompt shotEntry.path c ∧ c.stored.v.length = 1 := by
  intro r
  have hrun : (r.loaded, r.process, r.info) = (600, ⟨1, 0⟩, some ⟨10, 2, 0, shotEntry.path⟩) := by
    decide +kernel
  obtain ⟨hloaded, hprocess, hinfo⟩ : r.loaded = 600 ∧ r.process = ⟨1, 0⟩ ∧
      r.info = some ⟨10, 2, 0, shotEntry.path⟩ := by simpa using hrun
  rcases tryLoadText_outcome listEngine ⟨0, 0⟩ ⟨⟨512, false⟩, true, true⟩ shotDir []
      shotQuery.prompt shotQuery.images (by simp [Ordered, shotQuery, shotImages]) with
    ⟨h0, -⟩ | ⟨i, e, content, c, -, he, hcontent, hv, h⟩
  · exact absurd (hloaded.symm.trans h0) (by decide)
  rcases h with h0 | h
  · exact absurd (hloaded.symm.trans h0.loaded) (by decide)
  · have hsame := Option.some.inj (hinfo.symm.trans h.info)
    have he := List.mem_of_getElem? he
    change e ∈ refresh r.process shotDir at he
    rw [hprocess, refresh_shotDir] at he
    have hpath : shotEntry.path = e.path := congrArg LoadInfo.path hsame
    obtain rfl | rfl : e = helloEntry ∨ e = shotEntry := by simpa using he
    · exact absurd hpath (by decide)
    · obtain rfl : content = shotFile := Option.some.inj (hcontent.symm.trans rfl)
      have htext : (10 : UInt32) = c.textBytes := congrArg LoadInfo.textBytes hsame
      refine ⟨c, hv, h, ?_⟩
      rw [hv.images.length_eq, ← htext]
      decide

end Ds4.Kvstore
