import Ds4.Kvstore.Digest
import Ds4.Lib.File

/-!
# Checkpoint files

A checkpoint is a header of 80 bytes (48 in version 1), a text length and the key text, the payload
and a trailer. A checkpoint with images has payload ABI 3: the payload starts with the list of the
images' identities. `fillHeader`, `parseHeader`, `encodeImages`, `readImages`, `writeEntryImages` and
`verifyPayload` are `ds4_kvstore_fill_header`, `kv_parse_header`, `kv_images_encode`,
`ds4_kvstore_read_images`, `ds4_kvstore_write_entry_images` and `ds4_kvstore_verify_payload`.
System calls succeed; a short read is the end of the file.
-/

namespace Ds4.Kvstore

open Ds4.Lib

/-! ## Header -/

/-- The globals `g_kv_identity` and `g_kv_canary`; 0 is not set. -/
structure Process where
  identity : UInt64
  canary : UInt64
deriving DecidableEq

/-- The arguments of `ds4_kvstore_fill_header`. -/
structure HeaderArgs where
  modelId : UInt8
  quantBits : UInt8
  reason : UInt8
  extFlags : UInt8
  tokens : UInt32
  hits : UInt32
  ctxSize : UInt32
  createdAt : UInt64
  lastUsed : UInt64
  payloadBytes : UInt64
deriving DecidableEq

/-- `ds4_kvstore_fill_header`; the payload hash at 64 is written later. -/
def fillHeader (g : Process) (a : HeaderArgs) : Bytes :=
  [75, 86, 67, 2, a.quantBits, a.reason, a.extFlags, a.modelId] ++ put32 a.tokens ++ put32 a.hits ++
    put32 a.ctxSize ++ [2, 0, 0, 0] ++ put64 a.createdAt ++ put64 a.lastUsed ++
    put64 a.payloadBytes ++ put64 g.identity ++ put64 g.canary ++ List.replicate 16 0

/-- The fields of `ds4_kvstore_entry` that come from the file. -/
structure Entry where
  version : UInt8
  quantBits : UInt8
  reason : UInt8
  extFlags : UInt8
  modelId : UInt8
  tokens : UInt32
  hits : UInt32
  ctxSize : UInt32
  createdAt : UInt64
  lastUsed : UInt64
  payloadBytes : UInt64
  images : Bool
  identity : UInt64
  canary : UInt64
  payloadHash : UInt64
  textBytes : UInt64
  refusal : Option Bytes
deriving DecidableEq

/-- `ds4_kvstore_quant_bits_supported`. -/
def quantBitsSupported (q : UInt8) : Bool := q == 2 || q == 4 || q == 5 || q == 6 || q == 8

/-- Why this process must not load an entry. -/
def refusalOf (g : Process) (version abi : UInt8) (images : Bool) (identity canary : UInt64) :
    Option Bytes :=
  if version = 1 then some (lit "v1 entry (no engine identity, canary or payload hash)")
  else if abi ≠ 2 ∧ images = false then some (lit "graph payload ABI differs")
  else if g.identity ≠ 0 ∧ identity ≠ g.identity then
    some (lit "engine identity differs (other weights or prefill representation)")
  else if g.canary ≠ 0 ∧ canary ≠ g.canary then
    some (if canary ≠ 0 then lit "prefill numerics canary differs"
      else lit "entry records no numerics canary")
  else none

/-- The fields of a header `h` whose text has `tb` bytes. -/
def headerEntry (g : Process) (h : Bytes) (tb : UInt32) : Entry :=
  let version := h.getD 3 0
  let abi := h.getD 20 0
  let v2 := version != 1
  let identity := if v2 then get64 (h.drop 48) else 0
  let canary := if v2 then get64 (h.drop 56) else 0
  let images := v2 && abi == 3
  { version := version
    quantBits := h.getD 4 0
    reason := if h.getD 5 0 ≤ 6 then h.getD 5 0 else 0
    extFlags := h.getD 6 0
    modelId := h.getD 7 0
    tokens := get32 (h.drop 8)
    hits := get32 (h.drop 12)
    ctxSize := get32 (h.drop 16)
    createdAt := get64 (h.drop 24)
    lastUsed := get64 (h.drop 32)
    payloadBytes := get64 (h.drop 40)
    images := images
    identity := identity
    canary := canary
    payloadHash := if v2 then get64 (h.drop 64) else 0
    textBytes := tb.toUInt64
    refusal := refusalOf g version abi images identity canary }

/-- `kv_parse_header`: the entry, the text length and the file behind it. -/
def parseHeader (g : Process) (f : File) : Option (Entry × UInt32 × File) :=
  let r₁ := f.read 4
  if r₁.1.length ≠ 4 then none
  else if r₁.1.take 3 ≠ [75, 86, 67] then none
  else if r₁.1.getD 3 0 ≠ 1 ∧ r₁.1.getD 3 0 ≠ 2 then none
  else
    let hb := if r₁.1.getD 3 0 = 1 then 48 else 80
    let r₂ := r₁.2.read (hb - 4)
    if r₂.1.length ≠ hb - 4 then none
    else
      let r₃ := r₂.2.read 4
      if r₃.1.length ≠ 4 then none
      else
        let e := headerEntry g (r₁.1 ++ r₂.1) (get32 r₃.1)
        if e.tokens ≠ 0 ∧ quantBitsSupported e.quantBits = true then
          some (e, get32 r₃.1, r₃.2)
        else none

/-! ## Images -/

/-- `ds4_kvstore_image`. -/
structure Image where
  textOffset : UInt32
  textLen : UInt32
  tokenStart : UInt32
  tokenCount : UInt32
  fingerprint : Vector UInt8 32
deriving DecidableEq

/-- `ds4_kvstore_images`; `len` is the length of `v`. -/
structure Images where
  encoder : UInt64
  v : List Image
deriving DecidableEq

/-- `ds4_kvstore_images_bytes`. -/
def imagesBytes (images : Option Images) : Nat :=
  match images with
  | none => 0
  | some im => if im.v = [] then 0 else 24 + im.v.length * 48

/-- One record of the list. -/
def encodeImage (im : Image) : Bytes :=
  put32 im.textOffset ++ put32 im.textLen ++ put32 im.tokenStart ++ put32 im.tokenCount ++
    im.fingerprint.toList

/-- `kv_images_encode`. -/
def encodeImages (im : Images) : Bytes :=
  lit "KVIM" ++ put32 1 ++ put32 (UInt32.ofNat im.v.length) ++ put32 0 ++ put64 im.encoder ++
    im.v.flatMap encodeImage

/-- The loop of `kv_images_well_formed`. -/
def wellFormedFrom (textEnd tokenEnd : Nat) : List Image → Bool
  | [] => true
  | im :: v =>
    im.textLen != 0 && im.tokenCount != 0 && textEnd ≤ im.textOffset.toNat &&
      tokenEnd ≤ im.tokenStart.toNat &&
      wellFormedFrom (im.textOffset.toNat + im.textLen.toNat)
        (im.tokenStart.toNat + im.tokenCount.toNat) v

/-- `kv_images_well_formed`. -/
def imagesWellFormed (im : Images) : Bool := im.v.length ≤ 16 && wellFormedFrom 0 0 im.v

/-- The lists that are written and accepted by the reader. -/
structure ImagesOk (im : Images) : Prop where
  wellFormed : imagesWellFormed im = true
  encoder : im.encoder ≠ 0

theorem ImagesOk.length_le {im : Images} (h : ImagesOk im) : im.v.length ≤ 16 := by
  have := h.wellFormed
  simp only [imagesWellFormed, Bool.and_eq_true, decide_eq_true_eq] at this
  exact this.1

/-- One record as it is read. -/
def decodeImage (r : Bytes) : Image :=
  ⟨get32 r, get32 (r.drop 4), get32 (r.drop 8), get32 (r.drop 12),
    Vector.ofFn fun i => r.getD (16 + i) 0⟩

/-- The record loop of `ds4_kvstore_read_images`. -/
def readRecords : Nat → File → Option (List Image × File)
  | 0, f => some ([], f)
  | n + 1, f =>
    let r := f.read 48
    if r.1.length ≠ 48 then none
    else (readRecords n r.2).map fun x => (decodeImage r.1 :: x.1, x.2)

/-- `ds4_kvstore_read_images`: the bytes of the list and the list; `none` is the result 0. -/
def readImages (f : File) (payloadBytes : UInt64) : Option (Nat × Images × File) :=
  let r := f.read 24
  if payloadBytes < 24 ∨ r.1.length ≠ 24 ∨ r.1.take 4 ≠ lit "KVIM" ∨ get32 (r.1.drop 4) ≠ 1 ∨
    get32 (r.1.drop 12) ≠ 0 then none
  else
    let count := (get32 (r.1.drop 8)).toNat
    if count = 0 ∨ 16 < count then none
    else
      let bytes := 24 + count * 48
      if payloadBytes.toNat < bytes then none
      else
        match readRecords count r.2 with
        | none => none
        | some (v, f') =>
          let out : Images := ⟨get64 (r.1.drop 16), v⟩
          if out.encoder ≠ 0 ∧ imagesWellFormed out = true then some (bytes, out, f') else none

/-! ## Payload -/

/-- `KV_HASH_CHUNK`. -/
def hashChunk : Nat := 8 <<< 20

/-- A number as `%llu`. -/
def decimal (n : Nat) : Bytes := (Nat.toDigits 10 n).map fun c => UInt8.ofNat c.toNat

/-- A number as `%016llx`. -/
def hex16 (v : UInt64) : Bytes :=
  let ds := (Nat.toDigits 16 v.toNat).map fun c => UInt8.ofNat c.toNat
  List.replicate (16 - ds.length) 48 ++ ds

/-- The read loop of `ds4_kvstore_verify_payload`. -/
def verifyLoop (f : File) (s : Hash) (left : Nat) : Hash × Nat :=
  if left = 0 then (s, 0)
  else
    let want := min left hashChunk
    let r := f.read want
    if r.1.length ≠ want then (s, left)
    else verifyLoop r.2 (hashUpdate s r.1) (left - want)
termination_by left
decreasing_by
  have : 0 < hashChunk := by decide
  omega

/-- `ds4_kvstore_verify_payload` at the payload: the reason of a refusal, or the file where it
was. -/
def verifyPayload (f : File) (e : Entry) : Except Bytes File :=
  if e.payloadHash = 0 then .error (lit "entry records no payload hash")
  else
    let r := verifyLoop f hashInit e.payloadBytes.toNat
    if r.2 ≠ 0 then
      .error (lit "payload is shorter than the " ++ decimal e.payloadBytes.toNat ++
        lit " bytes the header records")
    else
      let got := hashFinal r.1
      if got ≠ e.payloadHash then
        .error (lit "payload hash " ++ hex16 got ++ lit ", header records " ++
          hex16 e.payloadHash ++ lit " (corrupt payload)")
      else .ok (f.seek f.pos)

/-- `ds4_session_payload_file`: a staged payload of `bytes` bytes. -/
structure Staged where
  content : Bytes
  bytes : UInt64
deriving DecidableEq

/-- The copy loop of `kv_copy_staged_hashed`. -/
def copyLoop (src f : File) (s : Hash) (left : Nat) : Option (File × Hash) :=
  if left = 0 then some (f, s)
  else
    let want := min left hashChunk
    let r := src.read want
    if r.1.length ≠ want then none
    else copyLoop r.2 (f.write r.1) (hashUpdate s r.1) (left - want)
termination_by left
decreasing_by
  have : 0 < hashChunk := by decide
  omega

/-- `kv_copy_staged_hashed`. -/
def copyStagedHashed (staged : Staged) (f : File) (s : Hash) : Except Bytes (File × UInt64) :=
  match copyLoop (File.open' staged.content) f s staged.bytes.toNat with
  | none => .error (lit "failed to copy staged session payload")
  | some (f', s') => .ok (f', hashFinal s')

/-- The payload of a new entry; without a staged payload it is empty. -/
def writePayload (staged : Option Staged) (f : File) (s : Hash) : Except Bytes (File × UInt64) :=
  match staged with
  | some st => copyStagedHashed st f s
  | none => .ok (f, hashFinal s)

/-! ## Writing an entry -/

/-- The `write` hook of a trailer: the bytes it writes for a text, `none` when it fails. -/
abbrev TrailerWrite := Bytes → Option Bytes

/-- `kv_trailer_write`; without a hook nothing is written. -/
def trailerWrite (hook : Option TrailerWrite) (text : Bytes) : Option Bytes :=
  match hook with
  | none => some []
  | some w => w text

/-- The header and the image list that `ds4_kvstore_write_entry_images` writes. -/
def entryFront (h : Bytes) (images : Option Images) : Except Bytes (Bytes × Bytes) :=
  match images with
  | none => .ok (h, [])
  | some im =>
    if imagesBytes images = 0 then .ok (h, [])
    else if imagesWellFormed im = false ∨ im.encoder = 0 then
      .error (lit "malformed image identity list")
    else
      .ok (patch (patch h 20 [3]) 40
        (put64 (get64 (h.drop 40) + UInt64.ofNat (imagesBytes images))), encodeImages im)

/-- `ds4_kvstore_write_entry_images`: the file, the bytes of the trailer and the payload hash. -/
def writeEntryImages (f : File) (h text : Bytes) (images : Option Images) (staged : Option Staged)
    (hook : Option TrailerWrite) : Except Bytes (File × Nat × UInt64) :=
  match entryFront h images with
  | .error e => .error e
  | .ok (hh, list) =>
    let digest := hashUpdate hashInit list
    let f := (((f.write hh).write (put32 (UInt32.ofNat text.length))).write text).write list
    match writePayload staged f digest with
    | .error e => .error e
    | .ok (f, hash) =>
      match trailerWrite hook text with
      | none => .error []
      | some t => .ok (((f.write t).seek 64).write (put64 hash), t.length, hash)

end Ds4.Kvstore
