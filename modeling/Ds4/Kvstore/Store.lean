import Ds4.Kvstore.Sha1
import Ds4.Lib.Best

/-!
# The checkpoint directory

A store is a directory of checkpoint files, read anew at each lookup: `readEntry`, `refresh`,
`entryImages`, `imagesMismatch` and `findImagePrefix` are `kv_read_entry`, `kv_cache_refresh`,
`kv_entry_images`, `ds4_kvstore_images_mismatch` and `ds4_kvstore_find_image_prefix` of an enabled
store. Paths are file names in the directory. Log lines are left out.
-/

namespace Ds4.Kvstore

open Ds4.Lib

/-- The regular files of a directory, in `readdir` order. -/
structure Dir where
  files : List (Bytes × Bytes)
  nodup : (files.map (·.1)).Nodup

/-- The content of a file. -/
def Dir.content (dir : Dir) (name : Bytes) : Option Bytes :=
  (dir.files.find? (·.1 == name)).map (·.2)

theorem Dir.content_of_mem {dir : Dir} {x : Bytes × Bytes} (h : x ∈ dir.files) :
    dir.content x.1 = some x.2 := by
  obtain ⟨files, hnd⟩ := dir
  simp only [Dir.content] at *
  induction files with
  | nil => simp at h
  | cons y files ih =>
    simp only [List.map_cons, List.nodup_cons] at hnd
    rcases List.mem_cons.mp h with rfl | h
    · simp
    · have hne : y.1 ≠ x.1 := fun heq => hnd.1 (heq ▸ List.mem_map_of_mem h)
      rw [List.find?_cons_of_neg (by simpa using hne)]
      exact ih hnd.2 h

/-! ## The index -/

/-- `isxdigit`. -/
def isXDigit (c : UInt8) : Bool :=
  (48 ≤ c && c ≤ 57) || (65 ≤ c && c ≤ 70) || (97 ≤ c && c ≤ 102)

/-- `tolower`. -/
def toLower (c : UInt8) : UInt8 := if 65 ≤ c ∧ c ≤ 90 then c + 32 else c

/-- `ds4_kvstore_sha_hex_name`: the name of an entry file. -/
def shaHexName (name : Bytes) : Option Bytes :=
  if name.length ≠ 43 ∨ name.drop 40 ≠ lit ".kv" then none
  else if (name.take 40).all isXDigit then some ((name.take 40).map toLower)
  else none

/-- `ds4_kvstore_entry`. -/
structure IndexEntry extends Entry where
  sha : Bytes
  path : Bytes
  fileSize : Nat
deriving DecidableEq

/-- The bytes in front of the key text. -/
def fixedBytes (version : UInt8) : Nat := (if version = 1 then 48 else 80) + 4

/-- `UINT64_MAX`. -/
def uint64Max : Nat := 2 ^ 64 - 1

/-- `kv_read_entry`. -/
def readEntry (g : Process) (path content sha : Bytes) (keepRefused : Bool) : Option IndexEntry :=
  if content.length < 48 + 4 then none
  else
    match parseHeader g (File.open' content) with
    | none => none
    | some (e, tb, _) =>
      if e.refusal.isSome ∧ keepRefused = false then none
      else
        let fixed := fixedBytes e.version
        if uint64Max - fixed < tb.toNat ∨
          uint64Max - fixed - tb.toNat < e.payloadBytes.toNat then none
        else if content.length < fixed + tb.toNat + e.payloadBytes.toNat then none
        else some { e with sha := sha, path := path, fileSize := content.length }

/-- `kv_cache_refresh`. -/
def refresh (g : Process) (dir : Dir) : List IndexEntry :=
  dir.files.filterMap fun x => (shaHexName x.1).bind fun sha => readEntry g x.1 x.2 sha true

/-- `kv_entry_images`; `none` is unreadable. -/
def entryImages (g : Process) (dir : Dir) (e : IndexEntry) : Option Images :=
  if e.images = false then some ⟨0, []⟩
  else
    match dir.content e.path with
    | none => none
    | some content =>
      match parseHeader g (File.open' content) with
      | none => none
      | some (hdr, tb, f) =>
        if hdr.images = false then none
        else (readImages (f.seek (f.pos + tb.toNat)) hdr.payloadBytes).map (·.2.1)

/-! ## Comparing image lists -/

/-- One round of the loop of `ds4_kvstore_images_mismatch`. -/
def imageDiff (textBytes : Nat) (a b : Image) : Option Bytes :=
  if a.textOffset ≠ b.textOffset ∨ a.textLen ≠ b.textLen ∨
    textBytes < a.textOffset.toNat + a.textLen.toNat then
    some (lit "an image sits at a different position")
  else if a.tokenCount ≠ b.tokenCount ∨ a.fingerprint ≠ b.fingerprint then
    some (lit "an image differs (fingerprint)")
  else none

/-- `ds4_kvstore_images_mismatch`. -/
def imagesMismatch (stored request : Option Images) (textBytes : Nat) : Option Bytes :=
  let v := (stored.map (·.v)).getD []
  let encoder := (stored.map (·.encoder)).getD 0
  let inside := imagesInside request textBytes
  if inside.length ≠ v.length then
    some (if v = [] then lit "entry has no image identity for the request's images"
      else if inside = [] then lit "entry holds images the request does not"
      else lit "entry holds a different number of images")
  else if inside ≠ [] ∧ (encoder = 0 ∨ encoder ≠ (request.map (·.encoder)).getD 0) then
    some (lit "entry was conditioned by another vision encoder")
  else (v.zip inside).findSome? fun x => imageDiff textBytes x.1 x.2

/-! ## Lookup -/

/-- The options of a store that a lookup reads. -/
structure StoreOptions where
  minTokens : Int
  rejectDifferentQuant : Bool

/-- The arguments of a lookup; the model id, the quantization and the context are cast to the types
of the header. -/
structure Query where
  prompt : Bytes
  images : Option Images
  modelId : UInt8
  quantBits : UInt8
  ctxSize : UInt32

/-- `(int)e->tokens`. -/
def tokensInt (t : UInt32) : Int := t.toInt32.toInt

/-- The key that a lookup maximizes. -/
def entryKey (e : IndexEntry) : Lex (Nat × Nat) := toLex (e.textBytes.toNat, e.tokens.toNat)

/-- The test `best >= 0`: the entry is not longer than the best one. -/
def notBetter (best : Option (IndexEntry × Nat)) (e : IndexEntry) : Bool :=
  match best with
  | none => false
  | some (b, _) =>
    e.textBytes < b.textBytes || (e.textBytes == b.textBytes && e.tokens ≤ b.tokens)

/-- One round of the loop of `ds4_kvstore_find_image_prefix`. -/
def considerEntry (g : Process) (opt : StoreOptions) (dir : Dir) (q : Query)
    (best : Option (IndexEntry × Nat)) (x : IndexEntry × Nat) : Option (IndexEntry × Nat) :=
  let e := x.1
  if e.refusal.isSome then best
  else if q.prompt.length < e.textBytes.toNat then best
  else if tokensInt e.tokens < opt.minTokens then best
  else if e.modelId ≠ q.modelId then best
  else if q.ctxSize < e.ctxSize then best
  else if opt.rejectDifferentQuant = true ∧ e.quantBits ≠ q.quantBits then best
  else if notBetter best e then best
  else if entrySha (q.prompt.take e.textBytes.toNat) q.images ≠ e.sha then best
  else
    match entryImages g dir e with
    | none => best
    | some stored =>
      match imagesMismatch (some stored) q.images e.textBytes.toNat with
      | some _ => best
      | none => some x

/-- `ds4_kvstore_find_image_prefix`: the index of the entry, `none` for -1. -/
def findImagePrefix (g : Process) (opt : StoreOptions) (dir : Dir) (q : Query) : Option Nat :=
  ((refresh g dir).zipIdx.foldl (considerEntry g opt dir q) none).map (·.2)

end Ds4.Kvstore
