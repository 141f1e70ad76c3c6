import Ds4.Lib.Best
import Ds4.Lib.Bytes
import Mathlib.Algebra.BigOperators.Fin
import Mathlib.Data.Fintype.Card
import Mathlib.Tactic

/-!
# The cache of image embeddings

`server_image_cache_get` and `server_image_cache_put` over the 32 slots of `server_image_cache`. A
slot that is zeroed is `none`. Sizes are `size_t`, so that the arithmetic on them is modulo `2 ^ 64`.
An allocation that may fail is an argument of the operation that makes it, and `put` lists the states
in front of its evictions.
-/

namespace Ds4.Server

open Ds4.Lib

/-! ## The cache -/

/-- `SERVER_IMAGE_CACHE_ENTRIES`. -/
abbrev imageCacheEntries : Nat := 32

/-- `ds4_vision_embedding`, over the type of its floats; a null pointer is no data. -/
structure VisionEmbedding (F : Type) where
  data : Option (List F)
  tokenCount : Nat
  layout : Nat
  gridWidth : Nat
  gridHeight : Nat
  width : Nat
  height : Nat
  contentWidth : Nat
  contentHeight : Nat
  fingerprint : Bytes
  deriving DecidableEq

/-- An occupied `server_image_cache_entry`. -/
structure ImageEntry (F : Type) where
  encoded : Bytes
  embedding : VisionEmbedding F
  dataBytes : Nat
  used : Nat
  deriving DecidableEq

/-- `server_image_cache`. -/
structure ImageCache (F : Type) where
  entries : Fin imageCacheEntries → Option (ImageEntry F)
  bytes : Nat
  clock : Nat

variable {F : Type}

/-- The cache of a server that has just started. -/
def ImageCache.empty : ImageCache F := ⟨fun _ => none, 0, 0⟩

/-- A difference of two `size_t`. -/
def subSize (a b : Nat) : Nat := (a + (2 ^ 64 - b % 2 ^ 64)) % 2 ^ 64

/-- A sum of two `size_t`. -/
def addSize (a b : Nat) : Nat := (a + b) % 2 ^ 64

/-- The bytes of a slot, zero for a zeroed one. -/
def slotBytes (slot : Option (ImageEntry F)) : Nat :=
  slot.elim 0 fun e => e.encoded.length + e.dataBytes

/-- The clock of a slot, zero for a zeroed one. -/
def slotUsed (slot : Option (ImageEntry F)) : Nat := slot.elim 0 ImageEntry.used

/-- `server_image_cache_remove`. -/
def ImageCache.remove (cache : ImageCache F) (i : Fin imageCacheEntries) : ImageCache F :=
  { cache with
    bytes := subSize cache.bytes (slotBytes (cache.entries i) % 2 ^ 64)
    entries := Function.update cache.entries i none }

/-- `server_image_cache_clear`. -/
def ImageCache.clear (cache : ImageCache F) : ImageCache F :=
  { (List.finRange imageCacheEntries).foldl ImageCache.remove cache with clock := 0 }

/-! ## Lookup -/

/-- The first slot with these bytes. -/
def ImageCache.find (cache : ImageCache F) (encoded : Bytes) : Option (Fin imageCacheEntries) :=
  (List.finRange imageCacheEntries).find? fun i =>
    (cache.entries i).any fun e => e.encoded = encoded

/-- `server_image_cache_get`, with whether its allocation succeeds. -/
def ImageCache.get (cache : ImageCache F) (encoded : Bytes) (alloc : Bool) :
    Option (VisionEmbedding F) × ImageCache F :=
  match cache.find encoded with
  | none => (none, cache)
  | some i =>
    match cache.entries i with
    | none => (none, cache)
    | some e =>
      if alloc then
        (some e.embedding,
          { cache with
            clock := cache.clock + 1
            entries := Function.update cache.entries i (some { e with used := cache.clock + 1 }) })
      else (none, cache)

/-! ## Insertion -/

/-- The first slot with the smallest clock. -/
def ImageCache.leastUsed (cache : ImageCache F) : Fin imageCacheEntries :=
  (List.finRange imageCacheEntries).tail.foldl
    (fun dest i => if slotUsed (cache.entries i) < slotUsed (cache.entries dest) then i else dest) 0

/-- The scan for an occupied slot that starts from an empty one. -/
def ImageCache.leastOccupied (cache : ImageCache F) (dest : Fin imageCacheEntries) :
    Fin imageCacheEntries :=
  (List.finRange imageCacheEntries).foldl
    (fun dest i =>
      if (cache.entries i).isSome ∧
          ((cache.entries dest).isNone ∨
            slotUsed (cache.entries i) < slotUsed (cache.entries dest))
      then i else dest) dest

/-- One round of the loop: the slot to fill, or the slot to evict. -/
def ImageCache.round (cache : ImageCache F) (budget total : Nat) :
    Fin imageCacheEntries ⊕ Fin imageCacheEntries :=
  let dest := cache.leastUsed
  if (cache.entries dest).isNone ∧ cache.bytes ≤ subSize budget total then .inl dest
  else if (cache.entries dest).isNone then .inr (cache.leastOccupied dest)
  else .inr dest

/-- What the loop leaves: the evictions with the state in front of each, the cache and a slot. -/
structure Room (F : Type) where
  evicted : List (ImageCache F × Fin imageCacheEntries)
  cache : ImageCache F
  dest : Fin imageCacheEntries

/-- The loop of `server_image_cache_put`, none when it takes more rounds than `fuel`. -/
def ImageCache.makeRoom (budget total : Nat) : Nat → ImageCache F → Option (Room F)
  | 0, _ => none
  | fuel + 1, cache =>
    match cache.round budget total with
    | .inl dest => some ⟨[], cache, dest⟩
    | .inr victim => ((cache.remove victim).makeRoom budget total fuel).map fun room =>
        { room with evicted := (cache, victim) :: room.evicted }

/-- What `put` leaves: its evictions, the entry that it stored and its slot, and the cache. -/
structure Put (F : Type) where
  evicted : List (ImageCache F × Fin imageCacheEntries)
  stored : Option (Fin imageCacheEntries × ImageEntry F)
  cache : ImageCache F

/-- The copy of an embedding: `bytes` bytes of its data. -/
def VisionEmbedding.copy (embedding : VisionEmbedding F) (dim : Nat) : VisionEmbedding F :=
  { embedding with data := embedding.data.map (·.take (embedding.tokenCount * dim)) }

/-- Whether `put` takes an embedding on. -/
def putAccepts (encoded : Bytes) (embedding : VisionEmbedding F) (dim budget : Nat) : Bool :=
  embedding.data.isSome && dim != 0 && embedding.tokenCount != 0 && encoded.length != 0 &&
    embedding.tokenCount ≤ budget / 4 / dim &&
    encoded.length ≤ subSize budget (embedding.tokenCount * dim * 4 % 2 ^ 64)

/-- `server_image_cache_put`, with whether its two allocations succeed. -/
def ImageCache.put (cache : ImageCache F) (encoded : Bytes) (embedding : VisionEmbedding F)
    (dim budget : Nat) (allocEncoded allocData : Bool) : Option (Put F) :=
  if !putAccepts encoded embedding dim budget then some ⟨[], none, cache⟩
  else
    let bytes := embedding.tokenCount * dim * 4 % 2 ^ 64
    let total := addSize encoded.length bytes
    (cache.makeRoom budget total (imageCacheEntries + 1)).map fun room =>
      if !allocEncoded || !allocData then ⟨room.evicted, none, room.cache⟩
      else
        let entry : ImageEntry F :=
          { encoded, embedding := embedding.copy dim, dataBytes := bytes, used := room.cache.clock + 1 }
        ⟨room.evicted, some (room.dest, entry),
          { entries := Function.update room.cache.entries room.dest (some entry)
            bytes := addSize room.cache.bytes total
            clock := room.cache.clock + 1 }⟩

end Ds4.Server
