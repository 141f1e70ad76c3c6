import Ds4.Lib.Bytes
import Ds4.Lib.Links

/-!
# The tool memory

`tool_memory` of the server remembers the text of a sampled tool block under the id of each of its
calls. An entry lives in the id map, in the list of recent use and in the list of its block; a block
lives in the text map and counts its entries. The entries and blocks are heap objects here, and a
step that reads through an address without a live object, or that dies, returns `none`.

An absent string is the empty string. `entries`, `refs` and `bytes` are counters of live heap
objects, kept as natural numbers.
-/

namespace Ds4.Server

open Ds4.Lib

/-! ## Data -/

/-- An address in the heap. -/
abbrev Addr := Nat

/-- `tool_memory_source`. -/
inductive ToolMemorySource
  | ram
  | disk
  deriving DecidableEq

/-- `tool_memory_block`. -/
structure ToolMemoryBlock where
  dsml : Bytes
  len : Nat
  bytes : Nat
  refs : Nat
  seen : UInt64
  entries : Option Addr

/-- `tool_memory_entry`. -/
structure ToolMemoryEntry where
  id : Bytes
  block : Option Addr
  bytes : Nat
  stamp : UInt64
  source : ToolMemorySource
  prev : Option Addr
  next : Option Addr
  blockNext : Option Addr

/-- `sizeof(tool_memory_block)`. -/
def blockSize : Nat := 48

/-- `sizeof(tool_memory_entry)`. -/
def entrySize : Nat := 64

/-- A radix tree: a finite map of byte strings to addresses. -/
abbrev Rax := Bytes → Option Addr

/-- `raxInsert`, which refuses a key that is there. -/
def raxInsert (t : Rax) (key : Bytes) (p : Addr) : Option Rax :=
  if t key = none then some (Function.update t key (some p)) else none

/-- `raxRemove`. -/
def raxRemove (t : Rax) (key : Bytes) : Rax := Function.update t key none

/-- `tool_memory` with the heap objects that it owns. -/
structure ToolMemory where
  byId : Rax
  byBlock : Rax
  head : Option Addr
  tail : Option Addr
  entries : Nat
  maxEntries : Int
  bytes : Nat
  maxBytes : Nat
  clock : UInt64
  scanClock : UInt64
  /-- The live entries. -/
  entryAt : Addr → Option ToolMemoryEntry
  /-- The live blocks. -/
  blockAt : Addr → Option ToolMemoryBlock
  /-- The allocator hands out addresses from here on. -/
  brk : Addr

namespace ToolMemory

/-- The memory before the first put. -/
def empty (maxEntries : Int) (maxBytes : Nat) : ToolMemory where
  byId _ := none
  byBlock _ := none
  head := none
  tail := none
  entries := 0
  maxEntries := maxEntries
  bytes := 0
  maxBytes := maxBytes
  clock := 0
  scanClock := 0
  entryAt _ := none
  blockAt _ := none
  brk := 0

/-- A write through an entry pointer. -/
def modifyEntry (m : ToolMemory) (p : Addr) (f : ToolMemoryEntry → ToolMemoryEntry) :
    Option ToolMemory :=
  (m.entryAt p).map fun e => { m with entryAt := Function.update m.entryAt p (some (f e)) }

/-- A write through a block pointer. -/
def modifyBlock (m : ToolMemory) (q : Addr) (f : ToolMemoryBlock → ToolMemoryBlock) :
    Option ToolMemory :=
  (m.blockAt q).map fun b => { m with blockAt := Function.update m.blockAt q (some (f b)) }

end ToolMemory

open ToolMemory

/-- `tool_memory_max_entries`. -/
def toolMemoryMaxEntries (m : ToolMemory) : Nat :=
  if m.maxEntries > 0 then m.maxEntries.toNat else 100000

/-- `DS4_TOOL_MEMORY_MAX_BYTES`. -/
def toolMemoryMaxBytesDefault : Nat := 512 * 1024 * 1024

/-- `tool_memory_max_bytes`. -/
def toolMemoryMaxBytes (m : ToolMemory) : Nat :=
  if m.maxBytes > 0 then m.maxBytes else toolMemoryMaxBytesDefault

/-! ## The list of recent use -/

/-- `if (q) q->next = v; else m->head = v`. -/
def setNextOrHead (m : ToolMemory) (q v : Option Addr) : Option ToolMemory :=
  match q with
  | some q => m.modifyEntry q fun x => { x with next := v }
  | none => some { m with head := v }

/-- `if (q) q->prev = v; else m->tail = v`. -/
def setPrevOrTail (m : ToolMemory) (q v : Option Addr) : Option ToolMemory :=
  match q with
  | some q => m.modifyEntry q fun x => { x with prev := v }
  | none => some { m with tail := v }

/-- `tool_memory_link_head`. -/
def toolMemoryLinkHead (m : ToolMemory) (p : Addr) : Option ToolMemory := do
  let m ← m.modifyEntry p fun e => { e with prev := none, next := m.head }
  let m ← setPrevOrTail m m.head (some p)
  return { m with head := some p }

/-- `tool_memory_unlink`. -/
def toolMemoryUnlink (m : ToolMemory) (p : Addr) : Option ToolMemory := do
  let e ← m.entryAt p
  let m ← setNextOrHead m e.prev e.next
  let e ← m.entryAt p
  let m ← setPrevOrTail m e.next e.prev
  m.modifyEntry p fun x => { x with prev := none, next := none }

/-- `tool_memory_touch`. -/
def toolMemoryTouch (m : ToolMemory) (p : Addr) : Option ToolMemory := do
  let m := { m with clock := m.clock + 1 }
  let m ← m.modifyEntry p fun e => { e with stamp := m.clock }
  if m.head = some p then
    return m
  let m ← toolMemoryUnlink m p
  toolMemoryLinkHead m p

/-! ## Blocks -/

/-- Reads `*p` of `tool_block_unlink_entry`: `p` is `&b->entries` or the `&x->block_next` of an entry. -/
def blockSlot (m : ToolMemory) (q : Addr) : Option Addr → Option (Option Addr)
  | none => (m.blockAt q).map (·.entries)
  | some x => (m.entryAt x).map (·.blockNext)

/-- Writes `*p`. -/
def setBlockSlot (m : ToolMemory) (q : Addr) (slot v : Option Addr) : Option ToolMemory :=
  match slot with
  | none => m.modifyBlock q fun b => { b with entries := v }
  | some x => m.modifyEntry x fun e => { e with blockNext := v }

/-- The loop of `tool_block_unlink_entry`. -/
def toolBlockUnlinkLoop (m : ToolMemory) (q p : Addr) : Nat → Option Addr → Option ToolMemory
  | 0, _ => none
  | fuel + 1, slot => do
    match ← blockSlot m q slot with
    | none => return m
    | some x =>
      if x = p then
        let e ← m.entryAt p
        let m ← setBlockSlot m q slot e.blockNext
        m.modifyEntry p fun e => { e with blockNext := none }
      else
        toolBlockUnlinkLoop m q p fuel (some x)

/-- `tool_block_unlink_entry`. No list is longer than the heap. -/
def toolBlockUnlinkEntry (m : ToolMemory) (q p : Addr) : Option ToolMemory :=
  toolBlockUnlinkLoop m q p (m.brk + 1) none

/-- `if (e->block) tool_block_unlink_entry(e->block, e)`. -/
def unlinkFromBlock (m : ToolMemory) (q : Option Addr) (p : Addr) : Option ToolMemory :=
  match q with
  | some q => toolBlockUnlinkEntry m q p
  | none => some m

/-- `tool_memory_find_block_locked`. -/
def toolMemoryFindBlockLocked (m : ToolMemory) (dsml : Bytes) : Option Addr :=
  if dsml = [] then none else m.byBlock dsml

/-- `tool_memory_get_block_locked`. -/
def toolMemoryGetBlockLocked (m : ToolMemory) (dsml : Bytes) : Option (ToolMemory × Addr) :=
  match toolMemoryFindBlockLocked m dsml with
  | some q => some (m, q)
  | none => do
    let b : ToolMemoryBlock :=
      { dsml := dsml
        len := dsml.length
        bytes := dsml.length + 1 + blockSize
        refs := 0
        seen := 0
        entries := none }
    let byBlock ← raxInsert m.byBlock b.dsml m.brk
    return ({ m with
      byBlock := byBlock
      blockAt := Function.update m.blockAt m.brk (some b)
      brk := m.brk + 1
      bytes := m.bytes + b.bytes }, m.brk)

/-- `tool_memory_release_block_locked`. -/
def toolMemoryReleaseBlockLocked (m : ToolMemory) : Option Addr → Option ToolMemory
  | none => some m
  | some q => do
    let m ← m.modifyBlock q fun b => { b with refs := b.refs - 1 }
    let b ← m.blockAt q
    if b.refs > 0 then
      return m
    return { m with
      byBlock := raxRemove m.byBlock b.dsml
      bytes := m.bytes - b.bytes
      blockAt := Function.update m.blockAt q none }

/-! ## Entries -/

/-- `tool_memory_remove_entry_locked`. -/
def toolMemoryRemoveEntryLocked (m : ToolMemory) (p : Addr) : Option ToolMemory := do
  let e ← m.entryAt p
  let m := { m with byId := raxRemove m.byId e.id }
  let m ← toolMemoryUnlink m p
  let m ← unlinkFromBlock m e.block p
  let m := { m with bytes := m.bytes - e.bytes, entries := m.entries - 1 }
  let m ← toolMemoryReleaseBlockLocked m e.block
  return { m with entryAt := Function.update m.entryAt p none }

/-- The test of `tool_memory_prune_locked`. -/
def overLimits (m : ToolMemory) : Bool :=
  decide (m.entries > toolMemoryMaxEntries m) || decide (m.bytes > toolMemoryMaxBytes m)

/-- The loop of `tool_memory_prune_locked`. -/
def toolMemoryPruneLoop : Nat → ToolMemory → Option ToolMemory
  | 0, _ => none
  | fuel + 1, m =>
    if overLimits m then
      match m.tail with
      | some p => do
        let m ← toolMemoryRemoveEntryLocked m p
        toolMemoryPruneLoop fuel m
      | none => some m
    else
      some m

/-- `tool_memory_prune_locked`. Every round frees an entry. -/
def toolMemoryPruneLocked (m : ToolMemory) : Option ToolMemory :=
  toolMemoryPruneLoop (m.entries + 1) m

/-- `tool_memory_find_entry_locked`. -/
def toolMemoryFindEntryLocked (m : ToolMemory) (id : Bytes) : Option Addr :=
  if id = [] then none else m.byId id

/-- The tail of `tool_memory_put_locked`: a new entry of the block with this text. -/
def toolMemoryInsertLocked (m : ToolMemory) (id dsml : Bytes) (source : ToolMemorySource) :
    Option ToolMemory := do
  let (m, q) ← toolMemoryGetBlockLocked m dsml
  let b ← m.blockAt q
  let e : ToolMemoryEntry :=
    { id := id
      block := some q
      bytes := id.length + 1 + entrySize
      stamp := m.clock + 1
      source := source
      prev := none
      next := none
      blockNext := b.entries }
  let p := m.brk
  let m := { m with
    clock := m.clock + 1
    entryAt := Function.update m.entryAt p (some e)
    brk := p + 1 }
  let m ← m.modifyBlock q fun b => { b with entries := some p, refs := b.refs + 1 }
  let byId ← raxInsert m.byId e.id p
  let m ← toolMemoryLinkHead { m with byId := byId } p
  toolMemoryPruneLocked { m with entries := m.entries + 1, bytes := m.bytes + e.bytes }

/-- `old` holds the text: `old->block->len == dsml_len && !memcmp(..)`. -/
def holdsText (m : ToolMemory) (e : ToolMemoryEntry) (dsml : Bytes) : Option Bool :=
  match e.block with
  | none => some false
  | some q => (m.blockAt q).map fun b => b.len == dsml.length && b.dsml == dsml

/-- The path of `tool_memory_put_locked` for an entry that holds the text. -/
def toolMemoryRefreshLocked (m : ToolMemory) (p : Addr) (source : ToolMemorySource) :
    Option ToolMemory := do
  let m ← m.modifyEntry p fun e =>
    { e with source := if source = .ram then .ram else e.source }
  let m ← toolMemoryTouch m p
  toolMemoryPruneLocked m

/-- `tool_memory_put_locked`. -/
def toolMemoryPutLocked (m : ToolMemory) (id dsml : Bytes) (source : ToolMemorySource) :
    Option ToolMemory :=
  if id = [] ∨ dsml = [] then
    some m
  else
    match toolMemoryFindEntryLocked m id with
    | none => toolMemoryInsertLocked m id dsml source
    | some p => do
      let old ← m.entryAt p
      if ← holdsText m old dsml then
        toolMemoryRefreshLocked m p source
      else
        let m ← toolMemoryRemoveEntryLocked m p
        toolMemoryInsertLocked m id dsml source

/-- `tool_memory_lookup_locked`: the text, its source and its block. -/
def toolMemoryLookupLocked (m : ToolMemory) (id : Bytes) :
    Option (ToolMemory × Option (Bytes × ToolMemorySource × Addr)) :=
  match toolMemoryFindEntryLocked m id with
  | none => some (m, none)
  | some p => do
    let e ← m.entryAt p
    match e.block with
    | none => return (m, none)
    | some q =>
      let m ← toolMemoryTouch m p
      let e ← m.entryAt p
      let b ← m.blockAt q
      return (m, some (b.dsml, e.source, q))

/-! ## Runs -/

/-- A call on a tool memory. -/
inductive ToolMemoryCall
  | put (id dsml : Bytes) (source : ToolMemorySource)
  | lookup (id : Bytes)
  | prune

/-- A call and the text that it returns. -/
def ToolMemoryCall.run (m : ToolMemory) : ToolMemoryCall → Option (ToolMemory × Option Bytes)
  | .put id dsml source => (toolMemoryPutLocked m id dsml source).map fun m => (m, none)
  | .lookup id => (toolMemoryLookupLocked m id).map fun r => (r.1, r.2.map (·.1))
  | .prune => (toolMemoryPruneLocked m).map fun m => (m, none)

/-- A sequence of calls. -/
def runToolMemory (m : ToolMemory) : List ToolMemoryCall → Option ToolMemory
  | [] => some m
  | c :: cs => do
    let r ← c.run m
    runToolMemory r.1 cs

end Ds4.Server
