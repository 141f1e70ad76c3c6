import Ds4.Server.ToolLists

/-!
# The invariant of the tool memory

`Coherent m l blocks` says that `l` are the entries in the order of recent use and `blocks` the
blocks, and that the maps, lists, counts and byte totals of `m` agree with them. Steps on the list
of recent use keep it (`CoherentBut.reorder`, `toolMemoryTouch_spec`).
-/

namespace Ds4.Server

open Ds4.Lib

/-- What the memory remembers under one id. -/
structure ToolItem where
  id : Bytes
  dsml : Bytes
  source : ToolMemorySource
  deriving DecidableEq

/-- The fields of an entry that the list of recent use does not change. -/
def ToolMemoryEntry.core (e : ToolMemoryEntry) : ToolMemoryEntry :=
  { e with stamp := 0, source := .ram, prev := none, next := none }

namespace ToolMemory

/-! ## The invariant -/

/-- The bytes counted for an entry. -/
def entryBytes (m : ToolMemory) (p : Addr) : Nat := (m.entryAt p).elim 0 (·.bytes)

/-- The bytes counted for a block. -/
def blockBytes (m : ToolMemory) (q : Addr) : Nat := (m.blockAt q).elim 0 (·.bytes)

/-- What the memory remembers with the entry at `p`. -/
def item (m : ToolMemory) (p : Addr) : Option ToolItem := do
  let e ← m.entryAt p
  let q ← e.block
  let b ← m.blockAt q
  return { id := e.id, dsml := b.dsml, source := e.source }

/-- What an entry of the memory holds. -/
structure EntryOk (m : ToolMemory) (e : ToolMemoryEntry) : Prop where
  id_ne : e.id ≠ []
  bytes : e.bytes = e.id.length + 1 + entrySize
  block : ∃ q b, e.block = some q ∧ m.blockAt q = some b

/-- What block `q` of the memory holds: `own` is its list, all entries that point to it. -/
structure BlockOk (m : ToolMemory) (own : List Addr) (q : Addr) (b : ToolMemoryBlock) : Prop where
  dsml_ne : b.dsml ≠ []
  len : b.len = b.dsml.length
  bytes : b.bytes = b.dsml.length + 1 + blockSize
  refs : b.refs = own.length
  nodup : own.Nodup
  chain : Chain m.blockNext b.entries own
  mem : ∀ p, p ∈ own ↔ ∃ e, m.entryAt p = some e ∧ e.block = some q

/-- The invariant, where only block `spare` may be without entries. -/
structure CoherentBut (spare : Option Addr) (m : ToolMemory) (l blocks : List Addr) : Prop where
  /-- The list of recent use is a doubly linked list of the entries, each once. -/
  dll : m.links.Dll l
  mem : ∀ p, p ∈ l ↔ m.Live p
  blocks_nodup : blocks.Nodup
  mem_blocks : ∀ q, q ∈ blocks ↔ ∃ b, m.blockAt q = some b
  entry_ok : ∀ p e, m.entryAt p = some e → EntryOk m e
  block_ok : ∀ q b, m.blockAt q = some b → ∃ own, BlockOk m own q b ∧ (some q ≠ spare → own ≠ [])
  /-- The id map holds exactly the entries, under their ids. -/
  byId : ∀ id p, m.byId id = some p ↔ ∃ e, m.entryAt p = some e ∧ e.id = id
  /-- The text map holds exactly the blocks, under their texts. -/
  byBlock : ∀ d q, m.byBlock d = some q ↔ ∃ b, m.blockAt q = some b ∧ b.dsml = d
  entries : m.entries = l.length
  bytes : m.bytes = (l.map m.entryBytes).sum + (blocks.map m.blockBytes).sum
  entry_lt : ∀ p e, m.entryAt p = some e → p < m.brk
  block_lt : ∀ q b, m.blockAt q = some b → q < m.brk

/-- **The invariant.** -/
abbrev Coherent (m : ToolMemory) (l blocks : List Addr) : Prop := CoherentBut none m l blocks

theorem coherent_empty (maxEntries : Int) (maxBytes : Nat) :
    Coherent (empty maxEntries maxBytes) [] [] where
  dll := ⟨List.nodup_nil, rfl, rfl⟩
  mem := by simp [Live, empty]
  blocks_nodup := List.nodup_nil
  mem_blocks := by simp [empty]
  entry_ok := by simp [empty]
  block_ok := by simp [empty]
  byId := by simp [empty]
  byBlock := by simp [empty]
  entries := rfl
  bytes := rfl
  entry_lt := by simp [empty]
  block_lt := by simp [empty]

variable {spare : Option Addr} {m m' : ToolMemory} {l l' a c blocks : List Addr} {p q : Addr}

namespace CoherentBut

theorem live (h : CoherentBut spare m l blocks) (hp : p ∈ l) : ∃ e, m.entryAt p = some e :=
  live_iff.1 ((h.mem p).mp hp)

theorem id_inj (h : CoherentBut spare m l blocks) {e e' : ToolMemoryEntry}
    (he : m.entryAt p = some e) (he' : m.entryAt q = some e') (hid : e.id = e'.id) : p = q := by
  have hp := (h.byId e.id p).mpr ⟨e, he, rfl⟩
  have hq := (h.byId e.id q).mpr ⟨e', he', hid.symm⟩
  exact Option.some.inj (hp.symm.trans hq)

theorem dsml_inj (h : CoherentBut spare m l blocks) {b b' : ToolMemoryBlock}
    (hb : m.blockAt p = some b) (hb' : m.blockAt q = some b') (hd : b.dsml = b'.dsml) : p = q := by
  have hp := (h.byBlock b.dsml p).mpr ⟨b, hb, rfl⟩
  have hq := (h.byBlock b.dsml q).mpr ⟨b', hb', hd.symm⟩
  exact Option.some.inj (hp.symm.trans hq)

theorem length_le (h : CoherentBut spare m l blocks) {own : List Addr} (hnd : own.Nodup)
    (hlive : ∀ x ∈ own, m.Live x) : own.length ≤ m.brk := by
  have hsub : own ⊆ List.range m.brk := fun x hx => by
    obtain ⟨e, he⟩ := live_iff.1 (hlive x hx)
    exact List.mem_range.mpr (h.entry_lt x e he)
  simpa using (hnd.subperm hsub).length_le

theorem entry_ne_brk (h : CoherentBut spare m l blocks) {e : ToolMemoryEntry}
    (he : m.entryAt p = some e) : p ≠ m.brk := (h.entry_lt p e he).ne

theorem block_ne_brk (h : CoherentBut spare m l blocks) {b : ToolMemoryBlock}
    (hb : m.blockAt q = some b) : q ≠ m.brk := (h.block_lt q b hb).ne

theorem brk_not_mem (h : CoherentBut spare m l blocks) : m.brk ∉ l := fun hmem => by
  obtain ⟨e, he⟩ := h.live hmem
  exact h.entry_ne_brk he rfl

end CoherentBut

/-! ## Steps that move entries in the list of recent use -/

/-- The two memories differ in the list of recent use, stamps and sources only. -/
structure SameCore (m m' : ToolMemory) : Prop where
  byId : m'.byId = m.byId
  byBlock : m'.byBlock = m.byBlock
  entries : m'.entries = m.entries
  bytes : m'.bytes = m.bytes
  brk : m'.brk = m.brk
  maxEntries : m'.maxEntries = m.maxEntries
  maxBytes : m'.maxBytes = m.maxBytes
  blockAt : m'.blockAt = m.blockAt
  entryAt : ∀ p, (m'.entryAt p).map ToolMemoryEntry.core = (m.entryAt p).map ToolMemoryEntry.core

namespace SameCore

theorem trans {m'' : ToolMemory} (h : SameCore m m') (h' : SameCore m' m'') : SameCore m m'' :=
  ⟨h'.byId.trans h.byId, h'.byBlock.trans h.byBlock, h'.entries.trans h.entries,
    h'.bytes.trans h.bytes, h'.brk.trans h.brk, h'.maxEntries.trans h.maxEntries,
    h'.maxBytes.trans h.maxBytes, h'.blockAt.trans h.blockAt,
    fun p => (h'.entryAt p).trans (h.entryAt p)⟩

theorem symm (h : SameCore m m') : SameCore m' m :=
  ⟨h.byId.symm, h.byBlock.symm, h.entries.symm, h.bytes.symm, h.brk.symm, h.maxEntries.symm,
    h.maxBytes.symm, h.blockAt.symm, fun p => (h.entryAt p).symm⟩

theorem get (h : SameCore m m') {e : ToolMemoryEntry} (he : m.entryAt p = some e) :
    ∃ e', m'.entryAt p = some e' ∧ e'.id = e.id ∧ e'.block = e.block ∧ e'.bytes = e.bytes ∧
      e'.blockNext = e.blockNext := by
  have hp := h.entryAt p
  rw [he, Option.map_some, Option.map_eq_some_iff] at hp
  obtain ⟨e', he', hcore⟩ := hp
  simp only [ToolMemoryEntry.core, ToolMemoryEntry.mk.injEq] at hcore
  exact ⟨e', he', hcore.1, hcore.2.1, hcore.2.2.1, hcore.2.2.2.2.2.2.2⟩

theorem live (h : SameCore m m') : m'.Live p ↔ m.Live p := by
  have hp := congrArg Option.isSome (h.entryAt p)
  rw [Option.isSome_map, Option.isSome_map] at hp
  rw [Live, hp, Live]

theorem blockNext (h : SameCore m m') : m'.blockNext = m.blockNext := by
  funext p
  cases he : m.entryAt p with
  | none =>
    have : m'.entryAt p = none := by simpa [he] using h.entryAt p
    simp [ToolMemory.blockNext, he, this]
  | some e =>
    obtain ⟨e', he', -, -, -, hn⟩ := h.get he
    simp [ToolMemory.blockNext, he, he', hn]

theorem entryBytes (h : SameCore m m') : m'.entryBytes = m.entryBytes := by
  funext p
  cases he : m.entryAt p with
  | none =>
    have : m'.entryAt p = none := by simpa [he] using h.entryAt p
    simp [ToolMemory.entryBytes, he, this]
  | some e =>
    obtain ⟨e', he', -, -, hb, -⟩ := h.get he
    simp [ToolMemory.entryBytes, he, he', hb]

theorem exists_iff (h : SameCore m m') {P : Bytes → Option Addr → Prop} :
    (∃ e, m'.entryAt p = some e ∧ P e.id e.block) ↔ ∃ e, m.entryAt p = some e ∧ P e.id e.block := by
  constructor
  · rintro ⟨e, he, hP⟩
    obtain ⟨e', he', hid, hblock, -⟩ := h.symm.get he
    exact ⟨e', he', hid ▸ hblock ▸ hP⟩
  · rintro ⟨e, he, hP⟩
    obtain ⟨e', he', hid, hblock, -⟩ := h.get he
    exact ⟨e', he', hid ▸ hblock ▸ hP⟩

end SameCore

theorem CoherentBut.reorder (h : CoherentBut spare m l blocks) (hs : SameCore m m')
    (hdll : m'.links.Dll l') (hperm : l'.Perm l) : CoherentBut spare m' l' blocks where
  dll := hdll
  mem p := by rw [hperm.mem_iff, h.mem, hs.live]
  blocks_nodup := h.blocks_nodup
  mem_blocks := by simpa [hs.blockAt] using h.mem_blocks
  entry_ok p e he := by
    obtain ⟨e', he', hid, hblock, hbytes, -⟩ := hs.symm.get he
    have hok := h.entry_ok p e' he'
    exact ⟨hid ▸ hok.id_ne, hid ▸ hbytes ▸ hok.bytes, by simpa [← hblock, hs.blockAt] using hok.block⟩
  block_ok q b hb := by
    obtain ⟨own, hown, href⟩ := h.block_ok q b (hs.blockAt ▸ hb)
    exact ⟨own, { hown with
      chain := hs.blockNext ▸ hown.chain
      mem := fun p => (hown.mem p).trans (hs.exists_iff (P := fun _ b => b = some q)).symm }, href⟩
  byId id p := by
    rw [hs.byId, h.byId]
    exact (hs.exists_iff (P := fun i _ => i = id)).symm
  byBlock := by simpa [hs.byBlock, hs.blockAt] using h.byBlock
  entries := by rw [hs.entries, h.entries, hperm.length_eq]
  bytes := by
    have hblocks : m'.blockBytes = m.blockBytes := by
      funext q
      simp [blockBytes, hs.blockAt]
    rw [hs.bytes, h.bytes, hs.entryBytes, hblocks, (hperm.map m.entryBytes).sum_eq]
  entry_lt p e he := by
    obtain ⟨e', he', -⟩ := hs.symm.get he
    exact hs.brk ▸ h.entry_lt p e' he'
  block_lt q b hb := hs.brk ▸ h.block_lt q b (hs.blockAt ▸ hb)

theorem sameCore_relink (m : ToolMemory) (L : Links) : SameCore m (m.relink L) where
  byId := rfl
  byBlock := rfl
  entries := rfl
  bytes := rfl
  brk := rfl
  maxEntries := rfl
  maxBytes := rfl
  blockAt := rfl
  entryAt p := by
    rw [relink_entryAt, Option.map_map]
    rfl

theorem item_relink (m : ToolMemory) (L : Links) (p : Addr) : (m.relink L).item p = m.item p := by
  cases h : m.entryAt p <;> simp [item, h, relink]

end ToolMemory

open ToolMemory

variable {spare : Option Addr} {m : ToolMemory} {l a c blocks : List Addr} {p : Addr}

/-- **Touching** moves an entry to the front. -/
theorem toolMemoryTouch_spec (h : CoherentBut spare m (a ++ p :: c) blocks) :
    ∃ m', toolMemoryTouch m p = some m' ∧ CoherentBut spare m' (p :: (a ++ c)) blocks ∧
      SameCore m m' ∧ ∀ x, m'.item x = m.item x := by
  obtain ⟨e, he⟩ := h.live (p := p) (by simp)
  set m₁ : ToolMemory := { m with
    clock := m.clock + 1
    entryAt := Function.update m.entryAt p (some { e with stamp := m.clock + 1 }) } with hm₁
  have hread : ∀ x, m₁.entryAt x = if x = p then some { e with stamp := m.clock + 1 }
      else m.entryAt x := fun x => by
    by_cases hx : x = p
    · subst hx
      simp [hm₁]
    · simp [hm₁, hx]
  have hcore : SameCore m m₁ := by
    refine ⟨rfl, rfl, rfl, rfl, rfl, rfl, rfl, rfl, fun x => ?_⟩
    by_cases hx : x = p
    · subst hx
      simp [hread, he, ToolMemoryEntry.core]
    · simp [hread, hx]
  have hlinks : m₁.links = m.links := by
    unfold links
    congr 1 <;>
    · funext x
      by_cases hx : x = p
      · subst hx
        simp [hread, he]
      · simp [hread, hx]
  have hitem : ∀ x, m₁.item x = m.item x := fun x => by
    by_cases hx : x = p
    · subst hx
      simp [item, he, hm₁]
    · simp [item, hx, hm₁]
  have hstep : toolMemoryTouch m p = if m₁.head = some p then some m₁ else
      (toolMemoryUnlink m₁ p).bind fun m => toolMemoryLinkHead m p := by
    simp only [toolMemoryTouch, modifyEntry, he, Option.map_some, Option.bind_eq_bind,
      Option.bind_some, Option.pure_def]
    rfl
  have hdll : m₁.links.Dll (a ++ p :: c) := hlinks ▸ h.dll
  have hlive : ∀ x, x ∈ a ++ p :: c → m₁.Live x := fun x hx => hcore.live.mpr ((h.mem x).mp hx)
  rw [hstep]
  split_ifs with hhead
  · have ha : a = [] := by
      have := hdll.head_eq
      cases a with
      | nil => rfl
      | cons x a =>
        have hxp : x = p := by
          have : some x = some p := this.symm.trans hhead
          exact Option.some.inj this
        have := hdll.nodup
        simp [hxp] at this
    subst ha
    exact ⟨m₁, rfl, h.reorder hcore hdll (List.Perm.refl _), hcore, hitem⟩
  · have hp : p ∉ a ++ c := (List.nodup_cons.mp (List.nodup_middle.mp hdll.nodup)).1
    have hunlink := hdll.unlink
    have hmem : ∀ x, x ∈ a ++ c → m₁.Live x := fun x hx => hlive x (by
      rcases List.mem_append.mp hx with hx | hx <;> simp [hx])
    have hl := toolMemoryLinkHead_relink (L := m₁.links.unlink p) (hlive p (by simp))
      fun q hq => hmem q (List.mem_of_head? (hunlink.head_eq ▸ hq))
    rw [toolMemoryUnlink_dll hdll hlive, Option.bind_some, hl]
    refine ⟨_, rfl, ?_, hcore.trans (sameCore_relink _ _), fun x => (item_relink _ _ _).trans (hitem x)⟩
    refine h.reorder (hcore.trans (sameCore_relink _ _)) (dll_relink (fun x hx => ?_)
      (hunlink.pushFront hp)) (List.perm_middle.symm)
    exact hlive x (by simpa [or_left_comm] using hx)

end Ds4.Server
