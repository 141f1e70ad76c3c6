import Ds4.Server.ToolCoherent

/-!
# Removing an entry of the tool memory

`tool_memory_remove_entry_locked` takes an entry out of the maps and lists, and frees its block with
the last entry. The result is the memory `removed`, which is coherent (`Removal.coherent_removed`).
-/

namespace Ds4.Server

open Ds4.Lib ToolMemory

variable {m : ToolMemory} {a c blocks : List Addr} {p : Addr}

/-- The memory without entry `p` of block `q`: `next` and `start` link the rest of the block. -/
def removed (m : ToolMemory) (p q : Addr) (e : ToolMemoryEntry) (b : ToolMemoryBlock)
    (next : Addr → Option Addr) (start : Option Addr) : ToolMemory :=
  { m with
    byId := raxRemove m.byId e.id
    byBlock := if b.refs - 1 > 0 then m.byBlock else raxRemove m.byBlock b.dsml
    head := (m.links.unlink p).head
    tail := (m.links.unlink p).tail
    entries := m.entries - 1
    bytes := m.bytes - e.bytes - (if b.refs - 1 > 0 then 0 else b.bytes)
    entryAt := fun x => if x = p then none else (m.entryAt x).map fun e => { e with
      prev := (m.links.unlink p).prev x
      next := (m.links.unlink p).next x
      blockNext := next x }
    blockAt := fun y => if y = q then
        (if b.refs - 1 > 0 then some { b with entries := start, refs := b.refs - 1 } else none)
      else m.blockAt y }

theorem toolMemoryRemoveEntryLocked_eq (h : Coherent m (a ++ p :: c) blocks) {e : ToolMemoryEntry}
    {q : Addr} {b : ToolMemoryBlock} {a' c' : List Addr} (he : m.entryAt p = some e)
    (hq : e.block = some q) (hb : m.blockAt q = some b) (hown : BlockOk m (a' ++ p :: c') q b) :
    ∃ next start, toolMemoryRemoveEntryLocked m p = some (removed m p q e b next start) ∧
      Chain next start (a' ++ c') ∧ ∀ x, x ∉ a' ++ p :: c' → next x = m.blockNext x := by
  have hlive : ∀ x ∈ a' ++ p :: c', m.Live x := fun x hx => by
    obtain ⟨e, he, -⟩ := (hown.mem x).mp hx
    exact live_iff.2 ⟨e, he⟩
  set m₁ : ToolMemory := { m with byId := raxRemove m.byId e.id } with hm₁
  set m₂ := m₁.relink (m.links.unlink p) with hm₂
  have hunlink : toolMemoryUnlink m₁ p = some m₂ :=
    toolMemoryUnlink_dll h.dll fun x hx => (h.mem x).mp hx
  have hcore : SameCore m₁ m₂ := sameCore_relink _ _
  have hnext : m₂.blockNext = m.blockNext := hcore.blockNext
  obtain ⟨next, start, hblock, hchain, hother⟩ := toolBlockUnlinkEntry_spec (m := m₂) (q := q) (b := b)
    hb (hnext.symm ▸ hown.chain) hown.nodup (fun x hx => hcore.live.mpr (hlive x hx))
    (h.length_le hown.nodup hlive)
  refine ⟨next, start, ?_, hchain, fun x hx => (hother x hx).trans (congrFun hnext x)⟩
  have hread : (m₂.setOwn q next start).blockAt q = some { b with entries := start } := by
    have : m₂.blockAt q = some b := hb
    simp [setOwn, this]
  simp only [toolMemoryRemoveEntryLocked, he, ← hm₁, hunlink, hq, unlinkFromBlock, hblock,
    toolMemoryReleaseBlockLocked, modifyBlock, hread, Option.map_some, Option.bind_eq_bind,
    Option.bind_some, Function.update_self, Option.pure_def]
  have hentry : Function.update (m₂.setOwn q next start).entryAt p none =
      (removed m p q e b next start).entryAt := by
    funext x
    by_cases hx : x = p
    · subst hx
      simp [removed]
    · simp [removed, hx, setOwn, hm₂, hm₁, Function.comp_def]
  split_ifs with href
  · simp only [Option.bind_some, hentry]
    unfold removed
    simp only [if_pos href]
    congr 2
    funext y
    by_cases hy : y = q
    · simp [hy]
    · simp [hy, setOwn, hm₂, hm₁]
  · simp only [Option.bind_some, hentry]
    unfold removed
    simp only [if_neg href]
    congr 2
    funext y
    by_cases hy : y = q
    · simp [hy]
    · simp [hy, setOwn, hm₂, hm₁]

/-- The removal of entry `p` from block `q`, whose list is `a' ++ p :: c'`. -/
structure Removal (m : ToolMemory) (a c blocks : List Addr) (p q : Addr) (e : ToolMemoryEntry)
    (b : ToolMemoryBlock) (a' c' : List Addr) (next : Addr → Option Addr) (start : Option Addr) :
    Prop where
  coherent : Coherent m (a ++ p :: c) blocks
  entry : m.entryAt p = some e
  points : e.block = some q
  block : m.blockAt q = some b
  own : BlockOk m (a' ++ p :: c') q b
  chain : Chain next start (a' ++ c')
  other : ∀ x, x ∉ a' ++ p :: c' → next x = m.blockNext x

namespace Removal

variable {q x : Addr} {e : ToolMemoryEntry} {b : ToolMemoryBlock} {a' c' : List Addr}
  {next : Addr → Option Addr} {start : Option Addr}

theorem get {e' : ToolMemoryEntry} (h : (removed m p q e b next start).entryAt x = some e') :
    x ≠ p ∧ ∃ e₀, m.entryAt x = some e₀ ∧ e'.id = e₀.id ∧ e'.block = e₀.block ∧
      e'.bytes = e₀.bytes ∧ e'.blockNext = next x := by
  simp only [removed] at h
  split_ifs at h with hx
  obtain ⟨e₀, he₀, rfl⟩ := Option.map_eq_some_iff.mp h
  exact ⟨hx, e₀, he₀, rfl, rfl, rfl, rfl⟩

variable (q e b next start) in
theorem get_of_ne {e₀ : ToolMemoryEntry} (hx : x ≠ p) (h : m.entryAt x = some e₀) :
    ∃ e', (removed m p q e b next start).entryAt x = some e' ∧ e'.id = e₀.id ∧
      e'.block = e₀.block ∧ e'.bytes = e₀.bytes ∧ e'.blockNext = next x ∧
      e'.prev = (m.links.unlink p).prev x ∧ e'.next = (m.links.unlink p).next x := by
  simp [removed, hx, h]

theorem blockNext (h : (removed m p q e b next start).Live x) :
    (removed m p q e b next start).blockNext x = next x := by
  obtain ⟨e', he'⟩ := live_iff.1 h
  obtain ⟨-, -, -, -, -, -, hn⟩ := get he'
  simp [ToolMemory.blockNext, he', hn]

variable (r : Removal m a c blocks p q e b a' c' next start)
include r

theorem not_mem : p ∉ a ++ c := (List.nodup_cons.mp (List.nodup_middle.mp r.coherent.dll.nodup)).1

theorem refs : b.refs - 1 = (a' ++ c').length := by
  rw [r.own.refs]
  simp

theorem mem_own : x ∈ a' ++ c' ↔ x ≠ p ∧ ∃ e, m.entryAt x = some e ∧ e.block = some q := by
  have hp := (List.nodup_cons.mp (List.nodup_middle.mp r.own.nodup)).1
  rw [← r.own.mem]
  constructor
  · intro hx
    refine ⟨fun h => hp (h ▸ hx), ?_⟩
    rcases List.mem_append.mp hx with hx | hx <;> simp [hx]
  · rintro ⟨hx, hmem⟩
    simpa [hx] using hmem

theorem get_of_mem (hx : x ∈ a ++ c) : ∃ e₀, m.entryAt x = some e₀ ∧ x ≠ p := by
  obtain ⟨e₀, he₀⟩ := r.coherent.live (p := x) (by
    rcases List.mem_append.mp hx with hx | hx <;> simp [hx])
  exact ⟨e₀, he₀, fun h => r.not_mem (h ▸ hx)⟩

theorem mem : x ∈ a ++ c ↔ (removed m p q e b next start).Live x := by
  constructor
  · intro hx
    obtain ⟨e₀, he₀, hxp⟩ := r.get_of_mem hx
    obtain ⟨e', he', -⟩ := get_of_ne q e b next start hxp he₀
    exact live_iff.2 ⟨e', he'⟩
  · intro hx
    obtain ⟨e', he'⟩ := live_iff.1 hx
    obtain ⟨hxp, e₀, he₀, -⟩ := get he'
    have := (r.coherent.mem x).mpr (live_iff.2 ⟨e₀, he₀⟩)
    simpa [hxp] using this

theorem dll : (removed m p q e b next start).links.Dll (a ++ c) := by
  have hunlink := r.coherent.dll.unlink
  refine ⟨hunlink.nodup, hunlink.forward.congr fun x hx => ?_,
    hunlink.backward.congr fun x hx => ?_⟩
  · obtain ⟨e₀, he₀, hxp⟩ := r.get_of_mem hx
    obtain ⟨e', he', -, -, -, -, -, hn⟩ := get_of_ne q e b next start hxp he₀
    simp [links, he', hn]
  · obtain ⟨e₀, he₀, hxp⟩ := r.get_of_mem (List.mem_reverse.mp hx)
    obtain ⟨e', he', -, -, -, -, hp', -⟩ := get_of_ne q e b next start hxp he₀
    simp [links, he', hp']

theorem kept {q' : Addr} {e₀ : ToolMemoryEntry} (hx : x ≠ p) (he₀ : m.entryAt x = some e₀)
    (hq' : e₀.block = some q') (hqq : q' = q) : b.refs - 1 > 0 := by
  rw [r.refs]
  exact List.length_pos_of_mem (r.mem_own.mpr ⟨hx, e₀, he₀, hqq ▸ hq'⟩)

theorem entry_ok {e' : ToolMemoryEntry} (h : (removed m p q e b next start).entryAt x = some e') :
    EntryOk (removed m p q e b next start) e' := by
  obtain ⟨hxp, e₀, he₀, hid, hblock, hbytes, -⟩ := get h
  have hok := r.coherent.entry_ok x e₀ he₀
  obtain ⟨q', b', hq', hb'⟩ := hok.block
  refine ⟨hid ▸ hok.id_ne, by rw [hbytes, hid, hok.bytes], ?_⟩
  by_cases hqq : q' = q
  · have href := r.kept hxp he₀ hq' hqq
    exact ⟨q', { b with entries := start, refs := b.refs - 1 }, hblock ▸ hq',
      by simp [removed, hqq, href]⟩
  · exact ⟨q', b', hblock ▸ hq', by simp [removed, hqq, hb']⟩

theorem block_rest : BlockOk (removed m p q e b next start) (a' ++ c') q
    { b with entries := start, refs := b.refs - 1 } := by
  refine ⟨r.own.dsml_ne, r.own.len, r.own.bytes, r.refs,
    (List.nodup_cons.mp (List.nodup_middle.mp r.own.nodup)).2, r.chain.congr fun x hx => ?_, ?_⟩
  · obtain ⟨hxp, e₀, he₀, -⟩ := r.mem_own.mp hx
    obtain ⟨e', he', -⟩ := get_of_ne q e b next start hxp he₀
    exact (blockNext (live_iff.2 ⟨e', he'⟩)).symm
  · intro x
    rw [r.mem_own]
    constructor
    · rintro ⟨hxp, e₀, he₀, hblock⟩
      obtain ⟨e', he', -, hblock', -⟩ := get_of_ne q e b next start hxp he₀
      exact ⟨e', he', hblock' ▸ hblock⟩
    · rintro ⟨e', he', hblock'⟩
      obtain ⟨hxp, e₀, he₀, -, hblock, -⟩ := get he'
      exact ⟨hxp, e₀, he₀, hblock ▸ hblock'⟩

theorem block_other {y : Addr} {b' : ToolMemoryBlock} {own : List Addr} (hy : y ≠ q)
    (hok : BlockOk m own y b') : BlockOk (removed m p q e b next start) own y b' := by
  -- two blocks share no entry
  have hdisj : ∀ x ∈ own, x ∉ a' ++ p :: c' := fun x hx hx' => by
    obtain ⟨e₁, he₁, hb₁⟩ := (hok.mem x).mp hx
    obtain ⟨e₂, he₂, hb₂⟩ := (r.own.mem x).mp hx'
    obtain rfl := Option.some.inj (he₁.symm.trans he₂)
    exact hy (Option.some.inj (hb₁.symm.trans hb₂))
  have hne : ∀ x ∈ own, x ≠ p := fun x hx hxp => hdisj x hx (by simp [hxp])
  refine ⟨hok.dsml_ne, hok.len, hok.bytes, hok.refs, hok.nodup, hok.chain.congr fun x hx => ?_, ?_⟩
  · obtain ⟨e₀, he₀, -⟩ := (hok.mem x).mp hx
    obtain ⟨e', he', -⟩ := get_of_ne q e b next start (hne x hx) he₀
    rw [blockNext (live_iff.2 ⟨e', he'⟩), r.other x (hdisj x hx)]
  · intro x
    constructor
    · intro hx
      obtain ⟨e₀, he₀, hblock⟩ := (hok.mem x).mp hx
      obtain ⟨e', he', -, hblock', -⟩ := get_of_ne q e b next start (hne x hx) he₀
      exact ⟨e', he', hblock' ▸ hblock⟩
    · rintro ⟨e', he', hblock'⟩
      obtain ⟨-, e₀, he₀, -, hblock, -⟩ := get he'
      exact (hok.mem x).mpr ⟨e₀, he₀, hblock ▸ hblock'⟩

theorem byId (id : Bytes) : (removed m p q e b next start).byId id = some x ↔
    ∃ e', (removed m p q e b next start).entryAt x = some e' ∧ e'.id = id := by
  have hread : (removed m p q e b next start).byId = Function.update m.byId e.id none := rfl
  rw [hread]
  by_cases hid : id = e.id
  · subst hid
    simp only [Function.update_self, reduceCtorEq, false_iff]
    rintro ⟨e', he', hid'⟩
    obtain ⟨hxp, e₀, he₀, hid₀, -⟩ := get he'
    exact hxp (r.coherent.id_inj he₀ r.entry (hid₀ ▸ hid'))
  · rw [Function.update_of_ne hid, r.coherent.byId]
    constructor
    · rintro ⟨e₀, he₀, hid₀⟩
      have hxp : x ≠ p := by
        rintro rfl
        obtain rfl := Option.some.inj (r.entry.symm.trans he₀)
        exact hid hid₀.symm
      obtain ⟨e', he', hid', -⟩ := get_of_ne q e b next start hxp he₀
      exact ⟨e', he', hid' ▸ hid₀⟩
    · rintro ⟨e', he', hid'⟩
      obtain ⟨-, e₀, he₀, hid₀, -⟩ := get he'
      exact ⟨e₀, he₀, hid₀ ▸ hid'⟩

theorem byBlock (d : Bytes) (y : Addr) : (removed m p q e b next start).byBlock d = some y ↔
    ∃ b', (removed m p q e b next start).blockAt y = some b' ∧ b'.dsml = d := by
  by_cases href : b.refs - 1 > 0
  · have hread : (removed m p q e b next start).byBlock = m.byBlock := if_pos href
    rw [hread, r.coherent.byBlock]
    by_cases hy : y = q
    · subst hy
      simp [removed, href, r.block]
    · simp [removed, hy]
  · have hread : (removed m p q e b next start).byBlock = Function.update m.byBlock b.dsml none :=
      if_neg href
    rw [hread]
    by_cases hd : d = b.dsml
    · subst hd
      simp only [Function.update_self, reduceCtorEq, false_iff]
      rintro ⟨b', hb', hd'⟩
      by_cases hy : y = q
      · simp [removed, hy, href] at hb'
      · exact hy (r.coherent.dsml_inj (by simpa [removed, hy] using hb') r.block hd')
    · rw [Function.update_of_ne hd, r.coherent.byBlock]
      by_cases hy : y = q
      · subst hy
        simp [removed, href, r.block, Ne.symm hd]
      · simp [removed, hy]

theorem bytes : (removed m p q e b next start).bytes =
    ((a ++ c).map (removed m p q e b next start).entryBytes).sum +
      ((if b.refs - 1 > 0 then blocks else blocks.erase q).map
        (removed m p q e b next start).blockBytes).sum := by
  have hentries : (a ++ c).map (removed m p q e b next start).entryBytes =
      (a ++ c).map m.entryBytes := List.map_congr_left fun x hx => by
    obtain ⟨e₀, he₀, hxp⟩ := r.get_of_mem hx
    obtain ⟨e', he', -, -, hbytes, -⟩ := get_of_ne q e b next start hxp he₀
    simp [entryBytes, he', he₀, hbytes]
  have hp : m.entryBytes p = e.bytes := by simp [entryBytes, r.entry]
  have hq : m.blockBytes q = b.bytes := by simp [blockBytes, r.block]
  have hqmem : q ∈ blocks := (r.coherent.mem_blocks q).mpr ⟨b, r.block⟩
  have hsum := r.coherent.bytes
  have hsplit := List.sum_map_erase m.blockBytes hqmem
  simp only [List.map_append, List.map_cons, List.sum_append, List.sum_cons, hp] at hsum
  rw [hentries, List.map_append, List.sum_append]
  by_cases href : b.refs - 1 > 0
  · have hblocks : blocks.map (removed m p q e b next start).blockBytes =
        blocks.map m.blockBytes := List.map_congr_left fun y _ => by
      by_cases hy : y = q
      · subst hy
        simp [blockBytes, removed, href, r.block]
      · simp [blockBytes, removed, hy]
    rw [if_pos href, hblocks]
    simp only [removed, if_pos href]
    omega
  · have hblocks : (blocks.erase q).map (removed m p q e b next start).blockBytes =
        (blocks.erase q).map m.blockBytes := List.map_congr_left fun y hy => by
      have hy := (r.coherent.blocks_nodup.mem_erase_iff.mp hy).1
      simp [blockBytes, removed, hy]
    rw [if_neg href, hblocks]
    simp only [removed, if_neg href]
    omega

theorem coherent_removed : Coherent (removed m p q e b next start) (a ++ c)
    (if b.refs - 1 > 0 then blocks else blocks.erase q) where
  dll := r.dll
  mem _ := r.mem
  blocks_nodup := by
    split_ifs
    · exact r.coherent.blocks_nodup
    · exact r.coherent.blocks_nodup.erase q
  mem_blocks y := by
    by_cases hy : y = q <;> by_cases href : b.refs - 1 > 0 <;>
      simp [removed, href, r.coherent.blocks_nodup.mem_erase_iff, r.coherent.mem_blocks, hy, r.block]
  entry_ok _ _ := r.entry_ok
  block_ok y b' hb' := by
    by_cases hy : y = q
    · subst hy
      simp only [removed, if_true] at hb'
      split_ifs at hb' with href
      obtain rfl := Option.some.inj hb'
      exact ⟨a' ++ c', r.block_rest, fun _ => List.length_pos_iff.mp (r.refs ▸ href)⟩
    · obtain ⟨own, hok, href⟩ := r.coherent.block_ok y b' (by simpa [removed, hy] using hb')
      exact ⟨own, r.block_other hy hok, href⟩
  byId id _ := r.byId id
  byBlock := r.byBlock
  entries := by
    have := r.coherent.entries
    simp only [removed, this, List.length_append, List.length_cons]
    omega
  bytes := r.bytes
  entry_lt x e' hx := by
    obtain ⟨-, e₀, he₀, -⟩ := get hx
    exact r.coherent.entry_lt x e₀ he₀
  block_lt y b' hy := by
    by_cases hyq : y = q
    · exact hyq ▸ r.coherent.block_lt q b r.block
    · exact r.coherent.block_lt y b' (by simpa [removed, hyq] using hy)

theorem item_removed (hx : x ∈ a ++ c) : (removed m p q e b next start).item x = m.item x := by
  obtain ⟨e₀, he₀, hxp⟩ := r.get_of_mem hx
  obtain ⟨q', b', hq', hb'⟩ := (r.coherent.entry_ok x e₀ he₀).block
  by_cases hqq : q' = q
  · have href := r.kept hxp he₀ hq' hqq
    subst hqq
    obtain rfl := Option.some.inj (hb'.symm.trans r.block)
    simp [item, removed, hxp, he₀, hq', href, hb']
  · simp [item, removed, hxp, he₀, hq', hqq]

end Removal

/-- **Removing** an entry leaves the others as they are. -/
theorem toolMemoryRemoveEntryLocked_spec (h : Coherent m (a ++ p :: c) blocks) :
    ∃ m' blocks', toolMemoryRemoveEntryLocked m p = some m' ∧ Coherent m' (a ++ c) blocks' ∧
      (∀ x ∈ a ++ c, m'.item x = m.item x) ∧ m'.maxEntries = m.maxEntries ∧
      m'.maxBytes = m.maxBytes := by
  obtain ⟨e, he⟩ := h.live (p := p) (by simp)
  obtain ⟨q, b, hq, hb⟩ := (h.entry_ok p e he).block
  obtain ⟨own, hown, -⟩ := h.block_ok q b hb
  obtain ⟨a', c', rfl⟩ := List.append_of_mem ((hown.mem p).mpr ⟨e, he, hq⟩)
  obtain ⟨next, start, heq, hchain, hother⟩ := toolMemoryRemoveEntryLocked_eq h he hq hb hown
  have r : Removal m a c blocks p q e b a' c' next start := ⟨h, he, hq, hb, hown, hchain, hother⟩
  exact ⟨_, _, heq, r.coherent_removed, fun x hx => r.item_removed hx, rfl, rfl⟩

end Ds4.Server
