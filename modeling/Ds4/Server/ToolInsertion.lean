import Ds4.Server.ToolCoherent

/-!
# Inserting an entry into the tool memory

`tool_memory_put_locked` finds or makes the block of a text and puts a new entry of it in front.
The block is without entries for a moment, which `CoherentBut` allows.
-/

namespace Ds4.Server

open Ds4.Lib ToolMemory

variable {spare : Option Addr} {m : ToolMemory} {l blocks : List Addr}

/-- A block without entries. -/
def newBlock (dsml : Bytes) : ToolMemoryBlock :=
  { dsml := dsml
    len := dsml.length
    bytes := dsml.length + 1 + blockSize
    refs := 0
    seen := 0
    entries := none }

/-- The memory with a new block. -/
def allocated (m : ToolMemory) (dsml : Bytes) : ToolMemory :=
  { m with
    byBlock := Function.update m.byBlock dsml (some m.brk)
    blockAt := Function.update m.blockAt m.brk (some (newBlock dsml))
    brk := m.brk + 1
    bytes := m.bytes + (newBlock dsml).bytes }

theorem allocated_blockAt {dsml : Bytes} {q : Addr} : (allocated m dsml).blockAt q =
    if q = m.brk then some (newBlock dsml) else m.blockAt q := by
  by_cases hq : q = m.brk
  · simp [allocated, hq]
  · simp [allocated, hq]

theorem coherent_allocated {dsml : Bytes} (h : Coherent m l blocks) (hd : dsml ≠ [])
    (hnone : m.byBlock dsml = none) :
    CoherentBut (some m.brk) (allocated m dsml) l (m.brk :: blocks) where
  dll := h.dll
  mem := h.mem
  blocks_nodup := by
    refine List.nodup_cons.mpr ⟨fun hmem => ?_, h.blocks_nodup⟩
    obtain ⟨b, hb⟩ := (h.mem_blocks m.brk).mp hmem
    exact h.block_ne_brk hb rfl
  mem_blocks q := by
    by_cases hq : q = m.brk <;> simp [allocated_blockAt, hq, h.mem_blocks]
  entry_ok x e he := by
    obtain ⟨hid, hbytes, q, b, hq, hb⟩ := h.entry_ok x e he
    exact ⟨hid, hbytes, q, b, hq, by rw [allocated_blockAt, if_neg (h.block_ne_brk hb), hb]⟩
  block_ok q b hb := by
    rw [allocated_blockAt] at hb
    split_ifs at hb with hq
    · obtain rfl := Option.some.inj hb
      refine ⟨[], ⟨hd, rfl, rfl, rfl, List.nodup_nil, rfl, fun x => ?_⟩, fun hne => absurd (by rw [hq]) hne⟩
      simp only [List.not_mem_nil, false_iff]
      rintro ⟨e, he, hblock⟩
      obtain ⟨-, -, q', b, hq', hb⟩ := h.entry_ok x e he
      exact h.block_ne_brk hb (hq ▸ Option.some.inj (hq'.symm.trans hblock))
    · obtain ⟨own, hok, href⟩ := h.block_ok q b hb
      exact ⟨own, ⟨hok.dsml_ne, hok.len, hok.bytes, hok.refs, hok.nodup, hok.chain, hok.mem⟩,
        fun _ => href (by simp)⟩
  byId := h.byId
  byBlock d q := by
    have hread : (allocated m dsml).byBlock = Function.update m.byBlock dsml (some m.brk) := rfl
    rw [hread, allocated_blockAt]
    by_cases hd : d = dsml
    · subst hd
      rw [Function.update_self]
      split_ifs with hq
      · simp [newBlock, hq]
      · refine iff_of_false (fun h => hq (Option.some.inj h).symm) ?_
        rw [← h.byBlock, hnone]
        simp
    · rw [Function.update_of_ne hd, h.byBlock]
      split_ifs with hq
      · refine iff_of_false ?_ (by simp [newBlock, Ne.symm hd])
        rintro ⟨b, hb, -⟩
        exact h.block_ne_brk hb hq
      · rfl
  entries := h.entries
  bytes := by
    have hnew : (allocated m dsml).blockBytes m.brk = (newBlock dsml).bytes := by
      simp [blockBytes, allocated_blockAt]
    have hold : blocks.map (allocated m dsml).blockBytes = blocks.map m.blockBytes :=
      List.map_congr_left fun q hq => by
        obtain ⟨b, hb⟩ := (h.mem_blocks q).mp hq
        simp [blockBytes, allocated_blockAt, h.block_ne_brk hb]
    rw [List.map_cons, List.sum_cons, hnew, hold]
    have hsum := h.bytes
    change m.bytes + _ = (l.map m.entryBytes).sum + _
    omega
  entry_lt x e he := Nat.lt_succ_of_lt (h.entry_lt x e he)
  block_lt q b hb := by
    rw [allocated_blockAt] at hb
    split_ifs at hb with hq
    · exact hq ▸ Nat.lt_succ_self _
    · exact Nat.lt_succ_of_lt (h.block_lt q b hb)

theorem toolMemoryGetBlockLocked_spec {dsml : Bytes} (h : Coherent m l blocks) (hd : dsml ≠ []) :
    ∃ m' q b blocks', toolMemoryGetBlockLocked m dsml = some (m', q) ∧
      CoherentBut (some q) m' l blocks' ∧ m'.blockAt q = some b ∧ b.dsml = dsml ∧
      m'.byId = m.byId ∧ (∀ x ∈ l, m'.item x = m.item x) ∧
      m'.maxEntries = m.maxEntries ∧ m'.maxBytes = m.maxBytes := by
  unfold toolMemoryGetBlockLocked
  cases hfind : toolMemoryFindBlockLocked m dsml with
  | some q =>
    have hq : m.byBlock dsml = some q := by simpa [toolMemoryFindBlockLocked, hd] using hfind
    obtain ⟨b, hb, hbd⟩ := (h.byBlock dsml q).mp hq
    refine ⟨m, q, b, blocks, rfl, { h with block_ok := fun y b' hb' => ?_ }, hb, hbd, rfl,
      fun _ _ => rfl, rfl, rfl⟩
    obtain ⟨own, hok, href⟩ := h.block_ok y b' hb'
    exact ⟨own, hok, fun _ => href (by simp)⟩
  | none =>
    have hnone : m.byBlock dsml = none := by simpa [toolMemoryFindBlockLocked, hd] using hfind
    refine ⟨allocated m dsml, m.brk, newBlock dsml, m.brk :: blocks, ?_,
      coherent_allocated h hd hnone, by simp [allocated_blockAt], rfl, rfl, fun x hx => ?_, rfl, rfl⟩
    · simp only [raxInsert, hnone, if_true, Option.bind_eq_bind, Option.bind_some, Option.pure_def]
      rfl
    · obtain ⟨e, he⟩ := h.live hx
      obtain ⟨-, -, q, b, hq, hb⟩ := h.entry_ok x e he
      have he' : (allocated m dsml).entryAt x = some e := he
      simp [item, he, he', hq, allocated_blockAt, h.block_ne_brk hb]

/-- The new entry of a put. -/
def newEntry (m : ToolMemory) (id : Bytes) (q : Addr) (b : ToolMemoryBlock)
    (source : ToolMemorySource) : ToolMemoryEntry :=
  { id := id
    block := some q
    bytes := id.length + 1 + entrySize
    stamp := m.clock + 1
    source := source
    prev := none
    next := none
    blockNext := b.entries }

/-- The memory with a new entry of block `q`, not yet in the list of recent use. -/
def attached (m : ToolMemory) (id : Bytes) (q : Addr) (b : ToolMemoryBlock)
    (source : ToolMemorySource) : ToolMemory :=
  { m with
    byId := Function.update m.byId id (some m.brk)
    clock := m.clock + 1
    entryAt := Function.update m.entryAt m.brk (some (newEntry m id q b source))
    blockAt := Function.update m.blockAt q
      (some { b with entries := some m.brk, refs := b.refs + 1 })
    brk := m.brk + 1 }

/-- The memory with a new entry in front. -/
def inserted (m : ToolMemory) (id : Bytes) (q : Addr) (b : ToolMemoryBlock)
    (source : ToolMemorySource) : ToolMemory :=
  let m' := (attached m id q b source).relink ((attached m id q b source).links.pushFront m.brk)
  { m' with
    entries := m.entries + 1
    bytes := m.bytes + (id.length + 1 + entrySize) }

section Insert

variable {q x : Addr} {b : ToolMemoryBlock} {id : Bytes} {source : ToolMemorySource}

theorem attached_entryAt : (attached m id q b source).entryAt x =
    if x = m.brk then some (newEntry m id q b source) else m.entryAt x := by
  by_cases hx : x = m.brk
  · simp [attached, hx]
  · simp [attached, hx]

variable (id source) in
theorem attached_blockAt : (attached m id q b source).blockAt x =
    if x = q then some { b with entries := some m.brk, refs := b.refs + 1 } else m.blockAt x := by
  by_cases hx : x = q
  · simp [attached, hx]
  · simp [attached, hx]

theorem attached_live : (attached m id q b source).Live x ↔ x = m.brk ∨ m.Live x := by
  by_cases hx : x = m.brk <;> simp [Live, attached_entryAt, hx]

theorem attached_dll (h : CoherentBut spare m l blocks) :
    (attached m id q b source).links.Dll l := by
  have hlinks : ∀ x ∈ l, (attached m id q b source).entryAt x = m.entryAt x := fun x hx => by
    obtain ⟨e, he⟩ := h.live hx
    rw [attached_entryAt, if_neg (h.entry_ne_brk he)]
  exact ⟨h.dll.nodup,
    h.dll.forward.congr fun x hx => by simp [links, hlinks x hx],
    h.dll.backward.congr fun x hx => by simp [links, hlinks x (List.mem_reverse.mp hx)]⟩

theorem toolMemoryInsertLocked_eq {m₀ : ToolMemory} {dsml : Bytes}
    (hget : toolMemoryGetBlockLocked m₀ dsml = some (m, q)) (h : CoherentBut (some q) m l blocks)
    (hb : m.blockAt q = some b) (hid : m.byId id = none) :
    toolMemoryInsertLocked m₀ id dsml source = toolMemoryPruneLocked (inserted m id q b source) := by
  have hmod : ({ m with
      clock := m.clock + 1
      entryAt := Function.update m.entryAt m.brk (some (newEntry m id q b source))
      brk := m.brk + 1 } : ToolMemory).modifyBlock q (fun b =>
        { b with entries := some m.brk, refs := b.refs + 1 }) =
      some { attached m id q b source with byId := m.byId } := by
    simp [modifyBlock, hb, attached]
  have hlink := toolMemoryLinkHead_relink (m := attached m id q b source)
    (L := (attached m id q b source).links) (p := m.brk) (attached_live.2 (.inl rfl))
    fun y hy => attached_live.2 (.inr ((h.mem y).mp
      (List.mem_of_head? ((attached_dll h).head_eq ▸ hy))))
  rw [relink_links] at hlink
  have hattached : ({ attached m id q b source with
      byId := Function.update m.byId id (some m.brk) } : ToolMemory) = attached m id q b source := rfl
  unfold newEntry at hmod
  simp only [toolMemoryInsertLocked, hget, hb, hmod, Option.bind_eq_bind, Option.bind_some,
    raxInsert, hid, if_true, hattached, hlink]
  rfl

variable (m id q b source) in
theorem get_new : ∃ e', (inserted m id q b source).entryAt m.brk = some e' ∧ e'.id = id ∧
    e'.block = some q ∧ e'.bytes = id.length + 1 + entrySize ∧ e'.blockNext = b.entries ∧
    e'.source = source := by
  simp [inserted, attached_entryAt, newEntry]

variable (id q b source) in
theorem get_old {e₀ : ToolMemoryEntry} (h : CoherentBut spare m l blocks)
    (he₀ : m.entryAt x = some e₀) :
    ∃ e', (inserted m id q b source).entryAt x = some e' ∧ e'.id = e₀.id ∧ e'.block = e₀.block ∧
      e'.bytes = e₀.bytes ∧ e'.blockNext = e₀.blockNext ∧ e'.source = e₀.source := by
  simp [inserted, attached_entryAt, h.entry_ne_brk he₀, he₀]

theorem get_cases {e' : ToolMemoryEntry} (h : (inserted m id q b source).entryAt x = some e') :
    (x = m.brk ∧ e'.id = id ∧ e'.block = some q ∧ e'.bytes = id.length + 1 + entrySize) ∨
    (x ≠ m.brk ∧ ∃ e₀, m.entryAt x = some e₀ ∧ e'.id = e₀.id ∧ e'.block = e₀.block ∧
      e'.bytes = e₀.bytes) := by
  by_cases hx : x = m.brk
  · subst hx
    obtain ⟨e'', he'', h1, h2, h3, -⟩ := get_new m q b id source
    obtain rfl := Option.some.inj (h.symm.trans he'')
    exact .inl ⟨rfl, h1, h2, h3⟩
  · simp only [inserted, relink_entryAt, attached_entryAt, if_neg hx] at h
    obtain ⟨e₀, he₀, rfl⟩ := Option.map_eq_some_iff.mp h
    exact .inr ⟨hx, e₀, he₀, rfl, rfl, rfl⟩

theorem inserted_blockAt : (inserted m id q b source).blockAt x =
    if x = q then some { b with entries := some m.brk, refs := b.refs + 1 } else m.blockAt x :=
  attached_blockAt id source

theorem inserted_blockNext (h : CoherentBut spare m l blocks) (hx : m.Live x) :
    (inserted m id q b source).blockNext x = m.blockNext x := by
  obtain ⟨e₀, he₀⟩ := live_iff.1 hx
  obtain ⟨e', he', -, -, -, hn, -⟩ := get_old q b id source h he₀
  simp [blockNext, he', he₀, hn]

theorem exists_old_iff (h : CoherentBut spare m l blocks) {P : Bytes → Option Addr → Prop}
    (hx : x ≠ m.brk) :
    (∃ e, (inserted m id q b source).entryAt x = some e ∧ P e.id e.block) ↔
      ∃ e, m.entryAt x = some e ∧ P e.id e.block := by
  constructor
  · rintro ⟨e', he', hP⟩
    obtain ⟨hxb, -⟩ | ⟨-, e₀, he₀, hid, hblock, -⟩ := get_cases he'
    · exact absurd hxb hx
    · exact ⟨e₀, he₀, hid ▸ hblock ▸ hP⟩
  · rintro ⟨e₀, he₀, hP⟩
    obtain ⟨e', he', hid, hblock, -⟩ := get_old q b id source h he₀
    exact ⟨e', he', hid ▸ hblock ▸ hP⟩

theorem exists_new_iff {P : Bytes → Option Addr → Prop} :
    (∃ e, (inserted m id q b source).entryAt m.brk = some e ∧ P e.id e.block) ↔ P id (some q) := by
  obtain ⟨e', he', hid, hblock, -⟩ := get_new m q b id source
  simp [he', hid, hblock]

theorem inserted_block {own : List Addr} (h : CoherentBut spare m l blocks)
    (hok : BlockOk m own q b) : BlockOk (inserted m id q b source) (m.brk :: own) q
      { b with entries := some m.brk, refs := b.refs + 1 } := by
  have hlive : ∀ x ∈ own, ∃ e, m.entryAt x = some e := fun x hx => by
    obtain ⟨e, he, -⟩ := (hok.mem x).mp hx
    exact ⟨e, he⟩
  have hbrk : m.brk ∉ own := fun hmem => by
    obtain ⟨e, he⟩ := hlive _ hmem
    exact h.entry_ne_brk he rfl
  refine ⟨hok.dsml_ne, hok.len, hok.bytes, congrArg (· + 1) hok.refs,
    List.nodup_cons.mpr ⟨hbrk, hok.nodup⟩, ⟨rfl, ?_⟩, fun x => ?_⟩
  · obtain ⟨e', he', -, -, -, hn, -⟩ :=
      get_new m q b id source
    have hstart : (inserted m id q b source).blockNext m.brk = b.entries := by
      simp [blockNext, he', hn]
    rw [hstart]
    exact hok.chain.congr fun x hx =>
      (inserted_blockNext h (live_iff.2 (hlive x hx))).symm
  · by_cases hx : x = m.brk
    · subst hx
      rw [exists_new_iff (P := fun _ y => y = some q)]
      simp
    · rw [exists_old_iff h (P := fun _ y => y = some q) hx, ← hok.mem]
      simp [hx]

theorem inserted_other {own : List Addr} {y : Addr} {b' : ToolMemoryBlock}
    (h : CoherentBut spare m l blocks) (hy : y ≠ q) (hok : BlockOk m own y b') :
    BlockOk (inserted m id q b source) own y b' := by
  refine ⟨hok.dsml_ne, hok.len, hok.bytes, hok.refs, hok.nodup, hok.chain.congr fun x hx => ?_,
    fun x => ?_⟩
  · obtain ⟨e, he, -⟩ := (hok.mem x).mp hx
    exact (inserted_blockNext h (live_iff.2 ⟨e, he⟩)).symm
  · by_cases hx : x = m.brk
    · subst hx
      rw [exists_new_iff (P := fun _ z => z = some y), hok.mem]
      refine iff_of_false ?_ fun h => hy (Option.some.inj h).symm
      rintro ⟨e, he, -⟩
      exact h.entry_ne_brk he rfl
    · rw [exists_old_iff h (P := fun _ z => z = some y) hx, hok.mem]

/-- **The memory with a new entry is coherent.** -/
theorem coherent_inserted (h : CoherentBut (some q) m l blocks) (hb : m.blockAt q = some b)
    (hid : m.byId id = none) (hne : id ≠ []) :
    Coherent (inserted m id q b source) (m.brk :: l) blocks where
  dll := dll_relink (fun x hx => attached_live.2
      ((List.mem_cons.mp hx).imp_right fun hx => (h.mem x).mp hx))
    ((attached_dll h).pushFront h.brk_not_mem)
  mem x := by
    have : (inserted m id q b source).Live x ↔ x = m.brk ∨ m.Live x :=
      relink_live.trans attached_live
    rw [this, List.mem_cons, h.mem]
  blocks_nodup := h.blocks_nodup
  mem_blocks y := by
    rw [inserted_blockAt]
    split_ifs with hy
    · subst hy
      simp [h.mem_blocks, hb]
    · exact h.mem_blocks y
  entry_ok x e he := by
    obtain ⟨rfl, hid', hblock, hbytes⟩ | ⟨hx, e₀, he₀, hid', hblock, hbytes⟩ := get_cases he
    · exact ⟨hid' ▸ hne, hid' ▸ hbytes, q, _, hblock, by rw [inserted_blockAt, if_pos rfl]⟩
    · obtain ⟨hne₀, hbytes₀, y, b', hy, hb'⟩ := h.entry_ok x e₀ he₀
      refine ⟨hid' ▸ hne₀, by rw [hbytes, hid', hbytes₀], y, ?_⟩
      by_cases hyq : y = q
      · exact ⟨_, hblock ▸ hy, by rw [inserted_blockAt, if_pos hyq]⟩
      · exact ⟨b', hblock ▸ hy, by rw [inserted_blockAt, if_neg hyq, hb']⟩
  block_ok y b' hb' := by
    rw [inserted_blockAt] at hb'
    split_ifs at hb' with hy
    · subst hy
      obtain rfl := Option.some.inj hb'
      obtain ⟨own, hok, -⟩ := h.block_ok y b hb
      exact ⟨_, inserted_block h hok, fun _ => List.cons_ne_nil _ _⟩
    · obtain ⟨own, hok, href⟩ := h.block_ok y b' hb'
      exact ⟨own, inserted_other h hy hok, fun _ => href fun h => hy (Option.some.inj h)⟩
  byId id' x := by
    have hread : (inserted m id q b source).byId = Function.update m.byId id (some m.brk) := rfl
    rw [hread]
    by_cases hx : x = m.brk
    · subst hx
      rw [exists_new_iff (P := fun i _ => i = id')]
      by_cases hi : id' = id
      · simp [hi]
      · rw [Function.update_of_ne hi, h.byId]
        refine iff_of_false ?_ (Ne.symm hi)
        rintro ⟨e, he, -⟩
        exact h.entry_ne_brk he rfl
    · rw [exists_old_iff h (P := fun i _ => i = id') hx, ← h.byId]
      by_cases hi : id' = id
      · subst hi
        simp [hid, Ne.symm hx]
      · rw [Function.update_of_ne hi]
  byBlock d y := by
    have hread : (inserted m id q b source).byBlock = m.byBlock := rfl
    rw [hread, h.byBlock, inserted_blockAt]
    split_ifs with hy
    · subst hy
      simp [hb]
    · rfl
  entries := by
    rw [List.length_cons, ← h.entries]
    rfl
  bytes := by
    obtain ⟨e', he', -, -, hbytes, -⟩ :=
      get_new m q b id source
    have hnew : (inserted m id q b source).entryBytes m.brk = id.length + 1 + entrySize := by
      simp [entryBytes, he', hbytes]
    have hold : l.map (inserted m id q b source).entryBytes = l.map m.entryBytes :=
      List.map_congr_left fun x hx => by
        obtain ⟨e₀, he₀⟩ := h.live hx
        obtain ⟨e', he', -, -, hbytes, -⟩ :=
          get_old q b id source h he₀
        simp [entryBytes, he', he₀, hbytes]
    have hblocks : (inserted m id q b source).blockBytes = m.blockBytes := by
      funext y
      rw [blockBytes, inserted_blockAt]
      split_ifs with hy
      · simp [blockBytes, hy, hb]
      · rfl
    have hsum := h.bytes
    rw [List.map_cons, List.sum_cons, hnew, hold, hblocks]
    change m.bytes + (id.length + 1 + entrySize) = _
    omega
  entry_lt x e he := by
    obtain ⟨rfl, -⟩ | ⟨-, e₀, he₀, -⟩ := get_cases he
    · exact Nat.lt_succ_self _
    · exact Nat.lt_succ_of_lt (h.entry_lt x e₀ he₀)
  block_lt y b' hb' := by
    rw [inserted_blockAt] at hb'
    split_ifs at hb' with hy
    · exact Nat.lt_succ_of_lt (hy ▸ h.block_lt q b hb)
    · exact Nat.lt_succ_of_lt (h.block_lt y b' hb')

variable (id source) in
theorem item_inserted (h : CoherentBut (some q) m l blocks) (hb : m.blockAt q = some b) :
    (inserted m id q b source).item m.brk = some ⟨id, b.dsml, source⟩ ∧
      ∀ x ∈ l, (inserted m id q b source).item x = m.item x := by
  constructor
  · obtain ⟨e', he', hid, hblock, -, -, hsource⟩ :=
      get_new m q b id source
    simp [item, he', hid, hblock, hsource, inserted_blockAt]
  · intro x hx
    obtain ⟨e₀, he₀⟩ := h.live hx
    obtain ⟨-, -, y, b', hy, hb'⟩ := h.entry_ok x e₀ he₀
    obtain ⟨e', he', hid, hblock, -, -, hsource⟩ :=
      get_old q b id source h he₀
    by_cases hyq : y = q
    · subst hyq
      simp [item, he', he₀, hid, hblock, hsource, hy, inserted_blockAt, hb]
    · simp [item, he', he₀, hid, hblock, hsource, hy, inserted_blockAt, hyq]

end Insert

/-- **Inserting** prunes a coherent memory with the new entry in front. -/
theorem toolMemoryInsertLocked_spec {id dsml : Bytes} (source : ToolMemorySource)
    (h : Coherent m l blocks) (hid : m.byId id = none) (hne : id ≠ []) (hd : dsml ≠ []) :
    ∃ m' p blocks', toolMemoryInsertLocked m id dsml source = toolMemoryPruneLocked m' ∧
      Coherent m' (p :: l) blocks' ∧ m'.item p = some ⟨id, dsml, source⟩ ∧
      (∀ x ∈ l, m'.item x = m.item x) ∧ m'.maxEntries = m.maxEntries ∧ m'.maxBytes = m.maxBytes := by
  obtain ⟨m₁, q, b, blocks', hget, h₁, hb, rfl, hbyId, hitem, hE, hB⟩ :=
    toolMemoryGetBlockLocked_spec h hd
  have hid₁ : m₁.byId id = none := hbyId ▸ hid
  obtain ⟨hnew, hold⟩ := item_inserted id source h₁ hb
  exact ⟨_, m₁.brk, blocks', toolMemoryInsertLocked_eq hget h₁ hb hid₁,
    coherent_inserted h₁ hb hid₁ hne, hnew, fun x hx => (hold x hx).trans (hitem x hx), hE, hB⟩

end Ds4.Server
