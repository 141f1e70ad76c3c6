import Ds4.Server.ToolMemory

/-!
# The lists of the tool memory

The steps on the list of recent use are the abstract steps on its links (`toolMemoryUnlink_relink`,
`toolMemoryLinkHead_relink`), and the loop of `tool_block_unlink_entry` takes one entry out of the
chain of its block (`toolBlockUnlinkEntry_spec`). Nothing else of the memory changes.
-/

namespace Ds4.Server

open Ds4.Lib

namespace ToolMemory

/-! ## Links -/

/-- The links of the list of recent use. -/
def links (m : ToolMemory) : Links where
  prev p := (m.entryAt p).bind (·.prev)
  next p := (m.entryAt p).bind (·.next)
  head := m.head
  tail := m.tail

/-- The memory with other links. -/
def relink (m : ToolMemory) (L : Links) : ToolMemory :=
  { m with
    head := L.head
    tail := L.tail
    entryAt := fun p => (m.entryAt p).map fun e => { e with prev := L.prev p, next := L.next p } }

/-- An address of a live entry. -/
def Live (m : ToolMemory) (p : Addr) : Prop := (m.entryAt p).isSome

variable {m : ToolMemory} {L : Links} {p q : Addr}

theorem live_iff : m.Live p ↔ ∃ e, m.entryAt p = some e := Option.isSome_iff_exists

@[simp] theorem relink_links (m : ToolMemory) : m.relink m.links = m := by
  have : (fun p => (m.entryAt p).map fun e =>
      { e with prev := m.links.prev p, next := m.links.next p }) = m.entryAt := by
    funext p
    cases h : m.entryAt p with
    | none => rfl
    | some e => simp [links, h]
  unfold relink
  rw [this]
  rfl

@[simp] theorem relink_entryAt (m : ToolMemory) (L : Links) (p : Addr) :
    (m.relink L).entryAt p =
      (m.entryAt p).map fun e => { e with prev := L.prev p, next := L.next p } := rfl

@[simp] theorem relink_blockAt (m : ToolMemory) (L : Links) : (m.relink L).blockAt = m.blockAt := rfl

@[simp] theorem relink_live : (m.relink L).Live p ↔ m.Live p := by simp [Live]

theorem relink_next (hq : m.Live q) (v : Option Addr) :
    ((m.relink L).modifyEntry q fun e => { e with next := v }) =
      some (m.relink { L with next := Function.update L.next q v }) := by
  obtain ⟨e, he⟩ := live_iff.1 hq
  simp only [modifyEntry, relink_entryAt, he, Option.map_some, Option.some.injEq]
  unfold relink
  congr 1
  funext x
  by_cases hx : x = q
  · subst hx
    simp [he]
  · simp [Function.update_of_ne hx]

theorem relink_prev (hq : m.Live q) (v : Option Addr) :
    ((m.relink L).modifyEntry q fun e => { e with prev := v }) =
      some (m.relink { L with prev := Function.update L.prev q v }) := by
  obtain ⟨e, he⟩ := live_iff.1 hq
  simp only [modifyEntry, relink_entryAt, he, Option.map_some, Option.some.injEq]
  unfold relink
  congr 1
  funext x
  by_cases hx : x = q
  · subst hx
    simp [he]
  · simp [Function.update_of_ne hx]

theorem relink_both (hq : m.Live q) (v w : Option Addr) :
    ((m.relink L).modifyEntry q fun e => { e with prev := v, next := w }) =
      some (m.relink { L with
        prev := Function.update L.prev q v, next := Function.update L.next q w }) := by
  obtain ⟨e, he⟩ := live_iff.1 hq
  simp only [modifyEntry, relink_entryAt, he, Option.map_some, Option.some.injEq]
  unfold relink
  congr 1
  funext x
  by_cases hx : x = q
  · subst hx
    simp [he]
  · simp [Function.update_of_ne hx]

theorem dll_relink {l : List Addr} (hl : ∀ p ∈ l, m.Live p) (h : L.Dll l) :
    (m.relink L).links.Dll l where
  nodup := h.nodup
  forward := Segment.congr (fun p hp => by
    obtain ⟨e, he⟩ := live_iff.1 (hl p hp)
    simp [links, he]) h.forward
  backward := Segment.congr (fun p hp => by
    obtain ⟨e, he⟩ := live_iff.1 (hl p (List.mem_reverse.mp hp))
    simp [links, he]) h.backward

end ToolMemory

open ToolMemory

variable {m : ToolMemory} {L : Links} {p q : Addr}

theorem setNextOrHead_relink {q : Option Addr} (hq : ∀ x, q = some x → m.Live x) (v : Option Addr) :
    setNextOrHead (m.relink L) q v = some (m.relink (L.setNext q v)) := by
  cases q with
  | none => rfl
  | some x => exact relink_next (hq x rfl) v

theorem setPrevOrTail_relink {q : Option Addr} (hq : ∀ x, q = some x → m.Live x) (v : Option Addr) :
    setPrevOrTail (m.relink L) q v = some (m.relink (L.setPrev q v)) := by
  cases q with
  | none => rfl
  | some x => exact relink_prev (hq x rfl) v

theorem toolMemoryLinkHead_relink (hp : m.Live p) (hhead : ∀ q, L.head = some q → m.Live q) :
    toolMemoryLinkHead (m.relink L) p = some (m.relink (L.pushFront p)) := by
  unfold toolMemoryLinkHead
  have hself : ∀ L : Links, (m.relink L).head = L.head := fun _ => rfl
  simp only [hself, relink_both hp, setPrevOrTail_relink hhead, Option.bind_eq_bind,
    Option.bind_some]
  cases h : L.head <;> simp [Links.pushFront, Links.setPrev, h, relink]

theorem toolMemoryUnlink_relink (hp : m.Live p)
    (hprev : ∀ q, L.prev p = some q → m.Live q ∧ q ≠ p)
    (hnext : ∀ q, L.next p = some q → m.Live q ∧ q ≠ p) :
    toolMemoryUnlink (m.relink L) p = some (m.relink (L.unlink p)) := by
  obtain ⟨e, he⟩ := live_iff.1 hp
  have hread : ∀ L : Links, (m.relink L).entryAt p =
      some { e with prev := L.prev p, next := L.next p } := fun L => by simp [he]
  -- the first write leaves the links of `p` as they are
  have hkeep : ∀ v, (L.setNext (L.prev p) v).next p = L.next p ∧
      (L.setNext (L.prev p) v).prev p = L.prev p := fun v => by
    cases h : L.prev p with
    | none => exact ⟨rfl, h⟩
    | some q => exact ⟨Function.update_of_ne (hprev q h).2.symm _ _, h⟩
  unfold toolMemoryUnlink
  simp only [hread, setNextOrHead_relink fun q h => (hprev q h).1, (hkeep _).1, (hkeep _).2,
    setPrevOrTail_relink fun q h => (hnext q h).1, relink_both hp, Option.bind_eq_bind,
    Option.bind_some]
  congr 2
  unfold Links.unlink
  cases L.prev p <;> cases L.next p <;> rfl

theorem toolMemoryUnlink_dll {a c : List Addr} (h : m.links.Dll (a ++ p :: c))
    (hlive : ∀ x ∈ a ++ p :: c, m.Live x) :
    toolMemoryUnlink m p = some (m.relink (m.links.unlink p)) := by
  have hp : p ∉ a ++ c := (List.nodup_cons.mp (List.nodup_middle.mp h.nodup)).1
  conv_lhs => rw [← relink_links m]
  refine toolMemoryUnlink_relink (hlive p (by simp)) (fun q hq => ?_) fun q hq => ?_
  · have hq := List.mem_of_getLast? (h.prev_eq ▸ hq)
    exact ⟨hlive q (by simp [hq]), fun h => hp (by simp [← h, hq])⟩
  · have hq := List.mem_of_head? (h.next_eq ▸ hq)
    exact ⟨hlive q (by simp [hq]), fun h => hp (by simp [← h, hq])⟩

/-! ## The list of a block -/

namespace ToolMemory

/-- The links of the lists of the blocks. -/
def blockNext (m : ToolMemory) (p : Addr) : Option Addr := (m.entryAt p).bind (·.blockNext)

/-- The memory with another list of block `q`. -/
def setOwn (m : ToolMemory) (q : Addr) (next : Addr → Option Addr) (start : Option Addr) : ToolMemory :=
  { m with
    entryAt := fun p => (m.entryAt p).map fun e => { e with blockNext := next p }
    blockAt := fun y => if y = q then (m.blockAt q).map fun b => { b with entries := start }
      else m.blockAt y }

theorem setOwn_self {b : ToolMemoryBlock} (hb : m.blockAt q = some b) :
    m.setOwn q m.blockNext b.entries = m := by
  have hentry : (fun p => (m.entryAt p).map fun e => { e with blockNext := m.blockNext p }) =
      m.entryAt := by
    funext p
    cases h : m.entryAt p with
    | none => rfl
    | some e => simp [blockNext, h]
  have hblock : (fun y => if y = q then (m.blockAt q).map fun b' => { b' with entries := b.entries }
      else m.blockAt y) = m.blockAt := by
    funext y
    by_cases hy : y = q
    · simp [hy, hb]
    · rw [if_neg hy]
  unfold setOwn
  rw [hentry, hblock]

variable {next : Addr → Option Addr} {start : Option Addr}

theorem setOwn_entryAt : (m.setOwn q next start).entryAt p =
    (m.entryAt p).map fun e => { e with blockNext := next p } := rfl

theorem setOwn_blockNext (hp : m.Live p) (v : Option Addr) :
    ((m.setOwn q next start).modifyEntry p fun e => { e with blockNext := v }) =
      some (m.setOwn q (Function.update next p v) start) := by
  obtain ⟨e, he⟩ := live_iff.1 hp
  simp only [modifyEntry, setOwn_entryAt, he, Option.map_some, Option.some.injEq]
  unfold setOwn
  congr 1
  funext x
  by_cases hx : x = p
  · subst hx
    simp [he]
  · simp [Function.update_of_ne hx]

theorem setOwn_entries {b : ToolMemoryBlock} (hb : m.blockAt q = some b) (v : Option Addr) :
    ((m.setOwn q next start).modifyBlock q fun b => { b with entries := v }) =
      some (m.setOwn q next v) := by
  have hread : (m.setOwn q next start).blockAt q = some { b with entries := start } := by
    simp [setOwn, hb]
  simp only [modifyBlock, hread, Option.map_some, Option.some.injEq]
  unfold setOwn
  congr 1
  funext y
  by_cases hy : y = q
  · subst hy
    simp [hb]
  · simp [hy]

end ToolMemory

theorem toolBlockUnlinkLoop_eq {a c : List Addr} {slot start : Option Addr}
    (hslot : blockSlot m q slot = some start) (hchain : Chain m.blockNext start (a ++ p :: c))
    (hlive : ∀ x ∈ a, m.Live x) (hp : p ∉ a) (fuel : Nat) (hfuel : a.length < fuel) :
    toolBlockUnlinkLoop m q p fuel slot = (do
      let e ← m.entryAt p
      let m ← setBlockSlot m q (a.getLast?.or slot) e.blockNext
      m.modifyEntry p fun e => { e with blockNext := none }) := by
  induction a generalizing slot start fuel with
  | nil =>
    obtain ⟨fuel, rfl⟩ := Nat.exists_eq_add_of_lt hfuel
    obtain rfl : start = some p := hchain.1
    simp [toolBlockUnlinkLoop, hslot]
  | cons x a ih =>
    obtain ⟨fuel, rfl⟩ : ∃ f, fuel = f + 1 := ⟨fuel - 1, by omega⟩
    obtain ⟨rfl, hrest⟩ := hchain
    obtain ⟨e, he⟩ := live_iff.1 (hlive x List.mem_cons_self)
    have hxp : ¬ x = p := fun h => hp (h ▸ List.mem_cons_self)
    have hnext : blockSlot m q (some x) = some (m.blockNext x) := by
      simp [blockSlot, blockNext, he]
    rw [toolBlockUnlinkLoop, hslot]
    simp only [Option.bind_eq_bind, Option.bind_some, if_neg hxp]
    rw [ih hnext hrest (fun y hy => hlive y (List.mem_cons_of_mem x hy))
      (fun h => hp (List.mem_cons_of_mem x h)) fuel (by simpa using hfuel)]
    rw [List.getLast?_cons, Option.or_some]
    cases a.getLast? <;> rfl

/-- **Unlinking from a block.** The chain loses the entry, and other chains keep theirs. -/
theorem toolBlockUnlinkEntry_spec {a c : List Addr} {b : ToolMemoryBlock}
    (hb : m.blockAt q = some b) (hchain : Chain m.blockNext b.entries (a ++ p :: c))
    (hnd : (a ++ p :: c).Nodup) (hlive : ∀ x ∈ a ++ p :: c, m.Live x)
    (hlen : (a ++ p :: c).length ≤ m.brk) :
    ∃ next start, toolBlockUnlinkEntry m q p = some (m.setOwn q next start) ∧
      Chain next start (a ++ c) ∧ ∀ x, x ∉ a ++ p :: c → next x = m.blockNext x := by
  have hp : m.Live p := hlive p (by simp)
  obtain ⟨e, he⟩ := live_iff.1 hp
  have hbn : m.blockNext p = e.blockNext := by simp [blockNext, he]
  have hpa : p ∉ a ++ c := (List.nodup_cons.mp (List.nodup_middle.mp hnd)).1
  have haround := Segment.around hnd hchain
  rw [toolBlockUnlinkEntry, toolBlockUnlinkLoop_eq
    (show blockSlot m q none = some b.entries by simp [blockSlot, hb]) hchain
    (fun x hx => hlive x (by simp [hx])) (fun h => hpa (by simp [h])) _
    (by simp at hlen ⊢; omega)]
  simp only [he, Option.bind_eq_bind, Option.bind_some, Option.or_none]
  cases hlast : a.getLast? with
  | none =>
    simp only [hlast] at haround
    refine ⟨Function.update m.blockNext p none, e.blockNext, ?_, ?_, ?_⟩
    · rw [setBlockSlot]
      conv_lhs => rw [← setOwn_self hb]
      rw [setOwn_entries hb, Option.bind_some, setOwn_blockNext hp]
    · exact hbn ▸ haround.update hpa none
    · intro x hx
      exact Function.update_of_ne (fun h => hx (by simp [h])) _ _
  | some z =>
    simp only [hlast] at haround
    have hz : z ∈ a := List.mem_of_getLast? hlast
    refine ⟨Function.update (Function.update m.blockNext z e.blockNext) p none, b.entries, ?_, ?_, ?_⟩
    · rw [setBlockSlot]
      conv_lhs => rw [← setOwn_self hb]
      rw [setOwn_blockNext (hlive z (by simp [hz])), Option.bind_some, setOwn_blockNext hp]
    · exact hbn ▸ haround.update hpa none
    · intro x hx
      rw [Function.update_of_ne (fun h => hx (by simp [h])),
        Function.update_of_ne (fun h => hx (by simp [h, hz]))]

end Ds4.Server
