import Ds4.Lib.Recent
import Ds4.Server.ToolInsertion
import Ds4.Server.ToolRemoval

/-!
# Runs of the tool memory

What the memory is for: it remembers the last text put under each id, and forgets the ids that were
not used for the longest time when it is over its limits. `remembered` is this list of items after a
sequence of calls. Every run of the code keeps the invariant and holds exactly these items
(`run_toolMemory`).
-/

namespace Ds4.Server

open Ds4.Lib ToolMemory

/-! ## The specification -/

/-- The limits of a memory. -/
structure ToolLimits where
  maxEntries : Nat
  maxBytes : Nat

/-- The bytes of a list of items: each item, and each text once. -/
def itemsBytes (items : List ToolItem) : Nat :=
  (items.map fun it => it.id.length + 1 + entrySize).sum +
    ((items.map (·.dsml)).dedup.map fun d => d.length + 1 + blockSize).sum

/-- The items are within the limits. -/
def ToolLimits.fits (lim : ToolLimits) (items : List ToolItem) : Bool :=
  decide (items.length ≤ lim.maxEntries) && decide (itemsBytes items ≤ lim.maxBytes)

/-- The item of an id. -/
def findItem (items : List ToolItem) (id : Bytes) : Option ToolItem := items.find? (·.id = id)

/-- The source after a put: a text that is sampled again counts as sampled. -/
def putSource (items : List ToolItem) (id dsml : Bytes) (source : ToolMemorySource) :
    ToolMemorySource :=
  match findItem items id with
  | some it => if it.dsml = dsml ∧ source ≠ .ram then it.source else source
  | none => source

/-- The items that a call has in front of its pruning. -/
def ToolMemoryCall.used (items : List ToolItem) : ToolMemoryCall → List ToolItem
  | .put id dsml source =>
    if id = [] ∨ dsml = [] then items
    else Recent.use ToolItem.id ⟨id, dsml, putSource items id dsml source⟩ items
  | .lookup id =>
    match findItem items id with
    | some it => Recent.use ToolItem.id it items
    | none => items
  | .prune => items

/-- Lookups, and puts without an id or a text, do not prune. -/
def ToolMemoryCall.prunes : ToolMemoryCall → Bool
  | .put id dsml _ => !(decide (id = []) || decide (dsml = []))
  | .lookup _ => false
  | .prune => true

/-- The items after a call. -/
def ToolMemoryCall.after (lim : ToolLimits) (items : List ToolItem) (c : ToolMemoryCall) :
    List ToolItem :=
  if c.prunes then Recent.prune lim.fits (c.used items) else c.used items

/-- The items after a sequence of calls. -/
def remembered (lim : ToolLimits) (calls : List ToolMemoryCall) : List ToolItem :=
  calls.foldl (ToolMemoryCall.after lim) []

/-- The id that a call uses. -/
def ToolMemoryCall.usedId : ToolMemoryCall → Option Bytes
  | .put id dsml _ => if id = [] ∨ dsml = [] then none else some id
  | .lookup id => some id
  | .prune => none

/-- The ids of the calls in the order of their last use, the latest first. -/
def recency (calls : List ToolMemoryCall) : List Bytes :=
  (calls.filterMap ToolMemoryCall.usedId).reverse.eraseDups

/-- The text that a call puts under an id. -/
def ToolMemoryCall.putText (id : Bytes) : ToolMemoryCall → Option Bytes
  | .put id' dsml _ => if id' = id ∧ id ≠ [] ∧ dsml ≠ [] then some dsml else none
  | _ => none

/-- The last text put under an id. -/
def lastPut (calls : List ToolMemoryCall) (id : Bytes) : Option Bytes :=
  (calls.filterMap (ToolMemoryCall.putText id)).getLast?

/-- A call pruned the id, and no later call put it again. -/
def Pruned (lim : ToolLimits) (calls : List ToolMemoryCall) (id : Bytes) : Prop :=
  ∃ before c later, calls = before ++ c :: later ∧
    id ∈ (c.used (remembered lim before)).map ToolItem.id ∧
    id ∉ (remembered lim (before ++ [c])).map ToolItem.id ∧ lastPut later id = none

variable {lim : ToolLimits} {calls : List ToolMemoryCall} {items : List ToolItem}
  {c : ToolMemoryCall} {id : Bytes} {it : ToolItem}

theorem remembered_snoc (lim : ToolLimits) (calls : List ToolMemoryCall) (c : ToolMemoryCall) :
    remembered lim (calls ++ [c]) = c.after lim (remembered lim calls) := by
  simp [remembered]

theorem findItem_some (h : findItem items id = some it) : it ∈ items ∧ it.id = id := by
  have := List.find?_some h
  exact ⟨List.mem_of_find?_eq_some h, by simpa using this⟩

theorem findItem_none (h : findItem items id = none) : id ∉ items.map ToolItem.id := by
  rintro hid
  obtain ⟨it, hit, rfl⟩ := List.mem_map.mp hid
  simpa using List.find?_eq_none.mp h it hit

theorem fits_nil (lim : ToolLimits) : lim.fits [] = true := by simp [ToolLimits.fits, itemsBytes]

theorem fits_perm {items' : List ToolItem} (h : items.Perm items') :
    lim.fits items = lim.fits items' := by
  have hbytes : itemsBytes items = itemsBytes items' := by
    rw [itemsBytes, itemsBytes, (h.map _).sum_eq, ((h.map (·.dsml)).dedup.map _).sum_eq]
  rw [ToolLimits.fits, ToolLimits.fits, h.length_eq, hbytes]

theorem fits_after (hnd : (items.map ToolItem.id).Nodup) (h : lim.fits items = true)
    (c : ToolMemoryCall) : lim.fits (c.after lim items) = true := by
  unfold ToolMemoryCall.after
  split_ifs with hprunes
  · exact Recent.fits_prune _ (fits_nil lim) _
  · cases c with
    | put id dsml source =>
      have hempty : id = [] ∨ dsml = [] := by
        by_contra hne
        rw [not_or] at hne
        simp [ToolMemoryCall.prunes, hne] at hprunes
      rw [ToolMemoryCall.used, if_pos hempty, h]
    | lookup id =>
      rw [ToolMemoryCall.used]
      cases hfind : findItem items id with
      | none => exact h
      | some it => rw [fits_perm (Recent.use_perm _ hnd (findItem_some hfind).1), h]
    | prune => exact h

theorem after_isPrefix (lim : ToolLimits) (items : List ToolItem) (c : ToolMemoryCall) :
    c.after lim items <+: c.used items := by
  unfold ToolMemoryCall.after
  split_ifs
  · exact Recent.prune_prefix _ _
  · exact List.prefix_rfl

/-! ## What the specification says -/

theorem recency_snoc (calls : List ToolMemoryCall) (c : ToolMemoryCall) :
    recency (calls ++ [c]) = match c.usedId with
      | some id => (id :: (calls.filterMap ToolMemoryCall.usedId).reverse).eraseDups
      | none => recency calls := by
  unfold recency
  rw [List.filterMap_append, List.reverse_append]
  cases h : c.usedId <;> simp [h]

theorem used_sublist (h : (items.map ToolItem.id).Sublist (recency calls)) (c : ToolMemoryCall) :
    ((c.used items).map ToolItem.id).Sublist (recency (calls ++ [c])) := by
  rw [recency_snoc]
  cases c with
  | put id dsml source =>
    simp only [ToolMemoryCall.used, ToolMemoryCall.usedId]
    split_ifs
    · exact h
    · exact Recent.use_sublist ToolItem.id h
  | lookup id =>
    simp only [ToolMemoryCall.used, ToolMemoryCall.usedId]
    cases hfind : findItem items id with
    | some it =>
      obtain ⟨-, rfl⟩ := findItem_some hfind
      exact Recent.use_sublist ToolItem.id h
    | none => exact Recent.miss_sublist ToolItem.id (findItem_none hfind) h
  | prune => exact h

/-- **Recency.** The items are in the order of their last use. -/
theorem remembered_sublist (lim : ToolLimits) (calls : List ToolMemoryCall) :
    ((remembered lim calls).map ToolItem.id).Sublist (recency calls) := by
  induction calls using List.reverseRecOn with
  | nil => exact List.Sublist.refl _
  | append_singleton calls c ih =>
    rw [remembered_snoc]
    exact ((after_isPrefix lim _ c).sublist.map _).trans (used_sublist ih c)

theorem lastPut_snoc (calls : List ToolMemoryCall) (c : ToolMemoryCall) (id : Bytes) :
    lastPut (calls ++ [c]) id = (c.putText id).or (lastPut calls id) := by
  unfold lastPut
  rw [List.filterMap_append, List.getLast?_append]
  cases h : c.putText id <;> simp [h]

theorem used_lastPut (h : ∀ it ∈ items, lastPut calls it.id = some it.dsml) :
    ∀ it ∈ c.used items, lastPut (calls ++ [c]) it.id = some it.dsml := by
  intro it hit
  rw [lastPut_snoc]
  cases c with
  | put id dsml source =>
    simp only [ToolMemoryCall.used] at hit
    split_ifs at hit with hne
    · have hput : (ToolMemoryCall.put id dsml source).putText it.id = none := by
        refine if_neg ?_
        rintro ⟨rfl, hid, hd⟩
        exact hne.elim hid hd
      rw [hput, Option.none_or, h it hit]
    · rw [not_or] at hne
      obtain rfl | hit := List.mem_cons.mp hit
      · simp [ToolMemoryCall.putText, hne]
      · obtain ⟨hit, hid⟩ := List.mem_filter.mp hit
        have hput : (ToolMemoryCall.put id dsml source).putText it.id = none := by
          refine if_neg fun h => ?_
          simp [h.1] at hid
        rw [hput, Option.none_or, h it hit]
  | lookup id =>
    simp only [ToolMemoryCall.used] at hit
    refine h it ?_
    cases hfind : findItem items id with
    | none => simpa [hfind] using hit
    | some it' =>
      simp only [hfind, Recent.use, List.mem_cons, List.mem_filter] at hit
      rcases hit with rfl | ⟨hit, -⟩
      · exact (findItem_some hfind).1
      · exact hit
  | prune => exact h it hit

/-- **The last put.** An item has the last text that was put under its id. -/
theorem remembered_lastPut (lim : ToolLimits) (calls : List ToolMemoryCall) :
    ∀ it ∈ remembered lim calls, lastPut calls it.id = some it.dsml := by
  induction calls using List.reverseRecOn with
  | nil => simp [remembered]
  | append_singleton calls c ih =>
    intro it hit
    rw [remembered_snoc] at hit
    exact used_lastPut ih it ((after_isPrefix lim _ c).subset hit)

theorem mem_used (h : id ∈ items.map ToolItem.id ∨ c.putText id ≠ none) :
    id ∈ (c.used items).map ToolItem.id := by
  have huse : ∀ a : ToolItem, id ∈ items.map ToolItem.id →
      id ∈ (Recent.use ToolItem.id a items).map ToolItem.id := by
    intro a hid
    by_cases ha : id = a.id
    · simp [Recent.use, ha]
    · rw [Recent.use, List.map_cons, Recent.map_filter_key]
      exact List.mem_cons_of_mem _ (List.mem_filter.mpr ⟨hid, by simpa using ha⟩)
  cases c with
  | put id' dsml source =>
    simp only [ToolMemoryCall.used]
    rcases h with h | h
    · split_ifs
      · exact h
      · exact huse _ h
    · simp only [ToolMemoryCall.putText, ne_eq, ite_eq_right_iff, reduceCtorEq, imp_false,
        not_not] at h
      obtain ⟨rfl, hid, hd⟩ := h
      simp [hid, hd, Recent.use]
  | lookup id' =>
    have h : id ∈ items.map ToolItem.id := h.resolve_right fun h => h rfl
    simp only [ToolMemoryCall.used]
    cases findItem items id' with
    | none => exact h
    | some it => exact huse it h
  | prune => exact h.resolve_right fun h => h rfl

/-- **Forgetting.** An id that was put and is not there any more was pruned since its last put. -/
theorem pruned_of_lastPut (lim : ToolLimits) {calls : List ToolMemoryCall} {id : Bytes}
    (hput : lastPut calls id ≠ none) (hid : id ∉ (remembered lim calls).map ToolItem.id) :
    Pruned lim calls id := by
  induction calls using List.reverseRecOn with
  | nil => exact absurd rfl hput
  | append_singleton calls c ih =>
    by_cases hused : id ∈ (c.used (remembered lim calls)).map ToolItem.id
    · exact ⟨calls, c, [], rfl, hused, hid, rfl⟩
    · have hnot := mt mem_used hused
      rw [not_or, not_not] at hnot
      rw [lastPut_snoc, hnot.2, Option.none_or] at hput
      obtain ⟨before, c', later, rfl, h1, h2, h3⟩ := ih hput hnot.1
      refine ⟨before, c', later ++ [c], by simp, h1, h2, ?_⟩
      rw [lastPut_snoc, hnot.2, h3, Option.or_none]

/-! ## The items of a coherent memory -/

/-- The limits of a memory. -/
def limits (m : ToolMemory) : ToolLimits := ⟨toolMemoryMaxEntries m, toolMemoryMaxBytes m⟩

/-- A coherent memory that remembers the items, in the order of its list. -/
structure Holds (m : ToolMemory) (l blocks : List Addr) (items : List ToolItem) : Prop where
  coherent : Coherent m l blocks
  items : l.map m.item = items.map some

namespace Holds

variable {m m' : ToolMemory} {l blocks : List Addr} {p : Addr}

theorem length_eq (h : Holds m l blocks items) : l.length = items.length := by
  simpa using congrArg List.length h.items

theorem item_eq (h : Holds m l blocks items) (hp : p ∈ l) :
    ∃ e q b, m.entryAt p = some e ∧ e.block = some q ∧ m.blockAt q = some b ∧
      m.item p = some ⟨e.id, b.dsml, e.source⟩ := by
  obtain ⟨e, he⟩ := h.coherent.live hp
  obtain ⟨q, b, hq, hb⟩ := (h.coherent.entry_ok p e he).block
  exact ⟨e, q, b, he, hq, hb, by simp [item, he, hq, hb]⟩

theorem mem_items (h : Holds m l blocks items) : it ∈ items ↔ ∃ p ∈ l, m.item p = some it := by
  have := congrArg (some it ∈ ·) h.items
  simpa [eq_comm] using this.symm

theorem sum_entries (h : Holds m l blocks items) :
    (l.map m.entryBytes).sum = (items.map fun it => it.id.length + 1 + entrySize).sum := by
  have hmap : l.map m.entryBytes =
      (l.map m.item).map fun o => o.elim 0 fun it => it.id.length + 1 + entrySize := by
    rw [List.map_map]
    refine List.map_congr_left fun p hp => ?_
    obtain ⟨e, q, b, he, -, -, hitem⟩ := h.item_eq hp
    simp [hitem, entryBytes, he, (h.coherent.entry_ok p e he).bytes]
  rw [hmap, h.items, List.map_map]
  rfl

theorem texts_perm (h : Holds m l blocks items) :
    (blocks.map fun q => (m.blockAt q).elim [] (·.dsml)).Perm (items.map (·.dsml)).dedup := by
  refine (List.perm_ext_iff_of_nodup ?_ (List.nodup_dedup _)).mpr fun d => ?_
  · refine (List.nodup_map_iff_inj_on h.coherent.blocks_nodup).mpr fun q hq q' hq' heq => ?_
    obtain ⟨b, hb⟩ := (h.coherent.mem_blocks q).mp hq
    obtain ⟨b', hb'⟩ := (h.coherent.mem_blocks q').mp hq'
    exact h.coherent.dsml_inj hb hb' (by simpa [hb, hb'] using heq)
  · rw [List.mem_dedup, List.mem_map, List.mem_map]
    constructor
    · rintro ⟨q, hq, rfl⟩
      obtain ⟨b, hb⟩ := (h.coherent.mem_blocks q).mp hq
      obtain ⟨own, hown, href⟩ := h.coherent.block_ok q b hb
      obtain ⟨p, hp⟩ := List.exists_mem_of_ne_nil own (href (by simp))
      obtain ⟨e, he, hblock⟩ := (hown.mem p).mp hp
      refine ⟨⟨e.id, b.dsml, e.source⟩, h.mem_items.mpr ⟨p, ?_, ?_⟩, by simp [hb]⟩
      · exact (h.coherent.mem p).mpr (live_iff.2 ⟨e, he⟩)
      · simp [item, he, hblock, hb]
    · rintro ⟨it, hit, rfl⟩
      obtain ⟨p, hp, hitem⟩ := h.mem_items.mp hit
      obtain ⟨e, q, b, -, -, hb, hitem'⟩ := h.item_eq hp
      obtain rfl := Option.some.inj (hitem.symm.trans hitem')
      exact ⟨q, (h.coherent.mem_blocks q).mpr ⟨b, hb⟩, by simp [hb]⟩

theorem bytes_eq (h : Holds m l blocks items) : m.bytes = itemsBytes items := by
  have hblocks : blocks.map m.blockBytes =
      (blocks.map fun q => (m.blockAt q).elim [] (·.dsml)).map fun d => d.length + 1 + blockSize := by
    rw [List.map_map]
    refine List.map_congr_left fun q hq => ?_
    obtain ⟨b, hb⟩ := (h.coherent.mem_blocks q).mp hq
    obtain ⟨own, hown, -⟩ := h.coherent.block_ok q b hb
    simp [blockBytes, hb, hown.bytes]
  rw [h.coherent.bytes, h.sum_entries, hblocks, (h.texts_perm.map _).sum_eq]
  rfl

theorem fits_iff (h : Holds m l blocks items) : (limits m).fits items = true ↔
    m.entries ≤ toolMemoryMaxEntries m ∧ m.bytes ≤ toolMemoryMaxBytes m := by
  rw [h.coherent.entries, h.bytes_eq, h.length_eq]
  simp only [ToolLimits.fits, Bool.and_eq_true, decide_eq_true_eq]
  exact Iff.rfl

theorem overLimits_iff (h : Holds m l blocks items) :
    overLimits m = true ↔ (limits m).fits items = false := by
  rw [← Bool.not_eq_true, h.fits_iff]
  simp only [overLimits, Bool.or_eq_true, decide_eq_true_eq]
  omega

theorem nodup_ids (h : Holds m l blocks items) : (items.map ToolItem.id).Nodup := by
  have hids : items.map ToolItem.id = l.map fun p => (m.entryAt p).elim [] (·.id) := by
    have := congrArg (List.map fun o : Option ToolItem => o.elim [] ToolItem.id) h.items
    rw [List.map_map, List.map_map] at this
    refine this.symm.trans (List.map_congr_left fun p hp => ?_)
    obtain ⟨e, q, b, he, -, -, hitem⟩ := h.item_eq hp
    simp [hitem, he]
  rw [hids]
  refine (List.nodup_map_iff_inj_on h.coherent.dll.nodup).mpr fun p hp p' hp' heq => ?_
  obtain ⟨e, he⟩ := h.coherent.live hp
  obtain ⟨e', he'⟩ := h.coherent.live hp'
  exact h.coherent.id_inj he he' (by simpa [he, he'] using heq)

end Holds

/-! ## The steps of the code -/

section Steps

variable {m : ToolMemory} {l blocks : List Addr}

/-- The memory with its items after a step. -/
def StepsTo (m : ToolMemory) (r : Option ToolMemory) (items : List ToolItem) : Prop :=
  ∃ m' l' blocks', r = some m' ∧ Holds m' l' blocks' items ∧ m'.maxEntries = m.maxEntries ∧
    m'.maxBytes = m.maxBytes

theorem limits_eq {m m' : ToolMemory} (hE : m'.maxEntries = m.maxEntries)
    (hB : m'.maxBytes = m.maxBytes) : limits m' = limits m := by
  simp only [limits, toolMemoryMaxEntries, toolMemoryMaxBytes, hE, hB]

theorem toolMemoryPruneLoop_spec (fuel : Nat) (h : Holds m l blocks items)
    (hfuel : items.length < fuel) :
    StepsTo m (toolMemoryPruneLoop fuel m) (Recent.prune (limits m).fits items) := by
  induction items using List.reverseRecOn generalizing m l blocks fuel with
  | nil =>
    obtain ⟨fuel, rfl⟩ := Nat.exists_eq_succ_of_ne_zero (Nat.ne_of_gt hfuel)
    have hover : overLimits m = false := by
      rw [← Bool.not_eq_true, h.overLimits_iff, fits_nil]
      simp
    refine ⟨m, l, blocks, ?_, h, rfl, rfl⟩
    rw [toolMemoryPruneLoop, hover]
    rfl
  | append_singleton items it ih =>
    obtain ⟨fuel, rfl⟩ := Nat.exists_eq_succ_of_ne_zero (Nat.ne_of_gt (Nat.zero_lt_of_lt hfuel))
    rw [toolMemoryPruneLoop, Recent.prune_snoc]
    by_cases hfits : (limits m).fits (items ++ [it]) = true
    · have hover : overLimits m = false := by
        rw [← Bool.not_eq_true, h.overLimits_iff, hfits]
        simp
      rw [hover, if_pos hfits]
      exact ⟨m, l, blocks, rfl, h, rfl, rfl⟩
    · have hover : overLimits m = true := h.overLimits_iff.mpr (by simpa using hfits)
      rw [hover, if_neg hfits]
      obtain ⟨a, p, rfl⟩ : ∃ a p, l = a ++ [p] := by
        rcases List.eq_nil_or_concat' l with rfl | hl
        · have := h.length_eq
          simp at this
        · exact hl
      have htail : m.tail = some p := by
        have := h.coherent.dll.tail_eq
        simpa [links] using this
      obtain ⟨m₁, blocks₁, hremove, hcoh, hitem, hE, hB⟩ :=
        toolMemoryRemoveEntryLocked_spec (c := []) h.coherent
      have hitems : a.map m.item = items.map some ∧ m.item p = some it := by
        have := h.items
        rw [List.map_append, List.map_append] at this
        obtain ⟨h1, h2⟩ := List.append_inj' this rfl
        exact ⟨h1, by simpa using h2⟩
      have h₁ : Holds m₁ a blocks₁ items := by
        rw [List.append_nil] at hcoh hitem
        exact ⟨hcoh, (List.map_congr_left hitem).trans hitems.1⟩
      have hlen : items.length < fuel := by simpa using hfuel
      obtain ⟨m', l', blocks', hloop, h', hE', hB'⟩ := ih fuel h₁ hlen
      rw [limits_eq hE hB] at h'
      refine ⟨m', l', blocks', ?_, h', hE'.trans hE, hB'.trans hB⟩
      simp only [htail, if_true, hremove, Option.bind_eq_bind, Option.bind_some, hloop]

/-- **Pruning** keeps the longest prefix that fits. -/
theorem toolMemoryPruneLocked_spec (h : Holds m l blocks items) :
    StepsTo m (toolMemoryPruneLocked m) (Recent.prune (limits m).fits items) :=
  toolMemoryPruneLoop_spec _ h (by rw [h.coherent.entries, h.length_eq]; exact Nat.lt_succ_self _)

theorem Holds.split (h : Holds m l blocks items) {p : Addr} {a c : List Addr}
    (hl : l = a ++ p :: c) : ∃ ia it ic, items = ia ++ it :: ic ∧ a.map m.item = ia.map some ∧
      m.item p = some it ∧ c.map m.item = ic.map some ∧
      items.filter (fun b => b.id ≠ it.id) = ia ++ ic := by
  subst hl
  have hitems := h.items
  rw [List.map_append, List.map_cons] at hitems
  obtain ⟨ia, ir, rfl, ha, hr⟩ := List.map_eq_append_iff.mp hitems.symm
  obtain ⟨it, ic, rfl, hp, hc⟩ := List.map_eq_cons_iff.mp hr
  refine ⟨ia, it, ic, rfl, ha.symm, hp.symm, hc.symm, ?_⟩
  have hnd := h.nodup_ids
  rw [List.map_append, List.map_cons] at hnd
  have hnot := (List.nodup_cons.mp (List.nodup_middle.mp hnd)).1
  have hkeep : ∀ b, b ∈ ia ++ ic → b.id ≠ it.id := fun b hb heq =>
    hnot (heq ▸ by rw [← List.map_append]; exact List.mem_map_of_mem hb)
  rw [List.filter_append, List.filter_cons_of_neg (by simp), ← List.filter_append]
  exact List.filter_eq_self.mpr fun b hb => by simpa using hkeep b hb

theorem Holds.find_some (h : Holds m l blocks items) {p : Addr}
    (hp : toolMemoryFindEntryLocked m id = some p) :
    ∃ a c, l = a ++ p :: c ∧ findItem items id = m.item p := by
  have hbyId : m.byId id = some p := by
    unfold toolMemoryFindEntryLocked at hp
    split_ifs at hp
    exact hp
  obtain ⟨e, he, rfl⟩ := (h.coherent.byId id p).mp hbyId
  have hmem := (h.coherent.mem p).mpr (live_iff.2 ⟨e, he⟩)
  obtain ⟨a, c, hl⟩ := List.append_of_mem hmem
  refine ⟨a, c, hl, ?_⟩
  obtain ⟨ia, it, ic, rfl, ha, hitem, -, hfilter⟩ := h.split hl
  obtain ⟨e', q, b, he', -, -, hitem'⟩ := h.item_eq hmem
  obtain rfl := Option.some.inj (he.symm.trans he')
  obtain rfl := Option.some.inj (hitem.symm.trans hitem')
  rw [hitem', findItem, List.find?_append, List.find?_eq_none.mpr, Option.none_or,
    List.find?_cons_of_pos (by simp)]
  intro b' hb'
  have hnd := h.nodup_ids
  rw [List.map_append, List.map_cons] at hnd
  have hnot := (List.nodup_cons.mp (List.nodup_middle.mp hnd)).1
  simp only [decide_eq_true_eq]
  intro heq
  exact hnot (List.mem_append_left _ (List.mem_map.mpr ⟨b', hb', heq⟩))

theorem Holds.find_none (h : Holds m l blocks items) (hid : id ≠ [])
    (hp : toolMemoryFindEntryLocked m id = none) : m.byId id = none ∧ findItem items id = none := by
  have hbyId : m.byId id = none := by simpa [toolMemoryFindEntryLocked, hid] using hp
  refine ⟨hbyId, List.find?_eq_none.mpr fun it hit => ?_⟩
  obtain ⟨p, hp, hitem⟩ := h.mem_items.mp hit
  obtain ⟨e, q, b, he, -, -, hitem'⟩ := h.item_eq hp
  obtain rfl := Option.some.inj (hitem.symm.trans hitem')
  simp only [decide_eq_true_eq]
  rintro rfl
  have := (h.coherent.byId e.id p).mpr ⟨e, he, rfl⟩
  rw [hbyId] at this
  cases this

/-- **Touching** an item moves it to the front. -/
theorem toolMemoryTouch_holds (h : Holds m l blocks items) {p : Addr} (hp : p ∈ l)
    (hit : m.item p = some it) :
    StepsTo m (toolMemoryTouch m p) (Recent.use ToolItem.id it items) := by
  obtain ⟨a, c, rfl⟩ := List.append_of_mem hp
  obtain ⟨ia, it', ic, rfl, ha, hit', hc, hfilter⟩ := h.split rfl
  obtain rfl := Option.some.inj (hit.symm.trans hit')
  obtain ⟨m', htouch, hcoh, hcore, hitem⟩ := toolMemoryTouch_spec h.coherent
  refine ⟨m', _, blocks, htouch, ⟨hcoh, ?_⟩, hcore.maxEntries, hcore.maxBytes⟩
  rw [Recent.use, hfilter, List.map_congr_left fun x _ => hitem x, List.map_cons, List.map_cons, hit,
    List.map_append, ha, hc, List.map_append]

theorem setSource_holds (h : Holds m l blocks items) {p : Addr} (hp : p ∈ l)
    (hit : m.item p = some it) (f : ToolMemorySource → ToolMemorySource) :
    ∃ m₁ items₁, (m.modifyEntry p fun e => { e with source := f e.source }) = some m₁ ∧
      Holds m₁ l blocks items₁ ∧ m₁.item p = some { it with source := f it.source } ∧
      items₁.filter (fun b => b.id ≠ it.id) = items.filter (fun b => b.id ≠ it.id) ∧
      m₁.maxEntries = m.maxEntries ∧ m₁.maxBytes = m.maxBytes := by
  obtain ⟨e, q, b, he, hq, hb, hitem⟩ := h.item_eq hp
  obtain rfl := Option.some.inj (hit.symm.trans hitem)
  set m₁ : ToolMemory := { m with
    entryAt := Function.update m.entryAt p (some { e with source := f e.source }) } with hm₁
  have hread : ∀ x, m₁.entryAt x = if x = p then some { e with source := f e.source }
      else m.entryAt x := fun x => by
    by_cases hx : x = p
    · subst hx
      simp [hm₁]
    · simp [hm₁, hx]
  have hcore : SameCore m m₁ := by
    refine ⟨rfl, rfl, rfl, rfl, rfl, rfl, rfl, rfl, fun x => ?_⟩
    by_cases hx : x = p
    · subst hx
      simp [hread, he, ToolMemoryEntry.core]
    · simp [hread, hx]
  have hlinks : m₁.links = m.links := by
    unfold links
    congr 1 <;>
    · funext x
      by_cases hx : x = p
      · subst hx
        simp [hread, he]
      · simp [hread, hx]
  have hnew : m₁.item p = some ⟨e.id, b.dsml, f e.source⟩ := by
    simp [item, hm₁, hq, hb]
  have hold : ∀ x, x ≠ p → m₁.item x = m.item x := fun x hx => by
    simp [item, hm₁, hx]
  obtain ⟨a, c, rfl⟩ := List.append_of_mem hp
  obtain ⟨ia, it, ic, rfl, ha, hit', hc, hfilter⟩ := h.split rfl
  obtain rfl := Option.some.inj (hit.symm.trans hit')
  have hpnot := (List.nodup_cons.mp (List.nodup_middle.mp h.coherent.dll.nodup)).1
  have h₁ : Holds m₁ (a ++ p :: c) blocks (ia ++ ⟨e.id, b.dsml, f e.source⟩ :: ic) := by
    refine ⟨h.coherent.reorder hcore (hlinks ▸ h.coherent.dll) (List.Perm.refl _), ?_⟩
    have ha' : a.map m₁.item = a.map m.item := List.map_congr_left fun x hx =>
      hold x fun hxp => hpnot (List.mem_append_left _ (hxp ▸ hx))
    have hc' : c.map m₁.item = c.map m.item := List.map_congr_left fun x hx =>
      hold x fun hxp => hpnot (List.mem_append_right _ (hxp ▸ hx))
    rw [List.map_append, List.map_cons, ha', hc', ha, hc, hnew, List.map_append, List.map_cons]
  refine ⟨m₁, _, by simp [modifyEntry, he, hm₁], h₁, hnew, ?_, rfl, rfl⟩
  simp [List.filter_append]

/-- **Putting** the text that an entry holds. -/
theorem toolMemoryRefreshLocked_spec (h : Holds m l blocks items) {p : Addr} (hp : p ∈ l)
    (hit : m.item p = some it) (source : ToolMemorySource) :
    StepsTo m (toolMemoryRefreshLocked m p source) (Recent.prune (limits m).fits
      (Recent.use ToolItem.id
        { it with source := if source = .ram then .ram else it.source } items)) := by
  obtain ⟨m₁, items₁, hmod, h₁, hit₁, hfilter, hE, hB⟩ :=
    setSource_holds h hp hit fun s => if source = .ram then .ram else s
  obtain ⟨m₂, l₂, blocks₂, htouch, h₂, hE₂, hB₂⟩ := toolMemoryTouch_holds h₁ hp hit₁
  have huse : Recent.use ToolItem.id
      { it with source := if source = .ram then .ram else it.source } items₁ =
      Recent.use ToolItem.id
        { it with source := if source = .ram then .ram else it.source } items :=
    congrArg (List.cons _) hfilter
  rw [huse] at h₂
  obtain ⟨m₃, l₃, blocks₃, hprune, h₃, hE₃, hB₃⟩ := toolMemoryPruneLocked_spec h₂
  rw [limits_eq hE₂ hB₂, limits_eq hE hB] at h₃
  refine ⟨m₃, l₃, blocks₃, ?_, h₃, hE₃.trans (hE₂.trans hE), hB₃.trans (hB₂.trans hB)⟩
  simp only [toolMemoryRefreshLocked, hmod, htouch, Option.bind_eq_bind, Option.bind_some, hprune]

/-- **Putting** a text under an id that the memory does not hold. -/
theorem toolMemoryInsertLocked_holds {dsml : Bytes} (source : ToolMemorySource)
    (h : Holds m l blocks items) (hid : m.byId id = none) (hne : id ≠ []) (hd : dsml ≠ []) :
    StepsTo m (toolMemoryInsertLocked m id dsml source)
      (Recent.prune (limits m).fits (⟨id, dsml, source⟩ :: items)) := by
  obtain ⟨m₁, p, blocks₁, hins, hcoh, hnew, hold, hE, hB⟩ :=
    toolMemoryInsertLocked_spec source h.coherent hid hne hd
  have h₁ : Holds m₁ (p :: l) blocks₁ (⟨id, dsml, source⟩ :: items) := by
    refine ⟨hcoh, ?_⟩
    rw [List.map_cons, List.map_cons, hnew, List.map_congr_left hold, h.items]
  obtain ⟨m₂, l₂, blocks₂, hprune, h₂, hE₂, hB₂⟩ := toolMemoryPruneLocked_spec h₁
  rw [limits_eq hE hB] at h₂
  exact ⟨m₂, l₂, blocks₂, hins.trans hprune, h₂, hE₂.trans hE, hB₂.trans hB⟩

theorem holdsText_eq (h : Holds m l blocks items) {p : Addr} {e : ToolMemoryEntry}
    (he : m.entryAt p = some e) (hp : p ∈ l) (hit : m.item p = some it) (dsml : Bytes) :
    holdsText m e dsml = some (decide (it.dsml = dsml)) := by
  obtain ⟨e', q, b, he', hq, hb, hitem⟩ := h.item_eq hp
  obtain rfl := Option.some.inj (he.symm.trans he')
  obtain rfl := Option.some.inj (hit.symm.trans hitem)
  obtain ⟨own, hown, -⟩ := h.coherent.block_ok q b hb
  simp only [holdsText, hq, hb, Option.map_some, Option.some.injEq, hown.len]
  by_cases hd : b.dsml = dsml <;> simp [hd]

/-- **A put** is the put of the specification. -/
theorem toolMemoryPutLocked_spec (h : Holds m l blocks items) (id dsml : Bytes)
    (source : ToolMemorySource) :
    StepsTo m (toolMemoryPutLocked m id dsml source)
      ((ToolMemoryCall.put id dsml source).after (limits m) items) := by
  unfold toolMemoryPutLocked ToolMemoryCall.after
  by_cases hempty : id = [] ∨ dsml = []
  · have hprunes : (ToolMemoryCall.put id dsml source).prunes = false := by
      rcases hempty with rfl | rfl <;> simp [ToolMemoryCall.prunes]
    rw [if_pos hempty, hprunes, if_neg Bool.false_ne_true, ToolMemoryCall.used, if_pos hempty]
    exact ⟨m, l, blocks, rfl, h, rfl, rfl⟩
  · have hprunes : (ToolMemoryCall.put id dsml source).prunes = true := by
      rw [not_or] at hempty
      simp [ToolMemoryCall.prunes, hempty]
    rw [if_neg hempty, hprunes, if_pos rfl, ToolMemoryCall.used, if_neg hempty, putSource]
    rw [not_or] at hempty
    cases hfind : toolMemoryFindEntryLocked m id with
    | none =>
      obtain ⟨hbyId, hitem⟩ := h.find_none hempty.1 hfind
      have hfilter : items.filter (fun b => b.id ≠ id) = items :=
        List.filter_eq_self.mpr fun b hb => by
          have := List.find?_eq_none.mp hitem b hb
          simpa using this
      simp only [hitem, Recent.use, hfilter]
      exact toolMemoryInsertLocked_holds source h hbyId hempty.1 hempty.2
    | some p =>
      obtain ⟨a, c, rfl, hitem⟩ := h.find_some hfind
      have hp : p ∈ a ++ p :: c := by simp
      obtain ⟨ia, it, ic, rfl, ha, hit, hc, hfilter⟩ := h.split rfl
      obtain ⟨e, he⟩ := h.coherent.live hp
      obtain ⟨-, rfl⟩ := findItem_some (hitem.trans hit)
      rw [hitem, hit]
      simp only [he, Option.bind_eq_bind, Option.bind_some, holdsText_eq h he hp hit]
      by_cases hd : it.dsml = dsml
      · subst hd
        have hsource : (if it.dsml = it.dsml ∧ source ≠ .ram then it.source else source) =
            if source = .ram then .ram else it.source := by
          cases source <;> simp
        rw [hsource]
        simpa using toolMemoryRefreshLocked_spec h hp hit source
      · obtain ⟨m₁, blocks₁, hremove, hcoh, hitem₁, hE, hB⟩ :=
          toolMemoryRemoveEntryLocked_spec h.coherent
        have h₁ : Holds m₁ (a ++ c) blocks₁ (ia ++ ic) := by
          refine ⟨hcoh, ?_⟩
          rw [List.map_congr_left hitem₁, List.map_append, ha, hc, List.map_append]
        have hbyId : m₁.byId it.id = none := by
          cases hb : m₁.byId it.id with
          | none => rfl
          | some x =>
            obtain ⟨e', he', hid'⟩ := (hcoh.byId it.id x).mp hb
            have hx := (hcoh.mem x).mpr (live_iff.2 ⟨e', he'⟩)
            obtain ⟨e'', q, b, he'', -, -, hitemx⟩ := h₁.item_eq hx
            obtain rfl := Option.some.inj (he'.symm.trans he'')
            have hmem := h₁.mem_items.mpr ⟨x, hx, hitemx⟩
            rw [← hfilter, List.mem_filter] at hmem
            simp [hid'] at hmem
        have hins := toolMemoryInsertLocked_holds source h₁ hbyId hempty.1 hempty.2
        simp only [decide_eq_true_eq, hd, if_false, false_and, Recent.use, hfilter, hremove,
          Option.bind_some]
        obtain ⟨m₂, l₂, blocks₂, hr, h₂, hE₂, hB₂⟩ := hins
        rw [limits_eq hE hB] at h₂
        exact ⟨m₂, l₂, blocks₂, hr, h₂, hE₂.trans hE, hB₂.trans hB⟩

/-- **A lookup** is the lookup of the specification and returns the text of the item. -/
theorem toolMemoryLookupLocked_spec (h : Holds m l blocks items) (id : Bytes) :
    ∃ m' r, toolMemoryLookupLocked m id = some (m', r) ∧
      r.map (·.1) = (findItem items id).map (·.dsml) ∧
      StepsTo m (some m') ((ToolMemoryCall.lookup id).after (limits m) items) := by
  unfold toolMemoryLookupLocked
  simp only [ToolMemoryCall.after, ToolMemoryCall.prunes, ToolMemoryCall.used, Bool.false_eq_true,
    if_false]
  cases hfind : toolMemoryFindEntryLocked m id with
  | none =>
    have hitem : findItem items id = none := by
      by_cases hid : id = []
      · refine List.find?_eq_none.mpr fun it hit => ?_
        obtain ⟨p, hp, hitem⟩ := h.mem_items.mp hit
        obtain ⟨e, q, b, he, -, -, hitem'⟩ := h.item_eq hp
        obtain rfl := Option.some.inj (hitem.symm.trans hitem')
        simpa [hid] using (h.coherent.entry_ok p e he).id_ne
      · exact (h.find_none hid hfind).2
    rw [hitem]
    exact ⟨m, none, rfl, rfl, m, l, blocks, rfl, h, rfl, rfl⟩
  | some p =>
    obtain ⟨a, c, rfl, hitem⟩ := h.find_some hfind
    have hp : p ∈ a ++ p :: c := by simp
    obtain ⟨e, q, b, he, hq, hb, hit⟩ := h.item_eq hp
    obtain ⟨m', l', blocks', htouch, h', hE, hB⟩ := toolMemoryTouch_holds h hp hit
    obtain ⟨m'', htouch', hcoh, hcore, hitems⟩ := toolMemoryTouch_spec h.coherent
    obtain rfl := Option.some.inj (htouch.symm.trans htouch')
    obtain ⟨e', he', -, hblock, -⟩ := hcore.get he
    have hb' : m'.blockAt q = some b := hcore.blockAt ▸ hb
    rw [hitem, hit]
    refine ⟨m', some (b.dsml, e'.source, q), ?_, rfl, m', l', blocks', rfl, h', hE, hB⟩
    simp only [he, hq, htouch, he', hb', Option.bind_eq_bind, Option.bind_some, Option.pure_def]

/-- **A call** is the call of the specification. -/
theorem toolMemoryCall_spec (h : Holds m l blocks items) (c : ToolMemoryCall) :
    ∃ r, c.run m = some r ∧ StepsTo m (some r.1) (c.after (limits m) items) := by
  cases c with
  | put id dsml source =>
    obtain ⟨m', l', blocks', hput, h', hE, hB⟩ := toolMemoryPutLocked_spec h id dsml source
    exact ⟨(m', none), by rw [ToolMemoryCall.run, hput]; rfl, m', l', blocks', rfl, h', hE, hB⟩
  | lookup id =>
    obtain ⟨m', r, hlookup, -, hstep⟩ := toolMemoryLookupLocked_spec h id
    exact ⟨(m', r.map (·.1)), by rw [ToolMemoryCall.run, hlookup]; rfl, hstep⟩
  | prune =>
    obtain ⟨m', l', blocks', hprune, h', hE, hB⟩ := toolMemoryPruneLocked_spec h
    exact ⟨(m', none), by rw [ToolMemoryCall.run, hprune]; rfl, m', l', blocks', rfl, h', hE, hB⟩

end Steps

/-! ## Runs -/

theorem runToolMemory_append (m : ToolMemory) (calls calls' : List ToolMemoryCall) :
    runToolMemory m (calls ++ calls') = (runToolMemory m calls).bind (runToolMemory · calls') := by
  induction calls generalizing m with
  | nil => rfl
  | cons c calls ih =>
    simp only [List.cons_append, runToolMemory, Option.bind_eq_bind, Option.bind_assoc, ih]

theorem runToolMemory_holds (maxEntries : Int) (maxBytes : Nat) (calls : List ToolMemoryCall) :
    ∃ m l blocks, runToolMemory (empty maxEntries maxBytes) calls = some m ∧
      Holds m l blocks (remembered (limits (empty maxEntries maxBytes)) calls) ∧
      m.maxEntries = maxEntries ∧ m.maxBytes = maxBytes ∧
      m.entries ≤ toolMemoryMaxEntries m ∧ m.bytes ≤ toolMemoryMaxBytes m := by
  induction calls using List.reverseRecOn with
  | nil => exact ⟨_, [], [], rfl, ⟨coherent_empty _ _, rfl⟩, rfl, rfl, Nat.zero_le _, Nat.zero_le _⟩
  | append_singleton calls c ih =>
    obtain ⟨m, l, blocks, hrun, h, hE, hB, hfits⟩ := ih
    obtain ⟨r, hcall, m', l', blocks', hr, h', hE', hB'⟩ := toolMemoryCall_spec h c
    obtain rfl := Option.some.inj hr
    have hlimits : limits m = limits (empty maxEntries maxBytes) := limits_eq hE hB
    rw [hlimits, ← remembered_snoc] at h'
    refine ⟨r.1, l', blocks', ?_, h', hE'.trans hE, hB'.trans hB, h'.fits_iff.mp ?_⟩
    · simp only [runToolMemory_append, hrun, Option.bind_some, runToolMemory, hcall,
        Option.bind_eq_bind]
    · rw [limits_eq hE' hB', hlimits, remembered_snoc]
      exact fits_after h.nodup_ids (hlimits ▸ h.fits_iff.mpr hfits) c

/-- **The tool memory.** Every run from the empty memory goes through and keeps the invariant. The
memory is within its limits and looks up what the specification remembers: the last text put under
each id that was not pruned since. Its list is in the order of the last use, and each call keeps the
longest part of it, from the latest used on, that is within the limits. -/
theorem run_toolMemory (maxEntries : Int) (maxBytes : Nat) (calls : List ToolMemoryCall) :
    ∃ m l blocks, runToolMemory (empty maxEntries maxBytes) calls = some m ∧ Coherent m l blocks ∧
      m.entries ≤ toolMemoryMaxEntries m ∧ m.bytes ≤ toolMemoryMaxBytes m ∧
      l.map m.item = (remembered (limits m) calls).map some ∧
      (∀ id, ∃ m' r, toolMemoryLookupLocked m id = some (m', r) ∧
        r.map (·.1) = (findItem (remembered (limits m) calls) id).map (·.dsml)) ∧
      (∀ it ∈ remembered (limits m) calls, lastPut calls it.id = some it.dsml) ∧
      (∀ id, lastPut calls id ≠ none → id ∉ (remembered (limits m) calls).map ToolItem.id →
        Pruned (limits m) calls id) ∧
      ((remembered (limits m) calls).map ToolItem.id).Sublist (recency calls) ∧
      ∀ c : ToolMemoryCall,
        ((c.used (remembered (limits m) calls)).map ToolItem.id).Sublist (recency (calls ++ [c])) ∧
        remembered (limits m) (calls ++ [c]) <+: c.used (remembered (limits m) calls) ∧
        ∀ kept, kept <+: c.used (remembered (limits m) calls) →
          (remembered (limits m) (calls ++ [c])).length < kept.length →
            (limits m).fits kept = false := by
  obtain ⟨m, l, blocks, hrun, h, hE, hB, hentries, hbytes⟩ :=
    runToolMemory_holds maxEntries maxBytes calls
  have hlimits : limits m = limits (empty maxEntries maxBytes) := limits_eq hE hB
  rw [← hlimits] at h
  refine ⟨m, l, blocks, hrun, h.coherent, hentries, hbytes, h.items, fun id => ?_,
    remembered_lastPut _ _, fun id => pruned_of_lastPut _, remembered_sublist _ _,
    fun c => ⟨used_sublist (remembered_sublist _ _) c, ?_, fun kept hkept hlen => ?_⟩⟩
  · obtain ⟨m', r, hlookup, hr, -⟩ := toolMemoryLookupLocked_spec h id
    exact ⟨m', r, hlookup, hr⟩
  · rw [remembered_snoc]
    exact after_isPrefix _ _ c
  · rw [remembered_snoc, ToolMemoryCall.after] at hlen
    split_ifs at hlen
    · exact Recent.prune_maximal _ hkept hlen
    · have := hkept.length_le
      omega

end Ds4.Server
