import Ds4.Server.ImageCache

/-!
# The operations of the image cache

The byte count is the sum over the slots and within the budget, no two slots have one clock, and the
loop of an insertion ends (`makeRoom_spec`): each round but the last evicts the oldest occupied slot,
and only when the new entry would not have fitted.
-/

namespace Ds4.Server

open Ds4.Lib

variable {F : Type} {cache : ImageCache F} {budget total : Nat}

/-! ## Sizes -/

theorem subSize_eq {a b : Nat} (h : b ≤ a) (ha : a < 2 ^ 64) : subSize a b = a - b := by
  unfold subSize
  omega

theorem addSize_eq {a b : Nat} (h : a + b < 2 ^ 64) : addSize a b = a + b := Nat.mod_eq_of_lt h

/-- The bytes of all slots. -/
def ImageCache.load (cache : ImageCache F) : Nat := ∑ i, slotBytes (cache.entries i)

theorem sum_update (f : Fin imageCacheEntries → Option (ImageEntry F)) (i : Fin imageCacheEntries)
    (slot : Option (ImageEntry F)) :
    ∑ j, slotBytes (Function.update f i slot j) + slotBytes (f i) =
      ∑ j, slotBytes (f j) + slotBytes slot := by
  have hsplit : ∀ g : Fin imageCacheEntries → Option (ImageEntry F),
      ∑ j, slotBytes (g j) = slotBytes (g i) + ∑ j ∈ Finset.univ.erase i, slotBytes (g j) := fun g =>
    (Finset.add_sum_erase _ _ (Finset.mem_univ i)).symm
  have hrest : ∑ j ∈ Finset.univ.erase i, slotBytes (Function.update f i slot j) =
      ∑ j ∈ Finset.univ.erase i, slotBytes (f j) :=
    Finset.sum_congr rfl fun j hj => by rw [Function.update_of_ne (Finset.ne_of_mem_erase hj)]
  rw [hsplit, hsplit f, hrest, Function.update_self]
  omega

theorem slotBytes_le_load (cache : ImageCache F) (i : Fin imageCacheEntries) :
    slotBytes (cache.entries i) ≤ cache.load :=
  Finset.single_le_sum (f := fun i => slotBytes (cache.entries i)) (fun _ _ => Nat.zero_le _)
    (Finset.mem_univ i)

/-! ## The invariant -/

/-- The byte count and the clocks of the slots. -/
structure ImageCache.Sound (budget : Nat) (cache : ImageCache F) : Prop where
  bytes_eq : cache.bytes = cache.load
  within : cache.bytes ≤ budget
  used_pos : ∀ i e, cache.entries i = some e → 0 < e.used ∧ e.used ≤ cache.clock
  used_inj : ∀ i j e e', cache.entries i = some e → cache.entries j = some e' → e.used = e'.used → i = j

/-- No two slots hold the same bytes. -/
def ImageCache.Apart (cache : ImageCache F) : Prop :=
  ∀ i j e e', cache.entries i = some e → cache.entries j = some e' → e.encoded = e'.encoded → i = j

theorem slotUsed_some {e : ImageEntry F} : slotUsed (some e) = e.used := rfl

@[simp] theorem slotUsed_none : slotUsed (none : Option (ImageEntry F)) = 0 := rfl

@[simp] theorem slotBytes_none : slotBytes (none : Option (ImageEntry F)) = 0 := rfl

theorem sound_empty : (ImageCache.empty : ImageCache F).Sound budget where
  bytes_eq := by simp [ImageCache.empty, ImageCache.load]
  within := Nat.zero_le _
  used_pos := by simp [ImageCache.empty]
  used_inj := by simp [ImageCache.empty]

theorem entries_remove {i j : Fin imageCacheEntries} {e : ImageEntry F} :
    (cache.remove i).entries j = some e ↔ j ≠ i ∧ cache.entries j = some e := by
  rcases eq_or_ne j i with rfl | hne
  · simp [ImageCache.remove]
  · simp [ImageCache.remove, hne]

theorem ImageCache.Sound.bytes_remove (h : cache.Sound budget) (hb : budget < 2 ^ 64)
    (i : Fin imageCacheEntries) :
    (cache.remove i).bytes + slotBytes (cache.entries i) = cache.bytes := by
  have hle : slotBytes (cache.entries i) ≤ cache.bytes := h.bytes_eq ▸ slotBytes_le_load cache i
  have hw := h.within
  have hmod : slotBytes (cache.entries i) % 2 ^ 64 = slotBytes (cache.entries i) :=
    Nat.mod_eq_of_lt (by omega)
  simp only [ImageCache.remove, hmod]
  rw [subSize_eq hle (by omega)]
  omega

theorem ImageCache.Sound.remove (h : cache.Sound budget) (hb : budget < 2 ^ 64)
    (i : Fin imageCacheEntries) : (cache.remove i).Sound budget where
  bytes_eq := by
    have hbytes := h.bytes_remove hb i
    have hsum : (cache.remove i).load + slotBytes (cache.entries i) = cache.load + 0 :=
      sum_update cache.entries i none
    have := h.bytes_eq
    omega
  within := by
    have := h.bytes_remove hb i
    have := h.within
    omega
  used_pos := fun j e hj => h.used_pos j e (entries_remove.mp hj).2
  used_inj := fun j k e e' hj hk =>
    h.used_inj j k e e' (entries_remove.mp hj).2 (entries_remove.mp hk).2

/-! ## The victim -/

theorem leastUsed_le (cache : ImageCache F) (i : Fin imageCacheEntries) :
    slotUsed (cache.entries cache.leastUsed) ≤ slotUsed (cache.entries i) := by
  obtain ⟨-, hfirst, hrest⟩ := foldl_unbeaten
    (fun a b => slotUsed (cache.entries a) < slotUsed (cache.entries b)) (fun a => lt_irrefl _)
    (fun a b c => lt_trans) 0 (List.finRange imageCacheEntries).tail
  have hmem : i = 0 ∨ i ∈ (List.finRange imageCacheEntries).tail := by
    have := List.mem_finRange i
    rw [List.finRange_succ] at this ⊢
    exact List.mem_cons.mp this
  rcases hmem with rfl | hi
  · rcases hfirst with heq | hlt
    · exact le_of_eq (congrArg (fun j => slotUsed (cache.entries j)) heq)
    · exact hlt.le
  · exact not_lt.mp (hrest i hi)

theorem leastOccupied_spec (dest : Fin imageCacheEntries) {k : Fin imageCacheEntries}
    {x : ImageEntry F} (hk : cache.entries k = some x) :
    ∃ e, cache.entries (cache.leastOccupied dest) = some e ∧
      ∀ j e', cache.entries j = some e' → e.used ≤ e'.used := by
  obtain ⟨-, -, hrest⟩ := foldl_unbeaten
    (fun a b : Fin imageCacheEntries => (cache.entries a).isSome ∧
      ((cache.entries b).isNone ∨ slotUsed (cache.entries a) < slotUsed (cache.entries b)))
    (fun a => by
      rintro ⟨h1, h2 | h2⟩
      · simp [Option.isNone_iff_eq_none.mp h2] at h1
      · exact lt_irrefl _ h2)
    (fun a b c => by
      rintro ⟨h1, h2⟩ ⟨h3, h4⟩
      have hlt : slotUsed (cache.entries a) < slotUsed (cache.entries b) :=
        h2.resolve_left fun h => by simp [Option.isNone_iff_eq_none.mp h] at h3
      exact ⟨h1, h4.imp id hlt.trans⟩)
    dest (List.finRange imageCacheEntries)
  have hbest : ∀ j e', cache.entries j = some e' →
      ¬ ((cache.entries (cache.leastOccupied dest)).isNone ∨
        e'.used < slotUsed (cache.entries (cache.leastOccupied dest))) := by
    intro j e' hj hb
    refine hrest j (List.mem_finRange j) ⟨by simp [hj], ?_⟩
    rw [hj, slotUsed_some]
    exact hb
  obtain ⟨e, he⟩ : ∃ e, cache.entries (cache.leastOccupied dest) = some e := by
    refine Option.ne_none_iff_exists'.mp fun hnone => hbest k x hk (.inl ?_)
    rw [hnone, Option.isNone_none]
  refine ⟨e, he, fun j e' hj => ?_⟩
  have := hbest j e' hj
  rw [he, slotUsed_some] at this
  exact not_lt.mp fun hlt => this (.inr hlt)

/-! ## The loop of an insertion -/

/-- An eviction is of the occupied slot of the longest unused entry, and the new entry would not
have fitted: all slots are taken or the bytes are over the budget. -/
structure Evicts (budget total : Nat) (cache : ImageCache F) (victim : Fin imageCacheEntries) :
    Prop where
  oldest : ∃ e, cache.entries victim = some e ∧ ∀ j e', cache.entries j = some e' → e.used ≤ e'.used
  needed : (∀ j, (cache.entries j).isSome) ∨ budget < cache.bytes + total

theorem round_spec (h : cache.Sound budget) (hb : budget < 2 ^ 64) (ht : total ≤ budget) :
    (∃ dest, cache.round budget total = .inl dest ∧ cache.entries dest = none ∧
      cache.bytes + total ≤ budget) ∨
    ∃ victim, cache.round budget total = .inr victim ∧ Evicts budget total cache victim := by
  have hsub : subSize budget total = budget - total := subSize_eq ht hb
  simp only [ImageCache.round, hsub]
  cases hslot : cache.entries cache.leastUsed with
  | none =>
    by_cases hfit : cache.bytes ≤ budget - total
    · rw [if_pos ⟨rfl, hfit⟩]
      exact .inl ⟨_, rfl, hslot, by omega⟩
    · -- the bytes do not fit, so that some slot is occupied
      rw [if_neg (fun hc => hfit hc.2), if_pos Option.isNone_none]
      obtain ⟨k, x, hk⟩ : ∃ k x, cache.entries k = some x := by
        by_contra hno
        have hzero : cache.load = 0 := by
          refine Finset.sum_eq_zero fun k _ => ?_
          cases hk : cache.entries k with
          | none => rfl
          | some x => exact absurd ⟨k, x, hk⟩ hno
        have := h.bytes_eq
        omega
      exact .inr ⟨_, rfl, leastOccupied_spec _ hk, .inr (by omega)⟩
  | some e =>
    rw [if_neg (fun hc => by simp at hc), if_neg (by simp)]
    have hpos : 0 < e.used := (h.used_pos _ e hslot).1
    refine .inr ⟨_, rfl, ⟨e, hslot, fun j e' hj => ?_⟩, .inl fun j => ?_⟩
    · have := leastUsed_le cache j
      rwa [hslot, hj] at this
    · have := leastUsed_le cache j
      rw [hslot, slotUsed_some] at this
      cases hj : cache.entries j with
      | none =>
        rw [hj, slotUsed_none] at this
        omega
      | some _ => rfl

/-- How many slots are occupied. -/
def ImageCache.count (cache : ImageCache F) : Nat :=
  (Finset.univ.filter fun i => (cache.entries i).isSome).card

theorem count_remove {i : Fin imageCacheEntries} {e : ImageEntry F} (hi : cache.entries i = some e) :
    (cache.remove i).count < cache.count := by
  refine Finset.card_lt_card (Finset.ssubset_iff_of_subset ?_ |>.mpr ⟨i, ?_, ?_⟩)
  · intro j hj
    obtain ⟨e', hj⟩ := Option.isSome_iff_exists.mp (Finset.mem_filter.mp hj).2
    simp [(entries_remove.mp hj).2]
  · simp [hi]
  · intro hmem
    simpa [ImageCache.remove] using (Finset.mem_filter.mp hmem).2

/-- What the loop leaves: room in an empty slot, and of the entries those that it did not evict. -/
structure Room.Spec (budget total : Nat) (cache : ImageCache F) (room : Room F) : Prop where
  sound : room.cache.Sound budget
  empty : room.cache.entries room.dest = none
  fits : room.cache.bytes + total ≤ budget
  clock : room.cache.clock = cache.clock
  evicts : ∀ p ∈ room.evicted, Evicts budget total p.1 p.2
  held : ∀ p ∈ room.evicted, p.1.entries p.2 = cache.entries p.2
  within : ∀ p ∈ room.evicted, ∀ j e, p.1.entries j = some e → cache.entries j = some e
  left : ∀ j e, room.cache.entries j = some e ↔
    cache.entries j = some e ∧ ∀ p ∈ room.evicted, p.2 ≠ j

/-- **The loop of an insertion ends.** Each round but the last empties an occupied slot. -/
theorem makeRoom_spec (hb : budget < 2 ^ 64) (ht : total ≤ budget) (fuel : Nat) (cache : ImageCache F)
    (h : cache.Sound budget) (hfuel : cache.count < fuel) :
    ∃ room, cache.makeRoom budget total fuel = some room ∧ Room.Spec budget total cache room := by
  induction fuel generalizing cache with
  | zero => omega
  | succ fuel ih =>
    rw [ImageCache.makeRoom]
    rcases round_spec h hb ht with ⟨dest, hround, hdest, hfits⟩ | ⟨victim, hround, hevicts⟩
    · rw [hround]
      exact ⟨_, rfl, h, hdest, hfits, rfl, by simp, by simp, by simp, by simp⟩
    · rw [hround]
      obtain ⟨e, he, -⟩ := hevicts.oldest
      have hcount := count_remove he
      obtain ⟨room, hroom, hspec⟩ := ih (cache.remove victim) (h.remove hb victim) (by omega)
      refine ⟨{ room with evicted := (cache, victim) :: room.evicted }, by simp [hroom], ?_⟩
      have hother : ∀ p ∈ room.evicted, p.2 ≠ victim := by
        intro p hp heq
        obtain ⟨x, hx, -⟩ := (hspec.evicts p hp).oldest
        rw [hspec.held p hp] at hx
        exact (entries_remove.mp hx).1 heq
      refine ⟨hspec.sound, hspec.empty, hspec.fits, hspec.clock, ?_, ?_, ?_, fun j x => ?_⟩
      · intro p hp
        rcases List.mem_cons.mp hp with rfl | hp
        · exact hevicts
        · exact hspec.evicts p hp
      · intro p hp
        rcases List.mem_cons.mp hp with rfl | hp
        · rfl
        · rw [hspec.held p hp]
          exact Function.update_of_ne (hother p hp) _ _
      · intro p hp j x hx
        rcases List.mem_cons.mp hp with rfl | hp
        · exact hx
        · exact (entries_remove.mp (hspec.within p hp j x hx)).2
      · rw [hspec.left, entries_remove, List.forall_mem_cons]
        tauto

theorem count_le (cache : ImageCache F) : cache.count ≤ imageCacheEntries := by
  have := Finset.card_filter_le (Finset.univ : Finset (Fin imageCacheEntries))
    (fun i => (cache.entries i).isSome)
  simpa [ImageCache.count] using this

/-! ## The operations -/

theorem ImageCache.Sound.write (h : cache.Sound budget) {i : Fin imageCacheEntries} {e : ImageEntry F}
    {bytes : Nat} (hbytes : bytes + slotBytes (cache.entries i) = cache.bytes + slotBytes (some e))
    (hle : bytes ≤ budget) (hused : e.used = cache.clock + 1) :
    ImageCache.Sound budget ⟨Function.update cache.entries i (some e), bytes, cache.clock + 1⟩ where
  bytes_eq := by
    have hsum := sum_update cache.entries i (some e)
    have := h.bytes_eq
    simp only [ImageCache.load] at this ⊢
    omega
  within := hle
  used_pos := by
    intro j x hj
    rcases eq_or_ne j i with rfl | hne
    · obtain rfl : e = x := by simpa using hj
      simp only
      omega
    · have hj : cache.entries j = some x := by simpa [Function.update_of_ne hne] using hj
      have := h.used_pos j x hj
      simp only
      omega
  used_inj := by
    have hold : ∀ j x, j ≠ i → Function.update cache.entries i (some e) j = some x →
        cache.entries j = some x ∧ x.used ≤ cache.clock := by
      intro j x hne hj
      rw [Function.update_of_ne hne] at hj
      exact ⟨hj, (h.used_pos j x hj).2⟩
    intro j k x y hj hk hxy
    rcases eq_or_ne j i with hji | hji <;> rcases eq_or_ne k i with hki | hki
    · exact hji.trans hki.symm
    · obtain rfl : e = x := by simpa [hji] using hj
      have := (hold k y hki hk).2
      omega
    · obtain rfl : e = y := by simpa [hki] using hk
      have := (hold j x hji hj).2
      omega
    · exact h.used_inj j k x y (hold j x hji hj).1 (hold k y hki hk).1 hxy

theorem find_eq_none {encoded : Bytes} :
    cache.find encoded = none ↔ ∀ i e, cache.entries i = some e → e.encoded ≠ encoded := by
  simp only [ImageCache.find, List.find?_eq_none]
  constructor
  · intro h i e hi
    simpa [hi] using h i (List.mem_finRange i)
  · intro h i _
    cases hi : cache.entries i with
    | none => simp
    | some e => simpa using h i e hi

theorem of_find_eq_some {encoded : Bytes} {i : Fin imageCacheEntries}
    (h : cache.find encoded = some i) : ∃ e, cache.entries i = some e ∧ e.encoded = encoded := by
  have := List.find?_some h
  simpa [Option.any_eq_true] using this

theorem imageGet_cases (cache : ImageCache F) (encoded : Bytes) (alloc : Bool) :
    (cache.get encoded alloc = (none, cache) ∧ (alloc = true → cache.find encoded = none)) ∨
    ∃ i e, alloc = true ∧ cache.find encoded = some i ∧ cache.entries i = some e ∧ e.encoded = encoded ∧
      cache.get encoded alloc = (some e.embedding,
        ⟨Function.update cache.entries i (some { e with used := cache.clock + 1 }), cache.bytes,
          cache.clock + 1⟩) := by
  cases hfind : cache.find encoded with
  | none => exact .inl ⟨by simp [ImageCache.get, hfind], fun _ => rfl⟩
  | some i =>
    obtain ⟨e, hi, he⟩ := of_find_eq_some hfind
    cases alloc with
    | false => exact .inl ⟨by simp [ImageCache.get, hfind, hi], by simp⟩
    | true => exact .inr ⟨i, e, rfl, rfl, hi, he, by simp [ImageCache.get, hfind, hi]⟩

theorem ImageCache.Sound.get (h : cache.Sound budget) (encoded : Bytes) (alloc : Bool) :
    (cache.get encoded alloc).2.Sound budget := by
  rcases imageGet_cases cache encoded alloc with ⟨hget, -⟩ | ⟨i, e, -, -, hi, -, hget⟩
  · rwa [hget]
  · rw [hget]
    exact h.write (by rw [hi]; rfl) h.within rfl

theorem clear_eq_empty (h : cache.Sound budget) (hb : budget < 2 ^ 64) : cache.clear = .empty := by
  have hfold : ∀ (l : List (Fin imageCacheEntries)) (c : ImageCache F), c.Sound budget →
      (l.foldl ImageCache.remove c).Sound budget ∧
        ∀ j e, (l.foldl ImageCache.remove c).entries j = some e → j ∉ l := by
    intro l
    induction l with
    | nil => exact fun c hc => ⟨hc, by simp⟩
    | cons i l ih =>
      intro c hc
      obtain ⟨hs, hout⟩ := ih _ (hc.remove hb i)
      refine ⟨hs, fun j e hj hmem => ?_⟩
      rcases List.mem_cons.mp hmem with rfl | hmem
      · have hsub : ∀ (l : List (Fin imageCacheEntries)) (c : ImageCache F),
            (l.foldl ImageCache.remove c).entries j = some e → c.entries j = some e := by
          intro l
          induction l with
          | nil => exact fun c hc => hc
          | cons k l ih => exact fun c hc => (entries_remove.mp (ih _ hc)).2
        exact (entries_remove.mp (hsub l _ hj)).1 rfl
      · exact hout j e hj hmem
  obtain ⟨hs, hout⟩ := hfold (List.finRange imageCacheEntries) cache h
  have hnone : ∀ j, ((List.finRange imageCacheEntries).foldl ImageCache.remove cache).entries j = none :=
    fun j => Option.eq_none_iff_forall_ne_some.mpr fun e hj => hout j e hj (List.mem_finRange j)
  have hbytes : ((List.finRange imageCacheEntries).foldl ImageCache.remove cache).bytes = 0 := by
    rw [hs.bytes_eq]
    exact Finset.sum_eq_zero fun j _ => by rw [hnone j]; rfl
  rw [ImageCache.clear, ImageCache.empty, hbytes, funext hnone]

/-- What an insertion does. -/
structure Put.Spec (budget : Nat) (cache : ImageCache F) (encoded : Bytes)
    (embedding : VisionEmbedding F) (dim : Nat) (put : Put F) : Prop where
  sound : put.cache.Sound budget
  evicts : ∀ p ∈ put.evicted,
    Evicts budget (encoded.length + embedding.tokenCount * dim * 4) p.1 p.2
  held : ∀ p ∈ put.evicted, p.1.entries p.2 = cache.entries p.2
  within : ∀ p ∈ put.evicted, ∀ j e, p.1.entries j = some e → cache.entries j = some e
  stored : ∀ i e, put.stored = some (i, e) → e.encoded = encoded ∧ e.embedding = embedding.copy dim
  used : ∀ i e, put.stored = some (i, e) → e.used = put.cache.clock
  clock : put.cache.clock = cache.clock + put.stored.toList.length
  left : ∀ j e, put.cache.entries j = some e ↔
    put.stored = some (j, e) ∨ cache.entries j = some e ∧ ∀ p ∈ put.evicted, p.2 ≠ j

theorem of_putAccepts {encoded : Bytes} {embedding : VisionEmbedding F} {dim : Nat}
    (h : putAccepts encoded embedding dim budget = true) (hb : budget < 2 ^ 64) :
    encoded.length + embedding.tokenCount * dim * 4 ≤ budget := by
  simp only [putAccepts, Bool.and_eq_true, bne_iff_ne, decide_eq_true_eq] at h
  obtain ⟨⟨⟨⟨⟨-, hdim⟩, -⟩, -⟩, hcount⟩, hlen⟩ := h
  have hbytes : embedding.tokenCount * dim * 4 ≤ budget := by
    rw [Nat.div_div_eq_div_mul, Nat.le_div_iff_mul_le (by omega)] at hcount
    calc embedding.tokenCount * dim * 4 = embedding.tokenCount * (4 * dim) := by ring
      _ ≤ budget := hcount
  rw [Nat.mod_eq_of_lt (by omega), subSize_eq hbytes hb] at hlen
  omega

/-- **An insertion.** -/
theorem put_spec (h : cache.Sound budget) (hb : budget < 2 ^ 64) (encoded : Bytes)
    (embedding : VisionEmbedding F) (dim : Nat) (allocEncoded allocData : Bool) :
    ∃ put, cache.put encoded embedding dim budget allocEncoded allocData = some put ∧
      put.Spec budget cache encoded embedding dim := by
  rw [ImageCache.put]
  cases haccepts : putAccepts encoded embedding dim budget with
  | false =>
    rw [if_pos (by simp)]
    exact ⟨_, rfl, h, by simp, by simp, by simp, by simp, by simp, rfl, by simp⟩
  | true =>
    have htotal := of_putAccepts haccepts hb
    have hbytes : embedding.tokenCount * dim * 4 % 2 ^ 64 = embedding.tokenCount * dim * 4 :=
      Nat.mod_eq_of_lt (by omega)
    have hadd : addSize encoded.length (embedding.tokenCount * dim * 4) =
        encoded.length + embedding.tokenCount * dim * 4 := addSize_eq (by omega)
    obtain ⟨room, hroom, hspec⟩ := makeRoom_spec hb htotal (imageCacheEntries + 1) cache h
      (Nat.lt_succ_of_le (count_le cache))
    rw [if_neg (by simp)]
    simp only [hbytes, hadd, hroom, Option.map_some]
    by_cases halloc : (!allocEncoded || !allocData) = true
    · rw [if_pos halloc]
      exact ⟨_, rfl, hspec.sound, hspec.evicts, hspec.held, hspec.within, by simp, by simp, hspec.clock,
        fun j e => by simpa using hspec.left j e⟩
    · rw [if_neg halloc]
      have hfits := hspec.fits
      have hsum : addSize room.cache.bytes (encoded.length + embedding.tokenCount * dim * 4) =
          room.cache.bytes + (encoded.length + embedding.tokenCount * dim * 4) :=
        addSize_eq (by omega)
      rw [hsum]
      refine ⟨_, rfl, hspec.sound.write ?_ (by omega) rfl, hspec.evicts, hspec.held, hspec.within, ?_, ?_, ?_,
        ?_⟩
      · rw [hspec.empty]
        rfl
      · rintro i e ⟨⟩
        exact ⟨rfl, rfl⟩
      · rintro i e ⟨⟩
        rfl
      · exact congrArg (· + 1) hspec.clock
      · intro j e
        rcases eq_or_ne j room.dest with rfl | hne
        · have hempty : ¬ (cache.entries room.dest = some e ∧ ∀ p ∈ room.evicted, p.2 ≠ room.dest) := by
            rw [← hspec.left, hspec.empty]
            simp
          rw [or_iff_left hempty]
          simp
        · simp [hne, hne.symm, hspec.left]

theorem stored_isSome {encoded : Bytes} {embedding : VisionEmbedding F} {dim : Nat}
    {allocEncoded allocData : Bool} {put : Put F}
    (h : cache.put encoded embedding dim budget allocEncoded allocData = some put) :
    put.stored.isSome ↔
      putAccepts encoded embedding dim budget = true ∧ allocEncoded = true ∧ allocData = true := by
  rw [ImageCache.put] at h
  cases haccepts : putAccepts encoded embedding dim budget with
  | false =>
    rw [haccepts, if_pos (by simp)] at h
    obtain rfl := Option.some.inj h
    simp
  | true =>
    rw [haccepts, if_neg (by simp)] at h
    obtain ⟨room, -, rfl⟩ := Option.map_eq_some_iff.mp h
    cases allocEncoded <;> cases allocData <;> simp

end Ds4.Server
