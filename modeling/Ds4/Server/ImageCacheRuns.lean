import Ds4.Server.ImageCacheSlots

/-!
# Every run of the image cache

In every run the byte count is the sum over the slots and within the budget, an insertion ends, and a slot
is evicted when all others that are taken were used after it. When the insertions bring new bytes, the
keys stay apart and the occupied slots are the insertions that have not been evicted since
(`ImageCache.Logged`).
-/

namespace Ds4.Server

open Ds4.Lib

variable {F : Type} {cache : ImageCache F} {budget : Nat}

/-! ## Runs -/

/-- A call of one of the cache functions. -/
inductive ImageOp (F : Type)
  | get (encoded : Bytes) (alloc : Bool)
  | put (encoded : Bytes) (embedding : VisionEmbedding F) (dim : Nat) (allocEncoded allocData : Bool)
  | clear

/-- What happens to the entry of a slot or of some bytes. -/
inductive ImageEvent (F : Type)
  | hit (slot : Fin imageCacheEntries)
  | stored (slot : Fin imageCacheEntries) (encoded : Bytes) (embedding : VisionEmbedding F)
  | evicted (encoded : Bytes)
  | cleared

/-- The slot that a lookup found, if it could copy the embedding. -/
def ImageCache.hits (cache : ImageCache F) (encoded : Bytes) (alloc : Bool) : List (ImageEvent F) :=
  if alloc then (cache.find encoded).toList.map .hit else []

/-- The entries evicted by an insertion, and the one that it stores. -/
def Put.events (put : Put F) : List (ImageEvent F) :=
  put.evicted.filterMap (fun p => (p.1.entries p.2).map fun e => .evicted e.encoded) ++
    put.stored.toList.map fun x => .stored x.1 x.2.encoded x.2.embedding

/-- One call. -/
def ImageCache.step (budget : Nat) (cache : ImageCache F) :
    ImageOp F → Option (List (ImageEvent F) × ImageCache F)
  | .get encoded alloc => some (cache.hits encoded alloc, (cache.get encoded alloc).2)
  | .put encoded embedding dim allocEncoded allocData =>
    (cache.put encoded embedding dim budget allocEncoded allocData).map fun put =>
      (put.events, put.cache)
  | .clear => some ([.cleared], cache.clear)

/-- An insertion brings bytes that the cache does not hold. -/
def ImageOp.Fresh (cache : ImageCache F) : ImageOp F → Prop
  | .put encoded .. => cache.find encoded = none
  | _ => True

/-- The caches that a run can reach, with what has happened on the way; of a `fresh` one every insertion brings new
bytes. -/
inductive ImageRun (budget : Nat) (fresh : Bool) : List (ImageEvent F) → ImageCache F → Prop
  | start : ImageRun budget fresh [] .empty
  | call {log events : List (ImageEvent F)} {cache cache' : ImageCache F} {op : ImageOp F} :
      ImageRun budget fresh log cache → (fresh = true → op.Fresh cache) →
      cache.step budget op = some (events, cache') → ImageRun budget fresh (log ++ events) cache'

/-! ## The order of uses -/

/-- The slot that an event uses: a hit or an insertion. -/
def ImageEvent.slot : ImageEvent F → Option (Fin imageCacheEntries)
  | .hit slot => some slot
  | .stored slot .. => some slot
  | .evicted _ => none
  | .cleared => none

/-- The slots used so far, the last one last. -/
def uses (log : List (ImageEvent F)) : List (Fin imageCacheEntries) := log.filterMap ImageEvent.slot

/-- A slot was used after the last use of another. -/
def UsedSince (uses : List (Fin imageCacheEntries)) (i j : Fin imageCacheEntries) : Prop :=
  ∃ front back, uses = front ++ i :: back ∧ i ∉ back ∧ j ∈ back

/-- A slot that holds an entry, used less recently than any other that does. -/
structure LeastRecent (uses : List (Fin imageCacheEntries)) (cache : ImageCache F)
    (victim : Fin imageCacheEntries) : Prop where
  occupied : (cache.entries victim).isSome
  earliest : ∀ j, j ≠ victim → (cache.entries j).isSome → UsedSince uses victim j

/-- The clock of an entry counts back to the last use of its slot. -/
def ImageCache.Timed (uses : List (Fin imageCacheEntries)) (cache : ImageCache F) : Prop :=
  ∀ i e, cache.entries i = some e →
    ∃ front back, uses = front ++ i :: back ∧ i ∉ back ∧ back.length + e.used = cache.clock

theorem ImageCache.Timed.usedSince {uses : List (Fin imageCacheEntries)} (h : cache.Timed uses)
    {i j : Fin imageCacheEntries} {e e' : ImageEntry F} (hi : cache.entries i = some e)
    (hj : cache.entries j = some e') (hlt : e.used < e'.used) : UsedSince uses i j := by
  obtain ⟨front, back, huses, hlast, hlen⟩ := h i e hi
  obtain ⟨front', back', huses', -, hlen'⟩ := h j e' hj
  have hback : back <:+ uses := ⟨front ++ [i], by rw [huses, List.append_assoc]; rfl⟩
  have hback' : j :: back' <:+ uses := ⟨front', huses'.symm⟩
  have hsuffix : j :: back' <:+ back := by
    refine List.suffix_of_suffix_length_le hback' hback ?_
    rw [List.length_cons]
    omega
  exact ⟨front, back, huses, hlast, hsuffix.subset List.mem_cons_self⟩

theorem ImageCache.Timed.use {uses : List (Fin imageCacheEntries)} (h : cache.Timed uses)
    {k : Fin imageCacheEntries} {cache' : ImageCache F} (hclock : cache'.clock = cache.clock + 1)
    (hentries : ∀ i e, cache'.entries i = some e →
      (i = k ∧ e.used = cache.clock + 1) ∨ (i ≠ k ∧ cache.entries i = some e)) :
    cache'.Timed (uses ++ [k]) := by
  intro i e hi
  rcases hentries i e hi with ⟨rfl, hused⟩ | ⟨hne, hold⟩
  · exact ⟨uses, [], rfl, List.not_mem_nil, by rw [hused, hclock, List.length_nil, Nat.zero_add]⟩
  · obtain ⟨front, back, huses, hlast, hlen⟩ := h i e hold
    refine ⟨front, back ++ [k], by rw [huses, List.append_assoc]; rfl, ?_, ?_⟩
    · rw [List.mem_append, List.mem_singleton]
      exact not_or.2 ⟨hlast, hne⟩
    · rw [List.length_append, List.length_singleton, hclock]
      omega

/-! ## What is stored -/

/-- One event changes what is stored. -/
def ImageEvent.apply (live : Bytes → Option (VisionEmbedding F)) :
    ImageEvent F → Bytes → Option (VisionEmbedding F)
  | .hit _ => live
  | .stored _ encoded embedding => Function.update live encoded (some embedding)
  | .evicted encoded => Function.update live encoded none
  | .cleared => fun _ => none

/-- The embedding that was stored last for some bytes, none when it has been evicted since. -/
def lastStored (log : List (ImageEvent F)) : Bytes → Option (VisionEmbedding F) :=
  log.foldl ImageEvent.apply fun _ => none

/-- The occupied slots are what the log says is stored. -/
def ImageCache.Logged (cache : ImageCache F) (log : List (ImageEvent F)) : Prop :=
  ∀ encoded embedding, lastStored log encoded = some embedding ↔
    ∃ i e, cache.entries i = some e ∧ e.encoded = encoded ∧ e.embedding = embedding

theorem lastStored_append (log events : List (ImageEvent F)) :
    lastStored (log ++ events) = events.foldl ImageEvent.apply (lastStored log) :=
  List.foldl_append

theorem foldl_evicted (keys : List Bytes) (live : Bytes → Option (VisionEmbedding F)) (encoded : Bytes) :
    ((keys.map ImageEvent.evicted).foldl ImageEvent.apply live) encoded =
      if encoded ∈ keys then none else live encoded := by
  induction keys generalizing live with
  | nil => simp
  | cons key keys ih =>
    rw [List.map_cons, List.foldl_cons, ih, ImageEvent.apply]
    by_cases hmem : encoded ∈ keys
    · simp [hmem]
    · rcases eq_or_ne encoded key with rfl | hne
      · simp
      · simp [hmem, hne]

theorem ImageCache.Apart.get (h : cache.Apart) (encoded : Bytes) (alloc : Bool) :
    (cache.get encoded alloc).2.Apart := by
  rcases imageGet_cases cache encoded alloc with ⟨hget, -⟩ | ⟨i, e, -, -, hi, -, hget⟩
  · rwa [hget]
  · rw [hget]
    have hold : ∀ j x, Function.update cache.entries i (some { e with used := cache.clock + 1 }) j =
        some x → ∃ y, cache.entries j = some y ∧ y.encoded = x.encoded := by
      intro j x hj
      rcases eq_or_ne j i with hji | hji
      · obtain rfl : { e with used := cache.clock + 1 } = x := by simpa [hji] using hj
        exact ⟨e, hji ▸ hi, rfl⟩
      · rw [Function.update_of_ne hji] at hj
        exact ⟨x, hj, rfl⟩
    intro j k x y hj hk hxy
    obtain ⟨x', hx, hxe⟩ := hold j x hj
    obtain ⟨y', hy, hye⟩ := hold k y hk
    exact h j k x' y' hx hy (by rw [hxe, hye, hxy])

theorem lastStored_hits (log : List (ImageEvent F)) (encoded : Bytes) (alloc : Bool) :
    lastStored (log ++ cache.hits encoded alloc) = lastStored log := by
  rw [lastStored_append, ImageCache.hits]
  split
  · cases cache.find encoded <;> rfl
  · rfl

theorem ImageCache.Logged.get {log : List (ImageEvent F)} (h : cache.Logged log) (encoded : Bytes)
    (alloc : Bool) : (cache.get encoded alloc).2.Logged (log ++ cache.hits encoded alloc) := by
  intro key embedding
  rw [lastStored_hits, h key embedding]
  rcases imageGet_cases cache encoded alloc with ⟨hget, -⟩ | ⟨i, e, -, -, hi, -, hget⟩
  · rw [hget]
  · rw [hget]
    constructor
    · rintro ⟨j, x, hj, hx⟩
      rcases eq_or_ne j i with rfl | hji
      · obtain rfl : e = x := Option.some.inj (hi.symm.trans hj)
        exact ⟨j, _, Function.update_self .., hx⟩
      · exact ⟨j, x, (Function.update_of_ne hji _ _).trans hj, hx⟩
    · rintro ⟨j, x, hj, hx⟩
      rcases eq_or_ne j i with rfl | hji
      · obtain rfl : { e with used := cache.clock + 1 } = x := by simpa using hj
        exact ⟨j, e, hi, hx⟩
      · exact ⟨j, x, (Function.update_of_ne hji _ _).symm.trans hj, hx⟩

theorem ImageCache.Timed.get {log : List (ImageEvent F)} (h : cache.Timed (uses log)) (encoded : Bytes)
    (alloc : Bool) : (cache.get encoded alloc).2.Timed (uses (log ++ cache.hits encoded alloc)) := by
  rw [uses, List.filterMap_append]
  rcases imageGet_cases cache encoded alloc with ⟨hget, hmiss⟩ | ⟨i, e, rfl, hfind, hi, -, hget⟩
  · have hhits : cache.hits encoded alloc = [] := by
      cases alloc with
      | false => rfl
      | true => rw [ImageCache.hits, if_pos rfl, hmiss rfl]; rfl
    rw [hget, hhits, List.filterMap_nil, List.append_nil]
    exact h
  · have hhits : cache.hits encoded true = [.hit i] := by rw [ImageCache.hits, if_pos rfl, hfind]; rfl
    rw [hget, hhits]
    refine h.use rfl fun j x hj => ?_
    rcases eq_or_ne j i with hji | hji
    · obtain rfl : { e with used := cache.clock + 1 } = x := by simpa [hji] using hj
      exact .inl ⟨hji, rfl⟩
    · exact .inr ⟨hji, (Function.update_of_ne hji _ _).symm.trans hj⟩

section Insertion

variable {encoded : Bytes} {embedding : VisionEmbedding F} {dim : Nat} {put : Put F}

theorem Put.Spec.apart (hspec : put.Spec budget cache encoded embedding dim) (h : cache.Apart)
    (hfresh : cache.find encoded = none) : put.cache.Apart := by
  have hnew : ∀ i j x y, put.stored = some (i, x) → cache.entries j = some y → x.encoded ≠ y.encoded :=
    fun i j x y hx hj heq => find_eq_none.mp hfresh j y hj (heq ▸ (hspec.stored i x hx).1)
  intro j k x y hj hk hxy
  rcases (hspec.left j x).mp hj with hx | ⟨hx, -⟩ <;> rcases (hspec.left k y).mp hk with hy | ⟨hy, -⟩
  · exact congrArg Prod.fst (Option.some.inj (hx.symm.trans hy))
  · exact absurd hxy (hnew j k x y hx hy)
  · exact absurd hxy.symm (hnew k j y x hy hx)
  · exact h j k x y hx hy hxy

/-- The bytes of the entries that an insertion evicted. -/
def Put.evictedKeys (put : Put F) : List Bytes :=
  put.evicted.filterMap fun p => (p.1.entries p.2).map ImageEntry.encoded

theorem Put.events_eq (put : Put F) : put.events = put.evictedKeys.map ImageEvent.evicted ++
    put.stored.toList.map fun x => ImageEvent.stored x.1 x.2.encoded x.2.embedding := by
  rw [Put.events, Put.evictedKeys, List.map_filterMap]
  congr 2
  funext p
  cases p.1.entries p.2 <;> rfl

theorem Put.Spec.mem_evictedKeys (hspec : put.Spec budget cache encoded embedding dim) (h : cache.Apart)
    {j : Fin imageCacheEntries} {e : ImageEntry F} (hj : cache.entries j = some e) :
    e.encoded ∈ put.evictedKeys ↔ ∃ p ∈ put.evicted, p.2 = j := by
  rw [Put.evictedKeys, List.mem_filterMap]
  constructor
  · rintro ⟨p, hp, hkey⟩
    rw [hspec.held p hp] at hkey
    obtain ⟨x, hx, hxe⟩ := Option.map_eq_some_iff.mp hkey
    exact ⟨p, hp, h _ _ x e hx hj hxe⟩
  · rintro ⟨p, hp, rfl⟩
    exact ⟨p, hp, by rw [hspec.held p hp, hj]; rfl⟩

theorem Put.Spec.logged (hspec : put.Spec budget cache encoded embedding dim) (h : cache.Apart)
    {log : List (ImageEvent F)} (hlog : cache.Logged log) (hfresh : cache.find encoded = none) :
    put.cache.Logged (log ++ put.events) := by
  -- the log after the evictions says what is left of the old slots
  have hold : ∀ key emb, (if key ∈ put.evictedKeys then none else lastStored log key) = some emb ↔
      ∃ i e, (cache.entries i = some e ∧ ∀ p ∈ put.evicted, p.2 ≠ i) ∧ e.encoded = key ∧
        e.embedding = emb := by
    intro key emb
    split_ifs with hmem
    · refine iff_of_false (by simp) ?_
      rintro ⟨i, e, ⟨hi, hkept⟩, rfl, -⟩
      obtain ⟨p, hp, rfl⟩ := (hspec.mem_evictedKeys h hi).mp hmem
      exact hkept p hp rfl
    · rw [hlog key emb]
      constructor
      · rintro ⟨i, e, hi, rfl, he⟩
        exact ⟨i, e, ⟨hi, fun p hp hpi => hmem ((hspec.mem_evictedKeys h hi).mpr ⟨p, hp, hpi⟩)⟩, rfl, he⟩
      · rintro ⟨i, e, ⟨hi, -⟩, he⟩
        exact ⟨i, e, hi, he⟩
  intro key emb
  rw [lastStored_append, Put.events_eq, List.foldl_append]
  cases hstored : put.stored with
  | none =>
    rw [Option.toList_none, List.map_nil, List.foldl_nil, foldl_evicted, hold]
    simp [hspec.left, hstored]
  | some stored =>
    obtain ⟨dest, x⟩ := stored
    obtain ⟨hxkey, -⟩ := hspec.stored dest x hstored
    rw [Option.toList_some, List.map_cons, List.map_nil, List.foldl_cons, List.foldl_nil,
      ImageEvent.apply]
    rcases eq_or_ne key x.encoded with rfl | hne
    · rw [Function.update_self]
      constructor
      · rintro ⟨⟩
        exact ⟨dest, x, (hspec.left dest x).mpr (.inl hstored), rfl, rfl⟩
      · rintro ⟨i, e, hi, hkey, rfl⟩
        rcases (hspec.left i e).mp hi with he | ⟨he, -⟩
        · rw [congrArg Prod.snd (Option.some.inj (hstored.symm.trans he))]
        · exact absurd (hkey.trans hxkey) (find_eq_none.mp hfresh i e he)
    · rw [Function.update_of_ne hne, foldl_evicted, hold]
      constructor
      · rintro ⟨i, e, he, hkey⟩
        exact ⟨i, e, (hspec.left i e).mpr (.inr he), hkey⟩
      · rintro ⟨i, e, hi, hkey, hemb⟩
        rcases (hspec.left i e).mp hi with he | he
        · obtain rfl := congrArg Prod.snd (Option.some.inj (hstored.symm.trans he))
          exact absurd hkey.symm hne
        · exact ⟨i, e, he, hkey, hemb⟩

theorem Put.Spec.timed (hspec : put.Spec budget cache encoded embedding dim) {log : List (ImageEvent F)}
    (h : cache.Timed (uses log)) : put.cache.Timed (uses (log ++ put.events)) := by
  have hevicted : (put.evictedKeys.map ImageEvent.evicted).filterMap (ImageEvent.slot (F := F)) = [] :=
    List.filterMap_eq_nil_iff.2 fun event hevent => by
      obtain ⟨key, -, rfl⟩ := List.mem_map.1 hevent
      rfl
  have hclock := hspec.clock
  rw [uses, Put.events_eq, List.filterMap_append, List.filterMap_append, hevicted, List.nil_append]
  cases hstored : put.stored with
  | none =>
    rw [Option.toList_none, List.map_nil, List.filterMap_nil, List.append_nil]
    rw [hstored, Option.toList_none, List.length_nil, Nat.add_zero] at hclock
    intro i e hi
    rw [hspec.left, hstored] at hi
    rw [hclock]
    exact h i e (hi.resolve_left (Option.some_ne_none _).symm).1
  | some stored =>
    obtain ⟨dest, x⟩ := stored
    rw [hstored, Option.toList_some, List.length_singleton] at hclock
    refine h.use hclock fun i e hi => ?_
    rcases eq_or_ne i dest with rfl | hne
    · have hx := (hspec.left i x).mpr (.inl hstored)
      obtain rfl := Option.some.inj (hx.symm.trans hi)
      exact .inl ⟨rfl, (hspec.used i x hstored).trans hclock⟩
    · rw [hspec.left, hstored] at hi
      exact .inr ⟨hne, (hi.resolve_left fun heq => hne (congrArg Prod.fst (Option.some.inj heq)).symm).1⟩

end Insertion

/-- What holds of a cache at any time of a run. -/
structure ImageCache.Inv (budget : Nat) (fresh : Bool) (log : List (ImageEvent F)) (cache : ImageCache F) :
    Prop where
  sound : cache.Sound budget
  timed : cache.Timed (uses log)
  apart : fresh = true → cache.Apart
  logged : fresh = true → cache.Logged log

theorem inv_empty {fresh : Bool} : (ImageCache.empty : ImageCache F).Inv budget fresh [] :=
  ⟨sound_empty, by simp [ImageCache.Timed, ImageCache.empty], by simp [ImageCache.Apart, ImageCache.empty],
    by simp [ImageCache.Logged, ImageCache.empty, lastStored]⟩

theorem ImageCache.Inv.step {fresh : Bool} {log events : List (ImageEvent F)} {cache' : ImageCache F}
    {op : ImageOp F} (h : cache.Inv budget fresh log) (hb : budget < 2 ^ 64)
    (hfresh : fresh = true → op.Fresh cache) (hstep : cache.step budget op = some (events, cache')) :
    cache'.Inv budget fresh (log ++ events) := by
  cases op with
  | get encoded alloc =>
    obtain ⟨rfl, rfl⟩ : cache.hits encoded alloc = events ∧ (cache.get encoded alloc).2 = cache' := by
      simpa [ImageCache.step] using hstep
    exact ⟨h.sound.get _ _, h.timed.get _ _, fun hf => (h.apart hf).get _ _, fun hf => (h.logged hf).get _ _⟩
  | put encoded embedding dim allocEncoded allocData =>
    obtain ⟨put, hput, hspec⟩ := put_spec h.sound hb encoded embedding dim allocEncoded allocData
    obtain ⟨rfl, rfl⟩ : put.events = events ∧ put.cache = cache' := by
      simpa [ImageCache.step, hput] using hstep
    exact ⟨hspec.sound, hspec.timed h.timed, fun hf => hspec.apart (h.apart hf) (hfresh hf),
      fun hf => hspec.logged (h.apart hf) (h.logged hf) (hfresh hf)⟩
  | clear =>
    obtain ⟨rfl, rfl⟩ : [.cleared] = events ∧ cache.clear = cache' := by
      simpa [ImageCache.step] using hstep
    rw [clear_eq_empty h.sound hb]
    refine ⟨sound_empty, by simp [ImageCache.Timed, ImageCache.empty], by simp [ImageCache.Apart, ImageCache.empty],
      fun _ key emb => ?_⟩
    rw [lastStored_append]
    simp [ImageEvent.apply, ImageCache.empty]

theorem ImageRun.inv {fresh : Bool} {log : List (ImageEvent F)} (hb : budget < 2 ^ 64)
    (h : ImageRun budget fresh log cache) : cache.Inv budget fresh log := by
  induction h with
  | start => exact inv_empty
  | call _ hfresh hstep ih => exact ih.step hb hfresh hstep

theorem Put.Spec.leastRecent {encoded : Bytes} {embedding : VisionEmbedding F} {dim : Nat} {put : Put F}
    (hspec : put.Spec budget cache encoded embedding dim) {log : List (ImageEvent F)} (h : cache.Timed (uses log))
    (hs : cache.Sound budget) {p : ImageCache F × Fin imageCacheEntries} (hp : p ∈ put.evicted) :
    LeastRecent (uses log) p.1 p.2 := by
  obtain ⟨e, he, holdest⟩ := (hspec.evicts p hp).oldest
  refine ⟨by rw [he, Option.isSome_some], fun j hne hj => ?_⟩
  obtain ⟨e', he'⟩ := Option.isSome_iff_exists.1 hj
  have hi := hspec.within p hp _ _ he
  have hj := hspec.within p hp _ _ he'
  refine h.usedSince hi hj (lt_of_le_of_ne (holdest j e' he') fun heq => hne ?_)
  exact hs.used_inj _ _ _ _ hj hi heq.symm

/-- **Every run of the cache**, and more of one whose insertions bring new bytes. -/
theorem imageCache_runs (hb : budget < 2 ^ 64) {fresh : Bool} {log : List (ImageEvent F)}
    (h : ImageRun budget fresh log cache) :
    (∀ op : ImageOp F, (cache.step budget op).isSome) ∧
    (cache.bytes = cache.load ∧ cache.bytes ≤ budget) ∧
    (∀ encoded embedding dim allocEncoded allocData put,
      cache.put encoded embedding dim budget allocEncoded allocData = some put →
      (put.stored.isSome ↔ putAccepts encoded embedding dim budget = true ∧ allocEncoded = true ∧
        allocData = true) ∧
      (∀ i e, put.stored = some (i, e) → e.encoded = encoded ∧ e.embedding = embedding.copy dim) ∧
      ∀ p ∈ put.evicted, LeastRecent (uses log) p.1 p.2 ∧ ((∀ j, (p.1.entries j).isSome) ∨
        budget < p.1.bytes + (encoded.length + embedding.tokenCount * dim * 4))) ∧
    (fresh = true → cache.Apart ∧
      ∀ encoded alloc, (cache.get encoded alloc).1 = if alloc then lastStored log encoded else none) := by
  have hinv := h.inv hb
  refine ⟨fun op => ?_, ⟨hinv.sound.bytes_eq, hinv.sound.within⟩, ?_,
    fun hfresh => ⟨hinv.apart hfresh, fun encoded alloc => ?_⟩⟩
  · cases op with
    | get | clear => rfl
    | put encoded embedding dim allocEncoded allocData =>
      obtain ⟨put, hput, -⟩ := put_spec hinv.sound hb encoded embedding dim allocEncoded allocData
      simp [ImageCache.step, hput]
  · intro encoded embedding dim allocEncoded allocData put hput
    obtain ⟨put', hput', hspec⟩ := put_spec hinv.sound hb encoded embedding dim allocEncoded allocData
    obtain rfl : put' = put := Option.some.inj (hput'.symm.trans hput)
    exact ⟨stored_isSome hput, hspec.stored, fun p hp =>
      ⟨hspec.leastRecent hinv.timed hinv.sound hp, (hspec.evicts p hp).needed⟩⟩
  · have hlogged := hinv.logged hfresh
    rcases imageGet_cases cache encoded alloc with ⟨hget, hmiss⟩ | ⟨i, e, rfl, -, hi, he, hget⟩
    · rw [hget]
      cases alloc with
      | false => rfl
      | true =>
        refine (Option.eq_none_iff_forall_ne_some.mpr fun emb hemb => ?_).symm
        obtain ⟨i, e, hi, he, -⟩ := (hlogged encoded emb).mp hemb
        exact find_eq_none.mp (hmiss rfl) i e hi he
    · rw [hget, if_pos rfl, (hlogged encoded e.embedding).mpr ⟨i, e, hi, he, rfl⟩]

/-- An embedding of one token. -/
def oneToken : VisionEmbedding Unit := ⟨some [()], 1, 0, 1, 1, 2, 3, 2, 3, []⟩

set_option maxRecDepth 10000 in
/-- Of two images the first is looked up again, so that a third one takes the place of the second. -/
theorem imageCache_runs_evict :
    ∃ (log : List (ImageEvent Unit)) (cache : ImageCache Unit) (put : Put Unit),
      ImageRun 10 true log cache ∧ uses log = [0, 1, 0] ∧
      cache.put [3] oneToken 1 10 true true = some put ∧ put.evicted = [(cache, 1)] ∧
      LeastRecent (uses log) cache 1 ∧
      (put.cache.get [1] true).1 = some oneToken ∧ (put.cache.get [2] true).1 = none := by
  have hfirst := @ImageRun.call Unit 10 true _ _ _ _ (.put [1] oneToken 1 true true) .start (fun _ => rfl) rfl
  have hsecond := @ImageRun.call Unit 10 true _ _ _ _ (.put [2] oneToken 1 true true) hfirst (fun _ => rfl) rfl
  have hthird := @ImageRun.call Unit 10 true _ _ _ _ (.get [1] true) hsecond (fun _ => trivial) rfl
  have hfourth := @ImageRun.call Unit 10 true _ _ _ _ (.put [3] oneToken 1 true true) hthird (fun _ => rfl) rfl
  obtain ⟨-, -, hput, -⟩ := imageCache_runs (by decide) hthird
  obtain ⟨-, -, hevicted⟩ := hput [3] oneToken 1 true true _ rfl
  obtain ⟨-, hget⟩ := (imageCache_runs (by decide) hfourth).2.2.2 rfl
  exact ⟨_, _, _, hthird, rfl, rfl, rfl, (hevicted _ List.mem_cons_self).1, hget [1] true, hget [2] true⟩

set_option maxRecDepth 10000 in
/-- A lookup whose allocation fails misses bytes that the cache holds; they are then stored twice. -/
theorem imageCache_repeats :
    ∃ first second : Put Unit,
      ((ImageCache.empty : ImageCache Unit).get [7] true).1 = none ∧
      ImageCache.empty.put [7] oneToken 1 100 true true = some first ∧
      (first.cache.get [7] false).1 = none ∧
      (first.cache.get [7] false).2.put [7] oneToken 1 100 true true = some second ∧
      ¬ second.cache.Apart :=
  ⟨_, _, rfl, rfl, rfl, rfl, fun h => absurd (h 0 1 _ _ rfl rfl rfl) (by decide)⟩

end Ds4.Server
