import Ds4.Kvstore.Store

/-!
# Lookup is sound and longest

An entry `Matches` a query when its key text is a prefix of the prompt and its images are those of
the request that start inside that prefix. A lookup compares names instead, and skips what cannot
beat the best entry before it looks at names at all. When the entries are named by their own text and
images, and SHA-1 does not collide on the strings it is fed, the lookup finds a longest match
(`findImagePrefix_spec`).
-/

namespace Ds4.Kvstore

open Ds4.Lib

/-! ## Files behind entries -/

section Files

variable {g : Process} {f f' : File} {e : Entry} {tb : UInt32}

theorem parseHeader_spec (h : parseHeader g f = some (e, tb, f')) :
    f'.data = f.data ∧ f'.pos = f.pos + fixedBytes e.version ∧ e.textBytes = tb.toUInt64 ∧
      e.tokens ≠ 0 ∧ (f.pos ≤ f.data.length → f'.pos ≤ f'.data.length) := by
  unfold parseHeader at h
  simp only at h
  set hb := if (f.read 4).1.getD 3 0 = 1 then 48 else 80 with hhb
  split_ifs at h with h4 hmagic hversion hrest htb hok
  obtain ⟨rfl, rfl, rfl⟩ : _ = e ∧ _ = tb ∧ _ = f' := by simpa using h
  rw [not_not] at h4 hrest htb
  have hv : (headerEntry g ((f.read 4).1 ++ ((f.read 4).2.read (hb - 4)).1)
      (get32 ((((f.read 4).2.read (hb - 4)).2.read 4)).1)).version = (f.read 4).1.getD 3 0 := by
    simp only [headerEntry, List.getD_eq_getElem?_getD]
    rw [List.getElem?_append_left (by omega)]
  refine ⟨rfl, ?_, rfl, hok.1, fun hpos =>
    File.read_pos_le (File.read_pos_le (File.read_pos_le hpos _) _) _⟩
  rw [File.read_pos, File.read_pos, File.read_pos, h4, hrest, htb, hv, fixedBytes, ← hhb]
  have : 4 ≤ hb := by
    rw [hhb]
    split <;> omega
  omega

end Files

section Entries

variable {g : Process} {dir : Dir} {e : IndexEntry}

/-- The file of an indexed entry, and its header as it is read again. -/
structure Behind (g : Process) (dir : Dir) (e : IndexEntry) (content : Bytes) (tb : UInt32)
    (f : File) : Prop where
  content_eq : dir.content e.path = some content
  parsed : parseHeader g (File.open' content) = some (e.toEntry, tb, f)
  text_bytes : tb.toNat = e.textBytes.toNat
  data_eq : f.data = content
  pos_eq : f.pos = fixedBytes e.version
  size : fixedBytes e.version + tb.toNat + e.payloadBytes.toNat ≤ content.length
  size_eq : e.fileSize = content.length

theorem behind_of_mem (h : e ∈ refresh g dir) : ∃ content tb f, Behind g dir e content tb f := by
  obtain ⟨x, hx, hread⟩ := List.mem_filterMap.mp h
  obtain ⟨sha, -, hread⟩ := Option.bind_eq_some_iff.mp hread
  unfold readEntry at hread
  split_ifs at hread with hsmall
  split at hread
  · cases hread
  next e' tb f hparse =>
    simp only at hread
    split_ifs at hread with hrefused hover hsize
    obtain rfl : _ = e := by simpa using hread
    obtain ⟨hdata, hpos, htb, -⟩ := parseHeader_spec hparse
    refine ⟨x.2, tb, f, Dir.content_of_mem hx, hparse, ?_, hdata, ?_, Nat.le_of_not_lt hsize, rfl⟩
    · rw [htb, UInt32.toNat_toUInt64]
    · rw [hpos]
      exact Nat.zero_add _

/-- The key text of an indexed entry. -/
def keyText (g : Process) (dir : Dir) (e : IndexEntry) : Bytes :=
  match dir.content e.path with
  | none => []
  | some content =>
    match parseHeader g (File.open' content) with
    | none => []
    | some (_, tb, f) => (f.read tb.toNat).1

theorem Behind.keyText_eq {content : Bytes} {tb : UInt32} {f : File}
    (h : Behind g dir e content tb f) : keyText g dir e = (f.read tb.toNat).1 := by
  simp only [keyText, h.content_eq, h.parsed]

theorem keyText_length (h : e ∈ refresh g dir) : (keyText g dir e).length = e.textBytes.toNat := by
  obtain ⟨content, tb, f, hb⟩ := behind_of_mem h
  have := hb.size
  rw [hb.keyText_eq, ← hb.text_bytes]
  simp only [File.read, File.rest, List.length_take, List.length_drop, hb.data_eq, hb.pos_eq]
  omega

theorem readImages_ok {f f' : File} {pb : UInt64} {n : Nat} {im : Images}
    (h : readImages f pb = some (n, im, f')) : ImagesOk im := by
  unfold readImages at h
  simp only at h
  split_ifs at h with h1 h2 h3
  split at h
  · cases h
  · split_ifs at h with hok
    obtain ⟨-, rfl, -⟩ : _ = n ∧ _ = im ∧ _ = f' := by simpa using h
    exact ⟨hok.2, hok.1⟩

theorem textLen_ne {a b : Nat} {v : List Image} (h : wellFormedFrom a b v = true) :
    ∀ im ∈ v, im.textLen ≠ 0 := by
  induction v generalizing a b with
  | nil => simp
  | cons i v ih =>
    simp only [wellFormedFrom, Bool.and_eq_true, bne_iff_ne, ne_eq] at h
    intro im him
    rcases List.mem_cons.mp him with rfl | him
    · exact h.1.1.1.1
    · exact ih h.2 im him

theorem entryImages_ok {im : Images} (h : entryImages g dir e = some im) :
    (im.v ≠ [] → im.encoder ≠ 0) ∧ ∀ i ∈ im.v, i.textLen ≠ 0 := by
  unfold entryImages at h
  split_ifs at h with himg
  · obtain rfl : _ = im := by simpa using h
    simp
  · split at h
    · cases h
    · split at h
      · cases h
      · split_ifs at h with hhdr
        obtain ⟨⟨n, im', f'⟩, hread, rfl⟩ := Option.map_eq_some_iff.mp h
        have hok := readImages_ok hread
        have hwf := hok.wellFormed
        simp only [imagesWellFormed, Bool.and_eq_true] at hwf
        exact ⟨fun _ => hok.encoder, textLen_ne hwf.2⟩

end Entries

/-! ## Matching -/

/-- The images of a request that start inside a prefix of `n` bytes. -/
def requestImages (request : Option Images) (n : Nat) : List Image :=
  ((request.map (·.v)).getD []).filter fun im => im.textOffset.toNat < n

/-- The images of a request are listed in the order of their markers. -/
def Ordered (request : Option Images) : Prop :=
  ((request.map (·.v)).getD []).Pairwise fun a b => a.textOffset ≤ b.textOffset

theorem imagesInside_ordered {request : Option Images} (h : Ordered request) (n : Nat) :
    imagesInside request n = requestImages request n := by
  unfold Ordered at h
  unfold imagesInside requestImages
  cases request with
  | none => rfl
  | some im =>
    simp only [Option.map_some, Option.getD_some] at h ⊢
    generalize im.v = v at h
    induction v with
    | nil => rfl
    | cons a v ih =>
      rw [List.pairwise_cons] at h
      by_cases ha : a.textOffset.toNat < n
      · rw [List.takeWhile_cons_of_pos (by simpa using ha), List.filter_cons_of_pos (by simpa using ha),
          ih h.2]
      · rw [List.takeWhile_cons_of_neg (by simpa using ha), List.filter_cons_of_neg (by simpa using ha)]
        refine (List.filter_eq_nil_iff.mpr fun b hb => ?_).symm
        have := UInt32.le_iff_toNat_le.mp (h.1 b hb)
        simp only [decide_eq_true_eq]
        omega

/-- What a lookup asks of an entry besides its content. -/
structure Eligible (opt : StoreOptions) (q : Query) (e : IndexEntry) : Prop where
  not_refused : e.refusal = none
  tokens : opt.minTokens ≤ tokensInt e.tokens
  model : e.modelId = q.modelId
  ctx : e.ctxSize ≤ q.ctxSize
  quant : opt.rejectDifferentQuant = true → e.quantBits = q.quantBits

/-- The key text is a prefix of the prompt, and the entry holds exactly the images of the request
that start inside it, from the same encoder. -/
structure Matches (g : Process) (dir : Dir) (q : Query) (e : IndexEntry) : Prop where
  text : keyText g dir e <+: q.prompt
  images : ∃ stored, entryImages g dir e = some stored ∧
    List.Forall₂ SameImage stored.v (requestImages q.images (keyText g dir e).length) ∧
    (stored.v ≠ [] → stored.encoder = (q.images.map (·.encoder)).getD 0)

/-- An entry that is named by its own NUL-free key text and the images inside it. -/
structure WellNamed (g : Process) (dir : Dir) (e : IndexEntry) : Prop where
  no_nul : 0 ∉ keyText g dir e
  placed : ∀ im, entryImages g dir e = some im → ∀ i ∈ im.v,
    i.textOffset.toNat + i.textLen.toNat ≤ (keyText g dir e).length
  named : ∀ im, entryImages g dir e = some im → e.sha = entrySha (keyText g dir e) (some im)

/-- The strings that SHA-1 is fed: those that name the entries, and the prefixes of the prompt that
the lookup tries. -/
def fedStrings (g : Process) (dir : Dir) (q : Query) : Set Bytes :=
  {s | ∃ e ∈ refresh g dir, e.refusal = none ∧
    ((∃ im, entryImages g dir e = some im ∧ s = entryInput (keyText g dir e) (some im)) ∨
      e.textBytes.toNat ≤ q.prompt.length ∧
        s = entryInput (q.prompt.take e.textBytes.toNat) q.images)}

section Match

variable {g : Process} {dir : Dir} {q : Query} {e : IndexEntry}

theorem imagesInside_stored (hn : WellNamed g dir e) {im : Images}
    (him : entryImages g dir e = some im) :
    imagesInside (some im) (keyText g dir e).length = im.v := by
  unfold imagesInside
  refine List.takeWhile_eq_self_iff.mpr fun i hi => ?_
  have h1 := hn.placed im him i hi
  have h2 : i.textLen.toNat ≠ 0 := fun h0 =>
    (entryImages_ok him).2 i hi (UInt32.toNat_inj.mp (by simpa using h0))
  simp only [decide_eq_true_eq]
  omega

theorem imageDiff_eq_none_iff {n : Nat} {a b : Image} :
    imageDiff n a b = none ↔ SameImage a b ∧ a.textOffset.toNat + a.textLen.toNat ≤ n := by
  unfold imageDiff
  split_ifs with h1 h2
  · refine iff_of_false (by simp) fun h => ?_
    rcases h1 with h1 | h1 | h1
    · exact h1 h.1.textOffset
    · exact h1 h.1.textLen
    · omega
  · refine iff_of_false (by simp) fun h => ?_
    rcases h2 with h2 | h2
    · exact h2 h.1.tokenCount
    · exact h2 h.1.fingerprint
  · simp only [not_or, not_not] at h1 h2
    exact iff_of_true rfl ⟨⟨h1.1, h1.2.1, h2.1, h2.2⟩, by omega⟩

theorem imagesMismatch_eq_none_iff {im : Images} {request : Option Images} {n : Nat}
    (henc : im.v ≠ [] → im.encoder ≠ 0) :
    imagesMismatch (some im) request n = none ↔
      List.Forall₂ SameImage im.v (imagesInside request n) ∧
      (∀ i ∈ im.v, i.textOffset.toNat + i.textLen.toNat ≤ n) ∧
      (im.v ≠ [] → im.encoder = (request.map (·.encoder)).getD 0) := by
  unfold imagesMismatch
  simp only [Option.map_some, Option.getD_some]
  by_cases hlen : (imagesInside request n).length = im.v.length
  swap
  · rw [if_pos hlen]
    exact iff_of_false (by simp) fun h => hlen h.1.length_eq.symm
  rw [if_neg (not_not.mpr hlen)]
  have hnil : imagesInside request n ≠ [] ↔ im.v ≠ [] := by
    rw [← List.length_pos_iff, ← List.length_pos_iff, hlen]
  by_cases he : imagesInside request n ≠ [] ∧
      (im.encoder = 0 ∨ im.encoder ≠ (request.map (·.encoder)).getD 0)
  · rw [if_pos he]
    refine iff_of_false (by simp) fun h => ?_
    have hne := hnil.mp he.1
    exact he.2.elim (henc hne) fun h' => h' (h.2.2 hne)
  · rw [if_neg he]
    have henc' : im.v ≠ [] → im.encoder = (request.map (·.encoder)).getD 0 := fun hne => by
      by_contra h
      exact he ⟨hnil.mpr hne, .inr h⟩
    rw [List.findSome?_eq_none_iff]
    generalize imagesInside request n = w at hlen
    simp only [imageDiff_eq_none_iff]
    constructor
    · intro h
      refine ⟨List.forall₂_iff_zip.mpr ⟨hlen.symm, fun hab => (h _ hab).1⟩, fun i hi => ?_, henc'⟩
      obtain ⟨k, hk, rfl⟩ := List.mem_iff_getElem.mp hi
      have hkw : k < w.length := hlen ▸ hk
      have hkz : k < (im.v.zip w).length := by simp; omega
      have hmem : (im.v[k], w[k]) ∈ im.v.zip w := List.getElem_zip (h := hkz) ▸ List.getElem_mem hkz
      exact (h _ hmem).2
    · rintro ⟨hsame, hplaced, -⟩ ⟨a, b⟩ hab
      exact ⟨(List.forall₂_iff_zip.mp hsame).2 hab, hplaced a (List.of_mem_zip hab).1⟩

/-- The tests that an entry passes to become the best one. -/
def Accepts (g : Process) (opt : StoreOptions) (dir : Dir) (q : Query) (e : IndexEntry) : Prop :=
  Eligible opt q e ∧ e.textBytes.toNat ≤ q.prompt.length ∧
    entrySha (q.prompt.take e.textBytes.toNat) q.images = e.sha ∧
    ∃ stored, entryImages g dir e = some stored ∧
      imagesMismatch (some stored) q.images e.textBytes.toNat = none

theorem notBetter_iff {best : Option (IndexEntry × Nat)} {e : IndexEntry} :
    notBetter best e = true ↔ ∃ b, best = some b ∧ entryKey e ≤ entryKey b.1 := by
  cases best with
  | none => simp [notBetter]
  | some b =>
    simp only [notBetter, Bool.or_eq_true, Bool.and_eq_true, decide_eq_true_eq, beq_iff_eq,
      Option.some.injEq, exists_eq_left', entryKey, Prod.Lex.toLex_le_toLex, UInt64.lt_iff_toNat_lt,
      UInt32.le_iff_toNat_le, UInt64.toNat_inj]

open Classical in
theorem considerEntry_eq (opt : StoreOptions) (best : Option (IndexEntry × Nat))
    (x : IndexEntry × Nat) :
    considerEntry g opt dir q best x =
      bestStep (fun x => Accepts g opt dir q x.1) (fun x => entryKey x.1) best x := by
  have refuse : ∀ {P : Prop}, P → (Accepts g opt dir q x.1 → ¬ P) →
      best = bestStep (fun x => Accepts g opt dir q x.1) (fun x => entryKey x.1) best x :=
    fun hp h => Eq.symm (bestStep_of_not (a := x) (fun ha => h ha hp) best)
  unfold considerEntry
  simp only
  split_ifs with h1 h2 h3 h4 h5 h6 h7 h8
  · exact refuse h1 fun ha => by simp [ha.1.not_refused]
  · exact refuse h2 fun ha => not_lt.mpr ha.2.1
  · exact refuse h3 fun ha => not_lt.mpr ha.1.tokens
  · exact refuse h4 fun ha => not_not.mpr ha.1.model
  · exact refuse h5 fun ha => UInt32.not_lt.mpr ha.1.ctx
  · exact refuse h6 fun ha h => h.2 (ha.1.quant h.1)
  · obtain ⟨b, rfl, hle⟩ := notBetter_iff.1 h7
    simp only [bestStep, if_pos hle]
  · exact refuse h8 fun ha => not_not.mpr ha.2.2.1
  · have hbeats : ∀ b, best = some b → ¬ entryKey x.1 ≤ entryKey b.1 := fun b hb hle =>
      h7 (notBetter_iff.2 ⟨b, hb, hle⟩)
    have hel : Eligible opt q x.1 :=
      ⟨by simpa using h1, not_lt.mp h3, not_not.mp h4, UInt32.not_lt.mp h5,
        fun hr => by_contra fun hq => h6 ⟨hr, hq⟩⟩
    split
    next hnone =>
      refine refuse hnone fun ha => ?_
      obtain ⟨-, -, -, im, him, -⟩ := ha
      rw [him]
      exact Option.some_ne_none im
    next stored hstored =>
      split
      next why hwhy =>
        refine refuse hwhy fun ha => ?_
        obtain ⟨-, -, -, im, him, hmis⟩ := ha
        obtain rfl : im = stored := by simpa [him] using hstored
        simp [hmis]
      next hmis =>
        have hok : Accepts g opt dir q x.1 :=
          ⟨hel, not_lt.mp h2, not_not.mp h8, stored, hstored, hmis⟩
        cases best with
        | none => simp only [bestStep, if_pos hok]
        | some b => simp only [bestStep, if_neg (hbeats b rfl), if_pos hok]

/-- For well-named entries and a name hash that does not collide here, the tests are the match. -/
theorem accepts_iff (opt : StoreOptions) (hq : 0 ∉ q.prompt) (ho : Ordered q.images)
    (hn : ∀ e ∈ refresh g dir, e.refusal = none → WellNamed g dir e)
    (hsha : Set.InjOn sha1BytesHex (fedStrings g dir q)) (he : e ∈ refresh g dir) :
    Accepts g opt dir q e ↔ Eligible opt q e ∧ Matches g dir q e := by
  have hlen := keyText_length he
  unfold Accepts
  refine and_congr_right fun hel => ?_
  have hwell := hn e he hel.not_refused
  constructor
  · rintro ⟨hle, hname, stored, hstored, hmis⟩
    obtain ⟨hsame, -, henc⟩ :=
      (imagesMismatch_eq_none_iff (entryImages_ok hstored).1).mp hmis
    rw [hwell.named stored hstored, entrySha_eq, entrySha_eq] at hname
    have hinput := hsha ⟨e, he, hel.not_refused, .inr ⟨hle, rfl⟩⟩
      ⟨e, he, hel.not_refused, .inl ⟨stored, hstored, rfl⟩⟩ hname
    have htext := (entryInput_inj (fun h0 => hq (List.mem_of_mem_take h0)) hwell.no_nul hinput).1
    refine ⟨htext ▸ List.take_prefix _ _, stored, hstored, ?_, henc⟩
    rwa [hlen, ← imagesInside_ordered ho]
  · rintro ⟨hhead, stored, hstored, hsame, henc⟩
    have htake : q.prompt.take e.textBytes.toNat = keyText g dir e := by
      rw [← hlen]
      exact (List.prefix_iff_eq_take.mp hhead).symm
    have hle : e.textBytes.toNat ≤ q.prompt.length := hlen ▸ hhead.length_le
    rw [← imagesInside_ordered ho] at hsame
    refine ⟨hle, ?_, stored, hstored, ?_⟩
    · rw [htake, hwell.named stored hstored, entrySha_eq, entrySha_eq]
      have hin := imagesInside_stored hwell hstored
      refine congrArg _ (entryInput_congr ?_ ?_).symm
      · rwa [hin]
      · rwa [hin]
    · rw [imagesMismatch_eq_none_iff (entryImages_ok hstored).1, ← hlen]
      exact ⟨hsame, hwell.placed stored hstored, henc⟩

end Match

/-- **Lookup.** When the entries are named by their own text and images, a lookup finds nothing only
if no eligible entry matches, and else an eligible match that is longest, and among those has most
tokens; it has images exactly if the request has some inside the prefix. -/
theorem findImagePrefix_spec (g : Process) (opt : StoreOptions) (dir : Dir) (q : Query)
    (hq : 0 ∉ q.prompt) (ho : Ordered q.images)
    (hn : ∀ e ∈ refresh g dir, e.refusal = none → WellNamed g dir e)
    (hsha : Set.InjOn sha1BytesHex (fedStrings g dir q)) :
    (findImagePrefix g opt dir q = none ↔
        ∀ e ∈ refresh g dir, ¬ (Eligible opt q e ∧ Matches g dir q e)) ∧
      ∀ i, findImagePrefix g opt dir q = some i →
        ∃ e, (refresh g dir)[i]? = some e ∧ Eligible opt q e ∧ Matches g dir q e ∧
          (∀ e' ∈ refresh g dir, Eligible opt q e' → Matches g dir q e' →
            entryKey e' ≤ entryKey e) ∧
          ∀ stored, entryImages g dir e = some stored →
            (stored.v = [] ↔ requestImages q.images e.textBytes.toNat = []) := by
  classical
  have hstep : considerEntry g opt dir q =
      bestStep (fun x => Accepts g opt dir q x.1) (fun x => entryKey x.1) :=
    funext fun best => funext fun x => considerEntry_eq opt best x
  have hbest := foldl_bestStep (fun x : IndexEntry × Nat => Accepts g opt dir q x.1)
    (fun x => entryKey x.1) (refresh g dir).zipIdx
  have hiff := fun e he => accepts_iff (e := e) opt hq ho hn hsha he
  unfold findImagePrefix
  rw [hstep]
  constructor
  · rw [Option.map_eq_none_iff, hbest.eq_none_iff]
    constructor
    · intro h e he hmatch
      obtain ⟨i, hi⟩ := List.mem_iff_getElem?.mp he
      exact h (e, i) (List.mk_mem_zipIdx_iff_getElem?.mpr hi) ((hiff e he).mpr hmatch)
    · rintro h ⟨e, i⟩ hx hok
      have he := List.mem_of_getElem? (List.mk_mem_zipIdx_iff_getElem?.mp hx)
      exact h e he ((hiff e he).mp hok)
  · intro i hi
    obtain ⟨⟨e, j⟩, hfold, rfl⟩ := Option.map_eq_some_iff.mp hi
    obtain ⟨hx, hok⟩ := hbest.sound _ hfold
    have hget := List.mk_mem_zipIdx_iff_getElem?.mp hx
    have he := List.mem_of_getElem? hget
    obtain ⟨hel, hmatch⟩ := (hiff e he).mp hok
    refine ⟨e, hget, hel, hmatch, fun e' he' hel' hm' => ?_, fun stored hstored => ?_⟩
    · obtain ⟨k, hk⟩ := List.mem_iff_getElem?.mp he'
      obtain ⟨b, hb, hle⟩ := hbest.max (e', k) (List.mk_mem_zipIdx_iff_getElem?.mpr hk)
        ((hiff e' he').mpr ⟨hel', hm'⟩)
      obtain rfl : b = (e, j) := by simpa [hfold] using hb.symm
      exact hle
    · obtain ⟨stored', hstored', hsame, -⟩ := hmatch.images
      obtain rfl : stored' = stored := by simpa [hstored'] using hstored
      rw [← keyText_length he, ← List.length_eq_zero_iff, ← List.length_eq_zero_iff,
        hsame.length_eq]

/-- An entry of 600 tokens for the text `hello`. -/
def helloFile : Bytes :=
  patch (fillHeader ⟨1, 0⟩ ⟨0, 2, 1, 0, 600, 0, 32768, 100, 100, 0⟩) 64 (put64 (payloadHash [])) ++
    (put32 5 ++ lit "hello")

/-- A directory with that entry. -/
def helloDir : Dir where
  files := [(lit "aaf4c61ddcc5e8a2dabede0f3b482cd9aea9434d.kv", helloFile)]
  nodup := by simp

/-- The entry as it is indexed. -/
def helloEntry : IndexEntry where
  version := 2
  quantBits := 2
  reason := 1
  extFlags := 0
  modelId := 0
  tokens := 600
  hits := 0
  ctxSize := 32768
  createdAt := 100
  lastUsed := 100
  payloadBytes := 0
  images := false
  identity := 1
  canary := 0
  payloadHash := payloadHash []
  textBytes := 5
  refusal := none
  sha := lit "aaf4c61ddcc5e8a2dabede0f3b482cd9aea9434d"
  path := lit "aaf4c61ddcc5e8a2dabede0f3b482cd9aea9434d.kv"
  fileSize := 89

theorem entrySha_hello : entrySha (lit "hello") (some ⟨0, []⟩) = helloEntry.sha := by decide +kernel

theorem refresh_helloDir : refresh ⟨1, 0⟩ helloDir = [helloEntry] := by decide

/-- The image of the next entry, behind `hello `. -/
def shotImages : Images := ⟨7, [⟨6, 3, 100, 10, Vector.replicate 32 5⟩]⟩

/-- An entry of 600 tokens for `hello <i> `, whose payload is the list of its image. -/
def shotFile : Bytes :=
  patch (patch (fillHeader ⟨1, 0⟩ ⟨0, 2, 1, 0, 600, 0, 32768, 100, 100, 72⟩) 20 [3]) 64
      (put64 (payloadHash (encodeImages shotImages))) ++
    (put32 10 ++ lit "hello <i> ") ++ encodeImages shotImages

/-- A directory with both entries. -/
def shotDir : Dir where
  files := [(lit "aaf4c61ddcc5e8a2dabede0f3b482cd9aea9434d.kv", helloFile),
    (lit "3fe590c75f74423114d0a39b0c6250806af91886.kv", shotFile)]
  nodup := by decide

/-- A prompt that goes on from both. -/
def shotQuery : Query := ⟨lit "hello <i> world", some shotImages, 0, 2, 32768⟩

/-- The second entry as it is indexed. -/
def shotEntry : IndexEntry :=
  { helloEntry with
    payloadBytes := 72
    images := true
    payloadHash := payloadHash (encodeImages shotImages)
    textBytes := 10
    sha := lit "3fe590c75f74423114d0a39b0c6250806af91886"
    path := lit "3fe590c75f74423114d0a39b0c6250806af91886.kv"
    fileSize := 166 }

theorem refresh_shotDir : refresh ⟨1, 0⟩ shotDir = [helloEntry, shotEntry] := by decide +kernel

theorem entryImages_shotDir :
    entryImages ⟨1, 0⟩ shotDir helloEntry = some ⟨0, []⟩ ∧
      entryImages ⟨1, 0⟩ shotDir shotEntry = some shotImages := by
  decide +kernel

theorem keyText_shotDir :
    keyText ⟨1, 0⟩ shotDir helloEntry = lit "hello" ∧
      keyText ⟨1, 0⟩ shotDir shotEntry = lit "hello <i> " := by
  decide +kernel

theorem entrySha_shot : entrySha (lit "hello <i> ") (some shotImages) = shotEntry.sha := by
  decide +kernel

theorem wellNamed_shotDir : ∀ e ∈ refresh ⟨1, 0⟩ shotDir, WellNamed ⟨1, 0⟩ shotDir e := by
  rw [refresh_shotDir]
  refine List.forall_mem_cons.mpr ⟨?_, List.forall_mem_singleton.mpr ?_⟩
  · have hlist : ∀ im, entryImages ⟨1, 0⟩ shotDir helloEntry = some im → im = ⟨0, []⟩ :=
      fun im h => Option.some.inj (h.symm.trans entryImages_shotDir.1)
    exact
      { no_nul := by rw [keyText_shotDir.1]; decide
        placed := fun im him => by rw [hlist im him]; simp
        named := fun im him => by rw [hlist im him, keyText_shotDir.1, entrySha_hello] }
  · have hlist : ∀ im, entryImages ⟨1, 0⟩ shotDir shotEntry = some im → im = shotImages :=
      fun im h => Option.some.inj (h.symm.trans entryImages_shotDir.2)
    exact
      { no_nul := by rw [keyText_shotDir.2]; decide
        placed := fun im him => by rw [hlist im him, keyText_shotDir.2]; decide
        named := fun im him => by rw [hlist im him, keyText_shotDir.2, entrySha_shot] }

theorem fedStrings_shot : fedStrings ⟨1, 0⟩ shotDir shotQuery ⊆
    {lit "hello", entryInput (lit "hello <i> ") (some shotImages)} := by
  rintro s ⟨e, he, -, h⟩
  rw [refresh_shotDir] at he
  rcases List.mem_cons.mp he with rfl | he
  · refine .inl ?_
    rcases h with ⟨im, him, rfl⟩ | ⟨-, rfl⟩
    · rw [keyText_shotDir.1, Option.some.inj (him.symm.trans entryImages_shotDir.1)]
      decide
    · decide
  · obtain rfl := List.mem_singleton.mp he
    refine .inr ?_
    rcases h with ⟨im, him, rfl⟩ | ⟨-, rfl⟩
    · rw [keyText_shotDir.2, Option.some.inj (him.symm.trans entryImages_shotDir.2)]
      rfl
    · decide

theorem sha1_injOn_shot : Set.InjOn sha1BytesHex (fedStrings ⟨1, 0⟩ shotDir shotQuery) := by
  have hne : sha1BytesHex (lit "hello") ≠
      sha1BytesHex (entryInput (lit "hello <i> ") (some shotImages)) := by
    rw [← entrySha_eq, entrySha_shot]
    decide +kernel
  refine Set.InjOn.mono fedStrings_shot fun s hs t ht h => ?_
  rcases hs with rfl | rfl <;> rcases ht with rfl | rfl
  · rfl
  · exact absurd h hne
  · exact absurd h.symm hne
  · rfl

/-- The prompt `hello <i> world` finds the entry that ends behind the image, not that of `hello`. -/
theorem findImagePrefix_shot :
    ∃ e, (refresh ⟨1, 0⟩ shotDir)[1]? = some e ∧ Matches ⟨1, 0⟩ shotDir shotQuery e ∧
      entryKey helloEntry ≤ entryKey e ∧ requestImages shotQuery.images e.textBytes.toNat ≠ [] := by
  obtain ⟨e, hget, -, hmatch, hmax, -⟩ := (findImagePrefix_spec ⟨1, 0⟩ ⟨512, false⟩ shotDir shotQuery
    (by decide) (by simp [Ordered, shotQuery, shotImages]) (fun e he _ => wellNamed_shotDir e he)
    sha1_injOn_shot).2 1 (by decide +kernel)
  obtain rfl : shotEntry = e := by simpa [refresh_shotDir] using hget
  refine ⟨shotEntry, hget, hmatch, hmax helloEntry (by simp [refresh_shotDir]) ?_ ?_, by decide⟩
  · exact ⟨rfl, by decide, rfl, by decide, by decide⟩
  · refine ⟨?_, ⟨0, []⟩, entryImages_shotDir.1, ?_, fun h => absurd rfl h⟩
    · rw [keyText_shotDir.1]
      decide
    · rw [keyText_shotDir.1]
      exact List.Forall₂.nil

end Ds4.Kvstore
