import Ds4.Kvstore.Sizes

/-!
# The disk budget

An eviction leaves room for what the store is about to write, and touching, thinning and loading
never add a byte. The one call that grows a file without making room is a store that finds its file
and rewrites the trailer behind it. Where every rewritten trailer fits into the free budget, every
state of every run is within the budget (`run_within_budget`).
-/

namespace Ds4.Kvstore

open Ds4.Lib

/-! ## Eviction -/

theorem eraseIdx_eq_filter {α β : Type*} [BEq β] [LawfulBEq β] (f : α → β) {l : List α}
    (hnd : (l.map f).Nodup) {i : Nat} {a : α} (h : l[i]? = some a) :
    l.eraseIdx i = l.filter fun x => f x != f a := by
  induction l generalizing i with
  | nil => simp at h
  | cons x l ih =>
    rw [List.map_cons, List.nodup_cons] at hnd
    cases i with
    | zero =>
      obtain rfl : x = a := by simpa using h
      have hne : ∀ y ∈ l, f y ≠ f x := fun y hy heq => hnd.1 (heq ▸ List.mem_map_of_mem hy)
      rw [List.eraseIdx_cons_zero, List.filter_cons_of_neg (by simp)]
      exact (List.filter_eq_self.mpr fun y hy => by simpa using hne y hy).symm
    | succ i =>
      have hi : l[i]? = some a := by simpa using h
      have hne : f x ≠ f a := fun heq =>
        hnd.1 (heq ▸ List.mem_map_of_mem (List.mem_of_getElem? hi))
      rw [List.eraseIdx_cons_succ, List.filter_cons_of_pos (by simpa using hne), ih hnd.2 hi]

theorem refresh_paths (g : Process) (dir : Dir) :
    ((refresh g dir).map (·.path)).Sublist (dir.files.map (·.1)) := by
  unfold refresh
  induction dir.files with
  | nil => exact .slnil
  | cons x files ih =>
    rw [List.filterMap_cons, List.map_cons]
    cases hread : (shaHexName x.1).bind fun sha => readEntry g x.1 x.2 sha true with
    | none => exact ih.cons _
    | some e =>
      obtain ⟨sha, -, he⟩ := Option.bind_eq_some_iff.mp hread
      rw [readEntry_kept] at he
      split at he
      swap
      · cases he
      obtain rfl := Option.some.inj he
      exact ih.cons_cons _

theorem refresh_unlink (g : Process) (dir : Dir) (name : Bytes) :
    refresh g (dir.unlink name) = (refresh g dir).filter (·.path != name) := by
  unfold refresh Dir.unlink
  simp only
  induction dir.files with
  | nil => rfl
  | cons x files ih =>
    have hpath : ∀ e, ((shaHexName x.1).bind fun sha => readEntry g x.1 x.2 sha true) = some e →
        e.path = x.1 := by
      intro e he
      obtain ⟨sha, -, he⟩ := Option.bind_eq_some_iff.mp he
      rw [readEntry_kept] at he
      split at he
      · obtain rfl := Option.some.inj he
        rfl
      · cases he
    rw [List.filter_cons, List.filterMap_cons]
    cases hread : (shaHexName x.1).bind fun sha => readEntry g x.1 x.2 sha true with
    | none =>
      split
      · rw [List.filterMap_cons, hread, ih]
      · exact ih
    | some e =>
      rw [List.filter_cons, hpath e hread]
      split
      · rw [List.filterMap_cons, hread, ih]
      · exact ih

section Evict

variable {S : Type*} [LT S] [DecidableLT S] [DecidableEq S] (score : IndexEntry → S)

theorem evictLoop_le (g : Process) (target total : Nat) (entries : List IndexEntry) (dir : Dir)
    (hentries : refresh g dir = entries) (htotal : (entries.map (·.fileSize)).sum = total) :
    indexedBytes g (evictLoop score target total entries dir) ≤ target := by
  induction total, entries, dir using evictLoop.induct score target with
  | case1 total dir =>
    rw [evictLoop, indexedBytes, hentries]
    simp
  | case2 total dir e es hlt v ih =>
    rw [evictLoop, if_pos hlt]
    have hget := victim_get score e es
    have hnd : ((e :: es).map (·.path)).Nodup := by
      rw [← hentries]
      exact (refresh_paths g dir).nodup dir.nodup
    have hsum : v.1.fileSize + (((e :: es).eraseIdx v.2).map (·.fileSize)).sum = total := by
      have hperm := (List.getElem_cons_eraseIdx_perm (List.getElem?_eq_some_iff.mp hget).1).map
        (·.fileSize)
      rw [(List.getElem?_eq_some_iff.mp hget).2] at hperm
      rw [← htotal, ← hperm.sum_eq, List.map_cons, List.sum_cons]
    refine ih ?_ ?_
    · rw [refresh_unlink, hentries]
      exact (eraseIdx_eq_filter _ hnd hget).symm
    · rw [dif_pos (by omega)]
      omega
  | case3 total dir e es hle =>
    rw [evictLoop, if_neg hle, indexedBytes, hentries, htotal]
    omega

theorem evict_le {g : Process} {kc : Cache} {dir : Dir} {extra : Nat} (henabled : kc.enabled = true)
    (hbudget : kc.budgetBytes ≠ 0) (hextra : extra ≤ kc.budgetBytes.toNat)
    (hdir : indexedBytes g dir < 2 ^ 64) :
    indexedBytes g (evict score g kc dir extra) + extra ≤ kc.budgetBytes.toNat := by
  unfold evict
  rw [if_neg (by simp [henabled, hbudget]), if_neg (by omega)]
  have hloop := evictLoop_le score g (kc.budgetBytes.toNat - extra)
    (((refresh g dir).map (·.fileSize)).sum % 2 ^ 64) _ dir rfl (Nat.mod_eq_of_lt hdir).symm
  simp only
  omega

end Evict

/-! ## Thinning -/

theorem indexedBytes_thin_le (g g' : Process) (kc : Cache) (dir : Dir) (incoming : EvictionContext)
    (frontierTokens : UInt32) (touchedAt : Bytes → UInt64) :
    indexedBytes g (cacheLadderThin g' kc dir incoming frontierTokens touchedAt) ≤
      indexedBytes g dir := by
  have hfold : ∀ (l : List (IndexEntry × Bool)) (dir : Dir),
      indexedBytes g (l.foldl (fun dir x =>
        if x.2 then touchFile g' dir x.1.path x.1.hits (touchedAt x.1.path)
        else dir.unlink x.1.path) dir) ≤ indexedBytes g dir := by
    intro l
    induction l with
    | nil => exact fun dir => le_rfl
    | cons x l ih =>
      intro dir
      refine (ih _).trans ?_
      simp only
      split
      · rw [indexedBytes_touch]
      · exact indexedBytes_unlink_le g dir x.1.path
  unfold cacheLadderThin
  split
  · exact le_rfl
  · exact hfold _ dir

/-! ## Writing a new file -/

theorem budgetRequired_le {n required : Nat} (h : budgetRequired n = some required) :
    n ≤ required := by
  simp only [budgetRequired, Option.ite_none_left_eq_some, Option.some.injEq] at h
  omega

theorem fileSizeFits_ok {kc : Cache} {textBytes payloadBytes trailerBytes n : Nat}
    (hbudget : kc.budgetBytes ≠ 0)
    (h : fileSizeFits kc textBytes payloadBytes trailerBytes = some n) :
    n = 84 + textBytes + payloadBytes + trailerBytes ∧ n ≤ kc.budgetBytes.toNat := by
  unfold fileSizeFits at h
  split at h
  · cases h
  next m hm =>
  rw [if_neg hbudget] at h
  split at h
  · cases h
  next required hrequired =>
  have hle := budgetRequired_le hrequired
  simp only [fileSizeBytes, Option.ite_none_left_eq_some, Option.some.injEq] at hm
  simp only [Option.ite_none_right_eq_some, Option.some.injEq] at h
  omega

theorem copyLoop_short {src : File} {n : Nat} (h : src.rest.length < n) (f : File) (s : Hash) :
    copyLoop src f s n = none := by
  induction n using Nat.strong_induction_on generalizing src f s with
  | _ n ih =>
    have hchunk : 0 < hashChunk := by decide
    unfold copyLoop
    rw [if_neg (by omega)]
    simp only
    split
    · rfl
    next hread =>
      simp only [File.read, List.length_take, ne_eq, not_not] at hread
      refine ih _ (by omega) ?_ _ _
      rw [File.rest_read, List.length_drop]
      omega

theorem entryFront_ok {h : Bytes} {im : Images} {hh list : Bytes} (hlen : h.length = 80)
    (hok : entryFront h (some im) = .ok (hh, list)) :
    hh.length = 80 ∧ list.length = imagesBytes (some im) ∧ imagesBytes (some im) ≤ 792 := by
  unfold entryFront at hok
  simp only at hok
  split at hok
  next h0 =>
    obtain ⟨rfl, rfl⟩ : h = hh ∧ [] = list := by simpa using hok
    exact ⟨hlen, h0.symm, by omega⟩
  next h0 =>
  split at hok
  · cases hok
  next hwf =>
    obtain ⟨rfl, rfl⟩ : _ = hh ∧ encodeImages im = list := by simpa using hok
    rw [not_or, Bool.not_eq_false] at hwf
    have hle := ImagesOk.length_le ⟨hwf.1, hwf.2⟩
    have hne : im.v ≠ [] := fun hv => h0 (by simp [imagesBytes, hv])
    have hbytes : imagesBytes (some im) = 24 + im.v.length * 48 := by
      simp only [imagesBytes, if_neg hne]
    refine ⟨?_, by rw [encodeImages_length, hbytes], by omega⟩
    have h₁ : (patch h 20 [3]).length = 80 := by rw [patch_length (by simp; omega), hlen]
    rw [patch_length (by rw [h₁, put64_length]; omega), h₁]

theorem writeEntryImages_length {h text : Bytes} {im : Images} {staged : Staged}
    {hook : Option TrailerWrite} {f : File} {n : Nat} {hash : UInt64} (hlen : h.length = 80)
    (hok : writeEntryImages File.empty h text (some im) (some staged) hook = .ok (f, n, hash)) :
    (∃ t, trailerWrite hook text = some t ∧ t.length = n) ∧
      staged.bytes.toNat ≤ staged.content.length ∧ imagesBytes (some im) ≤ 792 ∧
      f.data.length = 84 + text.length + (staged.bytes.toNat + imagesBytes (some im)) + n := by
  unfold writeEntryImages at hok
  split at hok
  · cases hok
  next hh list hfront =>
  obtain ⟨hhl, hlist, hle⟩ := entryFront_ok hlen hfront
  simp only at hok
  split at hok
  · cases hok
  next f₁ hash' hpayload =>
  split at hok
  · cases hok
  next t ht =>
  obtain ⟨rfl, rfl, rfl⟩ : _ = f ∧ t.length = n ∧ hash' = hash := by simpa using hok
  rw [show File.empty = File.written [] from rfl] at hpayload
  simp only [File.write_written, writePayload, copyStagedHashed] at hpayload
  by_cases hshort : staged.content.length < staged.bytes.toNat
  · rw [copyLoop_short (by simpa using hshort)] at hpayload
    cases hpayload
  rw [not_lt] at hshort
  have hrest : (File.open' staged.content).rest =
      staged.content.take staged.bytes.toNat ++ staged.content.drop staged.bytes.toNat :=
    (List.take_append_drop staged.bytes.toNat staged.content).symm
  have hcopy := copyLoop_spec hrest
  simp only [List.length_take, Nat.min_eq_left hshort] at hcopy
  rw [hcopy] at hpayload
  obtain ⟨rfl, -⟩ : File.written _ = f₁ ∧ _ = hash' := by simpa using hpayload
  refine ⟨⟨t, ht, rfl⟩, hshort, hle, ?_⟩
  rw [File.write_written]
  change (patch _ 64 (put64 hash')).length = _
  rw [patch_length]
  · simp [hhl, hlist, Nat.min_eq_left hshort]
    omega
  · simp [hhl]
    omega

/-! ## One store -/

/-- Every trailer has its estimated size. -/
def ExactTrailer (hooks : Option TrailerHooks) : Prop :=
  ∀ text est t, trailerSerializedSize hooks text = some est →
    trailerWrite (hooks.bind (·.write)) text = some t → t.length = est.toNat

/-- A store within the budget. -/
structure Within (kc : Cache) (g : Process) (dir : Dir) : Prop where
  enabled : kc.enabled = true
  budget : kc.budgetBytes ≠ 0
  le : indexedBytes g dir ≤ kc.budgetBytes.toNat

section Store

variable {σ S : Type*} [LT S] [DecidableLT S] [DecidableEq S] (eng : StoreEngine σ)

theorem Within.of_le {kc : Cache} {g g' : Process} {dir dir' : Dir} (h : Within kc g dir)
    (hle : indexedBytes g' dir' ≤ indexedBytes g' dir) : Within kc g' dir' :=
  ⟨h.enabled, h.budget, hle.trans (indexedBytes_process g' g dir ▸ h.le)⟩

omit [LT S] [DecidableLT S] [DecidableEq S] in
theorem storeKey_trailer {kc : Cache} {c : StoreCall σ S} {key : StoreKey}
    (h : storeKey eng kc c = some key) :
    trailerSerializedSize c.hooks key.text = some key.trailerEst := by
  unfold storeKey at h
  repeat' split at h
  all_goals try cases h
  next hest => exact hest

theorem existingCompatible_le (g g' : Process) (opt : StoreOptions) (dir : Dir) (key : StoreKey)
    (modelId quantBits : UInt8) (ctxSize : UInt32) :
    indexedBytes g (existingCompatible g' opt dir key modelId quantBits ctxSize).1 ≤
      indexedBytes g dir := by
  unfold existingCompatible
  repeat' split
  all_goals first | exact le_rfl | exact indexedBytes_unlink_le g dir key.path

theorem makeRoom_le {g : Process} {kc : Cache} {dir : Dir} {est : Nat} (h : Within kc g dir)
    (hest : est ≤ kc.budgetBytes.toNat) (c : StoreCall σ S) (key : StoreKey) :
    indexedBytes g (makeRoom eng g kc dir c key est) + est ≤ kc.budgetBytes.toNat := by
  refine evict_le c.score h.enabled h.budget hest ?_
  have hthin := indexedBytes_thin_le g g kc dir (storeIncoming eng kc c key)
    (UInt32.ofNat (storeTokens c).length) c.touchedAt
  have := kc.budgetBytes.toNat_lt
  exact lt_of_le_of_lt (hthin.trans h.le) (by omega)

theorem storeNew_within {g : Process} {kc : Cache} {dir : Dir} {c : StoreCall σ S} {key : StoreKey}
    (h : Within kc g dir) (hest : trailerSerializedSize c.hooks key.text = some key.trailerEst)
    (hexact : ExactTrailer c.hooks) : Within kc g (storeNew eng g kc dir c key).dir := by
  unfold storeNew
  simp only
  split
  · exact h
  next staged _ =>
  split
  · exact h
  next est hfits =>
  obtain ⟨hsize, hle⟩ := fileSizeFits_ok h.budget hfits
  have hroom := makeRoom_le eng h hle c key
  have hmade : Within kc g (makeRoom eng g kc dir c key est) :=
    ⟨h.enabled, h.budget, (Nat.le_add_right _ _).trans hroom⟩
  split
  · exact hmade
  next f trailerBytes _ hwrite =>
  split
  · exact hmade
  obtain ⟨⟨t, ht, rfl⟩, hstaged, himages, hlen⟩ := writeEntryImages_length
    (by simp [storeHeader, fillHeader]) hwrite
  have hpayload : (staged.1.bytes + UInt64.ofNat (imagesBytes (some key.images))).toNat =
      staged.1.bytes.toNat + imagesBytes (some key.images) := by
    have := staged.2
    rw [UInt64.toNat_add, UInt64.toNat_ofNat', Nat.mod_eq_of_lt (a := imagesBytes _) (by omega),
      Nat.mod_eq_of_lt (by omega)]
  have hrename := indexedBytes_rename_le g (makeRoom eng g kc dir c key est) key.path f.data
  rw [hexact _ _ _ hest ht] at hlen
  refine ⟨h.enabled, h.budget, hrename.trans ?_⟩
  omega

/-- The trailer that a store writes behind a payload it finds. -/
def rewrittenTrailer (hooks : Option TrailerHooks) (key : StoreKey) : Option Bytes :=
  match hooks.bind (·.serializedSize) with
  | none => none
  | some _ => if key.trailerEst = 0 then none else (hooks.bind (·.write)).bind fun w => w key.text

/-- A trailer that is rewritten in place is at most as much longer than the bytes behind the payload
as the budget leaves free. -/
def TrailerFits (kc : Cache) (g : Process) (dir : Dir) (c : StoreCall σ S) : Prop :=
  ∀ key content t, storeKey eng kc c = some key → dir.content key.path = some content →
    (existingCompatible (bindIdentity g eng.identity) kc.toStoreOptions dir key eng.modelId
      eng.quantBits (eng.ctx c.session)).2 = true →
    rewrittenTrailer c.hooks key = some t →
    payloadEnd content + t.length ≤ content.length + (kc.budgetBytes.toNat - indexedBytes g dir)

theorem readEntry_own {g : Process} {path c sha : Bytes} {e : IndexEntry}
    (h : readEntry g path c sha false = some e) :
    Counted c ∧ ∃ r, readHeader g (File.open' c) = some r := by
  have hkept : readEntry g path c sha true = some e ∧ ∃ r, readHeader g (File.open' c) = some r := by
    unfold readEntry at h ⊢
    unfold readHeader
    split at h
    · cases h
    next hlen =>
    rw [if_neg hlen]
    cases hparse : parseHeader g (File.open' c) with
    | none => simp [hparse] at h
    | some r =>
      simp only [hparse, and_true] at h ⊢
      split at h
      · cases h
      next hrefusal =>
        exact ⟨by simpa using h, r, by simpa [Option.filter_some] using hrefusal⟩
  rw [readEntry_kept] at hkept
  refine ⟨?_, hkept.2⟩
  by_contra hc
  simp [if_neg hc] at hkept

theorem existingCompatible_found {g : Process} {opt : StoreOptions} {dir : Dir} {key : StoreKey}
    {modelId quantBits : UInt8} {ctxSize : UInt32}
    (h : (existingCompatible g opt dir key modelId quantBits ctxSize).2 = true) :
    (existingCompatible g opt dir key modelId quantBits ctxSize).1 = dir ∧
      ∃ content r, dir.content key.path = some content ∧ Counted content ∧
        readHeader g (File.open' content) = some r := by
  unfold existingCompatible at h ⊢
  split at h
  · cases h
  next content hcontent =>
  split at h
  · cases h
  next e he =>
  split at h
  swap
  · cases h
  next hcompatible =>
    obtain ⟨hc, r, hr⟩ := readEntry_own he
    exact ⟨by simp only [if_pos hcompatible], content, r, hcontent, hc, hr⟩

theorem rewriteTrailer_le {g g' : Process} {dir : Dir} {key : StoreKey}
    {hooks : Option TrailerHooks} {now : UInt64} {content : Bytes} {r : Entry × UInt32 × File}
    (hcontent : dir.content key.path = some content) (hc : Counted content)
    (hr : readHeader g' (File.open' content) = some r)
    (hest : trailerSerializedSize hooks key.text = some key.trailerEst) {n : Nat}
    (hn : indexedBytes g dir ≤ n)
    (hfits : ∀ t, rewrittenTrailer hooks key = some t →
      payloadEnd content + t.length ≤ content.length + (n - indexedBytes g dir)) :
    indexedBytes g (rewriteTrailer g' dir key hooks now) ≤ n := by
  unfold rewriteTrailer
  split
  · exact hn
  next hk =>
  split
  swap
  · exact hn
  next write est hwrite hsize =>
  split
  · exact hn
  next hne =>
  have hupdate := indexedBytes_update (g := g)
    (rewriteContent g' write hk.extFlag key.text now) hcontent
  suffices hnew : countedBytes (rewriteContent g' write hk.extFlag key.text now content) ≤
      content.length + (n - indexedBytes g dir) by
    unfold fileBytes at hupdate
    rw [show countedBytes content = content.length from if_pos hc] at hupdate
    simp only at hupdate
    split at hupdate <;> omega
  have hle : payloadEnd content ≤ content.length := hc.2.1
  by_cases hlt : payloadEnd content < 2 ^ 63
  · rw [countedBytes_rewrite hc hlt hr]
    cases ht : write key.text with
    | none =>
      simp
      omega
    | some t =>
      refine hfits t ?_
      obtain ⟨size, hsome, hval⟩ := Option.bind_eq_some_iff.mp hsize
      have hsame : est = key.trailerEst := by
        simp only [trailerSerializedSize, Option.bind_some, hsome] at hest
        exact Option.some.inj (hval.symm.trans hest)
      simp only [rewrittenTrailer, Option.bind_some, hsome, hwrite, ht, ← hsame, if_neg hne]
  · rw [rewriteContent_long hc hlt hr, countedBytes, if_pos hc]
    omega

theorem store_within {g : Process} {kc : Cache} {dir : Dir} {c : StoreCall σ S}
    (h : Within kc g dir) (hexact : ExactTrailer c.hooks) (hfits : TrailerFits eng kc g dir c) :
    Within kc (storeLivePrefixText eng g kc dir c).process (storeLivePrefixText eng g kc dir c).dir := by
  unfold storeLivePrefixText
  split
  · exact h
  have hbound : Within kc (bindIdentity g eng.identity) dir := h.of_le le_rfl
  simp only
  split
  · exact hbound
  next key hkey =>
  have hest := storeKey_trailer eng hkey
  split
  next hfound =>
    obtain ⟨hdir, content, r, hcontent, hc, hr⟩ := existingCompatible_found hfound
    refine ⟨h.enabled, h.budget, ?_⟩
    simp only [hdir]
    refine rewriteTrailer_le hcontent hc hr hest hbound.le fun t ht => ?_
    rw [indexedBytes_process _ g]
    exact hfits key content t hkey hcontent hfound ht
  · refine (storeNew_within eng (g := bindIdentity g eng.identity) ?_ hest hexact).of_le le_rfl
    exact hbound.of_le (existingCompatible_le _ _ _ _ _ _ _ _)

/-! ## Runs -/

/-- The calls that keep the budget. -/
def KeepsBudget (kc : Cache) (st : State) : Call σ S → Prop
  | .store c => ExactTrailer c.hooks ∧ TrailerFits eng kc st.process st.dir c
  | _ => True

theorem apply_le (g g' : Process) (now : UInt64) (dir : Dir) (change : DirChange) :
    indexedBytes g (dir.apply g' now change) ≤ indexedBytes g dir := by
  cases change with
  | none => exact le_rfl
  | unlink path => exact indexedBytes_unlink_le g dir path
  | touch path hits => exact (indexedBytes_touch g g' dir path hits now).le

theorem step_within {kc : Cache} {st : State} (call : Call σ S)
    (h : Within kc st.process st.dir) (hcall : KeepsBudget eng kc st call) :
    Within kc (step eng kc st call).process (step eng kc st call).dir := by
  cases call with
  | store c => exact store_within eng h hcall.1 hcall.2
  | load session prompt images canaryReady now => exact h.of_le (apply_le _ _ now st.dir _)
  | touch path hits now => exact h.of_le (indexedBytes_touch _ _ _ _ _ _).le
  | canary value => exact h.of_le le_rfl

/-- **The disk budget.** A directory is opened and calls follow. Where every call meets its condition
in the state it starts from, the indexed files of every state fit into the budget. -/
theorem run_within_budget (score : IndexEntry → S) (g : Process) (opt : StoreOptions)
    (ladder : Bool) (budgetMb : UInt64) (dir : Dir) (calls : List (Call σ S))
    (hbudget : (openStore score g opt ladder budgetMb dir).1.budgetBytes ≠ 0)
    (hdir : indexedBytes g dir < 2 ^ 64)
    (hcalls : ∀ p ∈ (calls.scanl (step eng (openStore score g opt ladder budgetMb dir).1)
      ⟨g, (openStore score g opt ladder budgetMb dir).2⟩).zip calls,
        KeepsBudget eng (openStore score g opt ladder budgetMb dir).1 p.1 p.2) :
    ∀ st ∈ calls.scanl (step eng (openStore score g opt ladder budgetMb dir).1)
      ⟨g, (openStore score g opt ladder budgetMb dir).2⟩,
        indexedBytes st.process st.dir ≤
          (openStore score g opt ladder budgetMb dir).1.budgetBytes.toNat := by
  have hopen : Within (openStore score g opt ladder budgetMb dir).1 g
      (openStore score g opt ladder budgetMb dir).2 :=
    ⟨rfl, hbudget, evict_le score rfl hbudget (Nat.zero_le _) hdir⟩
  have hrun : ∀ (kc : Cache) (calls : List (Call σ S)) (st : State),
      Within kc st.process st.dir →
      (∀ p ∈ (calls.scanl (step eng kc) st).zip calls, KeepsBudget eng kc p.1 p.2) →
      ∀ st' ∈ calls.scanl (step eng kc) st, Within kc st'.process st'.dir := by
    intro kc calls
    induction calls with
    | nil =>
      intro st h _ st' hst'
      obtain rfl : st' = st := by simpa using hst'
      exact h
    | cons call calls ih =>
      intro st h hcalls st' hst'
      rw [List.scanl_cons] at hcalls hst'
      rcases List.mem_cons.mp hst' with rfl | hst'
      · exact h
      · refine ih _ (step_within eng call h (hcalls (st, call) (by simp))) (fun p hp => ?_) st' hst'
        exact hcalls p (by simp [hp])
  exact fun st hst => (hrun _ calls _ hopen hcalls st hst).le

end Store

/-! ## An entry whose trailer grows -/

/-- `listEngine` with an empty payload. -/
def helloEngine : StoreEngine (List Int) :=
  { listEngine with
    tokenText := fun _ => []
    stage := fun _ => .ok ⟨⟨[], 0⟩, by decide⟩ }

/-- The store of `helloDir` with a budget of 1 MiB. -/
def helloCache : Cache := ⟨⟨512, false⟩, true, 1048576, true⟩

/-- The live tokens. -/
def helloTokens : List Int := List.replicate 600 7

theorem helloTokens_length : helloTokens.length = 600 := List.length_replicate

/-- Storing `hello` again, with a trailer of `n` bytes. -/
def helloStore (n : Nat) : StoreCall (List Int) Nat where
  session := helloTokens
  tokens := some helloTokens
  storeLen := 600
  reason := lit "cold"
  textOverride := lit "hello"
  textExt := 0
  images := none
  hooks := some ⟨some fun _ => some (UInt64.ofNat n), some fun _ => some (List.replicate n 0), 1⟩
  canaryReady := true
  score _ := 0
  touchedAt _ := 200
  now := 200

/-- What `hello` is stored under. -/
def helloKey (n : Nat) : StoreKey :=
  ⟨lit "hello", ⟨0, []⟩, lit "aaf4c61ddcc5e8a2dabede0f3b482cd9aea9434d", UInt64.ofNat n⟩

theorem openStore_hello :
    openStore (fun _ => 0 : IndexEntry → Nat) ⟨1, 0⟩ ⟨512, false⟩ true 1 helloDir =
      (helloCache, helloDir) := by
  have hloop : ∀ target, 89 ≤ target →
      evictLoop (fun _ => 0 : IndexEntry → Nat) target 89 [helloEntry] helloDir = helloDir := by
    intro target h
    rw [evictLoop, if_neg (by omega)]
  have hbudget : (1 * 1024 * 1024 : UInt64).toNat = 1048576 := by decide
  unfold openStore evict
  rw [refresh_helloDir]
  simp only [show ((1 : UInt64) = 0) = False by decide, if_false, hbudget]
  rw [if_neg (by decide), if_neg (by decide)]
  exact Prod.ext rfl (hloop _ (by decide))

theorem indexedBytes_helloDir : indexedBytes ⟨1, 0⟩ helloDir = 89 := by
  rw [indexedBytes, refresh_helloDir]
  rfl

theorem exactTrailer_hello {n : Nat} (h : n < 2 ^ 64) : ExactTrailer (helloStore n).hooks := by
  intro text est t hest ht
  obtain rfl : UInt64.ofNat n = est := Option.some.inj hest
  obtain rfl : List.replicate n 0 = t := Option.some.inj ht
  rw [List.length_replicate, UInt64.toNat_ofNat', Nat.mod_eq_of_lt h]

theorem storeKey_hello (n : Nat) :
    storeKey helloEngine helloCache (helloStore n) = some (helloKey n) := by
  have hsha : entrySha (lit "hello") (some ⟨0, []⟩) =
      lit "aaf4c61ddcc5e8a2dabede0f3b482cd9aea9434d" := entrySha_hello
  have htokens : storeTokens (helloStore n) = helloTokens := by
    rw [storeTokens]
    exact List.take_of_length_le helloTokens_length.le
  have hlive : helloEngine.tokens (helloStore n).session = some helloTokens := rfl
  have htext : storeText helloEngine (helloStore n) helloTokens = some (lit "hello", ⟨0, []⟩) := by
    unfold storeText
    rw [if_pos (show (helloStore n).textOverride ≠ [] from (by decide : lit "hello" ≠ [])),
      if_neg fun h => h.1 rfl]
    rfl
  unfold storeKey
  simp only [htokens, hlive, htext]
  rw [if_neg (by decide), if_neg (by simp [helloStore, helloCache]), if_neg (by simp [helloStore]),
    if_neg (by decide), if_neg (by simp), if_neg (by decide)]
  rw [helloKey, ← hsha]
  rfl

theorem found_hello (n : Nat) :
    (existingCompatible ⟨1, 0⟩ ⟨512, false⟩ helloDir (helloKey n) 0 2 32768).2 = true := by
  have h0 : (existingCompatible ⟨1, 0⟩ ⟨512, false⟩ helloDir (helloKey 0) 0 2 32768).2 = true := by
    decide +kernel
  exact h0

theorem payloadEnd_helloFile : payloadEnd helloFile = 89 := by decide

theorem content_hello (n : Nat) : helloDir.content (helloKey n).path = some helloFile := rfl

theorem rewrittenTrailer_hello {n : Nat} {t : Bytes}
    (h : rewrittenTrailer (helloStore n).hooks (helloKey n) = some t) : t.length = n := by
  simp only [rewrittenTrailer, helloStore, Option.bind_some] at h
  split at h
  · cases h
  · obtain rfl := Option.some.inj h
    exact List.length_replicate

/-- `hello` is opened, stored again with a trailer of four bytes, and touched. -/
theorem run_within_budget_hello :
    ([Call.store (helloStore 4), .touch (helloKey 4).path 1 300].scanl
      (step helloEngine helloCache) ⟨⟨1, 0⟩, helloDir⟩).Forall fun st =>
        indexedBytes st.process st.dir ≤ 1048576 := by
  have h := run_within_budget helloEngine (fun _ => 0 : IndexEntry → Nat) ⟨1, 0⟩ ⟨512, false⟩ true 1
    helloDir [Call.store (helloStore 4), .touch (helloKey 4).path 1 300]
  rw [openStore_hello] at h
  refine List.forall_iff_forall_mem.mpr (h (by decide) (by rw [indexedBytes_helloDir]; decide) ?_)
  rintro p hp
  simp only [List.scanl_cons, List.scanl_nil, List.zip_cons_cons, List.zip_nil_right,
    List.mem_cons, List.not_mem_nil, or_false] at hp
  rcases hp with rfl | rfl
  · refine ⟨exactTrailer_hello (by decide), fun key content t hkey hcontent _ ht => ?_⟩
    obtain rfl : helloKey 4 = key := Option.some.inj ((storeKey_hello 4).symm.trans hkey)
    obtain rfl : helloFile = content := Option.some.inj ((content_hello 4).symm.trans hcontent)
    rw [payloadEnd_helloFile, rewrittenTrailer_hello ht, indexedBytes_helloDir]
    decide
  · trivial

theorem step_hello {n : Nat} (hn : UInt64.ofNat n ≠ 0) :
    (step helloEngine helloCache ⟨⟨1, 0⟩, helloDir⟩ (.store (helloStore n))).dir =
      helloDir.update (helloKey n).path
        (rewriteContent ⟨1, 0⟩ (fun _ => some (List.replicate n 0)) 1 (lit "hello") 200) := by
  obtain ⟨hdir, -⟩ := existingCompatible_found (found_hello n)
  simp only [step, storeLivePrefixText]
  rw [if_neg (by simp [helloStore, helloCache])]
  simp only [storeKey_hello]
  change (if (existingCompatible ⟨1, 0⟩ ⟨512, false⟩ helloDir (helloKey n) 0 2 32768).2 = true then
    (⟨true, rewriteTrailer ⟨1, 0⟩
      (existingCompatible ⟨1, 0⟩ ⟨512, false⟩ helloDir (helloKey n) 0 2 32768).1 (helloKey n)
      (helloStore n).hooks 200, ⟨1, 0⟩, none⟩ : StoreResult) else _).dir = _
  rw [if_pos (found_hello n), hdir]
  exact if_neg hn

theorem indexedBytes_step_hello {n : Nat} (hn : UInt64.ofNat n ≠ 0) :
    indexedBytes ⟨1, 0⟩
      (step helloEngine helloCache ⟨⟨1, 0⟩, helloDir⟩ (.store (helloStore n))).dir = 89 + n := by
  obtain ⟨-, content, r, hcontent, hc, hr⟩ := existingCompatible_found (found_hello n)
  obtain rfl : helloFile = content := Option.some.inj ((content_hello _).symm.trans hcontent)
  have hsum := indexedBytes_update (g := ⟨1, 0⟩) (rewriteContent ⟨1, 0⟩
    (fun _ => some (List.replicate n 0)) 1 (lit "hello") 200) hcontent
  have hname : (shaHexName (helloKey n).path).isSome = true := by
    have h0 : (shaHexName (helloKey 0).path).isSome = true := by decide
    exact h0
  simp only [fileBytes, hname, if_true] at hsum
  rw [countedBytes_rewrite hc (by rw [payloadEnd_helloFile]; decide) hr, payloadEnd_helloFile,
    indexedBytes_helloDir, Option.getD_some, List.length_replicate, countedBytes, if_pos hc,
    show helloFile.length = 89 by decide] at hsum
  rw [step_hello hn]
  omega

/-- Stored again with a trailer of 1 MiB, the directory is over its budget. -/
theorem hello_over_budget :
    openStore (fun _ => 0 : IndexEntry → Nat) ⟨1, 0⟩ ⟨512, false⟩ true 1 helloDir =
        (helloCache, helloDir) ∧
      ExactTrailer (helloStore (2 ^ 20)).hooks ∧
      helloCache.budgetBytes.toNat <
        indexedBytes ⟨1, 0⟩
          (step helloEngine helloCache ⟨⟨1, 0⟩, helloDir⟩ (.store (helloStore (2 ^ 20)))).dir := by
  refine ⟨openStore_hello, exactTrailer_hello (by decide), ?_⟩
  rw [indexedBytes_step_hello (by decide)]
  decide

end Ds4.Kvstore
