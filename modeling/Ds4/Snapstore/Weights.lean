import Ds4.Snapstore.Compat

/-!
# What a compatible snapshot says about the weights

`Accepted` is what an accepted snapshot should mean and `SameWeights` is the change of a weight line
that should not matter. For a set of weight paths, `Sound` says that every accepted pair of texts with
these paths is `Accepted`, and `Independent` that the verdict does not see PATH and MTIME. Both hold
exactly when the comparison sees the path as one word (`sound_and_independent_iff`); a path such as
`/models/v4 flash.gguf` shifts the fields of its line, and then SHA or SIZE is not compared.
-/

namespace Ds4.Snapstore

open Ds4.Lib

/-! ## Statements -/

/-- A weight line of a path in `S`, or `-` for no file. -/
def WeightValue (S : Set FilePath) (v : Bytes) : Prop :=
  v = lit "-" ∨ ∃ w : WeightLine, w.path ∈ S ∧ w.render = v

/-- A metadata text whose weight lines have the form that the writer prints. -/
def WeightText (S : Set FilePath) (text : Bytes) : Prop :=
  ∀ l ∈ (metaParse text).line, isWeightKey l.key = true → WeightValue S l.val

/-- Weight values that differ in PATH and MTIME only. -/
def SameWeights (S : Set FilePath) (v v' : Bytes) : Prop :=
  (v = lit "-" ∧ v' = lit "-") ∨
    ∃ w w' : WeightLine, w.path ∈ S ∧ w'.path ∈ S ∧ w.size = w'.size ∧ w.sha = w'.sha ∧
      w.render = v ∧ w'.render = v'

/-- What an accepted snapshot promises. -/
structure Accepted (cache need : Meta) : Prop where
  format : metaGet cache (lit "format") = some ssFormat
  complete : cache.complete = true
  weights_present : ∀ k, isWeightKey k = true → ∀ w : WeightLine, ⟨k, w.render⟩ ∈ need.line →
    ∃ w' : WeightLine, metaGet cache k = some w'.render
  weights : ∀ k, isWeightKey k = true → ∀ w w' : WeightLine, ⟨k, w.render⟩ ∈ need.line →
    metaGet cache k = some w'.render → w.size = w'.size ∧ w.sha = w'.sha
  others : ∀ l ∈ need.line, compatKey false l.key = true → isWeightKey l.key = false →
    metaGet cache l.key = some l.val ∨ l.key = lit "canary" ∧ metaGet cache l.key = none
  switches : ∀ l ∈ cache.line, isSwitch l.key = true → metaGet need l.key = none →
    l.val = lit "(unset)"

/-- Acceptance of texts with paths in `S` means what it should. -/
def Sound (S : Set FilePath) : Prop :=
  ∀ cache need, WeightText S cache → WeightText S need →
    (compat false (metaParse cache) (metaParse need)).1 = .ok →
      Accepted (metaParse cache) (metaParse need)

/-- The verdict on texts with paths in `S` does not depend on PATH and MTIME. -/
def Independent (S : Set FilePath) : Prop :=
  ∀ cache cache' need need',
    Alike (SameWeights S) (metaParse cache) (metaParse cache') →
    Alike (SameWeights S) (metaParse need) (metaParse need') →
      (compat false (metaParse cache) (metaParse need)).1 =
        (compat false (metaParse cache') (metaParse need')).1

/-! ## Paths on which the comparison does what it says -/

section Good

variable {S : Set FilePath}

theorem checkLine_none {d : Bool} {cache : Meta} {l : MetaLine} (h : checkLine d cache l = none)
    (hk : compatKey d l.key = true) :
    (isWeightKey l.key = true → weightVerdict (metaGet cache l.key) (some l.val) = none) ∧
      (isWeightKey l.key = false → metaGet cache l.key = some l.val ∨
        l.key = lit "canary" ∧ metaGet cache l.key = none) := by
  unfold checkLine at h
  simp only [hk, Bool.true_eq_false, if_false] at h
  split_ifs at h with hc hw hv
  · refine ⟨fun hw => ?_, fun _ => .inr hc⟩
    rw [hc.1] at hw
    exact absurd hw (by decide)
  · exact ⟨fun _ => by simpa using h, fun hw' => by simp [hw] at hw'⟩
  · exact ⟨fun hw' => absurd hw' hw, fun _ => .inl (not_not.mp hv)⟩

theorem compatKey_of_weight {k : Bytes} (h : isWeightKey k = true) : compatKey false k = true := by
  have : k = lit "model" ∨ k = lit "drafter" := by simpa [isWeightKey, or_iff_not_imp_left] using h
  rcases this with rfl | rfl <;> decide

theorem accepted_of_ok {cache need : Meta} (h : (compat false cache need).1 = .ok)
    (hw : ∀ hv nv (w : WeightLine), nv = w.render → WeightValue S nv →
      (∀ v, hv = some v → WeightValue S v) → weightVerdict hv (some nv) = none →
      (∃ w' : WeightLine, hv = some w'.render) ∧
        ∀ w' : WeightLine, hv = some w'.render → w.size = w'.size ∧ w.sha = w'.sha)
    (hcache : ∀ l ∈ cache.line, isWeightKey l.key = true → WeightValue S l.val)
    (hneed : ∀ l ∈ need.line, isWeightKey l.key = true → WeightValue S l.val) :
    Accepted cache need := by
  obtain ⟨hf, hc, hlines, -, hsw⟩ := compat_ok_iff.1 h
  have hget : ∀ k, isWeightKey k = true → ∀ v, metaGet cache k = some v → WeightValue S v := by
    intro k hk v hv
    obtain ⟨l, hl, rfl⟩ := Option.map_eq_some_iff.mp hv
    have hkey : l.key = k := by simpa using List.find?_some hl
    exact hcache l (List.mem_of_find?_eq_some hl) (hkey ▸ hk)
  have key : ∀ k, isWeightKey k = true → ∀ w : WeightLine, ⟨k, w.render⟩ ∈ need.line →
      (∃ w' : WeightLine, metaGet cache k = some w'.render) ∧
        ∀ w' : WeightLine, metaGet cache k = some w'.render → w.size = w'.size ∧ w.sha = w'.sha :=
    fun k hk w hmem => hw _ _ w rfl (hneed _ hmem hk) (hget k hk)
      ((checkLine_none (hlines _ hmem) (compatKey_of_weight hk)).1 hk)
  exact
    { format := hf
      complete := hc
      weights_present := fun k hk w hmem => (key k hk w hmem).1
      weights := fun k hk w w' hmem => (key k hk w hmem).2 w'
      others := fun l hl hk => (checkLine_none (hlines l hl) hk).2
      switches := fun l hl => checkSwitch_eq_none_iff.1 (hsw l hl) }

theorem key_ne_dash (a b : Bytes) : a ++ 32 :: b ≠ lit "-" := by
  intro h
  have : (32 : UInt8) ∈ a ++ 32 :: b := by simp
  rw [h] at this
  exact absurd this (by decide)

theorem path_of_weightValue {v : Bytes} (h : WeightValue S v) {w : WeightLine} (hw : w.render = v)
    {P : FilePath → Prop} (hP : ∀ p p' : FilePath, p.bytes = p'.bytes → P p → P p')
    (hS : ∀ p ∈ S, P p) : P w.path := by
  rcases h with rfl | ⟨w', hmem, rfl⟩
  · exact absurd hw (render_ne_dash w)
  · exact hP _ _ (render_fields_inj hw.symm).1 (hS _ hmem)

theorem oneWord_congr (p p' : FilePath) (h : p.bytes = p'.bytes) (hp : p.OneWord) :
    p'.OneWord := by
  unfold FilePath.OneWord at *
  rwa [← h]

theorem poisoned_congr (p p' : FilePath) (h : p.bytes = p'.bytes) (hp : p.Poisoned) :
    p'.Poisoned := by
  unfold FilePath.Poisoned at *
  rwa [← h]

theorem weightKey_dash : weightKey (some (lit "-")) = lit "-" := by decide

theorem sound_of_oneWord (hS : ∀ p ∈ S, p.OneWord) : Sound S := by
  intro cache need hcache hneed hok
  refine accepted_of_ok (S := S) hok ?_ hcache hneed
  rintro hv _ w rfl hnv hhv hnone
  have hkey := (weightVerdict_eq_none_iff.1 hnone).1
  rw [weightKey_of_oneWord (path_of_weightValue hnv rfl oneWord_congr hS)] at hkey
  constructor
  · cases hv with
    | none => exact absurd hkey.symm (key_ne_dash _ _)
    | some v =>
      rcases hhv v rfl with rfl | ⟨w', -, rfl⟩
      · rw [weightKey_dash] at hkey
        exact absurd hkey.symm (key_ne_dash _ _)
      · exact ⟨w', rfl⟩
  · rintro w' rfl
    have hw' := path_of_weightValue (hhv _ rfl) rfl oneWord_congr hS
    rw [weightKey_of_oneWord hw'] at hkey
    obtain ⟨hsize, hsha⟩ :=
      append_cons_inj_left (space_not_mem w'.size_word) (space_not_mem w.size_word) hkey
    exact ⟨hsize.symm, hsha.symm⟩

theorem sound_of_poisoned (hS : ∀ p ∈ S, p.Poisoned) : Sound S := by
  intro cache need hcache hneed hok
  refine accepted_of_ok (S := S) hok ?_ hcache hneed
  rintro hv _ w rfl hnv - hnone
  exact absurd (marked_of_poisoned (path_of_weightValue hnv rfl poisoned_congr hS))
    (weightVerdict_eq_none_iff.1 hnone).2

theorem independent_of_congr (h : WeightCongr (SameWeights S)) : Independent S :=
  fun _ _ _ _ hcache hneed => compat_alike h hcache hneed false

theorem weightCongr_of_oneWord (hS : ∀ p ∈ S, p.OneWord) : WeightCongr (SameWeights S) := by
  have key : ∀ v v', SameWeights S v v' → weightKey (some v) = weightKey (some v') := by
    rintro v v' (⟨rfl, rfl⟩ | ⟨w, w', hw, hw', hsize, hsha, rfl, rfl⟩)
    · rfl
    · rw [weightKey_of_oneWord (hS _ hw), weightKey_of_oneWord (hS _ hw'), hsize, hsha]
  intro hv hv' nv nv' hh hn
  have hkey : weightKey hv = weightKey hv' := by
    cases hh with
    | none => rfl
    | some h => exact key _ _ h
  simp only [weightVerdict, hkey, key _ _ hn]

theorem weightCongr_of_poisoned (hS : ∀ p ∈ S, p.Poisoned) : WeightCongr (SameWeights S) := by
  have key : ∀ v v', SameWeights S v v' → (v = lit "-" ∧ v' = lit "-") ∨
      (unverifiable <:+: weightKey (some v) ∧ unverifiable <:+: weightKey (some v')) := by
    rintro v v' (h | ⟨w, w', hw, hw', -, -, rfl, rfl⟩)
    · exact .inl h
    · exact .inr ⟨marked_of_poisoned (hS _ hw), marked_of_poisoned (hS _ hw')⟩
  intro hv hv' nv nv' hh hn
  rcases key _ _ hn with ⟨rfl, rfl⟩ | ⟨h, h'⟩
  · cases hh with
    | none => rfl
    | some h =>
      rcases key _ _ h with ⟨rfl, rfl⟩ | ⟨h, h'⟩
      · rfl
      · simp only [weightVerdict, h, h', or_true, if_true]
  · simp only [weightVerdict, h, h', true_or, if_true]

end Good

/-! ## Paths on which it does not -/

section Bad

/-- A snapshot with one weight line. -/
def cacheText (w : WeightLine) : Bytes :=
  sheet [lit "format " ++ ssFormat, lit "model " ++ w.render, lit "end"]

/-- A process with one weight line. -/
def needText (w : WeightLine) : Bytes := sheet [lit "model " ++ w.render]

theorem newline_not_mem_render (w : WeightLine) : 10 ∉ w.render := by
  have h : ∀ b : Bytes, Word b → (10 : UInt8) ∉ b := fun b hb hmem =>
    absurd (hb.no_space 10 hmem) (by decide)
  simp [WeightLine.render, WeightLine.fields, w.path.no_newline, h _ w.size_word,
    h _ w.mtime_word, h _ w.sha_word]

theorem metaLine_model (v : Bytes) : metaLine (lit "model " ++ v) = ⟨lit "model", v⟩ := by
  have : lit "model " ++ v = lit "model" ++ 32 :: v := by
    rw [show lit "model " = lit "model" ++ [32] by decide]
    simp
  rw [this, metaLine_word (by decide) (by decide)]

theorem parse_cacheText (w : WeightLine) :
    metaParse (cacheText w) =
      ⟨[⟨lit "format", ssFormat⟩, ⟨lit "model", w.render⟩, ⟨lit "end", []⟩], true⟩ := by
  have h1 : metaLine (lit "format " ++ ssFormat) = ⟨lit "format", ssFormat⟩ := by decide
  have h2 : metaLine (lit "end") = ⟨lit "end", []⟩ := by decide
  rw [cacheText, metaParse_sheet]
  · simp [h1, h2, metaLine_model]
  · simp only [List.mem_cons, List.not_mem_nil, or_false, forall_eq_or_imp, forall_eq]
    refine ⟨by decide, ⟨?_, ?_⟩, by decide⟩
    · simpa [newline_not_mem_render w] using by decide
    · simpa using fun h => absurd h (by decide)

theorem parse_needText (w : WeightLine) :
    metaParse (needText w) = ⟨[⟨lit "model", w.render⟩], false⟩ := by
  have hne : lit "model " ++ w.render ≠ [] := by
    simpa using fun h => absurd h (by decide)
  have hend : lit "model " ++ w.render ≠ lit "end" := by
    rw [show lit "model " = 109 :: lit "odel " by decide, show lit "end" = 101 :: lit "nd" by decide]
    simp
  rw [needText, metaParse_sheet]
  · simpa [metaLine_model] using hend
  · rintro l hl
    obtain rfl := List.mem_singleton.mp hl
    refine ⟨fun h => ?_, hne⟩
    rcases List.mem_append.mp h with h | h
    · exact absurd h (by decide)
    · exact newline_not_mem_render w h

theorem compat_texts (w w' : WeightLine) :
    (compat false (metaParse (cacheText w)) (metaParse (needText w'))).1 =
      (weightVerdict (some w.render) (some w'.render)).getD .ok := by
  have hline : (checkLine false (metaParse (cacheText w)) ⟨lit "model", w'.render⟩).map (·.1) =
      weightVerdict (some w.render) (some w'.render) := by
    have hget : metaGet (metaParse (cacheText w)) (lit "model") = some w.render := by
      rw [parse_cacheText]
      rfl
    have h1 : compatKey false (lit "model") = true := by decide
    have h2 : isWeightKey (lit "model") = true := by decide
    have h3 : lit "model" ≠ lit "canary" := by decide
    unfold checkLine
    simp only [h1, h2, h3, hget, false_and, if_false, if_true, Bool.true_eq_false]
    cases weightVerdict (some w.render) (some w'.render) <;> rfl
  have hformat : metaGet (metaParse (cacheText w)) (lit "format") = some ssFormat := by
    rw [parse_cacheText]
    rfl
  have hcan : checkCanary (metaParse (cacheText w)) (metaParse (needText w')) = none := by
    rw [checkCanary_eq_none_iff, parse_cacheText]
    exact fun h => absurd rfl h
  have hsw : ((metaParse (cacheText w)).line.findSome?
      (checkSwitch (metaParse (needText w')))) = none := by
    rw [List.findSome?_eq_none_iff, parse_cacheText]
    intro l hl
    rw [checkSwitch_eq_none_iff]
    intro hs
    simp only [List.mem_cons, List.not_mem_nil, or_false] at hl
    rcases hl with rfl | rfl | rfl <;> cases hs
  have hcomplete : (metaParse (cacheText w)).complete = true := by rw [parse_cacheText]
  rw [compat_verdict, hformat]
  simp only [show ssFormat ≠ ssFormatLegacy by decide, if_false, ne_eq, not_true_eq_false,
    hcomplete, Bool.true_eq_false]
  have hfirst : firstRefusal false (metaParse (cacheText w)) (metaParse (needText w')) =
      weightVerdict (some w.render) (some w'.render) := by
    have hneed : (metaParse (needText w')).line = [⟨lit "model", w'.render⟩] := by
      rw [parse_needText]
    rw [firstRefusal, hcan, hsw, hneed, ← hline, List.findSome?_singleton]
    simp
  rw [hfirst]

variable {S : Set FilePath}

theorem weightText_cacheText {w : WeightLine} (hw : w.path ∈ S) : WeightText S (cacheText w) := by
  intro l hl hk
  rw [parse_cacheText] at hl
  simp only [List.mem_cons, List.not_mem_nil, or_false] at hl
  rcases hl with rfl | rfl | rfl
  · cases hk
  · exact .inr ⟨w, hw, rfl⟩
  · cases hk

theorem weightText_needText {w : WeightLine} (hw : w.path ∈ S) : WeightText S (needText w) := by
  intro l hl _
  rw [parse_needText] at hl
  obtain rfl := List.mem_singleton.mp hl
  exact .inr ⟨w, hw, rfl⟩

theorem not_sound {w w' : WeightLine} (hw : w.path ∈ S) (hw' : w'.path ∈ S)
    (h : weightVerdict (some w.render) (some w'.render) = none)
    (hne : ¬ (w'.size = w.size ∧ w'.sha = w.sha)) : ¬ Sound S := by
  intro hS
  have hok := hS _ _ (weightText_cacheText hw) (weightText_needText hw') (by rw [compat_texts, h]; rfl)
  refine hne (hok.weights (lit "model") (by decide) w' w ?_ ?_)
  · rw [parse_needText]
    exact List.mem_singleton_self _
  · rw [parse_cacheText]
    rfl

theorem word_replicate (n : Nat) {c : UInt8} (hc : isSpace c = false) :
    Word (List.replicate (n + 1) c) :=
  ⟨List.cons_ne_nil _ _, fun _ hd => List.eq_of_mem_replicate hd ▸ hc⟩

/-- A line, and lines with another digest and another size. -/
def sampleLine (p : FilePath) : WeightLine :=
  ⟨p, lit "1", lit "0", List.replicate 64 97, ⟨by decide, by decide⟩, ⟨by decide, by decide⟩,
    word_replicate 63 (by decide), by decide, by decide, by decide⟩

def otherDigest (p : FilePath) : WeightLine :=
  ⟨p, lit "1", lit "0", List.replicate 64 98, ⟨by decide, by decide⟩, ⟨by decide, by decide⟩,
    word_replicate 63 (by decide), by decide, by decide, by decide⟩

def otherSize (p : FilePath) : WeightLine :=
  ⟨p, lit "2", lit "0", List.replicate 64 97, ⟨by decide, by decide⟩, ⟨by decide, by decide⟩,
    word_replicate 63 (by decide), by decide, by decide, by decide⟩

/-- A blank path: the line reads as `SIZE MTIME` and two halves of SHA, and SIZE is not compared. -/
theorem not_sound_of_blank {p : FilePath} (hp : p ∈ S)
    (h : scanWords weightWidths p.bytes = []) : ¬ Sound S := by
  refine not_sound (w := sampleLine p) hp (show (otherSize p).path ∈ S from hp) ?_ fun h =>
    absurd h.1 (show lit "2" ≠ lit "1" by decide)
  have hkey : ∀ w : WeightLine, w.path = p → ∀ n, scanWords weightWidths w.fields =
      [n, lit "0", List.replicate 31 97, List.replicate 33 97] →
      weightKey (some w.render) = lit "0" ++ 32 :: List.replicate 33 97 := by
    rintro w rfl n hn
    have hw := scanWords_render w
    rw [h, List.length_nil, List.drop_zero, hn, List.nil_append] at hw
    exact weightKey_of_words (render_ne_dash w) hw
  have hread : ∀ n, n = lit "1" ∨ n = lit "2" →
      scanWords weightWidths (n ++ 32 :: (lit "0" ++ 32 :: List.replicate 64 97)) =
        [n, lit "0", List.replicate 31 97, List.replicate 33 97] := by
    rintro n (rfl | rfl) <;> decide
  rw [weightVerdict_eq_none_iff, hkey (sampleLine p) rfl _ (hread _ (.inl rfl)),
    hkey (otherSize p) rfl _ (hread _ (.inr rfl))]
  exact ⟨rfl, by decide⟩

/-- A path of two or more words: SHA is not compared. -/
theorem not_sound_of_words {p : FilePath} (hp : p ∈ S)
    (h : 2 ≤ (scanWords weightWidths p.bytes).length) (hm : ¬ p.Poisoned) : ¬ Sound S := by
  refine not_sound (w := sampleLine p) hp (show (otherDigest p).path ∈ S from hp) ?_ fun h =>
    absurd h.2 (show List.replicate 64 98 ≠ List.replicate 64 (97 : UInt8) by decide)
  rw [weightVerdict_eq_none_iff]
  exact ⟨weightKey_sha_irrelevant h rfl rfl rfl,
    not_marked (w := otherDigest p) h hm (show ¬ unverifiable <:+: lit "1" by decide)
      (show ¬ unverifiable <:+: lit "0" by decide)⟩

theorem not_sound_of_bad {p : FilePath} (hp : p ∈ S) (h1 : ¬ p.OneWord) (h2 : ¬ p.Poisoned) :
    ¬ Sound S := by
  unfold FilePath.OneWord at h1
  by_cases h0 : scanWords weightWidths p.bytes = []
  · exact not_sound_of_blank hp h0
  · have := List.length_pos_iff.mpr h0
    exact not_sound_of_words hp (by omega) h2

/-- A marked path beside a path of one word: the verdict depends on the path. -/
theorem not_independent {p q : FilePath} (hp : p ∈ S) (hq : q ∈ S) (h1 : p.OneWord)
    (h2 : q.Poisoned) : ¬ Independent S := by
  intro hS
  have same : SameWeights S (sampleLine p).render (sampleLine q).render :=
    .inr ⟨sampleLine p, sampleLine q, hp, hq, rfl, rfl, rfl, rfl⟩
  have hcache : Alike (SameWeights S) (metaParse (cacheText (sampleLine p)))
      (metaParse (cacheText (sampleLine q))) := by
    rw [parse_cacheText, parse_cacheText]
    refine ⟨.cons ⟨rfl, ?_, fun _ => rfl⟩ (.cons ⟨rfl, fun _ => same, ?_⟩
      (.cons ⟨rfl, ?_, fun _ => rfl⟩ .nil)), rfl⟩ <;> exact fun h => nomatch h
  have hneed : Alike (SameWeights S) (metaParse (needText (sampleLine p)))
      (metaParse (needText (sampleLine q))) := by
    rw [parse_needText, parse_needText]
    exact ⟨.cons ⟨rfl, fun _ => same, fun h => nomatch h⟩ .nil, rfl⟩
  have := hS _ _ _ _ hcache hneed
  rw [compat_texts, compat_texts] at this
  have hok : weightVerdict (some (sampleLine p).render) (some (sampleLine p).render) = none := by
    rw [weightVerdict_eq_none_iff, weightKey_of_oneWord (w := sampleLine p) h1]
    exact ⟨rfl, show ¬ unverifiable <:+: lit "1" ++ 32 :: List.replicate 64 97 by decide⟩
  have hbad : weightVerdict (some (sampleLine q).render) (some (sampleLine q).render) =
      some .unverifiable := by
    simp only [weightVerdict, marked_of_poisoned (w := sampleLine q) h2, true_or, if_true]
  rw [hok, hbad] at this
  cases this

end Bad

/-- **Weights.** Acceptance binds SIZE and SHA, and the verdict ignores PATH and MTIME, exactly for
the paths that the format reads as one word, and for paths whose lines are always refused. -/
theorem sound_and_independent_iff (S : Set FilePath) :
    (Sound S ∧ Independent S) ↔ (∀ p ∈ S, p.OneWord) ∨ ∀ p ∈ S, p.Poisoned := by
  constructor
  · rintro ⟨hs, hi⟩
    by_contra h
    push Not at h
    obtain ⟨⟨p, hp, hp1⟩, q, hq, hq2⟩ := h
    by_cases hp2 : p.Poisoned
    · by_cases hq1 : q.OneWord
      · exact not_independent hq hp hq1 hp2 hi
      · exact not_sound_of_bad hq hq1 hq2 hs
    · exact not_sound_of_bad hp hp1 hp2 hs
  · rintro (h | h)
    · exact ⟨sound_of_oneWord h, independent_of_congr (weightCongr_of_oneWord h)⟩
    · exact ⟨sound_of_poisoned h, independent_of_congr (weightCongr_of_poisoned h)⟩

/-- Weights at `/models/v4 flash.gguf` with another digest are accepted, and the same weights with
another MTIME are not. -/
theorem spaced_path_verdicts :
    (compat false
        (metaParse (sheet [lit "format ds4-bench-prefill-cache-4",
          lit "model /models/v4 flash.gguf 10 5 " ++ List.replicate 64 97, lit "end"]))
        (metaParse (sheet [lit "model /models/v4 flash.gguf 10 5 " ++ List.replicate 64 98]))).1 =
          .ok ∧
      (compat false
        (metaParse (sheet [lit "format ds4-bench-prefill-cache-4",
          lit "model /models/v4 flash.gguf 10 5 " ++ List.replicate 64 97, lit "end"]))
        (metaParse (sheet [lit "model /models/v4 flash.gguf 10 7 " ++ List.replicate 64 97]))).1 =
          .incompatible := by
  decide

end Ds4.Snapstore
