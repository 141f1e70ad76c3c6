import Ds4.Lib.Occurs

/-!
# The span of an edit

`agent_edit_find_old_span` finds the span of a file that an edit replaces. The old text is a C string,
the file any bytes. What it finds is exactly a target in the sense of `EditTarget`
(`agentEditFindOldSpan_iff`): the only occurrence of the old text, or the span from the only occurrence
of a head to the only occurrence of a tail behind it.
-/

namespace Ds4.Agent

open Ds4.Lib

/-! ## Anchors -/

/-- `agent_memmem_simple`. -/
def agentMemmemSimple (hay needle : Bytes) : Option Nat :=
  if needle = [] then some 0
  else if needle.length > hay.length then none
  else (List.range (hay.length - needle.length + 1)).find? fun i => needle <+: hay.drop i

/-- `agent_find_unique`. -/
def agentFindUnique (data needle : Bytes) (label : String) : Except String Nat :=
  if needle = [] then .error (label ++ " anchor is empty")
  else match agentMemmemSimple data needle with
  | none => .error (label ++ " anchor not found")
  | some first =>
    let second := if first + 1 ≤ data.length
      then agentMemmemSimple (data.drop (first + 1)) needle else none
    match second with
    | some _ => .error (label ++ " anchor is not unique")
    | none => .ok first

/-- `agent_find_unique_after`. -/
def agentFindUniqueAfter (data : Bytes) (start : Nat) (needle : Bytes) (label : String) :
    Except String Nat :=
  if needle = [] then .error (label ++ " anchor is empty")
  else if start > data.length then .error (label ++ " search starts outside file")
  else match agentMemmemSimple (data.drop start) needle with
  | none => .error (label ++ " anchor not found after old head")
  | some off =>
    let first := start + off
    let second := if first + 1 ≤ data.length
      then agentMemmemSimple (data.drop (first + 1)) needle else none
    match second with
    | some _ => .error (label ++ " anchor is not unique after old head")
    | none => .ok first

/-- The marker between a head and a tail. -/
def uptoMarker : Bytes := lit "[upto]"

/-- `agent_span_has_nonspace`. -/
def agentSpanHasNonspace (s : Bytes) : Bool := s.any fun c => !isSpace c

/-- The bytes that are stripped off the front of a tail. -/
def isNewline (c : UInt8) : Bool := c == 10 || c == 13

/-- What `agent_edit_find_old_span` finds. -/
structure EditSpan where
  offset : Nat
  length : Nat
  anchored : Bool
  deriving DecidableEq

/-- `agent_edit_find_old_span` without a marker. -/
def findWhole (data old : Bytes) : Except String EditSpan :=
  (agentFindUnique data old "old text").map fun i => ⟨i, old.length, false⟩

/-- `agent_edit_find_old_span` with the old text cut at its first marker. -/
def findAnchored (data head tail : Bytes) : Except String EditSpan :=
  if (strstr tail uptoMarker).isSome then
    .error "old text contains more than one [upto] marker"
  else
    let tail := tail.dropWhile isNewline
    if !agentSpanHasNonspace tail then
      .error "old text after [upto] must include a unique tail anchor"
    else match agentFindUnique data head "old head" with
    | .error e => .error e
    | .ok headPos =>
      match agentFindUniqueAfter data (headPos + head.length) tail "old tail" with
      | .error e => .error e
      | .ok tailPos => .ok ⟨headPos, tailPos - headPos + tail.length, true⟩

/-- `agent_edit_find_old_span`. -/
def agentEditFindOldSpan (data old : Bytes) (allowUpto : Bool) : Except String EditSpan :=
  match cut old uptoMarker with
  | none => findWhole data old
  | some (head, tail) => if !allowUpto then findWhole data old else findAnchored data head tail

/-! ## What is found -/

theorem agentMemmemSimple_eq_none {hay needle : Bytes} :
    agentMemmemSimple hay needle = none ↔ ∀ i, ¬ OccursAt hay needle i := by
  unfold agentMemmemSimple
  split_ifs with hnil hlen
  · simp only [false_iff, not_forall, not_not]
    exact ⟨0, by simp [OccursAt, hnil]⟩
  · refine iff_of_true rfl fun i hi => ?_
    have := hi.le
    omega
  · rw [List.find?_eq_none]
    constructor
    · intro h i hi
      have := hi.le
      exact h i (List.mem_range.mpr (by omega)) (by simpa using hi.2)
    · intro h i hi hocc
      have := List.mem_range.mp hi
      exact h i ⟨by omega, by simpa using hocc⟩

theorem agentMemmemSimple_eq_some {hay needle : Bytes} {i : Nat} :
    agentMemmemSimple hay needle = some i ↔
      OccursAt hay needle i ∧ ∀ j, OccursAt hay needle j → i ≤ j := by
  have hsound : ∀ i, agentMemmemSimple hay needle = some i →
      OccursAt hay needle i ∧ ∀ j, OccursAt hay needle j → i ≤ j := by
    intro i h
    unfold agentMemmemSimple at h
    split_ifs at h with hnil hlen
    · obtain rfl := Option.some.inj h
      exact ⟨by simp [OccursAt, hnil], by simp⟩
    · obtain ⟨hi, hmem, hleast⟩ := List.find?_range_eq_some.mp h
      have := List.mem_range.mp hmem
      refine ⟨⟨by omega, by simpa using hi⟩, fun j hj => ?_⟩
      by_contra hlt
      have := hleast j (by omega)
      simp [hj.2] at this
  refine ⟨hsound i, ?_⟩
  rintro ⟨hi, hleast⟩
  cases h : agentMemmemSimple hay needle with
  | none => exact absurd hi (agentMemmemSimple_eq_none.mp h i)
  | some k =>
    obtain ⟨hk, hkleast⟩ := hsound k h
    rw [le_antisymm (hleast k hk) (hkleast i hi)]

theorem second_eq_none {data needle : Bytes} {first : Nat} (h : OccursAt data needle first) :
    (if first + 1 ≤ data.length then agentMemmemSimple (data.drop (first + 1)) needle else none) =
      none ↔ ∀ j, first < j → ¬ OccursAt data needle j := by
  have hle := h.1
  split_ifs with hlt
  · rw [agentMemmemSimple_eq_none]
    constructor
    · intro hno j hj hocc
      refine hno (j - (first + 1)) ((occursAt_drop hlt).mpr ?_)
      rwa [show first + 1 + (j - (first + 1)) = j by omega]
    · exact fun hno j hj => hno _ (by omega) ((occursAt_drop hlt).mp hj)
  · refine iff_of_true rfl fun j hj hocc => ?_
    have := hocc.1
    omega

theorem occursOnce_of_search {data needle : Bytes} {start off : Nat} (hstart : start ≤ data.length)
    (h : agentMemmemSimple (data.drop start) needle = some off) :
    (if start + off + 1 ≤ data.length then agentMemmemSimple (data.drop (start + off + 1)) needle
      else none) = none ↔ OccursOnce data needle start (start + off) := by
  obtain ⟨hocc, hleast⟩ := agentMemmemSimple_eq_some.mp h
  rw [second_eq_none ((occursAt_drop hstart).mp hocc)]
  constructor
  · intro hno
    refine ⟨by omega, (occursAt_drop hstart).mp hocc, fun j hj hoccj => ?_⟩
    obtain ⟨k, rfl⟩ := Nat.exists_eq_add_of_le hj
    have hge := hleast k ((occursAt_drop hstart).mpr hoccj)
    have hle : start + k ≤ start + off := not_lt.mp fun hlt => hno _ hlt hoccj
    omega
  · intro honce j hj hoccj
    have := honce.2.2 j (by omega) hoccj
    omega

theorem not_occursOnce_of_search {data needle : Bytes} {start i : Nat} (hstart : start ≤ data.length)
    (h : agentMemmemSimple (data.drop start) needle = none) : ¬ OccursOnce data needle start i := by
  rintro ⟨hle, hocc, -⟩
  obtain ⟨k, rfl⟩ := Nat.exists_eq_add_of_le hle
  exact agentMemmemSimple_eq_none.mp h k ((occursAt_drop hstart).mpr hocc)

theorem agentFindUniqueAfter_eq_ok {data needle : Bytes} {start : Nat} {label : String} {i : Nat}
    (hstart : start ≤ data.length) :
    agentFindUniqueAfter data start needle label = .ok i ↔
      needle ≠ [] ∧ OccursOnce data needle start i := by
  rw [agentFindUniqueAfter]
  split_ifs with hnil hgt
  · simp [hnil]
  · omega
  · cases hfirst : agentMemmemSimple (data.drop start) needle with
    | none => simp [not_occursOnce_of_search hstart hfirst]
    | some off =>
      have honce := occursOnce_of_search hstart hfirst
      dsimp only
      generalize hsecond : (if start + off + 1 ≤ data.length
        then agentMemmemSimple (data.drop (start + off + 1)) needle else none) = second at honce ⊢
      cases second with
      | none =>
        have honce := honce.mp rfl
        simp only [Except.ok.injEq]
        exact ⟨fun h => ⟨hnil, h ▸ honce⟩, fun h => honce.unique h.2⟩
      | some k =>
        simp only [reduceCtorEq, false_iff] at honce ⊢
        rintro ⟨-, h⟩
        obtain ⟨hocc, hleast⟩ := agentMemmemSimple_eq_some.mp hfirst
        have heq := h.2.2 (start + off) (by omega) ((occursAt_drop hstart).mp hocc)
        exact honce (heq ▸ h)

theorem agentFindUnique_eq_ok {data needle : Bytes} {label : String} {i : Nat} :
    agentFindUnique data needle label = .ok i ↔ needle ≠ [] ∧ OccursOnce data needle 0 i := by
  -- the same search as from the start of the file, with other texts for its errors
  rw [← @agentFindUniqueAfter_eq_ok _ _ _ label _ (Nat.zero_le _), agentFindUnique,
    agentFindUniqueAfter, List.drop_zero, if_neg (Nat.not_lt_zero data.length)]
  by_cases hnil : needle = []
  · simp [hnil]
  · rw [if_neg hnil, if_neg hnil]
    cases agentMemmemSimple data needle with
    | none => simp
    | some off =>
      simp only [Nat.zero_add]
      generalize (if off + 1 ≤ data.length then agentMemmemSimple (data.drop (off + 1)) needle
        else none) = second
      cases second <;> simp

/-! ## Targets -/

/-- What an edit is for: the bytes that it is to replace. -/
inductive EditTarget (data old : Bytes) (allowUpto : Bool) : Nat → Nat → Prop
  | whole {i : Nat} (plain : allowUpto = false ∨ ∀ k, ¬ OccursAt old uptoMarker k)
      (once : OccursOnce data old 0 i) : EditTarget data old allowUpto i old.length
  | anchored {head tail : Bytes} {i j : Nat} (allowed : allowUpto = true)
      (marked : old = head ++ uptoMarker ++ tail) (marker : OccursOnce old uptoMarker 0 head.length)
      (solid : ∃ c ∈ tail.dropWhile isNewline, isSpace c = false)
      (first : OccursOnce data head 0 i)
      (last : OccursOnce data (tail.dropWhile isNewline) (i + head.length) j) :
      EditTarget data old allowUpto i (j + (tail.dropWhile isNewline).length - i)

theorem marker_uptoMarker : Marker 91 uptoMarker := ⟨rfl, by decide⟩

theorem occursOnce_marker {old head tail : Bytes} (h : cut old uptoMarker = some (head, tail)) :
    OccursOnce old uptoMarker 0 head.length ↔ strstr tail uptoMarker = none := by
  obtain ⟨rfl, hclear⟩ := cut_eq_some.mp h
  have hocc : OccursAt (head ++ uptoMarker ++ tail) uptoMarker head.length :=
    occursAt_iff_append.mpr ⟨head, tail, rfl, rfl⟩
  rw [strstr_eq_none]
  constructor
  · rintro honce ⟨a, b, rfl⟩
    have hlater : OccursAt (head ++ uptoMarker ++ (a ++ uptoMarker ++ b)) uptoMarker
        (head ++ uptoMarker ++ a).length :=
      occursAt_iff_append.mpr ⟨head ++ uptoMarker ++ a, b, by simp, rfl⟩
    have heq := honce.2.2 _ (Nat.zero_le _) hlater
    have hpos : 0 < uptoMarker.length := List.length_pos_iff.mpr marker_uptoMarker.ne_nil
    simp only [List.length_append] at heq
    omega
  · intro hno
    refine ⟨Nat.zero_le _, hocc, fun j _ hj => ?_⟩
    rcases lt_trichotomy j head.length with hlt | heq | hgt
    · -- an occurrence in the head is not clear of the marker
      refine absurd ?_ (hclear (head.drop j) (List.drop_suffix j head) ?_)
      · have hp := hj.2
        rwa [List.append_assoc, List.drop_append_of_le_length hlt.le] at hp
      · exact List.ne_nil_of_length_pos (by rw [List.length_drop]; omega)
    · exact heq
    · obtain ⟨k, rfl⟩ := Nat.exists_eq_add_of_le hgt.le
      have hp : uptoMarker <+: (uptoMarker ++ tail).drop k := by
        have hp := hj.2
        rwa [List.append_assoc, ← List.drop_drop, List.drop_left] at hp
      exact absurd (marker_uptoMarker.infix_of_drop (by omega) hp) hno

theorem findWhole_eq_ok {data old : Bytes} {span : EditSpan} :
    findWhole data old = .ok span ↔
      ∃ i, old ≠ [] ∧ OccursOnce data old 0 i ∧ span = ⟨i, old.length, false⟩ := by
  rw [findWhole]
  cases h : agentFindUnique data old "old text" with
  | error e =>
    have hno : ∀ i, ¬ (old ≠ [] ∧ OccursOnce data old 0 i) := fun i hi => by
      rw [agentFindUnique_eq_ok.mpr hi] at h
      cases h
    simp only [Except.map, reduceCtorEq, false_iff]
    rintro ⟨i, hne, honce, -⟩
    exact hno i ⟨hne, honce⟩
  | ok i =>
    obtain ⟨hne, honce⟩ := agentFindUnique_eq_ok.mp h
    simp only [Except.map, Except.ok.injEq]
    constructor
    · rintro rfl
      exact ⟨i, hne, honce, rfl⟩
    · rintro ⟨k, -, hk, rfl⟩
      rw [honce.unique hk]

theorem agentSpanHasNonspace_iff {s : Bytes} :
    agentSpanHasNonspace s = true ↔ ∃ c ∈ s, isSpace c = false := by
  simp [agentSpanHasNonspace]

theorem findAnchored_eq_ok {data head tail : Bytes} {span : EditSpan} :
    findAnchored data head tail = .ok span ↔
      strstr tail uptoMarker = none ∧ (∃ c ∈ tail.dropWhile isNewline, isSpace c = false) ∧
        ∃ i j, (head ≠ [] ∧ OccursOnce data head 0 i) ∧
          OccursOnce data (tail.dropWhile isNewline) (i + head.length) j ∧
          span = ⟨i, j - i + (tail.dropWhile isNewline).length, true⟩ := by
  unfold findAnchored
  cases hmarker : strstr tail uptoMarker with
  | some t => simp
  | none =>
    simp only [Option.isSome_none, Bool.false_eq_true, if_false, true_and]
    generalize tail.dropWhile isNewline = tail
    by_cases hsolid : agentSpanHasNonspace tail = true
    swap
    · rw [if_pos (by simpa using hsolid)]
      simp [← agentSpanHasNonspace_iff, hsolid]
    · rw [if_neg (by simpa using hsolid), and_iff_right (agentSpanHasNonspace_iff.mp hsolid)]
      have hne : tail ≠ [] := by
        rintro rfl
        cases hsolid
      cases hhead : agentFindUnique data head "old head" with
      | error e =>
        simp only [reduceCtorEq, false_iff]
        rintro ⟨i, j, hi, -⟩
        rw [agentFindUnique_eq_ok.mpr hi] at hhead
        cases hhead
      | ok i =>
        have hi := agentFindUnique_eq_ok.mp hhead
        have hstart : i + head.length ≤ data.length := hi.2.2.1.le
        have hany : ∀ k j, ((head ≠ [] ∧ OccursOnce data head 0 k) ∧
            OccursOnce data tail (k + head.length) j ∧ span = ⟨k, j - k + tail.length, true⟩) ↔
            k = i ∧ OccursOnce data tail (i + head.length) j ∧ span = ⟨i, j - i + tail.length, true⟩ := by
          intro k j
          constructor
          · rintro ⟨hk, hj⟩
            obtain rfl := hk.2.unique hi.2
            exact ⟨rfl, hj⟩
          · rintro ⟨rfl, hj⟩
            exact ⟨hi, hj⟩
        simp only [hany]
        cases htail : agentFindUniqueAfter data (i + head.length) tail "old tail" with
        | error e =>
          simp only [reduceCtorEq, false_iff]
          rintro ⟨k, j, -, hj, -⟩
          rw [(agentFindUniqueAfter_eq_ok hstart).mpr ⟨hne, hj⟩] at htail
          cases htail
        | ok j =>
          have hj := ((agentFindUniqueAfter_eq_ok hstart).mp htail).2
          simp only [Except.ok.injEq]
          constructor
          · rintro rfl
            exact ⟨i, j, rfl, hj, rfl⟩
          · rintro ⟨k, l, -, hl, rfl⟩
            rw [hj.unique hl]

theorem occursAt_of_cut {old head tail : Bytes} (h : cut old uptoMarker = some (head, tail)) :
    OccursAt old uptoMarker head.length := by
  obtain ⟨rfl, -⟩ := cut_eq_some.mp h
  exact occursAt_iff_append.mpr ⟨head, tail, rfl, rfl⟩

theorem find_of_plain {data old : Bytes} {allowUpto : Bool}
    (h : allowUpto = false ∨ ∀ k, ¬ OccursAt old uptoMarker k) :
    agentEditFindOldSpan data old allowUpto = findWhole data old := by
  unfold agentEditFindOldSpan
  cases hcut : cut old uptoMarker with
  | none => rfl
  | some parts =>
    obtain rfl := h.resolve_right fun hno => hno _ (occursAt_of_cut hcut)
    rfl

theorem find_of_marker {data old head tail : Bytes} (h : cut old uptoMarker = some (head, tail)) :
    agentEditFindOldSpan data old true = findAnchored data head tail := by
  rw [agentEditFindOldSpan, h]
  rfl

/-- **The span that is found is the target of the edit**, for an old text that is not empty. -/
theorem agentEditFindOldSpan_iff {data old : Bytes} {allowUpto : Bool} {offset length : Nat}
    (hold : old ≠ []) :
    (∃ anchored, agentEditFindOldSpan data old allowUpto = .ok ⟨offset, length, anchored⟩) ↔
      EditTarget data old allowUpto offset length := by
  constructor
  · rintro ⟨anchored, h⟩
    by_cases hplain : allowUpto = false ∨ ∀ k, ¬ OccursAt old uptoMarker k
    · rw [find_of_plain hplain] at h
      obtain ⟨i, -, honce, hspan⟩ := findWhole_eq_ok.mp h
      obtain ⟨rfl, rfl, -⟩ := EditSpan.mk.inj hspan
      exact .whole hplain honce
    · obtain ⟨hallow, k, hk⟩ : allowUpto = true ∧ ∃ k, OccursAt old uptoMarker k := by
        simpa using hplain
      subst hallow
      cases hcut : cut old uptoMarker with
      | none =>
        obtain ⟨a, b, rfl, -⟩ := occursAt_iff_append.mp hk
        exact absurd ⟨a, b, rfl⟩ (cut_eq_none.mp hcut)
      | some parts =>
        obtain ⟨head, tail⟩ := parts
        rw [find_of_marker hcut] at h
        obtain ⟨hone, hsolid, i, j, ⟨-, hi⟩, hj, hspan⟩ := findAnchored_eq_ok.mp h
        obtain ⟨rfl, rfl, -⟩ := EditSpan.mk.inj hspan
        have hle := hj.1
        rw [show j - offset + (tail.dropWhile isNewline).length =
            j + (tail.dropWhile isNewline).length - offset by
          omega]
        exact .anchored rfl (cut_eq_some.mp hcut).1 ((occursOnce_marker hcut).mpr hone) hsolid hi hj
  · intro h
    cases h with
    | whole plain once =>
      exact ⟨false, by rw [find_of_plain plain, findWhole_eq_ok]; exact ⟨_, hold, once, rfl⟩⟩
    | @anchored head tail i j allowed marked marker solid first last =>
      subst allowed
      cases hcut : cut old uptoMarker with
      | none =>
        exact absurd ⟨head, tail, marked.symm⟩ (cut_eq_none.mp hcut)
      | some parts =>
        obtain ⟨head', tail'⟩ := parts
        have hlen := marker.2.2 _ (Nat.zero_le _) (occursAt_of_cut hcut)
        obtain ⟨hold', -⟩ := cut_eq_some.mp hcut
        rw [marked, List.append_assoc, List.append_assoc] at hold'
        obtain ⟨rfl, hrest⟩ := List.append_inj hold' hlen.symm
        obtain rfl := List.append_cancel_left hrest
        have hhead : head ≠ [] := by
          -- an empty head occurs once in the empty file only, and there no tail does
          rintro rfl
          obtain ⟨c, hc, -⟩ := solid
          have hempty := first.of_nil
          have := last.2.1.le
          have := List.length_pos_of_mem hc
          omega
        refine ⟨true, ?_⟩
        rw [find_of_marker hcut, findAnchored_eq_ok]
        refine ⟨(occursOnce_marker hcut).mp marker, solid, offset, j, ⟨hhead, first⟩, last, ?_⟩
        have hle := last.1
        rw [show j - offset + (tail.dropWhile isNewline).length =
            j + (tail.dropWhile isNewline).length - offset by
          omega]

theorem EditTarget.unique {data old : Bytes} {allowUpto : Bool} {i j n m : Nat} (hold : old ≠ [])
    (h : EditTarget data old allowUpto i n) (h' : EditTarget data old allowUpto j m) :
    i = j ∧ n = m := by
  obtain ⟨a, ha⟩ := (agentEditFindOldSpan_iff hold).mpr h
  obtain ⟨b, hb⟩ := (agentEditFindOldSpan_iff hold).mpr h'
  obtain ⟨rfl, rfl, -⟩ := EditSpan.mk.inj (Except.ok.inj (ha.symm.trans hb))
  exact ⟨rfl, rfl⟩

end Ds4.Agent
