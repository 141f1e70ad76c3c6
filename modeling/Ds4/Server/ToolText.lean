import Ds4.Server.Json

/-!
# Delimiters in tool bodies

A tool body escapes its closing tag and the spellings that would collide with the escape, nothing
else (`ds4_tool_text.h`). For a closing tag the escape is undone exactly (`unescape_escape`), and
the closing tag is nowhere in an escaped body (`clear_escape`). Attributes are XML-escaped.
-/

namespace Ds4.Server

open Ds4.Lib

/-! ## Model -/

/-- The text behind any number of `amp;`. -/
def skipAmps : Bytes → Bytes
  | 97 :: 109 :: 112 :: 59 :: s => skipAmps s
  | s => s

/-- `ds4_tool_text_escaped_close`. -/
def escapedClose (s fin : Bytes) : Prop :=
  s.head? = some 38 ∧ lit "lt;" ++ fin.tail <+: skipAmps s.tail

instance (s fin : Bytes) : Decidable (escapedClose s fin) :=
  inferInstanceAs (Decidable (_ ∧ _))

/-- `ds4_tool_text_needs_escape`. -/
def needsEscape (s fin : Bytes) : Prop := fin <+: s ∨ escapedClose s fin

instance (s fin : Bytes) : Decidable (needsEscape s fin) := inferInstanceAs (Decidable (_ ∨ _))

/-- The loop of `ds4_tool_text_unescape`, with `k` more bytes of an escape to pass. -/
def toolTextUnescapeFrom (fin : Bytes) : Nat → Bytes → Bytes
  | _, [] => []
  | k + 1, _ :: s => toolTextUnescapeFrom fin k s
  | 0, c :: s =>
    if escapedClose (c :: s) fin then
      if lit "&amp;" <+: c :: s then 38 :: toolTextUnescapeFrom fin 4 s
      else 60 :: toolTextUnescapeFrom fin 3 s
    else c :: toolTextUnescapeFrom fin 0 s

/-- `ds4_tool_text_unescape`. -/
def toolTextUnescape (s fin : Bytes) : Bytes := toolTextUnescapeFrom fin 0 s

/-- The loop of `append_dsml_parameter_text`, `append_glm_tag_body_text` and
`append_tool_result_text`. -/
def toolTextEscape (fin : Bytes) : Bytes → Bytes
  | [] => []
  | c :: s =>
    if needsEscape (c :: s) fin then
      (if c = 60 then lit "&lt;" else lit "&amp;") ++ toolTextEscape fin s
    else c :: toolTextEscape fin s

/-- The loop of `dsml_unescape_text`, with `k` more bytes of an entity to pass. -/
def dsmlUnescapeFrom : Nat → Bytes → Bytes
  | _, [] => []
  | k + 1, _ :: s => dsmlUnescapeFrom k s
  | 0, c :: s =>
    if c ≠ 38 then c :: dsmlUnescapeFrom 0 s
    else if lit "&amp;" <+: c :: s then 38 :: dsmlUnescapeFrom 4 s
    else if lit "&lt;" <+: c :: s then 60 :: dsmlUnescapeFrom 3 s
    else if lit "&gt;" <+: c :: s then 62 :: dsmlUnescapeFrom 3 s
    else if lit "&quot;" <+: c :: s then 34 :: dsmlUnescapeFrom 5 s
    else if lit "&apos;" <+: c :: s then 39 :: dsmlUnescapeFrom 5 s
    else 38 :: dsmlUnescapeFrom 0 s

/-- `dsml_unescape_text`. -/
def dsmlUnescapeText (s : Bytes) : Bytes := dsmlUnescapeFrom 0 s

/-- `append_dsml_attr_escaped`. -/
def dsmlAttrEscape (s : Bytes) : Bytes := s.flatMap fun c =>
  if c = 38 then lit "&amp;"
  else if c = 60 then lit "&lt;"
  else if c = 62 then lit "&gt;"
  else if c = 34 then lit "&quot;"
  else [c]

/-- `dsml_attr`. -/
def dsmlAttr (tag name : Bytes) : Option Bytes :=
  match cut tag (name ++ [61, 34]) with
  | none => none
  | some (_, p) => (cut p [34]).map fun (raw, _) => dsmlUnescapeText raw

/-! ## Escaping a closing tag -/

/-- `amp;` repeated. -/
def amps : Nat → Bytes
  | 0 => []
  | k + 1 => lit "amp;" ++ amps k

theorem skipAmps_amps (k : Nat) {s : Bytes} (hs : ¬ lit "amp;" <+: s) :
    skipAmps (amps k ++ s) = s := by
  induction k with
  | zero =>
    rw [amps, List.nil_append]
    unfold skipAmps
    split
    · next t => exact absurd ⟨t, rfl⟩ hs
    · rfl
  | succ k ih => exact ih

theorem exists_skipAmps (s : Bytes) :
    ∃ k, s = amps k ++ skipAmps s ∧ ¬ lit "amp;" <+: skipAmps s := by
  induction s using skipAmps.induct with
  | case1 s ih =>
    obtain ⟨k, hs, hno⟩ := ih
    refine ⟨k + 1, ?_, hno⟩
    conv_lhs => rw [hs]
    rfl
  | case2 s hs =>
    refine ⟨0, ?_, ?_⟩
    · rw [skipAmps.eq_2 s hs]
      rfl
    · rw [skipAmps.eq_2 s hs]
      rintro ⟨t, rfl⟩
      exact hs t rfl

/-- The escaped forms of a closing tag: `&`, any number of `amp;`, and the tag with `lt;`. -/
theorem escapedClose_iff {s fin : Bytes} :
    escapedClose s fin ↔ ∃ k, 38 :: (amps k ++ (lit "lt;" ++ fin.tail)) <+: s := by
  constructor
  · rintro ⟨hh, hp⟩
    cases s with
    | nil => simp at hh
    | cons c s =>
      obtain rfl : c = 38 := by simpa using hh
      obtain ⟨k, hs, -⟩ := exists_skipAmps s
      refine ⟨k, (List.prefix_cons_inj 38).mpr ?_⟩
      rw [hs]
      exact (List.prefix_append_right_inj _).mpr hp
  · rintro ⟨k, t, rfl⟩
    refine ⟨rfl, ?_⟩
    have hno : ¬ lit "amp;" <+: lit "lt;" ++ fin.tail ++ t := by
      rintro ⟨u, hu⟩
      exact absurd (List.cons.inj hu).1 (by decide)
    rw [List.cons_append, List.tail_cons, List.append_assoc, skipAmps_amps k hno]
    exact List.prefix_append _ _

/-- A closing tag: a marker without `&`. -/
structure CloseTag (fin : Bytes) : Prop where
  marker : Marker 60 fin
  no_amp : 38 ∉ fin

section Escape

variable {fin : Bytes}

theorem toolTextUnescapeFrom_drop (k : Nat) (s : Bytes) :
    toolTextUnescapeFrom fin k s = toolTextUnescapeFrom fin 0 (s.drop k) := by
  induction s generalizing k with
  | nil => cases k <;> simp [toolTextUnescapeFrom]
  | cons c s ih =>
    cases k with
    | zero => rfl
    | succ k => exact ih k

theorem toolTextUnescape_cons {c : UInt8} {s : Bytes} (h : ¬ escapedClose (c :: s) fin) :
    toolTextUnescape (c :: s) fin = c :: toolTextUnescape s fin := by
  rw [toolTextUnescape, toolTextUnescapeFrom, if_neg h]
  rfl

theorem toolTextUnescape_amp {s : Bytes} (h : escapedClose (lit "&amp;" ++ s) fin) :
    toolTextUnescape (lit "&amp;" ++ s) fin = 38 :: toolTextUnescape s fin := by
  have hs : lit "&amp;" ++ s = 38 :: 97 :: 109 :: 112 :: 59 :: s := rfl
  rw [hs] at h ⊢
  rw [toolTextUnescape, toolTextUnescapeFrom, if_pos h, if_pos ⟨s, rfl⟩, toolTextUnescapeFrom_drop]
  rfl

theorem toolTextUnescape_lt {s : Bytes} (h : escapedClose (lit "&lt;" ++ s) fin) :
    toolTextUnescape (lit "&lt;" ++ s) fin = 60 :: toolTextUnescape s fin := by
  have hs : lit "&lt;" ++ s = 38 :: 108 :: 116 :: 59 :: s := rfl
  rw [hs] at h ⊢
  have hno : ¬ lit "&amp;" <+: 38 :: 108 :: 116 :: 59 :: s := by
    intro hp
    have := (List.cons_prefix_cons.mp (List.cons_prefix_cons.mp hp).2).1
    exact absurd this (by decide)
  rw [toolTextUnescape, toolTextUnescapeFrom, if_pos h, if_neg hno, toolTextUnescapeFrom_drop]
  rfl

theorem prefix_escape_iff {q : Bytes} (hamp : 38 ∉ q) (hlt : 60 ∉ q) (hfin : CloseTag fin) (s : Bytes) :
    q <+: toolTextEscape fin s ↔ q <+: s := by
  induction q generalizing s with
  | nil => simp
  | cons d q ih =>
    have hd38 : d ≠ 38 := fun h => hamp (by simp [h])
    have hd60 : d ≠ 60 := fun h => hlt (by simp [h])
    cases s with
    | nil => rfl
    | cons c s =>
      rw [toolTextEscape]
      split_ifs with hneed hc
      · constructor
        · intro h
          exact absurd (List.cons_prefix_cons.mp h).1 hd38
        · intro h
          exact absurd ((List.cons_prefix_cons.mp h).1.trans hc) hd60
      · constructor
        · intro h
          exact absurd (List.cons_prefix_cons.mp h).1 hd38
        · intro h
          obtain rfl : d = c := (List.cons_prefix_cons.mp h).1
          rcases hneed with hp | ⟨hh, -⟩
          · exact absurd hp (hfin.marker.not_prefix_cons hc)
          · exact absurd (by simpa using hh) hd38
      · rw [List.cons_prefix_cons, List.cons_prefix_cons,
          ih (fun h => hamp (List.mem_cons_of_mem d h)) (fun h => hlt (List.mem_cons_of_mem d h))]

theorem not_mem_amps {c : UInt8} (hc : c ∉ lit "amp;") (k : Nat) : c ∉ amps k := by
  induction k with
  | zero => exact List.not_mem_nil
  | succ k ih => simpa [amps] using ⟨hc, ih⟩

theorem CloseTag.tail (hfin : CloseTag fin) : 38 ∉ fin.tail ∧ 60 ∉ fin.tail :=
  ⟨fun h => hfin.no_amp (List.mem_of_mem_tail h), hfin.marker.tail⟩

theorem escapedClose_escape (hfin : CloseTag fin) (s : Bytes) :
    escapedClose (38 :: toolTextEscape fin s) fin ↔ escapedClose (38 :: s) fin := by
  rw [escapedClose_iff, escapedClose_iff]
  refine exists_congr fun k => ?_
  have hamp : 38 ∉ amps k ++ (lit "lt;" ++ fin.tail) := by
    simpa using ⟨not_mem_amps (by decide) k, by decide, hfin.tail.1⟩
  have hlt : 60 ∉ amps k ++ (lit "lt;" ++ fin.tail) := by
    simpa using ⟨not_mem_amps (by decide) k, by decide, hfin.tail.2⟩
  rw [List.cons_prefix_cons, List.cons_prefix_cons, prefix_escape_iff hamp hlt hfin]

/-- **Unescaping undoes the escape of a closing tag.** -/
theorem unescape_escape (hfin : CloseTag fin) (s : Bytes) :
    toolTextUnescape (toolTextEscape fin s) fin = s := by
  induction s with
  | nil => rfl
  | cons c s ih =>
    rw [toolTextEscape]
    split_ifs with hneed hc
    · subst hc
      have hp : fin <+: 60 :: s := by
        rcases hneed with hp | ⟨hh, -⟩
        · exact hp
        · simp at hh
      have htail : fin.tail <+: s := hfin.marker.prefix_cons_iff.mp hp
      rw [toolTextUnescape_lt, ih]
      refine escapedClose_iff.2 ⟨0, ?_⟩
      have := (prefix_escape_iff hfin.tail.1 hfin.tail.2 hfin s).mpr htail
      exact (List.prefix_append_right_inj (lit "&lt;")).mpr this
    · have hesc : escapedClose (c :: s) fin := by
        rcases hneed with hp | hesc
        · exact absurd hp (hfin.marker.not_prefix_cons hc)
        · exact hesc
      obtain rfl : c = 38 := by simpa using hesc.1
      obtain ⟨k, hk⟩ := escapedClose_iff.1 ((escapedClose_escape hfin s).mpr hesc)
      rw [toolTextUnescape_amp, ih]
      refine escapedClose_iff.2 ⟨k + 1, ?_⟩
      exact (List.prefix_append_right_inj (lit "&amp;")).mpr ((List.prefix_cons_inj 38).mp hk)
    · rw [toolTextUnescape_cons, ih]
      intro h
      obtain rfl : c = 38 := by simpa using h.1
      exact hneed (.inr ((escapedClose_escape hfin s).mp h))

/-- **The closing tag does not occur in an escaped body, nor over its end.** -/
theorem clear_escape (hfin : CloseTag fin) (s : Bytes) {t : Bytes}
    (ht : ∀ u : Bytes, u ≠ [] → fin <+: u ++ t → fin <+: u) :
    Clear fin (toolTextEscape fin s) t := by
  induction s with
  | nil => exact clear_nil _ _
  | cons c s ih =>
    rw [toolTextEscape]
    split_ifs with hneed hc
    · exact clear_append.2 ⟨hfin.marker.clear_of_not_mem (by decide) _, ih⟩
    · exact clear_append.2 ⟨hfin.marker.clear_of_not_mem (by decide) _, ih⟩
    · refine clear_cons.2 ⟨fun hp => hneed (.inl ?_), ih⟩
      have hcons := ht (c :: toolTextEscape fin s) (by simp) hp
      obtain rfl : c = 60 := by
        by_contra hc
        exact hfin.marker.not_prefix_cons hc hcons
      rw [hfin.marker.prefix_cons_iff] at hcons ⊢
      exact (prefix_escape_iff hfin.tail.1 hfin.tail.2 hfin s).mp hcons

theorem cut_escape (hfin : CloseTag fin) (s r : Bytes) :
    cut (toolTextEscape fin s ++ (fin ++ r)) fin = some (toolTextEscape fin s, r) := by
  refine cut_append (clear_escape hfin s fun u hu => ?_)
  refine hfin.marker.prefix_of_prefix_append hu fun d hd => ?_
  rw [hfin.marker.eq_cons] at hd
  exact (Option.some.inj hd).symm

/-- A text in which nothing is escaped. -/
def EscapeFree (fin s : Bytes) : Prop := ∀ u, u <:+ s → u ≠ [] → ¬ needsEscape u fin

instance (fin s : Bytes) : Decidable (EscapeFree fin s) :=
  decidable_of_iff (∀ u ∈ s.tails, u ≠ [] → ¬ needsEscape u fin) (by simp [EscapeFree])

theorem escape_eq_self {s : Bytes} (h : EscapeFree fin s) : toolTextEscape fin s = s := by
  induction s with
  | nil => rfl
  | cons c s ih =>
    rw [toolTextEscape, if_neg (h _ List.suffix_rfl (by simp)),
      ih fun u hu => h u (hu.trans (List.suffix_cons c s))]

end Escape

/-! ## Attributes -/

theorem dsmlUnescape_attrEscape (s : Bytes) : dsmlUnescapeText (dsmlAttrEscape s) = s := by
  induction s with
  | nil => rfl
  | cons c s ih =>
    rw [dsmlAttrEscape, List.flatMap_cons]
    change dsmlUnescapeText (_ ++ dsmlAttrEscape s) = _
    split_ifs with h1 h2 h3 h4
    · rw [h1, ← congrArg (38 :: ·) ih]
      rfl
    · rw [h2, ← congrArg (60 :: ·) ih]
      rfl
    · rw [h3, ← congrArg (62 :: ·) ih]
      rfl
    · rw [h4, ← congrArg (34 :: ·) ih]
      rfl
    · rw [dsmlUnescapeText] at ih
      rw [List.singleton_append, dsmlUnescapeText, dsmlUnescapeFrom, if_pos h1, ih]

theorem not_mem_attrEscape {c : UInt8} (hc : c = 60 ∨ c = 62 ∨ c = 34) (s : Bytes) :
    c ∉ dsmlAttrEscape s := by
  rw [dsmlAttrEscape, List.mem_flatMap]
  rintro ⟨d, -, hd⟩
  split_ifs at hd with h1 h2 h3 h4
  · rcases hc with rfl | rfl | rfl <;> exact absurd hd (by decide)
  · rcases hc with rfl | rfl | rfl <;> exact absurd hd (by decide)
  · rcases hc with rfl | rfl | rfl <;> exact absurd hd (by decide)
  · rcases hc with rfl | rfl | rfl <;> exact absurd hd (by decide)
  · obtain rfl : c = d := by simpa using hd
    rcases hc with h | h | h
    · exact h2 h
    · exact h3 h
    · exact h4 h

end Ds4.Server
