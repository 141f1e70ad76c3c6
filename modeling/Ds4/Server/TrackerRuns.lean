import Ds4.Server.Tracker

/-!
# The decode tracker is incremental

A round of the tracker that goes on is the same in every longer text, and a tracker that returned
takes the round that it would have taken from where it stood (`trackTurn_reader`). So it stands,
after any growing texts, where it stands after the last one alone (`tracker_incremental`).
-/

namespace Ds4.Server

open Ds4.Lib

/-! ## Marks in a longer text -/

section Marks

variable {raw l : Bytes} {pos : Nat}

theorem drop_append (h : pos ≤ raw.length) (u : Bytes) : (raw ++ u).drop pos = raw.drop pos ++ u :=
  List.drop_append_of_le_length h

theorem rawFullLit.append (h : rawFullLit raw pos l) (u : Bytes) : rawFullLit (raw ++ u) pos l := by
  refine ⟨by rw [List.length_append]; exact Nat.le_add_right_of_le h.1, ?_⟩
  rw [drop_append h.1]
  exact h.2.trans (List.prefix_append _ _)

theorem rawFullLit.le (h : rawFullLit raw pos l) : pos + l.length ≤ raw.length := by
  have := h.2.length_le
  rw [List.length_drop] at this
  have := h.1
  omega

theorem not_partial_append (hpos : pos ≤ raw.length) (hp : ¬ rawPartialLit raw pos l) (u : Bytes) :
    ¬ rawPartialLit (raw ++ u) pos l := by
  rintro ⟨-, hlen, h⟩
  rw [drop_append hpos] at h
  rw [List.length_append] at hlen
  exact hp ⟨hpos, by omega, (List.prefix_append _ u).trans h⟩

theorem not_full_append (hpos : pos ≤ raw.length) (hf : ¬ rawFullLit raw pos l)
    (hp : ¬ rawPartialLit raw pos l) (u : Bytes) : ¬ rawFullLit (raw ++ u) pos l := by
  rintro ⟨-, h⟩
  rw [drop_append hpos] at h
  rcases List.prefix_or_prefix_of_prefix h (List.prefix_append _ u) with h' | h'
  · exact hf ⟨hpos, h'⟩
  · by_cases hlen : raw.length - pos < l.length
    · exact hp ⟨hpos, hlen, h'⟩
    · have heq : raw.drop pos = l := h'.eq_of_length_le (by rw [List.length_drop]; omega)
      exact hf ⟨hpos, heq ▸ List.prefix_rfl⟩

theorem not_full_of_apart {l' : Bytes} (h : rawFullLit raw pos l') (hl : Apart l l') (u : Bytes) :
    ¬ rawFullLit (raw ++ u) pos l := by
  intro h'
  exact (List.prefix_or_prefix_of_prefix h'.2 (h.append u).2).elim hl.1 hl.2

theorem findLitBounded_some {i : Nat} (hpos : pos ≤ raw.length)
    (h : findLitBounded raw pos l = some i) :
    pos ≤ i ∧ i + l.length ≤ raw.length ∧ l <+: raw.drop i := by
  obtain ⟨t, ht, rfl⟩ := Option.map_eq_some_iff.mp h
  obtain ⟨a, ha, hp, -⟩ := strstr_eq_some.1 ht
  have hlen := congrArg List.length ha
  have := hp.length_le
  rw [List.length_drop, List.length_append] at hlen
  have hi : raw.length - t.length = pos + a.length := by omega
  refine ⟨by omega, by omega, ?_⟩
  rw [hi, ← List.drop_drop, ha, List.drop_left]
  exact hp

theorem findLitBounded_append {i : Nat} (hpos : pos ≤ raw.length)
    (h : findLitBounded raw pos l = some i) (u : Bytes) :
    findLitBounded (raw ++ u) pos l = some i := by
  obtain ⟨t, ht, rfl⟩ := Option.map_eq_some_iff.mp h
  rw [findLitBounded, drop_append hpos, strstr_append_right ht]
  simp only [Option.map_some, List.length_append, Option.some.injEq]
  omega

theorem lt_of_findLitBounded {i : Nat} {u : Bytes} (hpos : pos ≤ raw.length)
    (h : findLitBounded raw pos l = none) (h' : findLitBounded (raw ++ u) pos l = some i) :
    raw.length < i + l.length := by
  by_contra hle
  obtain ⟨h1, -, h3⟩ := findLitBounded_some (by rw [List.length_append]; omega) h'
  refine strstr_eq_none.1 (Option.map_eq_none_iff.mp h) ?_
  have hp : l <+: raw.drop i := by
    rw [drop_append (by omega)] at h3
    refine List.prefix_of_prefix_length_le h3 (List.prefix_append _ _) ?_
    rw [List.length_drop]
    omega
  obtain ⟨k, rfl⟩ := Nat.exists_eq_add_of_le h1
  rw [← List.drop_drop] at hp
  exact hp.isInfix.trans (List.drop_suffix k _).isInfix

theorem findLitBounded_resume {pos' : Nat} (hpos : pos ≤ pos') (hlen : pos' + l.length ≤ raw.length)
    (h : findLitBounded raw pos l = none) (u : Bytes) :
    findLitBounded (raw ++ u) pos' l = findLitBounded (raw ++ u) pos l := by
  rw [findLitBounded, findLitBounded, drop_append (by omega), drop_append (by omega)]
  have hsplit : raw.drop pos = (raw.drop pos).take (pos' - pos) ++ raw.drop pos' := by
    conv_lhs => rw [← List.take_append_drop (pos' - pos) (raw.drop pos), List.drop_drop,
      Nat.add_sub_cancel' hpos]
  have hclear : Clear l ((raw.drop pos).take (pos' - pos)) (raw.drop pos' ++ u) := by
    intro v hv hne hp
    refine strstr_eq_none.1 (Option.map_eq_none_iff.mp h) ?_
    have hfit : l <+: v ++ raw.drop pos' := by
      rw [← List.append_assoc] at hp
      refine List.prefix_of_prefix_length_le hp (List.prefix_append _ _) ?_
      rw [List.length_append, List.length_drop]
      omega
    rw [hsplit]
    obtain ⟨w, hw⟩ := hv
    refine hfit.isInfix.trans (List.IsSuffix.isInfix ⟨w, ?_⟩)
    rw [← List.append_assoc, hw]
  conv_rhs => rw [hsplit, List.append_assoc, strstr_append hclear]

theorem skipSpace_le (hpos : pos ≤ raw.length) :
    pos ≤ skipSpace raw pos ∧ skipSpace raw pos ≤ raw.length := by
  have := (List.takeWhile_prefix isSpace (l := raw.drop pos)).length_le
  rw [List.length_drop] at this
  rw [skipSpace]
  omega

theorem skipSpace_resume (hpos : pos ≤ raw.length) (u : Bytes) :
    skipSpace (raw ++ u) (skipSpace raw pos) = skipSpace (raw ++ u) pos := by
  have hall : ∀ c ∈ (raw.drop pos).takeWhile isSpace, isSpace c = true :=
    fun c hc => List.mem_takeWhile_imp hc
  have hdrop : raw.drop (skipSpace raw pos) = (raw.drop pos).dropWhile isSpace := by
    rw [skipSpace, ← List.drop_drop]
    conv_lhs => rw [← List.takeWhile_append_dropWhile (p := isSpace) (l := raw.drop pos)]
    rw [List.drop_append_of_le_length (by simp)]
    simp
  rw [skipSpace, drop_append (skipSpace_le hpos).2, hdrop, skipSpace, skipSpace, drop_append hpos]
  conv_rhs => rw [← List.takeWhile_append_dropWhile (p := isSpace) (l := raw.drop pos),
    List.append_assoc, List.takeWhile_append_of_pos hall, List.length_append]
  omega

theorem skipSpace_append (hpos : pos ≤ raw.length) (h : skipSpace raw pos < raw.length) (u : Bytes) :
    skipSpace (raw ++ u) pos = skipSpace raw pos := by
  have hne : (raw.drop pos).dropWhile isSpace ≠ [] := by
    intro hnil
    have hlen := congrArg List.length (List.takeWhile_append_dropWhile (p := isSpace) (l := raw.drop pos))
    rw [hnil, List.append_nil, List.length_drop] at hlen
    rw [skipSpace] at h
    omega
  rw [skipSpace, skipSpace, drop_append hpos]
  congr 1
  have h1 := congrArg List.length (List.takeWhile_append_dropWhile (p := isSpace) (l := raw.drop pos))
  have h2 := congrArg List.length
    (List.takeWhile_append_dropWhile (p := isSpace) (l := raw.drop pos ++ u))
  rw [dropWhile_append_of_ne_nil hne] at h2
  simp only [List.length_append] at h1 h2
  omega

end Marks
/-! ## The first tool start -/

section Start

theorem start_marks : (∀ syn ∈ dsmlSyntaxes, Marker 60 syn.toolCallsStart) ∧
    ∀ a ∈ dsmlSyntaxes, ∀ b ∈ dsmlSyntaxes,
      a.toolCallsStart = b.toolCallsStart ∨ Apart a.toolCallsStart b.toolCallsStart := by
  have h1 : ∀ m ∈ dsmlSyntaxes.map (·.toolCallsStart), m.head? = some 60 ∧ 60 ∉ m.tail := by decide
  have h2 : ∀ a ∈ dsmlSyntaxes.map (·.toolCallsStart), ∀ b ∈ dsmlSyntaxes.map (·.toolCallsStart),
      a = b ∨ Apart a b := by decide
  refine ⟨fun syn hsyn => ?_, fun a ha b hb => ?_⟩
  · obtain ⟨hh, ht⟩ := h1 _ (List.mem_map_of_mem hsyn)
    exact ⟨hh, ht⟩
  · exact h2 _ (List.mem_map_of_mem ha) _ (List.mem_map_of_mem hb)

theorem length_le_hold : (∀ syn ∈ dsmlSyntaxes, syn.toolCallsStart.length ≤ dsmlMaxToolStartLen) ∧
    glmToolSyntax.toolCallsStart.length ≤ dsmlMaxToolStartLen ∧
    qwenToolSyntax.toolCallsStart.length ≤ dsmlMaxToolStartLen := by
  have h : ∀ m ∈ dsmlSyntaxes.map (·.toolCallsStart), m.length ≤ dsmlMaxToolStartLen := by decide
  exact ⟨fun syn hsyn => h _ (List.mem_map_of_mem hsyn), by decide, by decide⟩

variable {raw u : Bytes} {start : Nat}

/-- What a scan for the first start keeps is the start of one of the syntaxes and the least place. -/
theorem foldl_earlierStart {syns : List DsmlSyntax} {acc : Option (Nat × DsmlSyntax)} {b : Nat}
    {s : DsmlSyntax} (h : syns.foldl (earlierStart raw start) acc = some (b, s)) :
    (acc = some (b, s) ∨ s ∈ syns ∧ findLitBounded raw start s.toolCallsStart = some b) ∧
      (∀ c t, acc = some (c, t) → b ≤ c) ∧
      ∀ syn ∈ syns, ∀ i, findLitBounded raw start syn.toolCallsStart = some i → b ≤ i := by
  induction syns generalizing acc with
  | nil =>
    obtain rfl : acc = some (b, s) := h
    refine ⟨.inl rfl, fun c t hc => ?_, fun syn hsyn => absurd hsyn List.not_mem_nil⟩
    obtain ⟨rfl, -⟩ := Prod.mk.inj (Option.some.inj hc)
    exact le_rfl
  | cons a syns ih =>
    rw [List.foldl_cons] at h
    obtain ⟨hfrom, hacc, hall⟩ := ih h
    have keep : ∀ syn ∈ a :: syns, (∀ i, findLitBounded raw start a.toolCallsStart = some i → b ≤ i) →
        ∀ i, findLitBounded raw start syn.toolCallsStart = some i → b ≤ i := by
      intro syn hsyn ha
      rcases List.mem_cons.mp hsyn with rfl | hsyn
      · exact ha
      · exact hall syn hsyn
    cases hfind : findLitBounded raw start a.toolCallsStart with
    | none =>
      have hstep : earlierStart raw start acc a = acc := by simp only [earlierStart, hfind]
      rw [hstep] at hfrom hacc
      refine ⟨hfrom.imp_right fun h => ⟨List.mem_cons_of_mem a h.1, h.2⟩, hacc,
        fun syn hsyn => keep syn hsyn fun i hi => ?_⟩
      rw [hfind] at hi
      cases hi
    | some p =>
      cases acc with
      | none =>
        have hstep : earlierStart raw start none a = some (p, a) := by simp only [earlierStart, hfind]
        rw [hstep] at hfrom hacc
        refine ⟨.inr ?_, fun c t hc => (by cases hc), fun syn hsyn => keep syn hsyn fun i hi => ?_⟩
        · rcases hfrom with hfrom | hfrom
          · obtain ⟨rfl, rfl⟩ := Prod.mk.inj (Option.some.inj hfrom)
            exact ⟨List.mem_cons_self, hfind⟩
          · exact ⟨List.mem_cons_of_mem a hfrom.1, hfrom.2⟩
        · rw [hfind] at hi
          exact (hacc p a rfl).trans (Option.some.inj hi).le
      | some acc =>
        obtain ⟨c, t⟩ := acc
        have hstep : earlierStart raw start (some (c, t)) a =
            if p < c then some (p, a) else some (c, t) := by simp only [earlierStart, hfind]
        rw [hstep] at hfrom hacc
        split_ifs at hfrom hacc with hlt
        · refine ⟨.inr ?_, fun c' t' hc => ?_, fun syn hsyn => keep syn hsyn fun i hi => ?_⟩
          · rcases hfrom with hfrom | hfrom
            · obtain ⟨rfl, rfl⟩ := Prod.mk.inj (Option.some.inj hfrom)
              exact ⟨List.mem_cons_self, hfind⟩
            · exact ⟨List.mem_cons_of_mem a hfrom.1, hfrom.2⟩
          · obtain ⟨rfl, -⟩ := Prod.mk.inj (Option.some.inj hc)
            exact (hacc p a rfl).trans hlt.le
          · rw [hfind] at hi
            exact (hacc p a rfl).trans (Option.some.inj hi).le
        · refine ⟨hfrom.imp_right fun h => ⟨List.mem_cons_of_mem a h.1, h.2⟩, hacc,
            fun syn hsyn => keep syn hsyn fun i hi => ?_⟩
          rw [hfind] at hi
          exact (hacc c t rfl).trans ((not_lt.mp hlt).trans (Option.some.inj hi).le)

theorem foldl_earlierStart_congr {raw' : Bytes} {b : Nat} {syns : List DsmlSyntax}
    (hsame : ∀ syn ∈ syns, findLitBounded raw start syn.toolCallsStart = some b ↔
      findLitBounded raw' start syn.toolCallsStart = some b)
    (hle : ∀ syn ∈ syns, ∀ i, findLitBounded raw start syn.toolCallsStart = some i → b ≤ i)
    (hle' : ∀ syn ∈ syns, ∀ i, findLitBounded raw' start syn.toolCallsStart = some i → b ≤ i)
    {acc acc' : Option (Nat × DsmlSyntax)}
    (hacc : (∃ s, acc = some (b, s) ∧ acc' = some (b, s)) ∨
      (∀ c t, acc = some (c, t) → b < c) ∧ ∀ c t, acc' = some (c, t) → b < c) :
    (∃ s, syns.foldl (earlierStart raw start) acc = some (b, s) ∧
        syns.foldl (earlierStart raw' start) acc' = some (b, s)) ∨
      (∀ c t, syns.foldl (earlierStart raw start) acc = some (c, t) → b < c) ∧
        ∀ c t, syns.foldl (earlierStart raw' start) acc' = some (c, t) → b < c := by
  induction syns generalizing acc acc' with
  | nil => exact hacc
  | cons a syns ih =>
    rw [List.foldl_cons, List.foldl_cons]
    refine ih (fun syn h => hsame syn (by simp [h])) (fun syn h => hle syn (by simp [h]))
      (fun syn h => hle' syn (by simp [h])) ?_
    -- one step of a scan
    have stay : ∀ (r : Bytes) s, (∀ i, findLitBounded r start a.toolCallsStart = some i → b ≤ i) →
        earlierStart r start (some (b, s)) a = some (b, s) := by
      intro r s hr
      unfold earlierStart
      split
      · rfl
      · next h => cases h
      · next p c t hp hc =>
        obtain ⟨rfl, rfl⟩ := Prod.mk.inj (Option.some.inj hc)
        exact if_neg (not_lt.mpr (hr p hp))
    have take : ∀ (r : Bytes) acc, (∀ c t, acc = some (c, t) → b < c) →
        findLitBounded r start a.toolCallsStart = some b →
        earlierStart r start acc a = some (b, a) := by
      intro r acc hr hb
      unfold earlierStart
      rw [hb]
      cases acc with
      | none => rfl
      | some c => exact if_pos (hr c.1 c.2 rfl)
    have above : ∀ (r : Bytes) acc, (∀ c t, acc = some (c, t) → b < c) →
        (∀ i, findLitBounded r start a.toolCallsStart = some i → b ≤ i) →
        findLitBounded r start a.toolCallsStart ≠ some b →
        ∀ c t, earlierStart r start acc a = some (c, t) → b < c := by
      intro r acc hr hle hne c t
      unfold earlierStart
      split
      · exact hr c t
      · next p hp =>
        intro h
        obtain ⟨rfl, -⟩ := Prod.mk.inj (Option.some.inj h)
        exact lt_of_le_of_ne (hle p hp) fun h => hne (h ▸ hp)
      · next p c' t' hp =>
        split_ifs
        · intro h
          obtain ⟨rfl, -⟩ := Prod.mk.inj (Option.some.inj h)
          exact lt_of_le_of_ne (hle p hp) fun h => hne (h ▸ hp)
        · exact hr c t
    have ha := hle a (by simp)
    have ha' := hle' a (by simp)
    rcases hacc with ⟨s, rfl, rfl⟩ | ⟨h1, h2⟩
    · exact .inl ⟨s, stay raw s ha, stay raw' s ha'⟩
    · by_cases hb : findLitBounded raw start a.toolCallsStart = some b
      · exact .inl ⟨a, take raw acc h1 hb, take raw' acc' h2 ((hsame a (by simp)).mp hb)⟩
      · exact .inr ⟨above raw acc h1 ha hb,
          above raw' acc' h2 ha' fun h => hb ((hsame a (by simp)).mpr h)⟩

theorem lt_of_later_start {a s : DsmlSyntax} (ha : a ∈ dsmlSyntaxes) (hs : s ∈ dsmlSyntaxes)
    (hstart : start ≤ raw.length) {b i : Nat}
    (hb : findLitBounded raw start s.toolCallsStart = some b)
    (hnone : findLitBounded raw start a.toolCallsStart = none)
    (hi : findLitBounded (raw ++ u) start a.toolCallsStart = some i) : b < i := by
  obtain ⟨hb1, hb2, hb3⟩ := findLitBounded_some hstart hb
  obtain ⟨hi1, -, hi3⟩ := findLitBounded_some (by rw [List.length_append]; omega) hi
  have hover := lt_of_findLitBounded hstart hnone hi
  obtain ⟨hmark, hapart⟩ := start_marks
  have hpos := List.length_pos_iff.mpr (hmark s hs).ne_nil
  have hb3' : s.toolCallsStart <+: (raw ++ u).drop b := by
    rw [drop_append (by omega)]
    exact hb3.trans (List.prefix_append _ _)
  by_contra hle
  rcases Nat.lt_or_ge i b with hlt | hge
  · -- the first byte of the start that was found stands inside the other
    have h60 : (raw ++ u).getD b 0 = 60 := by
      rw [getD_of_isPrefix_drop hb3' le_rfl (by omega), Nat.sub_self, (hmark s hs).eq_cons]
      rfl
    rw [getD_of_isPrefix_drop hi3 hlt.le (by omega)] at h60
    have htail := (hmark a ha).tail
    obtain ⟨k, hk⟩ := Nat.exists_eq_succ_of_ne_zero (by omega : b - i ≠ 0)
    have hlen : k + 1 < a.toolCallsStart.length := by omega
    rw [hk, List.getD_eq_getElem _ _ hlen] at h60
    refine htail (h60 ▸ ?_)
    rw [← List.getElem_tail (h := by rw [List.length_tail]; omega)]
    exact List.getElem_mem _
  · obtain rfl : i = b := by omega
    rcases hapart a ha s hs with heq | hap
    · rw [heq, hb] at hnone
      cases hnone
    · exact (List.prefix_or_prefix_of_prefix hi3 hb3').elim hap.1 hap.2

end Start

/-! ## Rounds in a longer text -/

section Turns

variable {ms : ServerModelSyntax} {raw : Bytes} {p p' : DsmlPlace} {d : DsmlDecodeState}
  {syn : DsmlSyntax}

theorem trackFindStart_append {start pos : Nat} (hstart : start ≤ raw.length)
    (h : trackFindStart ms raw start = some (pos, syn)) (u : Bytes) :
    trackFindStart ms (raw ++ u) start = some (pos, syn) ∧ start < pos ∧ pos ≤ raw.length := by
  have single : ∀ s : DsmlSyntax,
      (findLitBounded raw start s.toolCallsStart).map
        (fun b => (b + s.toolCallsStart.length, s)) = some (pos, syn) →
      (findLitBounded (raw ++ u) start s.toolCallsStart).map
        (fun b => (b + s.toolCallsStart.length, s)) = some (pos, syn) ∧
        start < pos ∧ pos ≤ raw.length := by
    intro s hs
    obtain ⟨b, hb, heq⟩ := Option.map_eq_some_iff.mp hs
    obtain ⟨rfl, rfl⟩ := Prod.mk.inj heq
    obtain ⟨h1, h2, -⟩ := findLitBounded_some hstart hb
    have := List.length_pos_iff.mpr s.ne_nil.1
    rw [findLitBounded_append hstart hb]
    exact ⟨rfl, by omega, h2⟩
  have many : dsmlFindToolStartFrom raw start = some (pos, syn) →
      dsmlFindToolStartFrom (raw ++ u) start = some (pos, syn) ∧ start < pos ∧ pos ≤ raw.length := by
    intro h
    rw [dsmlFindToolStartFrom, if_neg (by omega)] at h
    obtain ⟨⟨b, s⟩, hb, heq⟩ := Option.map_eq_some_iff.mp h
    obtain ⟨rfl, rfl⟩ := Prod.mk.inj heq
    obtain ⟨hfrom, -, hle⟩ := foldl_earlierStart hb
    obtain ⟨hs, hfind⟩ := hfrom.resolve_left fun h => (by cases h)
    obtain ⟨h1, h2, -⟩ := findLitBounded_some hstart hfind
    have hpos := List.length_pos_iff.mpr s.ne_nil.1
    refine ⟨?_, by omega, h2⟩
    have hlater : ∀ a ∈ dsmlSyntaxes, findLitBounded raw start a.toolCallsStart = none →
        ∀ i, findLitBounded (raw ++ u) start a.toolCallsStart = some i → b < i :=
      fun a ha hnone i hi => lt_of_later_start ha hs hstart hfind hnone hi
    have hagree : ∀ a ∈ dsmlSyntaxes, findLitBounded raw start a.toolCallsStart = some b ↔
        findLitBounded (raw ++ u) start a.toolCallsStart = some b := by
      intro a ha
      refine ⟨fun hf => findLitBounded_append hstart hf u, fun hf => ?_⟩
      cases hfa : findLitBounded raw start a.toolCallsStart with
      | none => exact absurd (hlater a ha hfa b hf) (lt_irrefl b)
      | some i => rw [← hf, findLitBounded_append hstart hfa]
    have hle' : ∀ a ∈ dsmlSyntaxes, ∀ i,
        findLitBounded (raw ++ u) start a.toolCallsStart = some i → b ≤ i := by
      intro a ha i hi
      cases hfa : findLitBounded raw start a.toolCallsStart with
      | none => exact (hlater a ha hfa i hi).le
      | some j =>
        rw [findLitBounded_append hstart hfa] at hi
        exact (hle a ha j hfa).trans (Option.some.inj hi).le
    have hnone : ∀ c t, (none : Option (Nat × DsmlSyntax)) = some (c, t) → b < c :=
      fun _ _ hc => (by cases hc)
    rw [dsmlFindToolStartFrom, if_neg (by rw [List.length_append]; omega)]
    rcases foldl_earlierStart_congr hagree hle hle' (.inr ⟨hnone, hnone⟩) with ⟨s', hs1, hs2⟩ | ⟨hno, -⟩
    · rw [hb] at hs1
      obtain ⟨-, rfl⟩ := Prod.mk.inj (Option.some.inj hs1)
      rw [hs2]
      rfl
    · exact absurd (hno b s hb) (lt_irrefl b)
  cases ms with
  | glm => exact single glmToolSyntax h
  | qwen => exact single qwenToolSyntax h
  | deepseek | deepseek41 => exact many h

/-- A search that found nothing may begin further behind, as long as it holds back the length of a
start. -/
theorem trackFindStart_resume {start start' : Nat} (hle : start ≤ start')
    (hlen : start' = start ∨ start' + dsmlMaxToolStartLen ≤ raw.length) (hstart : start ≤ raw.length)
    (h : trackFindStart ms raw start = none) (u : Bytes) :
    trackFindStart ms (raw ++ u) start' = trackFindStart ms (raw ++ u) start := by
  rcases hlen with rfl | hlen
  · rfl
  obtain ⟨hhold, hglm, hqwen⟩ := length_le_hold
  have many : dsmlFindToolStartFrom raw start = none →
      dsmlFindToolStartFrom (raw ++ u) start' = dsmlFindToolStartFrom (raw ++ u) start := by
    intro h
    rw [dsmlFindToolStartFrom, if_neg (by omega), Option.map_eq_none_iff] at h
    have hnone : ∀ a ∈ dsmlSyntaxes, findLitBounded raw start a.toolCallsStart = none := by
      have key : ∀ syns : List DsmlSyntax, ∀ acc,
          syns.foldl (earlierStart raw start) acc = none →
          acc = none ∧ ∀ a ∈ syns, findLitBounded raw start a.toolCallsStart = none := by
        intro syns
        induction syns with
        | nil => exact fun acc hacc => ⟨hacc, fun a ha => absurd ha List.not_mem_nil⟩
        | cons s syns ih =>
          intro acc hacc
          obtain ⟨hstep, hall⟩ := ih _ hacc
          unfold earlierStart at hstep
          split at hstep
          · next hfind =>
            refine ⟨hstep, fun a ha => ?_⟩
            rcases List.mem_cons.mp ha with rfl | ha
            · exact hfind
            · exact hall a ha
          · cases hstep
          · split_ifs at hstep
      exact (key _ _ h).2
    rw [dsmlFindToolStartFrom, dsmlFindToolStartFrom, if_neg (by rw [List.length_append]; omega),
      if_neg (by rw [List.length_append]; omega)]
    congr 1
    refine List.foldl_ext _ _ _ fun acc a ha => ?_
    have := hhold a ha
    unfold earlierStart
    rw [findLitBounded_resume hle (by omega) (hnone a ha)]
  cases ms with
  | glm =>
    simp only [trackFindStart, Option.map_eq_none_iff] at h ⊢
    rw [findLitBounded_resume hle (by omega) h]
  | qwen =>
    simp only [trackFindStart, Option.map_eq_none_iff] at h ⊢
    rw [findLitBounded_resume hle (by omega) h]
  | deepseek | deepseek41 => exact many h

/-- What a round that goes on does: it is the same in every longer text, it stands further behind,
and it does not search. -/
structure GoesOn (turn : Bytes → DsmlPlace → TrackTurn) (raw : Bytes) (p p' : DsmlPlace) : Prop where
  append : ∀ u, turn (raw ++ u) p = .inl p'
  pos_lt : p.pos < p'.pos
  pos_le : p'.pos ≤ raw.length
  found : p'.mode ≠ .search

theorem stringTurn_go (hmode : p.mode ≠ .search) (h : stringTurn syn raw p = .inl p') :
    GoesOn (stringTurn syn) raw p p' := by
  unfold stringTurn at h
  split_ifs at h with hlt hf hp
  · obtain rfl := Sum.inl.inj h
    have := List.length_pos_iff.mpr syn.ne_nil.2.2
    refine ⟨fun u => ?_, by dsimp only; omega, hf.le, by simp⟩
    rw [stringTurn, if_pos (by rw [List.length_append]; omega), if_pos (hf.append u)]
  · obtain rfl := Sum.inl.inj h
    refine ⟨fun u => ?_, by simp, by simpa using hlt, hmode⟩
    rw [stringTurn, if_pos (by rw [List.length_append]; omega),
      if_neg (not_full_append hlt.le hf hp u), if_neg (not_partial_append hlt.le hp u)]

theorem stringTurn_stop (h : stringTurn syn raw p = .inr (p', d)) : p' = p := by
  unfold stringTurn at h
  split_ifs at h <;> exact (Prod.mk.inj (Sum.inr.inj h)).1.symm

theorem jsonByte_pos (p : DsmlPlace) (c : UInt8) :
    (jsonByte p c).pos = p.pos + 1 ∧ (jsonByte p c).mode = p.mode := by
  unfold jsonByte
  dsimp only
  split_ifs <;> exact ⟨rfl, rfl⟩

theorem jsonTurn_go (hmode : p.mode ≠ .search) (h : jsonTurn syn raw p = .inl p') :
    GoesOn (jsonTurn syn) raw p p' := by
  unfold jsonTurn at h
  split_ifs at h with hlt hf hp
  · obtain rfl := Sum.inl.inj h
    have := List.length_pos_iff.mpr syn.ne_nil.2.2
    refine ⟨fun u => ?_, by dsimp only; omega, hf.2.le, by simp⟩
    rw [jsonTurn, if_pos (by rw [List.length_append]; omega), if_pos ⟨hf.1, hf.2.append u⟩]
  · obtain rfl := Sum.inl.inj h
    obtain ⟨hpos, hm⟩ := jsonByte_pos p (raw.getD p.pos 0)
    refine ⟨fun u => ?_, by omega, by omega, by rwa [hm]⟩
    rw [jsonTurn, if_pos (by rw [List.length_append]; omega), if_neg, if_neg,
      List.getD_append _ _ _ _ hlt]
    · exact fun ⟨hs, h⟩ => not_partial_append hlt.le (fun h => hp ⟨hs, h⟩) u h
    · exact fun ⟨hs, h⟩ =>
        not_full_append hlt.le (fun h => hf ⟨hs, h⟩) (fun h => hp ⟨hs, h⟩) u h

theorem jsonTurn_stop (h : jsonTurn syn raw p = .inr (p', d)) : p' = p := by
  unfold jsonTurn at h
  split_ifs at h <;> exact (Prod.mk.inj (Sum.inr.inj h)).1.symm

theorem startParam_place (ms : ServerModelSyntax) (syn : DsmlSyntax) (raw : Bytes) (p : DsmlPlace)
    (tagAfter : Nat) : (startParam ms syn raw p tagAfter).pos = tagAfter ∧
      (startParam ms syn raw p tagAfter).mode ≠ .search := by
  unfold startParam
  dsimp only
  split_ifs <;> simp

theorem startParam_append {tagAfter : Nat} (htag : tagAfter ≤ raw.length) (u : Bytes) :
    startParam ms syn (raw ++ u) p tagAfter = startParam ms syn raw p tagAfter := by
  have hattr : dsmlAttrIsStringTrue (raw ++ u) p.pos tagAfter =
      dsmlAttrIsStringTrue raw p.pos tagAfter := by
    have h1 : ¬ raw.length < tagAfter := by omega
    have h2 : ¬ (raw ++ u).length < tagAfter := by rw [List.length_append]; omega
    rw [dsmlAttrIsStringTrue, dsmlAttrIsStringTrue, slice_of_isPrefix (List.prefix_append raw u) htag]
    simp only [h1, h2, or_false]
  rw [startParam, startParam, hattr]

theorem tagTurn_go (hmode : p.mode ≠ .search) (h : tagTurn ms syn raw p = .inl p') :
    GoesOn (tagTurn ms syn) raw p p' ∧ p.pos < raw.length := by
  have hap := syn.apart
  simp only [List.pairwise_cons, List.mem_cons, List.not_mem_nil, or_false, forall_eq_or_imp,
    forall_eq, IsEmpty.forall_iff, implies_true, List.Pairwise.nil, and_true] at hap
  obtain ⟨⟨hci, hcs, hcp⟩, ⟨his, hip⟩, hsp⟩ := hap
  unfold tagTurn at h
  split_ifs at h with hlen hc hi hs hp hpart hglm
  · obtain rfl := Sum.inl.inj h
    have := List.length_pos_iff.mpr syn.ne_nil.2.1
    refine ⟨⟨fun u => ?_, by dsimp only; omega, hi.le, hmode⟩, by omega⟩
    rw [tagTurn, if_neg (by rw [List.length_append]; omega), if_neg (not_full_of_apart hi hci u),
      if_pos (hi.append u)]
  · cases hfind : findLitBounded raw p.pos [62] with
    | none =>
      rw [hfind] at h
      cases h
    | some tagEnd =>
      rw [hfind] at h
      obtain rfl := Sum.inl.inj h
      obtain ⟨h1, h2, -⟩ := findLitBounded_some hs.1 hfind
      refine ⟨⟨fun u => ?_, by dsimp only; omega, h2, hmode⟩, by omega⟩
      rw [tagTurn, if_neg (by rw [List.length_append]; omega), if_neg (not_full_of_apart hs hcs u),
        if_neg (not_full_of_apart hs his u), if_pos (hs.append u), findLitBounded_append hs.1 hfind]
  · cases hfind : findLitBounded raw p.pos [62] with
    | none =>
      rw [hfind] at h
      cases h
    | some tagEnd =>
      rw [hfind] at h
      obtain rfl := Sum.inl.inj h
      obtain ⟨h1, h2, -⟩ := findLitBounded_some hp.1 hfind
      have htag : tagEnd + 1 ≤ raw.length := h2
      obtain ⟨hpos, hfound⟩ := startParam_place ms syn raw p (tagEnd + 1)
      refine ⟨⟨fun u => ?_, by rw [hpos]; omega, by rw [hpos]; exact h2, hfound⟩, by omega⟩
      rw [tagTurn, if_neg (by rw [List.length_append]; omega), if_neg (not_full_of_apart hp hcp u),
        if_neg (not_full_of_apart hp hip u), if_neg (not_full_of_apart hp hsp u),
        if_pos (hp.append u), findLitBounded_append hp.1 hfind]
      simp only [startParam_append htag]
  · obtain rfl := Sum.inl.inj h
    have hlt : p.pos < raw.length := by omega
    simp only [not_or] at hpart
    obtain ⟨qc, qs, qi, qp, qe⟩ := hpart
    refine ⟨⟨fun u => ?_, by simp, by simpa using hlt, hmode⟩, hlt⟩
    rw [tagTurn, if_neg (by rw [List.length_append]; omega),
      if_neg (not_full_append hlt.le hc qc u), if_neg (not_full_append hlt.le hi qi u),
      if_neg (not_full_append hlt.le hs qs u), if_neg (not_full_append hlt.le hp qp u), if_neg,
      if_pos hglm]
    rintro (h | h | h | h | h)
    · exact not_partial_append hlt.le qc u h
    · exact not_partial_append hlt.le qs u h
    · exact not_partial_append hlt.le qi u h
    · exact not_partial_append hlt.le qp u h
    · exact not_partial_append hlt.le qe u h

theorem tagTurn_stop (h : tagTurn ms syn raw p = .inr (p', d)) :
    p' = p ∨ rawFullLit raw p.pos syn.toolCallsEnd ∧ p.pos < raw.length ∧ d = .outside ∧
      p' = { p with mode := .done syn, pos := p.pos + syn.toolCallsEnd.length } := by
  unfold tagTurn at h
  split_ifs at h with hlen hc hi hs hp hpart hglm
  · exact .inl (Prod.mk.inj (Sum.inr.inj h)).1.symm
  · obtain ⟨rfl, rfl⟩ := Prod.mk.inj (Sum.inr.inj h)
    exact .inr ⟨hc, by omega, rfl, rfl⟩
  · split at h
    · exact .inl (Prod.mk.inj (Sum.inr.inj h)).1.symm
    · cases h
  · split at h
    · exact .inl (Prod.mk.inj (Sum.inr.inj h)).1.symm
    · cases h
  · exact .inl (Prod.mk.inj (Sum.inr.inj h)).1.symm
  · exact .inl (Prod.mk.inj (Sum.inr.inj h)).1.symm

/-- Where a tracker may stand in a text: a search holds back the length of a start. -/
structure Placed (raw : Bytes) (p : DsmlPlace) : Prop where
  pos_le : p.pos ≤ raw.length
  held : p.mode = .search → p.pos = 0 ∨ p.pos + dsmlMaxToolStartLen ≤ raw.length

theorem trackTurn_go (hp : Placed raw p) (h : trackTurn ms raw p = .inl p') :
    GoesOn (trackTurn ms) raw p p' := by
  unfold trackTurn at h
  split at h
  · cases h
  · next hmode =>
    unfold searchTurn at h
    split at h
    · cases h
    · next pos syn hfind =>
      obtain rfl := Sum.inl.inj h
      have hf := trackFindStart_append hp.pos_le hfind
      refine ⟨fun u => ?_, (hf []).2.1, (hf []).2.2, by simp⟩
      simp only [trackTurn, hmode, searchTurn, (hf u).1]
  · next syn hmode =>
    obtain ⟨h1, h2, h3, h4⟩ := stringTurn_go (by rw [hmode]; exact nofun) h
    refine ⟨fun u => ?_, h2, h3, h4⟩
    simp only [trackTurn, hmode, h1 u]
  · next syn hmode =>
    obtain ⟨h1, h2, h3, h4⟩ := jsonTurn_go (by rw [hmode]; exact nofun) h
    refine ⟨fun u => ?_, h2, h3, h4⟩
    simp only [trackTurn, hmode, h1 u]
  · next syn hmode =>
    obtain ⟨⟨h1, h2, h3, h4⟩, hlt⟩ := tagTurn_go (by dsimp only; rw [hmode]; exact nofun) h
    refine ⟨fun u => ?_, lt_of_le_of_lt (skipSpace_le hp.pos_le).1 h2, h3, h4⟩
    have hu := h1 u
    rw [hmode] at hu
    simp only [trackTurn, hmode, skipSpace_append hp.pos_le hlt, hu]

theorem trackTurn_stop (hp : Placed raw p) (h : trackTurn ms raw p = .inr (p', d)) :
    Placed raw p' ∧ ∀ u, trackTurn ms (raw ++ u) p' = trackTurn ms (raw ++ u) p := by
  unfold trackTurn at h
  split at h
  · obtain ⟨rfl, -⟩ := Prod.mk.inj (Sum.inr.inj h)
    exact ⟨hp, fun u => rfl⟩
  · next hmode =>
    unfold searchTurn at h
    split at h
    · next hfind =>
      obtain ⟨rfl, -⟩ := Prod.mk.inj (Sum.inr.inj h)
      have hheld := hp.held hmode
      have hle := hp.pos_le
      refine ⟨⟨?_, fun _ => ?_⟩, fun u => ?_⟩
      · dsimp only
        split_ifs <;> omega
      · dsimp only
        split_ifs with hlt
        · exact .inr (by omega)
        · exact .inl rfl
      · have hres : trackFindStart ms (raw ++ u)
            (if dsmlMaxToolStartLen < raw.length then raw.length - dsmlMaxToolStartLen else 0) =
            trackFindStart ms (raw ++ u) p.pos := by
          refine trackFindStart_resume ?_ ?_ hle hfind u
          · split_ifs <;> omega
          · split_ifs <;> omega
        simp only [trackTurn, hmode, searchTurn, hres]
    · cases h
  · next syn hmode =>
    obtain rfl := stringTurn_stop h
    exact ⟨hp, fun u => rfl⟩
  · next syn hmode =>
    obtain rfl := jsonTurn_stop h
    exact ⟨hp, fun u => rfl⟩
  · next syn hmode =>
    have hskip := skipSpace_le hp.pos_le
    rcases tagTurn_stop h with rfl | ⟨hfull, hlt, rfl, rfl⟩
    · refine ⟨⟨hskip.2, fun hs => ?_⟩, fun u => ?_⟩
      · rw [hmode] at hs
        cases hs
      · simp only [trackTurn, hmode, skipSpace_resume hp.pos_le]
    · refine ⟨⟨hfull.le, fun hs => (by cases hs)⟩, fun u => ?_⟩
      have hfull' := hfull.append u
      simp only [trackTurn, hmode, skipSpace_append hp.pos_le hlt]
      rw [tagTurn, if_neg (by simp only [List.length_append] at hlt ⊢; omega), if_pos hfull']

theorem trackTurn_reader (ms : ServerModelSyntax) :
    Growing.Reader (trackTurn ms) DsmlPlace.pos Placed where
  pos_le h := h.pos_le
  ok_append u h := by
    refine ⟨?_, fun hs => (h.held hs).imp_right fun hh => ?_⟩
    · rw [List.length_append]
      exact Nat.le_add_right_of_le h.pos_le
    · rw [List.length_append]
      exact Nat.le_add_right_of_le hh
  go h ht := by
    obtain ⟨-, hlt, hle, hmode⟩ := trackTurn_go h ht
    exact ⟨⟨hle, fun hs => absurd hs hmode⟩, hlt⟩
  go_append u h ht := (trackTurn_go h ht).append u
  stop h ht := (trackTurn_stop h ht).1
  stop_append u h ht := (trackTurn_stop h ht).2 u

end Turns

/-! ## Runs -/

/-- A tracker that is shown one text after the other. -/
def trackAll (dt : DsmlDecodeTracker) (texts : List Bytes) : DsmlDecodeTracker :=
  texts.foldl dsmlDecodeTrackerUpdate dt

theorem trackAll_eq_follow (dt : DsmlDecodeTracker) (texts : List Bytes) :
    trackAll dt texts =
      { dt with
        place := (Growing.follow (trackTurn dt.modelSyntax) texts (dt.place, dt.decode)).1
        decode := (Growing.follow (trackTurn dt.modelSyntax) texts (dt.place, dt.decode)).2 } := by
  induction texts generalizing dt with
  | nil => rfl
  | cons raw texts ih =>
    rw [trackAll, List.foldl_cons, ← trackAll, ih, Growing.follow, Growing.follow, List.foldl_cons]
    unfold dsmlDecodeTrackerUpdate
    dsimp only
    cases Growing.readAll (trackTurn dt.modelSyntax) raw dt.place <;> rfl

theorem placed_init (raw : Bytes) (ms : ServerModelSyntax) :
    Placed raw (dsmlDecodeTrackerInit ms).place := ⟨Nat.zero_le _, fun _ => .inl rfl⟩

/-- **The decode tracker is incremental.** For every text, every syntax and every sequence of
increasing prefixes of the text, the tracker that is updated with each of them is the tracker that
is updated with the last one alone, and that update returns. -/
theorem tracker_incremental (ms : ServerModelSyntax) (text : Bytes) (lens : List Nat) (last : Nat)
    (hlens : (lens ++ [last]).Pairwise (· ≤ ·)) :
    trackAll (dsmlDecodeTrackerInit ms) ((lens ++ [last]).map text.take) =
        dsmlDecodeTrackerUpdate (dsmlDecodeTrackerInit ms) (text.take last) ∧
      (Growing.readAll (trackTurn ms) (text.take last) (dsmlDecodeTrackerInit ms).place).isSome := by
  have hchain : ((lens ++ [last]).map text.take).Pairwise (· <+: ·) := by
    refine List.pairwise_map.mpr (hlens.imp fun {a b} hab => ?_)
    rw [← Nat.min_eq_left hab, ← List.take_take]
    exact List.take_prefix _ _
  have hsingle : dsmlDecodeTrackerUpdate (dsmlDecodeTrackerInit ms) (text.take last) =
      trackAll (dsmlDecodeTrackerInit ms) [text.take last] := rfl
  constructor
  · rw [hsingle, trackAll_eq_follow, trackAll_eq_follow, List.map_append, List.map_singleton]
    rw [List.map_append, List.map_singleton] at hchain
    rw [(trackTurn_reader _).follow hchain.isChain fun t _ => placed_init t ms]
  · obtain ⟨r, hr, -⟩ := (trackTurn_reader ms).exists_readAll (placed_init (text.take last) ms)
    rw [hr]
    rfl

theorem tracker_incremental_parameter :
    let text := lit "a<tool_calls>\n<invoke name=\"f\"><parameter name=\"x\" string=\"true\">v<b</pa"
    (trackAll (dsmlDecodeTrackerInit .deepseek)
        ((([0, 5, 20, 66, 67] : List Nat) ++ [71]).map text.take)).decode =
      (dsmlDecodeTrackerUpdate (dsmlDecodeTrackerInit .deepseek) (text.take 71)).decode ∧
    (dsmlDecodeTrackerUpdate (dsmlDecodeTrackerInit .deepseek) (text.take 71)).decode = .structural ∧
    (dsmlDecodeTrackerUpdate (dsmlDecodeTrackerInit .deepseek) (text.take 67)).decode =
      .stringBody :=
  ⟨congrArg DsmlDecodeTracker.decode
    (tracker_incremental .deepseek _ [0, 5, 20, 66, 67] 71 (by decide)).1,
    by decide, by decide⟩

end Ds4.Server
