import Ds4.Server.Parse

/-!
# Reasoning and answer

A text of reasoning, `</think>` and an answer. The parsers look for the last `</think>` outside of
argument wrappers, so a wrapper that the reasoning opens and does not close hides it. Where every
wrapper that the scan meets is closed (`WrappersClosed`), the three parsers split the text at its
`</think>` (`parse_answer`); Qwen drops the newlines around it.
-/

namespace Ds4.Server

open Ds4.Lib

/-! ## The statement -/

/-- No mark that opens tool calls, of any syntax, stands in the text. -/
def NoToolStart (s : Bytes) : Prop := ∀ mark ∈ toolStarts, ¬ mark <:+: s

/-- A reasoning and an answer without `</think>` and without a mark that opens tool calls. -/
structure SplitInput (reasoning answer : Bytes) : Prop where
  reasoning_think : ¬ thinkEnd <:+: reasoning
  reasoning_start : NoToolStart reasoning
  answer_think : ¬ thinkEnd <:+: answer
  answer_start : NoToolStart answer

/-- Every wrapper that a scan of the text meets is closed in the text. -/
inductive WrappersClosed : Bytes → Prop
  | nil : WrappersClosed []
  | byte {c : UInt8} {s : Bytes} : wrapperAt (c :: s) = none → WrappersClosed s →
      WrappersClosed (c :: s)
  | wrapper {s close t : Bytes} : wrapperAt s = some close → skipWrapper s close = some t →
      WrappersClosed t → WrappersClosed s

/-- The message of a reasoning and an answer without calls. -/
def answerMessage (split : Bytes × Option Bytes) : Message := ⟨split.1, split.2, [], none⟩

/-- A parser splits a text into the reasoning and the answer that were put together. -/
def SplitsAs (parse : Bool → Bytes → Option Message) (reasoning answer : Bytes) : Prop :=
  parse true (reasoning ++ thinkEnd ++ answer) =
    some (answerMessage (answer, some (dropThink reasoning)))

/-! ## The scan -/

theorem thinkEnd_marker : Marker 60 thinkEnd := ⟨rfl, by decide⟩

theorem wrapper_marker : ∀ w ∈ wrappers, Marker 60 w.1 := by
  have h : ∀ w ∈ wrappers, w.1.head? = some 60 ∧ 60 ∉ w.1.tail := by decide
  exact fun w hw => ⟨(h w hw).1, (h w hw).2⟩

theorem wrapperAt_append {s t : Bytes} (hs : s ≠ []) (ht : t.head? = some 60) :
    wrapperAt (s ++ t) = wrapperAt s := by
  have hfind : ∀ ws : List (Bytes × Bytes), (∀ w ∈ ws, Marker 60 w.1) →
      ws.find? (fun w => decide (w.1 <+: s ++ t)) = ws.find? fun w => decide (w.1 <+: s) := by
    intro ws hws
    induction ws with
    | nil => rfl
    | cons w ws ih =>
      have hw : w.1 <+: s ++ t ↔ w.1 <+: s := by
        constructor
        · intro h
          refine (hws w List.mem_cons_self).prefix_of_prefix_append hs (fun d hd => ?_) h
          simpa [ht, eq_comm] using hd
        · exact fun h => h.trans (List.prefix_append s t)
      simp only [List.find?_cons, hw, ih fun v hv => hws v (List.mem_cons_of_mem w hv)]
  rw [wrapperAt, wrapperAt, hfind wrappers wrapper_marker]

theorem not_prefix_of_incomparable {v w r : Bytes} (hv : ¬ v <+: w) (hw : ¬ w <+: v) :
    ¬ v <+: w ++ r := by
  intro h
  rcases List.prefix_or_prefix_of_prefix h (List.prefix_append w r) with h | h
  · exact hv h
  · exact hw h

theorem wrapperAt_open {before after : List (Bytes × Bytes)} {w : Bytes × Bytes}
    (hw : wrappers = before ++ w :: after)
    (hbefore : ∀ v ∈ before, ¬ v.1 <+: w.1 ∧ ¬ w.1 <+: v.1) (r : Bytes) :
    wrapperAt (w.1 ++ r) = some w.2 := by
  have hnone : before.find? (fun v => decide (v.1 <+: w.1 ++ r)) = none := by
    refine List.find?_eq_none.mpr fun v hv => ?_
    obtain ⟨h1, h2⟩ := hbefore v hv
    simpa using not_prefix_of_incomparable h1 h2
  simp [wrapperAt, hw, hnone]

theorem skipWrapper_append {s close r : Bytes} (h : skipWrapper s close = some r) (t : Bytes) :
    skipWrapper (s ++ t) close = some (r ++ t) := by
  unfold skipWrapper at h ⊢
  split at h
  · simp at h
  · next a b hab =>
    obtain ⟨⟨a', b'⟩, hcut, rfl⟩ := Option.map_eq_some_iff.mp h
    simp only [cut_append_right hab, cut_append_right hcut, Option.map_some]

theorem suffix_of_cut {s n a b : Bytes} (h : cut s n = some (a, b)) : b <:+ s := by
  obtain ⟨rfl, -⟩ := cut_eq_some.1 h
  exact List.suffix_append _ _

theorem suffix_of_skipWrapper {s close t : Bytes} (h : skipWrapper s close = some t) : t <:+ s := by
  unfold skipWrapper at h
  split at h
  · simp at h
  · next a b hab =>
    obtain ⟨⟨a', b'⟩, hcut, rfl⟩ := Option.map_eq_some_iff.mp h
    exact (suffix_of_cut hcut).trans (suffix_of_cut hab)

theorem skipWrapper_lt {s close t : Bytes} (h : skipWrapper s close = some t) :
    t.length < s.length := by
  unfold skipWrapper at h
  split at h
  · simp at h
  · next a b hab =>
    obtain ⟨⟨a', b'⟩, hcut, rfl⟩ := Option.map_eq_some_iff.mp h
    obtain ⟨rfl, -⟩ := cut_eq_some.1 hab
    have := (suffix_of_cut hcut).length_le
    simp only [List.length_append, List.length_singleton]
    omega

theorem findStructuralFrom_absent {needle s : Bytes} (h : ¬ needle <:+: s) (last : Bool) (n : Nat)
    (found : Option Bytes) : findStructuralFrom needle last n found s = found := by
  induction n generalizing s with
  | zero => rfl
  | succ n ih =>
    cases s with
    | nil => rfl
    | cons c s =>
      have hp : ¬ needle <+: c :: s := fun hp => h hp.isInfix
      have hsuffix : ∀ t, t <:+ c :: s → ¬ needle <:+: t := fun t ht hi => h (hi.trans ht.isInfix)
      rw [findStructuralFrom, if_neg (by simp [hp])]
      simp only [if_neg hp]
      split
      · exact ih (hsuffix s (List.suffix_cons c s))
      · split
        · rfl
        · next t ht => exact ih (hsuffix t (suffix_of_skipWrapper ht))

/-- A scan meets no needle in the text and closes every wrapper that it meets. -/
inductive Passed (needle : Bytes) : Bytes → Prop
  | nil : Passed needle []
  | byte {c : UInt8} {s : Bytes} : ¬ needle <+: c :: s → wrapperAt (c :: s) = none →
      Passed needle s → Passed needle (c :: s)
  | wrapper {s close t : Bytes} : ¬ needle <+: s → wrapperAt s = some close →
      skipWrapper s close = some t → Passed needle t → Passed needle s

theorem WrappersClosed.passed {needle s : Bytes} (hs : WrappersClosed s) (hno : ¬ needle <:+: s) :
    Passed needle s := by
  induction hs with
  | nil => exact .nil
  | @byte c s hw _ ih =>
    exact .byte (fun hp => hno hp.isInfix) hw
      (ih fun hi => hno (hi.trans (List.suffix_cons c s).isInfix))
  | wrapper hw hskip _ ih =>
    exact .wrapper (fun hp => hno hp.isInfix) hw hskip
      (ih fun hi => hno (hi.trans (suffix_of_skipWrapper hskip).isInfix))

theorem findStructuralFrom_pass {needle s t : Bytes} (hneedle : Marker 60 needle)
    (hs : Passed needle s) (ht : t.head? = some 60) (last : Bool) (found : Option Bytes) (k : Nat) :
    ∃ m, findStructuralFrom needle last (s.length + t.length + k) found (s ++ t) =
      findStructuralFrom needle last (t.length + m) found t := by
  have hpass : ∀ s : Bytes, s ≠ [] → ¬ needle <+: s → ¬ needle <+: s ++ t := by
    intro s hne hno hp
    refine hno (hneedle.prefix_of_prefix_append hne (fun d hd => ?_) hp)
    simpa [ht, eq_comm] using hd
  induction hs generalizing k with
  | nil => exact ⟨k, by simp⟩
  | @byte c s hno hw _ ih =>
    obtain ⟨m, hm⟩ := ih k
    have hp := hpass (c :: s) (by simp) hno
    refine ⟨m, ?_⟩
    rw [← hm, List.cons_append] at *
    rw [show (c :: s).length + t.length + k = s.length + t.length + k + 1 by simp; omega,
      findStructuralFrom, if_neg (by simp [hp])]
    have hwt : wrapperAt (c :: (s ++ t)) = none := by
      rw [← List.cons_append, wrapperAt_append (by simp) ht, hw]
    simp only [if_neg hp, hwt]
  | @wrapper s close r hno hw hskip _ ih =>
    have hlt := skipWrapper_lt hskip
    obtain ⟨c, s', rfl⟩ := List.exists_cons_of_length_pos (by omega : 0 < s.length)
    obtain ⟨m, hm⟩ := ih (k + s'.length - r.length)
    have hp := hpass (c :: s') (by simp) hno
    refine ⟨m, ?_⟩
    rw [List.cons_append] at hp ⊢
    have hfuel : (c :: s').length + t.length + k =
        r.length + t.length + (k + s'.length - r.length) + 1 := by
      simp only [List.length_cons] at hlt ⊢
      omega
    rw [hfuel, findStructuralFrom, if_neg (by simp [hp])]
    have hwt : wrapperAt (c :: (s' ++ t)) = some close := by
      rw [← List.cons_append, wrapperAt_append (by simp) ht, hw]
    have hst : skipWrapper (c :: (s' ++ t)) close = some (r ++ t) := by
      rw [← List.cons_append, skipWrapper_append hskip]
    simp only [if_neg hp, hwt, hst]
    exact hm

theorem findToolStructuralText_first {needle s t : Bytes} (hneedle : Marker 60 needle)
    (hs : Passed needle s) (ht : needle <+: t) :
    findToolStructuralText (s ++ t) needle false = some t := by
  have hhead : t.head? = some 60 := by
    obtain ⟨r, rfl⟩ := ht
    rw [hneedle.eq_cons]
    rfl
  obtain ⟨m, hm⟩ := findStructuralFrom_pass hneedle hs hhead false none 0
  rw [findToolStructuralText, List.length_append, ← Nat.add_zero (_ + _), hm]
  cases t with
  | nil => simp at hhead
  | cons c t =>
    rw [List.length_cons, Nat.add_right_comm, findStructuralFrom, if_pos ⟨ht, rfl⟩]

theorem wrapperAt_think (answer : Bytes) : wrapperAt (thinkEnd ++ answer) = none := by
  have hwrap : ∀ w ∈ wrappers, ¬ w.1.take 2 <+: thinkEnd := by decide
  rw [wrapperAt, Option.map_eq_none_iff, List.find?_eq_none]
  intro w hw
  simp only [decide_eq_true_eq]
  intro hp
  refine hwrap w hw (List.prefix_of_prefix_length_le ((List.take_prefix 2 w.1).trans hp)
    (List.prefix_append _ _) ?_)
  have : 2 ≤ thinkEnd.length := by decide
  simp only [List.length_take]
  omega

theorem findToolStructuralText_think {reasoning answer : Bytes} (hr : WrappersClosed reasoning)
    (hnor : ¬ thinkEnd <:+: reasoning) (hnoa : ¬ thinkEnd <:+: answer) :
    findToolStructuralText (reasoning ++ (thinkEnd ++ answer)) thinkEnd true =
      some (thinkEnd ++ answer) := by
  have hhead : (thinkEnd ++ answer).head? = some 60 := rfl
  obtain ⟨m, hm⟩ := findStructuralFrom_pass thinkEnd_marker (hr.passed hnor) hhead true none 0
  rw [findToolStructuralText, List.length_append, ← Nat.add_zero (_ + _), hm]
  have hno : ¬ thinkEnd <:+: thinkEnd.tail ++ answer := by
    intro hi
    have hclear := thinkEnd_marker.clear_of_not_mem thinkEnd_marker.tail answer
    rw [← strstr_isSome, strstr_append hclear, strstr_isSome] at hi
    exact hnoa hi
  have hcons : thinkEnd ++ answer = 60 :: (thinkEnd.tail ++ answer) := rfl
  have hpre : thinkEnd <+: 60 :: (thinkEnd.tail ++ answer) := ⟨answer, rfl⟩
  have hwrap := wrapperAt_think answer
  rw [hcons] at hwrap ⊢
  rw [List.length_cons, Nat.add_right_comm, findStructuralFrom, if_neg (by simp)]
  simp only [if_pos hpre, hwrap]
  exact findStructuralFrom_absent hno true _ _

/-! ## The split -/

theorem dropThink_append {s t : Bytes} (ht : t.head? = some 60) (hno : ¬ thinkStart <+: t) :
    dropThink (s ++ t) = dropThink s ++ t := by
  have hmark : Marker 60 thinkStart := ⟨rfl, by decide⟩
  unfold dropThink
  cases h : strip s thinkStart with
  | some r =>
    obtain rfl := strip_eq_some.1 h
    rw [List.append_assoc, strip_append]
    rfl
  | none =>
    have hs := strip_eq_none.1 h
    have : strip (s ++ t) thinkStart = none := by
      refine strip_eq_none.2 fun hp => ?_
      cases s with
      | nil => exact hno hp
      | cons c s =>
        refine hs (hmark.prefix_of_prefix_append (by simp) (fun d hd => ?_) hp)
        simpa [ht, eq_comm] using hd
    rw [this]
    rfl

theorem infix_of_dropThink {needle s : Bytes} (h : needle <:+: dropThink s) : needle <:+: s := by
  unfold dropThink at h
  cases hs : strip s thinkStart with
  | some r =>
    obtain rfl := strip_eq_some.1 hs
    rw [hs] at h
    exact h.trans (List.suffix_append _ _).isInfix
  | none =>
    rw [hs] at h
    exact h

theorem splitReasoningContent_think {reasoning : Bytes} (hno : ¬ thinkEnd <:+: reasoning)
    (answer : Bytes) : splitReasoningContent (reasoning ++ (thinkEnd ++ answer)) =
      (answer, some (dropThink reasoning)) := by
  have hstart : ¬ thinkStart <+: thinkEnd ++ answer := by
    intro hp
    exact absurd (List.prefix_of_prefix_length_le hp (List.prefix_append _ _) (by decide)) (by decide)
  have hclear : Clear thinkEnd (dropThink reasoning) (thinkEnd ++ answer) := by
    refine thinkEnd_marker.clear (fun hi => hno (infix_of_dropThink hi)) fun d hd => ?_
    exact (Option.some.inj hd).symm
  rw [splitReasoningContent, dropThink_append rfl hstart, cut_append hclear]

theorem toolSearch_think {candidate complete : Bytes → Option Bytes} {reasoning answer : Bytes}
    (hr : WrappersClosed reasoning) (hnor : ¬ thinkEnd <:+: reasoning)
    (hnoa : ¬ thinkEnd <:+: answer) :
    toolSearch candidate complete true (reasoning ++ (thinkEnd ++ answer)) =
      some (answer, false) := by
  rw [toolSearch, if_pos rfl, findToolStructuralText_think hr hnor hnoa]
  simp

theorem findStart_eq_none {s mark : Bytes} (h : ¬ mark <:+: s) : findStart s mark = none := by
  have hlong : ¬ 10 :: 10 :: mark <:+: s := fun hi =>
    h ((List.suffix_append [10, 10] mark).isInfix.trans hi)
  rw [findStart, strstr_eq_none.2 hlong, strstr_eq_none.2 h]
  rfl

theorem deepseekStart_eq_none {s : Bytes} (h : NoToolStart s) : deepseekStart s = none := by
  have hfind : ∀ style : DsmlStyle, findStart s style.marks.toolCallsStart = none := by
    intro style
    refine findStart_eq_none (h _ ?_)
    cases style <;> simp [toolStarts]
  simp [deepseekStart, hfind]

theorem parseDeepseek_answer {reasoning answer : Bytes} (hr : WrappersClosed reasoning)
    (hnor : ¬ thinkEnd <:+: reasoning) (hnoa : ¬ thinkEnd <:+: answer) (ha : NoToolStart answer) :
    SplitsAs parseDeepseek reasoning answer := by
  rw [SplitsAs, List.append_assoc, parseDeepseek, toolSearch_think hr hnor hnoa]
  simp only [deepseekStart_eq_none ha, splitReasoningContent_think hnor]
  rfl

theorem parseGlm_answer {reasoning answer : Bytes} (hr : WrappersClosed reasoning)
    (hnor : ¬ thinkEnd <:+: reasoning) (hnoa : ¬ thinkEnd <:+: answer)
    (ha : ¬ callStart <:+: answer) : SplitsAs parseGlm reasoning answer := by
  rw [SplitsAs, List.append_assoc, parseGlm, toolSearch_think hr hnor hnoa]
  simp only [strstr_eq_none.2 ha, splitReasoningContent_think hnor]
  rfl

theorem parseQwen_answer {reasoning answer : Bytes} (hr : WrappersClosed reasoning)
    (hnor : ¬ thinkEnd <:+: reasoning) (hnoa : ¬ thinkEnd <:+: answer)
    (ha : ¬ callStart <:+: answer) (orders : List ToolSchemaOrder) :
    parseQwen orders true (reasoning ++ thinkEnd ++ answer) =
      some (answerMessage (qwenTrimSplit (answer, some (dropThink reasoning)))) := by
  rw [List.append_assoc, parseQwen, toolSearch_think hr hnor hnoa]
  simp only [strstr_eq_none.2 ha, splitReasoningContent_think hnor]
  rfl

/-- **Reasoning whose wrappers are closed is split from its answer by every parser.** -/
theorem parse_answer {reasoning answer : Bytes} (h : SplitInput reasoning answer)
    (hr : WrappersClosed reasoning) (orders : List ToolSchemaOrder) :
    SplitsAs parseDeepseek reasoning answer ∧ SplitsAs parseGlm reasoning answer ∧
      parseQwen orders true (reasoning ++ thinkEnd ++ answer) =
        some (answerMessage (answer.dropWhile (· == 10),
          some ((dropThink reasoning).rdropWhile (· == 10)))) := by
  obtain ⟨hnor, -, hnoa, ha⟩ := h
  have hcall : ¬ callStart <:+: answer := ha _ (by simp [toolStarts, callStart])
  exact ⟨parseDeepseek_answer hr hnor hnoa ha, parseGlm_answer hr hnor hnoa hcall,
    parseQwen_answer hr hnor hnoa hcall orders⟩

instance (s : Bytes) : Decidable (NoToolStart s) :=
  inferInstanceAs (Decidable (∀ mark ∈ toolStarts, ¬ mark <:+: s))

theorem parse_answer_wrapper :
    SplitsAs parseDeepseek (lit "a<arg_key>b</arg_key>\n") (lit "\nc") ∧
      SplitsAs parseGlm (lit "a<arg_key>b</arg_key>\n") (lit "\nc") ∧
      parseQwen [] true (lit "a<arg_key>b</arg_key>\n" ++ thinkEnd ++ lit "\nc") =
        some (answerMessage ((lit "\nc").dropWhile (· == 10),
          some ((dropThink (lit "a<arg_key>b</arg_key>\n")).rdropWhile (· == 10)))) := by
  have hclosed : WrappersClosed (lit "a<arg_key>b</arg_key>\n") := by
    have hkey : wrapperAt (lit "<arg_key>b</arg_key>\n") = some (lit "</arg_key>") := by
      decide
    refine .byte (by decide) (.wrapper (t := [10]) hkey ?_ ?_)
    · decide
    · exact .byte (by decide) .nil
  refine parse_answer ⟨?_, ?_, ?_, ?_⟩ hclosed []
  all_goals decide

/-- Reasoning that only begins a wrapper takes the answer with it, and Qwen drops newlines. -/
theorem not_parse_answer :
    ¬ (∀ reasoning answer, SplitInput reasoning answer → SplitsAs parseDeepseek reasoning answer) ∧
      ¬ (∀ reasoning answer, SplitInput reasoning answer → SplitsAs parseGlm reasoning answer) ∧
      ¬ ∀ reasoning answer, SplitInput reasoning answer →
        SplitsAs (parseQwen []) reasoning answer := by
  have hopen : SplitInput (lit "<parameter") (lit "ok") := by
    constructor <;> decide
  have hnewline : SplitInput (lit "a\n") (lit "b") := by
    constructor <;> decide
  refine ⟨fun h => ?_, fun h => ?_, fun h => ?_⟩
  · have := h _ _ hopen
    unfold SplitsAs at this
    revert this
    decide
  · have := h _ _ hopen
    unfold SplitsAs at this
    revert this
    decide
  · have := h _ _ hnewline
    unfold SplitsAs at this
    revert this
    decide

end Ds4.Server
