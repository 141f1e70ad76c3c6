import Mathlib.Data.List.Infix
import Mathlib.Tactic

/-!
# Feeds of items

A feed announces items, sends their texts in pieces, reports a text as a whole and completes its
item. A listener keeps an entry for each item (`hear`) and refuses a notice that is out of order: a
second announcement, a piece behind a report, a report that is not the sum of the pieces, anything
behind the completion. What was said about an item that the listener knows has the order that one
expects (`Heard.told`).
-/

namespace Ds4.Lib.Feed

variable {ι α : Type*}

/-! ## The listener -/

/-- What a feed says about an item. -/
inductive Notice (ι α : Type*)
  | add (i : ι)
  | piece (i : ι) (t : List α)
  | whole (i : ι) (t : List α)
  | done (i : ι) (t : List α)

/-- The item of a notice. -/
def Notice.index : Notice ι α → ι
  | .add i => i
  | .piece i _ => i
  | .whole i _ => i
  | .done i _ => i

/-- The item that a notice announces. -/
def Notice.added : Notice ι α → Option ι
  | .add i => some i
  | _ => none

/-- How far an item has come. -/
inductive Phase
  | growing
  | whole
  | done
  deriving DecidableEq

/-- What the listener knows of an item. -/
structure Entry (ι α : Type*) where
  index : ι
  text : List α
  phase : Phase

section Entry

variable [DecidableEq α]

/-- An entry hears a notice about its item. -/
def Entry.hear (e : Entry ι α) : Notice ι α → Option (Entry ι α)
  | .add _ => none
  | .piece _ t => if e.phase = .growing then some { e with text := e.text ++ t } else none
  | .whole _ t => if e.phase ≠ .done ∧ t = e.text then some { e with phase := .whole } else none
  | .done _ t => if e.phase ≠ .done ∧ t = e.text then some { e with phase := .done } else none

/-! ## What was said about an item -/

/-- The notices about an item, in the order of its life. -/
def Entry.Told (e : Entry ι α) (ns : List (Notice ι α)) : Prop :=
  ∃ (pieces : List (List α)) (k : Nat), pieces.flatten = e.text ∧ (e.phase = .growing → k = 0) ∧
    ns = .add e.index :: pieces.map (.piece e.index) ++ List.replicate k (.whole e.index e.text) ++
      if e.phase = .done then [.done e.index e.text] else []

theorem Entry.index_hear {e e' : Entry ι α} {n : Notice ι α} (h : e.hear n = some e') :
    e'.index = e.index := by
  cases n <;> simp only [Entry.hear] at h
  · cases h
  all_goals
    split_ifs at h
    obtain rfl := Option.some.inj h
    rfl

theorem Entry.added_of_hear {e e' : Entry ι α} {n : Notice ι α} (h : e.hear n = some e') :
    n.added = none := by
  cases n with
  | add i => cases h
  | _ => rfl

/-- **Hearing a notice keeps the order.** -/
theorem Entry.told_hear {e e' : Entry ι α} {n : Notice ι α} {ns : List (Notice ι α)}
    (hi : n.index = e.index) (h : e.hear n = some e') (ht : e.Told ns) : e'.Told (ns ++ [n]) := by
  obtain ⟨pieces, k, hp, hk, rfl⟩ := ht
  cases n with
  | add i => cases h
  | piece i t =>
    obtain rfl : i = e.index := hi
    simp only [Entry.hear] at h
    split_ifs at h with hphase
    obtain rfl := Option.some.inj h
    refine ⟨pieces ++ [t], 0, by simp [hp], fun _ => rfl, ?_⟩
    simp [hphase, hk hphase]
  | whole i t =>
    obtain rfl : i = e.index := hi
    simp only [Entry.hear] at h
    split_ifs at h with hphase
    obtain rfl := Option.some.inj h
    refine ⟨pieces, k + 1, hp, fun hg => by simp at hg, ?_⟩
    simp [hphase, List.replicate_succ']
  | done i t =>
    obtain rfl : i = e.index := hi
    simp only [Entry.hear] at h
    split_ifs at h with hphase
    obtain rfl := Option.some.inj h
    refine ⟨pieces, k, hp, fun hg => by simp at hg, ?_⟩
    simp [hphase]

end Entry

/-! ## The whole feed -/

section Hear

variable [DecidableEq ι] [DecidableEq α]

/-- The listener hears a notice. -/
def hear : List (Entry ι α) → Notice ι α → Option (List (Entry ι α))
  | [], .add i => some [⟨i, [], .growing⟩]
  | [], _ => none
  | e :: es, n =>
    if n.index = e.index then (e.hear n).map fun e => e :: es else (hear es n).map fun es => e :: es

/-- The notices of a feed and the entries that the listener has made of them. -/
inductive Heard : List (Notice ι α) → List (Entry ι α) → Prop
  | nil : Heard [] []
  | snoc {ns : List (Notice ι α)} {es es' : List (Entry ι α)} {n : Notice ι α} (h : Heard ns es)
      (hn : hear es n = some es') : Heard (ns ++ [n]) es'

/-- What the listener knows is what was said. -/
structure Knows (ns : List (Notice ι α)) (es : List (Entry ι α)) : Prop where
  added : ns.filterMap Notice.added = es.map Entry.index
  nodup : (es.map Entry.index).Nodup
  known : ∀ n ∈ ns, n.index ∈ es.map Entry.index
  told : ∀ e ∈ es, e.Told (ns.filter fun n => n.index = e.index)

theorem hear_cases {es es' : List (Entry ι α)} {n : Notice ι α} (h : hear es n = some es') :
    (n = .add n.index ∧ n.index ∉ es.map Entry.index ∧ es' = es ++ [⟨n.index, [], .growing⟩]) ∨
      ∃ pre e e' post, es = pre ++ e :: post ∧ es' = pre ++ e' :: post ∧ n.index = e.index ∧
        e.hear n = some e' := by
  induction es generalizing es' with
  | nil =>
    cases n with
    | add i => exact .inl ⟨rfl, by simp, (Option.some.inj h).symm⟩
    | _ => cases h
  | cons e es ih =>
    rw [hear] at h
    split_ifs at h with hi
    · obtain ⟨e', he, rfl⟩ := Option.map_eq_some_iff.mp h
      exact .inr ⟨[], e, e', es, rfl, rfl, hi, he⟩
    · obtain ⟨t, ht, rfl⟩ := Option.map_eq_some_iff.mp h
      rcases ih ht with ⟨hadd, hnew, rfl⟩ | ⟨pre, d, d', post, rfl, rfl, hd, hhear⟩
      · exact .inl ⟨hadd, by simp [hi, hnew], rfl⟩
      · exact .inr ⟨e :: pre, d, d', post, rfl, rfl, hd, hhear⟩

theorem Knows.snoc {ns : List (Notice ι α)} {es es' : List (Entry ι α)} {n : Notice ι α}
    (h : Knows ns es) (hn : hear es n = some es') : Knows (ns ++ [n]) es' := by
  obtain ⟨hadded, hnodup, hknown, htold⟩ := h
  rcases hear_cases hn with ⟨hadd, hnew, rfl⟩ | ⟨pre, e, e', post, rfl, rfl, hi, hhear⟩
  · refine ⟨?_, ?_, ?_, ?_⟩
    · rw [List.filterMap_append, hadded, hadd]
      simp [Notice.added, Notice.index]
    · rw [List.map_append]
      exact List.nodup_append.mpr ⟨hnodup, by simp, by
        intro a ha b hb
        obtain rfl : b = n.index := by simpa using hb
        rintro rfl
        exact hnew ha⟩
    · intro m hm
      rcases List.mem_append.mp hm with hm | hm
      · exact List.mem_map.mpr (by
          obtain ⟨e, he, heq⟩ := List.mem_map.mp (hknown m hm)
          exact ⟨e, List.mem_append_left _ he, heq⟩)
      · obtain rfl := List.mem_singleton.mp hm
        simp
    · intro e he
      rcases List.mem_append.mp he with he | he
      · have hne : n.index ≠ e.index := fun heq => hnew (heq ▸ List.mem_map_of_mem he)
        rw [List.filter_append, List.filter_cons_of_neg (by simpa using hne), List.filter_nil,
          List.append_nil]
        exact htold e he
      · obtain rfl := List.mem_singleton.mp he
        have hnone : ns.filter (fun m => m.index = n.index) = [] := by
          rw [List.filter_eq_nil_iff]
          intro m hm heq
          exact hnew ((of_decide_eq_true heq) ▸ hknown m hm)
        refine ⟨[], 0, rfl, fun _ => rfl, ?_⟩
        rw [List.filter_append, hnone, hadd]
        simp [Notice.index]
  · have hindex : (pre ++ e' :: post).map Entry.index = (pre ++ e :: post).map Entry.index := by
      simp [Entry.index_hear hhear]
    refine ⟨?_, ?_, ?_, ?_⟩
    · rw [hindex, ← hadded]
      simp [Entry.added_of_hear hhear]
    · rw [hindex]
      exact hnodup
    · intro m hm
      rw [hindex]
      rcases List.mem_append.mp hm with hm | hm
      · exact hknown m hm
      · obtain rfl := List.mem_singleton.mp hm
        simp [hi]
    · intro d hd
      have hsplit : d ∈ pre ++ post ∨ d = e' := by
        simp only [List.mem_append, List.mem_cons] at hd ⊢
        tauto
      rw [List.filter_append]
      rcases hsplit with hd | rfl
      · have hne : n.index ≠ d.index := by
          rw [hi]
          intro heq
          simp only [List.map_append, List.map_cons, List.nodup_append, List.nodup_cons] at hnodup
          rcases List.mem_append.mp hd with hp | hp
          · exact hnodup.2.2 _ (List.mem_map_of_mem hp) _ List.mem_cons_self heq.symm
          · exact hnodup.2.1.1 (heq ▸ List.mem_map_of_mem hp)
        rw [List.filter_cons_of_neg (by simpa using hne), List.filter_nil, List.append_nil]
        exact htold d (by simp only [List.mem_append, List.mem_cons] at hd ⊢; tauto)
      · rw [Entry.index_hear hhear, List.filter_cons_of_pos (by simpa using hi), List.filter_nil]
        exact Entry.told_hear hi hhear (htold e (by simp))

/-- **The listener knows what was said.** -/
theorem Heard.knows {ns : List (Notice ι α)} {es : List (Entry ι α)} (h : Heard ns es) :
    Knows ns es := by
  induction h with
  | nil => exact ⟨rfl, by simp, by simp, by simp⟩
  | snoc _ hn ih => exact ih.snoc hn

/-! ## Hearing more -/

theorem hear_add {es : List (Entry ι α)} {i : ι} (h : i ∉ es.map Entry.index) :
    hear es (.add i) = some (es ++ [⟨i, [], .growing⟩]) := by
  induction es with
  | nil => rfl
  | cons e es ih =>
    simp only [List.map_cons, List.mem_cons, not_or] at h
    have hne : (Notice.add i : Notice ι α).index ≠ e.index := h.1
    rw [hear, if_neg hne, ih h.2]
    rfl

theorem hear_entry {pre post : List (Entry ι α)} {e e' : Entry ι α} {n : Notice ι α}
    (hpre : n.index ∉ pre.map Entry.index) (hi : n.index = e.index) (h : e.hear n = some e') :
    hear (pre ++ e :: post) n = some (pre ++ e' :: post) := by
  induction pre with
  | nil => rw [List.nil_append, hear, if_pos hi, h]; rfl
  | cons d pre ih =>
    simp only [List.map_cons, List.mem_cons, not_or] at hpre
    rw [List.cons_append, hear, if_neg hpre.1, ih hpre.2]
    rfl

end Hear

end Ds4.Lib.Feed
