import Mathlib.Data.List.Basic
import Mathlib.Tactic

/-!
# Regular expressions that backtrack

`Regex.ends` lists what an expression leaves of a text, in the order in which a backtracking matcher
tries it: the first entry is the leftmost-first match, with greedy repetitions. `Regex.split` is the
isolating split of a text: each match, and each run between matches, is a piece.
-/

namespace Ds4.Lib

/-- An expression over letters. -/
inductive Regex (α : Type)
  | eps
  | set (p : α → Bool)
  | seq (r s : Regex α)
  | alt (r s : Regex α)
  | star (r : Regex α)
  | notAhead (r : Regex α)

namespace Regex

variable {α : Type} {r s : Regex α} {p : α → Bool} {a : α} {l m : List α}

/-- What repetitions leave, the longest first; a repetition takes at least one letter. -/
def starEnds (f : List α → List (List α)) : Nat → List α → List (List α)
  | 0, l => [l]
  | n + 1, l => ((f l).filter fun m => m.length < l.length).flatMap (starEnds f n) ++ [l]

/-- What an expression leaves of a text, in the order of the attempts. -/
def ends : Regex α → List α → List (List α)
  | eps, l => [l]
  | set _, [] => []
  | set p, a :: l => if p a then [l] else []
  | seq r s, l => (r.ends l).flatMap s.ends
  | alt r s, l => r.ends l ++ s.ends l
  | star r, l => starEnds r.ends l.length l
  | notAhead r, l => if (r.ends l).isEmpty then [l] else []

example : (star (set (· = 1))).ends [1, 1, 2] = [[2], [1, 2], [1, 1, 2]] := by simp [ends, starEnds]

/-- What the match at the front of a text leaves. -/
def first (r : Regex α) (l : List α) : Option (List α) := (r.ends l).head?

/-- One or none, one preferred. -/
def opt (r : Regex α) : Regex α := alt r eps

/-- One or more. -/
def plus (r : Regex α) : Regex α := seq r (star r)

/-! ## Matches -/

theorem suffix_of_mem_starEnds {f : List α → List (List α)} (hf : ∀ l m, m ∈ f l → m <:+ l)
    {n : Nat} (h : m ∈ starEnds f n l) : m <:+ l := by
  induction n generalizing l with
  | zero =>
    obtain rfl := List.mem_singleton.mp h
    exact List.suffix_rfl
  | succ n ih =>
    rcases List.mem_append.mp h with h | h
    · obtain ⟨k, hk, hm⟩ := List.mem_flatMap.mp h
      exact (ih hm).trans (hf l k (List.mem_filter.mp hk).1)
    · obtain rfl := List.mem_singleton.mp h
      exact List.suffix_rfl

theorem suffix_of_mem_ends (h : m ∈ r.ends l) : m <:+ l := by
  induction r generalizing l m with
  | eps =>
    obtain rfl := List.mem_singleton.mp h
    exact List.suffix_rfl
  | set p =>
    cases l with
    | nil => cases h
    | cons a l =>
      rw [ends] at h
      split_ifs at h
      · obtain rfl := List.mem_singleton.mp h
        exact List.suffix_cons a m
      · cases h
  | seq r s ihr ihs =>
    obtain ⟨k, hk, hm⟩ := List.mem_flatMap.mp h
    exact (ihs hm).trans (ihr hk)
  | alt r s ihr ihs => exact (List.mem_append.mp h).elim ihr ihs
  | star r ih => exact suffix_of_mem_starEnds (fun _ _ => ih) h
  | notAhead r _ =>
    rw [ends] at h
    split_ifs at h
    · obtain rfl := List.mem_singleton.mp h
      exact List.suffix_rfl
    · cases h

theorem suffix_of_first (h : r.first l = some m) : m <:+ l :=
  suffix_of_mem_ends (List.mem_of_head? h)

theorem head?_flatMap {β γ : Type} (f : β → List γ) (l : List β) :
    (l.flatMap f).head? = l.findSome? fun b => (f b).head? := by
  induction l with
  | nil => rfl
  | cons b l ih =>
    rw [List.flatMap_cons, List.head?_append, ih, List.findSome?_cons]
    cases (f b).head? <;> rfl

theorem first_seq : (seq r s).first l = (r.ends l).findSome? s.first := head?_flatMap _ _

@[simp] theorem first_alt : (alt r s).first l = (r.first l).or (s.first l) := List.head?_append

@[simp] theorem first_eps : (eps : Regex α).first l = some l := rfl

@[simp] theorem first_set_nil : (set p).first [] = none := rfl

@[simp] theorem first_set_cons : (set p).first (a :: l) = if p a then some l else none := by
  rw [first, ends]
  split_ifs <;> rfl

theorem first_set_seq :
    (seq (set p) s).first (a :: l) = if p a then s.first l else none := by
  rw [first_seq, ends]
  split_ifs <;> simp

@[simp] theorem first_set_seq_nil : (seq (set p) s).first [] = none := rfl

theorem first_opt_seq :
    (seq (opt (set p)) s).first (a :: l) =
      (if p a then s.first l else none).or (s.first (a :: l)) := by
  rw [first_seq, opt, ends, ends, ends]
  split_ifs
  · cases hl : s.first l <;> cases ha : s.first (a :: l) <;> simp [hl, ha]
  · cases ha : s.first (a :: l) <;> simp [ha]

@[simp] theorem first_opt_seq_nil : (seq (opt (set p)) s).first [] = s.first [] := by
  rw [first_seq, opt, ends, ends, ends]
  cases h : s.first [] <;> simp [h]

theorem ends_star_set : (star (set p)).ends l =
    match l with
    | [] => [[]]
    | a :: t => if p a then (star (set p)).ends t ++ [a :: t] else [a :: t] := by
  cases l with
  | nil => rfl
  | cons a t =>
    rw [ends, List.length_cons, starEnds, ends]
    split_ifs with ha
    · simp [ends, ha]
    · simp [ha]

@[simp] theorem ends_star_nil : (star (set p)).ends [] = [[]] := rfl

theorem ends_star_cons : (star (set p)).ends (a :: l) =
    if p a then (star (set p)).ends l ++ [a :: l] else [a :: l] := ends_star_set

/-- **Greedy repetition.** -/
@[simp] theorem first_star_set : (star (set p)).first l = some (l.dropWhile p) := by
  induction l with
  | nil => rfl
  | cons a l ih =>
    rw [first, ends_star_cons, List.dropWhile_cons]
    split_ifs with ha
    · rw [List.head?_append, show ((star (set p)).ends l).head? = _ from ih]
      rfl
    · rfl

@[simp] theorem first_plus_nil : (plus (set p)).first [] = none := rfl

@[simp] theorem first_plus_cons :
    (plus (set p)).first (a :: l) = if p a then some (l.dropWhile p) else none := by
  rw [plus, first_set_seq, first_star_set]

/-- What follows repetitions of a set: the matcher gives letters back until it matches. -/
theorem first_star_seq_cons :
    (seq (star (set p)) s).first (a :: l) =
      if p a then ((seq (star (set p)) s).first l).or (s.first (a :: l)) else s.first (a :: l) := by
  rw [first_seq, ends_star_cons]
  split_ifs
  · rw [List.findSome?_append, first_seq]
    congr 1
    cases h : s.first (a :: l) <;> simp [h]
  · cases h : s.first (a :: l) <;> simp [h]

@[simp] theorem first_star_seq_nil : (seq (star (set p)) s).first [] = s.first [] := by
  rw [first_seq, ends_star_nil]
  cases h : s.first [] <;> simp [h]

theorem first_plus_seq_cons :
    (seq (plus (set p)) s).first (a :: l) =
      if p a then (seq (star (set p)) s).first l else none := by
  rw [first_seq, plus, ends, ends, first_seq]
  split_ifs <;> simp

@[simp] theorem first_plus_seq_nil : (seq (plus (set p)) s).first [] = none := rfl

@[simp] theorem first_notAhead_nil : (notAhead (set p)).first [] = some [] := rfl

@[simp] theorem first_notAhead_cons :
    (notAhead (set p)).first (a :: l) = if p a then none else some (a :: l) := by
  rw [first, ends, ends]
  split_ifs <;> simp_all

@[simp] theorem first_star_star {q : α → Bool} :
    (seq (star (set p)) (star (set q))).first l = some ((l.dropWhile p).dropWhile q) := by
  induction l with
  | nil => rfl
  | cons a l ih =>
    rw [first_star_seq_cons, List.dropWhile_cons]
    split_ifs with ha
    · rw [ih, Option.some_or]
    · exact first_star_set

@[simp] theorem first_plus_star_cons {q : α → Bool} :
    (seq (plus (set p)) (star (set q))).first (a :: l) =
      if p a then some ((l.dropWhile p).dropWhile q) else none := by
  rw [first_plus_seq_cons, first_star_star]

/-- What follows the last letter of a second set in the run of a first one. -/
def lastEnd (p q : α → Bool) : List α → Option (List α)
  | [] => none
  | a :: l => if p a then (lastEnd p q l).or (if q a then some l else none) else none

/-- What starts at the last letter of the run of a set. -/
def lastStart (p : α → Bool) : List α → Option (List α)
  | [] => none
  | a :: l => if p a then (lastStart p l).or (some (a :: l)) else none

/-- **Letters given back to a repetition.** The match ends behind the last letter of the inner set. -/
theorem first_star_plus {q : α → Bool} (hq : ∀ a, q a = true → p a = true) :
    (seq (star (set p)) (plus (set q))).first l = lastEnd p q l := by
  induction l with
  | nil => rfl
  | cons a l ih =>
    rw [first_star_seq_cons, first_plus_cons, lastEnd, ih]
    split_ifs with hp hqa hqa
    · cases hl : lastEnd p q l with
      | some e => rfl
      | none =>
        -- a letter of the inner set at the front would have matched
        have hstop : l.dropWhile q = l := by
          cases l with
          | nil => rfl
          | cons b l =>
            rw [List.dropWhile_cons, if_neg]
            intro hb
            rw [lastEnd, if_pos (hq b hb), if_pos hb] at hl
            cases h : lastEnd p q l <;> simp [h] at hl
        rw [Option.none_or, Option.none_or, hstop]
    · rfl
    · exact absurd (hq a hqa) hp
    · rfl

/-- **Letters given back to a lookahead.** One letter is, unless the run ends the text. -/
theorem first_star_notAhead :
    (seq (star (set p)) (notAhead (set fun a => !p a))).first l =
      if l.dropWhile p = [] then some [] else lastStart p l := by
  induction l with
  | nil => rfl
  | cons a l ih =>
    rw [first_star_seq_cons, first_notAhead_cons, List.dropWhile_cons, lastStart, ih]
    cases hp : p a
    · simp
    · cases l.dropWhile p with
      | nil => simp
      | cons b m => simp

theorem lastStart_eq_none : lastStart p l = none ↔ l.dropWhile p = l := by
  cases l with
  | nil => exact iff_of_true rfl rfl
  | cons a l =>
    rw [lastStart, List.dropWhile_cons]
    cases hp : p a
    · simp
    · have hne : l.dropWhile p ≠ a :: l := fun h =>
        absurd (congrArg List.length h)
          (((List.dropWhile_suffix p).length_le.trans_lt (Nat.lt_succ_self _)).ne)
      cases lastStart p l <;> simp [hne]

/-! ## Splits -/

/-- The isolating split of what follows `gap`, which is no part of a match. -/
def isolate (m : List α → Option (List α)) (gap l : List α) : List (List α) :=
  match l with
  | [] => if gap.isEmpty then [] else [gap]
  | a :: t =>
    match m (a :: t) with
    | none => isolate m (gap ++ [a]) t
    | some rest =>
      if _h : rest.length < (a :: t).length then
        (if gap.isEmpty then [] else [gap]) ++
          (a :: t).take ((a :: t).length - rest.length) :: isolate m [] rest
      else isolate m (gap ++ [a]) t
termination_by l.length
decreasing_by
  all_goals simp_all

/-- The isolating split of a text. -/
def split (r : Regex α) (l : List α) : List (List α) := isolate r.first [] l

theorem isolate_ne_nil {m : List α → Option (List α)} {gap l : List α} :
    ∀ x ∈ isolate m gap l, x ≠ [] := by
  fun_induction isolate m gap l with
  | case1 gap h => simp
  | case2 gap h => simpa using h
  | case3 gap a t hm ih => exact ih
  | case4 gap a t rest hm hlt ih =>
    intro x hx
    rcases List.mem_append.mp hx with hx | hx
    · split_ifs at hx with hgap
      · cases hx
      · obtain rfl := List.mem_singleton.mp hx
        simpa using hgap
    · rcases List.mem_cons.mp hx with rfl | hx
      · intro h0
        have hlen := congrArg List.length h0
        rw [List.length_take, List.length_nil] at hlen
        omega
      · exact ih x hx
  | case5 gap a t rest hm hlt ih => exact ih

/-- **The pieces are the text.** -/
theorem isolate_flatten {m : List α → Option (List α)}
    (hm : ∀ l rest, m l = some rest → rest <:+ l) {gap l : List α} :
    (isolate m gap l).flatten = gap ++ l := by
  fun_induction isolate m gap l with
  | case1 gap h => simpa using h
  | case2 gap h => simp
  | case3 gap a t hnone ih => simpa using ih
  | case4 gap a t rest hsome hlt ih =>
    have hsplit : (a :: t).take ((a :: t).length - rest.length) ++ rest = a :: t := by
      obtain ⟨front, hfront⟩ := hm _ _ hsome
      rw [← hfront, List.length_append, Nat.add_sub_cancel, List.take_left]
    rw [List.flatten_append, List.flatten_cons, ih, List.nil_append, hsplit]
    split_ifs with hgap
    · simpa using hgap
    · simp
  | case5 gap a t rest hsome hlt ih => simpa using ih

@[simp] theorem split_nil : split r [] = [] := by
  rw [split, isolate]
  rfl

theorem split_ne_nil : ∀ x ∈ split r l, x ≠ [] := isolate_ne_nil

theorem split_flatten : (split r l).flatten = l := isolate_flatten fun _ _ => suffix_of_first

end Regex

end Ds4.Lib
