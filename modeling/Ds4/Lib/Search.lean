import Ds4.Lib.Bytes

/-!
# Substring search

`strstr s n` is the text from the first occurrence of `n` in `s` on, and `cut s n` the text in front
of that occurrence and the text behind it. `Clear n a t` says that no occurrence of `n` begins in
`a` when `t` follows. A marker has its first byte nowhere else (`Marker`), so no occurrence of it
reaches over a place where another marker begins (`Marker.clear`).
-/

namespace Ds4.Lib

variable {α : Type*}

/-! ## Places without an occurrence -/

/-- No occurrence of `n` begins in `a` when `t` follows. -/
def Clear (n a t : List α) : Prop := ∀ u, u <:+ a → u ≠ [] → ¬ n <+: u ++ t

@[simp] theorem clear_nil (n t : List α) : Clear n [] t := by
  intro u hu hne
  exact absurd (List.suffix_nil.mp hu) hne

theorem clear_cons {n a t : List α} {c : α} :
    Clear n (c :: a) t ↔ ¬ n <+: c :: (a ++ t) ∧ Clear n a t := by
  constructor
  · intro h
    exact ⟨h _ List.suffix_rfl (by simp), fun u hu => h u (hu.trans (List.suffix_cons c a))⟩
  · rintro ⟨hc, ha⟩ u hu hne
    rcases List.suffix_cons_iff.mp hu with rfl | hu
    · exact hc
    · exact ha u hu hne

theorem clear_append {n a b t : List α} :
    Clear n (a ++ b) t ↔ Clear n a (b ++ t) ∧ Clear n b t := by
  induction a with
  | nil => simp
  | cons c a ih => rw [List.cons_append, clear_cons, clear_cons, ih, List.append_assoc, and_assoc]

/-! ## Markers -/

/-- A marker begins with `c` and has it nowhere else. -/
structure Marker (c : α) (n : List α) : Prop where
  head : n.head? = some c
  tail : c ∉ n.tail

theorem Marker.eq_cons {c : α} {n : List α} (h : Marker c n) : n = c :: n.tail := by
  obtain ⟨hh, -⟩ := h
  cases n with
  | nil => simp at hh
  | cons d n => simpa using hh

theorem Marker.ne_nil {c : α} {n : List α} (h : Marker c n) : n ≠ [] := by
  rw [h.eq_cons]
  exact List.cons_ne_nil _ _

theorem Marker.prefix_cons_iff {c : α} {n s : List α} (h : Marker c n) :
    n <+: c :: s ↔ n.tail <+: s := by
  conv_lhs => rw [h.eq_cons]
  exact List.prefix_cons_inj c

theorem Marker.not_prefix_cons {c d : α} {n s : List α} (h : Marker c n) (hd : d ≠ c) :
    ¬ n <+: d :: s := by
  rw [h.eq_cons]
  intro hp
  exact hd (List.cons_prefix_cons.mp hp).1.symm

theorem Marker.clear_of_not_mem {c : α} {n a : List α} (h : Marker c n) (ha : c ∉ a)
    (t : List α) : Clear n a t := by
  induction a with
  | nil => exact clear_nil _ _
  | cons d a ih =>
    refine clear_cons.2 ⟨h.not_prefix_cons ?_, ih fun hc => ha (List.mem_cons_of_mem d hc)⟩
    rintro rfl
    exact ha List.mem_cons_self

/-- A marker that begins in `u` in front of a place where `c` stands lies in `u`. -/
theorem Marker.prefix_of_prefix_append {c : α} {n u t : List α} (h : Marker c n) (hu : u ≠ [])
    (ht : ∀ d, t.head? = some d → d = c) (hp : n <+: u ++ t) : n <+: u := by
  obtain ⟨hn, htail⟩ := h
  rcases le_or_gt n.length u.length with hlen | hlen
  · exact List.prefix_of_prefix_length_le hp (List.prefix_append u t) hlen
  · exfalso
    obtain ⟨w, rfl⟩ : u <+: n :=
      List.prefix_of_prefix_length_le (List.prefix_append u t) hp hlen.le
    have hw : w <+: t := (List.prefix_append_right_inj u).mp hp
    have hwne : w ≠ [] := by
      rintro rfl
      simp at hlen
    obtain ⟨d, w', rfl⟩ := List.exists_cons_of_ne_nil hwne
    obtain ⟨t', rfl⟩ := hw
    have hd : d = c := ht d rfl
    obtain ⟨e, u', rfl⟩ := List.exists_cons_of_ne_nil hu
    rw [hd] at htail
    simp at htail

theorem Marker.clear {c : α} {n a t : List α} (h : Marker c n) (ha : ¬ n <:+: a)
    (ht : ∀ d, t.head? = some d → d = c) : Clear n a t := by
  intro u hu hne hp
  exact ha ((h.prefix_of_prefix_append hne ht hp).isInfix.trans hu.isInfix)

/-! ## Searching -/

/-- The text in front of the end `t` of `s`. -/
def upTo (s t : List α) : List α := s.take (s.length - t.length)

@[simp] theorem upTo_append (a t : List α) : upTo (a ++ t) t = a := by
  simp [upTo]

section Search

variable [DecidableEq α]

/-- The text behind `n` when `s` begins with it. -/
def strip (s n : List α) : Option (List α) := if n <+: s then some (s.drop n.length) else none

/-- The text from the first occurrence of `n` on. -/
def strstr : List α → List α → Option (List α)
  | [], n => if n <+: [] then some [] else none
  | c :: s, n => if n <+: c :: s then some (c :: s) else strstr s n

/-- The text in front of the first occurrence of `n`, and the text behind it. -/
def cut (s n : List α) : Option (List α × List α) :=
  (strstr s n).map fun t => (upTo s t, t.drop n.length)

theorem strip_eq_some {s n r : List α} : strip s n = some r ↔ s = n ++ r := by
  constructor
  · intro h
    unfold strip at h
    split_ifs at h with hn
    obtain ⟨t, rfl⟩ := hn
    simpa using h
  · rintro rfl
    simp [strip]

@[simp] theorem strip_append (n r : List α) : strip (n ++ r) n = some r := strip_eq_some.2 rfl

theorem strip_eq_none {s n : List α} : strip s n = none ↔ ¬ n <+: s := by
  simp [strip]

theorem strstr_append {n a t : List α} (h : Clear n a t) : strstr (a ++ t) n = strstr t n := by
  induction a with
  | nil => rfl
  | cons c a ih =>
    obtain ⟨hc, ha⟩ := clear_cons.1 h
    rw [List.cons_append, strstr, if_neg hc, ih ha]

theorem strstr_isPrefix {n t : List α} (h : n <+: t) : strstr t n = some t := by
  cases t with
  | nil => exact if_pos h
  | cons c t => exact if_pos h

theorem strstr_eq_some {s n t : List α} :
    strstr s n = some t ↔ ∃ a, s = a ++ t ∧ n <+: t ∧ Clear n a t := by
  constructor
  · intro h
    induction s with
    | nil =>
      unfold strstr at h
      split_ifs at h with hn
      obtain rfl : [] = t := by simpa using h
      exact ⟨[], rfl, hn, clear_nil _ _⟩
    | cons c s ih =>
      unfold strstr at h
      split_ifs at h with hn
      · obtain rfl : c :: s = t := by simpa using h
        exact ⟨[], rfl, hn, clear_nil _ _⟩
      · obtain ⟨a, rfl, ht, ha⟩ := ih h
        exact ⟨c :: a, rfl, ht, clear_cons.2 ⟨hn, ha⟩⟩
  · rintro ⟨a, rfl, ht, ha⟩
    rw [strstr_append ha, strstr_isPrefix ht]

theorem strstr_eq_none {s n : List α} : strstr s n = none ↔ ¬ n <:+: s := by
  induction s with
  | nil => simp [strstr]
  | cons c s ih =>
    rw [strstr, List.infix_cons_iff]
    split_ifs with hn
    · simp [hn]
    · simp [hn, ih]

theorem strstr_isSome {s n : List α} : (strstr s n).isSome ↔ n <:+: s := by
  rw [← not_iff_not, ← strstr_eq_none]
  simp

theorem suffix_of_strstr {s n t : List α} (h : strstr s n = some t) : t <:+ s := by
  obtain ⟨a, rfl, -⟩ := strstr_eq_some.1 h
  exact List.suffix_append a t

theorem cut_eq_some {s n a b : List α} :
    cut s n = some (a, b) ↔ s = a ++ n ++ b ∧ Clear n a (n ++ b) := by
  constructor
  · intro h
    obtain ⟨t, ht, hab⟩ := Option.map_eq_some_iff.mp h
    obtain ⟨a', rfl, ⟨b', rfl⟩, ha⟩ := strstr_eq_some.1 ht
    obtain ⟨rfl, rfl⟩ : a' = a ∧ b' = b := by simpa using hab
    exact ⟨by simp, ha⟩
  · rintro ⟨rfl, ha⟩
    have h : strstr (a ++ n ++ b) n = some (n ++ b) :=
      strstr_eq_some.2 ⟨a, by simp, List.prefix_append n b, ha⟩
    rw [cut, h, List.append_assoc]
    simp

theorem cut_eq_none {s n : List α} : cut s n = none ↔ ¬ n <:+: s := by
  rw [cut, Option.map_eq_none_iff, strstr_eq_none]

theorem cut_append {n a b : List α} (h : Clear n a (n ++ b)) :
    cut (a ++ (n ++ b)) n = some (a, b) :=
  cut_eq_some.2 ⟨by simp, h⟩

theorem cut_append_right {s n a b : List α} (h : cut s n = some (a, b)) (t : List α) :
    cut (s ++ t) n = some (a, b ++ t) := by
  obtain ⟨rfl, hclear⟩ := cut_eq_some.1 h
  refine cut_eq_some.2 ⟨by simp, fun u hu hne hp => hclear u hu hne ?_⟩
  have : n <+: u ++ (n ++ b) ++ t := by simpa using hp
  exact List.prefix_of_prefix_length_le this (List.prefix_append _ _) (by simp; omega)

theorem strstr_append_right {s n t : List α} (h : strstr s n = some t) (u : List α) :
    strstr (s ++ u) n = some (t ++ u) := by
  obtain ⟨a, rfl, ht, hclear⟩ := strstr_eq_some.1 h
  refine strstr_eq_some.2 ⟨a, by simp, ht.trans (List.prefix_append t u), fun v hv hne hp => ?_⟩
  have hv' : v ++ t <+: v ++ (t ++ u) := by
    rw [← List.append_assoc]
    exact List.prefix_append _ _
  refine hclear v hv hne (List.prefix_of_prefix_length_le hp hv' ?_)
  rw [List.length_append]
  exact ht.length_le.trans (Nat.le_add_left _ _)

end Search

end Ds4.Lib
