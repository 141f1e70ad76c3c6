import Ds4.Lib.Search

/-!
# Occurrences of a text in another

An occurrence is the offset at which a text begins in another; occurrences can overlap, and the empty
text occurs at every offset. `OccursOnce` is an occurrence that is the only one from some offset on.
-/

namespace Ds4.Lib

variable {α : Type*} {s n : List α} {i j k : Nat}

/-- The text `n` begins in `s` at the offset `i`. -/
def OccursAt (s n : List α) (i : Nat) : Prop := i ≤ s.length ∧ n <+: s.drop i

/-- The only occurrence of `n` in `s` at `k` or behind it. -/
def OccursOnce (s n : List α) (k i : Nat) : Prop :=
  k ≤ i ∧ OccursAt s n i ∧ ∀ j, k ≤ j → OccursAt s n j → j = i

theorem OccursAt.le (h : OccursAt s n i) : i + n.length ≤ s.length := by
  have := h.2.length_le
  rw [List.length_drop] at this
  have := h.1
  omega

theorem occursAt_iff_append : OccursAt s n i ↔ ∃ a b, s = a ++ n ++ b ∧ a.length = i := by
  constructor
  · rintro ⟨hi, b, hb⟩
    refine ⟨s.take i, b, ?_, by simp [hi]⟩
    rw [List.append_assoc, hb, List.take_append_drop]
  · rintro ⟨a, b, rfl, rfl⟩
    exact ⟨by simp, b, by simp⟩

theorem occursAt_nil : OccursAt s [] i ↔ i ≤ s.length := by simp [OccursAt]

theorem occursAt_drop (hk : k ≤ s.length) : OccursAt (s.drop k) n i ↔ OccursAt s n (k + i) := by
  rw [OccursAt, OccursAt, List.length_drop, List.drop_drop]
  exact and_congr_left fun _ => by omega

theorem OccursOnce.unique (hi : OccursOnce s n k i) (hj : OccursOnce s n k j) : i = j :=
  hj.2.2 i hi.1 hi.2.1

theorem OccursOnce.of_nil (h : OccursOnce s [] k i) : k = s.length := by
  have hlen := h.2.2 s.length (h.1.trans h.2.1.1) (occursAt_nil.mpr le_rfl)
  have hk := h.2.2 k le_rfl (occursAt_nil.mpr (h.1.trans h.2.1.1))
  omega

/-- A marker that begins inside of another occurrence of itself does not exist, so that what begins
behind the start of one lies behind it. -/
theorem Marker.infix_of_drop {c : α} {n t : List α} (h : Marker c n) {k : Nat} (hk : 0 < k)
    (hp : n <+: (n ++ t).drop k) : n <:+: t := by
  rcases lt_or_ge k n.length with hlt | hge
  · exfalso
    rw [List.drop_append_of_le_length hlt.le] at hp
    obtain ⟨d, u, hd⟩ : ∃ d u, n.drop k = d :: u :=
      List.exists_cons_of_ne_nil (List.ne_nil_of_length_pos (by rw [List.length_drop]; omega))
    have hmem : d ∈ n.tail := by
      have : d ∈ n.drop k := by rw [hd]; exact List.mem_cons_self
      rw [← Nat.succ_pred_eq_of_pos hk, ← List.drop_tail] at this
      exact List.mem_of_mem_drop this
    rw [hd, List.cons_append, h.eq_cons] at hp
    exact h.tail ((List.cons_prefix_cons.mp hp).1 ▸ hmem)
  · rw [List.drop_append, List.drop_eq_nil_of_le hge, List.nil_append] at hp
    exact hp.isInfix.trans (List.drop_suffix _ t).isInfix

end Ds4.Lib
