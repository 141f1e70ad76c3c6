import Mathlib.Data.List.Sort
import Mathlib.Data.List.Perm.Basic
import Mathlib.Tactic

/-!
# Keeping the largest

A scan that keeps at most `cap` elements, the largest ones by a key. `IsLargest` says what is kept,
in any order; sorted, it is the front of the sorted list (`IsLargest.eq_take`).
-/

namespace Ds4.Lib

variable {α κ : Type*} [LinearOrder κ] {key : α → κ} {gt : α → α → Bool}
variable {cap : Nat} {l kept : List α}

/-- The elements, the greatest first. -/
def sortDesc (gt : α → α → Bool) (l : List α) : List α := l.mergeSort fun a b => !gt b a

theorem sortDesc_perm (gt : α → α → Bool) (l : List α) : (sortDesc gt l).Perm l :=
  List.mergeSort_perm l _

theorem sortDesc_pairwise (hgt : ∀ a b, gt a b = true ↔ key b < key a) (l : List α) :
    (sortDesc gt l).Pairwise fun a b => key b ≤ key a := by
  have hle : ∀ a b, (!gt b a) = true ↔ key b ≤ key a := fun a b => by
    rw [Bool.not_eq_true', ← Bool.not_eq_true, hgt, not_lt]
  have h := @List.pairwise_mergeSort α (fun a b => !gt b a)
    (fun a b c hab hbc => (hle a c).mpr (((hle b c).mp hbc).trans ((hle a b).mp hab)))
    (fun a b => by
      rw [Bool.or_eq_true, hle, hle]
      exact le_total _ _) l
  exact h.imp fun hab => (hle _ _).mp hab

theorem eq_of_perm_of_desc {m : List α} (hinj : ∀ a ∈ l, ∀ b ∈ l, key a = key b → a = b)
    (hperm : m.Perm l) (hm : m.Pairwise fun a b => key b ≤ key a)
    (hl : l.Pairwise fun a b => key b ≤ key a) : m = l :=
  List.Perm.eq_of_pairwise
    (fun a b ha hb hab hba => hinj a (hperm.mem_iff.mp ha) b hb (le_antisymm hba hab)) hm hl hperm

/-- What is kept of the elements: `cap` of them at most, none of the others greater. -/
def IsLargest (key : α → κ) (cap : Nat) (l kept : List α) : Prop :=
  ∃ rest, (kept ++ rest).Perm l ∧ kept.length = min cap l.length ∧
    ∀ a ∈ kept, ∀ b ∈ rest, key b ≤ key a

theorem IsLargest.nil : IsLargest key cap ([] : List α) [] := ⟨[], by simp, by simp, by simp⟩

theorem IsLargest.of_perm {kept' : List α} (h : IsLargest key cap l kept) (hp : kept'.Perm kept) :
    IsLargest key cap l kept' := by
  obtain ⟨rest, hperm, hlen, hle⟩ := h
  exact ⟨rest, (hp.append_right rest).trans hperm, hp.length_eq.trans hlen,
    fun a ha => hle a (hp.mem_iff.mp ha)⟩

theorem IsLargest.push {a : α} {kept' : List α} (h : IsLargest key cap l kept)
    (hroom : kept.length < cap) (hp : kept'.Perm (a :: kept)) :
    IsLargest key cap (l ++ [a]) kept' := by
  obtain ⟨rest, hperm, hlen, -⟩ := h
  have hrest : rest = [] := by
    have := hperm.length_eq
    rw [List.length_append] at this
    exact List.length_eq_zero_iff.mp (by omega)
  subst hrest
  rw [List.append_nil] at hperm
  refine ⟨[], ?_, ?_, by simp⟩
  · rw [List.append_nil]
    exact (hp.trans (hperm.cons a)).trans (List.perm_append_singleton a l).symm
  · rw [hp.length_eq, List.length_cons, List.length_append, List.length_singleton]
    omega

theorem IsLargest.skip {a : α} (h : IsLargest key cap l kept) (hfull : kept.length = cap)
    (ha : ∀ b ∈ kept, key a ≤ key b) : IsLargest key cap (l ++ [a]) kept := by
  obtain ⟨rest, hperm, hlen, hle⟩ := h
  refine ⟨rest ++ [a], ?_, ?_, fun b hb c hc => ?_⟩
  · rw [← List.append_assoc]
    exact hperm.append_right [a]
  · rw [List.length_append, List.length_singleton]
    omega
  · rcases List.mem_append.mp hc with hc | hc
    · exact hle b hb c hc
    · rw [List.mem_singleton.mp hc]
      exact ha b hb

theorem IsLargest.replace {a m : α} {kept' : List α} (h : IsLargest key cap l kept)
    (hfull : kept.length = cap) (hm : m ∈ kept) (hmin : ∀ b ∈ kept, key m ≤ key b)
    (hlt : key m < key a) (hp : (m :: kept').Perm (a :: kept)) :
    IsLargest key cap (l ++ [a]) kept' := by
  obtain ⟨rest, hperm, hlen, hle⟩ := h
  refine ⟨m :: rest, ?_, ?_, fun b hb c hc => ?_⟩
  · have h1 : (kept' ++ m :: rest).Perm (m :: kept' ++ rest) := List.perm_middle
    have h2 : (m :: kept' ++ rest).Perm (a :: kept ++ rest) := hp.append_right rest
    exact ((h1.trans h2).trans (hperm.cons a)).trans (List.perm_append_singleton a l).symm
  · have := hp.length_eq
    rw [List.length_cons, List.length_cons] at this
    rw [List.length_append, List.length_singleton]
    omega
  · have hmb : key m ≤ key b := by
      rcases List.mem_cons.mp (hp.mem_iff.mp (List.mem_cons_of_mem m hb)) with rfl | hb
      · exact hlt.le
      · exact hmin b hb
    rcases List.mem_cons.mp hc with rfl | hc
    · exact hmb
    · exact (hle m hm c hc).trans hmb

/-- **Sorted, what is kept is the front of the sorted list.** -/
theorem IsLargest.eq_take {sorted : List α} (h : IsLargest key cap l kept)
    (hgt : ∀ a b, gt a b = true ↔ key b < key a)
    (hinj : ∀ a ∈ l, ∀ b ∈ l, key a = key b → a = b)
    (hkept : kept.Pairwise fun a b => key b ≤ key a)
    (hsorted : sorted.Pairwise fun a b => key b ≤ key a) (hperm : sorted.Perm l) :
    kept = sorted.take cap := by
  obtain ⟨rest, hall, hlen, hle⟩ := h
  have hrest := sortDesc_perm gt rest
  have hwhole : (kept ++ sortDesc gt rest).Perm sorted :=
    ((hrest.append_left kept).trans hall).trans hperm.symm
  have hdesc : (kept ++ sortDesc gt rest).Pairwise fun a b => key b ≤ key a :=
    List.pairwise_append.mpr ⟨hkept, sortDesc_pairwise hgt rest,
      fun a ha b hb => hle a ha b (hrest.mem_iff.mp hb)⟩
  have heq := eq_of_perm_of_desc (fun a ha b hb => hinj a (hperm.mem_iff.mp ha) b (hperm.mem_iff.mp hb))
    hwhole hdesc hsorted
  rw [← heq, List.take_append]
  have hcount := hall.length_eq
  rw [List.length_append] at hcount
  rcases Nat.lt_or_ge l.length cap with hlt | hge
  · have hnone : sortDesc gt rest = [] := by
      apply List.length_eq_zero_iff.mp
      rw [hrest.length_eq]
      omega
    rw [hnone, List.take_nil, List.append_nil, List.take_of_length_le (by omega)]
  · rw [List.take_of_length_le (by omega), show cap - kept.length = 0 by omega, List.take_zero,
      List.append_nil]

end Ds4.Lib
