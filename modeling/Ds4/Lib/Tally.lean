import Mathlib.Data.List.Basic
import Mathlib.Tactic

/-!
# Counting the members of a family with a property

`tally p n f` counts the members `f i`, `i < n`, with the property `p`. A counter that follows the
changes of the members one by one is right when each change is one of `tally_update`.
-/

namespace Ds4.Lib

variable {α : Type*} {p : α → Bool} {n i : Nat} {f g : Nat → α} {x : α}

/-- How many of the first `n` members have a property. -/
def tally (p : α → Bool) (n : Nat) (f : Nat → α) : Nat := (List.range n).countP fun i => p (f i)

theorem tally_succ (p : α → Bool) (n : Nat) (f : Nat → α) :
    tally p (n + 1) f = tally p n f + (p (f n)).toNat := by
  rw [tally, List.range_succ, List.countP_append, List.countP_singleton]
  cases p (f n) <;> rfl

theorem tally_congr (h : ∀ i < n, p (f i) = p (g i)) : tally p n f = tally p n g :=
  List.countP_congr fun i hi => by rw [h i (List.mem_range.mp hi)]

theorem tally_update_of_le (hi : n ≤ i) : tally p n (Function.update f i x) = tally p n f :=
  tally_congr fun j hj => by rw [Function.update_of_ne (by omega)]

/-- **One change.** -/
theorem tally_update (hi : i < n) :
    tally p n (Function.update f i x) + (p (f i)).toNat = tally p n f + (p x).toNat := by
  induction n with
  | zero => omega
  | succ n ih =>
    rw [tally_succ, tally_succ]
    rcases Nat.lt_succ_iff_lt_or_eq.mp hi with hlt | rfl
    · rw [Function.update_of_ne (by omega)]
      have := ih hlt
      omega
    · rw [tally_update_of_le le_rfl, Function.update_self]
      omega

theorem tally_eq_zero : tally p n f = 0 ↔ ∀ i < n, p (f i) = false := by
  simp [tally, List.countP_eq_zero]

theorem tally_pos : 0 < tally p n f ↔ ∃ i < n, p (f i) = true := by
  simp [tally, List.countP_pos_iff]

theorem tally_split {q : α → Bool} :
    tally (fun x => p x && !q x) n f + tally (fun x => p x && q x) n f = tally p n f := by
  induction n with
  | zero => rfl
  | succ n ih =>
    simp only [tally_succ, ← ih]
    cases p (f n) <;> cases q (f n) <;> simp <;> omega

theorem filter_key {β : Type*} [DecidableEq β] {key : α → β} {l : List α} (h : (l.map key).Nodup)
    (k : β) : l.filter (fun x => key x = k) = [] ∨
      ∃ x ∈ l, key x = k ∧ l.filter (fun x => key x = k) = [x] := by
  induction l with
  | nil => exact .inl rfl
  | cons y l ih =>
    rw [List.map_cons, List.nodup_cons] at h
    by_cases hy : key y = k
    · refine .inr ⟨y, by simp, hy, ?_⟩
      rw [List.filter_cons_of_pos (by simpa using hy), List.filter_eq_nil_iff.mpr]
      intro z hz
      have hne : key z ≠ key y := fun heq => h.1 (heq ▸ List.mem_map_of_mem hz)
      simpa [← hy] using hne
    · rw [List.filter_cons_of_neg (by simpa using hy)]
      refine (ih h.2).imp id ?_
      rintro ⟨x, hx, hk, hf⟩
      exact ⟨x, List.mem_cons_of_mem _ hx, hk, hf⟩

end Ds4.Lib
