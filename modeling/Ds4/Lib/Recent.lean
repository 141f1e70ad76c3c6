import Mathlib.Data.List.Infix
import Mathlib.Data.List.Nodup
import Mathlib.Tactic

/-!
# Lists in the order of recent use

A list of items with distinct keys, the most recently used first. Using an item moves it to the
front (`use`), and a list that is over its limits loses the items of the longest unused keys
(`prune`). The keys stay in the order of their last use (`use_sublist`), and no pruning takes more
than it must (`prune_maximal`).
-/

namespace Ds4.Lib.Recent

variable {α κ : Type*}

/-! ## Pruning -/

section Prune

variable (fits : List α → Bool)

/-- The longest of the prefixes up to length `n` that fits. -/
def pruneFrom (l : List α) : Nat → List α
  | 0 => []
  | n + 1 => if fits (l.take (n + 1)) then l.take (n + 1) else pruneFrom l n

/-- The longest prefix that fits. -/
def prune (l : List α) : List α := pruneFrom fits l l.length

@[simp] theorem prune_nil : prune fits [] = [] := rfl

theorem pruneFrom_prefix (l : List α) (n : Nat) : pruneFrom fits l n <+: l := by
  induction n with
  | zero => exact List.nil_prefix
  | succ n ih =>
    rw [pruneFrom]
    split_ifs
    · exact List.take_prefix _ _
    · exact ih

theorem prune_prefix (l : List α) : prune fits l <+: l := pruneFrom_prefix fits l _

theorem prune_snoc (l : List α) (a : α) :
    prune fits (l ++ [a]) = if fits (l ++ [a]) then l ++ [a] else prune fits l := by
  have hpre : ∀ n, n ≤ l.length → pruneFrom fits (l ++ [a]) n = pruneFrom fits l n := by
    intro n hn
    induction n with
    | zero => rfl
    | succ n ih => rw [pruneFrom, pruneFrom, List.take_append_of_le_length hn, ih (by omega)]
  have hall : (l ++ [a]).take (l.length + 1) = l ++ [a] := List.take_of_length_le (by simp)
  rw [prune, List.length_append, List.length_singleton, pruneFrom, hall, hpre _ le_rfl]
  rfl

theorem prune_eq_nil_or_fits (l : List α) : prune fits l = [] ∨ fits (prune fits l) = true := by
  have : ∀ n, pruneFrom fits l n = [] ∨ fits (pruneFrom fits l n) = true := by
    intro n
    induction n with
    | zero => exact .inl rfl
    | succ n ih =>
      rw [pruneFrom]
      split_ifs with h
      · exact .inr h
      · exact ih
  exact this _

theorem fits_prune (hnil : fits [] = true) (l : List α) : fits (prune fits l) = true := by
  rcases prune_eq_nil_or_fits fits l with h | h
  · rw [h, hnil]
  · exact h

theorem prune_maximal {l p : List α} (hp : p <+: l) (hlen : (prune fits l).length < p.length) :
    fits p = false := by
  induction l using List.reverseRecOn with
  | nil => simp [List.prefix_nil.mp hp] at hlen
  | append_singleton l a ih =>
    rw [prune_snoc] at hlen
    split_ifs at hlen with h
    · have := hp.length_le
      omega
    · rcases List.prefix_concat_iff.mp (by simpa using hp) with rfl | hp
      · simpa using h
      · exact ih hp hlen

end Prune

/-! ## Using -/

section Use

variable [DecidableEq κ] (key : α → κ)

/-- `a` moves to the front, in place of an item with its key. -/
def use (a : α) (l : List α) : List α := a :: l.filter fun b => key b ≠ key a

theorem map_filter_key (l : List α) (k : κ) :
    (l.filter fun b => key b ≠ k).map key = (l.map key).filter (· ≠ k) := by
  rw [List.filter_map]
  rfl

theorem use_perm {a : α} {l : List α} (h : (l.map key).Nodup) (ha : a ∈ l) :
    (use key a l).Perm l := by
  obtain ⟨b, c, rfl⟩ := List.append_of_mem ha
  rw [List.map_append, List.map_cons] at h
  have hnot := (List.nodup_cons.mp (List.nodup_middle.mp h)).1
  have hkeep : (b ++ a :: c).filter (fun x => key x ≠ key a) = b ++ c := by
    rw [List.filter_append, List.filter_cons_of_neg (by simp), ← List.filter_append]
    refine List.filter_eq_self.mpr fun x hx => ?_
    have : key x ∈ b.map key ++ c.map key := by
      rw [← List.map_append]
      exact List.mem_map_of_mem hx
    simpa using fun heq : key x = key a => hnot (heq ▸ this)
  rw [use, hkeep]
  exact List.perm_middle.symm

variable [BEq κ] [LawfulBEq κ]

omit [DecidableEq κ] in
theorem eraseDups_filter (p : κ → Bool) (l : List κ) :
    (l.filter p).eraseDups = l.eraseDups.filter p := by
  induction hn : l.length using Nat.strong_induction_on generalizing l with
  | _ n ih =>
    cases l with
    | nil => simp
    | cons a l =>
      have hlt : (l.filter fun b => !b == a).length < n :=
        lt_of_le_of_lt (List.length_filter_le _ l) (by simp [← hn])
      rw [List.eraseDups_cons]
      cases hp : p a with
      | true =>
        rw [List.filter_cons_of_pos hp, List.filter_cons_of_pos hp, List.eraseDups_cons,
          ← ih _ hlt _ rfl, List.filter_filter, List.filter_filter]
        simp only [Bool.and_comm]
      | false =>
        have hpa : ¬ p a = true := by simp [hp]
        rw [List.filter_cons_of_neg hpa, List.filter_cons_of_neg hpa, ← ih _ hlt _ rfl,
          List.filter_filter]
        congr 1
        refine List.filter_congr fun b _ => ?_
        by_cases hb : b = a
        · subst hb
          simp [hp]
        · simp [hb]

theorem sublist_history {keys history : List κ} {k : κ} (h : keys.Sublist history.eraseDups) :
    (keys.filter (· ≠ k)).Sublist (history.filter fun b => !b == k).eraseDups := by
  rw [eraseDups_filter]
  have := h.filter fun b => !b == k
  convert this using 2
  funext b
  by_cases hb : b = k <;> simp [hb]

theorem use_sublist {a : α} {l : List α} {history : List κ}
    (h : (l.map key).Sublist history.eraseDups) :
    ((use key a l).map key).Sublist (key a :: history).eraseDups := by
  rw [use, List.map_cons, map_filter_key, List.eraseDups_cons]
  exact (sublist_history h).cons_cons _

theorem miss_sublist {l : List α} {history : List κ} {k : κ} (hk : k ∉ l.map key)
    (h : (l.map key).Sublist history.eraseDups) :
    (l.map key).Sublist (k :: history).eraseDups := by
  rw [List.eraseDups_cons]
  refine List.Sublist.cons _ ?_
  have hfilter : (l.map key).filter (· ≠ k) = l.map key := List.filter_eq_self.mpr fun b hb => by
    simpa using fun hbk : b = k => hk (hbk ▸ hb)
  exact hfilter ▸ sublist_history h

end Use

end Ds4.Lib.Recent
