import Mathlib.Logic.Equiv.Basic
import Mathlib.Data.List.Perm.Basic
import Mathlib.Data.List.Nodup
import Mathlib.Data.List.Sort
import Mathlib.Tactic

/-!
# Binary heaps in an array

An array is a function of its indices, and the heap is its first `n` entries. `siftUp` and `siftDown`
swap along one path; each ends with a heap from a start where one entry only is out of place.
-/

namespace Ds4.Lib.Heap

variable {α κ : Type*}

/-- Two entries swapped. -/
def swapAt (h : Nat → α) (i j : Nat) : Nat → α := fun k => h (Equiv.swap i j k)

/-- The parent of an index. -/
def parent (i : Nat) : Nat := (i - 1) / 2

/-- An entry moves up while its parent is greater. -/
def siftUp (gt : α → α → Bool) (h : Nat → α) (idx : Nat) : Nat → α :=
  if _h : 0 < idx then
    if !gt (h (parent idx)) (h idx) then h
    else siftUp gt (swapAt h (parent idx) idx) (parent idx)
  else h
termination_by idx
decreasing_by
  unfold parent
  omega

/-- The smallest of an entry and its children, the first of equal ones. -/
def smallestOf (gt : α → α → Bool) (n : Nat) (h : Nat → α) (idx : Nat) : Nat :=
  let left := idx * 2 + 1
  let right := left + 1
  let smallest := if decide (left < n) && gt (h idx) (h left) then left else idx
  if decide (right < n) && gt (h smallest) (h right) then right else smallest

theorem smallestOf_cases (gt : α → α → Bool) (n : Nat) (h : Nat → α) (idx : Nat) :
    smallestOf gt n h idx = idx ∨
      (smallestOf gt n h idx < n ∧
        (smallestOf gt n h idx = idx * 2 + 1 ∨ smallestOf gt n h idx = idx * 2 + 2)) := by
  simp only [smallestOf, Bool.and_eq_true, decide_eq_true_eq]
  split_ifs with h1 h2
  all_goals omega

/-- An entry moves down while a child is smaller. -/
def siftDown (gt : α → α → Bool) (n : Nat) (h : Nat → α) (idx : Nat) : Nat → α :=
  if _h : smallestOf gt n h idx = idx then h
  else siftDown gt n (swapAt h idx (smallestOf gt n h idx)) (smallestOf gt n h idx)
termination_by n - idx
decreasing_by
  have := smallestOf_cases gt n h idx
  omega

/-- The entries of a heap. -/
def entries (n : Nat) (h : Nat → α) : List α := (List.range n).map h

/-! ## The entries stay -/

theorem swapAt_perm {n i j : Nat} (hi : i < n) (hj : j < n) (h : Nat → α) :
    (entries n (swapAt h i j)).Perm (entries n h) := by
  have hrange : ((List.range n).map (Equiv.swap i j)).Perm (List.range n) := by
    refine (List.perm_ext_iff_of_nodup ?_ List.nodup_range).mpr fun k => ?_
    · exact List.nodup_range.map (Equiv.swap i j).injective
    · simp only [List.mem_map, List.mem_range]
      constructor
      · rintro ⟨a, ha, rfl⟩
        rw [Equiv.swap_apply_def]
        split_ifs <;> omega
      · intro hk
        refine ⟨Equiv.swap i j k, ?_, Equiv.swap_apply_self i j k⟩
        rw [Equiv.swap_apply_def]
        split_ifs <;> omega
  have := hrange.map h
  rwa [List.map_map] at this

theorem siftUp_perm (gt : α → α → Bool) {n : Nat} (h : Nat → α) {idx : Nat} (hidx : idx < n) :
    (entries n (siftUp gt h idx)).Perm (entries n h) := by
  fun_induction siftUp gt h idx with
  | case1 h idx hpos hle => rfl
  | case2 h idx hpos hgt ih =>
    have hparent : parent idx < n := by
      unfold parent
      omega
    exact (ih hparent).trans (swapAt_perm hparent hidx h)
  | case3 h idx hpos => rfl

theorem siftDown_perm (gt : α → α → Bool) {n : Nat} (h : Nat → α) {idx : Nat} (hidx : idx < n) :
    (entries n (siftDown gt n h idx)).Perm (entries n h) := by
  fun_induction siftDown gt n h idx with
  | case1 h idx hstop => rfl
  | case2 h idx hgo ih =>
    have hchild : smallestOf gt n h idx < n := by
      have := smallestOf_cases gt n h idx
      omega
    exact (ih hchild).trans (swapAt_perm hidx hchild h)

/-! ## The order -/

variable [LinearOrder κ] {gt : α → α → Bool} {key : α → κ} {n i : Nat} {h : Nat → α}

/-- No entry is smaller than its parent. -/
def Ordered (key : α → κ) (n : Nat) (h : Nat → α) : Prop :=
  ∀ j, 0 < j → j < n → key (h (parent j)) ≤ key (h j)

theorem Ordered.root_le (ho : Ordered key n h) {j : Nat} (hj : j < n) : key (h 0) ≤ key (h j) := by
  induction j using Nat.strong_induction_on with
  | h j ih =>
    rcases Nat.eq_zero_or_pos j with rfl | hpos
    · exact le_rfl
    · have hlt : parent j < j := by
        unfold parent
        omega
      exact (ih (parent j) hlt (hlt.trans hj)).trans (ho j hpos hj)

/-- Only the entry at `i` may be smaller than its parent. -/
structure UpReady (key : α → κ) (n : Nat) (h : Nat → α) (i : Nat) : Prop where
  ordered : ∀ j, 0 < j → j < n → j ≠ i → key (h (parent j)) ≤ key (h j)
  grand : 0 < i → ∀ j, 0 < j → j < n → parent j = i → key (h (parent i)) ≤ key (h j)

/-- Only the entry at `i` may be greater than its children. -/
structure DownReady (key : α → κ) (n : Nat) (h : Nat → α) (i : Nat) : Prop where
  ordered : ∀ j, 0 < j → j < n → parent j ≠ i → key (h (parent j)) ≤ key (h j)
  grand : 0 < i → ∀ j, 0 < j → j < n → parent j = i → key (h (parent i)) ≤ key (h j)

theorem UpReady.swap (hr : UpReady key n h i) (hpos : 0 < i) (hi : i < n)
    (hlt : key (h i) < key (h (parent i))) : UpReady key n (swapAt h (parent i) i) (parent i) := by
  have hpi : parent i < i := by
    unfold parent
    omega
  constructor
  · intro j hjpos hj hjne
    have hpj : parent j < j := by
      unfold parent
      omega
    simp only [swapAt, Equiv.swap_apply_def]
    by_cases hji : j = i
    · subst hji
      simp [hlt.le, hpi.ne']
    · have hold := hr.ordered j hjpos hj hji
      by_cases hchild : parent j = i
      · have := hr.grand hpos j hjpos hj hchild
        simpa [hchild, hji, hjne, hpi.ne'] using this
      · by_cases hsib : parent j = parent i
        · rw [hsib] at hold
          simpa [hsib, hji, hjne] using hlt.le.trans hold
        · simpa [hchild, hsib, hji, hjne] using hold
  · intro hppos j hjpos hj hjp
    have hpp : parent (parent i) < parent i := by
      unfold parent at hppos ⊢
      omega
    have hpar := hr.ordered (parent i) hppos (hpi.trans hi) hpi.ne
    have hjne : j ≠ parent i := by
      rintro rfl
      exact hpp.ne hjp
    simp only [swapAt, Equiv.swap_apply_def]
    by_cases hji : j = i
    · subst hji
      simpa [hpp.ne, (hpp.trans hpi).ne, hpi.ne'] using hpar
    · have hold := hr.ordered j hjpos hj hji
      rw [hjp] at hold
      simpa [hpp.ne, (hpp.trans hpi).ne, hji, hjne] using hpar.trans hold

/-- **Moving up ends with a heap.** -/
theorem siftUp_ordered (hgt : ∀ a b, gt a b = true ↔ key b < key a) (hi : i < n)
    (hr : UpReady key n h i) : Ordered key n (siftUp gt h i) := by
  fun_induction siftUp gt h i with
  | case1 h idx hpos hle =>
    intro j hjpos hj
    by_cases hji : j = idx
    · subst hji
      rw [Bool.not_eq_true', ← Bool.not_eq_true, hgt] at hle
      exact not_lt.mp hle
    · exact hr.ordered j hjpos hj hji
  | case2 h idx hpos hgo ih =>
    have hparent : parent idx < n := by
      unfold parent
      omega
    rw [Bool.not_eq_true', ← Bool.not_eq_true, not_not, hgt] at hgo
    exact ih hparent (hr.swap hpos hi hgo)
  | case3 h idx hpos => exact fun j hjpos hj => hr.ordered j hjpos hj (by omega)

theorem smallestOf_le (hgt : ∀ a b, gt a b = true ↔ key b < key a) (h : Nat → α) (i : Nat) :
    key (h (smallestOf gt n h i)) ≤ key (h i) ∧
      ∀ j, 0 < j → j < n → parent j = i → key (h (smallestOf gt n h i)) ≤ key (h j) := by
  have hchild : ∀ j, 0 < j → parent j = i → j = i * 2 + 1 ∨ j = i * 2 + 2 := by
    intro j hjpos hji
    unfold parent at hji
    omega
  simp only [smallestOf, Bool.and_eq_true, decide_eq_true_eq, hgt]
  split_ifs with h1 h2 h2
  · refine ⟨(h2.2.trans h1.2).le, fun j hjpos hj hji => ?_⟩
    rcases hchild j hjpos hji with rfl | rfl
    · exact h2.2.le
    · exact le_rfl
  · refine ⟨h1.2.le, fun j hjpos hj hji => ?_⟩
    rcases hchild j hjpos hji with rfl | rfl
    · exact le_rfl
    · exact not_lt.mp fun hlt => h2 ⟨hj, hlt⟩
  · refine ⟨h2.2.le, fun j hjpos hj hji => ?_⟩
    rcases hchild j hjpos hji with rfl | rfl
    · exact h2.2.le.trans (not_lt.mp fun hlt => h1 ⟨hj, hlt⟩)
    · exact le_rfl
  · refine ⟨le_rfl, fun j hjpos hj hji => ?_⟩
    rcases hchild j hjpos hji with rfl | rfl
    · exact not_lt.mp fun hlt => h1 ⟨hj, hlt⟩
    · exact not_lt.mp fun hlt => h2 ⟨hj, hlt⟩

theorem DownReady.swap (hr : DownReady key n h i) {c : Nat} (hc : c < n) (hci : parent c = i)
    (hic : i < c) (hle : key (h c) ≤ key (h i))
    (hmin : ∀ j, 0 < j → j < n → parent j = i → key (h c) ≤ key (h j)) :
    DownReady key n (swapAt h i c) c := by
  constructor
  · intro j hjpos hj hjc
    have hpj : parent j < j := by
      unfold parent
      omega
    simp only [swapAt, Equiv.swap_apply_def]
    by_cases hjchild : parent j = i
    · by_cases hjc' : j = c
      · subst hjc'
        simpa [hjchild, hic.ne'] using hle
      · have hji : j ≠ i := by omega
        simpa [hjchild, hjc', hji] using hmin j hjpos hj hjchild
    · have hold := hr.ordered j hjpos hj hjchild
      by_cases hji : j = i
      · subst hji
        simpa [hpj.ne, hjc] using hr.grand hjpos c (by omega) hc hci
      · have hjc' : j ≠ c := by
          rintro rfl
          exact hjchild hci
        simpa [hjchild, hjc, hji, hjc'] using hold
  · intro hcpos j hjpos hj hjp
    have hpj : parent j < j := by
      unfold parent
      omega
    have hold := hr.ordered j hjpos hj (by omega)
    rw [hjp] at hold
    have hji : j ≠ i := by omega
    have hjc : j ≠ c := by omega
    simpa [swapAt, Equiv.swap_apply_def, hci, hji, hjc] using hold

/-- **Moving down ends with a heap.** -/
theorem siftDown_ordered (hgt : ∀ a b, gt a b = true ↔ key b < key a) (hi : i < n)
    (hr : DownReady key n h i) : Ordered key n (siftDown gt n h i) := by
  fun_induction siftDown gt n h i with
  | case1 h idx hstop =>
    obtain ⟨-, hmin⟩ := @smallestOf_le _ _ _ gt key n hgt h idx
    rw [hstop] at hmin
    intro j hjpos hj
    by_cases hji : parent j = idx
    · exact hji ▸ hmin j hjpos hj hji
    · exact hr.ordered j hjpos hj hji
  | case2 h idx hgo ih =>
    obtain ⟨hle, hmin⟩ := @smallestOf_le _ _ _ gt key n hgt h idx
    have hcases := smallestOf_cases gt n h idx
    have hchild : parent (smallestOf gt n h idx) = idx := by
      unfold parent
      omega
    exact ih (by omega) (hr.swap (by omega) hchild (by omega) hle hmin)

/-! ## One more entry, and a new root -/

theorem Ordered.push (ho : Ordered key n h) (hgt : ∀ a b, gt a b = true ↔ key b < key a) (a : α) :
    Ordered key (n + 1) (siftUp gt (Function.update h n a) n) ∧
      (entries (n + 1) (siftUp gt (Function.update h n a) n)).Perm (a :: entries n h) := by
  have hold : ∀ j, j < n → Function.update h n a j = h j := fun j hj =>
    Function.update_of_ne (by omega) a h
  constructor
  · apply siftUp_ordered hgt (Nat.lt_succ_self n)
    constructor
    · intro j hjpos hj hjn
      have hpj : parent j < j := by
        unfold parent
        omega
      rw [hold j (by omega), hold (parent j) (by omega)]
      exact ho j hjpos (by omega)
    · intro hn j hjpos hj hjp
      unfold parent at hjp
      omega
  · refine (siftUp_perm gt _ (Nat.lt_succ_self n)).trans ?_
    rw [entries, List.range_succ, List.map_append, List.map_singleton, Function.update_self]
    have hmap : (List.range n).map (Function.update h n a) = entries n h :=
      List.map_congr_left fun j hj => hold j (List.mem_range.mp hj)
    rw [hmap]
    exact List.perm_append_singleton a _

theorem Ordered.replaceRoot (ho : Ordered key n h) (hgt : ∀ a b, gt a b = true ↔ key b < key a)
    (hn : 0 < n) (a : α) :
    Ordered key n (siftDown gt n (Function.update h 0 a) 0) ∧
      (h 0 :: entries n (siftDown gt n (Function.update h 0 a) 0)).Perm (a :: entries n h) := by
  have hold : ∀ j, 0 < j → Function.update h 0 a j = h j := fun j hj =>
    Function.update_of_ne (by omega) a h
  constructor
  · apply siftDown_ordered hgt hn
    constructor
    · intro j hjpos hj hjp
      rw [hold j hjpos, hold (parent j) (by omega)]
      exact ho j hjpos hj
    · intro h0
      omega
  · refine ((siftDown_perm gt _ hn).cons (h 0)).trans ?_
    obtain ⟨n, rfl⟩ := Nat.exists_eq_add_of_le' hn
    rw [entries, entries, List.range_succ_eq_map, List.map_cons, List.map_cons, Function.update_self,
      List.map_map, List.map_map]
    have hmap : (List.range n).map (Function.update h 0 a ∘ Nat.succ) =
        (List.range n).map (h ∘ Nat.succ) :=
      List.map_congr_left fun j _ => hold (j + 1) (Nat.succ_pos j)
    rw [hmap]
    exact List.Perm.swap _ _ _

end Ds4.Lib.Heap
