import Ds4.Lib.Ring
import Mathlib.Data.List.DropRight
import Mathlib.Data.List.Sort

/-!
# The median of the last values

`insertShift` puts a value into a sorted array by shifting what is greater, and doing so with value
after value sorts them. A ring that is written one value after another holds the last of them, in
another order, so the middle of its sorted values is the median of the last ones (`median_recent`).
-/

namespace Ds4.Lib

/-! ## Sorting by insertion -/

section Sorting

variable {α : Type*} [LinearOrder α]

/-- Inserts behind the last value that is not greater. -/
def insertShift (sorted : List α) (x : α) : List α :=
  sorted.rdropWhile (x < ·) ++ x :: sorted.rtakeWhile (x < ·)

theorem insertShift_perm (sorted : List α) (x : α) : (insertShift sorted x).Perm (x :: sorted) := by
  refine List.perm_middle.trans (List.Perm.cons x ?_)
  rw [List.rdropWhile_append_rtakeWhile]

theorem insertShift_sorted {sorted : List α} (x : α) (h : sorted.Pairwise (· ≤ ·)) :
    (insertShift sorted x).Pairwise (· ≤ ·) := by
  have hsplit := List.rdropWhile_append_rtakeWhile (p := fun y => decide (x < y)) (l := sorted)
  have hparts := h
  rw [← hsplit, List.pairwise_append] at hparts
  obtain ⟨hfront, hback, -⟩ := hparts
  have hgreater : ∀ y ∈ sorted.rtakeWhile (x < ·), x ≤ y := by
    intro y hy
    have := List.mem_takeWhile_imp (List.mem_reverse.1 hy)
    exact (of_decide_eq_true this).le
  have hsmaller : ∀ y ∈ sorted.rdropWhile (x < ·), y ≤ x := by
    intro y hy
    have hne := List.ne_nil_of_mem hy
    have hlast := List.rdropWhile_last_not (fun y => decide (x < y)) sorted hne
    rw [decide_eq_true_eq, not_lt] at hlast
    exact (hfront.rel_getLast hy).trans hlast
  refine List.pairwise_append.2 ⟨hfront, List.pairwise_cons.2 ⟨hgreater, hback⟩, fun y hy z hz => ?_⟩
  rcases List.mem_cons.1 hz with rfl | hz
  · exact hsmaller y hy
  · exact (hsmaller y hy).trans (hgreater z hz)

/-- **Insertion sorts.** -/
theorem foldl_insertShift (l : List α) : l.foldl insertShift [] = l.insertionSort (· ≤ ·) := by
  have hgeneral : ∀ (l sorted : List α), sorted.Pairwise (· ≤ ·) →
      (l.foldl insertShift sorted).Pairwise (· ≤ ·) ∧ (l.foldl insertShift sorted).Perm (sorted ++ l) := by
    intro l
    induction l with
    | nil => exact fun sorted h => ⟨h, by rw [List.append_nil]; rfl⟩
    | cons x l ih =>
      intro sorted h
      obtain ⟨hsorted, hperm⟩ := ih (insertShift sorted x) (insertShift_sorted x h)
      refine ⟨hsorted, hperm.trans ?_⟩
      exact ((insertShift_perm sorted x).append_right l).trans List.perm_middle.symm
  obtain ⟨hsorted, hperm⟩ := hgeneral l [] List.Pairwise.nil
  exact List.Perm.eq_of_pairwise' hsorted (List.pairwise_insertionSort _ l)
    (hperm.trans (List.perm_insertionSort _ l).symm)

/-- The middle of a sorted list, the half sum of the two middle ones of an even number. -/
def middle [Zero α] [Add α] (half : α → α) (sorted : List α) : α :=
  let mid := sorted.length / 2
  if sorted.length % 2 = 1 then sorted.getD mid 0 else half (sorted.getD (mid - 1) 0 + sorted.getD mid 0)

/-- The median of some values. -/
def median [Zero α] [Add α] (half : α → α) (l : List α) : α := middle half (l.insertionSort (· ≤ ·))

theorem median_perm [Zero α] [Add α] {half : α → α} {l r : List α} (h : l.Perm r) :
    median half l = median half r := by
  have hsort : l.insertionSort (· ≤ ·) = r.insertionSort (· ≤ ·) :=
    List.Perm.eq_of_pairwise' (List.pairwise_insertionSort _ l) (List.pairwise_insertionSort _ r)
      ((List.perm_insertionSort _ l).trans (h.trans (List.perm_insertionSort _ r).symm))
  rw [median, median, hsort]

end Sorting

/-! ## The last values in a ring -/

namespace Ring

variable {n : Nat} [NeZero n] {α : Type*}

theorem readAll_writeAll_self (r : Ring n α) (p : Nat) (xs : List α) (h : xs.length ≤ n) :
    readAll (writeAll r p xs) p xs.length = xs := by
  induction xs generalizing r p with
  | nil => rfl
  | cons x xs ih =>
    rw [List.length_cons] at h ⊢
    have hhead : writeAll r p (x :: xs) (slot n p) = x := by
      rw [writeAll, writeAll_other _ _ _ _ fun i hi => ?_, Function.update_self]
      exact (slot_ne (by omega) (by omega)).symm
    rw [readAll_succ, hhead, writeAll, ih _ _ (by omega)]

theorem readAll_perm (r : Ring n α) (p : Nat) : (readAll r p n).Perm (List.ofFn r) := by
  have hslots : ((List.range n).map fun i => slot n (p + i)).Perm (List.finRange n) := by
    refine (List.perm_ext_iff_of_nodup ?_ (List.nodup_finRange n)).2 fun s => ?_
    · refine List.Nodup.map_on (fun i hi j hj heq => ?_) List.nodup_range
      rw [List.mem_range] at hi hj
      by_contra hne
      rcases Nat.lt_or_gt_of_ne hne with hlt | hlt
      · exact slot_ne (by omega) (by omega) heq
      · exact slot_ne (by omega) (by omega) heq.symm
    · refine ⟨fun _ => List.mem_finRange s, fun _ => List.mem_map.2 ?_⟩
      refine ⟨(s + (n - p % n)) % n, List.mem_range.2 (Nat.mod_lt _ (NeZero.pos n)), Fin.ext ?_⟩
      have hp := Nat.mod_lt p (NeZero.pos n)
      have hdiv := Nat.div_add_mod p n
      change (p + (s + (n - p % n)) % n) % n = s
      rw [Nat.add_mod_mod, show p + (s + (n - p % n)) = s + n * (p / n + 1) by rw [Nat.mul_add]; omega,
        Nat.add_mul_mod_self_left, Nat.mod_eq_of_lt s.isLt]
  have hmap := hslots.map r
  rw [List.map_map, List.finRange, List.map_ofFn] at hmap
  exact hmap

/-- **The ring holds the last values.** -/
theorem recent_perm (r : Ring n α) (h : List α) :
    (readAll (writeAll r 0 h) 0 (min h.length n)).Perm (h.drop (h.length - n)) := by
  rcases Nat.le_total h.length n with hle | hle
  · rw [Nat.min_eq_left hle, readAll_writeAll_self r 0 h hle, Nat.sub_eq_zero_of_le hle, List.drop_zero]
  · have hsplit := writeAll_append r 0 (h.take (h.length - n)) (h.drop (h.length - n))
    have hlen : (h.drop (h.length - n)).length = n := by
      rw [List.length_drop]
      omega
    rw [List.take_append_drop] at hsplit
    have hlast := readAll_writeAll_self (writeAll r 0 (h.take (h.length - n)))
      (0 + (h.take (h.length - n)).length) (h.drop (h.length - n)) hlen.le
    rw [← hsplit, hlen] at hlast
    rw [Nat.min_eq_right hle]
    exact (readAll_perm _ 0).trans ((readAll_perm _ _).symm.trans (List.Perm.of_eq hlast))

end Ring

/-- **The median of a ring** is the median of the last values. -/
theorem median_recent {n : Nat} [NeZero n] {α : Type*} [LinearOrder α] [Zero α] [Add α] (half : α → α)
    (r : Ring n α) (h : List α) :
    middle half ((Ring.readAll (Ring.writeAll r 0 h) 0 (min h.length n)).foldl insertShift []) =
      median half (h.drop (h.length - n)) := by
  rw [foldl_insertShift]
  exact median_perm (Ring.recent_perm r h)

end Ds4.Lib
