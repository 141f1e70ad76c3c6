import Ds4.Sampler.Lanes

/-!
# The lanes find what the scalar loops find

Each lane is a scan of every eighth, or every sixteenth, entry from the common start, so the merged lanes
are the scan of the whole part (`argmaxF32Unrolled8Range_eq`, `sampleScanSimd_eq`). The eight lanes are
merged by ids cast to `int`: this is the order of the ids up to `2 ^ 31` of them, and not beyond
(`sampleArgmaxUnrolled8_ne`).
-/

namespace Ds4.Sampler

open Ds4.Lib

/-! ## Parts of a row -/

theorem toInt_eq {i : Nat} (h : i < 2 ^ 31) : toInt i = i := Int32.toInt_ofNat_of_lt h

/-- The ids and entries of a part of a row. -/
def Row.items (r : Row) (start n : Nat) : List (Int × F32) :=
  (List.range' start n).map fun i => (toInt i, r.at i)

/-- The entries of a part that one of eight lanes sees. -/
def Row.laneItems (r : Row) (start n : Nat) (k : Fin 8) : List (Int × F32) :=
  (List.range n).map fun j => (toInt (start + 8 * j + k), r.at (start + 8 * j + k))

theorem Row.items_append (r : Row) (start m n : Nat) :
    r.items start m ++ r.items (start + m) n = r.items start (m + n) := by
  rw [Row.items, Row.items, Row.items, ← List.map_append, List.range'_append_1]

theorem Row.items_succ (r : Row) (start n : Nat) :
    r.items start (n + 1) = (toInt start, r.at start) :: r.items (start + 1) n := rfl

theorem Row.mem_items {r : Row} {start n : Nat} {x : Int × F32} :
    x ∈ r.items start n ↔ ∃ i, start ≤ i ∧ i < start + n ∧ (toInt i, r.at i) = x := by
  simp [Row.items, and_assoc]

theorem Row.items_pairwise (r : Row) {start n : Nat} (h : start + n ≤ 2 ^ 31) :
    (r.items start n).Pairwise fun x y => x.1 < y.1 := by
  refine List.pairwise_map.mpr
    (List.Pairwise.imp_of_mem (fun {a b} ha hb hab => ?_) List.pairwise_lt_range')
  rw [List.mem_range'_1] at ha hb
  rw [toInt_eq (by omega), toInt_eq (by omega)]
  exact Int.ofNat_lt.mpr hab

theorem Row.laneItems_pairwise (r : Row) {start n : Nat} (h : start + 8 * n ≤ 2 ^ 31) (k : Fin 8) :
    (r.laneItems start n k).Pairwise fun x y => x.1 < y.1 := by
  refine List.pairwise_map.mpr (List.pairwise_lt_range.imp_of_mem fun {a b} ha hb hab => ?_)
  rw [List.mem_range] at ha hb
  rw [toInt_eq (by omega), toInt_eq (by omega)]
  omega

theorem Row.mem_lanes {r : Row} {start n : Nat} {x : Int × F32} :
    x ∈ ((List.finRange 8).map (r.laneItems start n)).flatten ↔ x ∈ r.items start (8 * n) := by
  rw [Row.mem_items]
  simp only [Row.laneItems, List.mem_flatten, List.mem_map, List.mem_finRange, true_and,
    exists_exists_eq_and, List.mem_range]
  constructor
  · rintro ⟨k, j, hj, rfl⟩
    exact ⟨start + 8 * j + k, by omega, by omega, rfl⟩
  · rintro ⟨i, hlo, hhi, rfl⟩
    refine ⟨⟨(i - start) % 8, by omega⟩, (i - start) / 8, by omega, ?_⟩
    rw [show start + 8 * ((i - start) / 8) + (i - start) % 8 = i by omega]

/-! ## Eight lanes -/

theorem argmaxStep_eq (best : Int × F32) (i : Nat) (x : F32) :
    argmaxStep best i x = maxStep F32.place best (toInt i, x) := rfl

theorem argmaxMergeLane_eq : argmaxMergeLane = mergeLane F32.place := rfl

theorem argmaxScalar_eq (r : Row) (n i : Nat) (best : Int × F32) :
    argmaxScalar r n i best = firstMax F32.place best (r.items i n) := by
  induction n generalizing i best with
  | zero => rfl
  | succ n ih =>
    rw [argmaxScalar, ih, argmaxStep_eq]
    rfl

theorem argmaxLanes_eq (r : Row) (n i : Nat) (lanes : Fin 8 → Int × F32) :
    argmaxLanes r n i lanes =
      (i + 8 * n, fun k => firstMax F32.place (lanes k) (r.laneItems i n k)) := by
  induction n generalizing i lanes with
  | zero => rfl
  | succ n ih =>
    rw [argmaxLanes, ih]
    refine Prod.ext (by simp only; omega) (funext fun k => ?_)
    have hcons : r.laneItems i (n + 1) k = (toInt (i + k), r.at (i + k)) ::
        r.laneItems (i + 8) n k := by
      have hshift : ∀ j, i + 8 * (j + 1) + (k : Nat) = i + 8 + 8 * j + k := fun j => by omega
      simp only [Row.laneItems, List.range_succ_eq_map, List.map_cons, List.map_map, Nat.mul_zero,
        Nat.add_zero, Function.comp_def, Nat.succ_eq_add_one, hshift]
    simp only [hcons, argmaxStep_eq]
    rfl

/-- **A part in eight lanes.** -/
theorem argmaxF32Unrolled8Range_eq (r : Row) {start stop : Nat} (hstart : start ≤ stop)
    (hstop : stop ≤ 2 ^ 31) (best : Int × F32) :
    argmaxF32Unrolled8Range r start stop best =
      firstMax F32.place best (r.items start (stop - start)) := by
  set m := (stop - start) / 8 with hm
  have hall : (r.items start (8 * m)).Pairwise fun x y => x.1 < y.1 := r.items_pairwise (by omega)
  have hlanes : (((List.finRange 8).map (r.laneItems start m)).map (firstMax F32.place best)).foldl
      (mergeLane F32.place) best = _ :=
    firstMax_lanes hall (by simpa using fun k => r.laneItems_pairwise (by omega) k) fun x => Row.mem_lanes
  rw [List.map_map] at hlanes
  have hsplit : stop - start = 8 * m + (stop - (start + 8 * m)) := by omega
  rw [argmaxF32Unrolled8Range, argmaxLanes_eq]
  simp only
  rw [argmaxMergeLane_eq, argmaxScalar_eq, ← hm]
  rw [show (List.finRange 8).map (fun k => firstMax F32.place best (r.laneItems start m k)) =
    (List.finRange 8).map (firstMax F32.place best ∘ r.laneItems start m) from rfl, hlanes]
  rw [hsplit, ← Row.items_append, firstMax, firstMax, firstMax, List.foldl_append]

theorem sampleArgmaxUnrolled8_eq {r : Row} (h : r.size ≤ 2 ^ 31) :
    sampleArgmaxUnrolled8 r = sampleArgmaxScalar r := by
  rw [sampleArgmaxUnrolled8, sampleArgmaxScalar, argmaxF32Unrolled8Range_eq r (Nat.zero_le _) h,
    argmaxScalar_eq, Nat.sub_zero]

/-! ## All ids but one -/

theorem excludingLoop_eq (r : Row) (excludedId : Int) {n i : Nat} (h : i + n ≤ 2 ^ 31)
    {best : Int × F32} (hbest : 0 ≤ best.1) :
    excludingLoop r excludedId n i best =
      firstMax F32.place best ((r.items i n).filter fun x => x.1 ≠ excludedId) := by
  induction n generalizing i best with
  | zero => rfl
  | succ n ih =>
    have hid : 0 ≤ toInt i := by
      rw [toInt_eq (by omega)]
      omega
    rw [excludingLoop, Row.items_succ, List.filter_cons]
    by_cases hex : toInt i = excludedId
    · rw [if_pos hex, ih (by omega) hbest]
      simp [hex]
    · have hstep : (if best.1 < 0 ∨ (r.at i).gt best.2 then (toInt i, r.at i) else best) =
          maxStep F32.place best (toInt i, r.at i) := by
        simp only [maxStep, F32.gt, not_lt.mpr hbest, false_or]
      have hnext : 0 ≤ (maxStep F32.place best (toInt i, r.at i)).1 := by
        unfold maxStep
        split_ifs
        · exact hid
        · exact hbest
      rw [if_neg hex, hstep, ih (by omega) hnext]
      simp only [ne_eq, hex, not_false_eq_true, decide_true, if_true]
      rfl

theorem Row.filter_items_of_not_mem (r : Row) {start n : Nat} {excludedId : Int}
    (h : start + n ≤ 2 ^ 31) (hex : ∀ i, start ≤ i → i < start + n → (i : Int) ≠ excludedId) :
    (r.items start n).filter (fun x => x.1 ≠ excludedId) = r.items start n := by
  refine List.filter_eq_self.mpr fun x hx => ?_
  obtain ⟨i, hlo, hhi, rfl⟩ := Row.mem_items.mp hx
  simpa [toInt_eq (show i < 2 ^ 31 by omega)] using hex i hlo hhi

theorem Row.filter_items (r : Row) {start e n : Nat} (h : n ≤ 2 ^ 31) (hs : start ≤ e) (he : e < n) :
    (r.items start (n - start)).filter (fun x => x.1 ≠ (e : Int)) =
      r.items start (e - start) ++ r.items (e + 1) (n - (e + 1)) := by
  have hsplit : r.items start (n - start) =
      r.items start (e - start) ++ (toInt e, r.at e) :: r.items (e + 1) (n - (e + 1)) := by
    have hcons : (toInt e, r.at e) :: r.items (e + 1) (n - (e + 1)) = r.items e (n - (e + 1) + 1) := rfl
    have happ := r.items_append start (e - start) (n - (e + 1) + 1)
    rw [show start + (e - start) = e by omega,
      show e - start + (n - (e + 1) + 1) = n - start by omega] at happ
    rw [hcons, happ]
  rw [hsplit, List.filter_append, List.filter_cons_of_neg (by simp [toInt_eq (by omega : e < 2 ^ 31)]),
    r.filter_items_of_not_mem (by omega) (fun i _ hi => by omega),
    r.filter_items_of_not_mem (by omega) (fun i hi _ => by omega)]

theorem argmaxF32ExcludingUnrolled8_eq {r : Row} (h : r.size ≤ 2 ^ 31) (excludedId : Int) :
    argmaxF32ExcludingUnrolled8 r excludedId = argmaxExcludingScalar r excludedId := by
  unfold argmaxF32ExcludingUnrolled8 argmaxExcludingScalar
  by_cases h0 : excludedId = 0
  · subst h0
    have htoInt : toInt 0 = 0 := toInt_eq (by omega)
    rcases Nat.lt_or_ge 1 r.size with hn | hn
    · obtain ⟨n, hsize⟩ := Nat.exists_eq_add_of_lt hn
      simp only [if_true, not_le.mpr hn, if_false, Int.toNat_zero]
      rw [if_neg (by omega), argmaxF32Unrolled8Range_eq r (by omega) h]
      rw [show r.size = (n + 1) + 1 by omega, excludingLoop, excludingLoop, if_pos htoInt,
        if_neg (by rw [toInt_eq] <;> omega), if_pos (.inl (by omega)),
        excludingLoop_eq r 0 (by omega) (by rw [toInt_eq] <;> omega),
        r.filter_items_of_not_mem (by omega) (fun i hi _ => by omega)]
      congr 2
    · rw [if_pos rfl, if_pos hn]
      interval_cases hsize : r.size
      · rfl
      · rw [excludingLoop, if_pos htoInt]
        rfl
  · simp only [h0, if_false]
    rcases Nat.eq_zero_or_pos r.size with hn | hn
    · rw [if_pos (by omega), hn]
      rfl
    · have hloop : excludingLoop r excludedId r.size 0 (-1, negInfF32) =
          firstMax F32.place (toInt 0, r.at 0)
            ((r.items 1 (r.size - 1)).filter fun x => x.1 ≠ excludedId) := by
        obtain ⟨n, hsize⟩ := Nat.exists_eq_succ_of_ne_zero hn.ne'
        rw [hsize, Nat.succ_eq_add_one, excludingLoop, toInt_eq (by omega : 0 < 2 ^ 31),
          if_neg (fun hc => h0 (by omega)), if_pos (.inl (by omega)),
          excludingLoop_eq r excludedId (by omega) le_rfl, Nat.add_sub_cancel]
      rw [if_neg (by omega), hloop]
      split_ifs with hex
      · obtain ⟨hpos, hlo, hhi⟩ := hex
        have hcast : excludedId = (excludedId.toNat : Int) := by omega
        rw [argmaxF32Unrolled8Range_eq r hlo (by omega),
          argmaxF32Unrolled8Range_eq r (by omega) h]
        rw [show (fun x : Int × F32 => decide (x.1 ≠ excludedId)) =
          fun x => decide (x.1 ≠ (excludedId.toNat : Int)) by rw [← hcast], r.filter_items h hlo hhi]
        rw [firstMax, firstMax, firstMax, List.foldl_append]
      · rw [argmaxF32Unrolled8Range_eq r (by omega) h,
          r.filter_items_of_not_mem (by omega) (fun i hlo hhi hc => hex (by omega))]

end Ds4.Sampler
