import Ds4.Sampler.LaneSearch
import Mathlib.Data.List.GetD

/-!
# The vector scan finds what the scalar scan finds

A lane of `sampleScanSimd` holds the first maximum, and the number, of the finite entries it has seen
(`scanRegsLoop_spec`); its id is counted in a register of the lane. The merged lanes are the scan of the
finite entries in front of the tail.
-/

namespace Ds4.Sampler

open Ds4.Lib

/-! ## One step of a lane -/

theorem ones_and (a : UInt32) : 0xffffffff &&& a = a := by
  rw [← UInt32.toBitVec_inj]
  exact BitVec.allOnes_and

section Step

variable (s : ScanRegs) (v : Quad F32) (j : Fin 4)

theorem fin_mask : vmvnqU32 (vceqqU32 (vandqU32 (vreinterpretqU32F32 v) (vdupq 0x7f800000))
    (vdupq 0x7f800000)) j = if (v j).isFinite then 0xffffffff else 0 := by
  change ~~~ (if (v j).bits &&& 0x7f800000 = 0x7f800000 then (0xffffffff : UInt32) else 0) = _
  by_cases h : (v j).bits &&& 0x7f800000 = 0x7f800000
  · rw [if_pos h, if_neg (by simp [F32.isFinite, h])]
    decide
  · rw [if_neg h, if_pos (by simp [F32.isFinite, h])]
    decide

theorem gt_mask : vandqU32 (vmvnqU32 (vceqqU32 (vandqU32 (vreinterpretqU32F32 v) (vdupq 0x7f800000))
    (vdupq 0x7f800000))) (vcgtqF32 v s.mv) j =
      if (v j).isFinite ∧ (v j).gt (s.mv j) then 0xffffffff else 0 := by
  rw [vandqU32, fin_mask, vcgtqF32]
  by_cases hf : (v j).isFinite <;> by_cases hg : (v j).gt (s.mv j) <;> simp [hf, hg]

theorem vbslqU32_mask {p : Prop} [Decidable p] {m a b : Quad UInt32}
    (hm : m j = if p then 0xffffffff else 0) : vbslqU32 m a b j = if p then a j else b j := by
  rw [vbslqU32, hm]
  split_ifs
  · rw [ones_and, show (~~~ (0xffffffff : UInt32)) = 0 by decide, UInt32.zero_and, UInt32.or_zero]
  · rw [UInt32.zero_and, show (~~~ (0 : UInt32)) = 0xffffffff by decide, ones_and, UInt32.zero_or]

theorem step_mv : (s.step v).mv j = if (v j).isFinite ∧ (v j).gt (s.mv j) then v j else s.mv j := by
  refine (congrArg F32.mk (vbslqU32_mask j (gt_mask s v j))).trans ?_
  split_ifs <;> rfl

theorem step_mi : (s.step v).mi j =
    if (v j).isFinite ∧ (v j).gt (s.mv j) then s.idx j else s.mi j :=
  vbslqU32_mask j (gt_mask s v j)

theorem step_cnt : (s.step v).cnt j = if (v j).isFinite then s.cnt j + 1 else s.cnt j := by
  change s.cnt j - vmvnqU32 (vceqqU32 (vandqU32 (vreinterpretqU32F32 v) (vdupq 0x7f800000))
    (vdupq 0x7f800000)) j = _
  rw [fin_mask]
  split_ifs
  · rw [show (0xffffffff : UInt32) = -1 by decide, sub_neg_eq_add]
  · rw [UInt32.sub_zero]

theorem step_idx : (s.step v).idx j = s.idx j + 16 := rfl

end Step

/-! ## One lane -/

/-- The finite entries of a part of a row. -/
def Row.finiteItems (r : Row) (start n : Nat) : List (Nat × F32) :=
  ((List.range' start n).map fun i => (i, r.at i)).filter fun x => x.2.isFinite

/-- The finite entries that one of sixteen lanes sees. -/
def Row.quadItems (r : Row) (n t : Nat) : List (Nat × F32) :=
  ((List.range n).map fun b => (16 * b + t, r.at (16 * b + t))).filter fun x => x.2.isFinite

/-- The start of the scan. -/
def scanStart : Nat × F32 := (0, negInfF32)

/-- What a lane finds. -/
def Row.quadBest (r : Row) (n t : Nat) : Nat × F32 := firstMax F32.place scanStart (r.quadItems n t)

theorem Row.quadItems_succ (r : Row) (n t : Nat) : r.quadItems (n + 1) t = r.quadItems n t ++
    if (r.at (16 * n + t)).isFinite then [(16 * n + t, r.at (16 * n + t))] else [] := by
  rw [Row.quadItems, Row.quadItems, List.range_succ, List.map_append, List.filter_append]
  congr 1
  split_ifs with h <;> simp [h]

theorem Row.quadBest_succ (r : Row) (n t : Nat) : r.quadBest (n + 1) t =
    if (r.at (16 * n + t)).isFinite ∧ (r.at (16 * n + t)).gt (r.quadBest n t).2 then
      (16 * n + t, r.at (16 * n + t))
    else r.quadBest n t := by
  rw [Row.quadBest, Row.quadItems_succ, firstMax, List.foldl_append]
  by_cases hf : (r.at (16 * n + t)).isFinite
  · rw [if_pos hf, List.foldl_cons, List.foldl_nil]
    simp only [hf, true_and]
    rfl
  · rw [if_neg hf, if_neg fun h => hf h.1]
    rfl

theorem scanRegsLoop_succ (r : Row) (n i : Nat) (s : Fin 4 → ScanRegs) :
    scanRegsLoop r (n + 1) i s =
      fun k => (scanRegsLoop r n i s k).step fun j => r.at (i + 16 * n + 4 * k + j) := by
  induction n generalizing i s with
  | zero => rfl
  | succ n ih =>
    rw [scanRegsLoop, ih]
    simp only [scanRegsLoop]
    funext k
    rw [show i + 16 + 16 * n = i + 16 * (n + 1) by omega]

/-- The number of a lane. -/
def laneNo (k j : Fin 4) : Nat := 4 * k + j

theorem scanRegsLoop_spec (r : Row) (n : Nat) (k j : Fin 4) :
    (scanRegsLoop r n 0 ScanRegs.init k).mv j = (r.quadBest n (laneNo k j)).2 ∧
      (scanRegsLoop r n 0 ScanRegs.init k).mi j = UInt32.ofNat (r.quadBest n (laneNo k j)).1 ∧
      (scanRegsLoop r n 0 ScanRegs.init k).cnt j =
        UInt32.ofNat (r.quadItems n (laneNo k j)).length ∧
      (scanRegsLoop r n 0 ScanRegs.init k).idx j = UInt32.ofNat (16 * n + laneNo k j) := by
  induction n with
  | zero =>
    have hidx : ∀ k j : Fin 4, (ScanRegs.init k).idx j = UInt32.ofNat (16 * 0 + laneNo k j) := by
      decide
    exact ⟨rfl, rfl, rfl, hidx k j⟩
  | succ n ih =>
    obtain ⟨hmv, hmi, hcnt, hidx⟩ := ih
    have hat : 0 + 16 * n + 4 * (k : Nat) + j = 16 * n + laneNo k j := by
      rw [laneNo]
      omega
    rw [scanRegsLoop_succ]
    simp only [step_mv, step_mi, step_cnt, step_idx, hmv, hmi, hcnt, hidx, hat, Row.quadBest_succ,
      Row.quadItems_succ]
    refine ⟨by split_ifs <;> rfl, by split_ifs <;> rfl, ?_, ?_⟩
    · split_ifs
      · rw [List.length_append, UInt32.ofNat_add]
        rfl
      · rw [List.append_nil]
    · rw [show 16 * (n + 1) + laneNo k j = 16 * n + laneNo k j + 16 by omega]
      exact (UInt32.ofNat_add _ 16).symm

/-! ## The merge -/

/-- What a scan can find: the start, or an entry above it with an id of a row. -/
def Found (b : Nat × F32) : Prop := b.1 < 2 ^ 32 ∧ (b = scanStart ∨ above F32.place b.2 negInfF32)

/-- A scan's result, as the source holds it. -/
def scanOf (c : Nat) (b : Nat × F32) : ScanF32 := ⟨UInt32.ofNat c, b.2, UInt32.ofNat b.1⟩

theorem found_firstMax {l : List (Nat × F32)} (hl : ∀ x ∈ l, x.1 < 2 ^ 32) {b : Nat × F32}
    (hb : Found b) : Found (firstMax F32.place b l) := by
  induction l generalizing b with
  | nil => exact hb
  | cons x l ih =>
    refine ih (fun y hy => hl y (List.mem_cons_of_mem _ hy)) ?_
    unfold maxStep
    split_ifs with h
    · refine ⟨hl x List.mem_cons_self, .inr ?_⟩
      rcases hb.2 with rfl | hgt
      · exact h
      · exact above_trans h hgt
    · exact hb

theorem mergeLane_scanOf (c : Nat) {b lane : Nat × F32} (hb : Found b) (hlane : Found lane) :
    (scanOf c b).mergeLane lane.2 (UInt32.ofNat lane.1) = scanOf c (mergeLane F32.place b lane) ∧
      Found (mergeLane F32.place b lane) := by
  have hlt : decide (UInt32.ofNat lane.1 < (scanOf c b).best) = decide (lane.1 < b.1) := by
    rw [decide_eq_decide, UInt32.lt_iff_toNat_lt, scanOf, UInt32.toNat_ofNat_of_lt' hlane.1,
      UInt32.toNat_ofNat_of_lt' hb.1]
  have hcond : (lane.2.gt b.2 || (lane.2.eq b.2 && lane.2.gt negInfF32 && decide (lane.1 < b.1))) =
      (above F32.place lane.2 b.2 || (level F32.place lane.2 b.2 && decide (lane.1 < b.1))) := by
    rcases hlane.2 with rfl | hgt
    · -- an untouched lane is never before the best one
      rcases hb.2 with rfl | hgtb
      · simp [scanStart, F32.gt, F32.eq]
      · have hlevel : ¬ level F32.place scanStart.2 b.2 := fun h =>
          above_irrefl _ (above_of_above_level hgtb h)
        simp [F32.gt, F32.eq, hlevel]
    · simp [F32.gt, F32.eq, show above F32.place lane.2 negInfF32 = true from hgt]
  unfold ScanF32.mergeLane mergeLane
  rw [hlt, show (scanOf c b).maxLogit = b.2 from rfl, hcond]
  split_ifs
  · exact ⟨rfl, hlane⟩
  · exact ⟨rfl, hb⟩

theorem foldl_mergeLane {β : Type} (c : Nat) (f : β → Nat × F32) (l : List β) {b : Nat × F32}
    (hb : Found b) (hf : ∀ x ∈ l, Found (f x)) :
    l.foldl (fun s x => ScanF32.mergeLane s (f x).2 (UInt32.ofNat (f x).1)) (scanOf c b) =
        scanOf c ((l.map f).foldl (mergeLane F32.place) b) ∧
      Found ((l.map f).foldl (mergeLane F32.place) b) := by
  induction l generalizing b with
  | nil => exact ⟨rfl, hb⟩
  | cons x l ih =>
    obtain ⟨hstep, hnext⟩ := mergeLane_scanOf c hb (hf x List.mem_cons_self)
    rw [List.foldl_cons, hstep]
    exact ih hnext fun y hy => hf y (List.mem_cons_of_mem _ hy)

theorem quadItems_lt {r : Row} {n t : Nat} (h : 16 * n + t ≤ 2 ^ 32) :
    ∀ x ∈ r.quadItems n t, x.1 < 2 ^ 32 := by
  intro x hx
  obtain ⟨b, hb, rfl⟩ := List.mem_map.mp (List.mem_filter.mp hx).1
  have := List.mem_range.mp hb
  simp only
  omega

theorem mergeRegs_scanOf (r : Row) {n c : Nat} (hn : 16 * n < 2 ^ 32) {b : Nat × F32} (hb : Found b)
    (k : Fin 4) : (scanOf c b).mergeRegs (scanRegsLoop r n 0 ScanRegs.init k) =
      scanOf (c + ((List.finRange 4).map fun j => (r.quadItems n (laneNo k j)).length).sum)
        (((List.finRange 4).map fun j => r.quadBest n (laneNo k j)).foldl (mergeLane F32.place) b) ∧
      Found (((List.finRange 4).map fun j => r.quadBest n (laneNo k j)).foldl
        (mergeLane F32.place) b) := by
  have hspec := scanRegsLoop_spec r n k
  have hfound : ∀ j ∈ List.finRange 4, Found (r.quadBest n (laneNo k j)) := fun j _ =>
    found_firstMax (quadItems_lt (by rw [laneNo]; omega)) ⟨by decide, .inl rfl⟩
  have hsum : (scanOf c b).finite + vaddvqU32 (scanRegsLoop r n 0 ScanRegs.init k).cnt =
      UInt32.ofNat (c + ((List.finRange 4).map fun j => (r.quadItems n (laneNo k j)).length).sum) := by
    rw [vaddvqU32, (hspec 0).2.2.1, (hspec 1).2.2.1, (hspec 2).2.2.1, (hspec 3).2.2.1, scanOf]
    simp only [← UInt32.ofNat_add, show List.finRange 4 = [0, 1, 2, 3] from rfl, List.map_cons,
      List.map_nil, List.sum_cons, List.sum_nil]
    exact congrArg UInt32.ofNat (by omega)
  unfold ScanF32.mergeRegs
  rw [hsum]
  simp only [(hspec _).1, (hspec _).2.1]
  exact foldl_mergeLane _ (fun j => r.quadBest n (laneNo k j)) (List.finRange 4) hb hfound
theorem foldl_mergeRegs (r : Row) {n c : Nat} (hn : 16 * n < 2 ^ 32) {b : Nat × F32} (hb : Found b)
    (ks : List (Fin 4)) :
    (ks.map (scanRegsLoop r n 0 ScanRegs.init)).foldl ScanF32.mergeRegs (scanOf c b) =
      scanOf (c + (ks.flatMap fun k => (List.finRange 4).map fun j =>
          (r.quadItems n (laneNo k j)).length).sum)
        ((ks.flatMap fun k => (List.finRange 4).map fun j => r.quadBest n (laneNo k j)).foldl
          (mergeLane F32.place) b) := by
  induction ks generalizing c b with
  | nil => rfl
  | cons k ks ih =>
    obtain ⟨hstep, hnext⟩ := mergeRegs_scanOf r (c := c) hn hb k
    rw [List.map_cons, List.foldl_cons, hstep, ih hnext]
    simp only [List.flatMap_cons, List.sum_append, List.foldl_append, Nat.add_assoc]

/-! ## The whole row -/

theorem Row.mem_finiteItems {r : Row} {start n : Nat} {x : Nat × F32} : x ∈ r.finiteItems start n ↔
    ∃ i, start ≤ i ∧ i < start + n ∧ (r.at i).isFinite = true ∧ (i, r.at i) = x := by
  rw [Row.finiteItems, List.mem_filter, List.mem_map]
  constructor
  · rintro ⟨⟨i, hi, rfl⟩, hf⟩
    exact ⟨i, (List.mem_range'_1.mp hi).1, (List.mem_range'_1.mp hi).2, hf, rfl⟩
  · rintro ⟨i, hlo, hhi, hf, rfl⟩
    exact ⟨⟨i, List.mem_range'_1.mpr ⟨hlo, hhi⟩, rfl⟩, hf⟩

theorem Row.mem_quadItems {r : Row} {n t : Nat} {x : Nat × F32} : x ∈ r.quadItems n t ↔
    ∃ b < n, (r.at (16 * b + t)).isFinite = true ∧ (16 * b + t, r.at (16 * b + t)) = x := by
  rw [Row.quadItems, List.mem_filter, List.mem_map]
  constructor
  · rintro ⟨⟨b, hb, rfl⟩, hf⟩
    exact ⟨b, List.mem_range.mp hb, hf, rfl⟩
  · rintro ⟨b, hb, hf, rfl⟩
    exact ⟨⟨b, List.mem_range.mpr hb, rfl⟩, hf⟩

theorem Row.finiteItems_pairwise (r : Row) (start n : Nat) :
    (r.finiteItems start n).Pairwise fun x y => x.1 < y.1 :=
  (List.pairwise_map.mpr (by simpa using List.pairwise_lt_range')).filter _

theorem Row.quadItems_pairwise (r : Row) (n t : Nat) :
    (r.quadItems n t).Pairwise fun x y => x.1 < y.1 :=
  (List.pairwise_map.mpr (List.pairwise_lt_range.imp fun h => by simp only; omega)).filter _

/-- The entries of the sixteen lanes. -/
def Row.quads (r : Row) (n : Nat) : List (List (Nat × F32)) := (List.range 16).map (r.quadItems n)

theorem Row.mem_quads {r : Row} {n : Nat} {x : Nat × F32} :
    x ∈ (r.quads n).flatten ↔ x ∈ r.finiteItems 0 (16 * n) := by
  rw [Row.quads, List.mem_flatten, Row.mem_finiteItems]
  constructor
  · rintro ⟨l, hl, hx⟩
    obtain ⟨t, ht, rfl⟩ := List.mem_map.mp hl
    obtain ⟨b, hb, hf, rfl⟩ := Row.mem_quadItems.mp hx
    rw [List.mem_range] at ht
    exact ⟨16 * b + t, by omega, by omega, hf, rfl⟩
  · rintro ⟨i, -, hi, hf, rfl⟩
    refine ⟨_, List.mem_map.mpr ⟨i % 16, List.mem_range.mpr (by omega), rfl⟩, ?_⟩
    rw [Row.mem_quadItems]
    refine ⟨i / 16, by omega, ?_⟩
    rw [show 16 * (i / 16) + i % 16 = i by omega]
    exact ⟨hf, rfl⟩

theorem nodup_of_pairwise_fst {l : List (Nat × F32)} (h : l.Pairwise fun x y => x.1 < y.1) :
    l.Nodup := h.imp fun hlt heq => (heq ▸ hlt).ne rfl

theorem Row.quads_length (r : Row) (n : Nat) :
    ((r.quads n).map List.length).sum = (r.finiteItems 0 (16 * n)).length := by
  have hnodup : (r.quads n).flatten.Nodup := by
    rw [List.nodup_flatten, Row.quads]
    constructor
    · intro l hl
      obtain ⟨t, -, rfl⟩ := List.mem_map.mp hl
      exact nodup_of_pairwise_fst (r.quadItems_pairwise n t)
    · refine List.pairwise_map.mpr
        (List.Pairwise.imp_of_mem (fun {s t} hs ht hst x hx hx' => ?_) List.pairwise_lt_range)
      obtain ⟨a, -, -, rfl⟩ := Row.mem_quadItems.mp hx
      obtain ⟨b, -, -, hb⟩ := Row.mem_quadItems.mp hx'
      rw [List.mem_range] at hs ht
      have := congrArg Prod.fst hb
      simp only at this
      omega
  rw [← List.length_flatten]
  exact ((List.perm_ext_iff_of_nodup hnodup
    (nodup_of_pairwise_fst (r.finiteItems_pairwise 0 (16 * n)))).mpr fun _ => mem_quads).length_eq

theorem scanScalarLoop_eq (r : Row) (n i c : Nat) (b : Nat × F32) :
    scanScalarLoop r n i (scanOf c b) =
      scanOf (c + (r.finiteItems i n).length) (firstMax F32.place b (r.finiteItems i n)) := by
  induction n generalizing i c b with
  | zero => rfl
  | succ n ih =>
    have hcons : r.finiteItems i (n + 1) =
        (if (r.at i).isFinite then [(i, r.at i)] else []) ++ r.finiteItems (i + 1) n := by
      rw [Row.finiteItems, List.range'_succ, List.map_cons, List.filter_cons]
      split_ifs <;> rfl
    have hstep : (scanOf c b).step i (r.at i) =
        scanOf (c + (if (r.at i).isFinite then [(i, r.at i)] else []).length)
          (firstMax F32.place b (if (r.at i).isFinite then [(i, r.at i)] else [])) := by
      unfold ScanF32.step
      by_cases hf : (r.at i).isFinite
      · have hbest : firstMax F32.place b [(i, r.at i)] = maxStep F32.place b (i, r.at i) := rfl
        simp only [hf, Bool.not_true, Bool.false_eq_true, if_false, if_true, hbest, maxStep,
          List.length_singleton]
        rw [show (r.at i).gt (scanOf c b).maxLogit = above F32.place (r.at i) b.2 from rfl]
        split_ifs
        · simp [scanOf, UInt32.ofNat_add]
        · simp [scanOf, UInt32.ofNat_add]
      · simp [hf, firstMax]
    rw [scanScalarLoop, hstep, ih, hcons, List.length_append, Nat.add_assoc, firstMax, firstMax,
      firstMax, List.foldl_append]

theorem Row.finiteItems_append (r : Row) (m n : Nat) :
    r.finiteItems 0 m ++ r.finiteItems m n = r.finiteItems 0 (m + n) := by
  have happ : List.range' 0 m ++ List.range' m n = List.range' 0 (m + n) := by
    simpa using List.range'_append_1 (s := 0) (m := m) (n := n)
  rw [Row.finiteItems, Row.finiteItems, Row.finiteItems, ← List.filter_append, ← List.map_append,
    happ]

theorem toNat_and_not_15 {n : Nat} (h : n < 2 ^ 32) :
    (UInt32.ofNat n &&& ~~~ 15).toNat = 16 * (n / 16) := by
  have hshift : 16 * (n / 16) = (n >>> 4) <<< 4 := by
    rw [Nat.shiftRight_eq_div_pow, Nat.shiftLeft_eq]
    omega
  have hmask : (4294967280 : Nat) = (2 ^ 28 - 1) <<< 4 := by decide
  rw [UInt32.toNat_and, UInt32.toNat_ofNat_of_lt' h,
    show (~~~ (15 : UInt32)).toNat = 4294967280 from rfl, hshift, hmask]
  refine Nat.eq_of_testBit_eq fun i => ?_
  rw [Nat.testBit_and, Nat.testBit_shiftLeft, Nat.testBit_shiftLeft, Nat.testBit_shiftRight,
    Nat.testBit_two_pow_sub_one]
  by_cases hi : 4 ≤ i
  · rw [Nat.add_sub_cancel' hi]
    by_cases hlt : i < 32
    · simp [hi, show i - 4 < 28 by omega]
    · rw [Nat.testBit_lt_two_pow (h.trans_le (Nat.pow_le_pow_right (by decide) (by omega)))]
      simp
  · simp [hi]

/-- **The vector scan.** -/
theorem sampleScanSimd_eq (r : Row) : sampleScanSimd r = sampleScanScalar r := by
  have hsize : r.size < 2 ^ 32 := r.length_lt
  set n := r.size / 16 with hn
  have hlanes : ((List.finRange 4).flatMap fun k => (List.finRange 4).map (laneNo k)) =
      List.range 16 := by decide
  have hbest : ((List.finRange 4).flatMap fun k => (List.finRange 4).map fun j =>
      r.quadBest n (laneNo k j)) = (r.quads n).map (firstMax F32.place scanStart) := by
    rw [Row.quads, ← hlanes, List.map_map, List.map_flatMap]
    simp only [List.map_map]
    rfl
  have hcount : ((List.finRange 4).flatMap fun k => (List.finRange 4).map fun j =>
      (r.quadItems n (laneNo k j)).length) = (r.quads n).map List.length := by
    rw [Row.quads, ← hlanes, List.map_map, List.map_flatMap]
    simp only [List.map_map]
    rfl
  have hquads : ∀ l ∈ r.quads n, l.Pairwise fun x y => x.1 < y.1 := fun l hl => by
    obtain ⟨t, -, rfl⟩ := List.mem_map.mp hl
    exact r.quadItems_pairwise n t
  have hmerge : ((r.quads n).map (firstMax F32.place scanStart)).foldl (mergeLane F32.place) scanStart = _ :=
    firstMax_lanes (r.finiteItems_pairwise 0 (16 * n)) hquads fun x => Row.mem_quads
  have hstart : (⟨0, negInfF32, 0⟩ : ScanF32) = scanOf 0 scanStart := rfl
  have hregs := foldl_mergeRegs r (n := n) (c := 0) (by omega) ⟨by decide, .inl rfl⟩
    (List.finRange 4)
  rw [hbest, hcount, hmerge, r.quads_length] at hregs
  rw [sampleScanSimd, sampleScanScalar, toNat_and_not_15 hsize, ← hn]
  simp only [Nat.mul_div_cancel_left n (by decide : 0 < 16)]
  rw [hstart, hregs, scanScalarLoop_eq, scanScalarLoop_eq]
  have hsum : 16 * n + (r.size - 16 * n) = r.size := by omega
  rw [Nat.zero_add, Nat.zero_add, ← List.length_append, ← hsum, Nat.add_sub_cancel_left,
    ← Row.finiteItems_append, firstMax, firstMax, firstMax, List.foldl_append]

/-! ## Rows of any length -/

/-- **The lanes find what the scalar loops find.** The eight lanes do up to as many ids as an `int` has. -/
theorem lanes_eq_scalar (r : Row) : sampleScanSimd r = sampleScanScalar r ∧
    (r.size ≤ 2 ^ 31 → (∀ disabled, sampleArgmaxEnv disabled r = sampleArgmaxScalar r) ∧
      ∀ excludedId, argmaxF32ExcludingUnrolled8 r excludedId = argmaxExcludingScalar r excludedId) := by
  refine ⟨sampleScanSimd_eq r, fun h => ⟨fun disabled => ?_, argmaxF32ExcludingUnrolled8_eq h⟩⟩
  cases disabled
  · exact sampleArgmaxUnrolled8_eq h
  · rfl

/-- Rounds of lanes and a rest: a NaN, an infinity, and `2.0` in a late lane of the first round, in the first lane
of the second and in the rest. -/
def tiedRow : Row :=
  ⟨[⟨0x3f800000⟩, ⟨0x7fc00000⟩, ⟨0xff800000⟩, ⟨0x3f800000⟩, ⟨0x3f800000⟩, ⟨0x3f800000⟩, ⟨0x40000000⟩,
    ⟨0x3f800000⟩, ⟨0x40000000⟩, ⟨0x3f800000⟩, ⟨0x7fc00000⟩, ⟨0x3f800000⟩, ⟨0x3f800000⟩, ⟨0x3f800000⟩,
    ⟨0x3f800000⟩, ⟨0x3f800000⟩, ⟨0x40000000⟩, ⟨0x3f800000⟩, ⟨0x3f800000⟩], by decide⟩

theorem lanes_eq_scalar_tied : sampleArgmaxUnrolled8 tiedRow = 6 ∧
    argmaxF32ExcludingUnrolled8 tiedRow 6 = 8 ∧ sampleScanSimd tiedRow = ⟨16, ⟨0x40000000⟩, 6⟩ := by
  obtain ⟨hscan, hint⟩ := lanes_eq_scalar tiedRow
  obtain ⟨hargmax, hexcluding⟩ := hint (by decide)
  rw [hscan, hexcluding, show sampleArgmaxUnrolled8 tiedRow = _ from hargmax false]
  decide +kernel

/-- `1.0` twice among entries that are `-inf`, with `n` of these between. -/
def twoOnes (n : Nat) : List F32 :=
  List.replicate 5 ⟨0xff800000⟩ ++ ⟨0x3f800000⟩ ::
    (List.replicate n ⟨0xff800000⟩ ++ ⟨0x3f800000⟩ :: List.replicate 7 ⟨0xff800000⟩)

theorem twoOnes_length (n : Nat) : (twoOnes n).length = n + 14 := by
  rw [twoOnes, List.length_append, List.length_replicate, List.length_cons, List.length_append,
    List.length_replicate, List.length_cons, List.length_replicate]
  omega

theorem twoOnes_getD {n i : Nat} (hi : i < n + 14) : (twoOnes n).getD i ⟨0⟩ =
    if i = 5 ∨ i = n + 6 then ⟨0x3f800000⟩ else ⟨0xff800000⟩ := by
  have hrep : ∀ {n j : Nat} (_ : j < n) (x d : F32), (List.replicate n x).getD j d = x := by
    intro n j hj x d
    rw [List.getD_eq_getElem _ _ (by simpa using hj), List.getElem_replicate]
  rw [twoOnes]
  rcases Nat.lt_trichotomy i 5 with h | rfl | h
  · rw [List.getD_append _ _ _ _ (by simpa using h), hrep h, if_neg (by omega)]
  · rw [List.getD_append_right _ _ _ _ (by simp), if_pos (.inl rfl), List.length_replicate,
      Nat.sub_self, List.getD_cons_zero]
  · rw [List.getD_append_right _ _ _ _ (by simpa using h.le), List.length_replicate,
      show i - 5 = (i - 6) + 1 by omega, List.getD_cons_succ]
    rcases Nat.lt_trichotomy i (n + 6) with h' | rfl | h'
    · rw [List.getD_append _ _ _ _ (by rw [List.length_replicate]; omega), hrep (by omega),
        if_neg (by omega)]
    · rw [List.getD_append_right _ _ _ _ (by simp), if_pos (.inr rfl), List.length_replicate,
        Nat.add_sub_cancel, Nat.sub_self, List.getD_cons_zero]
    · rw [List.getD_append_right _ _ _ _ (by rw [List.length_replicate]; omega),
        List.length_replicate, show i - 6 - n = (i - n - 7) + 1 by omega,
        List.getD_cons_succ, hrep (by omega), if_neg (by omega)]

/-- `1.0` at 5 and at `2 ^ 31`. -/
def wideRow : Row := ⟨twoOnes (2 ^ 31 - 6), by rw [twoOnes_length]; omega⟩

theorem wideRow_size : wideRow.size = 2 ^ 31 + 8 := (twoOnes_length _).trans (by omega)

theorem wideRow_at {i : Nat} (hi : i < 2 ^ 31 + 8) : wideRow.at i =
    if i = 5 ∨ i = 2 ^ 31 then ⟨0x3f800000⟩ else ⟨0xff800000⟩ := by
  have h := twoOnes_getD (n := 2 ^ 31 - 6) (i := i) (by omega)
  rwa [show 2 ^ 31 - 6 + 6 = 2 ^ 31 by omega] at h

theorem wideRow_low {i : Nat} (hi : i < 2 ^ 31 + 8) (h5 : i ≠ 5) (h31 : i ≠ 2 ^ 31) :
    ¬ above F32.place (wideRow.at i) negInfF32 := by
  rw [wideRow_at hi, if_neg (by omega)]
  decide

theorem wideRow_le {i : Nat} (hi : i < 2 ^ 31 + 8) :
    ¬ above F32.place (wideRow.at i) ⟨0x3f800000⟩ := by
  rw [wideRow_at hi]
  split_ifs <;> decide

theorem wideRow_one {i : Nat} (h : i = 5 ∨ i = 2 ^ 31) : wideRow.at i = ⟨0x3f800000⟩ := by
  rw [wideRow_at (by omega), if_pos h]

theorem wideRow_lanes (k : Fin 8) :
    firstMax F32.place (0, negInfF32) (wideRow.laneItems 0 (2 ^ 28 + 1) k) =
      if k = 0 then (-2147483648, ⟨0x3f800000⟩) else if k = 5 then (5, ⟨0x3f800000⟩)
      else (0, negInfF32) := by
  have hat : ∀ {j : Nat}, j < 2 ^ 28 + 1 → 0 + 8 * j + (k : Nat) < 2 ^ 31 + 8 := fun h => by omega
  by_cases h0 : k = 0
  · subst h0
    have hlast : wideRow.laneItems 0 (2 ^ 28 + 1) 0 = ((List.range (2 ^ 28)).map fun j =>
        (toInt (0 + 8 * j + (0 : Fin 8)), wideRow.at (0 + 8 * j + (0 : Fin 8)))) ++
          [(toInt (2 ^ 31), ⟨0x3f800000⟩)] := by
      rw [Row.laneItems, List.range_succ, List.map_append, List.map_singleton,
        show 0 + 8 * 2 ^ 28 + ((0 : Fin 8) : Nat) = 2 ^ 31 from rfl, wideRow_one (.inr rfl)]
    rw [hlast, if_pos rfl, firstMax_append]
    · decide
    · intro x hx
      obtain ⟨j, hj, rfl⟩ := List.mem_map.mp hx
      rw [List.mem_range] at hj
      exact wideRow_low (hat (by omega)) (by simp; omega) (by simp; omega)
    · decide
    · simp
  · rw [if_neg h0]
    have hk : (k : Nat) ≠ 0 := fun h => h0 (Fin.ext h)
    by_cases h5 : k = 5
    · subst h5
      have hfirst : wideRow.laneItems 0 (2 ^ 28 + 1) 5 = [] ++ (5, ⟨0x3f800000⟩) ::
          (List.range (2 ^ 28)).map fun j => (toInt (0 + 8 * (j + 1) + (5 : Fin 8)),
            wideRow.at (0 + 8 * (j + 1) + (5 : Fin 8))) := by
        rw [Row.laneItems, List.range_succ_eq_map, List.map_cons, List.map_map,
          show 0 + 8 * 0 + ((5 : Fin 8) : Nat) = 5 from rfl, wideRow_one (.inl rfl)]
        rfl
      rw [hfirst, if_pos rfl, firstMax_append (by simp) (by decide)]
      intro x hx
      obtain ⟨j, hj, rfl⟩ := List.mem_map.mp hx
      rw [List.mem_range] at hj
      exact wideRow_le (hat (by omega))
    · rw [if_neg h5]
      have hk5 : (k : Nat) ≠ 5 := fun h => h5 (Fin.ext h)
      refine firstMax_of_not_above fun x hx => ?_
      obtain ⟨j, hj, rfl⟩ := List.mem_map.mp hx
      rw [List.mem_range] at hj
      exact wideRow_low (hat hj) (by omega) (by omega)

/-- **The cast of an id decides a tie.** The ids 5 and `2 ^ 31` are both the largest; the second one is
negative as an `int`. -/
theorem sampleArgmaxUnrolled8_ne : sampleArgmaxScalar wideRow = 5 ∧
    sampleArgmaxUnrolled8 wideRow = -2147483648 := by
  constructor
  · have hsplit : wideRow.items 0 (2 ^ 31 + 8) = wideRow.items 0 5 ++ (5, ⟨0x3f800000⟩) ::
        wideRow.items 6 (2 ^ 31 + 2) := by
      rw [show (2 ^ 31 + 8 : Nat) = 5 + (2 ^ 31 + 2 + 1) by omega, ← Row.items_append, Nat.zero_add,
        wideRow.items_succ 5 (2 ^ 31 + 2), wideRow_one (.inl rfl), toInt_eq (by omega)]
      rfl
    rw [sampleArgmaxScalar, argmaxScalar_eq, wideRow_size, hsplit, firstMax_append]
    · intro x hx
      obtain ⟨i, -, hi, rfl⟩ := Row.mem_items.mp hx
      exact wideRow_low (by omega) (by omega) (by omega)
    · decide
    · intro x hx
      obtain ⟨i, -, hi, rfl⟩ := Row.mem_items.mp hx
      exact wideRow_le (by omega)
  · rw [sampleArgmaxUnrolled8, argmaxF32Unrolled8Range, argmaxLanes_eq, wideRow_size,
      show (2 ^ 31 + 8 - 0) / 8 = 2 ^ 28 + 1 by omega]
    simp only [wideRow_lanes]
    rw [show (2 ^ 31 + 8 - (0 + 8 * (2 ^ 28 + 1))) = 0 by omega, argmaxScalar]
    decide

end Ds4.Sampler
