import Ds4.Lib.Bytes

/-!
# Layers on devices

`ds4_compute_layer_placement` puts the entries of a model on the devices in order: a device is left for the next
one when an entry does not fit, and what fits on no device goes to the CPU with everything behind it. No placement
in device order keeps more entries off the CPU.
-/

namespace Ds4.Placement

/-- `DS4_LAYER_PACK_MAX_GPUS`. -/
abbrev layerPackMaxGpus : Nat := 16

/-- A device for an entry; `DS4_LAYER_PACK_CPU` is the CPU. -/
inductive Device
  | gpu (d : Nat)
  | cpu
deriving DecidableEq

/-- The loop over the devices: the first that can hold an entry, from `d` on. -/
def advance (nGpus : Nat) (budget : Nat → UInt64) (bytes : UInt64) (d : Nat) : Nat :=
  if d < nGpus ∧ bytes > budget d then advance nGpus budget bytes (d + 1) else d
termination_by nGpus - d

/-- The loop over the entries: their devices, and what is left of the budgets. -/
def placeFrom (nGpus : Nat) : Nat → (Nat → UInt64) → List UInt64 → List Device × (Nat → UInt64)
  | _, budget, [] => ([], budget)
  | d, budget, bytes :: entryBytes =>
    let d := advance nGpus budget bytes d
    if d < nGpus then
      let (devices, budget) := placeFrom nGpus d (Function.update budget d (budget d - bytes)) entryBytes
      (.gpu d :: devices, budget)
    else
      let (devices, budget) := placeFrom nGpus d budget entryBytes
      (.cpu :: devices, budget)

/-- `ds4_compute_layer_placement`, with what is left of the local budgets; an error is its code. -/
def computeLayerPlacement (entryBytes : List UInt64) (nGpus : Int) (gpuBudgetBytes : Nat → UInt64) :
    Except Nat (List Device × (Nat → UInt64)) :=
  if nGpus < 0 ∨ nGpus > layerPackMaxGpus then .error 3
  else .ok (placeFrom nGpus.toNat 0 gpuBudgetBytes entryBytes)

/-! ## What fits -/

/-- The bytes of the entries that a placement puts on a device. -/
def load (d : Device) : List Device → List UInt64 → Nat
  | e :: devices, bytes :: entryBytes => (if e = d then bytes.toNat else 0) + load d devices entryBytes
  | _, _ => 0

variable {nGpus d : Nat} {budget : Nat → UInt64} {bytes : UInt64}

theorem le_advance : d ≤ advance nGpus budget bytes d := by
  fun_induction advance nGpus budget bytes d with
  | case1 d _ ih => exact Nat.le_of_succ_le ih
  | case2 d _ => exact Nat.le_refl d

theorem fits_advance (h : advance nGpus budget bytes d < nGpus) :
    bytes ≤ budget (advance nGpus budget bytes d) := by
  fun_induction advance nGpus budget bytes d with
  | case1 d _ ih => exact ih h
  | case2 d hnot => exact UInt64.not_lt.mp fun hgt => hnot ⟨h, hgt⟩

theorem advance_le {a : Nat} (hd : d ≤ a) (ha : bytes ≤ budget a) : advance nGpus budget bytes d ≤ a := by
  fun_induction advance nGpus budget bytes d with
  | case1 d hfull ih =>
    apply ih
    have hne : d ≠ a := by
      rintro rfl
      exact absurd hfull.2 (UInt64.not_lt.mpr ha)
    omega
  | case2 d _ => exact hd

theorem advance_done (h : nGpus ≤ d) : advance nGpus budget bytes d = d := by
  rw [advance, if_neg fun hlt => Nat.not_lt.mpr h hlt.1]

theorem placeFrom_done (h : nGpus ≤ d) (entryBytes : List UInt64) :
    placeFrom nGpus d budget entryBytes = (List.replicate entryBytes.length .cpu, budget) := by
  induction entryBytes with
  | nil => rfl
  | cons bytes entryBytes ih =>
    rw [placeFrom, advance_done h, if_neg (Nat.not_lt.mpr h), ih]
    rfl

/-- **The devices come in order**, and then the CPU. -/
theorem placeFrom_ordered (entryBytes : List UInt64) : ∃ (gpus : List Nat) (m : Nat),
    (placeFrom nGpus d budget entryBytes).1 = gpus.map .gpu ++ List.replicate m .cpu ∧
      gpus.length + m = entryBytes.length ∧ gpus.Pairwise (· ≤ ·) ∧ ∀ g ∈ gpus, d ≤ g ∧ g < nGpus := by
  induction entryBytes generalizing d budget with
  | nil => exact ⟨[], 0, rfl, rfl, .nil, fun g hg => absurd hg List.not_mem_nil⟩
  | cons bytes entryBytes ih =>
    rw [placeFrom]
    split_ifs with hlt
    · obtain ⟨gpus, m, hdevices, hlength, hordered, hrange⟩ :=
        @ih (advance nGpus budget bytes d) (Function.update budget _ (budget (advance nGpus budget bytes d) - bytes))
      refine ⟨advance nGpus budget bytes d :: gpus, m, ?_, ?_, ?_, ?_⟩
      · rw [List.map_cons, List.cons_append, ← hdevices]
      · rw [List.length_cons, List.length_cons]
        omega
      · exact List.pairwise_cons.mpr ⟨fun g hg => (hrange g hg).1, hordered⟩
      · rintro g (_ | ⟨_, hg⟩)
        · exact ⟨le_advance, hlt⟩
        · exact ⟨le_advance.trans (hrange g hg).1, (hrange g hg).2⟩
    · refine ⟨[], entryBytes.length + 1, ?_, ?_, .nil, fun g hg => absurd hg List.not_mem_nil⟩
      · rw [placeFrom_done (Nat.not_lt.mp hlt)]
        rfl
      · rw [List.length_nil, List.length_cons, Nat.zero_add]

/-- **Nothing is taken from a budget that it does not have**: what is left and what was placed is the budget. -/
theorem placeFrom_load (entryBytes : List UInt64) (e : Nat) :
    load (.gpu e) (placeFrom nGpus d budget entryBytes).1 entryBytes +
      ((placeFrom nGpus d budget entryBytes).2 e).toNat = (budget e).toNat := by
  induction entryBytes generalizing d budget with
  | nil => exact Nat.zero_add _
  | cons bytes entryBytes ih =>
    rw [placeFrom]
    split_ifs with hlt
    · have hrest := @ih (advance nGpus budget bytes d)
        (Function.update budget (advance nGpus budget bytes d) (budget (advance nGpus budget bytes d) - bytes))
      have hfits := fits_advance hlt
      dsimp only
      rw [load, Nat.add_assoc, hrest]
      by_cases he : advance nGpus budget bytes d = e
      · subst he
        rw [if_pos rfl, Function.update_self, UInt64.toNat_sub_of_le _ _ hfits]
        have hnat := UInt64.le_iff_toNat_le.mp hfits
        omega
      · rw [if_neg (fun heq => he (Device.gpu.inj heq)), Function.update_of_ne (Ne.symm he), Nat.zero_add]
    · dsimp only
      rw [load, if_neg Device.noConfusion, Nat.zero_add]
      exact ih

/-! ## No placement does better -/

theorem load_step {a : Nat} {alternative : List Nat} {entryBytes : List UInt64} {left : Nat → Nat}
    (h : ∀ e, load (.gpu e) ((a :: alternative).map .gpu) (bytes :: entryBytes) ≤ left e) :
    bytes.toNat ≤ left a ∧ ∀ e, load (.gpu e) (alternative.map .gpu) entryBytes ≤
      Function.update left a (left a - bytes.toNat) e := by
  have ha := h a
  rw [List.map_cons, load, if_pos rfl] at ha
  refine ⟨by omega, ?_⟩
  intro e
  by_cases he : e = a
  · subst he
    rw [Function.update_self]
    omega
  · have hother := h e
    rw [List.map_cons, load, if_neg (fun heq => he (Device.gpu.inj heq).symm), Nat.zero_add] at hother
    rw [Function.update_of_ne he]
    exact hother

/-- **The placement stays ahead** of every other one in device order: it has come no further, and has as much room
from there on. -/
theorem placeFrom_ahead (alternative : List Nat) (entryBytes : List UInt64) {a : Nat} {left : Nat → Nat}
    (hd : d ≤ a) (hroom : ∀ e, a ≤ e → left e ≤ (budget e).toNat)
    (hordered : alternative.Pairwise (· ≤ ·)) (hrange : ∀ g ∈ alternative, a ≤ g ∧ g < nGpus)
    (hload : ∀ e, load (.gpu e) (alternative.map .gpu) entryBytes ≤ left e)
    (hlength : alternative.length ≤ entryBytes.length) :
    ∀ i < alternative.length, ∃ g, (placeFrom nGpus d budget entryBytes).1[i]? = some (.gpu g) := by
  induction alternative generalizing d budget a left entryBytes with
  | nil => exact fun i hi => absurd hi (Nat.not_lt_zero i)
  | cons g alternative ih =>
    cases entryBytes with
    | nil => exact absurd hlength (Nat.not_succ_le_zero _)
    | cons bytes entryBytes =>
      obtain ⟨hfits, hrest⟩ := load_step hload
      obtain ⟨hle, hordered⟩ := List.pairwise_cons.mp hordered
      obtain ⟨hg, hlt⟩ := hrange g List.mem_cons_self
      have hbudget : bytes ≤ budget g := UInt64.le_iff_toNat_le.mpr (hfits.trans (hroom g hg))
      have hahead := @advance_le nGpus d budget bytes g (hd.trans hg) hbudget
      have hlast := hahead.trans_lt hlt
      have hkept := fits_advance hlast
      rw [placeFrom, if_pos hlast]
      intro i hi
      cases i with
      | zero => exact ⟨_, rfl⟩
      | succ i =>
        refine ih entryBytes hahead ?_ hordered ?_ hrest (Nat.le_of_succ_le_succ hlength) i
          (Nat.lt_of_succ_lt_succ hi)
        · intro e he
          have hroom_e := hroom e (hg.trans he)
          by_cases hadv : e = advance nGpus budget bytes d
          · -- The other placement is on the same device, and puts the entry there too.
            have heg : e = g := Nat.le_antisymm (hadv ▸ hahead) he
            rw [heg, Function.update_self, ← heg, hadv, Function.update_self, UInt64.toNat_sub_of_le _ _ hkept, ← hadv]
            exact Nat.sub_le_sub_right hroom_e _
          · rw [Function.update_of_ne hadv]
            by_cases heg : e = g
            · rw [heg, Function.update_self, ← heg]
              exact (Nat.sub_le _ _).trans hroom_e
            · rw [Function.update_of_ne heg]
              exact hroom_e
        · intro k hk
          exact ⟨hle k hk, (hrange k (List.mem_cons_of_mem _ hk)).2⟩

/-- **Layers are placed in order, within the budgets, and as many as possible on the devices.** -/
theorem computeLayerPlacement_optimal (entryBytes : List UInt64) (nGpus : Nat) (gpuBudgetBytes : Nat → UInt64)
    (h : nGpus ≤ layerPackMaxGpus) :
    ∃ (gpus : List Nat) (m : Nat) (left : Nat → UInt64), computeLayerPlacement entryBytes nGpus gpuBudgetBytes =
        .ok (gpus.map .gpu ++ List.replicate m .cpu, left) ∧
      gpus.length + m = entryBytes.length ∧ gpus.Pairwise (· ≤ ·) ∧ (∀ g ∈ gpus, g < nGpus) ∧
      (∀ e, load (.gpu e) (gpus.map .gpu ++ List.replicate m .cpu) entryBytes + (left e).toNat =
        (gpuBudgetBytes e).toNat) ∧
      ∀ alternative : List Nat, alternative.length ≤ entryBytes.length → alternative.Pairwise (· ≤ ·) →
        (∀ g ∈ alternative, g < nGpus) →
        (∀ e, load (.gpu e) (alternative.map .gpu) entryBytes ≤ (gpuBudgetBytes e).toNat) →
        alternative.length ≤ gpus.length := by
  obtain ⟨gpus, m, hdevices, hlength, hordered, hrange⟩ := @placeFrom_ordered nGpus 0 gpuBudgetBytes entryBytes
  have hload := @placeFrom_load nGpus 0 gpuBudgetBytes entryBytes
  have hcode : ¬((nGpus : Int) < 0 ∨ (nGpus : Int) > layerPackMaxGpus) := by omega
  refine ⟨gpus, m, (placeFrom nGpus 0 gpuBudgetBytes entryBytes).2, ?_, hlength, hordered,
    fun g hg => (hrange g hg).2, ?_, ?_⟩
  · rw [computeLayerPlacement, if_neg hcode, Int.toNat_natCast, ← hdevices]
  · intro e
    rw [← hdevices]
    exact hload e
  · intro alternative hshort hpairs hgpus hbudgets
    by_contra hmore
    obtain ⟨g, hg⟩ := placeFrom_ahead alternative entryBytes (Nat.le_refl 0) (fun e _ => Nat.le_refl _) hpairs
      (fun g hg => ⟨Nat.zero_le g, hgpus g hg⟩) hbudgets hshort gpus.length (Nat.lt_of_not_le hmore)
    rw [hdevices, List.getElem?_append_right (by rw [List.length_map]), List.length_map, Nat.sub_self,
      List.getElem?_replicate] at hg
    split_ifs at hg
    exact nomatch hg

/-- Three entries, the last of which fits nowhere. -/
theorem computeLayerPlacement_optimal_two : ∃ (gpus : List Nat) (m : Nat) (left : Nat → UInt64),
    computeLayerPlacement [3, 5, 9] 2 (fun _ => 6) = .ok (gpus.map .gpu ++ List.replicate m .cpu, left) ∧
      2 ≤ gpus.length := by
  obtain ⟨gpus, m, left, hdevices, -, -, -, -, hbest⟩ :=
    computeLayerPlacement_optimal [3, 5, 9] 2 (fun _ => 6) (by decide)
  refine ⟨gpus, m, left, hdevices, hbest [0, 1] (by decide) (by decide) (by decide) ?_⟩
  intro e
  rcases e with _ | _ | e <;> simp [load]

end Ds4.Placement
