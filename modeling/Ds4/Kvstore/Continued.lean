import Mathlib.Data.Int.DivMod
import Mathlib.Order.Bounds.Basic
import Mathlib.Data.List.Chain
import Mathlib.Tactic.Ring
import Mathlib.Tactic.Linarith

/-!
# When a frontier is stored

While a session grows, its live prefix is stored again each time the next multiple of a step is reached:
`continuedStoreTarget` waits for the multiple itself, `continuedStoreTargetCrossing` takes the first count at or
past it. Run over any counts, the second stores exactly the first due ones, and on the multiples both agree.
-/

namespace Ds4.Kvstore

/-- What the schedule of a `ds4_kvstore` reads. The last count starts at zero, and only counts of stores that
were made are written to it. -/
structure Continued where
  enabled : Bool
  minTokens : Int
  continuedIntervalTokens : Int
  boundaryAlignTokens : Int
  continuedLastStoreTokens : Int
  last_nonneg : 0 ≤ continuedLastStoreTokens

namespace Continued

/-- `kv_cache_continued_step`. -/
def continuedStep (kc : Continued) : Int :=
  if kc.enabled = false ∨ kc.continuedIntervalTokens ≤ 0 then 0
  else
    let step := kc.continuedIntervalTokens
    let align := kc.boundaryAlignTokens
    if align > 0 then
      let step := (step + align - 1).tdiv align * align
      if step ≤ 0 then align else step
    else step

/-- `ds4_kvstore_continued_store_target`. -/
def continuedStoreTarget (kc : Continued) (liveTokens : Int) : Int :=
  let step := kc.continuedStep
  if step ≤ 0 then 0
  else if liveTokens < kc.minTokens then 0
  else if liveTokens.tmod step ≠ 0 then 0
  else if liveTokens ≤ kc.continuedLastStoreTokens then 0
  else liveTokens

/-- `ds4_kvstore_continued_store_target_crossing`. -/
def continuedStoreTargetCrossing (kc : Continued) (liveTokens : Int) : Int :=
  let step := kc.continuedStep
  if step ≤ 0 then 0
  else if liveTokens < kc.minTokens then 0
  else
    let last := kc.continuedLastStoreTokens
    if liveTokens ≤ last then 0
    else
      let next := (last.tdiv step + 1) * step
      if liveTokens ≥ next then liveTokens else 0

/-- `ds4_kvstore_note_store`. -/
def noteStore (kc : Continued) (tokens : Int) : Continued where
  __ := kc
  continuedLastStoreTokens :=
    if tokens > kc.continuedLastStoreTokens then tokens else kc.continuedLastStoreTokens
  last_nonneg := by
    have h := kc.last_nonneg
    split_ifs <;> omega

/-- The counts that are stored, each noted, and the store behind them. -/
def offer (kc : Continued) : List Int → List Int × Continued
  | [] => ([], kc)
  | liveTokens :: counts =>
    let target := kc.continuedStoreTargetCrossing liveTokens
    if target ≠ 0 then
      let (stored, kc) := offer (kc.noteStore target) counts
      (target :: stored, kc)
    else offer kc counts

/-! ## The multiples of the step -/

variable {kc : Continued}

/-- The next multiple of the step. -/
def next (kc : Continued) : Int := (kc.continuedLastStoreTokens / kc.continuedStep + 1) * kc.continuedStep

theorem next_isLeast (h : 0 < kc.continuedStep) :
    IsLeast {m | kc.continuedStep ∣ m ∧ kc.continuedLastStoreTokens < m} kc.next := by
  have hmod := Int.emod_lt_of_pos kc.continuedLastStoreTokens h
  have hdiv := Int.mul_ediv_add_emod kc.continuedLastStoreTokens kc.continuedStep
  have hnext : kc.next = kc.continuedStep * (kc.continuedLastStoreTokens / kc.continuedStep) + kc.continuedStep := by
    rw [next]
    ring
  constructor
  · refine ⟨Dvd.intro_left _ rfl, ?_⟩
    omega
  · rintro m ⟨⟨k, rfl⟩, hlt⟩
    have hq : kc.continuedLastStoreTokens / kc.continuedStep < k := Int.ediv_lt_of_lt_mul h (by rwa [Int.mul_comm])
    have hmul : kc.continuedStep * (kc.continuedLastStoreTokens / kc.continuedStep + 1) ≤ kc.continuedStep * k :=
      Int.mul_le_mul_of_nonneg_left hq h.le
    rw [hnext]
    rwa [Int.mul_add, Int.mul_one] at hmul

/-- A count is due that is long enough and has come to the next multiple. -/
def Due (kc : Continued) (liveTokens : Int) : Prop := kc.minTokens ≤ liveTokens ∧ kc.next ≤ liveTokens

instance (liveTokens : Int) : Decidable (kc.Due liveTokens) := by unfold Due; infer_instance

theorem last_lt_of_due (h : 0 < kc.continuedStep) {liveTokens : Int} (hdue : kc.Due liveTokens) :
    kc.continuedLastStoreTokens < liveTokens :=
  (next_isLeast h).1.2.trans_le hdue.2

/-- **A count that is due is stored**, and no other. -/
theorem crossing_eq (h : 0 < kc.continuedStep) (liveTokens : Int) :
    kc.continuedStoreTargetCrossing liveTokens = if kc.Due liveTokens then liveTokens else 0 := by
  have hnext : (kc.continuedLastStoreTokens.tdiv kc.continuedStep + 1) * kc.continuedStep = kc.next := by
    rw [next, Int.tdiv_eq_ediv_of_nonneg kc.last_nonneg]
  rw [continuedStoreTargetCrossing, if_neg (not_le.mpr h)]
  dsimp only
  rw [hnext]
  by_cases hmin : liveTokens < kc.minTokens
  · rw [if_pos hmin, if_neg fun hdue => absurd hdue.1 (not_le.mpr hmin)]
  · rw [if_neg hmin]
    by_cases hlast : liveTokens ≤ kc.continuedLastStoreTokens
    · rw [if_pos hlast, if_neg fun hdue => absurd (last_lt_of_due h hdue) (not_lt.mpr hlast)]
    · rw [if_neg hlast]
      exact if_congr ⟨fun hge => ⟨not_lt.mp hmin, hge⟩, fun hdue => hdue.2⟩ rfl rfl

theorem crossing_ne_zero (h : 0 < kc.continuedStep) {liveTokens : Int} (hdue : kc.Due liveTokens) :
    kc.continuedStoreTargetCrossing liveTokens = liveTokens ∧ liveTokens ≠ 0 := by
  rw [crossing_eq h, if_pos hdue]
  have hlast := last_lt_of_due h hdue
  have hnonneg := kc.last_nonneg
  exact ⟨rfl, by omega⟩

/-- **On the multiples of the step both schedules agree.** -/
theorem crossing_eq_target (liveTokens : Int) (hdvd : kc.continuedStep ∣ liveTokens) :
    kc.continuedStoreTargetCrossing liveTokens = kc.continuedStoreTarget liveTokens := by
  by_cases h : 0 < kc.continuedStep
  swap
  · rw [continuedStoreTargetCrossing, continuedStoreTarget, if_pos (not_lt.mp h), if_pos (not_lt.mp h)]
  rw [crossing_eq h, continuedStoreTarget, if_neg (not_le.mpr h)]
  by_cases hmin : liveTokens < kc.minTokens
  · rw [if_pos hmin, if_neg fun hdue => absurd hdue.1 (not_le.mpr hmin)]
  · rw [if_neg hmin, if_neg (not_not.mpr (Int.tmod_eq_zero_of_dvd hdvd))]
    by_cases hlast : liveTokens ≤ kc.continuedLastStoreTokens
    · rw [if_pos hlast, if_neg fun hdue => absurd (last_lt_of_due h hdue) (not_lt.mpr hlast)]
    · rw [if_neg hlast, if_pos ⟨not_lt.mp hmin, (next_isLeast h).2 ⟨hdvd, not_le.mp hlast⟩⟩]

/-! ## Runs -/

@[simp] theorem noteStore_step (kc : Continued) (tokens : Int) :
    (kc.noteStore tokens).continuedStep = kc.continuedStep := rfl

theorem noteStore_last {tokens : Int} (h : kc.continuedLastStoreTokens < tokens) :
    (kc.noteStore tokens).continuedLastStoreTokens = tokens := if_pos h

theorem offer_append (kc : Continued) (before after : List Int) : kc.offer (before ++ after) =
    ((kc.offer before).1 ++ ((kc.offer before).2.offer after).1, ((kc.offer before).2.offer after).2) := by
  induction before generalizing kc with
  | nil => rfl
  | cons liveTokens before ih =>
    rw [List.cons_append, offer, offer]
    split_ifs
    · rw [ih]
      rfl
    · exact ih kc

/-- What holds of a run: the step stays, the last count is that of the last store, and each store comes with a
multiple of the step behind the one before. -/
structure Stores (kc : Continued) (stored : List Int) (kc' : Continued) : Prop where
  step : kc'.continuedStep = kc.continuedStep
  minTokens : kc'.minTokens = kc.minTokens
  last : kc'.continuedLastStoreTokens = stored.getLastD kc.continuedLastStoreTokens
  multiples : (kc.continuedLastStoreTokens :: stored).IsChain
    fun a b => ∃ m, kc.continuedStep ∣ m ∧ a < m ∧ m ≤ b

theorem offer_stores (h : 0 < kc.continuedStep) (counts : List Int) :
    Stores kc (kc.offer counts).1 (kc.offer counts).2 := by
  induction counts generalizing kc with
  | nil => exact ⟨rfl, rfl, rfl, .singleton _⟩
  | cons liveTokens counts ih =>
    rw [offer]
    by_cases hdue : kc.Due liveTokens
    · obtain ⟨htarget, hne⟩ := crossing_ne_zero h hdue
      have hlast := noteStore_last (last_lt_of_due h hdue)
      obtain ⟨hstep, hmin, hend, hmultiples⟩ := @ih (kc.noteStore liveTokens) h
      rw [htarget, if_pos hne]
      rw [hlast] at hend hmultiples
      refine ⟨hstep, hmin, ?_, ?_⟩
      · rw [List.getLastD_cons]
        exact hend
      · refine .cons_cons ⟨kc.next, (next_isLeast h).1.1, (next_isLeast h).1.2, hdue.2⟩ hmultiples
    · rw [crossing_eq h, if_neg hdue, if_neg (not_not.mpr rfl)]
      exact ih h

/-- **The schedule of continued stores.** Whatever counts are offered, a count is stored if and only if it is due:
long enough, and at or past the smallest multiple of the step above the last stored count. The stored counts
increase, with a multiple of the step between any two; and on the multiples the other schedule stores the same. -/
theorem continuedStore_schedule (kc : Continued) (h : 0 < kc.continuedStep) :
    (∀ before liveTokens, ∃ next,
      IsLeast {m | kc.continuedStep ∣ m ∧ (kc.offer before).1.getLastD kc.continuedLastStoreTokens < m} next ∧
      (kc.offer (before ++ [liveTokens])).1 =
        (kc.offer before).1 ++ if kc.minTokens ≤ liveTokens ∧ next ≤ liveTokens then [liveTokens] else []) ∧
    (∀ counts, (kc.continuedLastStoreTokens :: (kc.offer counts).1).Pairwise (· < ·)) ∧
    (∀ counts, (kc.continuedLastStoreTokens :: (kc.offer counts).1).IsChain
      fun a b => ∃ m, kc.continuedStep ∣ m ∧ a < m ∧ m ≤ b) ∧
    ∀ liveTokens, kc.continuedStep ∣ liveTokens →
      kc.continuedStoreTargetCrossing liveTokens = kc.continuedStoreTarget liveTokens := by
  refine ⟨?_, ?_, fun counts => (offer_stores h counts).multiples, fun _ => crossing_eq_target _⟩
  · intro before liveTokens
    obtain ⟨hstep, hmin, hlast, -⟩ := offer_stores h before
    have hstep' : 0 < (kc.offer before).2.continuedStep := hstep ▸ h
    refine ⟨(kc.offer before).2.next, ?_, ?_⟩
    · rw [← hlast, ← hstep]
      exact next_isLeast hstep'
    · rw [offer_append, ← hmin]
      dsimp only
      rw [offer]
      by_cases hdue : (kc.offer before).2.Due liveTokens
      · obtain ⟨htarget, hne⟩ := crossing_ne_zero hstep' hdue
        rw [htarget, if_pos hne, if_pos ⟨hdue.1, hdue.2⟩]
        rfl
      · rw [crossing_eq hstep', if_neg hdue, if_neg (not_not.mpr rfl), if_neg fun hd => hdue ⟨hd.1, hd.2⟩]
        rfl
  · intro counts
    apply List.IsChain.pairwise
    refine (offer_stores h counts).multiples.imp ?_
    rintro a b ⟨m, -, ham, hmb⟩
    exact ham.trans_le hmb

/-- A step of ten tokens. -/
def tenTokens : Continued where
  enabled := true
  minTokens := 5
  continuedIntervalTokens := 10
  boundaryAlignTokens := 0
  continuedLastStoreTokens := 0
  last_nonneg := by decide

/-- A count past a multiple is stored, and the next one waits for the multiple behind it. -/
theorem continuedStore_schedule_ten : (tenTokens.offer [4, 12, 15, 20]).1 = [12, 20] ∧
    ([0, 12, 20] : List Int).Pairwise (· < ·) := by
  have hstored : (tenTokens.offer [4, 12, 15, 20]).1 = [12, 20] := by decide
  have hpairs := (continuedStore_schedule tenTokens (by decide)).2.1 [4, 12, 15, 20]
  rw [hstored] at hpairs
  exact ⟨hstored, hpairs⟩

end Continued

end Ds4.Kvstore
