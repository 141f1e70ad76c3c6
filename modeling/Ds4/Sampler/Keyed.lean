import Ds4.Lib.Best
import Ds4.Sampler.Build
import Mathlib.Analysis.SpecialFunctions.Log.Basic
import Mathlib.Analysis.SpecialFunctions.Exp
import Mathlib.Analysis.Complex.ExponentialBounds

/-!
# The keyed draw

`sample_keyed` draws without a state: the token is the largest of logit over temperature plus a Gumbel
term hashed from the seed, the position and the id. A bound on the Gumbel term spares most logarithms.
`ds41_keyed_finish` takes the same draw from a row of candidates. Logarithms are exact.
-/

namespace Ds4.Sampler

open Ds4.Lib

/-! ## The source -/

/-- `sample_key`. -/
structure SampleKey where
  temperature : ℝ
  topK : Int
  topP : ℝ
  minP : ℝ
  seed : UInt64

/-- `sample_key_mix`. -/
def sampleKeyMix (x : UInt64) : UInt64 :=
  let x := x ^^^ x >>> 30
  let x := x * 0xbf58476d1ce4e5b9
  let x := x ^^^ x >>> 27
  let x := x * 0x94d049bb133111eb
  x ^^^ x >>> 31

/-- The key of a position. -/
def positionKey (seed : UInt64) (pos : UInt32) : UInt64 :=
  sampleKeyMix (seed ^^^ sampleKeyMix (pos.toUInt64 + 1))

/-- The hash of an id under a key. -/
def idHash (key : UInt64) (i : Nat) : UInt64 :=
  sampleKeyMix (key + UInt64.ofNat i * 0x9e3779b97f4a7c15)

/-- The uniform number of a hash, between zero and one. -/
noncomputable def hashUniform (h : UInt64) : ℝ := ((h >>> 11).toNat + 1 / 2) * (1 / 2 ^ 53)

/-- `sample_keyed_full_score`. -/
noncomputable def sampleKeyedFullScore (logit temperature : ℝ) (h : UInt64) : ℝ :=
  logit / temperature - Real.log (-Real.log (hashUniform h))

/-- `__builtin_clzll` of a nonzero word. -/
def clzll (y : UInt64) : Nat := 63 - y.toNat.log2

/-- The best draw of a scan, none for a negative `best`, and the bar that a bound must reach. -/
structure KeyedBest where
  best : Option Nat
  bestV : ℝ
  bar : ℝ

/-- A draw beats the best one, or equals it at a smaller id. -/
def KeyedBest.Beats (s : KeyedBest) (i : Nat) (v : ℝ) : Prop :=
  s.best = none ∨ s.bestV < v ∨ v = s.bestV ∧ ∃ b, s.best = some b ∧ i < b

local instance atLeastTwoTen : Nat.AtLeastTwo 10 := ⟨by decide⟩

open Classical in
/-- The draw of an id, taken when it beats the best one. -/
noncomputable def KeyedBest.take (s : KeyedBest) (i : Nat) (v : ℝ) : KeyedBest :=
  if s.Beats i v then ⟨some i, v, v - 1 / 10 ^ 6 - 1 / 10 ^ 9 * |v|⟩ else s

/-- The part of a draw that does not depend on the seed, none for an id that is passed over: logit over
temperature at the full distribution, the logarithm of the probability otherwise. -/
noncomputable def keyedBase (full : Bool) (logits : List (Logit ℝ)) (temperature : ℝ) (probs : Nat → ℝ)
    (i : Nat) : Option ℝ :=
  if full then (logits[i]?.bind Logit.value?).map (· / temperature)
  else if 0 < probs i then some (Real.log (probs i)) else none

/-- The bound: logarithms are skipped when even the largest Gumbel term stays below the bar. -/
def keyedSkips (s : KeyedBest) (base : ℝ) (h : UInt64) : Prop :=
  let y := (1 : UInt64) <<< (53 : UInt64) - (1 : UInt64) - h >>> (11 : UInt64)
  s.best ≠ none ∧ y ≠ 0 ∧ base + ((clzll y : ℝ) - 10) * 0.6931471805599453 < s.bar

open Classical in
/-- One row of the scan. The scan of the source is the one with `skip`. -/
noncomputable def keyedStep (skip full : Bool) (base : Nat → Option ℝ) (key : UInt64) (s : KeyedBest)
    (i : Nat) : KeyedBest :=
  match base i with
  | none => s
  | some b =>
    if skip = true ∧ full = true ∧ keyedSkips s b (idHash key i) then s
    else s.take i (b - Real.log (-Real.log (hashUniform (idHash key i))))

/-- The rows in the order of the scan. -/
def keyedRows (first n : Nat) : List Nat := first :: (List.range n).filter fun i => i ≠ first

/-- `k` asks for the full distribution. -/
def SampleKey.Full (k : SampleKey) : Prop := k.topK ≤ 0 ∧ (k.topP ≤ 0 ∨ 1 ≤ k.topP) ∧ k.minP ≤ 0

/-- The scan: at the full distribution the argmax row draws first. -/
noncomputable def keyedScan (skip full : Bool) (logits : List (Logit ℝ)) (temperature : ℝ)
    (probs : Nat → ℝ) (key : UInt64) : Option Nat :=
  let first := if full then sampleArgmax logits else 0
  ((keyedRows first logits.length).foldl
    (keyedStep skip full (keyedBase full logits temperature probs) key) ⟨none, 0, 0⟩).best

open Classical in
/-- `sample_keyed`, with or without the skip. -/
noncomputable def sampleKeyedWith (skip fullProbs : Bool) (logits : List (Logit ℝ)) (k : SampleKey)
    (pos : UInt32) : Nat :=
  let key := positionKey k.seed pos
  if k.temperature ≤ 0 then sampleArgmax logits
  else if k.Full then
    (keyedScan skip true logits k.temperature (fun _ => 0) key).getD (sampleArgmax logits)
  else
    match sampleBuildProbabilities Real.exp fullProbs logits k.temperature k.topK k.topP k.minP with
    | none => sampleArgmax logits
    | some probs => (keyedScan skip false logits k.temperature probs key).getD (sampleArgmax logits)

/-- `sample_keyed`. -/
noncomputable def sampleKeyed := sampleKeyedWith true

/-- `kg_gpu_row`. -/
structure KgGpuRow where
  n : UInt32
  finite : UInt32
  id : Fin 64 → UInt32

/-- The ids of a row of at most 64. -/
def KgGpuRow.ids (r : KgGpuRow) : List Nat := ((List.ofFn r.id).take r.n.toNat).map UInt32.toNat

/-- What `ds41_kg_finish` returns: 0 with a token, 1 or 2. -/
inductive KgResult
  | decided (token : Nat)
  | overflow
  | invalid
  deriving DecidableEq

/-- The loop of `ds41_kg_finish`, none for a candidate that is not valid. -/
noncomputable def kgLoop (lg : List (Logit ℝ)) (temperature : ℝ) (key : UInt64) :
    List Nat → KeyedBest → Option KeyedBest
  | [], s => some s
  | i :: rest, s =>
    match lg[i]?.bind Logit.value? with
    | none => none
    | some x => kgLoop lg temperature key rest
        (s.take i (sampleKeyedFullScore x temperature (idHash key i)))

/-- `ds41_kg_finish`; `DS4_N_VOCAB` is the length of the row of logits. -/
noncomputable def ds41KgFinish (r : Option KgGpuRow) (lg : List (Logit ℝ)) (temperature : ℝ)
    (key : UInt64) : KgResult :=
  match r with
  | none => .invalid
  | some r =>
    if lg.length < r.finite.toNat then .invalid
    else if r.finite = 0 then .decided (sampleArgmax lg)
    else if r.n = 0 then .invalid
    else if 64 < r.n then .overflow
    else
      match kgLoop lg temperature key r.ids ⟨none, 0, 0⟩ with
      | some ⟨some token, _, _⟩ => .decided token
      | _ => .invalid

/-- `ds41_keyed_finish`. -/
noncomputable def ds41KeyedFinish (r : Option KgGpuRow) (lg : List (Logit ℝ)) (k : SampleKey)
    (pos : UInt32) : KgResult :=
  ds41KgFinish r lg k.temperature (positionKey k.seed pos)

/-- What `ds41_pq_residual_finish` returns: 0 with a token, 1, 2 or 3. -/
inductive PqResult
  | decided (token : Nat)
  | overflow
  | invalid
  | noMass
  deriving DecidableEq

/-- The loop of `ds41_pq_residual_finish`, none for a candidate that is not valid. -/
noncomputable def pqLoop (n : Nat) (P Q : Nat → ℝ) (key : UInt64) :
    List Nat → KeyedBest → Option KeyedBest
  | [], s => some s
  | i :: rest, s =>
    if n ≤ i ∨ P i - Q i ≤ 0 then none
    else pqLoop n P Q key rest
      (s.take i (Real.log (P i - Q i) - Real.log (-Real.log (hashUniform (idHash key i)))))

/-- `ds41_pq_residual_finish`; `n` is `DS4_N_VOCAB`. -/
noncomputable def ds41PqResidualFinish (r : Option KgGpuRow) (n : Nat) (P Q : Nat → ℝ) (key : UInt64) :
    PqResult :=
  match r with
  | none => .invalid
  | some r =>
    if n < r.finite.toNat then .invalid
    else if r.finite = 0 then .noMass
    else if r.n = 0 then .invalid
    else if 64 < r.n then .overflow
    else
      match pqLoop n P Q key r.ids ⟨none, 0, 0⟩ with
      | some ⟨some token, _, _⟩ => .decided token
      | _ => .invalid

/-! ## The bound -/

section Bound

variable (h : UInt64)

theorem shift_lt : (h >>> 11).toNat < 2 ^ 53 := by
  have hlt := h.toNat_lt
  have hshift : (h >>> 11).toNat = h.toNat / 2 ^ 11 := by
    rw [UInt64.toNat_shiftRight, Nat.shiftRight_eq_div_pow]
    rfl
  omega

theorem hashUniform_pos : 0 < hashUniform h := by
  unfold hashUniform
  positivity

theorem one_sub_hashUniform {y : Nat} (hy : y + (h >>> 11).toNat = 2 ^ 53 - 1) :
    1 - hashUniform h = (y + 1 / 2) / 2 ^ 53 := by
  have hcast : (y : ℝ) + ((h >>> 11).toNat : ℝ) = 2 ^ 53 - 1 := by
    have := congrArg (Nat.cast (R := ℝ)) hy
    push_cast at this
    linarith
  rw [hashUniform]
  linear_combination -(1 / 2 ^ 53) * hcast

/-- **The bound on the Gumbel term.** -/
theorem gumbel_le {y : Nat} (hy : y + (h >>> 11).toNat = 2 ^ 53 - 1) (hne : y ≠ 0) :
    -Real.log (-Real.log (hashUniform h)) ≤ (53 - (y.log2 : ℝ)) * Real.log 2 := by
  have hlog : (2 : ℝ) ^ y.log2 / 2 ^ 53 ≤ -Real.log (hashUniform h) := by
    have hone := Real.log_le_sub_one_of_pos (hashUniform_pos h)
    have hpow : (2 : ℝ) ^ y.log2 ≤ y := by
      exact_mod_cast Nat.log2_self_le hne
    have hsub := one_sub_hashUniform h hy
    calc (2 : ℝ) ^ y.log2 / 2 ^ 53 ≤ (y + 1 / 2) / 2 ^ 53 := by gcongr; linarith
      _ = 1 - hashUniform h := hsub.symm
      _ ≤ -Real.log (hashUniform h) := by linarith
  have hle := Real.log_le_log (by positivity) hlog
  rw [Real.log_div (by positivity) (by positivity), Real.log_pow, Real.log_pow] at hle
  push_cast at hle
  linarith

/-- The word of the source whose leading zeros give the bound. -/
theorem bound_word :
    ((1 : UInt64) <<< (53 : UInt64) - (1 : UInt64) - h >>> (11 : UInt64)).toNat +
      (h >>> 11).toNat = 2 ^ 53 - 1 := by
  have hlt := shift_lt h
  have hones : ((1 : UInt64) <<< (53 : UInt64) - (1 : UInt64)).toNat = 2 ^ 53 - 1 := by decide
  have hle : h >>> 11 ≤ (1 : UInt64) <<< (53 : UInt64) - (1 : UInt64) := by
    rw [UInt64.le_iff_toNat_le, hones]
    omega
  rw [UInt64.toNat_sub_of_le _ _ hle, hones]
  omega

theorem lt_of_keyedSkips {s : KeyedBest} {base : ℝ}
    (hbar : s.bar = s.bestV - 1 / 10 ^ 6 - 1 / 10 ^ 9 * |s.bestV|) (hskip : keyedSkips s base h) :
    base - Real.log (-Real.log (hashUniform h)) < s.bestV := by
  obtain ⟨-, hy, hlow⟩ := hskip
  have hsum := bound_word h
  generalize (1 : UInt64) <<< (53 : UInt64) - (1 : UInt64) - h >>> (11 : UInt64) = y at hy hlow hsum
  have hne : y.toNat ≠ 0 := fun h0 => hy (UInt64.toNat_inj.mp h0)
  have hlog2 : y.toNat.log2 < 53 := (Nat.log2_lt hne).mpr (by omega)
  have hbound := gumbel_le h hsum hne
  have hclz : (clzll y : ℝ) - 10 = 53 - (y.toNat.log2 : ℝ) := by
    rw [clzll, Nat.cast_sub (by omega)]
    push_cast
    ring
  rw [hclz, hbar] at hlow
  have hpos : (0 : ℝ) ≤ 53 - (y.toNat.log2 : ℝ) := by
    have : (y.toNat.log2 : ℝ) < 53 := by exact_mod_cast hlog2
    linarith
  have hle : 53 - (y.toNat.log2 : ℝ) ≤ 53 := by
    have : (0 : ℝ) ≤ (y.toNat.log2 : ℝ) := Nat.cast_nonneg _
    linarith
  -- the constant of the source is short of `log 2` by less than the slack of the bar
  have hln2 : Real.log 2 - 0.6931471805599453 < 1 / 10 ^ 9 := by
    have := Real.log_two_lt_d9
    norm_num at this ⊢
    linarith
  have hslack : (53 - (y.toNat.log2 : ℝ)) * (Real.log 2 - 0.6931471805599453) ≤ 53 * (1 / 10 ^ 9) := by
    nlinarith
  have habs := abs_nonneg s.bestV
  norm_num at hslack hlow
  nlinarith

end Bound

/-! ## The scan -/

section Scan

variable {base : Nat → Option ℝ} {key : UInt64}

/-- The draw of an id. -/
noncomputable def drawOf (base : Nat → Option ℝ) (key : UInt64) (i : Nat) : ℝ :=
  (base i).getD 0 - Real.log (-Real.log (hashUniform (idHash key i)))

/-- The order of the draws: the smaller id first among equal ones. -/
noncomputable def drawKey (base : Nat → Option ℝ) (key : UInt64) (i : Nat) : ℝ ×ₗ Natᵒᵈ :=
  toLex (drawOf base key i, OrderDual.toDual i)

/-- The state of a scan whose best id is known. -/
structure Tracks (base : Nat → Option ℝ) (key : UInt64) (s : KeyedBest) (best : Option Nat) : Prop where
  holds : s.best = best
  value : ∀ b, best = some b → s.bestV = drawOf base key b
  bar : s.best ≠ none → s.bar = s.bestV - 1 / 10 ^ 6 - 1 / 10 ^ 9 * |s.bestV|

theorem drawKey_lt {i b : Nat} : drawKey base key b < drawKey base key i ↔
    drawOf base key b < drawOf base key i ∨ drawOf base key i = drawOf base key b ∧ i < b := by
  rw [drawKey, drawKey, Prod.Lex.toLex_lt_toLex]
  exact or_congr Iff.rfl (and_congr eq_comm OrderDual.toDual_lt_toDual)

theorem drawKey_injective : Function.Injective (drawKey base key) := by
  intro i j h
  have hpair := toLex.injective h
  exact OrderDual.toDual.injective (Prod.ext_iff.mp hpair).2

theorem Tracks.take {s : KeyedBest} {best : Option Nat} (h : Tracks base key s best) {i : Nat}
    (hi : (base i).isSome = true) :
    Tracks base key (s.take i (drawOf base key i))
      (bestStep (fun i => (base i).isSome = true) (drawKey base key) best i) := by
  have htaken : Tracks base key ⟨some i, drawOf base key i, drawOf base key i - 1 / 10 ^ 6 -
      1 / 10 ^ 9 * |drawOf base key i|⟩ (some i) :=
    ⟨rfl, fun b hb => by rw [Option.some.inj hb], fun _ => rfl⟩
  cases best with
  | none =>
    have hbeats : s.Beats i (drawOf base key i) := Or.inl h.holds
    rw [KeyedBest.take, if_pos hbeats, bestStep, if_pos hi]
    exact htaken
  | some b =>
    have hbeats : s.Beats i (drawOf base key i) ↔ drawKey base key b < drawKey base key i := by
      rw [drawKey_lt, KeyedBest.Beats, h.holds, h.value b rfl]
      simp
    rw [KeyedBest.take, bestStep]
    by_cases hlt : drawKey base key b < drawKey base key i
    · rw [if_pos (hbeats.mpr hlt), if_neg hlt.not_ge, if_pos hi]
      exact htaken
    · rw [if_neg (hbeats.not.mpr hlt), if_pos (not_lt.mp hlt)]
      exact h

/-- **One row of the scan**, skipped or not, leaves the best draw. -/
theorem Tracks.step {s : KeyedBest} {best : Option Nat} (h : Tracks base key s best)
    (skip full : Bool) (i : Nat) :
    Tracks base key (keyedStep skip full base key s i)
      (bestStep (fun i => (base i).isSome = true) (drawKey base key) best i) := by
  rw [keyedStep]
  cases hbase : base i with
  | none =>
    rw [bestStep_of_not (by simp [hbase])]
    exact h
  | some b =>
    have hdraw : drawOf base key i = b - Real.log (-Real.log (hashUniform (idHash key i))) := by
      rw [drawOf, hbase, Option.getD_some]
    simp only
    rw [← hdraw]
    split_ifs with hskip
    · obtain ⟨-, -, hskip⟩ := hskip
      have hlow := lt_of_keyedSkips (idHash key i) (h.bar hskip.1) hskip
      cases best with
      | none => exact absurd h.holds hskip.1
      | some c =>
        rw [← hdraw, h.value c rfl] at hlow
        rw [bestStep, if_pos (drawKey_lt.2 (Or.inl hlow)).le]
        exact h
    · exact h.take (by rw [hbase]; rfl)

theorem Tracks.rows (skip full : Bool) (rows : List Nat) {s : KeyedBest} {best : Option Nat}
    (h : Tracks base key s best) :
    Tracks base key (rows.foldl (keyedStep skip full base key) s)
      (rows.foldl (bestStep (fun i => (base i).isSome = true) (drawKey base key)) best) := by
  induction rows generalizing s best with
  | nil => exact h
  | cons i rows ih => exact ih (h.step skip full i)

theorem tracks_start : Tracks base key ⟨none, 0, 0⟩ none :=
  ⟨rfl, fun _ hb => (Option.some_ne_none _ hb.symm).elim, fun h => absurd rfl h⟩

theorem mem_keyedRows {first n i : Nat} : i ∈ keyedRows first n ↔ i = first ∨ i < n := by
  rw [keyedRows, List.mem_cons, List.mem_filter, List.mem_range]
  by_cases h : i = first
  · simp [h]
  · simp [h]

end Scan

/-! ## The draw -/

section Draw

variable {logits : List (Logit ℝ)} {temperature : ℝ} {key : UInt64}

/-- The number that the draw of an id compares: logit over temperature plus its Gumbel term. -/
noncomputable def keyedScore (temperature : ℝ) (key : UInt64) (e : Nat × ℝ) : ℝ :=
  e.2 / temperature - Real.log (-Real.log (hashUniform (idHash key e.1)))

/-- The keyed draw: the smallest id among the finite ones of the largest score. -/
def IsKeyedDraw (logits : List (Logit ℝ)) (temperature : ℝ) (key : UInt64) (id : Nat) : Prop :=
  ∃ x, logits[id]? = some (.fin x) ∧ ∀ j y, logits[j]? = some (.fin y) →
    keyedScore temperature key (j, y) < keyedScore temperature key (id, x) ∨
      keyedScore temperature key (j, y) = keyedScore temperature key (id, x) ∧ id ≤ j

theorem bind_value_eq_some {x : ℝ} {i : Nat} :
    logits[i]?.bind Logit.value? = some x ↔ logits[i]? = some (.fin x) := by
  rw [Option.bind_eq_some_iff]
  constructor
  · rintro ⟨l, hl, hx⟩
    cases l with
    | fin y => exact hl.trans (congrArg some (congrArg Logit.fin (Option.some.inj hx)))
    | nan | posInf | negInf => cases hx
  · exact fun h => ⟨_, h, rfl⟩

variable {probs : Nat → ℝ}

theorem keyedBase_eq {i : Nat} {x : ℝ} (h : logits[i]? = some (Logit.fin x)) :
    keyedBase true logits temperature probs i = some (x / temperature) := by
  rw [keyedBase, if_pos rfl, bind_value_eq_some.2 h]
  rfl

theorem drawOf_keyedBase {i : Nat} {x : ℝ} (h : logits[i]? = some (Logit.fin x)) :
    drawOf (keyedBase true logits temperature probs) key i = keyedScore temperature key (i, x) := by
  rw [drawOf, keyedBase_eq h, Option.getD_some, keyedScore]

theorem isSome_keyedBase {i : Nat} :
    (keyedBase true logits temperature probs i).isSome = true ↔ ∃ x, logits[i]? = some (.fin x) := by
  rw [keyedBase, if_pos rfl, Option.isSome_map, Option.isSome_iff_exists]
  exact exists_congr fun x => bind_value_eq_some

theorem isKeyedDraw_of_isBest {rows : List Nat} {id : Nat}
    (h : IsBest (fun i => (keyedBase true logits temperature probs i).isSome = true)
      (drawKey (keyedBase true logits temperature probs) key) rows (some id))
    (hrows : ∀ j y, logits[j]? = some (.fin y) → j ∈ rows) : IsKeyedDraw logits temperature key id := by
  obtain ⟨x, hx⟩ := isSome_keyedBase.1 (h.sound id rfl).2
  refine ⟨x, hx, fun j y hy => ?_⟩
  obtain ⟨b, hb, hle⟩ := h.max j (hrows j y hy) (isSome_keyedBase.2 ⟨y, hy⟩)
  obtain rfl := Option.some.inj hb
  rw [drawKey, drawKey, Prod.Lex.toLex_le_toLex, drawOf_keyedBase hx, drawOf_keyedBase hy] at hle
  exact hle

/-- **There is one keyed draw at most.** -/
theorem IsKeyedDraw.unique {i j : Nat} (hi : IsKeyedDraw logits temperature key i)
    (hj : IsKeyedDraw logits temperature key j) : i = j := by
  obtain ⟨x, hx, hxmax⟩ := hi
  obtain ⟨y, hy, hymax⟩ := hj
  rcases hxmax j y hy with hlt | ⟨heq, hle⟩
  · rcases hymax i x hx with hlt' | ⟨heq', -⟩
    · exact absurd hlt' hlt.not_gt
    · exact absurd heq' hlt.ne'
  · rcases hymax i x hx with hlt' | ⟨-, hle'⟩
    · exact absurd heq hlt'.ne'
    · exact le_antisymm hle hle'

variable {k : SampleKey} {pos : UInt32} {fullProbs : Bool}

theorem keyedScan_eq (skip full : Bool) :
    keyedScan skip full logits temperature probs key =
      (keyedRows (if full then sampleArgmax logits else 0) logits.length).foldl
        (bestStep (fun i => (keyedBase full logits temperature probs i).isSome = true)
          (drawKey (keyedBase full logits temperature probs) key)) none :=
  (Tracks.rows skip full _ tracks_start).holds

/-- **The skip does not change the draw.** -/
theorem sampleKeyedWith_skip (skip skip' : Bool) :
    sampleKeyedWith skip fullProbs logits k pos = sampleKeyedWith skip' fullProbs logits k pos := by
  unfold sampleKeyedWith
  simp only [keyedScan_eq]

theorem sampleKeyed_full (hfull : k.Full) (ht : 0 < k.temperature) :
    ∃ best, IsBest (fun i => (keyedBase true logits k.temperature (fun _ => 0) i).isSome = true)
        (drawKey (keyedBase true logits k.temperature fun _ => 0) (positionKey k.seed pos))
        (keyedRows (sampleArgmax logits) logits.length) best ∧
      sampleKeyed fullProbs logits k pos = best.getD (sampleArgmax logits) := by
  refine ⟨_, foldl_bestStep _ _ _, ?_⟩
  unfold sampleKeyed sampleKeyedWith
  simp only
  rw [if_neg ht.not_ge, if_pos hfull, keyedScan_eq]
  rfl

theorem mem_rows {first j : Nat} {y : ℝ} (h : logits[j]? = some (Logit.fin y)) :
    j ∈ keyedRows first logits.length := by
  obtain ⟨hlt, -⟩ := List.getElem?_eq_some_iff.mp h
  exact mem_keyedRows.2 (Or.inr hlt)

theorem sampleKeyed_isKeyedDraw (hfull : k.Full) (ht : 0 < k.temperature)
    (hfinite : ∃ (i : Nat) (x : ℝ), logits[i]? = some (Logit.fin x)) :
    IsKeyedDraw logits k.temperature (positionKey k.seed pos) (sampleKeyed fullProbs logits k pos) := by
  obtain ⟨best, hbest, heq⟩ := @sampleKeyed_full logits k pos fullProbs hfull ht
  obtain ⟨i, x, hx⟩ := hfinite
  obtain ⟨b, rfl, -⟩ := hbest.max i (mem_rows hx) (isSome_keyedBase.2 ⟨x, hx⟩)
  rw [heq]
  exact isKeyedDraw_of_isBest hbest fun j y hy => mem_rows hy

theorem sampleKeyed_not_finite (hfull : k.Full) (ht : 0 < k.temperature)
    (hnone : ∀ (i : Nat) (x : ℝ), logits[i]? ≠ some (Logit.fin x)) :
    sampleKeyed fullProbs logits k pos = sampleArgmax logits := by
  obtain ⟨best, hbest, heq⟩ := @sampleKeyed_full logits k pos fullProbs hfull ht
  have hbestNone : best = none := hbest.eq_none_iff.mpr fun i _ hi => by
    obtain ⟨x, hx⟩ := isSome_keyedBase.1 hi
    exact hnone i x hx
  rw [heq, hbestNone]
  rfl

/-! ## The candidates row -/

theorem kgLoop_tracks {ids : List Nat} (hids : ∀ i ∈ ids, ∃ x, logits[i]? = some (Logit.fin x))
    {s : KeyedBest} {best : Option Nat}
    (h : Tracks (keyedBase true logits temperature fun _ => 0) key s best) :
    ∃ s', kgLoop logits temperature key ids s = some s' ∧
      Tracks (keyedBase true logits temperature fun _ => 0) key s'
        (ids.foldl (bestStep (fun i => (keyedBase true logits temperature (fun _ => 0) i).isSome = true)
          (drawKey (keyedBase true logits temperature fun _ => 0) key)) best) := by
  induction ids generalizing s best with
  | nil => exact ⟨s, rfl, h⟩
  | cons i ids ih =>
    obtain ⟨x, hx⟩ := hids i (by simp)
    have hstep := h.take (isSome_keyedBase.2 ⟨x, hx⟩)
    rw [drawOf_keyedBase hx] at hstep
    obtain ⟨s', hs', htracks⟩ := ih (fun j hj => hids j (by simp [hj])) hstep
    refine ⟨s', ?_, htracks⟩
    rw [kgLoop, bind_value_eq_some.2 hx]
    exact hs'

/-- **A row of candidates with the draw gives the draw**, in any order of the row. -/
theorem ds41KgFinish_eq {r : KgGpuRow} {id : Nat} (hdraw : IsKeyedDraw logits temperature key id)
    (hn : 1 ≤ r.n ∧ r.n ≤ 64) (hfinite : 0 < r.finite ∧ r.finite.toNat ≤ logits.length)
    (hids : ∀ i ∈ r.ids, ∃ x, logits[i]? = some (Logit.fin x)) (hmem : id ∈ r.ids) :
    ds41KgFinish (some r) logits temperature key = .decided id := by
  obtain ⟨s', hs', htracks⟩ := @kgLoop_tracks logits temperature key r.ids hids _ _ tracks_start
  have hbest := foldl_bestStep (fun i => (keyedBase true logits temperature (fun _ => 0) i).isSome = true)
    (drawKey (keyedBase true logits temperature fun _ => 0) key) r.ids
  rw [← htracks.holds] at hbest
  obtain ⟨x, hx, hmax⟩ := hdraw
  obtain ⟨b, hb, hle⟩ := hbest.max id hmem (isSome_keyedBase.2 ⟨x, hx⟩)
  obtain ⟨y, hy⟩ := hids b (hbest.sound b hb).1
  have hge : drawKey (keyedBase true logits temperature fun _ => 0) key b ≤
      drawKey (keyedBase true logits temperature fun _ => 0) key id := by
    rw [drawKey, drawKey, Prod.Lex.toLex_le_toLex, drawOf_keyedBase hx, drawOf_keyedBase hy]
    exact hmax b y hy
  have hid : b = id := drawKey_injective (le_antisymm hge hle)
  have hn0 : ¬r.n = 0 := by
    rintro h0
    rw [h0] at hn
    exact absurd hn.1 (by decide)
  have hfinite0 : ¬r.finite = 0 := by
    rintro h0
    rw [h0] at hfinite
    exact absurd hfinite.1 (by decide)
  rw [ds41KgFinish, if_neg (not_lt.mpr hfinite.2), if_neg hfinite0, if_neg hn0, if_neg (UInt32.not_lt.mpr hn.2), hs']
  obtain ⟨best, v, bar⟩ := s'
  obtain rfl : best = some b := hb
  rw [hid]

/-- **The keyed draw is one draw on every path.** At the full distribution the scan with the skip, the
scan without it and the finish of any row of candidates that holds the draw all return the smallest
finite id of the largest score; without a finite logit the scan returns the argmax row. -/
theorem keyed_draw (fullProbs : Bool) (logits : List (Logit ℝ)) (k : SampleKey) (pos : UInt32)
    (hfull : k.Full) (ht : 0 < k.temperature) :
    sampleKeyed fullProbs logits k pos = sampleKeyedWith false fullProbs logits k pos ∧
    ((∀ (i : Nat) (x : ℝ), logits[i]? ≠ some (Logit.fin x)) →
      sampleKeyed fullProbs logits k pos = sampleArgmax logits) ∧
    ((∃ (i : Nat) (x : ℝ), logits[i]? = some (Logit.fin x)) →
      IsKeyedDraw logits k.temperature (positionKey k.seed pos) (sampleKeyed fullProbs logits k pos)) ∧
    ∀ r : KgGpuRow, 1 ≤ r.n ∧ r.n ≤ 64 → 0 < r.finite ∧ r.finite.toNat ≤ logits.length →
      (∀ i ∈ r.ids, ∃ x, logits[i]? = some (Logit.fin x)) → sampleKeyed fullProbs logits k pos ∈ r.ids →
        ds41KeyedFinish (some r) logits k pos = .decided (sampleKeyed fullProbs logits k pos) := by
  refine ⟨sampleKeyedWith_skip true false, sampleKeyed_not_finite hfull ht,
    sampleKeyed_isKeyedDraw hfull ht, fun r hn hfinite hids hmem => ?_⟩
  have hdraw := @sampleKeyed_isKeyedDraw logits k pos fullProbs hfull ht ⟨_, hids _ hmem⟩
  exact ds41KgFinish_eq hdraw hn hfinite hids hmem

/-- Three finite logits and a NaN, and a row of candidates that lists the finite ids in another order. -/
theorem keyed_draw_row :
    let logits : List (Logit ℝ) := [.fin 2, .fin 1, .nan, .fin 2]
    let k : SampleKey := ⟨1, 0, 1, 0, 42⟩
    let id : Fin 64 → UInt32 := fun j => if j = 0 then 3 else if j = 1 then 0 else 1
    IsKeyedDraw logits 1 (positionKey 42 7) (sampleKeyed true logits k 7) ∧
      ds41KeyedFinish (some ⟨3, 3, id⟩) logits k 7 = .decided (sampleKeyed true logits k 7) := by
  intro logits k id
  obtain ⟨-, -, hdraw, hrow⟩ := keyed_draw true logits k 7 ⟨le_rfl, Or.inr le_rfl, le_rfl⟩ one_pos
  have hids : (⟨3, 3, id⟩ : KgGpuRow).ids = [3, 0, 1] := by decide
  have hfinite : ∀ i, (∃ x, logits[i]? = some (Logit.fin x)) ↔ i ∈ [3, 0, 1] := by
    intro i
    match i with
    | 0 | 1 | 3 => exact ⟨fun _ => by decide, fun _ => ⟨_, rfl⟩⟩
    | 2 => exact ⟨fun ⟨_, h⟩ => (nomatch h), fun h => absurd h (by decide)⟩
    | i + 4 => exact ⟨fun ⟨_, h⟩ => (nomatch h), fun h => by simp at h⟩
  have hbest := hdraw ⟨0, 2, rfl⟩
  obtain ⟨x, hx, -⟩ := hbest
  exact ⟨hdraw ⟨0, 2, rfl⟩, hrow ⟨3, 3, id⟩ (by decide) (by decide)
    (fun i hi => (hfinite i).2 (hids ▸ hi)) (hids ▸ (hfinite _).1 ⟨x, hx⟩)⟩

end Draw

end Ds4.Sampler
