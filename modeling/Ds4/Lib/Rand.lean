import Mathlib.MeasureTheory.Measure.Lebesgue.Basic
import Mathlib.MeasureTheory.Integral.Lebesgue.Countable
import Mathlib.MeasureTheory.Integral.Lebesgue.Add

/-!
# Programs that draw

A program of `RandProg` ends with a result or draws a number between zero and one and goes on. `expect`
is the expectation of a test of the result, the draws being uniform and independent; the expectations
of all tests are the distribution of the result. A program `HasLaw` when it chooses a natural number
with given weights. `rejection` is the step that turns draws from one law into draws from another.
-/

namespace Ds4.Lib

open MeasureTheory
open scoped ENNReal

/-- A program that draws uniform numbers. -/
inductive RandProg (α : Type)
  | ret (a : α)
  | draw (next : ℝ → RandProg α)

namespace RandProg

variable {α β : Type}

/-- One program after another. -/
def bind : RandProg α → (α → RandProg β) → RandProg β
  | ret a, k => k a
  | draw next, k => draw fun u => (next u).bind k

/-- The expectation of a test of the result. -/
noncomputable def expect : RandProg α → (α → ℝ≥0∞) → ℝ≥0∞
  | ret a, f => f a
  | draw next, f => ∫⁻ u in Set.Ico (0 : ℝ) 1, (next u).expect f

open Classical in
/-- The test for one result. -/
noncomputable def only (a b : α) : ℝ≥0∞ := if b = a then 1 else 0

/-- The probability of a result. -/
noncomputable def prob (m : RandProg α) (a : α) : ℝ≥0∞ := m.expect (only a)

theorem only_self (a : α) : only a a = 1 := if_pos rfl

theorem only_of_ne {a b : α} (h : b ≠ a) : only a b = 0 := if_neg h

@[simp] theorem expect_ret (a : α) (f : α → ℝ≥0∞) : (ret a).expect f = f a := rfl

theorem expect_draw (next : ℝ → RandProg α) (f : α → ℝ≥0∞) :
    (draw next).expect f = ∫⁻ u in Set.Ico (0 : ℝ) 1, (next u).expect f := rfl

@[simp] theorem expect_bind (m : RandProg α) (k : α → RandProg β) (f : β → ℝ≥0∞) :
    (m.bind k).expect f = m.expect fun a => (k a).expect f := by
  induction m with
  | ret a => rfl
  | draw next ih =>
    rw [bind, expect_draw, expect_draw]
    simp only [ih]

/-! ## Every draw -/

/-- A property holds of every result. -/
def All (P : α → Prop) : RandProg α → Prop
  | ret a => P a
  | draw next => ∀ u ∈ Set.Ico (0 : ℝ) 1, (next u).All P

theorem all_true (m : RandProg α) {P : α → Prop} (h : ∀ a, P a) : m.All P := by
  induction m with
  | ret a => exact h a
  | draw next ih =>
    intro u _
    exact ih u

theorem all_bind {m : RandProg α} {k : α → RandProg β} {P : α → Prop} {Q : β → Prop} (hm : m.All P)
    (hk : ∀ a, P a → (k a).All Q) : (m.bind k).All Q := by
  induction m with
  | ret a => exact hk a hm
  | draw next ih =>
    intro u hu
    exact ih u (hm u hu)

theorem All.imp {m : RandProg α} {P Q : α → Prop} (hm : m.All P) (h : ∀ a, P a → Q a) : m.All Q := by
  induction m with
  | ret a => exact h a hm
  | draw next ih =>
    intro u hu
    exact ih u (hm u hu)

theorem All.and {m : RandProg α} {P Q : α → Prop} (hp : m.All P) (hq : m.All Q) :
    m.All fun a => P a ∧ Q a := by
  induction m with
  | ret a => exact ⟨hp, hq⟩
  | draw next ih =>
    intro u hu
    exact ih u (hp u hu) (hq u hu)

theorem All.of_bind {m : RandProg α} {k : α → RandProg β} {Q : β → Prop} (h : (m.bind k).All Q) :
    m.All fun a => (k a).All Q := by
  induction m with
  | ret a => exact h
  | draw next ih =>
    intro u hu
    exact ih u (h u hu)

theorem All.expect_congr {m : RandProg α} {P : α → Prop} (hm : m.All P) {f g : α → ℝ≥0∞}
    (hfg : ∀ a, P a → f a = g a) : m.expect f = m.expect g := by
  induction m with
  | ret a => exact hfg a hm
  | draw next ih =>
    rw [expect_draw, expect_draw]
    apply setLIntegral_congr_fun measurableSet_Ico
    intro u hu
    exact ih u (hm u hu)

/-! ## Laws -/

/-- The program chooses a number below `n` with the given weights. -/
def HasLaw (m : RandProg ℕ) (n : ℕ) (w : ℕ → ℝ≥0∞) : Prop :=
  ∀ f, m.expect f = ∑ i ∈ Finset.range n, w i * f i

theorem lintegral_fibres {g : ℝ → ℕ} (hg : Measurable g) {n : ℕ} (hn : ∀ u, g u < n) (f : ℕ → ℝ≥0∞) :
    ∫⁻ u in Set.Ico (0 : ℝ) 1, f (g u) =
      ∑ i ∈ Finset.range n, volume {u : ℝ | 0 ≤ u ∧ u < 1 ∧ g u = i} * f i := by
  rw [← lintegral_map (measurable_of_countable f) hg, lintegral_countable', tsum_eq_sum]
  · refine Finset.sum_congr rfl fun i _ => ?_
    rw [mul_comm, Measure.map_apply hg (measurableSet_singleton i),
      Measure.restrict_apply (hg (measurableSet_singleton i))]
    congr 2
    ext u
    simp only [Set.mem_inter_iff, Set.mem_preimage, Set.mem_singleton_iff, Set.mem_Ico, Set.mem_ofPred_eq]
    tauto
  · intro i hi
    have hempty : Set.preimage g {i} = ∅ := by
      rw [Set.eq_empty_iff_forall_notMem]
      intro u hu
      exact hi (Finset.mem_range.mpr (hu ▸ hn u))
    rw [Measure.map_apply hg (measurableSet_singleton i), hempty, measure_empty, mul_zero]

theorem hasLaw_draw {g : ℝ → ℕ} (hg : Measurable g) {n : ℕ} (hn : ∀ u, g u < n) :
    HasLaw (draw fun u => ret (g u)) n fun i => volume {u : ℝ | 0 ≤ u ∧ u < 1 ∧ g u = i} :=
  fun f => lintegral_fibres hg hn f

theorem HasLaw.congr {m : RandProg ℕ} {n : ℕ} {w w' : ℕ → ℝ≥0∞} (h : HasLaw m n w)
    (hw : ∀ i < n, w i = w' i) : HasLaw m n w' := by
  intro f
  rw [h f]
  exact Finset.sum_congr rfl fun i hi => by rw [hw i (Finset.mem_range.mp hi)]

/-- The expectation of a program is affine: its draws lose no mass. -/
def Affine (m : RandProg α) : Prop :=
  ∀ (a k : ℝ≥0∞) (f : α → ℝ≥0∞), m.expect (fun x => a + k * f x) = a + k * m.expect f

theorem affine_ret (a : α) : Affine (ret a) := fun _ _ _ => rfl

theorem HasLaw.affine_bind {m : RandProg ℕ} {n : ℕ} {w : ℕ → ℝ≥0∞} (h : HasLaw m n w)
    (hw : ∑ i ∈ Finset.range n, w i = 1) {k : ℕ → RandProg β} (hk : ∀ i, Affine (k i)) :
    Affine (m.bind k) := by
  intro a b f
  rw [expect_bind, expect_bind, h, h, Finset.mul_sum]
  calc ∑ i ∈ Finset.range n, w i * (k i).expect (fun x => a + b * f x)
      = ∑ i ∈ Finset.range n, (w i * a + b * (w i * (k i).expect f)) := by
        refine Finset.sum_congr rfl fun i _ => ?_
        rw [hk i, mul_add, mul_left_comm]
    _ = a + ∑ i ∈ Finset.range n, b * (w i * (k i).expect f) := by
        rw [Finset.sum_add_distrib, ← Finset.sum_mul, hw, one_mul]

theorem Affine.expect_const {m : RandProg α} (h : Affine m) (a : ℝ≥0∞) : m.expect (fun _ => a) = a := by
  have hconst := h a 0 fun _ => 0
  simpa using hconst

theorem Affine.mul_expect {m : RandProg α} (h : Affine m) (k : ℝ≥0∞) (f : α → ℝ≥0∞) :
    k * m.expect f = m.expect fun x => k * f x := by
  have hmul := h 0 k f
  simpa using hmul.symm

/-! ## The test against a weight -/

theorem lintegral_test {p q : ℝ} (hp : 0 ≤ p) (hq : 0 ≤ q) (a b : ℝ≥0∞) :
    ENNReal.ofReal q * ∫⁻ u in Set.Ico (0 : ℝ) 1, (if p < u * q then a else b) =
      (ENNReal.ofReal q - ENNReal.ofReal p) * a + min (ENNReal.ofReal q) (ENNReal.ofReal p) * b := by
  rcases hq.eq_or_lt with rfl | hq
  · simp
  have hset : MeasurableSet {u : ℝ | p < u * q} :=
    measurableSet_lt measurable_const (measurable_id.mul_const q)
  have hinter : Set.Ico (0 : ℝ) 1 ∩ {u : ℝ | p < u * q} = Set.Ioo (p / q) 1 := by
    ext u
    simp only [Set.mem_inter_iff, Set.mem_Ico, Set.mem_ofPred_eq, Set.mem_Ioo, div_lt_iff₀ hq]
    constructor
    · rintro ⟨⟨-, h1⟩, h⟩
      exact ⟨h, h1⟩
    · rintro ⟨h, h1⟩
      exact ⟨⟨(pos_of_mul_pos_left (hp.trans_lt h) hq.le).le, h1⟩, h⟩
  have hdiff : volume (Set.Ico (0 : ℝ) 1 \ {u : ℝ | p < u * q}) = ENNReal.ofReal (min 1 (p / q)) := by
    rcases le_total 1 (p / q) with h | h
    · have hall : Set.Ico (0 : ℝ) 1 \ {u : ℝ | p < u * q} = Set.Ico (0 : ℝ) 1 := by
        rw [← Set.sdiff_self_inter, hinter, Set.Ioo_eq_empty (not_lt.mpr h), Set.sdiff_empty]
      rw [hall, Real.volume_Ico, sub_zero, min_eq_left h]
    · have hsplit : volume (Set.Ico (0 : ℝ) 1 ∩ {u | p < u * q}) +
          volume (Set.Ico (0 : ℝ) 1 \ {u | p < u * q}) = _ := measure_inter_add_sdiff _ hset
      rw [hinter, Real.volume_Ioo, Real.volume_Ico, sub_zero] at hsplit
      rw [min_eq_right h]
      refine (ENNReal.add_right_inj (ENNReal.ofReal_ne_top (r := 1 - p / q))).mp (hsplit.trans ?_)
      rw [← ENNReal.ofReal_add (by linarith) (by positivity)]
      congr 1
      ring
  rw [← lintegral_inter_add_sdiff _ _ hset]
  have hleft : ∫⁻ u in Set.Ico (0 : ℝ) 1 ∩ {u | p < u * q}, (if p < u * q then a else b) =
      a * ENNReal.ofReal (1 - p / q) := by
    have hone : ∫⁻ u in Set.Ico (0 : ℝ) 1 ∩ {u | p < u * q}, (if p < u * q then a else b) =
        ∫⁻ _ in Set.Ico (0 : ℝ) 1 ∩ {u | p < u * q}, a :=
      setLIntegral_congr_fun (measurableSet_Ico.inter hset) fun u hu => if_pos hu.2
    rw [hone, setLIntegral_const, hinter, Real.volume_Ioo]
  have hright : ∫⁻ u in Set.Ico (0 : ℝ) 1 \ {u | p < u * q}, (if p < u * q then a else b) =
      b * ENNReal.ofReal (min 1 (p / q)) := by
    have hother : ∫⁻ u in Set.Ico (0 : ℝ) 1 \ {u | p < u * q}, (if p < u * q then a else b) =
        ∫⁻ _ in Set.Ico (0 : ℝ) 1 \ {u | p < u * q}, b :=
      setLIntegral_congr_fun (measurableSet_Ico.diff hset) fun u hu => if_neg hu.2
    rw [hother, setLIntegral_const, hdiff]
  have hqp : q * (1 - p / q) = q - p := by
    field_simp
  have hmin : q * min 1 (p / q) = min q p := by
    rw [mul_min_of_nonneg _ _ hq.le, mul_one, mul_div_cancel₀ _ hq.ne']
  rw [hleft, hright, mul_add, mul_left_comm, mul_left_comm _ b, ← ENNReal.ofReal_mul hq.le,
    ← ENNReal.ofReal_mul hq.le, hqp, hmin, ENNReal.ofReal_sub q hp, ENNReal.ofReal_min, mul_comm a,
    mul_comm b]

/-- **Rejection.** A choice by `q` that is kept by the smaller of the weights, and otherwise made again
from what `p` exceeds `q` by, is a choice by `p`. -/
theorem rejection {n : ℕ} {p q f : ℕ → ℝ≥0∞} {other : ℝ≥0∞} (hp : ∑ i ∈ Finset.range n, p i = 1)
    (hq : ∑ i ∈ Finset.range n, q i = 1)
    (hother : (∑ i ∈ Finset.range n, (p i - q i)) * other = ∑ i ∈ Finset.range n, (p i - q i) * f i) :
    ∑ i ∈ Finset.range n, ((q i - p i) * other + min (q i) (p i) * f i) =
      ∑ i ∈ Finset.range n, p i * f i := by
  have hmin : ∑ i ∈ Finset.range n, min (q i) (p i) ≠ ∞ := by
    refine ((Finset.sum_le_sum fun i _ => min_le_left _ _).trans_lt ?_).ne
    rw [hq]
    exact ENNReal.one_lt_top
  have hexcess : ∑ i ∈ Finset.range n, (q i - p i) = ∑ i ∈ Finset.range n, (p i - q i) := by
    have hleft : ∑ i ∈ Finset.range n, (q i - p i) + ∑ i ∈ Finset.range n, min (q i) (p i) = 1 := by
      rw [← Finset.sum_add_distrib, ← hq]
      exact Finset.sum_congr rfl fun i _ => tsub_add_min
    have hright : ∑ i ∈ Finset.range n, (p i - q i) + ∑ i ∈ Finset.range n, min (q i) (p i) = 1 := by
      rw [← Finset.sum_add_distrib, ← hp]
      exact Finset.sum_congr rfl fun i _ => by rw [min_comm]; exact tsub_add_min
    exact (ENNReal.add_left_inj hmin).mp (hleft.trans hright.symm)
  rw [Finset.sum_add_distrib, ← Finset.sum_mul, hexcess, hother, ← Finset.sum_add_distrib]
  refine Finset.sum_congr rfl fun i _ => ?_
  rw [← add_mul, min_comm, tsub_add_min]

end RandProg

end Ds4.Lib
