import Mathlib.Data.List.Basic
import Mathlib.Data.Fin.Basic
import Mathlib.Tactic

/-!
# Rings

A ring of `n` slots holds the values of the last `n` positions: position `p` lives in slot `p % n`.
`writeAll` writes consecutive positions. At most `n` of them are in different slots, so values that
were saved before a write and are written back behind a kept part leave exactly that part
(`writeAll_rollback`).
-/

namespace Ds4.Lib

/-- A ring of `n` slots. -/
abbrev Ring (n : Nat) (α : Type*) := Fin n → α

namespace Ring

variable {n : Nat} [NeZero n] {α : Type*}

/-- The slot of a position. -/
def slot (n : Nat) [NeZero n] (p : Nat) : Fin n := Fin.ofNat n p

theorem slot_eq_iff {p q : Nat} : slot n p = slot n q ↔ p % n = q % n := by
  simp [slot, Fin.ext_iff]

theorem slot_ne {p q : Nat} (h : p < q) (hn : q < p + n) : slot n p ≠ slot n q := by
  rw [ne_eq, slot_eq_iff]
  intro heq
  have hdvd : n ∣ q - p := (Nat.modEq_iff_dvd' h.le).mp heq
  have := Nat.le_of_dvd (by omega) hdvd
  omega

/-- Writes `vals` at the positions from `p` on. -/
def writeAll (r : Ring n α) (p : Nat) (vals : List α) : Ring n α :=
  match vals with
  | [] => r
  | v :: vals => writeAll (Function.update r (slot n p) v) (p + 1) vals

/-- The values at `k` positions from `p` on. -/
def readAll (r : Ring n α) (p k : Nat) : List α := (List.range k).map fun i => r (slot n (p + i))

@[simp] theorem readAll_length (r : Ring n α) (p k : Nat) : (readAll r p k).length = k := by
  simp [readAll]

theorem readAll_succ (r : Ring n α) (p k : Nat) :
    readAll r p (k + 1) = r (slot n p) :: readAll r (p + 1) k := by
  simp only [readAll, List.range_succ_eq_map, List.map_cons, List.map_map, Nat.add_zero]
  congr 1
  refine List.map_congr_left fun i _ => ?_
  simp only [Function.comp_apply]
  congr 2
  omega

theorem readAll_drop (r : Ring n α) (p k d : Nat) :
    (readAll r p k).drop d = readAll r (p + d) (k - d) := by
  induction d generalizing p k with
  | zero => rfl
  | succ d ih =>
    cases k with
    | zero => simp [readAll]
    | succ k =>
      rw [readAll_succ, List.drop_succ_cons, ih, Nat.add_sub_add_right]
      congr 1
      omega

@[simp] theorem writeAll_nil (r : Ring n α) (p : Nat) : writeAll r p [] = r := rfl

theorem writeAll_append (r : Ring n α) (p : Nat) (xs ys : List α) :
    writeAll r p (xs ++ ys) = writeAll (writeAll r p xs) (p + xs.length) ys := by
  induction xs generalizing r p with
  | nil => rfl
  | cons x xs ih =>
    rw [List.cons_append, writeAll, ih, writeAll, List.length_cons]
    congr 1
    omega

theorem writeAll_other (r : Ring n α) (p : Nat) (vals : List α) (s : Fin n)
    (h : ∀ i < vals.length, slot n (p + i) ≠ s) : writeAll r p vals s = r s := by
  induction vals generalizing r p with
  | nil => rfl
  | cons v vals ih =>
    have h0 : slot n p ≠ s := h 0 (by simp)
    rw [writeAll, ih _ _ fun i hi => ?_, Function.update_of_ne h0.symm]
    have := h (i + 1) (by simpa using hi)
    rwa [show p + 1 + i = p + (i + 1) by omega]

theorem writeAll_readAll (r : Ring n α) (p k : Nat) : writeAll r p (readAll r p k) = r := by
  induction k generalizing p with
  | zero => rfl
  | succ k ih => rw [readAll_succ, writeAll, Function.update_eq_self, ih]

theorem writeAll_writeAll (r : Ring n α) (p : Nat) (xs ys : List α) (h : xs.length = ys.length)
    (hn : xs.length ≤ n) : writeAll (writeAll r p xs) p ys = writeAll r p ys := by
  have hcomm : ∀ (xs : List α) (r : Ring n α) (p q : Nat) (v : α), q < p → p + xs.length ≤ q + n →
      Function.update (writeAll r p xs) (slot n q) v =
        writeAll (Function.update r (slot n q) v) p xs := by
    intro xs
    induction xs with
    | nil => exact fun _ _ _ _ _ _ => rfl
    | cons x xs ih =>
      intro r p q v hq hle
      rw [List.length_cons] at hle
      rw [writeAll, writeAll, ih _ _ _ _ (by omega) (by omega),
        Function.update_comm (slot_ne hq (by omega))]
  induction xs generalizing r p ys with
  | nil =>
    obtain rfl : ys = [] := List.length_eq_zero_iff.mp h.symm
    rfl
  | cons x xs ih =>
    cases ys with
    | nil => simp at h
    | cons y ys =>
      simp only [List.length_cons] at h hn
      rw [writeAll, writeAll, hcomm xs _ _ _ _ (by omega) (by omega), Function.update_idem,
        ih _ _ _ (by omega) (by omega), writeAll]

theorem readAll_writeAll (r : Ring n α) (p k : Nat) (xs : List α) (h : xs.length + k ≤ n) :
    readAll (writeAll r p xs) (p + xs.length) k = readAll r (p + xs.length) k := by
  refine List.map_congr_left fun i hi => writeAll_other _ _ _ _ fun j hj => ?_
  rw [List.mem_range] at hi
  exact slot_ne (by omega) (by omega)

/-- **Rollback.** Of a block written over saved values, writing the saved values back behind the
first `keep` leaves these. -/
theorem writeAll_rollback (r : Ring n α) (p : Nat) (vals : List α) (keep : Nat)
    (hn : vals.length ≤ n) (hkeep : keep ≤ vals.length) :
    writeAll (writeAll r p vals) (p + keep) ((readAll r p vals.length).drop keep) =
      writeAll r p (vals.take keep) := by
  have hlen : (vals.take keep).length = keep := by
    rw [List.length_take, Nat.min_eq_left hkeep]
  set r' := writeAll r p (vals.take keep) with hr'
  have hvals : writeAll r p vals = writeAll r' (p + keep) (vals.drop keep) := by
    conv_lhs => rw [← List.take_append_drop keep vals]
    rw [writeAll_append, hlen]
  have hsaved : (readAll r p vals.length).drop keep = readAll r' (p + keep) (vals.length - keep) := by
    have := readAll_writeAll r p (vals.length - keep) (vals.take keep) (by omega)
    rw [hlen] at this
    rw [readAll_drop, ← this]
  rw [hvals, hsaved, writeAll_writeAll _ _ _ _ (by simp) (by rw [List.length_drop]; omega),
    writeAll_readAll]

theorem writeAll_behind (r : Ring n α) (p k : Nat) (vals : List α) :
    writeAll r p (readAll r p k ++ vals) = writeAll r (p + k) vals := by
  rw [writeAll_append, writeAll_readAll, readAll_length]

theorem writeAll_suffix (r : Ring n α) (p : Nat) (xs ys : List α) (hn : xs.length + ys.length ≤ n) :
    writeAll (writeAll r (p + xs.length) ys) p (xs ++ ys) = writeAll r p (xs ++ ys) := by
  rw [← writeAll_behind r p xs.length ys]
  exact writeAll_writeAll _ _ _ _ (by simp) (by simpa using hn)

end Ring

end Ds4.Lib
