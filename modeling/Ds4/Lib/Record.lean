import Ds4.Lib.Words

/-!
# Records without padding

A `Record` is a C structure whose fields follow one another: a width, the bytes of a value and the
value of so many bytes. Words, byte arrays, pairs and renamed fields make records of records. A
payload is read at an offset, one record or several, and a read that leaves the payload has no result.
-/

namespace Ds4.Lib

universe u v

/-- A structure of a fixed width and its bytes. -/
structure Record (α : Type u) where
  width : Nat
  put : α → Bytes
  get : Bytes → α
  length_put : ∀ a, (put a).length = width
  get_put : ∀ a, get (put a) = a
  put_get : ∀ p : Bytes, p.length = width → put (get p) = p

/-- The bytes of a payload from an offset on. -/
def slice (p : Bytes) (pos n : Nat) : Bytes := (p.drop pos).take n

section Slices

variable {p q r : Bytes} {pos m n : Nat}

theorem length_slice (h : pos + n ≤ p.length) : (slice p pos n).length = n := by
  rw [slice, List.length_take, List.length_drop]
  omega

theorem slice_append_slice : slice p pos m ++ slice p (pos + m) n = slice p pos (m + n) := by
  rw [slice, slice, slice, List.take_add, List.drop_drop]

@[simp] theorem slice_all : slice p 0 p.length = p := by
  rw [slice, List.drop_zero, List.take_length]

@[simp] theorem slice_zero : slice p pos 0 = [] := by rw [slice, List.take_zero]

/-- The bytes at an offset, if the payload reaches so far. -/
def bytesAt (p : Bytes) (pos n : Nat) : Option Bytes :=
  if pos + n ≤ p.length then some (slice p pos n) else none

theorem slice_middle : slice (q ++ p ++ r) q.length p.length = p := by
  rw [slice, List.append_assoc, List.drop_left, List.take_left]

theorem bytesAt_middle : bytesAt (q ++ p ++ r) q.length p.length = some p := by
  rw [bytesAt, if_pos (by simp), slice_middle]

end Slices

/-! ## Words and their bytes -/

theorem put32_get32 {p : Bytes} (h : p.length = 4) : put32 (get32 p) = p := by
  obtain ⟨a, b, c, d, rfl⟩ : ∃ a b c d, p = [a, b, c, d] := by
    match p, h with
    | [a, b, c, d], _ => exact ⟨a, b, c, d, rfl⟩
  rw [put32, get32]
  refine congrArg₂ _ ?_ (congrArg₂ _ ?_ (congrArg₂ _ ?_ (congrArg₂ _ ?_ rfl))) <;>
  · apply UInt8.toBitVec_inj.mp
    ext i hi
    simp only [UInt32.toBitVec_toUInt8, UInt32.toBitVec_or, UInt32.toBitVec_shiftLeft,
      UInt32.toBitVec_shiftRight, UInt8.toBitVec_toUInt32, UInt32.toBitVec_ofNat,
      BitVec.getElem_setWidth, BitVec.getLsbD_or, BitVec.getLsbD_setWidth, BitVec.shiftLeft_eq',
      BitVec.ushiftRight_eq', BitVec.getLsbD_shiftLeft, BitVec.getLsbD_ushiftRight]
    simp (disch := omega)
    grind

theorem put64_get64 {p : Bytes} (h : p.length = 8) : put64 (get64 p) = p :=
  get64_inj (put64_length _) h (get64_put64_self _)
/-! ## Records of records -/

namespace Record

variable {α : Type u} {β : Type v} (R : Record α) (S : Record β)

/-- A word of four bytes. -/
def word32 : Record UInt32 where
  width := 4
  put := put32
  get := get32
  length_put := put32_length
  get_put := get32_put32_self
  put_get _ h := put32_get32 h

/-- A word of eight bytes. -/
def word64 : Record UInt64 where
  width := 8
  put := put64
  get := get64
  length_put := put64_length
  get_put := get64_put64_self
  put_get _ h := put64_get64 h

/-- So many plain bytes. -/
def raw (n : Nat) : Record (Vector UInt8 n) where
  width := n
  put v := v.toList
  get p := Vector.ofFn fun i : Fin n => p.getD i 0
  length_put v := v.length_toList
  get_put v := by
    apply Vector.ext
    intro i hi
    rw [Vector.getElem_ofFn, List.getD_eq_getElem?_getD, List.getElem?_eq_getElem (by simpa using hi),
      Option.getD_some, Vector.getElem_toList]
  put_get p h := by
    rw [Vector.toList_ofFn]
    apply List.ext_getElem (by rw [List.length_ofFn, h])
    intro i _ hi
    rw [List.getElem_ofFn, List.getD_eq_getElem?_getD, List.getElem?_eq_getElem hi, Option.getD_some]

/-- One field after another. -/
def pair : Record (α × β) where
  width := R.width + S.width
  put a := R.put a.1 ++ S.put a.2
  get p := (R.get (p.take R.width), S.get (p.drop R.width))
  length_put a := by rw [List.length_append, R.length_put, S.length_put]
  get_put a := by
    rw [List.take_left' (R.length_put a.1), List.drop_left' (R.length_put a.1), R.get_put, S.get_put]
  put_get p h := by
    rw [R.put_get _ (by rw [List.length_take]; omega), S.put_get _ (by rw [List.length_drop]; omega),
      List.take_append_drop]

/-- The fields of a structure under their names. -/
def named (f : α → β) (g : β → α) (hfg : ∀ b, f (g b) = b) (hgf : ∀ a, g (f a) = a) : Record β where
  width := R.width
  put b := R.put (g b)
  get p := f (R.get p)
  length_put b := R.length_put (g b)
  get_put b := by rw [R.get_put, hfg]
  put_get p h := by rw [hgf, R.put_get p h]

/-- Records in a row. -/
def putAll (l : List α) : Bytes := l.flatMap R.put

/-- So many records in a row. -/
def getAll : Nat → Bytes → List α
  | 0, _ => []
  | n + 1, p => R.get (p.take R.width) :: getAll n (p.drop R.width)

@[simp] theorem putAll_nil : R.putAll [] = [] := rfl

@[simp] theorem putAll_cons (a : α) (l : List α) : R.putAll (a :: l) = R.put a ++ R.putAll l := rfl

@[simp] theorem length_putAll (l : List α) : (R.putAll l).length = R.width * l.length := by
  induction l with
  | nil => rfl
  | cons a l ih => rw [putAll_cons, List.length_append, R.length_put, ih, List.length_cons]; ring

@[simp] theorem length_getAll (n : Nat) (p : Bytes) : (R.getAll n p).length = n := by
  induction n generalizing p with
  | zero => rfl
  | succ n ih => rw [getAll, List.length_cons, ih]

theorem getAll_putAll (l : List α) : R.getAll l.length (R.putAll l) = l := by
  induction l with
  | nil => rfl
  | cons a l ih =>
    rw [List.length_cons, getAll, putAll_cons, List.take_left' (R.length_put a),
      List.drop_left' (R.length_put a), R.get_put, ih]

theorem putAll_getAll {n : Nat} {p : Bytes} (h : p.length = R.width * n) : R.putAll (R.getAll n p) = p := by
  induction n generalizing p with
  | zero =>
    obtain rfl : p = [] := List.length_eq_zero_iff.1 h
    rfl
  | succ n ih =>
    have hwidth : R.width ≤ p.length := by rw [h]; exact Nat.le_mul_of_pos_right _ n.succ_pos
    rw [getAll, putAll_cons, R.put_get _ (by rw [List.length_take]; omega),
      ih (by rw [List.length_drop, h, Nat.mul_succ, Nat.add_sub_cancel]), List.take_append_drop]

/-! ## Reading a payload -/

/-- The record at an offset, if the payload reaches so far. -/
def readAt (p : Bytes) (pos : Nat) : Option α :=
  if pos + R.width ≤ p.length then some (R.get (slice p pos R.width)) else none

/-- The records from an offset on, if the payload reaches so far. -/
def readAll (p : Bytes) (pos n : Nat) : Option (List α) :=
  if pos + R.width * n ≤ p.length then some (R.getAll n (slice p pos (R.width * n))) else none

variable {R}

theorem readAt_eq {p : Bytes} {pos : Nat} (h : pos + R.width ≤ p.length) :
    R.readAt p pos = some (R.get (slice p pos R.width)) := if_pos h

theorem readAll_eq {p : Bytes} {pos n : Nat} (h : pos + R.width * n ≤ p.length) :
    R.readAll p pos n = some (R.getAll n (slice p pos (R.width * n))) := if_pos h

theorem readAt_middle (q r : Bytes) (a : α) : R.readAt (q ++ R.put a ++ r) q.length = some a := by
  have hslice := slice_middle (p := R.put a) (q := q) (r := r)
  rw [R.length_put] at hslice
  rw [readAt_eq (by simp [R.length_put]), hslice, R.get_put]

theorem readAll_middle (q r : Bytes) (l : List α) :
    R.readAll (q ++ R.putAll l ++ r) q.length l.length = some l := by
  have hslice := slice_middle (p := R.putAll l) (q := q) (r := r)
  rw [R.length_putAll] at hslice
  rw [readAll_eq (by simp), hslice, R.getAll_putAll]

/-- **What a read says, its bytes say.** -/
theorem put_of_readAt {p : Bytes} {pos : Nat} {a : α} (h : R.readAt p pos = some a) :
    pos + R.width ≤ p.length ∧ slice p pos R.width = R.put a := by
  obtain ⟨hle, ha⟩ := Option.ite_none_right_eq_some.1 h
  refine ⟨hle, ?_⟩
  rw [← Option.some.inj ha, R.put_get _ (length_slice hle)]

theorem putAll_of_readAll {p : Bytes} {pos n : Nat} {l : List α} (h : R.readAll p pos n = some l) :
    pos + R.width * n ≤ p.length ∧ l.length = n ∧ slice p pos (R.width * n) = R.putAll l := by
  obtain ⟨hle, hl⟩ := Option.ite_none_right_eq_some.1 h
  have hl' := Option.some.inj hl
  exact ⟨hle, hl' ▸ R.length_getAll .., by rw [← hl', R.putAll_getAll (length_slice hle)]⟩

end Record

end Ds4.Lib
