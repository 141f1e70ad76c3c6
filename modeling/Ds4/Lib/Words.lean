import Ds4.Lib.Bytes
import Mathlib.Data.Nat.Digits.Lemmas

/-!
# Words as bytes

`put32`, `get32`, `put64` and `get64` write and read a word, lowest byte first, and `putNet32` and
`getNet32` one in network order. What is written is what is read.
-/

namespace Ds4.Lib

/-- The four bytes of a word. -/
def put32 (v : UInt32) : Bytes :=
  [v.toUInt8, (v >>> 8).toUInt8, (v >>> 16).toUInt8, (v >>> 24).toUInt8]

/-- The word of the first four bytes. -/
def get32 : Bytes → UInt32
  | a :: b :: c :: d :: _ =>
    a.toUInt32 ||| (b.toUInt32 <<< 8) ||| (c.toUInt32 <<< 16) ||| (d.toUInt32 <<< 24)
  | _ => 0

/-- The eight bytes of a word. -/
def put64 (v : UInt64) : Bytes :=
  (List.range 8).map fun i => (v >>> (8 * UInt64.ofNat i)).toUInt8

/-- The word of the first eight bytes. -/
def get64 (p : Bytes) : UInt64 := (p.take 8).foldr (fun b v => (v <<< 8) ||| b.toUInt64) 0

theorem put64_eq (v : UInt64) : put64 v =
    [v.toUInt8, (v >>> 8).toUInt8, (v >>> 16).toUInt8, (v >>> 24).toUInt8, (v >>> 32).toUInt8,
      (v >>> 40).toUInt8, (v >>> 48).toUInt8, (v >>> 56).toUInt8] := by
  simp [put64, List.range_succ]

@[simp] theorem put32_length (v : UInt32) : (put32 v).length = 4 := rfl

@[simp] theorem put64_length (v : UInt64) : (put64 v).length = 8 := by simp [put64]

@[simp] theorem put32_drop (v : UInt32) {n : Nat} (h : 4 ≤ n) : (put32 v).drop n = [] :=
  List.drop_eq_nil_of_le (by simpa using h)

@[simp] theorem put64_drop (v : UInt64) {n : Nat} (h : 8 ≤ n) : (put64 v).drop n = [] :=
  List.drop_eq_nil_of_le (by simpa using h)

@[simp] theorem get32_put32 (v : UInt32) (r : Bytes) : get32 (put32 v ++ r) = v := by
  simp only [put32, get32, List.cons_append, List.nil_append]
  apply UInt32.toBitVec_inj.mp
  ext i hi
  simp only [UInt32.toBitVec_or, UInt32.toBitVec_shiftLeft, UInt8.toBitVec_toUInt32,
    UInt32.toBitVec_toUInt8, UInt32.toBitVec_shiftRight, UInt32.toBitVec_ofNat, BitVec.getElem_or,
    BitVec.getElem_setWidth, BitVec.getLsbD_setWidth, BitVec.shiftLeft_eq', BitVec.ushiftRight_eq',
    BitVec.getElem_shiftLeft, BitVec.getLsbD_ushiftRight]
  simp (disch := omega)
  grind

@[simp] theorem get64_put64 (v : UInt64) (r : Bytes) : get64 (put64 v ++ r) = v := by
  simp only [put64_eq, get64, List.cons_append, List.nil_append, List.take_succ_cons,
    List.take_zero, List.foldr_cons, List.foldr_nil]
  apply UInt64.toBitVec_inj.mp
  ext i hi
  simp only [UInt64.toBitVec_or, UInt64.toBitVec_shiftLeft, UInt8.toBitVec_toUInt64,
    UInt64.toBitVec_toUInt8, UInt64.toBitVec_shiftRight, UInt64.toBitVec_ofNat, BitVec.getElem_or,
    BitVec.getElem_setWidth, BitVec.getLsbD_setWidth, BitVec.shiftLeft_eq', BitVec.ushiftRight_eq',
    BitVec.getElem_shiftLeft, BitVec.getLsbD_ushiftRight]
  simp (disch := omega)
  grind

@[simp] theorem get32_put32_self (v : UInt32) : get32 (put32 v) = v := by
  simpa only [List.append_nil] using get32_put32 v []

@[simp] theorem get64_put64_self (v : UInt64) : get64 (put64 v) = v := by
  simpa only [List.append_nil] using get64_put64 v []

/-- The four bytes of a word in network order. -/
def putNet32 (v : UInt32) : Bytes := (put32 v).reverse

/-- The word of the first four bytes in network order. -/
def getNet32 (p : Bytes) : UInt32 := get32 (p.take 4).reverse

@[simp] theorem putNet32_length (v : UInt32) : (putNet32 v).length = 4 := rfl

@[simp] theorem getNet32_putNet32 (v : UInt32) (r : Bytes) : getNet32 (putNet32 v ++ r) = v := by
  have htake : (putNet32 v ++ r).take 4 = putNet32 v := List.take_left' rfl
  rw [getNet32, htake, putNet32, List.reverse_reverse, get32_put32_self]

theorem drop_putNet32 (v : UInt32) (r : Bytes) (k : Nat) : (putNet32 v ++ r).drop (k + 4) = r.drop k := by
  have hdrop : (putNet32 v ++ r).drop 4 = r := List.drop_left' rfl
  rw [Nat.add_comm, ← List.drop_drop, hdrop]

theorem put64_inj {v w : UInt64} (h : put64 v = put64 w) : v = w := by
  have := congrArg get64 h
  simpa only [get64_put64_self] using this

theorem digits_lt (l : Bytes) : ∀ d ∈ l.map UInt8.toNat, d < 256 := by
  intro d hd
  obtain ⟨b, -, rfl⟩ := List.mem_map.mp hd
  exact b.toNat_lt

theorem foldr_word_toNat (l : Bytes) (h : l.length ≤ 8) :
    (List.foldr (fun (b : UInt8) (v : UInt64) => (v <<< 8) ||| b.toUInt64) 0 l).toNat =
      Nat.ofDigits 256 (l.map UInt8.toNat) := by
  induction l with
  | nil => rfl
  | cons b l ih =>
    have hlen : l.length ≤ 7 := Nat.le_of_succ_le_succ h
    have hlt : Nat.ofDigits 256 (l.map UInt8.toNat) < 2 ^ 56 := by
      have hpow := Nat.ofDigits_lt_base_pow_length (by decide : 1 < 256) (digits_lt l)
      rw [List.length_map] at hpow
      exact hpow.trans_le (Nat.pow_le_pow_right (by decide : 0 < 256) hlen)
    have hb := b.toNat_lt
    rw [List.foldr_cons, List.map_cons, Nat.ofDigits_cons, UInt64.toNat_or, UInt64.toNat_shiftLeft, ih (by omega),
      UInt8.toNat_toUInt64]
    have hshift : Nat.ofDigits 256 (l.map UInt8.toNat) <<< (UInt64.toNat 8 % 64) % 2 ^ 64 =
        Nat.ofDigits 256 (l.map UInt8.toNat) <<< 8 := by
      apply Nat.mod_eq_of_lt
      rw [Nat.shiftLeft_eq]
      change _ * 2 ^ 8 < _
      omega
    rw [hshift, ← Nat.shiftLeft_add_eq_or_of_lt hb, Nat.shiftLeft_eq]
    omega

theorem get64_inj {p q : Bytes} (hp : p.length = 8) (hq : q.length = 8) (h : get64 p = get64 q) : p = q := by
  have hnat := congrArg UInt64.toNat h
  rw [get64, get64, List.take_of_length_le hp.le, List.take_of_length_le hq.le, foldr_word_toNat p hp.le,
    foldr_word_toNat q hq.le] at hnat
  have hmap := Nat.ofDigits_inj_of_len_eq (by decide : 1 < 256) (by rw [List.length_map, List.length_map, hp, hq])
    (digits_lt p) (digits_lt q) hnat
  exact List.map_injective_iff.mpr (fun a b hab => UInt8.toNat_inj.mp hab) hmap

end Ds4.Lib
