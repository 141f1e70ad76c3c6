import Ds4.Lib.Bytes

/-!
# Reading UTF-8

`utf8_len_from_first_byte` and `utf8_peek_one`, on what is left of a text. On the encoding of a
character they read it, whatever follows.
-/

namespace Ds4.Tokenizer

open Ds4.Lib

/-- `utf8_len_from_first_byte`. -/
def utf8LenFromFirstByte (c : UInt8) : Nat :=
  if c < 0x80 then 1
  else if c &&& 0xe0 = 0xc0 then 2
  else if c &&& 0xf0 = 0xe0 then 3
  else if c &&& 0xf8 = 0xf0 then 4
  else 1

/-- The length of the character at the front of a text, one when it does not fit. -/
def charLen (l : Bytes) : Nat :=
  let n := utf8LenFromFirstByte (l.headD 0)
  if n > l.length then 1 else n

/-- What a continuation byte adds. -/
def tailBits (l : Bytes) (i : Nat) : Nat := (l.getD i 0 &&& 0x3f).toNat

/-- `utf8_peek_one`: the code point at the front of a text. -/
def utf8PeekOne (l : Bytes) : Nat :=
  let c0 := l.headD 0
  let n := charLen l
  if n = 1 then c0.toNat
  else if n = 2 then ((c0 &&& 0x1f).toNat <<< 6) ||| tailBits l 1
  else if n = 3 then ((c0 &&& 0x0f).toNat <<< 12) ||| (tailBits l 1 <<< 6) ||| tailBits l 2
  else
    ((c0 &&& 0x07).toNat <<< 18) ||| (tailBits l 1 <<< 12) ||| (tailBits l 2 <<< 6) ||| tailBits l 3

/-- What follows the character at the front of a text. -/
def utf8Next (l : Bytes) : Bytes := l.drop (charLen l)

theorem utf8LenFromFirstByte_bounds (c : UInt8) :
    1 ≤ utf8LenFromFirstByte c ∧ utf8LenFromFirstByte c ≤ 4 := by
  unfold utf8LenFromFirstByte
  split_ifs <;> omega

theorem charLen_pos (l : Bytes) : 1 ≤ charLen l := by
  have := (utf8LenFromFirstByte_bounds (l.headD 0)).1
  unfold charLen
  dsimp only
  split_ifs <;> omega

theorem utf8Next_suffix (l : Bytes) : utf8Next l <:+ l := List.drop_suffix _ _

/-! ## Encoded texts -/

/-- The encoding of a text. -/
def encode (cs : List Char) : Bytes := cs.flatMap String.utf8EncodeChar

@[simp] theorem encode_nil : encode [] = [] := rfl

theorem encode_cons (c : Char) (cs : List Char) :
    encode (c :: cs) = String.utf8EncodeChar c ++ encode cs := rfl

@[simp] theorem encode_append (cs ds : List Char) : encode (cs ++ ds) = encode cs ++ encode ds :=
  List.flatMap_append

theorem lead_ascii : ∀ n < 128, utf8LenFromFirstByte (UInt8.ofNat n) = 1 ∧
    (UInt8.ofNat n).toNat = n := by decide

theorem lead_two : ∀ n < 32, utf8LenFromFirstByte (UInt8.ofNat (n + 0xc0)) = 2 ∧
    (UInt8.ofNat (n + 0xc0) &&& 0x1f).toNat = n := by decide

theorem lead_three : ∀ n < 16, utf8LenFromFirstByte (UInt8.ofNat (n + 0xe0)) = 3 ∧
    (UInt8.ofNat (n + 0xe0) &&& 0x0f).toNat = n := by decide

theorem lead_four : ∀ n < 8, utf8LenFromFirstByte (UInt8.ofNat (n + 0xf0)) = 4 ∧
    (UInt8.ofNat (n + 0xf0) &&& 0x07).toNat = n := by decide

theorem tail_bits : ∀ n < 64, (UInt8.ofNat (n + 0x80) &&& 0x3f).toNat = n := by decide

theorem shift_or {a b k : Nat} (hb : b < 2 ^ k) : a <<< k ||| b = a * 2 ^ k + b := by
  rw [Nat.shiftLeft_eq, Nat.mul_comm, ← Nat.two_pow_add_eq_or_of_lt hb]

/-- **A character is read back.** -/
theorem peek_encodeChar (c : Char) (l : Bytes) :
    utf8PeekOne (String.utf8EncodeChar c ++ l) = c.toNat ∧
      charLen (String.utf8EncodeChar c ++ l) = (String.utf8EncodeChar c).length := by
  have hv : c.val.toNat < 0x110000 := by
    have := c.valid
    simp only [UInt32.isValidChar, Nat.isValidChar] at this
    omega
  show _ = c.val.toNat ∧ _
  generalize hc : c.val.toNat = v at hv
  simp only [String.utf8EncodeChar, hc]
  split_ifs with h1 h2 h3
  · obtain ⟨hlen, hval⟩ := lead_ascii v (by omega)
    generalize UInt8.ofNat v = b0 at hlen hval ⊢
    simp [utf8PeekOne, charLen, hlen, hval]
  · obtain ⟨hlen, hval⟩ := lead_two (v / 64 % 32) (by omega)
    have htail := tail_bits (v % 64) (by omega)
    generalize UInt8.ofNat (v / 64 % 32 + 0xc0) = b0 at hlen hval ⊢
    generalize UInt8.ofNat (v % 64 + 0x80) = b1 at htail ⊢
    have hchar : charLen (b0 :: b1 :: l) = 2 := by simp [charLen, hlen]
    refine ⟨?_, hchar⟩
    change utf8PeekOne (b0 :: b1 :: l) = v
    simp only [utf8PeekOne, hchar, tailBits, List.headD_cons,
      List.getD_cons_succ, List.getD_cons_zero, hval, htail]
    rw [if_neg (by decide), if_pos trivial, shift_or (by omega)]
    omega
  · obtain ⟨hlen, hval⟩ := lead_three (v / 4096 % 16) (by omega)
    have htail := tail_bits (v / 64 % 64) (by omega)
    have htail' := tail_bits (v % 64) (by omega)
    generalize UInt8.ofNat (v / 4096 % 16 + 0xe0) = b0 at hlen hval ⊢
    generalize UInt8.ofNat (v / 64 % 64 + 0x80) = b1 at htail ⊢
    generalize UInt8.ofNat (v % 64 + 0x80) = b2 at htail' ⊢
    have hchar : charLen (b0 :: b1 :: b2 :: l) = 3 := by simp [charLen, hlen]
    refine ⟨?_, hchar⟩
    change utf8PeekOne (b0 :: b1 :: b2 :: l) = v
    simp only [utf8PeekOne, hchar, tailBits, List.headD_cons,
      List.getD_cons_succ, List.getD_cons_zero, hval, htail, htail']
    rw [if_neg (by decide), if_neg (by decide), if_pos trivial, show (12 : Nat) = 6 + 6 from rfl,
      Nat.shiftLeft_add, ← Nat.shiftLeft_or_distrib,
      shift_or (k := 6) (a := v / 4096 % 16) (by omega), shift_or (by omega)]
    omega
  · obtain ⟨hlen, hval⟩ := lead_four (v / 262144 % 8) (by omega)
    have htail := tail_bits (v / 4096 % 64) (by omega)
    have htail' := tail_bits (v / 64 % 64) (by omega)
    have htail'' := tail_bits (v % 64) (by omega)
    generalize UInt8.ofNat (v / 262144 % 8 + 0xf0) = b0 at hlen hval ⊢
    generalize UInt8.ofNat (v / 4096 % 64 + 0x80) = b1 at htail ⊢
    generalize UInt8.ofNat (v / 64 % 64 + 0x80) = b2 at htail' ⊢
    generalize UInt8.ofNat (v % 64 + 0x80) = b3 at htail'' ⊢
    have hchar : charLen (b0 :: b1 :: b2 :: b3 :: l) = 4 := by simp [charLen, hlen]
    refine ⟨?_, hchar⟩
    change utf8PeekOne (b0 :: b1 :: b2 :: b3 :: l) = v
    simp only [utf8PeekOne, hchar, tailBits, List.headD_cons,
      List.getD_cons_succ, List.getD_cons_zero, hval, htail, htail', htail'']
    rw [if_neg (by decide), if_neg (by decide), if_neg (by decide),
      show (18 : Nat) = 6 + 6 + 6 from rfl, show (12 : Nat) = 6 + 6 from rfl,
      Nat.shiftLeft_add _ (6 + 6) 6, Nat.shiftLeft_add _ 6 6, Nat.shiftLeft_add _ 6 6, ← Nat.shiftLeft_or_distrib,
      ← Nat.shiftLeft_or_distrib, ← Nat.shiftLeft_or_distrib,
      shift_or (k := 6) (a := v / 262144 % 8) (by omega), shift_or (k := 6) (by omega),
      shift_or (by omega)]
    omega

@[simp] theorem utf8PeekOne_cons (c : Char) (cs : List Char) :
    utf8PeekOne (encode (c :: cs)) = c.toNat := (peek_encodeChar c _).1

@[simp] theorem utf8Next_cons (c : Char) (cs : List Char) :
    utf8Next (encode (c :: cs)) = encode cs := by
  rw [utf8Next, encode_cons, (peek_encodeChar c _).2, List.drop_left]

@[simp] theorem encode_eq_nil {cs : List Char} : encode cs = [] ↔ cs = [] := by
  cases cs with
  | nil => simp
  | cons c cs => simp [encode_cons]

theorem length_le_encode (cs : List Char) : cs.length ≤ (encode cs).length := by
  induction cs with
  | nil => exact le_rfl
  | cons c cs ih =>
    have hpos : 1 ≤ (String.utf8EncodeChar c).length := by
      rw [← (peek_encodeChar c []).2]
      exact charLen_pos _
    rw [encode_cons, List.length_append, List.length_cons]
    omega

theorem lead_high : (∀ n < 32, 0x80 ≤ UInt8.ofNat (n + 0xc0)) ∧ (∀ n < 16, 0x80 ≤ UInt8.ofNat (n + 0xe0)) ∧
    ∀ n < 8, 0x80 ≤ UInt8.ofNat (n + 0xf0) := by decide

theorem encodeChar_head (c : Char) :
    ∃ b t, String.utf8EncodeChar c = b :: t ∧
      ((c.toNat < 0x80 ∧ b = UInt8.ofNat c.toNat ∧ t = []) ∨ (0x80 ≤ c.toNat ∧ 0x80 ≤ b)) := by
  obtain ⟨htwo, hthree, hfour⟩ := lead_high
  show ∃ b t, _ ∧ ((c.val.toNat < 0x80 ∧ b = UInt8.ofNat c.val.toNat ∧ _) ∨ (0x80 ≤ c.val.toNat ∧ _))
  simp only [String.utf8EncodeChar]
  generalize c.val.toNat = v
  split_ifs with h1 h2 h3
  · exact ⟨_, _, rfl, Or.inl ⟨by omega, rfl, rfl⟩⟩
  · exact ⟨_, _, rfl, Or.inr ⟨by omega, htwo _ (by omega)⟩⟩
  · exact ⟨_, _, rfl, Or.inr ⟨by omega, hthree _ (by omega)⟩⟩
  · exact ⟨_, _, rfl, Or.inr ⟨by omega, hfour _ (by omega)⟩⟩

theorem encode_dropWhile {p : UInt8 → Bool} (hp : ∀ b, 0x80 ≤ b → p b = false) (cs : List Char) :
    (encode cs).dropWhile p =
      encode (cs.dropWhile fun c => decide (c.toNat < 0x80) && p (UInt8.ofNat c.toNat)) := by
  induction cs with
  | nil => rfl
  | cons c cs ih =>
    obtain ⟨b, t, hbt, ⟨hlt, rfl, rfl⟩ | ⟨hge, hb⟩⟩ := encodeChar_head c
    · rw [encode_cons, hbt, List.dropWhile_cons, decide_eq_true hlt, Bool.true_and]
      cases h : p (UInt8.ofNat c.toNat)
      · simp [encode_cons, hbt, h]
      · simpa [h] using ih
    · rw [encode_cons, hbt, List.cons_append, List.dropWhile_cons, hp b hb, List.dropWhile_cons,
        decide_eq_false (by omega), Bool.false_and, if_neg (by simp), if_neg (by simp), encode_cons, hbt,
        List.cons_append]

end Ds4.Tokenizer
