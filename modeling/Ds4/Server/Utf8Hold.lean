import Ds4.Server.StreamText
import Ds4.Tokenizer.Utf8
import Mathlib.Data.List.GetD

/-!
# Holding back an unfinished character

`utf8_stream_safe_len` cuts a text in front of a lead byte whose character needs more bytes than
are there (`Held`), and nowhere else but at its start. A text of whole characters that is cut where
nothing is held, or in front of a byte that begins a character, is cut into whole characters
(`ValidUtf8.of_append`, `ValidUtf8.split`).
-/

namespace Ds4.Server

open Ds4.Lib Ds4.Tokenizer

/-- The byte at `i` begins a character that needs more bytes than stand in front of `limit`. -/
def Held (s : Bytes) (i limit : Nat) : Prop :=
  i < limit ∧ (∀ j, i < j → j < limit → isContinuation (s.getD j 0) = true) ∧
    limit - i < utf8ExpectedLen (s.getD i 0)

/-- The text stops inside a character. -/
def StopsInside (s : Bytes) : Prop := ∃ i, Held s i s.length

/-- A text of whole characters. -/
def ValidUtf8 (s : Bytes) : Prop := ∃ cs, s = encode cs

/-! ## Bytes -/

theorem utf8ExpectedLen_le (c : UInt8) : utf8ExpectedLen c ≤ 4 := by
  unfold utf8ExpectedLen
  split_ifs <;> omega

set_option maxRecDepth 10000 in
theorem of_expectedLen {c : UInt8} (h : 1 < utf8ExpectedLen c) :
    isContinuation c = false ∧ 0x80 ≤ c := by
  revert h
  refine forall_byte (P := fun c => 1 < utf8ExpectedLen c → isContinuation c = false ∧ 0x80 ≤ c) ?_ c
  decide

set_option maxRecDepth 10000 in
theorem ge_of_isContinuation {c : UInt8} (h : isContinuation c = true) : 0x80 ≤ c := by
  revert h
  refine forall_byte (P := fun c => isContinuation c = true → 0x80 ≤ c) ?_ c
  decide

theorem expectedLen_ascii : ∀ n < 128, utf8ExpectedLen (UInt8.ofNat n) = 1 ∧
    isContinuation (UInt8.ofNat n) = false := by decide

theorem expectedLen_two : ∀ n < 32, 2 ≤ n → utf8ExpectedLen (UInt8.ofNat (n + 0xc0)) = 2 := by
  decide

theorem expectedLen_three : ∀ n < 16, utf8ExpectedLen (UInt8.ofNat (n + 0xe0)) = 3 := by
  decide

theorem expectedLen_four : ∀ n < 5, utf8ExpectedLen (UInt8.ofNat (n + 0xf0)) = 4 := by
  decide

theorem isContinuation_tail : ∀ n < 64, isContinuation (UInt8.ofNat (n + 0x80)) = true := by
  decide

theorem encodeChar_eq (c : Char) : ∃ d t, String.utf8EncodeChar c = d :: t ∧
    isContinuation d = false ∧ (∀ x ∈ t, isContinuation x = true) ∧
    utf8ExpectedLen d = t.length + 1 := by
  have hv : c.val.toNat < 0x110000 := by
    have := c.valid
    simp only [UInt32.isValidChar, Nat.isValidChar] at this
    omega
  have tail : ∀ n, isContinuation (UInt8.ofNat (n % 64 + 0x80)) = true :=
    fun n => isContinuation_tail _ (Nat.mod_lt _ (by norm_num))
  generalize hc : c.val.toNat = v at hv
  simp only [String.utf8EncodeChar, hc]
  split_ifs with h1 h2 h3
  · obtain ⟨hlen, hno⟩ := expectedLen_ascii v (by omega)
    generalize UInt8.ofNat v = b0 at hlen hno ⊢
    exact ⟨b0, [], rfl, hno, by simp, by simpa using hlen⟩
  · have hlen := expectedLen_two (v / 64 % 32) (by omega) (by omega)
    have h1 := tail v
    generalize UInt8.ofNat (v / 64 % 32 + 0xc0) = b0 at hlen ⊢
    generalize UInt8.ofNat (v % 64 + 0x80) = b1 at h1 ⊢
    exact ⟨b0, [b1], rfl, (of_expectedLen (by omega)).1, by simpa using h1, by simpa using hlen⟩
  · have hlen := expectedLen_three (v / 4096 % 16) (by omega)
    have h1 := tail (v / 64)
    have h2 := tail v
    generalize UInt8.ofNat (v / 4096 % 16 + 0xe0) = b0 at hlen ⊢
    generalize UInt8.ofNat (v / 64 % 64 + 0x80) = b1 at h1 ⊢
    generalize UInt8.ofNat (v % 64 + 0x80) = b2 at h2 ⊢
    exact ⟨b0, [b1, b2], rfl, (of_expectedLen (by omega)).1, by simpa using ⟨h1, h2⟩,
      by simpa using hlen⟩
  · have hlen := expectedLen_four (v / 262144 % 8) (by omega)
    have h1 := tail (v / 4096)
    have h2 := tail (v / 64)
    have h3 := tail v
    generalize UInt8.ofNat (v / 262144 % 8 + 0xf0) = b0 at hlen ⊢
    generalize UInt8.ofNat (v / 4096 % 64 + 0x80) = b1 at h1 ⊢
    generalize UInt8.ofNat (v / 64 % 64 + 0x80) = b2 at h2 ⊢
    generalize UInt8.ofNat (v % 64 + 0x80) = b3 at h3 ⊢
    exact ⟨b0, [b1, b2, b3], rfl, (of_expectedLen (by omega)).1, by simpa using ⟨h1, h2, h3⟩,
      by simpa using hlen⟩

/-! ## The cut -/

theorem utf8Back_spec (s : Bytes) (start n p : Nat) (h : start ≤ p) :
    start ≤ utf8Back s start n p ∧ utf8Back s start n p ≤ p ∧
      (∀ j, utf8Back s start n p ≤ j → j < p → isContinuation (s.getD j 0) = true) ∧
      (utf8Back s start n p = start ∨ utf8Back s start n p + n = p ∨
        isContinuation (s.getD (utf8Back s start n p - 1) 0) = false) := by
  induction n generalizing p with
  | zero => exact ⟨h, le_rfl, fun j h1 h2 => by rw [utf8Back] at h1; omega, .inr (.inl rfl)⟩
  | succ n ih =>
    rw [utf8Back]
    split_ifs with hc
    · obtain ⟨h1, h2, h3, h4⟩ := ih (p - 1) (by omega)
      refine ⟨h1, by omega, fun j hj hjp => ?_, ?_⟩
      · by_cases hjp' : j = p - 1
        · rw [hjp']
          exact hc.2
        · exact h3 j hj (by omega)
      · rcases h4 with h4 | h4 | h4
        · exact .inl h4
        · exact .inr (.inl (by omega))
        · exact .inr (.inr h4)
    · refine ⟨h, le_rfl, fun j h1 h2 => by omega, ?_⟩
      by_cases hs : start < p
      · exact .inr (.inr (by simpa using not_and.mp hc hs))
      · exact .inl (by omega)

/-- Where a text is cut: at the limit, at its start, or in front of a character that is held. -/
theorem utf8StreamSafeLen_cases (s : Bytes) {start limit : Nat} (h : start ≤ limit) :
    utf8StreamSafeLen s start limit false = limit ∨ utf8StreamSafeLen s start limit false = start ∨
      start ≤ utf8StreamSafeLen s start limit false ∧
        Held s (utf8StreamSafeLen s start limit false) limit := by
  rcases Nat.lt_or_ge start limit with h0 | h0
  swap
  · exact .inl (if_pos (.inr h0))
  rw [utf8StreamSafeLen, if_neg (by simpa using h0)]
  obtain ⟨h1, h2, h3, -⟩ := utf8Back_spec s start 4 limit h
  generalize utf8Back s start 4 limit = p at h1 h2 h3 ⊢
  dsimp only
  split_ifs with hp hlen hs hshort
  · refine .inr (.inr ⟨by omega, by omega, fun j hj hj' => by omega, ?_⟩)
    omega
  · exact .inl rfl
  · exact .inr (.inl rfl)
  · by_cases hps : p = start
    · exact absurd ⟨hps, h3 p le_rfl (by omega)⟩ hs
    · exact .inr (.inr ⟨by omega, by omega, fun j hj hj' => h3 j (by omega) hj', hshort⟩)
  · exact .inl rfl

theorem utf8StreamSafeLen_of_held {s : Bytes} {start limit i : Nat} (hi : start ≤ i)
    (h : Held s i limit) : utf8StreamSafeLen s start limit false = i := by
  obtain ⟨hlt, hcont, hlen⟩ := h
  have hlead := (of_expectedLen (c := s.getD i 0) (by omega)).1
  have h4 := utf8ExpectedLen_le (s.getD i 0)
  obtain ⟨h1, h2, h3, h5⟩ := utf8Back_spec s start 4 limit (by omega)
  have hback : utf8Back s start 4 limit = i + 1 := by
    generalize utf8Back s start 4 limit = p at h1 h2 h3 h5
    have hge : i < p := by
      by_contra hle
      have := h3 i (by omega) hlt
      rw [hlead] at this
      cases this
    by_contra hne
    rcases h5 with h5 | h5 | h5
    · omega
    · omega
    · rw [hcont (p - 1) (by omega) (by omega)] at h5
      cases h5
  rw [utf8StreamSafeLen, if_neg (by simp; omega), hback]
  dsimp only
  by_cases hil : i + 1 = limit
  · subst hil
    rw [if_pos rfl, Nat.add_sub_cancel, if_pos (by omega)]
  · rw [if_neg hil, if_neg (by omega), Nat.add_sub_cancel, if_pos hlen]

/-! ## Whole characters -/

theorem validUtf8_nil : ValidUtf8 [] := ⟨[], rfl⟩

theorem ValidUtf8.cons {s : Bytes} (c : Char) (h : ValidUtf8 s) :
    ValidUtf8 (String.utf8EncodeChar c ++ s) := by
  obtain ⟨cs, rfl⟩ := h
  exact ⟨c :: cs, rfl⟩

theorem ValidUtf8.append_left {a s : Bytes} (h : ValidUtf8 s) (ha : ValidUtf8 a) :
    ValidUtf8 (a ++ s) := by
  obtain ⟨cs, rfl⟩ := h
  obtain ⟨ds, rfl⟩ := ha
  exact ⟨ds ++ cs, (Tokenizer.encode_append ds cs).symm⟩

theorem ValidUtf8.head {s : Bytes} (h : ValidUtf8 s) :
    ∀ b, s.head? = some b → isContinuation b = false := by
  obtain ⟨cs, rfl⟩ := h
  intro b hb
  cases cs with
  | nil => simp at hb
  | cons c cs =>
    obtain ⟨d, t, hc, hd, -⟩ := encodeChar_eq c
    rw [encode_cons, hc] at hb
    obtain rfl : d = b := by simpa using hb
    exact hd

theorem StopsInside.append_left {s : Bytes} (h : StopsInside s) (a : Bytes) : StopsInside (a ++ s) := by
  obtain ⟨i, hlt, hcont, hlen⟩ := h
  refine ⟨a.length + i, by simpa, fun j hj hj' => ?_, ?_⟩
  · rw [List.length_append] at hj'
    rw [List.getD_append_right _ _ _ _ (by omega)]
    exact hcont _ (by omega) (by omega)
  · rw [List.getD_append_right _ _ _ _ (by omega), Nat.add_sub_cancel_left, List.length_append]
    omega

theorem stopsInside_of_isPrefix {c : Char} {a b : Bytes} (h : String.utf8EncodeChar c = a ++ b)
    (ha : a ≠ []) (hb : b ≠ []) : StopsInside a := by
  obtain ⟨d, t, hc, -, ht, hlen⟩ := encodeChar_eq c
  obtain ⟨d', a, rfl⟩ := List.exists_cons_of_ne_nil ha
  rw [hc, List.cons_append] at h
  obtain ⟨rfl, rfl⟩ := List.cons.inj h
  refine ⟨0, by simp, fun j hj hj' => ?_, ?_⟩
  · obtain ⟨j, rfl⟩ := Nat.exists_eq_succ_of_ne_zero (by omega : j ≠ 0)
    have hj : j < a.length := by simpa using hj'
    rw [Nat.succ_eq_add_one, List.getD_cons_succ, List.getD_eq_getElem _ _ hj]
    exact ht _ (List.mem_append_left b (List.getElem_mem hj))
  · have := List.length_pos_iff.mpr hb
    rw [List.getD_cons_zero, hlen]
    simp
    omega

/-- **A cut that does not stop inside a character leaves whole characters.** -/
theorem ValidUtf8.of_append {a b : Bytes} (h : ValidUtf8 (a ++ b)) (ha : ¬ StopsInside a) :
    ValidUtf8 a ∧ ValidUtf8 b := by
  obtain ⟨cs, hcs⟩ := h
  induction cs generalizing a with
  | nil =>
    obtain ⟨rfl, rfl⟩ := List.append_eq_nil_iff.mp hcs
    exact ⟨validUtf8_nil, validUtf8_nil⟩
  | cons c cs ih =>
    rw [encode_cons] at hcs
    rcases List.append_eq_append_iff.mp hcs with ⟨a', hc, rfl⟩ | ⟨a', rfl, hrest⟩
    · by_cases hnil : a = []
      · subst hnil
        obtain rfl : String.utf8EncodeChar c = a' := hc
        exact ⟨validUtf8_nil, .cons c ⟨cs, rfl⟩⟩
      · by_cases hnil' : a' = []
        · subst hnil'
          rw [List.append_nil] at hc
          exact ⟨⟨[c], by simp [← hc, encode]⟩, ⟨cs, rfl⟩⟩
        · exact absurd (stopsInside_of_isPrefix hc hnil hnil') ha
    · obtain ⟨h1, h2⟩ := ih (fun hs => ha (hs.append_left _)) hrest.symm
      exact ⟨h1.cons c, h2⟩

/-- **A cut in front of a byte that begins a character leaves whole characters.** -/
theorem ValidUtf8.split {a b : Bytes} (h : ValidUtf8 (a ++ b))
    (hb : ∀ d, b.head? = some d → isContinuation d = false) : ValidUtf8 a ∧ ValidUtf8 b := by
  obtain ⟨cs, hcs⟩ := h
  induction cs generalizing a with
  | nil =>
    obtain ⟨rfl, rfl⟩ := List.append_eq_nil_iff.mp hcs
    exact ⟨validUtf8_nil, validUtf8_nil⟩
  | cons c cs ih =>
    rw [encode_cons] at hcs
    rcases List.append_eq_append_iff.mp hcs with ⟨a', hc, rfl⟩ | ⟨a', rfl, hrest⟩
    · cases a with
      | nil =>
        obtain rfl : String.utf8EncodeChar c = a' := hc
        exact ⟨validUtf8_nil, .cons c ⟨cs, rfl⟩⟩
      | cons d a =>
        cases a' with
        | nil =>
          rw [List.append_nil] at hc
          exact ⟨⟨[c], by simp [← hc, encode]⟩, ⟨cs, rfl⟩⟩
        | cons d' a' =>
          obtain ⟨d0, t, hdt, -, ht, -⟩ := encodeChar_eq c
          rw [hdt, List.cons_append] at hc
          have hmem : d' ∈ t := by
            rw [(List.cons.inj hc).2]
            simp
          have := hb d' rfl
          rw [ht d' hmem] at this
          cases this
    · obtain ⟨h1, h2⟩ := ih hrest.symm
      exact ⟨h1.cons c, h2⟩

end Ds4.Server
