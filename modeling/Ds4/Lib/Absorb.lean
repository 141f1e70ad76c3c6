import Ds4.Lib.Bytes

/-!
# Block absorption

A digest collects bytes in a buffer and compresses each block of `B` bytes into its state. `absorb`
does so byte by byte, so absorbing a message in parts is absorbing it whole (`absorb_append`); loops
that move whole runs of bytes are `absorb` by `absorb_fill` and `absorb_block`.
-/

namespace Ds4.Lib

/-- The compressed state and the bytes of an unfinished block. -/
structure Absorber (σ : Type*) where
  acc : σ
  buf : Bytes

namespace Absorber

variable {σ : Type*} (B : Nat) (compress : σ → Bytes → σ)

/-- One byte. -/
def push (s : Absorber σ) (b : UInt8) : Absorber σ :=
  if (s.buf ++ [b]).length = B then ⟨compress s.acc (s.buf ++ [b]), []⟩ else ⟨s.acc, s.buf ++ [b]⟩

/-- A message. -/
def absorb (s : Absorber σ) (m : Bytes) : Absorber σ := m.foldl (push B compress) s

@[simp] theorem absorb_nil (s : Absorber σ) : absorb B compress s [] = s := rfl

theorem absorb_cons (s : Absorber σ) (b : UInt8) (m : Bytes) :
    absorb B compress s (b :: m) = absorb B compress (push B compress s b) m := rfl

/-- **The split law.** -/
theorem absorb_append (s : Absorber σ) (m m' : Bytes) :
    absorb B compress s (m ++ m') = absorb B compress (absorb B compress s m) m' :=
  List.foldl_append

theorem absorb_fill {s : Absorber σ} {m : Bytes} (h : s.buf.length + m.length < B) :
    absorb B compress s m = ⟨s.acc, s.buf ++ m⟩ := by
  induction m generalizing s with
  | nil => simp
  | cons b m ih =>
    have hb : (s.buf ++ [b]).length ≠ B := by simp at h ⊢; omega
    rw [absorb_cons, push, if_neg hb, ih (by simp at h ⊢; omega)]
    simp

theorem absorb_block {s : Absorber σ} {m : Bytes} (h : s.buf.length + m.length = B)
    (hm : m ≠ []) : absorb B compress s m = ⟨compress s.acc (s.buf ++ m), []⟩ := by
  obtain ⟨m, b, rfl⟩ : ∃ m' b, m = m' ++ [b] := ⟨_, _, (List.dropLast_append_getLast hm).symm⟩
  have hlt : s.buf.length + m.length < B := by simp at h; omega
  have hfull : (s.buf ++ m ++ [b]).length = B := by simp at h ⊢; omega
  rw [absorb_append, absorb_fill B compress hlt, absorb_cons, absorb_nil, push, if_pos hfull,
    List.append_assoc]

theorem absorb_buf_length {s : Absorber σ} (hs : s.buf.length < B) (m : Bytes) :
    (absorb B compress s m).buf.length = (s.buf.length + m.length) % B := by
  induction m generalizing s with
  | nil => exact (Nat.mod_eq_of_lt hs).symm
  | cons b m ih =>
    rw [absorb_cons, push]
    split_ifs with h
    · rw [ih (Nat.lt_of_le_of_lt (Nat.zero_le _) hs)]
      rw [List.length_append, List.length_singleton] at h
      rw [List.length_cons, List.length_nil, show s.buf.length + (m.length + 1) = B + (0 + m.length) by omega,
        Nat.add_mod_left]
    · have hlt : (s.buf ++ [b]).length < B := by
        rw [List.length_append, List.length_singleton] at h ⊢
        omega
      rw [ih hlt]
      simp only [List.length_append, List.length_cons, List.length_nil]
      rw [Nat.add_assoc, Nat.zero_add, Nat.add_comm 1]

theorem absorb_ne (hc : ∀ w, Function.Injective fun a => compress a w) {a a' : σ} (h : a ≠ a') (buf m : Bytes) :
    (absorb B compress ⟨a, buf⟩ m).acc ≠ (absorb B compress ⟨a', buf⟩ m).acc ∧
      (absorb B compress ⟨a, buf⟩ m).buf = (absorb B compress ⟨a', buf⟩ m).buf := by
  induction m generalizing a a' buf with
  | nil => exact ⟨h, rfl⟩
  | cons b m ih =>
    rw [absorb_cons, absorb_cons, push, push]
    split_ifs
    · exact ih (fun heq => h (hc _ heq)) []
    · exact ih h _

end Absorber

end Ds4.Lib
