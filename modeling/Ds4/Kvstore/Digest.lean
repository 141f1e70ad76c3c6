import Ds4.Lib.Absorb
import Ds4.Lib.Words

/-!
# The payload digest

A word-wise FNV-style mix over 64-bit words, with the last word padded by zeros and the length mixed
in at the end. `hashUpdate` first completes a word begun by an earlier call, then mixes whole words
and keeps the rest; it is an `Absorber` with blocks of eight bytes, so the digest of a text does not
depend on how it is cut (`hashUpdate_append`). Each step of the mix can be undone, so a change inside
one aligned word changes the digest.
-/

namespace Ds4.Kvstore

open Ds4.Lib

/-- `KV_HASH_PRIME`. -/
def hashPrime : UInt64 := 0x100000001b3

/-- `KV_HASH_BASIS`. -/
def hashBasis : UInt64 := 0xcbf29ce484222325

/-- `kv_hash_mix`. -/
def hashMix (h w : UInt64) : UInt64 :=
  let h := (h ^^^ w) * hashPrime
  h ^^^ (h >>> 29)

/-- `kv_load64` on a little-endian machine. -/
def load64 (p : Bytes) : UInt64 := get64 p

/-- `ds4_kvstore_hash`; `tl` is the length of `tail`. -/
structure Hash where
  h : UInt64
  n : UInt64
  tail : Bytes
deriving DecidableEq

/-- `ds4_kvstore_hash_init`. -/
def hashInit : Hash := ⟨hashBasis, 0, []⟩

/-- One byte into the tail. -/
def pushTail (s : Hash) (b : UInt8) : Hash :=
  if (s.tail ++ [b]).length = 8 then ⟨hashMix s.h (load64 (s.tail ++ [b])), s.n, []⟩
  else ⟨s.h, s.n, s.tail ++ [b]⟩

/-- The first loop of `ds4_kvstore_hash_update`: `while (s->tl && n)`. -/
def fillTail (s : Hash) : Bytes → Hash × Bytes
  | [] => (s, [])
  | b :: p => if s.tail = [] then (s, b :: p) else fillTail (pushTail s b) p

/-- The second loop: `while (n >= 8)`. -/
def mixWords (h : UInt64) : Bytes → UInt64 × Bytes
  | b₀ :: b₁ :: b₂ :: b₃ :: b₄ :: b₅ :: b₆ :: b₇ :: p =>
    mixWords (hashMix h (load64 [b₀, b₁, b₂, b₃, b₄, b₅, b₆, b₇])) p
  | p => (h, p)

/-- `ds4_kvstore_hash_update`. -/
def hashUpdate (s : Hash) (p : Bytes) : Hash :=
  let r := fillTail ⟨s.h, s.n + UInt64.ofNat p.length, s.tail⟩ p
  let w := mixWords r.1.h r.2
  ⟨w.1, r.1.n, r.1.tail ++ w.2⟩

/-- `ds4_kvstore_hash_final`. -/
def hashFinal (s : Hash) : UInt64 :=
  let h := if s.tail = [] then s.h
    else hashMix s.h (load64 (s.tail ++ List.replicate (8 - s.tail.length) 0))
  hashMix h s.n

/-- `ds4_kvstore_payload_hash`. -/
def payloadHash (p : Bytes) : UInt64 := hashFinal (hashUpdate hashInit p)

/-! ## The loops absorb -/

/-- One word. -/
def hashBlock (h : UInt64) (w : Bytes) : UInt64 := hashMix h (load64 w)

/-- The state without the length. -/
def Hash.abs (s : Hash) : Absorber UInt64 := ⟨s.h, s.tail⟩

theorem pushTail_abs (s : Hash) (b : UInt8) :
    (pushTail s b).abs = Absorber.push 8 hashBlock s.abs b := by
  unfold pushTail Absorber.push
  by_cases h : (s.tail ++ [b]).length = 8
  · rw [if_pos h]
    exact (if_pos h).symm
  · rw [if_neg h]
    exact (if_neg h).symm

@[simp] theorem pushTail_n (s : Hash) (b : UInt8) : (pushTail s b).n = s.n := by
  unfold pushTail
  split <;> rfl

theorem fillTail_absorb (s : Hash) (p : Bytes) :
    Absorber.absorb 8 hashBlock (fillTail s p).1.abs (fillTail s p).2 =
        Absorber.absorb 8 hashBlock s.abs p ∧
      (fillTail s p).1.n = s.n ∧ ((fillTail s p).1.tail = [] ∨ (fillTail s p).2 = []) := by
  induction p generalizing s with
  | nil => exact ⟨rfl, rfl, .inr rfl⟩
  | cons b p ih =>
    unfold fillTail
    by_cases ht : s.tail = []
    · rw [if_pos ht]
      exact ⟨rfl, rfl, .inl ht⟩
    · rw [if_neg ht]
      obtain ⟨habs, hn, hor⟩ := ih (pushTail s b)
      exact ⟨by rw [habs, pushTail_abs, Absorber.absorb_cons], by rw [hn, pushTail_n], hor⟩

theorem mixWords_absorb (h : UInt64) (p : Bytes) :
    (⟨(mixWords h p).1, (mixWords h p).2⟩ : Absorber UInt64) =
      Absorber.absorb 8 hashBlock ⟨h, []⟩ p := by
  fun_induction mixWords h p with
  | case1 h b₀ b₁ b₂ b₃ b₄ b₅ b₆ b₇ p ih =>
    have hblock : Absorber.absorb 8 hashBlock ⟨h, []⟩ [b₀, b₁, b₂, b₃, b₄, b₅, b₆, b₇] =
        ⟨hashMix h (load64 [b₀, b₁, b₂, b₃, b₄, b₅, b₆, b₇]), []⟩ :=
      Absorber.absorb_block 8 hashBlock rfl (by simp)
    rw [ih, ← hblock, ← Absorber.absorb_append]
    rfl
  | case2 h p hp =>
    have hlt : p.length < 8 := by
      rcases p with _ | ⟨b₀, _ | ⟨b₁, _ | ⟨b₂, _ | ⟨b₃, _ | ⟨b₄, _ | ⟨b₅, _ | ⟨b₆, _ | ⟨b₇, p⟩⟩⟩⟩⟩⟩⟩⟩
      all_goals first | (exact absurd rfl (hp _ _ _ _ _ _ _ _ _)) | simp
    rw [Absorber.absorb_fill 8 hashBlock (by simpa using hlt)]
    rfl

theorem hashUpdate_spec (s : Hash) (p : Bytes) :
    (hashUpdate s p).abs = Absorber.absorb 8 hashBlock s.abs p ∧
      (hashUpdate s p).n = s.n + UInt64.ofNat p.length := by
  obtain ⟨habs, hn, hor⟩ := fillTail_absorb ⟨s.h, s.n + UInt64.ofNat p.length, s.tail⟩ p
  have hs : (⟨s.h, s.n + UInt64.ofNat p.length, s.tail⟩ : Hash).abs = s.abs := rfl
  rw [hs] at habs
  refine ⟨?_, hn⟩
  rw [← habs]
  unfold hashUpdate
  generalize hr : fillTail ⟨s.h, s.n + UInt64.ofNat p.length, s.tail⟩ p = r at hor ⊢
  obtain ⟨r, q⟩ := r
  simp only at hor ⊢
  rcases hor with ht | rfl
  · have := mixWords_absorb r.h q
    simp only [Hash.abs, ht, List.nil_append]
    exact this
  · simp [Hash.abs, mixWords]

theorem hash_ext {s t : Hash} (h : s.abs = t.abs) (hn : s.n = t.n) : s = t := by
  obtain ⟨sh, sn, st⟩ := s
  obtain ⟨th, tn, tt⟩ := t
  simp_all [Hash.abs]

/-- **The split law of the digest.** -/
theorem hashUpdate_append (s : Hash) (p q : Bytes) :
    hashUpdate (hashUpdate s p) q = hashUpdate s (p ++ q) := by
  obtain ⟨habs, hn⟩ := hashUpdate_spec s p
  obtain ⟨habs', hn'⟩ := hashUpdate_spec (hashUpdate s p) q
  obtain ⟨habs'', hn''⟩ := hashUpdate_spec s (p ++ q)
  refine hash_ext ?_ ?_
  · rw [habs', habs, habs'', Absorber.absorb_append]
  · rw [hn', hn, hn'', List.length_append, UInt64.ofNat_add, add_assoc]

@[simp] theorem hashUpdate_nil (s : Hash) : hashUpdate s [] = s := by
  obtain ⟨habs, hn⟩ := hashUpdate_spec s []
  exact hash_ext habs (by simpa using hn)

/-! ## A changed word -/

theorem hashPrime_inv : hashPrime * 0xce965057aff6957b = 1 := by decide

theorem eq_zero_of_shift {z : UInt64} (h : z = z >>> 29) : z = 0 := by
  have hnat := congrArg UInt64.toNat h
  rw [UInt64.toNat_shiftRight, Nat.shiftRight_eq_div_pow] at hnat
  apply UInt64.toNat_inj.mp
  change z.toNat = 0
  by_contra hz
  exact absurd hnat (Nat.div_lt_self (Nat.pos_of_ne_zero hz) (by decide)).ne'

theorem xorShift_injective : Function.Injective fun h : UInt64 => h ^^^ (h >>> 29) := by
  intro x y (h : x ^^^ (x >>> 29) = y ^^^ (y >>> 29))
  have hz : x ^^^ y = (x ^^^ y) >>> 29 := by
    rw [UInt64.shiftRight_xor, ← UInt64.xor_eq_zero_iff]
    calc x ^^^ y ^^^ (x >>> 29 ^^^ y >>> 29) = (x ^^^ (x >>> 29)) ^^^ (y ^^^ (y >>> 29)) := by ac_rfl
      _ = 0 := UInt64.xor_eq_zero_iff.mpr h
  exact UInt64.xor_eq_zero_iff.mp (eq_zero_of_shift hz)

theorem hashMix_xor_inj {x y : UInt64} (h : x * hashPrime ^^^ ((x * hashPrime) >>> 29) =
    y * hashPrime ^^^ ((y * hashPrime) >>> 29)) : x = y := by
  have hmul : x * hashPrime = y * hashPrime := xorShift_injective h
  have hinv := congrArg (· * 0xce965057aff6957b) hmul
  simp only [UInt64.mul_assoc, hashPrime_inv, UInt64.mul_one] at hinv
  exact hinv

theorem hashMix_injective_left (w : UInt64) : Function.Injective fun h => hashMix h w := by
  intro h h' heq
  exact (UInt64.xor_left_inj w).mp (hashMix_xor_inj heq)

theorem hashMix_injective_right (h : UInt64) : Function.Injective (hashMix h) := by
  intro w w' heq
  exact (UInt64.xor_right_inj h).mp (hashMix_xor_inj heq)

theorem hashBlock_injective (w : Bytes) : Function.Injective fun h => hashBlock h w :=
  hashMix_injective_left (load64 w)

theorem hashBlock_ne (h : UInt64) {w w' : Bytes} (hw : w.length = 8) (hw' : w'.length = 8) (hne : w ≠ w') :
    hashBlock h w ≠ hashBlock h w' := by
  intro heq
  exact hne (get64_inj hw hw' (hashMix_injective_right h heq))

/-- The end of a digest: the rest is padded. -/
def padded (s : Absorber UInt64) : UInt64 :=
  if s.buf = [] then s.acc else hashBlock s.acc (s.buf ++ List.replicate (8 - s.buf.length) 0)

theorem payloadHash_eq (p : Bytes) :
    payloadHash p = hashMix (padded (Absorber.absorb 8 hashBlock ⟨hashBasis, []⟩ p)) (UInt64.ofNat p.length) := by
  obtain ⟨habs, hn⟩ := hashUpdate_spec hashInit p
  have hstart : hashInit.abs = ⟨hashBasis, []⟩ := rfl
  rw [payloadHash, hashFinal, ← hstart, ← habs, hn, show hashInit.n = 0 from rfl, UInt64.zero_add]
  rfl

theorem padded_ne_acc {s s' : Absorber UInt64} (hbuf : s.buf = s'.buf) (hacc : s.acc ≠ s'.acc) :
    padded s ≠ padded s' := by
  rw [padded, padded, ← hbuf]
  split_ifs
  · exact hacc
  · exact fun heq => hacc (hashBlock_injective _ heq)

theorem padded_ne_buf {h : UInt64} {b b' : Bytes} (hlt : b.length < 8) (hlen : b.length = b'.length) (hne : b ≠ b') :
    padded ⟨h, b⟩ ≠ padded ⟨h, b'⟩ := by
  have hb : b ≠ [] := by
    rintro rfl
    exact hne (List.length_eq_zero_iff.mp hlen.symm).symm
  have hb' : b' ≠ [] := by
    rintro rfl
    exact hb (List.length_eq_zero_iff.mp hlen)
  rw [padded, padded, if_neg hb, if_neg hb']
  dsimp only
  rw [← hlen]
  apply hashBlock_ne
  · rw [List.length_append, List.length_replicate]
    omega
  · rw [List.length_append, List.length_replicate]
    omega
  · exact fun heq => hne (List.append_cancel_right heq)

theorem payloadHash_ne {a b b' c : Bytes} (ha : a.length % 8 = 0) (hlen : b.length = b'.length)
    (hblock : b.length = 8 ∨ b.length < 8 ∧ c = []) (hne : b ≠ b') :
    payloadHash (a ++ b ++ c) ≠ payloadHash (a ++ b' ++ c) := by
  have hlength : (a ++ b ++ c).length = (a ++ b' ++ c).length := by
    simp only [List.length_append, hlen]
  rw [payloadHash_eq, payloadHash_eq, hlength]
  intro heq
  have hpadded := hashMix_injective_left _ heq
  revert hpadded
  rw [Absorber.absorb_append, Absorber.absorb_append, Absorber.absorb_append, Absorber.absorb_append]
  have hbuf := @Absorber.absorb_buf_length _ 8 hashBlock ⟨hashBasis, []⟩ (by decide) a
  rw [List.length_nil, Nat.zero_add, ha, List.length_eq_zero_iff] at hbuf
  generalize Absorber.absorb 8 hashBlock ⟨hashBasis, []⟩ a = s at hbuf
  obtain ⟨h, buf⟩ := s
  obtain rfl : buf = [] := hbuf
  rcases hblock with hfull | ⟨hpart, rfl⟩
  · have hb : b ≠ [] := List.ne_nil_of_length_pos (by omega)
    have hb' : b' ≠ [] := List.ne_nil_of_length_pos (by omega)
    have hfull' : b'.length = 8 := hlen ▸ hfull
    rw [Absorber.absorb_block 8 hashBlock (by rw [List.length_nil, Nat.zero_add, hfull]) hb,
      Absorber.absorb_block 8 hashBlock (by rw [List.length_nil, Nat.zero_add, hfull']) hb']
    have hmixed : hashBlock h b ≠ hashBlock h b' := hashBlock_ne h hfull hfull' hne
    obtain ⟨hacc, hrest⟩ := Absorber.absorb_ne 8 hashBlock hashBlock_injective hmixed [] c
    exact padded_ne_acc hrest hacc
  · have hpart' : b'.length < 8 := hlen ▸ hpart
    rw [Absorber.absorb_nil, Absorber.absorb_nil,
      Absorber.absorb_fill 8 hashBlock (by rw [List.length_nil, Nat.zero_add]; exact hpart),
      Absorber.absorb_fill 8 hashBlock (by rw [List.length_nil, Nat.zero_add]; exact hpart')]
    exact padded_ne_buf hpart hlen hne

/-- **The digest of a text does not depend on how it is cut, and a change inside one aligned word changes it.** -/
theorem payloadHash_chunks_and_words :
    (∀ chunks : List Bytes, hashFinal (chunks.foldl hashUpdate hashInit) = payloadHash chunks.flatten) ∧
      ∀ (p q : Bytes) (k : Nat), p.length = q.length → (∀ i, i / 8 ≠ k → p[i]? = q[i]?) → p ≠ q →
        payloadHash p ≠ payloadHash q := by
  constructor
  · intro chunks
    have hfold : ∀ s, chunks.foldl hashUpdate s = hashUpdate s chunks.flatten := by
      induction chunks with
      | nil => exact fun s => (hashUpdate_nil s).symm
      | cons chunk chunks ih =>
        intro s
        rw [List.foldl_cons, ih, hashUpdate_append, List.flatten_cons]
    rw [hfold, payloadHash]
  · intro p q k hlen hsame hne
    have hcut : ∀ l : Bytes, l.take (8 * k) ++ (l.drop (8 * k)).take 8 ++ l.drop (8 * k + 8) = l := by
      intro l
      rw [List.append_assoc, ← List.drop_drop, List.take_append_drop, List.take_append_drop]
    have hfront : p.take (8 * k) = q.take (8 * k) := by
      apply List.ext_getElem?
      intro i
      rw [List.getElem?_take, List.getElem?_take]
      split_ifs with hi
      · exact hsame i (by omega)
      · rfl
    have hback : p.drop (8 * k + 8) = q.drop (8 * k + 8) := by
      apply List.ext_getElem?
      intro i
      rw [List.getElem?_drop, List.getElem?_drop]
      exact hsame _ (by omega)
    have hword : (p.drop (8 * k)).take 8 ≠ (q.drop (8 * k)).take 8 := by
      intro heq
      apply hne
      rw [← hcut p, ← hcut q, hfront, heq, hback]
    have hlong : 8 * k ≤ p.length := by
      by_contra hlt
      rw [List.drop_eq_nil_of_le (by omega), List.drop_eq_nil_of_le (by omega)] at hword
      exact hword rfl
    rw [← hcut p, ← hcut q, ← hfront, ← hback]
    apply payloadHash_ne
    · rw [List.length_take]
      omega
    · rw [List.length_take, List.length_take, List.length_drop, List.length_drop, hlen]
    · rw [List.length_take, List.length_drop]
      by_cases hfull : 8 * k + 8 ≤ p.length
      · exact .inl (by omega)
      · exact .inr ⟨by omega, List.drop_eq_nil_of_le (by omega)⟩
    · exact hword

/-- Two texts of two words and a rest that differ in the second word, in two of its bytes. -/
theorem payloadHash_chunks_and_words_second :
    payloadHash [1, 2, 3, 4, 5, 6, 7, 8, 9, 10, 11, 12, 13, 14, 15, 16, 17, 18, 19] ≠
      payloadHash [1, 2, 3, 4, 5, 6, 7, 8, 9, 99, 11, 12, 13, 14, 15, 77, 17, 18, 19] := by
  set p : Bytes := [1, 2, 3, 4, 5, 6, 7, 8, 9, 10, 11, 12, 13, 14, 15, 16, 17, 18, 19] with hp
  set q : Bytes := [1, 2, 3, 4, 5, 6, 7, 8, 9, 99, 11, 12, 13, 14, 15, 77, 17, 18, 19] with hq
  have hother : ∀ i < 19, i / 8 ≠ 1 → p[i]? = q[i]? := by decide
  refine payloadHash_chunks_and_words.2 p q 1 rfl (fun i hi => ?_) (by decide)
  by_cases hlt : i < 19
  · exact hother i hlt hi
  · rw [List.getElem?_eq_none (Nat.le_of_not_lt hlt), List.getElem?_eq_none (Nat.le_of_not_lt hlt)]

end Ds4.Kvstore
