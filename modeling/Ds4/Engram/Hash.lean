import Ds4.Lib.Machine
import Mathlib.Algebra.BigOperators.Fin
import Mathlib.Data.UInt
import Mathlib.Tactic

/-!
# Engram hashing

`layoutValid`, `historyReset` and `hash` are `ds4_engram_layout_valid`, `ds4_engram_history_reset`
and `ds4_engram_hash`. The loop of `hash` is a streaming machine over the tokens (`hashStep`): its
state is the tail of the last compressed ids and it emits the `2 · 24` row ids of a token.

What a valid layout gives is `Valid`: the columns of a layer partition its table (`colStart`), and no
product of an id and a multiplier reaches 63 bits.
-/

namespace Ds4.Engram

open Ds4.Lib

/-- `DS4_ENGRAM_LAYERS`. -/
abbrev layers : Nat := 2

/-- `DS4_ENGRAM_NGRAM`. -/
abbrev ngram : Nat := 4

/-- `DS4_ENGRAM_HEADS`. -/
abbrev heads : Nat := 8

/-- `DS4_ENGRAM_COLS`. -/
abbrev cols : Nat := 24

/-- `DS4_ENGRAM_NGRAM - 1`, the ids a history keeps. -/
abbrev tailLen : Nat := 3

scoped instance neZeroNgram : NeZero ngram := ⟨by decide⟩

scoped instance neZeroCols : NeZero cols := ⟨by decide⟩

scoped instance neZeroTailLen : NeZero tailLen := ⟨by decide⟩

/-- `DS4_ENGRAM_DEAD`. -/
def dead : Int := -1

/-- `INT32_MAX`. -/
def int32Max : UInt32 := 2147483647

/-- `INT64_MAX`. -/
def int64Max : UInt64 := 9223372036854775807

/-- `SIZE_MAX`. -/
def sizeMax : Nat := 2 ^ 64 - 1

/-- `ds4_engram_layout`; the token map is an array of `vocab_size` entries. -/
structure Layout where
  vocabSize : UInt32
  tokenMap : Vector UInt32 vocabSize.toNat
  compressedVocabSize : UInt32
  padId : UInt32
  rows : Fin layers → UInt32
  multipliers : Fin layers → Fin ngram → UInt64
  primes : Fin layers → Fin cols → UInt32

/-- `ds4_engram_history`: the last compressed ids, newest first. -/
structure History where
  tail : Fin tailLen → Int

/-- The sum of the first `n` primes of a layer, as the `uint64_t total` of the check adds them. -/
def primesTotal (l : Layout) (layer : Fin layers) : UInt64 :=
  (List.finRange cols).foldl (fun total i => total + (l.primes layer i).toUInt64) 0

/-- `ds4_engram_layout_valid`. -/
def layoutValid (l : Layout) : Bool :=
  l.vocabSize ≠ 0 && l.compressedVocabSize ≠ 0 && l.compressedVocabSize ≤ int32Max &&
    l.padId < l.compressedVocabSize &&
    l.tokenMap.toList.all (· < l.compressedVocabSize) &&
    (List.finRange layers).all fun layer =>
      ((List.finRange ngram).all fun i =>
        l.multipliers layer i % 2 == 1 &&
          l.multipliers layer i ≤ int64Max / l.compressedVocabSize.toUInt64) &&
      ((List.finRange cols).all fun i => 2 ≤ l.primes layer i) &&
      primesTotal l layer == (l.rows layer).toUInt64

/-- `ds4_engram_history_reset`. -/
def historyReset : History := ⟨fun _ => dead⟩

/-- The check of the carried tail in `ds4_engram_hash`. -/
def historyOk (l : Layout) (h : History) : Bool :=
  (List.finRange tailLen).all fun i =>
    decide (dead ≤ h.tail i) && decide (h.tail i < l.compressedVocabSize.toNat)

/-- The check of one token in `ds4_engram_hash`. -/
def tokenOk (l : Layout) (t : Int) : Bool := decide (0 ≤ t) && decide (t < l.vocabSize.toNat)

/-- A token with its mask byte read: `true` where the mask breaks the n-grams. -/
abbrev Item := Int × Bool

/-- `mask && !mask[i]` for every token of a call. -/
def items (tokens : List Int) (mask : Option (List UInt8)) : List Item :=
  match mask with
  | none => tokens.map (·, false)
  | some m => tokens.zip (m.map (· == 0))

/-- `current`: the compressed id of a token, dead where masked. -/
def current (l : Layout) (x : Item) : Int :=
  if x.2 then dead else (l.tokenMap.toList.getD x.1.toNat 0).toNat

/-- The `j`-th id of the window, `current` and then the tail. -/
def windowAt (h : History) (cur : Int) (j : Nat) : Int :=
  if j = 0 then cur else h.tail (Fin.ofNat tailLen (j - 1))

/-- The `ids` array of one token: from the nearest dead position on, the pad id. -/
def tokenIds (l : Layout) (h : History) (cur : Int) (j : Nat) : UInt32 :=
  if (List.range (j + 1)).any (fun u => windowAt h cur u == dead) then l.padId
  else UInt32.ofNat (windowAt h cur j).toNat

/-- The body of the `head` loop: one row id, and the offset after the column's prime. -/
def headStep (l : Layout) (layer : Fin layers) (j : Nat) (gram : UInt64)
    (st : UInt32 × List UInt32) (head : Nat) : UInt32 × List UInt32 :=
  let prime := l.primes layer (Fin.ofNat cols ((j - 1) * heads + head))
  (st.1 + prime, st.2 ++ [(gram % prime.toUInt64).toUInt32 + st.1])

/-- The body of the `j` loop: the next id into the hash, then the eight heads. -/
def gramStep (l : Layout) (layer : Fin layers) (ids : Nat → UInt32)
    (st : UInt64 × UInt32 × List UInt32) (j : Nat) : UInt64 × UInt32 × List UInt32 :=
  let gram := st.1 ^^^ (ids j).toUInt64 * l.multipliers layer (Fin.ofNat ngram j)
  (gram, (List.range heads).foldl (headStep l layer j gram) st.2)

/-- The row ids of one token in one layer. -/
def layerRows (l : Layout) (ids : Nat → UInt32) (layer : Fin layers) : List UInt32 :=
  ((List.range' 1 tailLen).foldl (gramStep l layer ids)
    ((ids 0).toUInt64 * l.multipliers layer 0, 0, [])).2.2

/-- The tail after a token. -/
def History.push (h : History) (cur : Int) : History :=
  ⟨fun j => windowAt h cur j⟩

/-- The loop body of `ds4_engram_hash`: the rows of one token and the shifted tail. -/
def hashStep (l : Layout) (h : History) (x : Item) : History × List UInt32 :=
  (h.push (current l x),
    (List.finRange layers).flatMap (layerRows l (tokenIds l h (current l x))))

/-- `ds4_engram_hash`: the result, the history and the rows written. -/
def hash (l : Layout) (h : History) (tokens : List Int) (mask : Option (List UInt8)) :
    Bool × History × List UInt32 :=
  if tokens.length > sizeMax / (layers * cols * 4) then (false, h, [])
  else if !historyOk l h then (false, h, [])
  else if !tokens.all (tokenOk l) then (false, h, [])
  else (true, Machine.run (hashStep l) h (items tokens mask))

/-- The same sequence and mask offered in consecutive calls, each with the history of the one
before, until one is refused. -/
def hashParts (l : Layout) (h : History) : List (List Int) → Option (List UInt8) →
    Bool × History × List UInt32
  | [], _ => (true, h, [])
  | p :: ps, mask =>
    match hash l h p (mask.map (·.take p.length)) with
    | (false, h', _) => (false, h', [])
    | (true, h', rows) =>
      let r := hashParts l h' ps (mask.map (·.drop p.length))
      (r.1, r.2.1, rows ++ r.2.2)

/-! ## What a valid layout gives -/

theorem int64Max_div (c : UInt32) : (int64Max / c.toUInt64).toNat = (2 ^ 63 - 1) / c.toNat := by
  simp [int64Max, UInt64.toNat_div]

/-- The rows of a layer before column `c`. -/
def colStart (l : Layout) (layer : Fin layers) (c : Nat) : Nat :=
  ∑ i ∈ Finset.range c, (l.primes layer (Fin.ofNat cols i)).toNat

theorem colStart_succ (l : Layout) (layer : Fin layers) (c : Nat) :
    colStart l layer (c + 1) =
      colStart l layer c + (l.primes layer (Fin.ofNat cols c)).toNat :=
  Finset.sum_range_succ _ _

theorem colStart_mono (l : Layout) (layer : Fin layers) {c c' : Nat} (h : c ≤ c') :
    colStart l layer c ≤ colStart l layer c' :=
  Finset.sum_le_sum_of_subset (Finset.range_mono h)

theorem colStart_disjoint (l : Layout) (layer : Fin layers) {c c' : Nat} (h : c < c') :
    colStart l layer c + (l.primes layer (Fin.ofNat cols c)).toNat ≤ colStart l layer c' := by
  rw [← colStart_succ]
  exact colStart_mono l layer h

theorem primesTotal_toNat (l : Layout) (layer : Fin layers) :
    (primesTotal l layer).toNat = colStart l layer cols := by
  have hlt : ∀ n ≤ cols, colStart l layer n ≤ n * 2 ^ 32 := by
    intro n _
    calc colStart l layer n ≤ ∑ _i ∈ Finset.range n, 2 ^ 32 :=
          Finset.sum_le_sum fun i _ => (UInt32.toNat_lt _).le
      _ = n * 2 ^ 32 := by simp
  have hfold : ∀ n ≤ cols, (((List.finRange cols).take n).foldl
      (fun total i => total + (l.primes layer i).toUInt64) 0).toNat = colStart l layer n := by
    intro n
    induction n with
    | zero => intro _; rfl
    | succ n ih =>
      intro hn
      have hn' : n < cols := hn
      have hget : (List.finRange cols).take (n + 1) =
          (List.finRange cols).take n ++ [Fin.ofNat cols n] := by
        rw [List.take_add_one, List.getElem?_eq_getElem (by simpa using hn')]
        simp [Fin.ofNat, Nat.mod_eq_of_lt hn']
      rw [hget, List.foldl_append, List.foldl_cons, List.foldl_nil, UInt64.toNat_add,
        ih (by omega), colStart_succ, UInt32.toNat_toUInt64]
      refine Nat.mod_eq_of_lt ?_
      have h1 := hlt (n + 1) hn
      rw [colStart_succ] at h1
      have h2 : (n + 1) * 2 ^ 32 ≤ 24 * 2 ^ 32 := Nat.mul_le_mul_right _ hn
      omega
  have := hfold cols le_rfl
  rwa [List.take_of_length_le (by simp)] at this

/-- What `ds4_engram_layout_valid` establishes. -/
structure Valid (l : Layout) : Prop where
  compressed_pos : 0 < l.compressedVocabSize.toNat
  pad_lt : l.padId.toNat < l.compressedVocabSize.toNat
  map_lt : ∀ i, (l.tokenMap.toList.getD i 0).toNat < l.compressedVocabSize.toNat
  mul_le : ∀ layer i, (l.multipliers layer i).toNat ≤ (2 ^ 63 - 1) / l.compressedVocabSize.toNat
  prime_ge : ∀ layer i, 2 ≤ (l.primes layer i).toNat
  total : ∀ layer, colStart l layer cols = (l.rows layer).toNat

theorem valid_of_layoutValid {l : Layout} (h : layoutValid l = true) : Valid l := by
  simp only [layoutValid, Bool.and_eq_true, List.all_eq_true, decide_eq_true_eq, beq_iff_eq,
    List.mem_finRange, forall_const] at h
  obtain ⟨⟨⟨⟨⟨-, hc⟩, -⟩, hpad⟩, hmap⟩, hlayer⟩ := h
  have hpos : 0 < l.compressedVocabSize.toNat :=
    Nat.pos_of_ne_zero fun h0 => hc (UInt32.toNat_inj.mp (by simpa using h0))
  refine ⟨hpos, UInt32.lt_iff_toNat_lt.mp hpad, fun i => ?_, fun layer i => ?_, fun layer i => ?_,
    fun layer => ?_⟩
  · rw [List.getD_eq_getElem?_getD]
    cases hi : l.tokenMap.toList[i]? with
    | none => exact hpos
    | some t => exact UInt32.lt_iff_toNat_lt.mp (hmap t (List.mem_of_getElem? hi))
  · have := UInt64.le_iff_toNat_le.mp ((hlayer layer).1.1 i).2
    rwa [int64Max_div] at this
  · exact UInt32.le_iff_toNat_le.mp ((hlayer layer).1.2 i)
  · rw [← primesTotal_toNat, (hlayer layer).2, UInt32.toNat_toUInt64]

/-- No product of an id and a multiplier reaches 63 bits. -/
theorem Valid.product_lt {l : Layout} (hl : Valid l) (layer : Fin layers) (i : Fin ngram) {id : Nat}
    (hid : id < l.compressedVocabSize.toNat) : id * (l.multipliers layer i).toNat < 2 ^ 63 := by
  have h1 : id * (l.multipliers layer i).toNat ≤
      l.compressedVocabSize.toNat * ((2 ^ 63 - 1) / l.compressedVocabSize.toNat) :=
    Nat.mul_le_mul hid.le (hl.mul_le layer i)
  have h2 := Nat.mul_div_le (2 ^ 63 - 1) l.compressedVocabSize.toNat
  omega

end Ds4.Engram
