import Ds4.Engram.Hash

/-!
# The window behind a token

What the rows of token `i` depend on: `stream` reads the compressed ids backwards from the token,
through the sequence and then through the carried tail, and `gramId` is the window the hash sees,
the pad id from the nearest dead position on. The step keeps a checked tail checked
(`historyOk_push`), so a sequence may be hashed in any consecutive parts (`hashParts_eq`); and a row
is the hash of the window modulo the column's prime behind the preceding columns (`hash_row`), which
for a valid layout stays inside the layer's table.
-/

namespace Ds4.Engram

open Ds4.Lib

/-- The compressed id `t` positions before position `i`: in the sequence, or in the carried tail. -/
def stream (h : History) (cur : List Int) (i t : Nat) : Int :=
  if t ≤ i then cur.getD (i - t) dead else h.tail (Fin.ofNat tailLen (t - i - 1))

/-- The id that the hash uses at `t` positions before position `i`: the pad id at and beyond the
nearest dead position. -/
def gramId (l : Layout) (h : History) (cur : List Int) (i t : Nat) : UInt32 :=
  if ∃ u, u ≤ t ∧ stream h cur i u = dead then l.padId
  else UInt32.ofNat (stream h cur i t).toNat

/-- The xor of the products of the first `j + 1` ids and multipliers. -/
def gramHash (l : Layout) (layer : Fin layers) (id : Nat → UInt32) : Nat → Nat
  | 0 => (id 0).toNat * (l.multipliers layer 0).toNat
  | j + 1 => gramHash l layer id j ^^^
      ((id (j + 1)).toNat * (l.multipliers layer (Fin.ofNat ngram (j + 1))).toNat)

/-! ## The columns of one token -/

/-- The accumulated hash of the `j` loop. -/
def gramAt (l : Layout) (layer : Fin layers) (ids : Nat → UInt32) : Nat → UInt64
  | 0 => (ids 0).toUInt64 * l.multipliers layer 0
  | j + 1 => gramAt l layer ids j ^^^
      (ids (j + 1)).toUInt64 * l.multipliers layer (Fin.ofNat ngram (j + 1))

/-- The row id written to column `c` for the hash `gram`. -/
def rowId (l : Layout) (layer : Fin layers) (gram : UInt64) (c : Nat) : UInt32 :=
  (gram % (l.primes layer (Fin.ofNat cols c)).toUInt64).toUInt32 + UInt32.ofNat (colStart l layer c)

theorem foldl_headStep (l : Layout) (layer : Fin layers) (j : Nat) (gram : UInt64)
    (rows : List UInt32) (n : Nat) :
    (List.range n).foldl (headStep l layer j gram)
        (UInt32.ofNat (colStart l layer ((j - 1) * heads)), rows) =
      (UInt32.ofNat (colStart l layer ((j - 1) * heads + n)),
        rows ++ (List.range n).map (fun k => rowId l layer gram ((j - 1) * heads + k))) := by
  induction n with
  | zero => simp
  | succ n ih =>
    rw [List.range_succ, List.foldl_append, ih, List.foldl_cons, List.foldl_nil, headStep,
      List.map_append, ← List.append_assoc]
    refine Prod.ext ?_ rfl
    simp only
    rw [← Nat.add_assoc, colStart_succ, UInt32.ofNat_add, UInt32.ofNat_toNat]

theorem layerRows_eq (l : Layout) (ids : Nat → UInt32) (layer : Fin layers) :
    layerRows l ids layer =
      (List.range cols).map (fun c => rowId l layer (gramAt l layer ids (c / heads + 1)) c) := by
  have hcols : List.range cols = (List.range heads).map (0 * heads + ·) ++
      ((List.range heads).map (1 * heads + ·) ++ (List.range heads).map (2 * heads + ·)) := by decide
  have hblock : ∀ b, (List.range heads).map
      (fun k => rowId l layer (gramAt l layer ids ((b * heads + k) / heads + 1)) (b * heads + k)) =
      (List.range heads).map (fun k => rowId l layer (gramAt l layer ids (b + 1)) (b * heads + k)) := by
    intro b
    refine List.map_congr_left fun k hk => ?_
    have hk8 : k < 8 := List.mem_range.mp hk
    rw [show (b * heads + k) / heads = b by show (b * 8 + k) / 8 = b; omega]
  have hstart : (0 : UInt32) = UInt32.ofNat (colStart l layer ((1 - 1) * heads)) := rfl
  rw [hcols, List.map_append, List.map_append, List.map_map, List.map_map, List.map_map]
  simp only [Function.comp_def, hblock]
  unfold layerRows
  rw [show List.range' 1 tailLen = [1, 2, 3] from rfl]
  simp only [List.foldl_cons, List.foldl_nil, gramStep]
  rw [hstart, foldl_headStep,
    show (1 - 1) * heads + heads = (2 - 1) * heads from rfl, foldl_headStep,
    show (2 - 1) * heads + heads = (3 - 1) * heads from rfl, foldl_headStep, List.nil_append,
    List.append_assoc]
  rfl

theorem layerRows_length (l : Layout) (ids : Nat → UInt32) (layer : Fin layers) :
    (layerRows l ids layer).length = cols := by
  rw [layerRows_eq, List.length_map, List.length_range]

theorem hashStep_length (l : Layout) (h : History) (x : Item) :
    (hashStep l h x).2.length = layers * cols := by
  simp only [hashStep, List.finRange_succ, List.finRange_zero, List.flatMap_cons, List.flatMap_nil,
    List.map_cons, List.map_nil, List.length_append, layerRows_length]
  rfl

theorem hashStep_row (l : Layout) (h : History) (x : Item) (layer : Fin layers) {c : Nat}
    (hc : c < cols) :
    (hashStep l h x).2[layer * cols + c]? =
      some (rowId l layer (gramAt l layer (tokenIds l h (current l x)) (c / heads + 1)) c) := by
  have hrow : ∀ y : Fin layers, (layerRows l (tokenIds l h (current l x)) y)[c]? =
      some (rowId l y (gramAt l y (tokenIds l h (current l x)) (c / heads + 1)) c) := by
    intro y
    rw [layerRows_eq, List.getElem?_map, List.getElem?_range hc, Option.map_some]
  have hsplit : (hashStep l h x).2 = layerRows l (tokenIds l h (current l x)) 0 ++
      layerRows l (tokenIds l h (current l x)) 1 := by
    simp [hashStep, List.finRange_succ]
  rw [hsplit]
  fin_cases layer
  · rw [List.getElem?_append_left (by rw [layerRows_length]; simpa using hc)]
    simpa using hrow 0
  · rw [List.getElem?_append_right (by rw [layerRows_length]; simp), layerRows_length]
    simpa using hrow 1

/-! ## The hash of a valid layout -/

theorem gramAt_toNat {l : Layout} (hl : Valid l) (layer : Fin layers) {ids : Nat → UInt32}
    (hids : ∀ j, (ids j).toNat < l.compressedVocabSize.toNat) (j : Nat) :
    (gramAt l layer ids j).toNat = gramHash l layer ids j ∧ gramHash l layer ids j < 2 ^ 63 := by
  induction j with
  | zero =>
    have hp := hl.product_lt layer 0 (hids 0)
    refine ⟨?_, hp⟩
    rw [gramAt, gramHash, UInt64.toNat_mul, UInt32.toNat_toUInt64, Nat.mod_eq_of_lt (by omega)]
  | succ j ih =>
    have hp := hl.product_lt layer (Fin.ofNat ngram (j + 1)) (hids (j + 1))
    refine ⟨?_, Nat.xor_lt_two_pow ih.2 hp⟩
    rw [gramAt, gramHash, UInt64.toNat_xor, ih.1, UInt64.toNat_mul, UInt32.toNat_toUInt64,
      Nat.mod_eq_of_lt (by omega : _ < 2 ^ 64)]

/-- A row id of a valid layout, as a number: behind the preceding columns, inside the table. -/
theorem rowId_toNat {l : Layout} (hl : Valid l) (layer : Fin layers) (gram : UInt64) {c : Nat}
    (hc : c < cols) :
    (rowId l layer gram c).toNat =
        gram.toNat % (l.primes layer (Fin.ofNat cols c)).toNat + colStart l layer c ∧
      (rowId l layer gram c).toNat < (l.rows layer).toNat := by
  have hprime := hl.prime_ge layer (Fin.ofNat cols c)
  have hmod := Nat.mod_lt gram.toNat (by omega : 0 < (l.primes layer (Fin.ofNat cols c)).toNat)
  have hend := colStart_disjoint l layer hc
  rw [hl.total layer] at hend
  have hrows := (l.rows layer).toNat_lt
  have heq : (rowId l layer gram c).toNat =
      gram.toNat % (l.primes layer (Fin.ofNat cols c)).toNat + colStart l layer c := by
    have hp := (l.primes layer (Fin.ofNat cols c)).toNat_lt
    rw [rowId, UInt32.toNat_add, UInt64.toNat_toUInt32, UInt64.toNat_mod, UInt32.toNat_toUInt64,
      UInt32.toNat_ofNat', Nat.mod_eq_of_lt (by omega : gram.toNat %
        (l.primes layer (Fin.ofNat cols c)).toNat < 2 ^ 32),
      Nat.mod_eq_of_lt (by omega : colStart l layer c < 2 ^ 32), Nat.mod_eq_of_lt (by omega)]
  exact ⟨heq, by omega⟩

/-! ## The carried tail -/

theorem historyOk_iff (l : Layout) (h : History) :
    historyOk l h = true ↔ ∀ i, dead ≤ h.tail i ∧ h.tail i < l.compressedVocabSize.toNat := by
  simp [historyOk]

theorem current_range {l : Layout} (hl : Valid l) (x : Item) :
    dead ≤ current l x ∧ current l x < l.compressedVocabSize.toNat := by
  have hmap := hl.map_lt x.1.toNat
  unfold current dead
  split <;> omega

theorem historyOk_push {l : Layout} (hl : Valid l) {h : History} (hh : historyOk l h = true)
    (x : Item) : historyOk l (h.push (current l x)) = true := by
  rw [historyOk_iff] at hh ⊢
  intro i
  simp only [History.push, windowAt]
  split
  · exact current_range hl x
  · exact hh _

theorem historyOk_run {l : Layout} (hl : Valid l) {h : History} (hh : historyOk l h = true)
    (xs : List Item) : historyOk l (Machine.run (hashStep l) h xs).1 = true :=
  Machine.run_invariant (hashStep l) (fun h => historyOk l h = true) (fun _ => True)
    (fun _ x hs _ => historyOk_push hl hs x) hh fun _ _ => trivial

theorem tail_run (l : Layout) (h : History) (xs : List Item) (i : Nat) (hi : i ≤ xs.length)
    (t : Fin tailLen) :
    (Machine.run (hashStep l) h (xs.take i)).1.tail t =
      stream h (xs.map (current l)) i (t + 1) := by
  induction i generalizing t with
  | zero =>
    rw [List.take_zero, stream, if_neg (by omega)]
    exact congrArg h.tail (Fin.ext (Nat.mod_eq_of_lt t.isLt).symm)
  | succ i ih =>
    have hlt : i < xs.length := hi
    rw [List.take_add_one, List.getElem?_eq_getElem hlt, Option.toList_some, Machine.run_append]
    simp only [Machine.run_cons, Machine.run_nil, hashStep, History.push, windowAt]
    by_cases ht : (t : Nat) = 0
    · rw [if_pos ht, ht, stream, if_pos (by omega)]
      simp [List.getD_eq_getElem?_getD, hlt]
    · have hval : (Fin.ofNat tailLen ((t : Nat) - 1) : Nat) + 1 = t := by
        rw [show (Fin.ofNat tailLen ((t : Nat) - 1) : Nat) = t - 1 from
          Nat.mod_eq_of_lt (by omega)]
        omega
      rw [if_neg ht, ih (by omega), hval]
      unfold stream
      by_cases hti : (t : Nat) ≤ i
      · rw [if_pos hti, if_pos (by omega), show i + 1 - ((t : Nat) + 1) = i - t by omega]
      · rw [if_neg hti, if_neg (by omega), show (t : Nat) + 1 - (i + 1) - 1 = t - i - 1 by omega]

theorem windowAt_run (l : Layout) (h : History) (xs : List Item) (i : Nat) (hi : i < xs.length)
    {t : Nat} (ht : t ≤ tailLen) :
    windowAt (Machine.run (hashStep l) h (xs.take i)).1 (current l (xs.get ⟨i, hi⟩)) t =
      stream h (xs.map (current l)) i t := by
  cases t with
  | zero => simp [windowAt, stream, hi]
  | succ t =>
    have hlt : t < tailLen := ht
    rw [windowAt, if_neg (Nat.succ_ne_zero t), tail_run l h xs i hi.le]
    simp [Fin.ofNat, Nat.mod_eq_of_lt hlt]

theorem tokenIds_run (l : Layout) (h : History) (xs : List Item) (i : Nat) (hi : i < xs.length)
    {t : Nat} (ht : t ≤ tailLen) :
    tokenIds l (Machine.run (hashStep l) h (xs.take i)).1 (current l (xs.get ⟨i, hi⟩)) t =
      gramId l h (xs.map (current l)) i t := by
  have hw : ∀ u ≤ tailLen, windowAt (Machine.run (hashStep l) h (xs.take i)).1
      (current l (xs.get ⟨i, hi⟩)) u = stream h (xs.map (current l)) i u :=
    fun u hu => windowAt_run l h xs i hi hu
  have hany : ((List.range (t + 1)).any fun u => windowAt (Machine.run (hashStep l) h (xs.take i)).1
      (current l (xs.get ⟨i, hi⟩)) u == dead) = true ↔
      ∃ u, u ≤ t ∧ stream h (xs.map (current l)) i u = dead := by
    simp only [List.any_eq_true, List.mem_range, Nat.lt_succ_iff, beq_iff_eq]
    constructor
    · rintro ⟨u, hu, he⟩
      exact ⟨u, hu, by rw [← hw u (le_trans hu ht)]; exact he⟩
    · rintro ⟨u, hu, he⟩
      exact ⟨u, hu, by rw [hw u (le_trans hu ht)]; exact he⟩
  unfold tokenIds gramId
  rw [hw t ht]
  by_cases hd : ∃ u, u ≤ t ∧ stream h (xs.map (current l)) i u = dead
  · rw [if_pos hd, if_pos (hany.mpr hd)]
  · rw [if_neg hd, if_neg (fun ha => hd (hany.mp ha))]

theorem tokenIds_lt {l : Layout} (hl : Valid l) {h : History} (hh : historyOk l h = true)
    (x : Item) (j : Nat) : (tokenIds l h (current l x) j).toNat < l.compressedVocabSize.toNat := by
  have hrange : dead ≤ windowAt h (current l x) j ∧
      windowAt h (current l x) j < l.compressedVocabSize.toNat := by
    unfold windowAt
    split
    · exact current_range hl x
    · exact (historyOk_iff l h).mp hh _
  have hc := l.compressedVocabSize.toNat_lt
  unfold tokenIds
  split
  · exact hl.pad_lt
  · have hpos := hl.compressed_pos
    rw [UInt32.toNat_ofNat', Nat.mod_eq_of_lt] <;> omega

/-! ## Whole calls -/

/-- The arguments that `ds4_engram_hash` accepts: a checked tail, tokens of the vocabulary, a mask
byte for every token and a row buffer that fits the address space. -/
structure Accepts (l : Layout) (h : History) (tokens : List Int) (mask : Option (List UInt8)) :
    Prop where
  history_ok : historyOk l h = true
  tokens_ok : ∀ t ∈ tokens, tokenOk l t = true
  mask_length : ∀ m ∈ mask, m.length = tokens.length
  count_le : tokens.length ≤ sizeMax / (layers * cols * 4)

theorem hash_eq_run {l : Layout} {h : History} {tokens : List Int} {mask : Option (List UInt8)}
    (ha : Accepts l h tokens mask) :
    hash l h tokens mask = (true, Machine.run (hashStep l) h (items tokens mask)) := by
  have htok : tokens.all (tokenOk l) = true := List.all_eq_true.mpr ha.tokens_ok
  unfold hash
  rw [if_neg (Nat.not_lt.mpr ha.count_le), ha.history_ok, htok]
  rfl

theorem items_append {p ps : List Int} {mask : Option (List UInt8)}
    (hmask : ∀ m ∈ mask, m.length = (p ++ ps).length) :
    items (p ++ ps) mask =
      items p (mask.map (·.take p.length)) ++ items ps (mask.map (·.drop p.length)) := by
  cases mask with
  | none => simp [items]
  | some m =>
    have hm : m.length = p.length + ps.length := by simpa using hmask m rfl
    conv_lhs => rw [← List.take_append_drop p.length m]
    simp only [items, Option.map_some, List.map_append]
    exact List.zip_append (by simp; omega)

theorem hashParts_eq {l : Layout} (hl : Valid l) (parts : List (List Int)) :
    ∀ {h : History} {mask : Option (List UInt8)}, Accepts l h parts.flatten mask →
      hashParts l h parts mask = hash l h parts.flatten mask := by
  induction parts with
  | nil =>
    intro h mask ha
    rw [hash_eq_run ha]
    cases mask <;> rfl
  | cons p ps ih =>
    intro h mask ha
    have hlen : (p ++ ps.flatten).length = p.length + ps.flatten.length := List.length_append
    have hcount := ha.count_le
    have hmask := ha.mask_length
    rw [List.flatten_cons] at hcount hmask
    have hhead : Accepts l h p (mask.map (·.take p.length)) := by
      refine ⟨ha.history_ok, fun t ht => ha.tokens_ok t (by simp [ht]), fun m hm => ?_, by omega⟩
      obtain ⟨m', hm', rfl⟩ := Option.mem_map.mp hm
      have := hmask m' hm'
      simp only [List.length_take]
      omega
    have hrest : Accepts l (Machine.run (hashStep l) h (items p (mask.map (·.take p.length)))).1
        ps.flatten (mask.map (·.drop p.length)) := by
      refine ⟨historyOk_run hl ha.history_ok _, fun t ht => ha.tokens_ok t (by
        rw [List.flatten_cons]; exact List.mem_append_right _ ht), fun m hm => ?_, by omega⟩
      obtain ⟨m', hm', rfl⟩ := Option.mem_map.mp hm
      have := hmask m' hm'
      simp only [List.length_drop]
      omega
    rw [hashParts, hash_eq_run hhead, hash_eq_run ha, List.flatten_cons, items_append hmask,
      Machine.run_append]
    simp only
    rw [ih hrest, hash_eq_run hrest]

/-- Position of the row id of token `i`, layer `layer`, order `j` and head `k` in the output. -/
def rowIndex (i : Nat) (layer : Fin layers) (j k : Nat) : Nat :=
  (i * layers + layer) * cols + ((j - 1) * heads + k)

/-- The compressed ids of a call, dead where masked. -/
def compressedIds (l : Layout) (tokens : List Int) (mask : Option (List UInt8)) : List Int :=
  (items tokens mask).map (current l)

theorem hash_row {l : Layout} (hl : Valid l) {h : History} {tokens : List Int}
    {mask : Option (List UInt8)} (ha : Accepts l h tokens mask) {i : Nat} (hi : i < tokens.length)
    (layer : Fin layers) {j k : Nat} (hj : 1 ≤ j) (hj3 : j ≤ tailLen) (hk : k < heads) :
    ∃ id, (hash l h tokens mask).2.2[rowIndex i layer j k]? = some id ∧
      id.toNat = gramHash l layer (gramId l h (compressedIds l tokens mask) i) j %
          (l.primes layer (Fin.ofNat cols ((j - 1) * heads + k))).toNat +
        colStart l layer ((j - 1) * heads + k) ∧
      id.toNat < (l.rows layer).toNat := by
  have hk8 : k < 8 := hk
  have hj3' : j ≤ 3 := hj3
  have hc : (j - 1) * heads + k < cols := by show (j - 1) * 8 + k < 24; omega
  have hlen : (items tokens mask).length = tokens.length := by
    cases hm : mask with
    | none => simp [items]
    | some m => simp [items, ha.mask_length m (by simp [hm])]
  have hi' : i < (items tokens mask).length := by omega
  have hdiv : ((j - 1) * heads + k) / heads + 1 = j := by
    show ((j - 1) * 8 + k) / 8 + 1 = j
    omega
  have hout := Machine.run_output (hashStep l) (hashStep_length l) h (items tokens mask) i
    (layer * cols + ((j - 1) * heads + k)) hi' (by
      have hlay : (layer : Nat) < 2 := layer.isLt
      have : (j - 1) * 8 + k < 24 := hc
      show (layer : Nat) * 24 + ((j - 1) * 8 + k) < 2 * 24
      omega)
  rw [hashStep_row l _ _ layer hc, hdiv] at hout
  have hok := historyOk_run hl ha.history_ok ((items tokens mask).take i)
  obtain ⟨heq, hlt⟩ := rowId_toNat hl layer
    (gramAt l layer (tokenIds l (Machine.run (hashStep l) h ((items tokens mask).take i)).1
      (current l ((items tokens mask).get ⟨i, hi'⟩))) j) hc
  have hids : ∀ n ≤ j, gramHash l layer
      (tokenIds l (Machine.run (hashStep l) h ((items tokens mask).take i)).1
        (current l ((items tokens mask).get ⟨i, hi'⟩))) n =
      gramHash l layer (gramId l h (compressedIds l tokens mask) i) n := by
    intro n
    induction n with
    | zero =>
      intro _
      rw [gramHash, gramHash, tokenIds_run l h _ i hi' (Nat.zero_le _), compressedIds]
    | succ n ih =>
      intro hn
      rw [gramHash, gramHash, ih (by omega), tokenIds_run l h _ i hi' (by omega), compressedIds]
  rw [(gramAt_toNat hl layer (tokenIds_lt hl hok _) j).1, hids j le_rfl] at heq
  refine ⟨_, ?_, heq, hlt⟩
  rw [hash_eq_run ha, ← hout, rowIndex]
  congr 1
  ring

theorem gramId_lt {l : Layout} (hl : Valid l) {h : History} (hh : historyOk l h = true)
    (tokens : List Int) (mask : Option (List UInt8)) (i t : Nat) :
    (gramId l h (compressedIds l tokens mask) i t).toNat < l.compressedVocabSize.toNat := by
  have hpos := hl.compressed_pos
  have hc := l.compressedVocabSize.toNat_lt
  have hrange : stream h (compressedIds l tokens mask) i t < l.compressedVocabSize.toNat := by
    unfold stream
    split
    · rw [List.getD_eq_getElem?_getD, compressedIds, List.getElem?_map]
      cases (items tokens mask)[i - t]? with
      | none => simp only [Option.map_none, Option.getD_none, dead]; omega
      | some x => exact (current_range hl x).2
    · exact ((historyOk_iff l h).mp hh _).2
  unfold gramId
  split
  · exact hl.pad_lt
  · rw [UInt32.toNat_ofNat', Nat.mod_eq_of_lt] <;> omega

theorem hash_refused {l : Layout} {h : History} {tokens : List Int} {mask : Option (List UInt8)}
    (hf : (hash l h tokens mask).1 = false) : (hash l h tokens mask).2.1 = h := by
  revert hf
  unfold hash
  split_ifs <;> simp

/-- **Engram hashing.** For a layout that passes its check and arguments that pass theirs: the call
succeeds; any consecutive parts give the rows and the history of the whole; a row id is the hash of
the window behind its token modulo the column's prime behind the preceding columns, in range; the
columns are disjoint and no product overflows 63 bits. A refused call leaves the history alone. -/
theorem hash_spec (l : Layout) (hl : layoutValid l = true) :
    (∀ h tokens mask, Accepts l h tokens mask →
      (hash l h tokens mask).1 = true ∧
      (∀ parts : List (List Int), parts.flatten = tokens →
        hashParts l h parts mask = hash l h tokens mask) ∧
      (∀ i < tokens.length, ∀ layer j k, 1 ≤ j → j ≤ 3 → k < 8 →
        ∃ id, (hash l h tokens mask).2.2[rowIndex i layer j k]? = some id ∧
          id.toNat = gramHash l layer (gramId l h (compressedIds l tokens mask) i) j %
              (l.primes layer (Fin.ofNat cols ((j - 1) * heads + k))).toNat +
            colStart l layer ((j - 1) * heads + k) ∧
          id.toNat < (l.rows layer).toNat) ∧
      (hash l h tokens mask).2.2.length = tokens.length * (layers * cols) ∧
      (∀ i layer j, (gramId l h (compressedIds l tokens mask) i j).toNat *
        (l.multipliers layer (Fin.ofNat ngram j)).toNat < 2 ^ 63)) ∧
    (∀ layer c c', c < c' →
      colStart l layer c + (l.primes layer (Fin.ofNat cols c)).toNat ≤ colStart l layer c') ∧
    (∀ h tokens mask, (hash l h tokens mask).1 = false → (hash l h tokens mask).2.1 = h) := by
  have hv := valid_of_layoutValid hl
  refine ⟨fun h tokens mask ha => ⟨?_, ?_, ?_, ?_, ?_⟩, ?_, ?_⟩
  · rw [hash_eq_run ha]
  · rintro parts rfl
    exact hashParts_eq hv parts ha
  · intro i hi layer j k hj hj3 hk
    exact hash_row hv ha hi layer hj hj3 hk
  · rw [hash_eq_run ha]
    simp only
    rw [Machine.run_length _ (hashStep_length l)]
    congr 1
    cases hm : mask with
    | none => simp [items]
    | some m => simp [items, ha.mask_length m (by simp [hm])]
  · exact fun i layer j => hv.product_lt layer _ (gramId_lt hv ha.history_ok tokens mask i j)
  · exact fun layer c c' h => colStart_disjoint l layer h
  · exact fun h tokens mask hf => hash_refused hf

/-- A layout of two tokens, odd multipliers and the primes `2` and `3`. -/
def smallLayout : Layout where
  vocabSize := 2
  tokenMap := #v[1, 2]
  compressedVocabSize := 3
  padId := 0
  rows := fun _ => 60
  multipliers := fun _ i => 2 * UInt64.ofNat i + 1
  primes := fun _ i => if i.val < 12 then 2 else 3

theorem hash_spec_small :
    (hash smallLayout historyReset [0, 1, 1, 0] (some [1, 1, 0, 1])).1 = true ∧
    (∀ parts : List (List Int), parts.flatten = [0, 1, 1, 0] →
      hashParts smallLayout historyReset parts (some [1, 1, 0, 1]) =
        hash smallLayout historyReset [0, 1, 1, 0] (some [1, 1, 0, 1])) := by
  have h := (hash_spec smallLayout (by decide)).1 historyReset [0, 1, 1, 0] (some [1, 1, 0, 1])
    ⟨by decide, by decide, by decide, by decide⟩
  exact ⟨h.1, h.2.1⟩

end Ds4.Engram
