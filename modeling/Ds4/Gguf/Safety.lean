import Ds4.Gguf.Model

/-!
# Opening a model file is safe, and when it is exact

Every metadata value stands in the file where the model says, and can be skipped again from there;
every tensor lies in the file, and after the Engram tables are cut off the rest lies in what is left
(`modelOpen_safe_iff`). The size of a tensor is the exact one unless the rounding up to blocks or the
number of bytes is no 64-bit number: then the tensor is taken to have no bytes, and no check is made.
-/

namespace Ds4.Gguf

open Ds4.Lib Cursor

/-! ## Sizes -/

theorem tensorType_bounds {type : UInt32} {info : TypeInfo} (h : tensorType type = some info) :
    0 < info.blockElems.toNat ∧ info.blockElems.toNat ≤ 256 ∧ 0 < info.blockBytes.toNat := by
  unfold tensorType at h
  split at h <;> first
    | (obtain rfl := Option.some.inj h; decide)
    | cases h

/-- The bytes of a number of elements, over the integers. -/
def TypeInfo.exactBytes (info : TypeInfo) (n : Nat) : Nat :=
  (n + info.blockElems.toNat - 1) / info.blockElems.toNat * info.blockBytes.toNat

/-- The number of elements can be rounded up, and the bytes counted, in 64 bits. -/
def TypeInfo.Fits (info : TypeInfo) (n : Nat) : Prop :=
  n + info.blockElems.toNat ≤ 2 ^ 64 ∧ info.exactBytes n < 2 ^ 64

/-- What `tensor_nbytes` computes: the rounding up wraps, and a product that does not fit is no size. -/
theorem tensorNbytes_toNat {type : UInt32} {info : TypeInfo} (h : tensorType type = some info)
    (elements : UInt64) :
    let q := (elements.toNat + info.blockElems.toNat - 1) % 2 ^ 64 / info.blockElems.toNat
    ((tensorNbytes type elements).getD 0).toNat =
      if q * info.blockBytes.toNat < 2 ^ 64 then q * info.blockBytes.toNat else 0 := by
  intro q
  obtain ⟨hpos, hle, hbytes⟩ := tensorType_bounds h
  have hn := elements.toNat_lt
  have hne : info.blockElems ≠ 0 := fun h0 => by simp [h0] at hpos
  have hsum : (elements + info.blockElems - 1).toNat =
      (elements.toNat + info.blockElems.toNat - 1) % 2 ^ 64 := by
    rw [UInt64.toNat_sub, UInt64.toNat_add, show (1 : UInt64).toNat = 1 from rfl]
    omega
  have hblocks : ((elements + info.blockElems - 1) / info.blockElems).toNat = q := by
    rw [UInt64.toNat_div, hsum]
  have hlarge : (elements + info.blockElems - 1) / info.blockElems > uint64Max / info.blockBytes ↔
      ¬ q * info.blockBytes.toNat < 2 ^ 64 := by
    rw [gt_iff_lt, UInt64.lt_iff_toNat_lt, hblocks, UInt64.toNat_div,
      show uint64Max.toNat = 2 ^ 64 - 1 from by decide, Nat.div_lt_iff_lt_mul hbytes]
    omega
  rw [tensorNbytes, h]
  simp only [if_neg hne, hlarge]
  by_cases hfit : q * info.blockBytes.toNat < 2 ^ 64
  · rw [if_neg (not_not.mpr hfit), if_pos hfit, Option.getD_some, UInt64.toNat_mul, hblocks,
      Nat.mod_eq_of_lt hfit]
  · rw [if_pos hfit, if_neg hfit]
    rfl

/-- **When a size is exact.** -/
theorem tensorNbytes_eq_iff {type : UInt32} {info : TypeInfo} (h : tensorType type = some info)
    (elements : UInt64) :
    ((tensorNbytes type elements).getD 0).toNat = info.exactBytes elements.toNat ↔
      info.Fits elements.toNat := by
  obtain ⟨hpos, hle, hbytes⟩ := tensorType_bounds h
  have hn := elements.toNat_lt
  rw [tensorNbytes_toNat h, TypeInfo.Fits]
  unfold TypeInfo.exactBytes
  generalize elements.toNat = n at *
  generalize info.blockElems.toNat = be at *
  generalize info.blockBytes.toNat = bb at *
  by_cases hwrap : n + be ≤ 2 ^ 64
  · rw [Nat.mod_eq_of_lt (by omega)]
    split_ifs with hfit
    · exact iff_of_true rfl ⟨hwrap, hfit⟩
    · refine iff_of_false (fun h0 => hfit ?_) fun hf => hfit hf.2
      rw [← h0]
      exact Nat.two_pow_pos 64
  · -- the sum wraps to less than a block, which is no block, but there is a block
    have hzero : (n + be - 1) % 2 ^ 64 / be = 0 := by
      refine Nat.div_eq_of_lt ?_
      omega
    have hone : 0 < (n + be - 1) / be := Nat.div_pos (by omega) hpos
    have hexact : 0 < (n + be - 1) / be * bb := Nat.mul_pos hone hbytes
    rw [hzero, Nat.zero_mul, if_pos (Nat.two_pow_pos 64)]
    exact iff_of_false hexact.ne fun hf => hwrap hf.1

/-! ## Metadata -/

theorem le_alignUp {value alignment : UInt64} (hv : value.toNat < 2 ^ 63)
    (ha : alignment.toNat < 2 ^ 32) (hpos : 0 < alignment.toNat) :
    value.toNat ≤ (alignUp value alignment).toNat := by
  unfold alignUp
  split_ifs
  · exact le_rfl
  · have hmod : (value % alignment).toNat < alignment.toNat := by
      rw [UInt64.toNat_mod]
      exact Nat.mod_lt _ hpos
    rw [UInt64.toNat_sub, UInt64.toNat_add]
    omega

/-- An alignment the loader can use. -/
def AlignmentOk (alignment : UInt64) : Prop := 0 < alignment.toNat ∧ alignment.toNat < 2 ^ 32

theorem alignmentOk_entry {key : Bytes} {type : UInt32} {tmp : Cursor} {alignment : UInt64}
    (h : AlignmentOk alignment) : AlignmentOk (entryAlignment key type tmp alignment) := by
  unfold entryAlignment
  split_ifs
  · split
    · next a _ _ =>
      split_ifs with ha
      · have hlt := a.toNat_lt
        have hne : a.toNat ≠ 0 := fun h0 => ha (UInt32.toNat_inj.mp h0)
        rw [AlignmentOk, UInt32.toNat_toUInt64]
        omega
      · exact h
    · exact h
  · exact h

/-- An entry between `lo` and `hi`: its key, and a value behind it. -/
structure EntryAt (file : Bytes) (lo hi : Nat) (kv : Kv) : Prop where
  first : lo + 12 + kv.key.length ≤ kv.valuePos.toNat
  key : part file (kv.valuePos.toNat - 4 - kv.key.length) kv.key.length = kv.key
  type : get32 (part file (kv.valuePos.toNat - 4) 4) = kv.type
  value : ∃ e, ValueAt file 9 kv.type kv.valuePos.toNat e ∧ e ≤ hi

theorem EntryAt.mono {file : Bytes} {lo hi lo' hi' : Nat} {kv : Kv} (h : EntryAt file lo hi kv)
    (hlo : lo' ≤ lo) (hhi : hi ≤ hi') : EntryAt file lo' hi' kv := by
  obtain ⟨e, he, hle⟩ := h.value
  have hfirst := h.first
  exact ⟨by omega, h.key, h.type, e, he, hle.trans hhi⟩

/-- **The entries are where the model says.** -/
theorem parseEntries_spec {n : Nat} {c c' : Cursor} {alignment alignment' : UInt64} {kv : List Kv}
    (h : parseEntries n c alignment = .ok (kv, alignment', c')) (hpos : c.pos.toNat ≤ c.size.toNat)
    (hsize : c.size.toNat ≤ c.base.length) (ha : AlignmentOk alignment) :
    AlignmentOk alignment' ∧ (∃ k, c.Moves k c') ∧
      ∀ x ∈ kv, EntryAt c.base c.pos.toNat c'.pos.toNat x := by
  induction n generalizing c alignment kv with
  | zero =>
    obtain ⟨rfl, rfl, rfl⟩ : [] = kv ∧ alignment = alignment' ∧ c = c' := by
      simpa [parseEntries] using h
    exact ⟨ha, ⟨0, hpos, rfl, rfl, rfl⟩, by simp⟩
  | succ n ih =>
    simp only [parseEntries, bind_ok, Prod.exists, string_eq_ok, u32_eq_ok, Except.ok.injEq,
      Prod.mk.injEq] at h
    obtain ⟨key, c₁, ⟨hkey, hkeyeq⟩, type, c₂, ⟨htype, htypeeq⟩, c₃, hvalue, kv', al, c₄, hrest, rfl,
      rfl, rfl⟩ := h
    have h₂ := hkey.trans htype
    have hpos₂ : c₂.pos.toNat ≤ c₂.size.toNat := by
      rw [h₂.pos, h₂.size]
      exact h₂.inside
    obtain ⟨k, hk, hvalueAt⟩ := (skipLevels_eq_ok hpos₂).mp hvalue
    have h₃ := h₂.trans hk
    have hpos₃ : c₃.pos.toNat ≤ c₃.size.toNat := by
      rw [h₃.pos, h₃.size]
      exact h₃.inside
    obtain ⟨hal, ⟨l, hl⟩, hall⟩ := ih hrest hpos₃ (by rw [h₃.size, h₃.base]; exact hsize)
      (alignmentOk_entry ha)
    refine ⟨hal, ⟨_, h₃.trans hl⟩, ?_⟩
    have hklen : key.length = stringLength c.base c.pos.toNat := by
      have hinside := hkey.inside
      rw [hkeyeq, part_length]
      omega
    have hc₂ : c₂.pos.toNat = c.pos.toNat + 12 + key.length := by
      rw [h₂.pos, hklen]
      omega
    have hc₁ : c₁.pos.toNat = c.pos.toNat + 8 + key.length := by
      rw [hkey.pos, hklen]
      omega
    have hc₄ : c₃.pos.toNat ≤ c₄.pos.toNat := by
      rw [hl.pos]
      omega
    intro x hx
    rcases List.mem_cons.mp hx with rfl | hx
    · refine ⟨hc₂.ge, ?_, ?_, c₂.pos.toNat + k, ?_, ?_⟩
      · dsimp only
        rw [hc₂, show c.pos.toNat + 12 + key.length - 4 - key.length = c.pos.toNat + 8 by omega, hklen]
        exact hkeyeq.symm
      · dsimp only
        rw [hc₂, show c.pos.toNat + 12 + key.length - 4 = c₁.pos.toNat by omega, ← hkey.base]
        exact htypeeq.symm
      · rw [← h₂.base]
        exact hvalueAt
      · rw [← hk.pos]
        exact hc₄
    · have hx' := hall x hx
      rw [h₃.base] at hx'
      refine hx'.mono ?_ le_rfl
      rw [h₃.pos]
      omega

/-! ## The tensor directory -/

/-- The product of the dims. -/
def Tensor.dimsProd (t : Tensor) : Nat := (t.dims.map UInt64.toNat).prod

/-- An entry of the directory stands at `s`. -/
structure TensorAt (file : Bytes) (s : Nat) (t : Tensor) : Prop where
  name : t.name = part file (s + 8) (stringLength file s)
  ndim : t.dims.length = (get32 (part file (s + 8 + stringLength file s) 4)).toNat
  dims : t.dims = (List.range t.dims.length).map fun i =>
    get64 (part file (s + 12 + stringLength file s + 8 * i) 8)
  type : t.type = get32 (part file (s + 12 + stringLength file s + 8 * t.dims.length) 4)
  relOffset : t.relOffset =
    get64 (part file (s + 16 + stringLength file s + 8 * t.dims.length) 8)

theorem readDims_spec {n : Nat} {c c' : Cursor} {elements elements' : UInt64} {dims : List UInt64}
    (h : readDims n c elements = .ok (dims, elements', c')) (hpos : c.pos.toNat ≤ c.size.toNat) :
    c.Moves (8 * n) c' ∧ dims.length = n ∧
      dims = ((List.range n).map fun i => get64 (part c.base (c.pos.toNat + 8 * i) 8)) ∧
      elements'.toNat = elements.toNat * (dims.map UInt64.toNat).prod := by
  induction n generalizing c elements dims with
  | zero =>
    obtain ⟨rfl, rfl, rfl⟩ : [] = dims ∧ elements = elements' ∧ c = c' := by
      simpa [readDims] using h
    exact ⟨⟨hpos, rfl, rfl, rfl⟩, rfl, rfl, by simp⟩
  | succ n ih =>
    simp only [readDims, bind_ok, Prod.exists, u64_eq_ok] at h
    obtain ⟨dim, c₁, ⟨hm, hdim⟩, h⟩ := h
    split_ifs at h with hlarge
    simp only [bind_ok, Prod.exists, Except.ok.injEq, Prod.mk.injEq] at h
    obtain ⟨dims', el, c₂, hrest, rfl, rfl, rfl⟩ := h
    have hpos₁ : c₁.pos.toNat ≤ c₁.size.toNat := by
      rw [hm.pos, hm.size]
      exact hm.inside
    obtain ⟨hm', hlen, hdims, hel⟩ := ih hrest hpos₁
    refine ⟨?_, by simp [hlen], ?_, ?_⟩
    · have := hm.trans hm'
      rwa [show 8 + 8 * n = 8 * (n + 1) by omega] at this
    · rw [List.range_succ_eq_map, List.map_cons, List.map_map, hdims, hdim]
      simp only [Nat.mul_zero, Nat.add_zero, Function.comp_def, hm.base, hm.pos, Nat.mul_succ,
        List.cons.injEq, List.map_inj_left, true_and]
      intro i _
      rw [show c.pos.toNat + 8 + 8 * i = c.pos.toNat + (8 * i + 8) by omega]
    · have hmul : (elements * dim).toNat = elements.toNat * dim.toNat := by
        rw [UInt64.toNat_mul, Nat.mod_eq_of_lt]
        by_cases hzero : dim = 0
        · rw [hzero]
          exact Nat.two_pow_pos 64
        · have hdpos : 0 < dim.toNat := Nat.pos_of_ne_zero fun h0 => hzero (UInt64.toNat_inj.mp h0)
          have hle : elements.toNat ≤ (2 ^ 64 - 1) / dim.toNat := by
            simpa [hzero, UInt64.le_iff_toNat_le, UInt64.toNat_div,
              show uint64Max.toNat = 2 ^ 64 - 1 from by decide] using hlarge
          have := (Nat.le_div_iff_mul_le hdpos).mp hle
          omega
      rw [hel, hmul, List.map_cons, List.prod_cons, Nat.mul_assoc]

/-- A tensor as it was read: its elements, and its bytes as they are computed. -/
structure Read (file : Bytes) (t : Tensor) : Prop where
  entry : ∃ s, TensorAt file s t
  elements : t.elements.toNat = t.dimsProd
  bytes : t.bytes = (tensorNbytes t.type t.elements).getD 0

theorem readTensor_spec {c c' : Cursor} {t : Tensor} (h : readTensor c = .ok (t, c')) :
    (∃ k, c.Moves k c') ∧ Read c.base t := by
  simp only [readTensor, bind_ok, Prod.exists, string_eq_ok, u32_eq_ok] at h
  obtain ⟨name, c₁, ⟨hname, hnameeq⟩, ndim, c₂, ⟨hndim, hndimeq⟩, h⟩ := h
  split_ifs at h with hbad
  simp only [bind_ok, Prod.exists, u32_eq_ok, u64_eq_ok, Except.ok.injEq, Prod.mk.injEq] at h
  obtain ⟨dims, elements, c₃, hdims, type, c₄, ⟨htype, htypeeq⟩, rel, c₅, ⟨hrel, hreleq⟩, rfl, rfl⟩ := h
  have h₂ := hname.trans hndim
  have hpos₂ : c₂.pos.toNat ≤ c₂.size.toNat := by
    rw [h₂.pos, h₂.size]
    exact h₂.inside
  obtain ⟨hm, hlen, hdimseq, hel⟩ := readDims_spec hdims hpos₂
  have h₃ := h₂.trans hm
  have h₄ := h₃.trans htype
  refine ⟨⟨_, h₄.trans hrel⟩, ⟨c.pos.toNat, hnameeq, ?_, ?_, ?_, ?_⟩, ?_, rfl⟩
  · rw [hlen, hndimeq, hname.base, hname.pos, Nat.add_assoc]
  · dsimp only
    rw [hlen]
    refine hdimseq.trans (List.map_congr_left fun i _ => ?_)
    rw [h₂.base, h₂.pos]
    congr 2
    omega
  · dsimp only
    rw [htypeeq, h₃.base, h₃.pos, hlen]
    congr 2
    omega
  · dsimp only
    rw [hreleq, h₄.base, h₄.pos, hlen]
    congr 2
    omega
  · rw [hel, show (1 : UInt64).toNat = 1 from rfl, Nat.one_mul]
    rfl

theorem readTensors_spec {n : Nat} {c c' : Cursor} {ts : List Tensor}
    (h : readTensors n c = .ok (ts, c')) (hpos : c.pos.toNat ≤ c.size.toNat) :
    (∃ k, c.Moves k c') ∧ ∀ t ∈ ts, Read c.base t := by
  induction n generalizing c ts with
  | zero =>
    obtain ⟨rfl, rfl⟩ : [] = ts ∧ c = c' := by simpa [readTensors] using h
    exact ⟨⟨0, hpos, rfl, rfl, rfl⟩, by simp⟩
  | succ n ih =>
    simp only [readTensors, bind_ok, Prod.exists, Except.ok.injEq, Prod.mk.injEq] at h
    obtain ⟨t, c₁, ht, ts', c₂, hrest, rfl, rfl⟩ := h
    obtain ⟨⟨k, hk⟩, hread⟩ := readTensor_spec ht
    obtain ⟨⟨l, hl⟩, hall⟩ := ih hrest (by rw [hk.pos, hk.size]; exact hk.inside)
    refine ⟨⟨_, hk.trans hl⟩, ?_⟩
    intro x hx
    rcases List.mem_cons.mp hx with rfl | hx
    · exact hread
    · rw [← hk.base]
      exact hall x hx

/-! ## Places -/

/-- The bytes of a tensor lie in front of `size`, and their end is a 64-bit number. -/
structure Inside (t : Tensor) (size : Nat) : Prop where
  noWrap : t.absOffset.toNat + t.bytes.toNat < 2 ^ 64
  inside : ∀ p, t.absOffset.toNat ≤ p → p < t.absOffset.toNat + t.bytes.toNat → p < size

theorem placeTensor_spec {size dataPos : UInt64} {t t' : Tensor}
    (h : placeTensor size dataPos t = .ok t') (file : Bytes) (hread : Read file t) :
    Read file t' ∧ Inside t' size.toNat := by
  simp only [placeTensor] at h
  split_ifs at h with hwrap hout
  obtain rfl := Except.ok.inj h
  refine ⟨⟨?_, hread.elements, hread.bytes⟩, ?_⟩
  · obtain ⟨s, hs⟩ := hread.entry
    exact ⟨s, hs.name, hs.ndim, hs.dims, hs.type, hs.relOffset⟩
  have hlt := (dataPos + t.relOffset).toNat_lt
  have hsize := size.toNat_lt
  by_cases hbytes : t.bytes = 0
  · have hzero : t.bytes.toNat = 0 := by rw [hbytes]; rfl
    refine ⟨?_, fun p h1 h2 => ?_⟩
    · dsimp only
      omega
    · dsimp only at h1 h2
      omega
  · simp only [ne_eq, hbytes, not_false_eq_true, true_and, gt_iff_lt, not_or, UInt64.not_lt,
      UInt64.le_iff_toNat_le] at hout
    obtain ⟨habs, hle⟩ := hout
    rw [UInt64.toNat_sub_of_le _ _ (UInt64.le_iff_toNat_le.mpr habs)] at hle
    refine ⟨?_, fun p h1 h2 => ?_⟩
    · dsimp only
      omega
    · dsimp only at h1 h2
      omega

theorem placeTensors_spec {size dataPos : UInt64} {ts ts' : List Tensor}
    (h : placeTensors size dataPos ts = .ok ts') (file : Bytes) (hread : ∀ t ∈ ts, Read file t) :
    ∀ t ∈ ts', Read file t ∧ Inside t size.toNat := by
  induction ts generalizing ts' with
  | nil =>
    obtain rfl : [] = ts' := by simpa [placeTensors] using h
    simp
  | cons t ts ih =>
    simp only [placeTensors, bind_ok, Except.ok.injEq] at h
    obtain ⟨t', ht, ts'', hrest, rfl⟩ := h
    intro x hx
    rcases List.mem_cons.mp hx with rfl | hx
    · exact placeTensor_spec ht file (hread t (by simp))
    · exact ih hrest (fun t ht => hread t (by simp [ht])) x hx

/-- A model as it was parsed. -/
structure Parsed (file : ModelFile) (m : Model) : Prop where
  map : m.map = file.bytes
  size : m.size.toNat = file.bytes.length
  entries : ∀ kv ∈ m.kv, EntryAt file.bytes 24 m.tensorDataPos.toNat kv
  inside : ∀ kv ∈ m.kv, ∃ e, ValueAt file.bytes 9 kv.type kv.valuePos.toNat e ∧
    e ≤ m.size.toNat
  tensors : ∀ t ∈ m.tensors, Read file.bytes t ∧ Inside t m.size.toNat

theorem parsed_of_ok {file : ModelFile} {nKv nTensors alignment : UInt64} {c c' : Cursor}
    {kv : List Kv} {m : Model} (hbase : c.base = file.bytes)
    (hsize : c.size.toNat = file.bytes.length) (hpos : c.pos.toNat = 24)
    (hle : c.pos.toNat ≤ c.size.toNat) (hkv : parseMetadata nKv c = .ok (kv, alignment, c'))
    (hm : parseTensors nTensors file.bytes kv alignment c' = .ok m) : Parsed file m := by
  have hlength := file.length_lt
  unfold parseMetadata at hkv
  split_ifs at hkv
  obtain ⟨ha, ⟨k, hk⟩, hentries⟩ := parseEntries_spec hkv hle (by rw [hsize, hbase])
    ⟨by decide, by decide⟩
  unfold parseTensors at hm
  split_ifs at hm
  simp only [bind_ok, Prod.exists, Except.ok.injEq] at hm
  obtain ⟨ts, c₂, hts, ts', hplaced, rfl⟩ := hm
  obtain ⟨⟨l, hl⟩, hread⟩ := readTensors_spec hts (by rw [hk.pos, hk.size]; exact hk.inside)
  have hsize₂ : c₂.size.toNat = file.bytes.length := by rw [hl.size, hk.size, hsize]
  have hend : c'.pos.toNat ≤ (alignUp c₂.pos alignment).toNat := by
    have hinside := hl.inside
    refine le_trans ?_ (le_alignUp ?_ ha.2 ha.1)
    · rw [hl.pos]
      omega
    · rw [hl.pos]
      rw [hk.size, hsize] at hinside
      omega
  have hbase' : c'.base = file.bytes := hk.base.trans hbase
  refine ⟨rfl, hsize₂, fun x hx => ?_, fun x hx => ?_, ?_⟩
  · have := hentries x hx
    rw [hbase, hpos] at this
    exact this.mono le_rfl hend
  · obtain ⟨e, he, hle'⟩ := (hentries x hx).value
    refine ⟨e, hbase ▸ he, hle'.trans ?_⟩
    rw [hsize₂, hk.pos, ← hsize]
    exact hk.inside
  · exact placeTensors_spec hplaced file.bytes fun t ht => hbase' ▸ hread t ht

/-! ## The Engram tables -/

namespace Model

theorem engramStep_spec {st st' : EngramScan} {t : Tensor} (h : engramStep st t = .ok st') :
    st.residentEnd.toNat ≤ st'.residentEnd.toNat ∧
      (engramIndex t.name = none → t.bytes ≠ 0 ∧
        (t.absOffset + t.bytes).toNat ≤ st'.residentEnd.toNat) ∧
      ∀ i x, st'.tables i = some x → st.tables i = some x ∨ x = t ∧ engramShape t = true := by
  unfold engramStep at h
  split at h
  · next i hi =>
    split_ifs at h with hbad
    obtain rfl := Except.ok.inj h
    simp only [Bool.or_eq_true, Bool.not_eq_true', not_or, Bool.not_eq_true, Bool.not_eq_false] at hbad
    refine ⟨le_rfl, fun hnone => by simp [hi] at hnone, fun j x hx => ?_⟩
    dsimp only at hx
    rcases eq_or_ne j i with rfl | hne
    · rw [Function.update_self] at hx
      exact .inr ⟨(Option.some.inj hx).symm, hbad.2⟩
    · rw [Function.update_of_ne hne] at hx
      exact .inl hx
  · by_cases hbytes : t.bytes = 0
    · rw [if_pos hbytes] at h
      cases h
    rw [if_neg hbytes] at h
    obtain rfl := Except.ok.inj h
    refine ⟨?_, fun _ => ⟨hbytes, ?_⟩, fun i x hx => .inl hx⟩
    · dsimp only
      split_ifs with hmore
      · exact (UInt64.lt_iff_toNat_lt.mp hmore).le
      · exact le_rfl
    · dsimp only
      split_ifs with hmore
      · exact le_rfl
      · exact UInt64.le_iff_toNat_le.mp (UInt64.not_lt.mp hmore)

theorem engramScan_spec {st st' : EngramScan} {ts : List Tensor} (h : engramScan st ts = .ok st') :
    st.residentEnd.toNat ≤ st'.residentEnd.toNat ∧
      (∀ t ∈ ts, engramIndex t.name = none → t.bytes ≠ 0 ∧
        (t.absOffset + t.bytes).toNat ≤ st'.residentEnd.toNat) ∧
      ∀ i x, st'.tables i = some x → st.tables i = some x ∨ x ∈ ts ∧ engramShape x = true := by
  induction ts generalizing st with
  | nil =>
    obtain rfl : st = st' := by simpa [engramScan] using h
    exact ⟨le_rfl, by simp, fun i x hx => .inl hx⟩
  | cons t ts ih =>
    simp only [engramScan, bind_ok] at h
    obtain ⟨st₁, h₁, hrest⟩ := h
    obtain ⟨hle₁, hend₁, htab₁⟩ := engramStep_spec h₁
    obtain ⟨hle, hend, htab⟩ := ih hrest
    refine ⟨hle₁.trans hle, ?_, ?_⟩
    · intro x hx hnone
      rcases List.mem_cons.mp hx with rfl | hx
      · obtain ⟨hb, hle'⟩ := hend₁ hnone
        exact ⟨hb, hle'.trans hle⟩
      · exact hend x hx hnone
    · intro i x hx
      rcases htab i x hx with hx | ⟨hmem, hshape⟩
      · rcases htab₁ i x hx with hx | ⟨rfl, hshape⟩
        · exact .inl hx
        · exact .inr ⟨by simp, hshape⟩
      · exact .inr ⟨by simp [hmem], hshape⟩

theorem bytes_ne_zero_of_shape {file : Bytes} {t : Tensor} (h : engramShape t = true)
    (hread : Read file t) : 0 < t.bytes.toNat := by
  unfold engramShape at h
  split at h
  · next d0 d1 hdims =>
    simp only [Bool.and_eq_true, beq_iff_eq, bne_iff_ne, ne_eq] at h
    obtain ⟨⟨⟨htype, rfl⟩, hd1⟩, -⟩ := h
    have hd1 : 0 < d1.toNat := Nat.pos_of_ne_zero fun h0 => hd1 (UInt64.toNat_inj.mp h0)
    have hel : t.elements.toNat = 264 * d1.toNat := by
      rw [hread.elements, Tensor.dimsProd, hdims]
      simp
    have hlt := t.elements.toNat_lt
    have htensor : tensorType t.type = some ⟨1, 1⟩ := by rw [htype]; rfl
    rw [hread.bytes, tensorNbytes_toNat htensor]
    simp only [UInt64.toNat_one, Nat.add_sub_cancel, Nat.div_one, Nat.mul_one]
    rw [Nat.mod_eq_of_lt hlt, if_pos hlt]
    omega
  · cases h

/-- **What cutting off the tables leaves.** -/
theorem unmapEngram_spec {file : ModelFile} {m m' : Model} {page : Int} (hp : Parsed file m)
    (h : m.unmapEngram page = .ok m') :
    m'.map = m.map ∧ m'.kv = m.kv ∧ m'.tensors = m.tensors ∧ m'.size.toNat ≤ m.size.toNat ∧
      (m' = m ∧ m.isDeepseek41 = false ∨ m.tensorDataPos.toNat ≤ m'.size.toNat ∧
        ∀ t ∈ m.tensors, engramIndex t.name = none →
          t.absOffset.toNat + t.bytes.toNat ≤ m'.size.toNat) := by
  unfold unmapEngram at h
  split_ifs at h with harch hencoding
  · obtain rfl := Except.ok.inj h
    exact ⟨rfl, rfl, rfl, le_rfl, .inl ⟨rfl, by simpa using harch⟩⟩
  simp only [bind_ok] at h
  obtain ⟨st, hst, h⟩ := h
  obtain ⟨hle, hend, htab⟩ := engramScan_spec hst
  split at h
  · next t0 t1 h0 h1 =>
    by_cases hbad : page ≤ 0 ∨ t0.absOffset % UInt64.ofInt page ≠ 0 ∨
        st.residentEnd > t0.absOffset ∨ t1.absOffset < t0.absOffset + t0.bytes
    · simp only [if_pos hbad, reduceCtorEq] at h
    simp only [if_neg hbad, Except.ok.injEq] at h
    subst h
    simp only [not_or] at hbad
    have hresident : st.residentEnd.toNat ≤ t0.absOffset.toNat :=
      UInt64.le_iff_toNat_le.mp (UInt64.not_lt.mp hbad.2.2.1)
    obtain ⟨hmem, hshape⟩ := (htab 0 t0 h0).resolve_left (by simp)
    obtain ⟨hread, hinside⟩ := hp.tensors t0 hmem
    have hstart : t0.absOffset.toNat < m.size.toNat := by
      refine hinside.inside _ le_rfl ?_
      have := bytes_ne_zero_of_shape hshape hread
      omega
    refine ⟨rfl, rfl, rfl, hstart.le, .inr ⟨hle.trans hresident, fun t ht hnone => ?_⟩⟩
    have hadd := (hp.tensors t ht).2.noWrap
    have := (hend t ht hnone).2
    rw [UInt64.toNat_add, Nat.mod_eq_of_lt hadd] at this
    exact this.trans hresident
  · cases h

end Model

/-! ## Main result -/

/-- A model that was opened is safe: its entries lie in the file and in the mapping, and their values
can be decoded again from where they stand; its tensors are those of the directory, with the exact
number of bytes when their type is supported, and lie in the file; and for a V4.1 model the tensors
other than the Engram tables lie in what is mapped. -/
structure Safe (file : ModelFile) (m : Model) : Prop where
  mapping : m.map = file.bytes ∧ m.size.toNat ≤ file.bytes.length
  values : ∀ kv ∈ m.kv, EntryAt file.bytes 24 m.size.toNat kv
  again : ∀ kv ∈ m.kv, ∃ c, skipValue (m.cursorAt kv.valuePos) kv.type 0 = .ok c ∧
    ValueAt file.bytes 9 kv.type kv.valuePos.toNat c.pos.toNat
  directory : ∀ t ∈ m.tensors, (∃ s, TensorAt file.bytes s t) ∧ t.elements.toNat = t.dimsProd
  bytes : ∀ t ∈ m.tensors, ∀ info, tensorType t.type = some info →
    t.bytes.toNat = info.exactBytes t.dimsProd
  inside : ∀ t ∈ m.tensors, Inside t file.bytes.length
  resident : m.isDeepseek41 = true → ∀ t ∈ m.tensors, Model.engramIndex t.name = none →
    t.absOffset.toNat + t.bytes.toNat ≤ m.size.toNat

theorem parsed_of_modelOpen {file : ModelFile} {page : Int} {m' : Model}
    (h : modelOpen file page = .ok m') : ∃ m, Parsed file m ∧ m.unmapEngram page = .ok m' := by
  have hlength := file.length_lt
  unfold modelOpen at h
  split_ifs at h with hsmall
  simp only [bind_ok, Prod.exists, u32_eq_ok] at h
  obtain ⟨magic, c₁, ⟨h₁, -⟩, h⟩ := h
  split_ifs at h with hmagic
  simp only [bind_ok, Prod.exists, u32_eq_ok, u64_eq_ok] at h
  obtain ⟨version, c₂, ⟨h₂, -⟩, nTensors, c₃, ⟨h₃, -⟩, nKv, c₄, ⟨h₄, -⟩, h⟩ := h
  split_ifs at h with hversion
  simp only [bind_ok, Prod.exists] at h
  obtain ⟨kv, alignment, c₅, hkv, m, hm, hunmap⟩ := h
  have hmoves := ((h₁.trans h₂).trans h₃).trans h₄
  have hsize : c₄.size.toNat = file.bytes.length := by
    rw [hmoves.size, UInt64.toNat_ofNat', Nat.mod_eq_of_lt (by omega)]
  have hpos : c₄.pos.toNat = 24 := by
    rw [hmoves.pos]
    rfl
  exact ⟨m, parsed_of_ok hmoves.base hsize hpos (by omega) hkv hm, hunmap⟩

/-- **Opening a model file is safe exactly when the sizes of its tensors fit.** A file that is opened
has all properties but one; the exact number of bytes is missing when, for a tensor of a supported
type, the elements cannot be rounded up to blocks or the bytes not be counted in 64 bits. -/
theorem modelOpen_safe_iff {file : ModelFile} {page : Int} {m : Model}
    (h : modelOpen file page = .ok m) :
    Safe file m ↔
      ∀ t ∈ m.tensors, ∀ info, tensorType t.type = some info → info.Fits t.dimsProd := by
  obtain ⟨m₀, hp, hunmap⟩ := parsed_of_modelOpen h
  obtain ⟨hmap, hkv, htensors, hsize, hcase⟩ := Model.unmapEngram_spec hp hunmap
  have hread : ∀ t ∈ m.tensors, Read file.bytes t ∧ Inside t m₀.size.toNat := by
    intro t ht
    exact hp.tensors t (htensors ▸ ht)
  have hexact : ∀ t ∈ m.tensors, ∀ info, tensorType t.type = some info →
      (t.bytes.toNat = info.exactBytes t.dimsProd ↔ info.Fits t.dimsProd) := by
    intro t ht info hinfo
    obtain ⟨hr, -⟩ := hread t ht
    rw [hr.bytes, ← hr.elements]
    exact tensorNbytes_eq_iff hinfo t.elements
  have hvalues : ∀ kv ∈ m.kv, EntryAt file.bytes 24 m.size.toNat kv := by
    intro kv hmem
    rw [hkv] at hmem
    rcases hcase with ⟨rfl, -⟩ | ⟨hdata, -⟩
    · have hentry := hp.entries kv hmem
      exact ⟨hentry.first, hentry.key, hentry.type, hp.inside kv hmem⟩
    · exact (hp.entries kv hmem).mono le_rfl hdata
  refine ⟨fun hsafe t ht info hinfo => (hexact t ht info hinfo).mp (hsafe.bytes t ht info hinfo),
    fun hfits => ⟨⟨hmap.trans hp.map, hsize.trans hp.size.le⟩, hvalues, ?_, ?_, ?_, ?_, ?_⟩⟩
  · intro kv hmem
    obtain ⟨e, he, hle⟩ := (hvalues kv hmem).value
    have he' : ValueAt (m.cursorAt kv.valuePos).base 9 kv.type kv.valuePos.toNat e := by
      rw [Model.cursorAt, hmap, hp.map]
      exact he
    obtain ⟨c, hc, hpos⟩ := skipLevels_of_valueAt (c := m.cursorAt kv.valuePos) he' hle
    exact ⟨c, hc, hpos.symm ▸ he⟩
  · exact fun t ht => ⟨(hread t ht).1.entry, (hread t ht).1.elements⟩
  · exact fun t ht info hinfo => (hexact t ht info hinfo).mpr (hfits t ht info hinfo)
  · intro t ht
    rw [← hp.size]
    exact (hread t ht).2
  · intro harch t ht hnone
    rcases hcase with ⟨rfl, hno⟩ | ⟨-, hresident⟩
    · simp [harch] at hno
    · exact hresident t (htensors ▸ ht) hnone

set_option maxRecDepth 10000 in
/-- A file with an array of one empty string as metadata, and a tensor of one byte. -/
def smallFile : ModelFile where
  bytes := put32 ggufMagic ++ put32 3 ++ put64 1 ++ put64 1 ++
    (put64 1 ++ lit "a" ++ put32 9 ++ put32 8 ++ put64 1 ++ put64 0) ++
    (put64 1 ++ lit "t" ++ put32 1 ++ put64 1 ++ put32 24 ++ put64 0) ++ List.replicate 34 0
  length_lt := by decide

set_option maxRecDepth 10000 in
theorem modelOpen_safe_iff_smallFile : ∃ m, modelOpen smallFile 16384 = .ok m ∧
    (Safe smallFile m ↔
      ∀ t ∈ m.tensors, ∀ info, tensorType t.type = some info → info.Fits t.dimsProd) := by
  have hok : ((modelOpen smallFile 16384).toOption).isSome := by decide
  cases hm : modelOpen smallFile 16384 with
  | error e => simp [hm, Except.toOption] at hok
  | ok m => exact ⟨m, rfl, modelOpen_safe_iff hm⟩

/-- A file with a tensor of `2 ^ 64 - 1` elements of type `q2_k`. -/
def hugeFile : ModelFile where
  bytes := put32 ggufMagic ++ put32 3 ++ put64 1 ++ put64 0 ++
    (put64 1 ++ lit "t" ++ put32 1 ++ put64 (-1) ++ put32 10 ++ put64 0)
  length_lt := by decide

/-- **A tensor can be taken to have no bytes.** The number of its elements wraps when it is rounded up to
blocks, and the file is opened. -/
theorem not_safe_hugeFile : ∃ m, modelOpen hugeFile 16384 = .ok m ∧ ¬ Safe hugeFile m := by
  have hok : (modelOpen hugeFile 16384).toOption.map (fun m =>
      m.tensors.map fun t => (t.type, t.dims, t.bytes)) = some [(10, [-1], 0)] := by decide
  cases hm : modelOpen hugeFile 16384 with
  | error e => simp [hm, Except.toOption] at hok
  | ok m =>
    refine ⟨m, rfl, fun hsafe => ?_⟩
    rw [hm] at hok
    obtain ⟨t, ht, heq⟩ := List.map_eq_singleton_iff.mp (Option.some.inj hok)
    simp only [Prod.mk.injEq] at heq
    obtain ⟨htype, hdims, hbytes⟩ := heq
    have hexact := hsafe.bytes t (by simp [ht]) ⟨256, 84⟩ (by rw [htype]; rfl)
    rw [hbytes, Tensor.dimsProd, hdims] at hexact
    exact absurd hexact (by decide)

end Ds4.Gguf
