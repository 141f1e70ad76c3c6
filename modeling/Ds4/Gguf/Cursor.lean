import Ds4.Lib.File
import Ds4.Lib.Words

/-!
# The cursor, and the values of a GGUF file

`ds4_cursor` and `skip_value`. A value of a type takes a stretch of the file (`ValueAt`), and a cursor
skips a value exactly when one stands at its position inside its mapping (`skipLevels_eq_ok`).
-/

namespace Ds4.Gguf

open Ds4.Lib

attribute [simp] bind_ok

/-! ## The cursor -/

/-- `ds4_cursor`: a mapping, how much of it may be read, and a position. -/
structure Cursor where
  base : Bytes
  size : UInt64
  pos : UInt64

namespace Cursor

/-- `cursor_error`. -/
def err (c : Cursor) (msg : String) : String := msg ++ " at byte " ++ toString c.pos.toNat

/-- `cursor_has`. -/
def has (c : Cursor) (n : UInt64) : Except String Unit :=
  if n > c.size || c.pos > c.size - n then .error (c.err "truncated GGUF file") else .ok ()

/-- `cursor_skip`. -/
def skip (c : Cursor) (n : UInt64) : Except String Cursor := do
  c.has n
  .ok { c with pos := c.pos + n }

/-- `cursor_u32`. -/
def u32 (c : Cursor) : Except String (UInt32 × Cursor) := do
  let c' ← c.skip 4
  .ok (get32 (part c.base c.pos.toNat 4), c')

/-- `cursor_u64`. -/
def u64 (c : Cursor) : Except String (UInt64 × Cursor) := do
  let c' ← c.skip 8
  .ok (get64 (part c.base c.pos.toNat 8), c')

/-- `cursor_string`. -/
def string (c : Cursor) : Except String (Bytes × Cursor) := do
  let (len, c) ← c.u64
  let c' ← c.skip len
  .ok (part c.base c.pos.toNat len.toNat, c')

variable {c c' c'' : Cursor} {n : UInt64} {k l : Nat}

/-- `c'` stands `k` bytes behind `c`, in the same mapping and inside it. -/
structure Moves (c : Cursor) (k : Nat) (c' : Cursor) : Prop where
  inside : c.pos.toNat + k ≤ c.size.toNat
  base : c'.base = c.base
  size : c'.size = c.size
  pos : c'.pos.toNat = c.pos.toNat + k

theorem Moves.trans (h : c.Moves k c') (h' : c'.Moves l c'') : c.Moves (k + l) c'' := by
  refine ⟨?_, h'.base.trans h.base, h'.size.trans h.size, ?_⟩
  · have := h'.inside
    rw [h.pos, h.size] at this
    omega
  · rw [h'.pos, h.pos]
    omega

theorem Moves.eq (h : c.Moves k c') (h' : c.Moves k c'') : c' = c'' := by
  obtain ⟨base', size', pos'⟩ := c'
  obtain ⟨base'', size'', pos''⟩ := c''
  obtain ⟨-, hb, hs, hp⟩ := h
  obtain ⟨-, hb', hs', hp'⟩ := h'
  dsimp only at hb hs hp hb' hs' hp'
  rw [hb, hb', hs, hs', UInt64.toNat_inj.mp (hp.trans hp'.symm)]

theorem Moves.mk' (h : c.pos.toNat + k ≤ c.size.toNat) :
    c.Moves k { c with pos := c.pos + UInt64.ofNat k } := by
  have hsize := c.size.toNat_lt
  refine ⟨h, rfl, rfl, ?_⟩
  show (c.pos + UInt64.ofNat k).toNat = _
  rw [UInt64.toNat_add, UInt64.toNat_ofNat', Nat.mod_eq_of_lt (a := k) (by omega),
    Nat.mod_eq_of_lt (by omega)]

/-- **What a skip does.** -/
theorem skip_eq_ok : c.skip n = .ok c' ↔ c.Moves n.toNat c' := by
  have hhas : c.has n = .ok () ↔ c.pos.toNat + n.toNat ≤ c.size.toNat := by
    simp only [has, gt_iff_lt, Bool.or_eq_true, decide_eq_true_eq, ite_eq_right_iff, reduceCtorEq,
      imp_false, not_or, UInt64.not_lt, UInt64.le_iff_toNat_le]
    constructor
    · rintro ⟨hn, hp⟩
      rw [UInt64.toNat_sub_of_le _ _ (UInt64.le_iff_toNat_le.mpr hn)] at hp
      omega
    · intro h
      have hn : n.toNat ≤ c.size.toNat := by omega
      rw [UInt64.toNat_sub_of_le _ _ (UInt64.le_iff_toNat_le.mpr hn)]
      omega
  have hmoves : ∀ h : c.pos.toNat + n.toNat ≤ c.size.toNat,
      c.Moves n.toNat { c with pos := c.pos + n } := by
    intro h
    simpa using Moves.mk' h
  rw [skip, bind_ok]
  constructor
  · rintro ⟨_, hok, heq⟩
    obtain rfl := Except.ok.inj heq
    exact hmoves (hhas.mp hok)
  · intro h
    exact ⟨(), hhas.mpr h.inside, congrArg _ ((hmoves h.inside).eq h)⟩

theorem u32_eq_ok {v : UInt32} : c.u32 = .ok (v, c') ↔
    c.Moves 4 c' ∧ v = get32 (part c.base c.pos.toNat 4) := by
  simp only [u32, bind_ok, skip_eq_ok, Except.ok.injEq, Prod.mk.injEq]
  constructor
  · rintro ⟨_, hm, rfl, rfl⟩
    exact ⟨hm, rfl⟩
  · rintro ⟨hm, rfl⟩
    exact ⟨c', hm, rfl, rfl⟩

theorem u64_eq_ok {v : UInt64} : c.u64 = .ok (v, c') ↔
    c.Moves 8 c' ∧ v = get64 (part c.base c.pos.toNat 8) := by
  simp only [u64, bind_ok, skip_eq_ok, Except.ok.injEq, Prod.mk.injEq]
  constructor
  · rintro ⟨_, hm, rfl, rfl⟩
    exact ⟨hm, rfl⟩
  · rintro ⟨hm, rfl⟩
    exact ⟨c', hm, rfl, rfl⟩

/-- The length in front of a string. -/
def stringLength (base : Bytes) (pos : Nat) : Nat := (get64 (part base pos 8)).toNat

theorem string_eq_ok {s : Bytes} : c.string = .ok (s, c') ↔
    c.Moves (8 + stringLength c.base c.pos.toNat) c' ∧
      s = part c.base (c.pos.toNat + 8) (stringLength c.base c.pos.toNat) := by
  simp only [string, bind_ok, Prod.exists, u64_eq_ok, skip_eq_ok, Except.ok.injEq, Prod.mk.injEq]
  constructor
  · rintro ⟨len, c₁, ⟨hm, rfl⟩, _, hm', rfl, rfl⟩
    exact ⟨hm.trans hm', by rw [hm.base, hm.pos]; rfl⟩
  · rintro ⟨hm, rfl⟩
    have hm₁ := Moves.mk' (c := c) (k := 8) (by have := hm.inside; omega)
    refine ⟨_, _, ⟨hm₁, rfl⟩, c', ⟨?_, hm.base, hm.size, ?_⟩, ?_, rfl⟩
    · rw [hm₁.pos]
      have := hm.inside
      simp only [stringLength] at this ⊢
      omega
    · rw [hm₁.pos, hm.pos, stringLength]
      omega
    · rw [hm₁.pos]
      rfl

end Cursor

/-! ## Values -/

/-- `GGUF_VALUE_UINT32`. -/
def ggufValueUint32 : UInt32 := 4

/-- `GGUF_VALUE_STRING`. -/
def ggufValueString : UInt32 := 8

/-- `GGUF_VALUE_ARRAY`. -/
def ggufValueArray : UInt32 := 9

/-- `scalar_value_size`. -/
def scalarValueSize (type : UInt32) : UInt64 :=
  match type.toNat with
  | 0 | 1 | 7 => 1
  | 2 | 3 => 2
  | 4 | 5 | 6 => 4
  | 10 | 11 | 12 => 8
  | _ => 0

/-- A loop that moves the cursor `n` times. -/
def repeatCursor (f : Cursor → Except String Cursor) : Nat → Cursor → Except String Cursor
  | 0, c => .ok c
  | n + 1, c => do repeatCursor f n (← f c)

/-- `skip_value`, with the levels of arrays that are still allowed. -/
def skipLevels : Nat → Cursor → UInt32 → Except String Cursor
  | 0, c, _ => .error (c.err "metadata array nesting is too deep")
  | levels + 1, c, type =>
    if scalarValueSize type ≠ 0 then c.skip (scalarValueSize type)
    else if type = ggufValueString then do
      let (_, c) ← c.string
      .ok c
    else if type = ggufValueArray then do
      let (itemType, c) ← c.u32
      let (len, c) ← c.u64
      let itemSize := scalarValueSize itemType
      if itemSize ≠ 0 then
        if len > (-1 : UInt64) / itemSize then .error (c.err "metadata array is too large")
        else c.skip (len * itemSize)
      else repeatCursor (fun c => skipLevels levels c itemType) len.toNat c
    else .error (c.err "unknown GGUF metadata type")

/-- `skip_value`. -/
def skipValue (c : Cursor) (type : UInt32) (depth : Nat) : Except String Cursor :=
  skipLevels (9 - depth) c type

/-- `n` stretches of a kind, one behind the other. -/
def Stretches (R : Nat → Nat → Prop) : Nat → Nat → Nat → Prop
  | 0, s, e => s = e
  | n + 1, s, e => ∃ m, R s m ∧ Stretches R n m e

/-- A value of a type takes the bytes from `s` to `e` of a file; arrays are nested no deeper than the
levels. -/
def ValueAt (file : Bytes) : Nat → UInt32 → Nat → Nat → Prop
  | 0, _, _, _ => False
  | levels + 1, type, s, e =>
    if scalarValueSize type ≠ 0 then e = s + (scalarValueSize type).toNat
    else if type = ggufValueString then e = s + 8 + (get64 (part file s 8)).toNat
    else if type = ggufValueArray then
      let itemType := get32 (part file s 4)
      let len := (get64 (part file (s + 4) 8)).toNat
      if scalarValueSize itemType ≠ 0 then
        e = s + 12 + len * (scalarValueSize itemType).toNat
      else Stretches (ValueAt file levels itemType) len (s + 12) e
    else False

theorem Stretches.le {R : Nat → Nat → Prop} {n s e : Nat} (h : Stretches R n s e)
    (hR : ∀ s e, R s e → s ≤ e) : s ≤ e := by
  induction n generalizing s with
  | zero => exact Nat.le_of_eq h
  | succ n ih =>
    obtain ⟨m, hm, hrest⟩ := h
    exact (hR s m hm).trans (ih hrest)

theorem ValueAt.le {file : Bytes} {levels : Nat} {type : UInt32} {s e : Nat}
    (h : ValueAt file levels type s e) : s ≤ e := by
  induction levels generalizing type s e with
  | zero => exact h.elim
  | succ levels ih =>
    rw [ValueAt] at h
    split_ifs at h with hscalar hstring harray
    · omega
    · omega
    · dsimp only at h
      split_ifs at h with hitem
      · omega
      · have hle := h.le fun _ _ => ih
        omega

open Cursor

theorem repeatCursor_eq_ok {f : Cursor → Except String Cursor} {R : Nat → Nat → Prop}
    {base : Bytes} (hR : ∀ s e, R s e → s ≤ e)
    (hf : ∀ {c c' : Cursor}, c.base = base → c.pos.toNat ≤ c.size.toNat →
      (f c = .ok c' ↔ ∃ k, c.Moves k c' ∧ R c.pos.toNat (c.pos.toNat + k)))
    {n : Nat} {c c' : Cursor} (hbase : c.base = base) (hpos : c.pos.toNat ≤ c.size.toNat) :
    repeatCursor f n c = .ok c' ↔
      ∃ k, c.Moves k c' ∧ Stretches R n c.pos.toNat (c.pos.toNat + k) := by
  induction n generalizing c with
  | zero =>
    constructor
    · intro h
      obtain rfl := Except.ok.inj h
      exact ⟨0, ⟨hpos, rfl, rfl, rfl⟩, rfl⟩
    · rintro ⟨k, hm, hk⟩
      have hk : k = 0 := by
        simp only [Stretches] at hk
        omega
      subst hk
      exact congrArg _ (Moves.eq ⟨hpos, rfl, rfl, rfl⟩ hm)
  | succ n ih =>
    rw [repeatCursor, bind_ok]
    constructor
    · rintro ⟨c₁, h₁, hrest⟩
      obtain ⟨k, hm, hk⟩ := (hf hbase hpos).mp h₁
      have hpos₁ : c₁.pos.toNat ≤ c₁.size.toNat := by
        rw [hm.pos, hm.size]
        exact hm.inside
      obtain ⟨l, hm', hl⟩ := (ih (hm.base.trans hbase) hpos₁).mp hrest
      refine ⟨k + l, hm.trans hm', _, hk, ?_⟩
      rw [hm.pos] at hl
      rwa [← Nat.add_assoc]
    · rintro ⟨k, hm, m, hRm, hrest⟩
      have hsm := hR _ _ hRm
      have hme := hrest.le hR
      have hinside := hm.inside
      obtain ⟨j, rfl⟩ := Nat.exists_eq_add_of_le hsm
      have hm₁ := Moves.mk' (c := c) (k := j) (by omega)
      refine ⟨_, (hf hbase hpos).mpr ⟨j, hm₁, hRm⟩, ?_⟩
      refine (ih (c := { c with pos := c.pos + UInt64.ofNat j }) hbase
        (by rw [hm₁.pos]; show c.pos.toNat + j ≤ c.size.toNat; omega)).mpr ⟨k - j, ⟨?_, hm.base, hm.size, ?_⟩, ?_⟩
      · rw [hm₁.pos]
        show c.pos.toNat + j + (k - j) ≤ c.size.toNat
        omega
      · rw [hm₁.pos, hm.pos]
        omega
      · rw [hm₁.pos, show c.pos.toNat + j + (k - j) = c.pos.toNat + k by omega]
        exact hrest

/-- **A value is skipped exactly when it stands in the mapping.** -/
theorem skipLevels_eq_ok {levels : Nat} {type : UInt32} {c c' : Cursor}
    (hpos : c.pos.toNat ≤ c.size.toNat) :
    skipLevels levels c type = .ok c' ↔
      ∃ k, c.Moves k c' ∧ ValueAt c.base levels type c.pos.toNat (c.pos.toNat + k) := by
  induction levels generalizing type c c' with
  | zero => simp [skipLevels, ValueAt]
  | succ levels ih =>
    rw [skipLevels]
    simp only [ValueAt]
    by_cases hscalar : scalarValueSize type ≠ 0
    · simp only [if_pos hscalar]
      rw [skip_eq_ok]
      constructor
      · intro h
        exact ⟨_, h, rfl⟩
      · rintro ⟨k, hm, hk⟩
        obtain rfl : k = (scalarValueSize type).toNat := by omega
        exact hm
    simp only [if_neg hscalar]
    by_cases hstring : type = ggufValueString
    · simp only [if_pos hstring, bind_ok, Prod.exists, string_eq_ok, Except.ok.injEq]
      constructor
      · rintro ⟨s, c₁, ⟨hm, -⟩, rfl⟩
        exact ⟨_, hm, (Nat.add_assoc _ _ _).symm⟩
      · rintro ⟨k, hm, hk⟩
        obtain rfl : k = 8 + stringLength c.base c.pos.toNat := by
          rw [stringLength]
          omega
        exact ⟨_, c', ⟨hm, rfl⟩, rfl⟩
    simp only [if_neg hstring]
    by_cases harray : type = ggufValueArray
    · -- the type and the number of the items stand in front of them
      simp only [if_pos harray, bind_ok, Prod.exists, u32_eq_ok, u64_eq_ok]
      have hitems : ∀ (itemType : UInt32) (n : Nat) {c₁ c₂ : Cursor}, c₁.base = c.base →
          c₁.pos.toNat ≤ c₁.size.toNat →
          (repeatCursor (fun c => skipLevels levels c itemType) n c₁ = .ok c₂ ↔ ∃ k,
            c₁.Moves k c₂ ∧ Stretches (ValueAt c.base levels itemType) n c₁.pos.toNat
              (c₁.pos.toNat + k)) := by
        intro itemType n c₁ c₂ hb hp
        refine repeatCursor_eq_ok (R := ValueAt c.base levels itemType) (fun _ _ => ValueAt.le) ?_ hb hp
        intro c₃ c₄ hb₃ hp₃
        rw [← hb₃]
        exact ih hp₃
      have hhead : ∀ {c₁ c₂ : Cursor}, c.Moves 4 c₁ → c₁.Moves 8 c₂ →
          c.Moves 12 c₂ ∧ part c₁.base c₁.pos.toNat 8 = part c.base (c.pos.toNat + 4) 8 := by
        intro c₁ c₂ h₁ h₂
        exact ⟨h₁.trans h₂, by rw [h₁.base, h₁.pos]⟩
      have hcursors : ∀ {k : Nat}, 12 ≤ k → c.pos.toNat + k ≤ c.size.toNat →
          ∃ c₁ c₂, c.Moves 4 c₁ ∧ c₁.Moves 8 c₂ := by
        intro k hk hle
        have h₁ := Moves.mk' (c := c) (k := 4) (by omega)
        refine ⟨_, _, h₁, Moves.mk' ?_⟩
        rw [h₁.pos]
        show c.pos.toNat + 4 + 8 ≤ c.size.toNat
        omega
      constructor
      · rintro ⟨itemType, c₁, ⟨h₁, rfl⟩, len, c₂, ⟨h₂, rfl⟩, h⟩
        obtain ⟨h₁₂, hpart⟩ := hhead h₁ h₂
        rw [hpart] at h
        split_ifs at h with hitem hlarge
        · obtain hm := skip_eq_ok.1 h
          refine ⟨_, h₁₂.trans hm, ?_⟩
          rw [if_pos hitem, UInt64.toNat_mul, Nat.mod_eq_of_lt, ← Nat.add_assoc]
          simp only [gt_iff_lt, UInt64.not_lt, UInt64.le_iff_toNat_le, UInt64.toNat_div] at hlarge
          have hne : 0 < (scalarValueSize (get32 (part c.base c.pos.toNat 4))).toNat :=
            Nat.pos_of_ne_zero fun h0 => hitem (UInt64.toNat_inj.mp h0)
          have hmul := (Nat.le_div_iff_mul_le hne).mp hlarge
          exact lt_of_le_of_lt hmul (by decide)
        · have hpos₂ : c₂.pos.toNat ≤ c₂.size.toNat := by
            rw [h₁₂.pos, h₁₂.size]
            exact h₁₂.inside
          obtain ⟨k, hm, hk⟩ := (hitems _ _ h₁₂.base hpos₂).mp h
          refine ⟨12 + k, h₁₂.trans hm, ?_⟩
          rw [if_neg hitem]
          rw [h₁₂.pos] at hk
          rwa [← Nat.add_assoc]
      · rintro ⟨k, hm, hk⟩
        have hk12 : 12 ≤ k := by
          split_ifs at hk with hitem
          · omega
          · have hle := hk.le fun _ _ => ValueAt.le
            omega
        obtain ⟨c₁, c₂, h₁, h₂⟩ := hcursors hk12 hm.inside
        obtain ⟨h₁₂, hpart⟩ := hhead h₁ h₂
        have hrest : c₂.Moves (k - 12) c' := by
          refine ⟨?_, hm.base.trans h₁₂.base.symm, hm.size.trans h₁₂.size.symm, ?_⟩
          · rw [h₁₂.pos, h₁₂.size]
            have := hm.inside
            omega
          · rw [h₁₂.pos, hm.pos]
            omega
        refine ⟨_, c₁, ⟨h₁, rfl⟩, _, c₂, ⟨h₂, rfl⟩, ?_⟩
        rw [hpart]
        split_ifs at hk ⊢ with hitem hlarge
        · have hsize := c.size.toNat_lt
          have hinside := hm.inside
          have hlt : (get64 (part c.base (c.pos.toNat + 4) 8)).toNat *
              (scalarValueSize (get32 (part c.base c.pos.toNat 4))).toNat < 2 ^ 64 := by omega
          simp only [gt_iff_lt, UInt64.lt_iff_toNat_lt, UInt64.toNat_div] at hlarge
          have hmax : (-1 : UInt64).toNat = 2 ^ 64 - 1 := by decide
          rw [hmax] at hlarge
          have := Nat.lt_mul_of_div_lt hlarge
            (Nat.pos_of_ne_zero fun h0 => hitem (UInt64.toNat_inj.mp h0))
          omega
        · rw [skip_eq_ok, UInt64.toNat_mul, Nat.mod_eq_of_lt]
          · convert hrest using 1
            omega
          · have hsize := c.size.toNat_lt
            have hinside := hm.inside
            omega
        · have hpos₂ : c₂.pos.toNat ≤ c₂.size.toNat := by
            rw [h₁₂.pos, h₁₂.size]
            exact h₁₂.inside
          refine (hitems _ _ h₁₂.base hpos₂).mpr ⟨k - 12, hrest, ?_⟩
          rw [h₁₂.pos, show c.pos.toNat + 12 + (k - 12) = c.pos.toNat + k by omega]
          exact hk
    · simp [if_neg harray]

/-- **Where a value stands decides whether it is skipped, and where its end is.** -/
theorem skipLevels_of_valueAt {levels : Nat} {type : UInt32} {c : Cursor} {e : Nat}
    (h : ValueAt c.base levels type c.pos.toNat e) (he : e ≤ c.size.toNat) :
    ∃ c', skipLevels levels c type = .ok c' ∧ c'.pos.toNat = e := by
  obtain ⟨k, rfl⟩ := Nat.exists_eq_add_of_le h.le
  have hm := Moves.mk' (c := c) (k := k) he
  exact ⟨_, (skipLevels_eq_ok (by omega)).mpr ⟨k, hm, h⟩, hm.pos⟩

end Ds4.Gguf
