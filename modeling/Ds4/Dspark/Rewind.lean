import Ds4.Dspark.Block
import Mathlib.Data.List.GetD

/-!
# Verifying and rewinding

`appended` is the graph after rows that were appended one by one, and `captured` the drafter.
A verified block that is committed at `keep` is the state after its first `keep` rows
(`verify_commit`): the ring slots behind them get their old values back, and the carries, the history
and the outputs are those that were kept for row `keep - 1`, or for the block start. The saves are
only read by a commit, so the next commit starts from the same ones.
-/

namespace Ds4.Dspark

open Ds4.Lib Ds4.Engram

variable {V : Type*}

/-! ## Captures -/

/-- The drafter after rows were captured. -/
def captured (d : Drafter V) (start : Nat) (rows : List (Row V)) : Drafter V :=
  { d with
    target := fun stage =>
      Ring.writeAll (d.target stage) start (rows.map (·.mean (targetLayers stage)))
    positions := fun stage =>
      Ring.writeAll (d.positions stage) start (List.range' start rows.length)
    rewindEnd := 0 }

/-- The drafter after one layer of rows was captured. -/
def layerCaptured (start : Nat) (rows : List (Row V)) (d : Drafter V) (il : Nat) : Drafter V :=
  match stageOf il with
  | none => { d with rewindEnd := 0 }
  | some stage =>
    { d with
      target := Function.update d.target stage
        (Ring.writeAll (d.target stage) start (rows.map (·.mean il)))
      positions := Function.update d.positions stage
        (Ring.writeAll (d.positions stage) start (List.range' start rows.length))
      rewindEnd := 0 }

theorem copyRows_one (r : Ring draftWindow V) (pos : Nat) (v : V) :
    copyRows (copyRows r (pos % draftWindow) [v]) 0 [] = Ring.writeAll r pos [v] := by
  funext s
  have hslot : Ring.slot draftWindow pos = s ↔ pos % draftWindow = s.val := by
    simp [Ring.slot, Fin.ext_iff]
  simp only [copyRows, Ring.writeAll, List.getD_nil, Nat.zero_le, if_true]
  by_cases h : pos % draftWindow = s.val
  · obtain rfl := hslot.mpr h
    rw [if_pos h.le, Function.update_self, h, Nat.sub_self]
    rfl
  · rw [Function.update_of_ne (fun hs => h (hslot.mp hs.symm))]
    split
    next hle =>
      obtain ⟨k, hk⟩ : ∃ k, s.val - pos % draftWindow = k + 1 :=
        ⟨s.val - pos % draftWindow - 1, by omega⟩
      rw [hk]
      rfl
    · rfl

theorem capture_one (d : Drafter V) (il pos : Nat) (row : Row V) (hpos : pos + 1 < 2 ^ 32) :
    capture d il pos [row.mean il] = some (layerCaptured pos [row] d il) := by
  unfold capture layerCaptured
  cases stageOf il with
  | none => rfl
  | some stage =>
    simp only
    have hlen : ([row.mean il] : List V).length = 1 := rfl
    have hpart : min 1 (draftWindow - pos % draftWindow) = 1 := by
      have := Nat.mod_lt pos (show 0 < draftWindow by decide)
      omega
    rw [if_neg (by simp; omega)]
    simp only [hlen, show min 1 draftWindow = 1 by decide, Nat.sub_self, Nat.add_zero, hpart,
      List.drop_zero, List.take_succ_cons, List.take_zero, List.drop_succ_cons, copyRows_one]
    rfl

theorem layerCaptured_append (start : Nat) (rows : List (Row V)) (row : Row V) (d : Drafter V)
    (il : Nat) :
    layerCaptured (start + rows.length) [row] (layerCaptured start rows d il) il =
      layerCaptured start (rows ++ [row]) d il := by
  unfold layerCaptured
  cases stageOf il with
  | none => rfl
  | some stage =>
    simp only [Function.update_self, Function.update_idem, List.map_append, List.length_append,
      Ring.writeAll_append, List.length_map, List.length_range',
      ← List.range'_append_1]

theorem capture_layer (d : Drafter V) (il start : Nat) (rows : List (Row V)) (hne : rows ≠ [])
    (hpos : start + rows.length < 2 ^ 32) :
    rows.zipIdx.foldlM (fun d x => capture d il (start + x.2) [x.1.mean il]) d =
      some (layerCaptured start rows d il) := by
  induction rows using List.reverseRecOn with
  | nil => exact absurd rfl hne
  | append_singleton rows row ih =>
    rw [List.length_append, List.length_singleton] at hpos
    rw [List.zipIdx_append, List.foldlM_append]
    rcases rows.eq_nil_or_concat with rfl | ⟨_, _, rfl⟩
    · simp only [List.zipIdx_nil, List.foldlM_nil, List.length_nil, List.zipIdx_cons, List.nil_append,
        List.foldlM_cons]
      rw [pure_bind, capture_one _ _ _ _ (by simpa using hpos)]
      rfl
    · rw [ih (by simp) (by omega)]
      simp only [List.zipIdx_cons, List.zipIdx_nil, List.foldlM_cons, List.foldlM_nil, Nat.zero_add]
      rw [← layerCaptured_append]
      simp only [bind, Option.bind]
      rw [capture_one _ _ _ _ (by omega)]
      rfl

theorem foldl_layerCaptured (start : Nat) (rows : List (Row V)) (d : Drafter V) :
    (List.range nLayer).foldl (layerCaptured start rows) d = captured d start rows := by
  have hnone : ∀ (l : List Nat) (d : Drafter V), (∀ il ∈ l, stageOf il = none) →
      d.rewindEnd = 0 → l.foldl (layerCaptured start rows) d = d := by
    intro l
    induction l with
    | nil => exact fun _ _ _ => rfl
    | cons il l ih =>
      intro d hl hd
      have hfirst : layerCaptured start rows d il = d := by
        rw [layerCaptured, hl il (by simp)]
        cases d
        simp_all
      rw [List.foldl_cons, hfirst]
      exact ih d (fun j hj => hl j (by simp [hj])) hd
  have hsplit : List.range nLayer = 0 :: ((List.range' 1 36) ++ [37, 38, 39]) := by decide
  rw [hsplit, List.foldl_cons, List.foldl_append,
    hnone (List.range' 1 36) _ (by decide) (by rw [layerCaptured, show stageOf 0 = none by decide])]
  have h0 : layerCaptured start rows d 0 = { d with rewindEnd := 0 } := by
    rw [layerCaptured, show stageOf 0 = none by decide]
  rw [h0]
  simp only [List.foldl_cons, List.foldl_nil, layerCaptured, captured,
    show stageOf 37 = some 0 by decide, show stageOf 38 = some 1 by decide,
    show stageOf 39 = some 2 by decide]
  congr 1
  · funext stage
    fin_cases stage <;> simp [Function.update, targetLayers]
  · funext stage
    fin_cases stage <;> simp [Function.update]

theorem captureBlock_eq (d : Drafter V) (start : Nat) (rows : List (Row V)) (hne : rows ≠ [])
    (hpos : start + rows.length < 2 ^ 32) :
    captureBlock d start rows = some (captured d start rows) := by
  have hfold : ∀ (l : List Nat) (d : Drafter V), l.foldlM (fun d il =>
      rows.zipIdx.foldlM (fun d x => capture d il (start + x.2) [x.1.mean il]) d) d =
        some (l.foldl (layerCaptured start rows) d) := by
    intro l
    induction l with
    | nil => exact fun _ => rfl
    | cons il l ih =>
      intro d
      rw [List.foldlM_cons, capture_layer d il start rows hne hpos]
      exact ih _
  rw [captureBlock, hfold, foldl_layerCaptured]

theorem captureLayers_eq (d : Drafter V) (pos : Nat) (row : Row V) (hpos : pos + 1 < 2 ^ 32) :
    captureLayers d pos row = some (captured d pos [row]) := by
  rw [← captureBlock_eq d pos [row] (by simp) (by simpa using hpos), captureLayers, captureBlock]
  congr 1
  funext d il
  simp [List.zipIdx_cons]

/-! ## Carries -/

/-- The carry after rows that were published one by one. -/
def carryAfter (o : Fin nOwner) (previous : Carry V) : List (Row V) → Nat → Carry V
  | [], _ => previous
  | row :: rows, pos => carryAfter o (publish o previous row pos) rows (pos + 1)

theorem carryAfter_of_ne {o : Fin nOwner} (h : ownerRatio o ≠ 2) (previous : Carry V)
    (rows : List (Row V)) (pos : Nat) : carryAfter o previous rows pos = previous := by
  induction rows generalizing previous pos with
  | nil => rfl
  | cons row rows ih => rw [carryAfter, ih, publish, if_neg h]

theorem publish_even {o : Fin nOwner} (h : ownerRatio o = 2) (previous : Carry V) (row : Row V)
    (pos : Nat) : publish o previous row pos = if pos % 2 = 0 then row.pool o else previous := by
  rw [publish, if_pos h]
  unfold pool2
  simp only [List.length_singleton, Nat.add_sub_cancel]
  by_cases he : pos % 2 = 0
  · rw [if_pos (by omega), if_pos he, show pos / 2 * 2 - pos = 0 by omega]
    rfl
  · rw [if_neg (by omega), if_neg he]

theorem carryAfter_getD {o : Fin nOwner} (h : ownerRatio o = 2) (previous : Carry V)
    (rows : List (Row V)) (pos : Nat) (hne : rows ≠ []) :
    carryAfter o previous rows pos = pool2 previous (rows.map (·.pool o)) pos := by
  induction rows generalizing previous pos with
  | nil => exact absurd rfl hne
  | cons row rows ih =>
    rw [carryAfter, publish_even h]
    unfold pool2
    simp only [List.length_map, List.length_cons, List.map_cons]
    cases rows with
    | nil =>
      simp only [carryAfter, List.length_nil, List.map_nil]
      by_cases he : pos % 2 = 0
      · rw [if_pos he, if_pos (by omega), show (pos + (0 + 1) - 1) / 2 * 2 - pos = 0 by omega]
        rfl
      · rw [if_neg he, if_neg (by omega)]
    | cons row' rows =>
      rw [ih _ _ (by simp)]
      unfold pool2
      simp only [List.length_map, List.length_cons]
      by_cases hlast : pos + 1 ≤ (pos + 1 + (rows.length + 1) - 1) / 2 * 2
      · obtain ⟨k, hk⟩ : ∃ k, (pos + (rows.length + 1 + 1) - 1) / 2 * 2 - pos = k + 1 :=
          ⟨(pos + (rows.length + 1 + 1) - 1) / 2 * 2 - pos - 1, by omega⟩
        rw [if_pos hlast, if_pos (show pos ≤ (pos + (rows.length + 1 + 1) - 1) / 2 * 2 by omega), hk,
          List.getD_cons_succ,
          show (pos + 1 + (rows.length + 1) - 1) / 2 * 2 - (pos + 1) = k by omega]
        have hlt : k < ((row' :: rows).map (·.pool o)).length := by
          simp only [List.length_map, List.length_cons]
          omega
        rw [List.getD_eq_getElem _ _ hlt, List.getD_eq_getElem _ _ hlt]
      · have hpos : pos % 2 = 0 := by omega
        rw [if_neg hlast, if_pos hpos, if_pos (by omega),
          show (pos + (rows.length + 1 + 1) - 1) / 2 * 2 - pos = 0 by omega]
        rfl

theorem rowCarries_getD (o : Fin nOwner) (previous : Carry V) (rows : List (Row V)) (pos t : Nat)
    (ht : t < rows.length) (dflt : Carry V) :
    (rowCarries o previous rows pos).getD t dflt = carryAfter o previous (rows.take (t + 1)) pos := by
  induction rows generalizing previous pos t with
  | nil => simp at ht
  | cons row rows ih =>
    rw [rowCarries, List.take_succ_cons, carryAfter]
    cases t with
    | zero => rfl
    | succ t => exact ih _ _ _ (by simpa using ht)

theorem batchCarry_eq (o : Fin nOwner) (previous : Carry V) (rows : List (Row V)) (start t : Nat)
    (ht : t < rows.length) :
    batchCarry o previous rows start t = carryAfter o previous (rows.take (t + 1)) start := by
  have hlen : (rows.take (t + 1)).length = t + 1 := by rw [List.length_take]; omega
  unfold batchCarry
  by_cases h : ownerRatio o = 2
  swap
  · rw [if_pos (.inl h), carryAfter_of_ne h]
  rw [carryAfter_getD h _ _ _ (List.ne_nil_of_length_pos (by omega))]
  unfold pool2
  simp only [List.length_map, hlen, ← Nat.add_assoc, Nat.add_sub_cancel]
  by_cases he : (start + t) / 2 * 2 < start
  · rw [if_pos (.inr he), if_neg (by omega)]
  · rw [if_neg (by simp [h]; omega), if_pos (by omega), List.map_take,
      List.getD_eq_getElem?_getD, List.getD_eq_getElem?_getD, List.getElem?_take_of_lt (by omega)]

theorem blockCarry_eq (path : BlockPath) (o : Fin nOwner) (previous : Carry V) (rows : List (Row V))
    (start t : Nat) (ht : t < rows.length) :
    blockCarry path o previous rows start t = carryAfter o previous (rows.take (t + 1)) start := by
  unfold blockCarry
  split
  · exact batchCarry_eq o previous rows start t ht
  · exact rowCarries_getD o previous rows start t ht previous

/-! ## The window -/

theorem batchWindow_eq (r : Ring draftWindow V) (floor start : Nat) (kv : List V)
    (hle : kv.length ≤ draftWindow) : batchWindow r floor start kv = Ring.writeAll r start kv := by
  unfold batchWindow
  simp only
  set previous := min (start - floor) (draftWindow - 1) with hprev
  have hp : previous ≤ start := by omega
  have hdrop : (Ring.readAll r (start - previous) previous ++ kv).drop
      ((Ring.readAll r (start - previous) previous ++ kv).length -
        min (Ring.readAll r (start - previous) previous ++ kv).length draftWindow) =
      Ring.readAll r (start + kv.length -
        min (Ring.readAll r (start - previous) previous ++ kv).length draftWindow)
        (min (Ring.readAll r (start - previous) previous ++ kv).length draftWindow - kv.length) ++
      kv := by
    simp only [List.length_append, Ring.readAll_length]
    rw [List.drop_append_of_le_length (by rw [Ring.readAll_length]; omega), Ring.readAll_drop]
    congr 2 <;> omega
  rw [hdrop, Ring.writeAll_behind]
  congr 1
  simp only [List.length_append, Ring.readAll_length]
  omega

theorem blockWindow_eq (path : BlockPath) (r : Ring draftWindow V) (floor start : Nat) (kv : List V)
    (hle : kv.length ≤ draftWindow) :
    blockWindow path r floor start kv = Ring.writeAll r start kv := by
  unfold blockWindow
  split
  · exact batchWindow_eq r floor start kv hle
  · rfl

/-! ## Appending rows -/

/-- The graph after rows were appended one by one; `hs` are the histories behind each. -/
def appended (g : Graph V) (rows : List (Row V)) (hs : List History) : Graph V :=
  { g with
    window := fun il => Ring.writeAll (g.window il) g.pos (rows.map (·.kv il))
    previous := fun o => carryAfter o (g.previous o) rows g.pos
    residual := (rows.map (·.residual)).getLastD g.residual
    pre := (rows.map (·.pre)).getLastD g.pre
    logits := (rows.map (·.logits)).getLastD g.logits
    history := hs.getLastD g.history
    pos := g.pos + rows.length }

theorem blockHistories_length {l : Layout} {h : History} {rows : List (Row V)} {hs : List History}
    (hh : blockHistories l h rows = some hs) : hs.length = rows.length := by
  induction rows generalizing h hs with
  | nil =>
    obtain rfl : [] = hs := by simpa [blockHistories] using hh
    rfl
  | cons row rows ih =>
    simp only [blockHistories, Option.ite_none_left_eq_some, Option.map_eq_some_iff] at hh
    obtain ⟨-, hs, hh, rfl⟩ := hh
    rw [List.length_cons, List.length_cons, ih hh]

theorem blockHistories_take {l : Layout} {h : History} {rows : List (Row V)} {hs : List History}
    (hh : blockHistories l h rows = some hs) (k : Nat) :
    blockHistories l h (rows.take k) = some (hs.take k) := by
  induction rows generalizing h hs k with
  | nil =>
    obtain rfl : [] = hs := by simpa [blockHistories] using hh
    simp [blockHistories]
  | cons row rows ih =>
    simp only [blockHistories, Option.ite_none_left_eq_some, Option.map_eq_some_iff] at hh
    obtain ⟨hok, hs, hh, rfl⟩ := hh
    cases k with
    | zero => rfl
    | succ k => simp only [List.take_succ_cons, blockHistories, if_neg hok, ih hh, Option.map_some]

theorem captured_captured (d : Drafter V) (start : Nat) (row : Row V) (rows : List (Row V)) :
    captured (captured d start [row]) (start + 1) rows = captured d start (row :: rows) := by
  simp only [captured, List.map_cons, List.map_nil, List.length_cons, List.length_nil,
    List.range'_succ, List.range'_zero, Ring.writeAll]

theorem appendRows_eq {l : Layout} {g : Graph V} {d : Drafter V} {rows : List (Row V)}
    {hs : List History} (hvalid : g.valid = true) (hroom : g.pos + rows.length ≤ g.ctx)
    (hh : blockHistories l g.history rows = some hs) :
    appendRows l (g, d) rows =
      some (appended g rows hs, if rows = [] then d else captured d g.pos rows) := by
  induction rows generalizing g d hs with
  | nil =>
    obtain rfl : [] = hs := by simpa [blockHistories] using hh
    rfl
  | cons row rows ih =>
    simp only [blockHistories, Option.ite_none_left_eq_some, Option.map_eq_some_iff] at hh
    obtain ⟨hok, hs, hh, rfl⟩ := hh
    rw [List.length_cons] at hroom
    have hlt := g.ctx_lt
    have hrow : appendRow l g d row =
        some (appended g [row] [(hash l g.history [row.token] none).2.1],
          captured d g.pos [row]) := by
      unfold appendRow
      rw [if_neg (by simp [hvalid]; omega)]
      simp only [if_neg hok, captureLayers_eq d g.pos row (by omega), Option.map_some]
      rfl
    have hrest := ih (g := appended g [row] [(hash l g.history [row.token] none).2.1])
      (d := captured d g.pos [row]) hvalid (by simp only [appended, List.length_singleton]; omega) hh
    unfold appendRows at hrest ⊢
    rw [List.foldlM_cons]
    simp only [hrow, bind, Option.bind]
    refine hrest.trans ?_
    congr 2
    · simp only [appended, List.map_cons, List.map_nil, Ring.writeAll, carryAfter, List.length_cons,
        List.length_nil, List.getLastD_cons, List.getLastD_nil]
      congr 1
      omega
    · rw [if_neg (by simp : ¬ row :: rows = [])]
      split
      next h => rw [h]
      · exact captured_captured d g.pos row rows

/-! ## A verified block -/

/-- The blocks that are verified. -/
structure Accepted (l : Layout) (g : Graph V) (rows : List (Row V)) (hs : List History) : Prop where
  valid : g.valid = true
  two_le : 2 ≤ rows.length
  le : rows.length ≤ verifyRows
  room : g.pos + rows.length ≤ g.ctx
  histories : blockHistories l g.history rows = some hs

/-- The graph behind a verified block. -/
def verifiedGraph (path : BlockPath) (g : Graph V) (rows : List (Row V)) : Graph V :=
  { g with
    window := fun il => blockWindow path (g.window il) g.windowFloor g.pos (rows.map (·.kv il))
    previous := fun o => blockPrevious path o (g.previous o) rows g.pos }

/-- The drafter behind a verified block. -/
def verifiedDrafter (path : BlockPath) (g : Graph V) (d : Drafter V) (rows : List (Row V))
    (hs : List History) : Drafter V :=
  { captured (saveOld d g rows.length) g.pos rows with
    verified := fun i =>
      if i.val = verifyRows then startSaved g
      else (savedRows path g rows hs).getD i.val (d.verified i)
    hostVerified := fun i =>
      if i.val = verifyRows then g.logits
      else (rows.map (·.logits)).getD i.val (d.hostVerified i)
    verifyCount := Fin.ofNat (verifyRows + 1) rows.length }

/-- The row graph that a commit uses. -/
def lastRow (keep : Nat) : Fin (verifyRows + 1) :=
  if keep ≠ 0 then Fin.ofNat _ (keep - 1) else Fin.last _

theorem commit_of_ok {g : Graph V} {d : Drafter V} {keep : Nat}
    (h : commitRefused g d keep = false) :
    commit g d keep =
      ({ g with
        window := fun il => restore d keep (g.window il) (d.oldRaw il)
        previous := (d.verified (lastRow keep)).verifyPrevious
        residual := (d.verified (lastRow keep)).residual
        pre := (d.verified (lastRow keep)).pre
        logits := (d.verified (lastRow keep)).logits
        pos := (d.verified (lastRow keep)).pos
        history := (d.verified (lastRow keep)).history },
        { d with
          target := fun stage => restore d keep (d.target stage) (d.oldFeatures stage)
          positions := fun stage => restore d keep (d.positions stage) (d.oldPositions stage)
          rewindEnd := (d.verified (lastRow keep)).pos },
        some (d.hostVerified (lastRow keep))) := by
  rw [commit, if_neg (by simp [h])]
  rfl

section Block

variable {l : Layout} {path : BlockPath} {g : Graph V} {d : Drafter V} {rows : List (Row V)}
  {hs : List History}

theorem verify_eq (h : Accepted l g rows hs) :
    verify l path g d rows = (verifiedGraph path g rows, verifiedDrafter path g d rows hs, true) := by
  have hlt := g.ctx_lt
  have := h.room
  have := h.two_le
  have := h.le
  unfold verify
  rw [if_neg (by simp [h.valid]; omega)]
  simp only [h.histories,
    captureBlock_eq (saveOld d g rows.length) g.pos rows (List.ne_nil_of_length_pos (by omega))
      (by omega)]
  rfl

theorem verifyCount_val (h : Accepted l g rows hs) :
    (verifiedDrafter path g d rows hs).verifyCount.val = rows.length :=
  Nat.mod_eq_of_lt (by have := h.le; omega)

theorem saved_take {α : Type*} (h : Accepted l g rows hs) (r : Ring draftWindow α)
    (old : Fin verifyRows → α) :
    (List.ofFn fun i : Fin verifyRows =>
      if i.val < rows.length then r (Ring.slot draftWindow (g.pos + i.val)) else old i).take
        rows.length = Ring.readAll r g.pos rows.length := by
  have hle := h.le
  refine List.ext_getElem (by simp [hle]) fun i h₁ h₂ => ?_
  rw [Ring.readAll_length] at h₂
  simp only [List.getElem_take, List.getElem_ofFn, if_pos h₂, Ring.readAll, List.getElem_map,
    List.getElem_range]

variable (path d) in
theorem restore_block {α : Type*} (h : Accepted l g rows hs) (r : Ring draftWindow α)
    (vals : List α) (old : Fin verifyRows → α) (hvals : vals.length = rows.length) {keep : Nat}
    (hkeep : keep ≤ rows.length) :
    restore (verifiedDrafter path g d rows hs) keep (Ring.writeAll r g.pos vals)
      (fun i => if i.val < rows.length then r (Ring.slot draftWindow (g.pos + i.val)) else old i) =
        Ring.writeAll r g.pos (vals.take keep) := by
  have hle : rows.length ≤ 6 := h.le
  unfold restore
  rw [verifyCount_val h, saved_take h, ← hvals]
  exact Ring.writeAll_rollback r g.pos vals keep (by simp only [draftWindow]; omega) (by omega)

theorem restore_restore {α : Type*} (d : Drafter V) (r : Ring draftWindow α)
    (old : Fin verifyRows → α) {keep keep' : Nat} (h : keep' ≤ keep)
    (hkeep : keep ≤ d.verifyCount.val) :
    restore d keep' (restore d keep r old) old = restore d keep' r old := by
  unfold restore
  set saved := (List.ofFn old).take d.verifyCount.val with hsaved
  have hlen : saved.length = d.verifyCount.val := by
    have := d.verifyCount.isLt
    rw [hsaved, List.length_take, List.length_ofFn]
    omega
  have hsplit : saved.drop keep' = (saved.drop keep').take (keep - keep') ++ saved.drop keep := by
    conv_lhs => rw [← List.take_append_drop (keep - keep') (saved.drop keep')]
    rw [List.drop_drop, show keep' + (keep - keep') = keep by omega]
  have hfront : ((saved.drop keep').take (keep - keep')).length = keep - keep' := by
    rw [List.length_take, List.length_drop]
    omega
  rw [hsplit, show d.verifyStart + keep = d.verifyStart + keep' +
    ((saved.drop keep').take (keep - keep')).length by omega]
  refine Ring.writeAll_suffix _ _ _ _ ?_
  have : d.verifyCount.val < 7 := d.verifyCount.isLt
  rw [hfront, List.length_drop]
  simp only [draftWindow]
  omega

theorem not_commitRefused (h : Accepted l g rows hs) {keep : Nat} (hkeep : keep ≤ rows.length) :
    commitRefused (verifiedGraph path g rows) (verifiedDrafter path g d rows hs) keep = false := by
  have := h.two_le
  have hcount : (verifiedDrafter path g d rows hs).verifyCount.val = rows.length :=
    verifyCount_val h
  have hne : ((verifiedDrafter path g d rows hs).verifyCount == 0) = false := by
    rw [beq_eq_false_iff_ne]
    intro h0
    rw [h0] at hcount
    simp at hcount
    omega
  simp only [commitRefused, hne, hcount, Bool.false_or]
  simp [verifiedGraph, verifiedDrafter, captured, saveOld, hkeep]

theorem getLastD_take {α : Type*} (xs : List α) (k : Nat) (hk : k < xs.length) (a : α) :
    (xs.take (k + 1)).getLastD a = xs[k] := by
  rw [List.getLastD_eq_getLast?, List.getLast?_take]
  simp [hk]

theorem savedRows_getD (h : Accepted l g rows hs) {k : Nat} (hk : k < rows.length) (x : Saved V) :
    (savedRows path g rows hs).getD k x =
      { pos := g.pos + k + 1
        history := hs.get ⟨k, by rw [blockHistories_length h.histories]; exact hk⟩
        residual := rows[k].residual
        pre := rows[k].pre
        logits := rows[k].logits
        verifyPrevious := fun o => carryAfter o (g.previous o) (rows.take (k + 1)) g.pos } := by
  have hlen := blockHistories_length h.histories
  rw [List.getD_eq_getElem _ _ (by simp [savedRows, hlen, hk])]
  simp only [savedRows, List.getElem_map, List.getElem_zipIdx, List.getElem_zip, Nat.zero_add,
    List.get_eq_getElem, blockCarry_eq path _ _ rows g.pos k hk]

variable (path d) in
theorem verified_eq (h : Accepted l g rows hs) {keep : Nat} (hkeep : keep ≤ rows.length) :
    (verifiedDrafter path g d rows hs).verified (lastRow keep) =
      { pos := g.pos + keep
        history := (appended g (rows.take keep) (hs.take keep)).history
        residual := (appended g (rows.take keep) (hs.take keep)).residual
        pre := (appended g (rows.take keep) (hs.take keep)).pre
        logits := (appended g (rows.take keep) (hs.take keep)).logits
        verifyPrevious := (appended g (rows.take keep) (hs.take keep)).previous } ∧
      (verifiedDrafter path g d rows hs).hostVerified (lastRow keep) =
      (appended g (rows.take keep) (hs.take keep)).logits := by
  have hle : rows.length ≤ 6 := h.le
  have hlen := blockHistories_length h.histories
  cases keep with
  | zero => exact ⟨rfl, rfl⟩
  | succ k =>
    have hval : (Fin.ofNat (verifyRows + 1) k).val = k :=
      Nat.mod_eq_of_lt (show k < 7 by omega)
    have hne : ¬ (Fin.ofNat (verifyRows + 1) k).val = verifyRows := by
      rw [hval]
      exact Nat.ne_of_lt (show k < 6 by omega)
    have hrow : lastRow (k + 1) = Fin.ofNat (verifyRows + 1) k := if_pos (by simp)
    simp only [hrow, verifiedDrafter, if_neg hne]
    rw [hval, savedRows_getD h (by omega), List.getD_eq_getElem _ _ (by simp; omega)]
    simp only [appended, List.map_take, getLastD_take _ k (show k < hs.length by omega),
      getLastD_take _ k (show k < (rows.map (·.residual)).length by simp; omega),
      getLastD_take _ k (show k < (rows.map (·.pre)).length by simp; omega),
      getLastD_take _ k (show k < (rows.map (·.logits)).length by simp; omega), List.getElem_map,
      List.get_eq_getElem, Nat.add_assoc, and_self]

/-- **The committed state.** -/
theorem commit_verified (h : Accepted l g rows hs) {keep : Nat} (hkeep : keep ≤ rows.length) :
    commit (verifiedGraph path g rows) (verifiedDrafter path g d rows hs) keep =
      (appended g (rows.take keep) (hs.take keep),
        { verifiedDrafter path g d rows hs with
          target := (captured d g.pos (rows.take keep)).target
          positions := (captured d g.pos (rows.take keep)).positions
          rewindEnd := g.pos + keep },
        some (appended g (rows.take keep) (hs.take keep)).logits) := by
  have hle : rows.length ≤ 6 := h.le
  obtain ⟨hlast, hlogits⟩ := verified_eq path d h hkeep
  rw [commit_of_ok (not_commitRefused h hkeep)]
  simp only [hlast, hlogits]
  refine Prod.ext ?_ (Prod.ext ?_ rfl)
  · have hpos : (appended g (rows.take keep) (hs.take keep)).pos = g.pos + keep := by
      simp only [appended, List.length_take]
      omega
    have hwindow : ∀ il, restore (verifiedDrafter path g d rows hs) keep
        ((verifiedGraph path g rows).window il) ((verifiedDrafter path g d rows hs).oldRaw il) =
          (appended g (rows.take keep) (hs.take keep)).window il := fun il => by
      simp only [verifiedGraph]
      rw [blockWindow_eq path _ _ _ _ (by simp only [List.length_map, draftWindow]; omega)]
      have := restore_block path d h (g.window il) (rows.map (·.kv il))
        (d.oldRaw il) (by simp) hkeep
      simp only [appended, List.map_take]
      exact this
    simp only [hwindow, ← hpos]
    rfl
  · have htarget : ∀ stage, restore (verifiedDrafter path g d rows hs) keep
        ((verifiedDrafter path g d rows hs).target stage)
        ((verifiedDrafter path g d rows hs).oldFeatures stage) =
          (captured d g.pos (rows.take keep)).target stage := fun stage => by
      have := restore_block path d h (d.target stage)
        (rows.map (·.mean (targetLayers stage))) (d.oldFeatures stage) (by simp) hkeep
      simp only [captured, List.map_take]
      exact this
    have hpositions : ∀ stage, restore (verifiedDrafter path g d rows hs) keep
        ((verifiedDrafter path g d rows hs).positions stage)
        ((verifiedDrafter path g d rows hs).oldPositions stage) =
          (captured d g.pos (rows.take keep)).positions stage := fun stage => by
      have := restore_block path d h (d.positions stage)
        (List.range' g.pos rows.length) (d.oldPositions stage) (by simp) hkeep
      rw [List.take_range'_of_length_ge hkeep] at this
      simp only [captured, List.length_take, Nat.min_eq_left hkeep]
      exact this
    simp only [htarget, hpositions]

end Block

/-! ## Rewinding -/

theorem commit_commit {g : Graph V} {d : Drafter V} {keep keep' : Nat} (hle : keep' ≤ keep)
    (hok : commitRefused g d keep = false) (hok' : commitRefused g d keep' = false)
    (hpos : (d.verified (lastRow keep)).pos = d.verifyStart + keep) :
    commit (commit g d keep).1 (commit g d keep).2.1 keep' = commit g d keep' := by
  have hcount : d.verifyCount ≠ 0 ∧ keep ≤ d.verifyCount.val := by
    simp only [commitRefused, Bool.or_eq_false_iff, beq_eq_false_iff_ne, decide_eq_false_iff_not,
      not_lt] at hok
    exact ⟨hok.1.1.1, hok.1.1.2⟩
  rw [commit_of_ok hok]
  have hagain : commitRefused
      { g with
        window := fun il => restore d keep (g.window il) (d.oldRaw il)
        previous := (d.verified (lastRow keep)).verifyPrevious
        residual := (d.verified (lastRow keep)).residual
        pre := (d.verified (lastRow keep)).pre
        logits := (d.verified (lastRow keep)).logits
        pos := (d.verified (lastRow keep)).pos
        history := (d.verified (lastRow keep)).history }
      { d with
        target := fun stage => restore d keep (d.target stage) (d.oldFeatures stage)
        positions := fun stage => restore d keep (d.positions stage) (d.oldPositions stage)
        rewindEnd := (d.verified (lastRow keep)).pos } keep' = false := by
    have h1 : (d.verifyCount == 0) = false := beq_eq_false_iff_ne.mpr hcount.1
    simp only [commitRefused, hpos, h1, Bool.false_or, bne_self_eq_false, Bool.and_false,
      Bool.or_false, Bool.or_eq_false_iff, decide_eq_false_iff_not, Bool.and_eq_false_iff]
    exact ⟨by omega, .inr (by omega)⟩
  rw [commit_of_ok hagain, commit_of_ok hok']
  refine Prod.ext ?_ (Prod.ext ?_ rfl)
  · simp only
    congr 1
    funext il
    exact restore_restore d _ _ hle hcount.2
  · simp only
    congr 1 <;> funext stage <;> exact restore_restore d _ _ hle hcount.2

/-- **Verify and rewind.** A block is verified; committing its first `keep` rows leaves the state
after these rows were appended one by one, and a later commit of fewer rows leaves what it would
leave at once. A refused commit changes nothing. -/
theorem verify_commit (l : Layout) (path : BlockPath) :
    (∀ (g : Graph V) (d : Drafter V) (rows : List (Row V)) (keep : Nat),
      g.valid = true → 2 ≤ rows.length → rows.length ≤ verifyRows →
      g.pos + rows.length ≤ g.ctx → (blockHistories l g.history rows).isSome = true →
      keep ≤ rows.length →
        let v := verify l path g d rows
        let c := commit v.1 v.2.1 keep
        v.2.2 = true ∧
        (∃ s, appendRows l (g, d) (rows.take keep) = some s ∧ c.1 = s.1 ∧
          c.2.1.target = s.2.target ∧ c.2.1.positions = s.2.positions ∧
          c.2.2 = some s.1.logits) ∧
        ∀ keep' ≤ keep, commit c.1 c.2.1 keep' = commit v.1 v.2.1 keep') ∧
    ∀ (g : Graph V) (d : Drafter V) (keep : Nat), commitRefused g d keep = true →
      commit g d keep = (g, d, none) := by
  refine ⟨fun g d rows keep hvalid h2 hle hroom hsome hkeep => ?_, fun g d keep hr => by
    rw [commit, if_pos hr]⟩
  obtain ⟨hs, hhs⟩ := Option.isSome_iff_exists.mp hsome
  have h : Accepted l g rows hs := ⟨hvalid, h2, hle, hroom, hhs⟩
  simp only [verify_eq h]
  refine ⟨trivial, ?_, fun keep' hk' => commit_commit hk' (not_commitRefused h hkeep)
    (not_commitRefused h (hk'.trans hkeep)) ?_⟩
  · have hserial := appendRows_eq (d := d) hvalid
      (show g.pos + (rows.take keep).length ≤ g.ctx by rw [List.length_take]; omega)
      (blockHistories_take hhs keep)
    simp only [commit_verified h hkeep]
    refine ⟨_, hserial, rfl, ?_, ?_, rfl⟩
    · split
      next h0 => simp [h0, captured]
      · rfl
    · split
      next h0 => simp [h0, captured]
      · rfl
  · rw [(verified_eq _ _ h hkeep).1]
    rfl

/-- A layout of two tokens. -/
def twoTokens : Layout where
  vocabSize := 2
  tokenMap := #v[0, 1]
  compressedVocabSize := 2
  padId := 0
  rows _ := 1
  multipliers _ _ := 1
  primes _ _ := 2

/-- A graph at position 127, whose next row wraps the ring. -/
def wrapGraph : Graph Nat where
  ctx := 1000
  ctx_lt := by decide
  pos := 127
  valid := true
  windowFloor := 0
  history := historyReset
  window _ s := s.val
  previous _ := ⟨0, 0⟩
  residual := 0
  pre := 0
  logits := 0

/-- A drafter whose rings hold the positions. -/
def wrapDrafter : Drafter Nat where
  target _ s := s.val
  positions _ s := s.val
  oldRaw _ _ := 0
  oldFeatures _ _ := 0
  oldPositions _ _ := 0
  verified _ := ⟨0, historyReset, 0, 0, 0, fun _ => ⟨0, 0⟩⟩
  hostVerified _ := 0
  verifyStart := 0
  verifyCount := 0
  rewindEnd := 0

/-- The `i`-th row of a block of three. -/
def wrapRow (i : Nat) : Row Nat where
  token := 1
  kv il := 1000 + 10 * il.val + i
  mean il := 2000 + 10 * il + i
  pool o := ⟨3000 + i, 4000 + o.val⟩
  residual := i
  pre := i
  logits := i

/-- A block of three rows over the end of the ring, committed at one row. -/
theorem verify_commit_wrap :
    let v := verify twoTokens ⟨true, fun _ => true⟩ wrapGraph wrapDrafter
      ((List.range 3).map wrapRow)
    let c := commit v.1 v.2.1 1
    v.2.2 = true ∧
      (∃ s, appendRows twoTokens (wrapGraph, wrapDrafter) [wrapRow 0] = some s ∧ c.1 = s.1 ∧
        c.2.1.target = s.2.target ∧ c.2.1.positions = s.2.positions ∧ c.2.2 = some s.1.logits) ∧
      ∀ keep' ≤ 1, commit c.1 c.2.1 keep' = commit v.1 v.2.1 keep' :=
  (verify_commit twoTokens ⟨true, fun _ => true⟩).1 wrapGraph wrapDrafter
    ((List.range 3).map wrapRow) 1 rfl (by decide) (by decide) (by decide) (by decide) (by decide)

end Ds4.Dspark
