import Ds4.Dist.PayloadRoutes

/-!
# Checkpoints on two routes

A session that one route has saved is loaded by another whose parties have the same layout: each gets the counts
and the tensors of its own layers. A load that fails is harmless exactly when no party has taken a shard that it
did not hold before.
-/

namespace Ds4.Dist

open Ds4.Lib

/-! ## Reading on -/

theorem Source.read_remaining {s s' : Source} {n : Nat} {b : Bytes} (h : s.read n = .ok (b, s')) :
    s'.remaining ≤ s.remaining := by
  rw [read] at h
  split_ifs at h
  obtain ⟨-, rfl⟩ := Prod.mk.inj (Except.ok.inj h)
  exact Nat.sub_le _ _

theorem Source.readU32_remaining {s s' : Source} {v : UInt32} (h : s.readU32 = .ok (v, s')) :
    s'.remaining ≤ s.remaining := by
  obtain ⟨⟨b, s''⟩, hread, hok⟩ := bind_ok.mp h
  obtain ⟨-, rfl⟩ := Prod.mk.inj (Except.ok.inj hok)
  exact read_remaining hread

theorem Source.readWords_remaining {s s' : Source} {n : Nat} {ws : List UInt32} (h : s.readWords n = .ok (ws, s')) :
    s'.remaining ≤ s.remaining := by
  induction n generalizing s ws with
  | zero =>
    obtain ⟨-, rfl⟩ := Prod.mk.inj (Except.ok.inj h)
    exact Nat.le_refl _
  | succ n ih =>
    obtain ⟨⟨v, s₁⟩, hread, hrest⟩ := bind_ok.mp h
    obtain ⟨⟨vs, s₂⟩, hwords, hok⟩ := bind_ok.mp hrest
    obtain ⟨-, rfl⟩ := Prod.mk.inj (Except.ok.inj hok)
    exact (ih hwords).trans (readU32_remaining hread)

theorem readTokens_remaining {e : Engine} {s s' : Source} {n : Nat} {ts : List UInt32}
    (h : readTokens e n s = .ok (ts, s')) : s'.remaining ≤ s.remaining := by
  induction n generalizing s ts with
  | zero =>
    obtain ⟨-, rfl⟩ := Prod.mk.inj (Except.ok.inj h)
    exact Nat.le_refl _
  | succ n ih =>
    obtain ⟨⟨t, s₁⟩, hread, hrest⟩ := bind_ok.mp h
    dsimp only at hrest
    split_ifs at hrest
    obtain ⟨⟨ts', s₂⟩, htokens, hok⟩ := bind_ok.mp hrest
    obtain ⟨-, rfl⟩ := Prod.mk.inj (Except.ok.inj hok)
    exact (ih htokens).trans (Source.readU32_remaining hread)

theorem readCounts_remaining {cap : UInt32} {text : String} {layers : List Nat} {counts f : Nat → UInt32}
    {s s' : Source} (h : readCounts cap text layers counts s = .ok (f, s')) : s'.remaining ≤ s.remaining := by
  induction layers generalizing counts s with
  | nil =>
    obtain ⟨-, rfl⟩ := Prod.mk.inj (Except.ok.inj h)
    exact Nat.le_refl _
  | cons il layers ih =>
    obtain ⟨⟨v, s₁⟩, hread, hrest⟩ := bind_ok.mp h
    dsimp only at hrest
    split_ifs at hrest
    exact (ih hrest).trans (Source.readU32_remaining hread)

/-- What the front of a payload is checked for. -/
structure HeadChecked (e : Engine) (c : Coordinator) (ctx : UInt32) (s : Source) (h : Head) (s' : Source) : Prop where
  nLayers_eq : h.layout.nLayers = c.nLayers
  vocab_eq : h.layout.vocab = e.vocabSize
  rawLive : rawLiveValid e h.layout = true
  room : h.layout.tokenCount < ctx
  nComp_le : ∀ il ∈ List.range h.layout.nLayers.toNat, h.nComp il ≤ h.layout.compCap
  nIndexComp_le : ∀ il ∈ List.range h.layout.nLayers.toNat, h.nIndexComp il ≤ h.layout.compCap
  remaining : s'.remaining ≤ s.remaining

theorem readHead_checked {e : Engine} {c : Coordinator} {ctx : UInt32} {s s' : Source} {h : Head}
    (hhead : readHead e c ctx s = .ok (h, s')) : HeadChecked e c ctx s h s' := by
  obtain ⟨⟨ws, s₁⟩, hwords, hrest⟩ := bind_ok.mp hhead
  dsimp only at hrest
  split_ifs at hrest with hmagic hbad
  obtain ⟨⟨tokens, s₂⟩, htokens, hrest⟩ := bind_ok.mp hrest
  obtain ⟨⟨logits, s₃⟩, hlogits, hrest⟩ := bind_ok.mp hrest
  obtain ⟨⟨nComp, s₄⟩, hcomp, hrest⟩ := bind_ok.mp hrest
  obtain ⟨⟨nIndexComp, s₅⟩, hindex, hok⟩ := bind_ok.mp hrest
  obtain ⟨rfl, rfl⟩ := Prod.mk.inj (Except.ok.inj hok)
  simp only [not_or, not_not, UInt32.not_le, Bool.not_eq_false] at hbad
  obtain ⟨hlayers, -, hroom, hvocab, hraw⟩ := hbad
  refine ⟨hlayers, hvocab, hraw, hroom, (readCounts_le hcomp).1, (readCounts_le hindex).1, ?_⟩
  calc s₅.remaining ≤ s₄.remaining := readCounts_remaining hindex
    _ ≤ s₃.remaining := readCounts_remaining hcomp
    _ ≤ s₂.remaining := Source.read_remaining hlogits
    _ ≤ s₁.remaining := readTokens_remaining htokens
    _ ≤ s.remaining := Source.readWords_remaining hwords

/-! ## The rows in a file -/

/-- The rows of a layer. -/
def Rows.state (d : Rows) (il : Nat) : LayerState := ⟨d.nComp il, d.nIndexComp il, d.tensor il⟩

theorem Rows.layerPayload_congr {d d' : Rows} {l : Layout} {layerStart layerEnd : UInt32}
    (h : ∀ il ∈ layerRange layerStart layerEnd, d.state il = d'.state il) :
    d.layerPayload l layerStart layerEnd = d'.layerPayload l layerStart layerEnd := by
  have hcomp := List.map_congr_left fun il hil => congrArg LayerState.nComp (h il hil)
  have hindex := List.map_congr_left fun il hil => congrArg LayerState.nIndexComp (h il hil)
  have htensor := List.map_congr_left fun il hil => congrArg LayerState.tensor (h il hil)
  simp only [state] at hcomp hindex htensor
  rw [layerPayload, layerPayload, writeLayerHeader, writeLayerHeader, tensors, tensors, hcomp, hindex, htensor]

section InFile

variable {e : Engine} {h : Head} {s : Source}

/-- The rows that the front of a payload counts and the bytes behind it hold, layer by layer from the first. -/
def Head.rows (e : Engine) (h : Head) (s : Source) : Rows where
  nComp := h.nComp
  nIndexComp := h.nIndexComp
  tensor := fun il => (s.file.drop ((h.size e (List.range il)).getD 0)).take
    ((layerTensorBytes e h.layout il (h.nComp il) (h.nIndexComp il)).getD 0)

theorem size_range_succ {a : Nat} : h.size e (List.range (a + 1)) = (h.size e (List.range a)).bind fun n =>
    (layerTensorBytes e h.layout a (h.nComp a) (h.nIndexComp a)).map (n + ·) := by
  have hone : h.size e [a] = layerTensorBytes e h.layout a (h.nComp a) (h.nIndexComp a) := by
    rw [Head.size_cons]
    cases layerTensorBytes e h.layout a (h.nComp a) (h.nIndexComp a) with
    | none => rfl
    | some n => simp [Head.size, tensorBytes]
  rw [List.range_succ, Head.size_append, hone]

theorem rows_tensors {a n m k : Nat} (hm : h.size e (List.range a) = some m)
    (hk : h.size e (List.range' a n) = some k) :
    (s.file.drop m).take k = (h.rows e s).tensors (List.range' a n) := by
  induction n generalizing a m k with
  | zero =>
    obtain rfl := Option.some.inj hk
    rfl
  | succ n ih =>
    rw [List.range'_succ, Head.size_cons] at hk
    obtain ⟨x, hx, hk⟩ := Option.bind_eq_some_iff.mp hk
    obtain ⟨y, hy, rfl⟩ := Option.map_eq_some_iff.mp hk
    have hnext : h.size e (List.range (a + 1)) = some (m + x) := by
      rw [size_range_succ, hm, hx]
      rfl
    have htensor : (h.rows e s).tensor a = (s.file.drop m).take x := by simp [Head.rows, hm, hx]
    rw [List.range'_succ, Rows.tensors_cons, htensor, ← ih hnext hy, List.take_add, List.drop_drop]

theorem size_append_some {a b : List Nat} {n : Nat} (hn : h.size e (a ++ b) = some n) :
    ∃ m k, h.size e a = some m ∧ h.size e b = some k ∧ m + k = n := by
  rw [Head.size_append] at hn
  obtain ⟨m, hm, hn⟩ := Option.bind_eq_some_iff.mp hn
  obtain ⟨k, hk, rfl⟩ := Option.map_eq_some_iff.mp hn
  exact ⟨m, k, hm, hk, rfl⟩

theorem range_shard {layerStart layerEnd : UInt32} (hle : layerStart ≤ layerEnd) :
    List.range (layerEnd.toNat + 1) = List.range layerStart.toNat ++ layerRange layerStart layerEnd := by
  have hle' := UInt32.le_iff_toNat_le.mp hle
  have happend := @List.range'_append_1 0 layerStart.toNat (layerEnd.toNat + 1 - layerStart.toNat)
  rw [Nat.zero_add, show layerStart.toNat + (layerEnd.toNat + 1 - layerStart.toNat) = layerEnd.toNat + 1 by omega]
    at happend
  rw [List.range_eq_range', List.range_eq_range', layerRange, happend]

theorem rows_sized {c : Coordinator} {ctx layerStart layerEnd : UInt32} {s₀ : Source} {n : Nat}
    (hchecked : HeadChecked e c ctx s₀ h s) (hlayers : c.nLayers = e.layerCount) (hbytes : s₀.remaining < 2 ^ 64)
    (hc : layerStart ≤ layerEnd ∧ layerEnd < h.layout.nLayers)
    (hn : h.size e (List.range (layerEnd.toNat + 1)) = some n) (hle : n ≤ s.avail) :
    (h.rows e s).Sized e h.layout (layerRange layerStart layerEnd) := by
  have hend := UInt32.lt_iff_toNat_lt.mp hc.2
  have hmem : ∀ il ∈ layerRange layerStart layerEnd, il ≤ layerEnd.toNat := by
    intro il hil
    rw [layerRange, List.mem_range'_1] at hil
    omega
  have hrange : ∀ il ∈ layerRange layerStart layerEnd, il ∈ List.range h.layout.nLayers.toNat := fun il hil =>
    List.mem_range.mpr ((hmem il hil).trans_lt hend)
  have havail : n ≤ s.remaining ∧ n ≤ s.file.length := Nat.le_min.mp hle
  refine ⟨hchecked.nLayers_eq.trans hlayers, hchecked.vocab_eq, hchecked.rawLive,
    fun il hil => hchecked.nComp_le il (hrange il hil), fun il hil => hchecked.nIndexComp_le il (hrange il hil), ?_, ?_⟩
  · intro il hil
    -- The layers up to this one are a part of those up to the end.
    have hsplit : List.range (layerEnd.toNat + 1) = List.range (il + 1) ++
        List.range' (il + 1) (layerEnd.toNat + 1 - (il + 1)) := by
      have hle := hmem il hil
      have happend := @List.range'_append_1 0 (il + 1) (layerEnd.toNat + 1 - (il + 1))
      rw [Nat.zero_add, show il + 1 + (layerEnd.toNat + 1 - (il + 1)) = layerEnd.toNat + 1 by omega] at happend
      rw [List.range_eq_range', List.range_eq_range', happend]
    rw [hsplit] at hn
    obtain ⟨m, k, hm, -, hsum⟩ := size_append_some hn
    rw [size_range_succ] at hm
    obtain ⟨x, hx, hm⟩ := Option.bind_eq_some_iff.mp hm
    obtain ⟨y, hy, rfl⟩ := Option.map_eq_some_iff.mp hm
    have hlength : ((h.rows e s).tensor il).length = y := by
      simp only [Head.rows, hx, hy, Option.getD_some, List.length_take, List.length_drop]
      omega
    rw [hlength]
    exact hy
  · rw [range_shard hc.1] at hn
    obtain ⟨m, k, hm, hk, hsum⟩ := size_append_some hn
    have hremaining := hchecked.remaining
    rw [layerRange] at hk ⊢
    rw [← rows_tensors hm hk, List.length_take, List.length_drop]
    omega

/-! ## A party with its shard -/

theorem cutTensors_tensors {d : Rows} {l : Layout} {g : Gather} (hlayout : g.layout = l) {layers : List Nat}
    (hsize : ∀ il ∈ layers, layerTensorBytes e l il (d.nComp il) (d.nIndexComp il) = some (d.tensor il).length)
    (hcomp : ∀ il ∈ layers, g.nComp il = d.nComp il) (hindex : ∀ il ∈ layers, g.nIndexComp il = d.nIndexComp il)
    (old : Nat → LayerState) :
    cutTensors e g layers (d.tensors layers) old = fun il => if il ∈ layers then d.state il else old il := by
  induction layers generalizing old with
  | nil =>
    funext il
    rw [if_neg List.not_mem_nil]
    rfl
  | cons il layers ih =>
    have hmem := @List.mem_cons_self _ il layers
    rw [cutTensors, hlayout, hcomp il hmem, hindex il hmem, hsize il hmem]
    simp only [Rows.tensors_cons, List.drop_left', List.take_left']
    rw [ih (fun i hi => hsize i (List.mem_cons_of_mem _ hi)) (fun i hi => hcomp i (List.mem_cons_of_mem _ hi))
      (fun i hi => hindex i (List.mem_cons_of_mem _ hi))]
    funext i
    by_cases hi : i ∈ layers
    · rw [if_pos hi, if_pos (List.mem_cons_of_mem _ hi)]
    · by_cases hil : i = il
      · subst hil
        rw [if_neg hi, if_pos hmem, Function.update_self]
        rfl
      · rw [if_neg hi, if_neg (by simp [hi, hil]), Function.update_of_ne hil]

theorem take_layerPayload {d : Rows} {l : Layout} {layerStart layerEnd : UInt32} (tokens : List UInt32)
    (hd : d.Sized e l (layerRange layerStart layerEnd)) (hc : layerStart ≤ layerEnd ∧ layerEnd < l.nLayers)
    (old : Slice) : old.take e tokens layerStart layerEnd (d.layerPayload l layerStart layerEnd) =
      ⟨true, tokens, fun il => if il ∈ layerRange layerStart layerEnd then d.state il else old.layers il⟩ := by
  obtain ⟨shard, hparse, htensors⟩ := @Rows.parse_layerPayload d e l layerStart layerEnd hd hc (.start e) rfl nofun
  rw [Slice.take, hparse]
  simp only [htensors]
  rw [cutTensors_tensors rfl hd.tensor_size (fun il hil => fill_eq hil) fun il hil => fill_eq hil]

theorem shardLayers_split {ranges : List (UInt32 × UInt32)} {i : Nat} (hi : i < ranges.length) :
    shardLayers ranges = shardLayers (ranges.take i) ++ (layerRange ranges[i].1 ranges[i].2 ++
      shardLayers (ranges.drop (i + 1))) := by
  have hlist : ranges = ranges.take i ++ ranges[i] :: ranges.drop (i + 1) := by
    rw [← List.drop_eq_getElem_cons hi, List.take_append_drop]
  calc shardLayers ranges = shardLayers (ranges.take i ++ ranges[i] :: ranges.drop (i + 1)) := congrArg _ hlist
    _ = _ := by simp only [shardLayers, List.flatMap_append, List.flatMap_cons]

theorem shardLayers_take {ranges : List (UInt32 × UInt32)} {n : Nat} (hall : shardLayers ranges = List.range n)
    {i : Nat} (hi : i < ranges.length) (hle : ranges[i].1 ≤ ranges[i].2) :
    shardLayers (ranges.take i) = List.range ranges[i].1.toNat := by
  have hle' := UInt32.le_iff_toNat_le.mp hle
  have hsplit := (shardLayers_split hi).symm.trans hall
  have hlayers : layerRange ranges[i].1 ranges[i].2 = ranges[i].1.toNat ::
      List.range' (ranges[i].1.toNat + 1) (ranges[i].2.toNat - ranges[i].1.toNat) := by
    rw [layerRange, show ranges[i].2.toNat + 1 - ranges[i].1.toNat = ranges[i].2.toNat - ranges[i].1.toNat + 1 by omega,
      List.range'_succ]
  have hfirst : (List.range n)[(shardLayers (ranges.take i)).length]? = some ranges[i].1.toNat := by
    rw [← hsplit, hlayers, List.getElem?_append_right (Nat.le_refl _), Nat.sub_self]
    rfl
  obtain ⟨hlt, hvalue⟩ := List.getElem?_eq_some_iff.mp hfirst
  rw [List.getElem_range] at hvalue
  rw [← hvalue]
  have htake := congrArg (List.take (shardLayers (ranges.take i)).length) hsplit
  rw [List.take_left' rfl, List.take_range, Nat.min_eq_left (by simpa using hlt.le)] at htake
  exact htake

/-- The tokens and the rows that a payload has for a shard are what the party holds already. -/
def Head.Held (e : Engine) (h : Head) (s : Source) (r : UInt32 × UInt32) (old : Slice) : Prop :=
  old.valid = true ∧ old.tokens = h.tokens ∧ ∀ il ∈ layerRange r.1 r.2, old.layers il = (h.rows e s).state il

/-- The route and the payload of a load that has come to its shards. -/
structure Loading (e : Engine) (c : Coordinator) (entries : List RouteEntry) (h : Head) (s : Source) : Prop where
  route : routeValidate c entries = .ok ()
  layers : c.nLayers = e.layerCount
  checked : ∃ ctx s₀, HeadChecked e c ctx s₀ h s ∧ s₀.remaining < 2 ^ 64

variable {c : Coordinator} {entries : List RouteEntry}

theorem Loading.covers (hl : Loading e c entries h s) {i : Nat} (hi : i < (routeShards c entries).length) :
    (routeShards c entries)[i].1 ≤ (routeShards c entries)[i].2 ∧
      (routeShards c entries)[i].2 < h.layout.nLayers := by
  obtain ⟨ctx, s₀, hchecked, -⟩ := hl.checked
  rw [hchecked.nLayers_eq]
  exact (routeValidate_ok hl.route).1 _ (List.getElem_mem hi)

theorem Loading.before (hl : Loading e c entries h s) {i : Nat} (hi : i < (routeShards c entries).length) :
    shardLayers ((routeShards c entries).take i) = List.range (routeShards c entries)[i].1.toNat :=
  shardLayers_take (routeValidate_ok hl.route).2 hi (hl.covers hi).1

theorem Loading.reaches (hl : Loading e c entries h s) {i : Nat} (hi : i < (routeShards c entries).length)
    (hreaches : Reaches e h (routeShards c entries) s i) :
    ∃ n, h.size e (List.range ((routeShards c entries)[i].2.toNat + 1)) = some n ∧ n ≤ s.avail := by
  obtain ⟨n, hn, hle⟩ := hreaches
  have htake : shardLayers ((routeShards c entries).take (i + 1)) =
      shardLayers ((routeShards c entries).take i) ++
        layerRange (routeShards c entries)[i].1 (routeShards c entries)[i].2 := by
    rw [List.take_add_one, List.getElem?_eq_getElem hi, shardLayers, shardLayers, List.flatMap_append]
    simp
  rw [htake, hl.before hi, ← range_shard (hl.covers hi).1] at hn
  exact ⟨n, hn, hle⟩

theorem Loading.sized (hl : Loading e c entries h s) {i : Nat} (hi : i < (routeShards c entries).length)
    (hreaches : Reaches e h (routeShards c entries) s i) : (h.rows e s).Sized e h.layout
      (layerRange (routeShards c entries)[i].1 (routeShards c entries)[i].2) := by
  obtain ⟨ctx, s₀, hchecked, hbytes⟩ := hl.checked
  obtain ⟨n, hn, hle⟩ := hl.reaches hi hreaches
  exact rows_sized hchecked hl.layers hbytes (hl.covers hi) hn hle

theorem Loading.sentFile_eq (hl : Loading e c entries h s) {i : Nat} (hi : i < (routeShards c entries).length)
    (hreaches : Reaches e h (routeShards c entries) s i) : sentFile e h (routeShards c entries) s i =
      (h.rows e s).layerPayload h.layout (routeShards c entries)[i].1 (routeShards c entries)[i].2 := by
  obtain ⟨n, hn, hle⟩ := hl.reaches hi hreaches
  rw [range_shard (hl.covers hi).1] at hn
  obtain ⟨m, k, hm, hk, -⟩ := size_append_some hn
  have hbytes := @rows_tensors e h s _ _ _ _ hm hk
  rw [sentFile, List.getElem?_eq_getElem hi]
  simp only
  rw [hl.before hi, hm, hk, Rows.layerPayload]
  exact congrArg _ hbytes

/-- **A party that takes its shard** claims the tokens of the payload, and holds its rows. -/
theorem Loading.installed_eq (hl : Loading e c entries h s) {i : Nat} (hi : i < (routeShards c entries).length)
    (hreaches : Reaches e h (routeShards c entries) s i) (old : Slice) :
    installed e h (routeShards c entries) s i old =
      ⟨true, h.tokens, fun il =>
        if il ∈ layerRange (routeShards c entries)[i].1 (routeShards c entries)[i].2 then (h.rows e s).state il
        else old.layers il⟩ := by
  rw [installed, List.getElem?_eq_getElem hi]
  simp only
  rw [hl.sentFile_eq hi hreaches, take_layerPayload h.tokens (hl.sized hi hreaches) (hl.covers hi)]

theorem Loading.installed_iff (hl : Loading e c entries h s) {i : Nat} (hi : i < (routeShards c entries).length)
    (hreaches : Reaches e h (routeShards c entries) s i) (old : Slice) :
    installed e h (routeShards c entries) s i old = old ↔ h.Held e s (routeShards c entries)[i] old := by
  rw [hl.installed_eq hi hreaches]
  constructor
  · intro heq
    rw [← heq]
    exact ⟨rfl, rfl, fun il hil => if_pos hil⟩
  · rintro ⟨hvalid, htokens, hrows⟩
    obtain ⟨valid, tokens, layers⟩ := old
    simp only at hvalid htokens hrows
    subst hvalid htokens
    congr 1
    funext il
    split_ifs with hil
    · exact (hrows il hil).symm
    · rfl

end InFile

/-! ## A session on another route -/

namespace KvState

variable {e : Engine} {v : KvState e} {l : Layout}

theorem head_size (hfull : v.Full l) {layers : List Nat} (hlt : ∀ il ∈ layers, il ∈ List.range l.nLayers.toNat) :
    (v.head l).size e layers = some (v.tensors layers).length := by
  induction layers with
  | nil => rfl
  | cons il layers ih =>
    have hmem := hlt il (List.mem_cons_self ..)
    have hcomp : (v.head l).nComp il = v.nComp il := @fill_eq (fun _ => 0) v.nComp _ _ hmem
    have hindex : (v.head l).nIndexComp il = v.nIndexComp il := @fill_eq (fun _ => 0) v.nIndexComp _ _ hmem
    have hsize : layerTensorBytes e (v.head l).layout il (v.nComp il) (v.nIndexComp il) =
      some (v.tensor il).length := hfull.tensor_size il hmem
    rw [Head.size_cons, hcomp, hindex, hsize, Option.bind_some,
      ih fun i hi => hlt i (List.mem_cons_of_mem _ hi), Rows.tensors_cons, List.length_append]
    rfl

theorem head_rows (hfull : v.Full l) {il : Nat} (hil : il ∈ List.range l.nLayers.toNat) :
    ((v.head l).rows e (Source.whole (v.tensors (List.range l.nLayers.toNat)))).state il = v.state il := by
  have hlt := List.mem_range.mp hil
  have hsplit : List.range l.nLayers.toNat =
      List.range il ++ (il :: List.range' (il + 1) (l.nLayers.toNat - (il + 1))) := by
    have happend := @List.range'_append_1 0 il (l.nLayers.toNat - il)
    rw [Nat.zero_add, show il + (l.nLayers.toNat - il) = l.nLayers.toNat by omega] at happend
    rw [← List.range'_succ, show l.nLayers.toNat - (il + 1) + 1 = l.nLayers.toNat - il by omega, List.range_eq_range',
      List.range_eq_range', happend]
  have hbefore := @head_size e v l hfull (List.range il) fun i hi => List.mem_range.mpr
    ((List.mem_range.mp hi).trans hlt)
  have hcomp : (v.head l).nComp il = v.nComp il := @fill_eq (fun _ => 0) v.nComp _ _ hil
  have hindex : (v.head l).nIndexComp il = v.nIndexComp il := @fill_eq (fun _ => 0) v.nIndexComp _ _ hil
  have hsize : layerTensorBytes e (v.head l).layout il (v.nComp il) (v.nIndexComp il) =
    some (v.tensor il).length := hfull.tensor_size il hil
  simp only [Rows.state, Head.rows, hcomp, hindex, hbefore, hsize, Option.getD_some]
  rw [hsplit, Rows.tensors_append, Rows.tensors_cons]
  simp only [Source.whole, List.drop_left', List.take_left']

/-- Every party of a route holds the session. -/
structure Restored (v : KvState e) (ranges : List (UInt32 × UInt32)) (w : World) : Prop where
  valid : ∀ i < ranges.length, (w.slices i).valid = true ∧ (w.slices i).tokens = v.tokens
  layers : ∀ i (hi : i < ranges.length), ∀ il ∈ layerRange ranges[i].1 ranges[i].2,
    (w.slices i).layers il = v.state il
  logits : w.logits = v.logits

section Loads

variable {c : Coordinator} {entries : List RouteEntry} {layout : Nat → Layout}

/-- A load of the payload of a session comes to its shards, and every tensor is there. -/
theorem payload_loading (hfull : v.Full l) (hlayers : c.nLayers = e.layerCount)
    (hroute : routeValidate c entries = .ok ()) (hroom : l.tokenCount < l.ctx) :
    Loading e c entries (v.head l) (Source.whole (v.tensors (List.range l.nLayers.toNat))) ∧
      ∀ i < (routeShards c entries).length, Reaches e (v.head l) (routeShards c entries)
        (Source.whole (v.tensors (List.range l.nLayers.toNat))) i := by
  have hhead := @readHead_payload e v c l l.ctx hfull hlayers (UInt32.le_refl _)
  rw [if_pos hroom] at hhead
  refine ⟨⟨hroute, hlayers, l.ctx, Source.whole (v.payload l), readHead_checked hhead,
    payload_length hfull.nLayers_eq⟩, ?_⟩
  intro i hi
  have hall := (routeValidate_ok hroute).2
  rw [hlayers, ← hfull.nLayers_eq] at hall
  have hsplit : shardLayers (routeShards c entries) = shardLayers ((routeShards c entries).take (i + 1)) ++
      shardLayers ((routeShards c entries).drop (i + 1)) := by
    rw [shardLayers, shardLayers, shardLayers, ← List.flatMap_append, List.take_append_drop]
  rw [hall] at hsplit
  refine ⟨_, head_size hfull fun il hil => ?_, ?_⟩
  · rw [hsplit]
    exact List.mem_append_left _ hil
  · have havail : (Source.whole (v.tensors (List.range l.nLayers.toNat))).avail =
        (v.tensors (List.range l.nLayers.toNat)).length := Nat.min_self _
    rw [havail, hsplit, Rows.tensors_append, List.length_append]
    exact Nat.le_add_right _ _

/-- **A session is loaded** on every valid route whose parties take their shards. -/
theorem loadPayload_payload (hfull : v.Full l) (hlayers : c.nLayers = e.layerCount)
    (hroute : routeValidate c entries = .ok ()) (hroom : l.tokenCount < l.ctx) {answer : Nat → Answer}
    (hanswer : ∀ k, (answer k).Heard k) (w : World) :
    (loadPayload e c entries l.ctx (Source.whole (v.payload l)) answer w).1 = .ok () ∧
      v.Restored (routeShards c entries) (loadPayload e c entries l.ctx (Source.whole (v.payload l)) answer w).2 := by
  have hall := (routeValidate_ok hroute).2
  rw [hlayers, ← hfull.nLayers_eq] at hall
  have htotal := @head_size e v l hfull (List.range l.nLayers.toNat) fun il hil => hil
  have hinstalls := @installs e (v.head l) answer (routeShards c entries) 0
    (Source.whole (v.tensors (List.range l.nLayers.toNat))) w
  obtain ⟨hloading, hreaches⟩ := payload_loading hfull hlayers hroute hroom
  have havail : (Source.whole (v.tensors (List.range l.nLayers.toNat))).avail =
      (v.tensors (List.range l.nLayers.toNat)).length := Nat.min_self _
  have hok := (hinstalls.ok_iff _).mpr ⟨fun i _ => hanswer (0 + i), _, by rw [hall]; exact htotal, havail.ge, rfl⟩
  have htakes : ∀ i, i < (routeShards c entries).length → Takes e (v.head l) answer (routeShards c entries) 0
      (Source.whole (v.tensors (List.range l.nLayers.toNat))) i := fun i hi =>
    ⟨hi, hreaches i hi, fun j _ => hanswer (0 + j), (hanswer (0 + i)).1⟩
  generalize hout : installShards e (v.head l) answer (routeShards c entries) 0
    (Source.whole (v.tensors (List.range l.nLayers.toNat))) w = out at hinstalls hok
  obtain ⟨res, w'⟩ := out
  obtain rfl : res = _ := hok
  have hload : loadPayload e c entries l.ctx (Source.whole (v.payload l)) answer w =
      (.ok (), { w' with logits := v.logits }) := by
    rw [loadPayload, hroute]
    simp only [readHead_payload hfull hlayers (UInt32.le_refl l.ctx), if_pos hroom, hout]
    rw [if_neg (by simp [Source.skip, Source.whole])]
    rfl
  have htook : ∀ i (hi : i < (routeShards c entries).length), w'.slices i =
      ⟨true, v.tokens, fun il =>
        if il ∈ layerRange (routeShards c entries)[i].1 (routeShards c entries)[i].2 then v.state il
        else (w.slices i).layers il⟩ := by
    intro i hi
    have htaken := hinstalls.taken i (htakes i hi)
    rw [hloading.installed_eq hi (hreaches i hi)] at htaken
    simp only [Nat.zero_add] at htaken
    rw [htaken]
    congr 1
    funext il
    split_ifs with hil
    · refine head_rows hfull ?_
      rw [← hall]
      exact List.mem_flatMap.mpr ⟨_, List.getElem_mem hi, hil⟩
    · rfl
  rw [hload]
  refine ⟨rfl, ?_, ?_, rfl⟩
  · intro i hi
    simp only [htook i hi]
    exact ⟨trivial, trivial⟩
  · intro i hi il hil
    simp only [htook i hi, if_pos hil]

end Loads

end KvState

/-! ## Loads that fail -/

section Failing

variable {e : Engine} {c : Coordinator} {entries : List RouteEntry} {ctx : UInt32} {s : Source}
  {answer : Nat → Answer} {w : World}

/-- A load that fails leaves every party as it was, or claiming nothing. -/
def Kept (e : Engine) (c : Coordinator) (entries : List RouteEntry) (ctx : UInt32) (s : Source)
    (answer : Nat → Answer) (w : World) : Prop :=
  (loadPayload e c entries ctx s answer w).1 ≠ .ok () →
    (∀ i < (routeShards c entries).length,
      (loadPayload e c entries ctx s answer w).2.slices i = w.slices i ∨
        ((loadPayload e c entries ctx s answer w).2.slices i).valid = false) ∧
    (loadPayload e c entries ctx s answer w).2.logits = w.logits

/-- Every party takes its shard, and the bytes are those of the shards. -/
structure Whole (e : Engine) (c : Coordinator) (entries : List RouteEntry) (answer : Nat → Answer) (h : Head)
    (s : Source) : Prop where
  heard : ∀ i < (routeShards c entries).length, (answer i).Heard i
  size : h.size e (shardLayers (routeShards c entries)) = some s.remaining
  le : s.remaining ≤ s.file.length

/-- Every party takes its shard and the bytes are those of the shards, or every party that takes its shard holds
its tokens and its rows already. -/
def Harmless (e : Engine) (c : Coordinator) (entries : List RouteEntry) (ctx : UInt32) (s : Source)
    (answer : Nat → Answer) (w : World) : Prop :=
  ∀ h s', readHead e c ctx s = .ok (h, s') → Whole e c entries answer h s' ∨
    ∀ i (hi : i < (routeShards c entries).length), Takes e h answer (routeShards c entries) 0 s' i →
      h.Held e s' (routeShards c entries)[i] (w.slices i)

theorem loadPayload_head {h : Head} {s' : Source} (hroute : routeValidate c entries = .ok ())
    (hhead : readHead e c ctx s = .ok (h, s')) :
    ((loadPayload e c entries ctx s answer w).1 = .ok () ↔ Whole e c entries answer h s') ∧
      (loadPayload e c entries ctx s answer w).2.slices =
        (installShards e h answer (routeShards c entries) 0 s' w).2.slices ∧
      ((loadPayload e c entries ctx s answer w).1 ≠ .ok () →
        (loadPayload e c entries ctx s answer w).2.logits = w.logits) := by
  have hinstalls := @installs e h answer (routeShards c entries) 0 s' w
  rw [loadPayload, hroute]
  simp only [hhead]
  generalize hout : installShards e h answer (routeShards c entries) 0 s' w = out at hinstalls
  obtain ⟨res, w'⟩ := out
  have hiff := hinstalls.ok_iff
  simp only [Nat.zero_add] at hiff
  cases res with
  | error text =>
    refine ⟨⟨nofun, fun hwhole => ?_⟩, rfl, fun _ => hinstalls.logits⟩
    have hok := (hiff (s'.skip s'.remaining)).mpr ⟨hwhole.heard, _, hwhole.size, Nat.le_min.mpr ⟨le_rfl, hwhole.le⟩, rfl⟩
    cases hok
  | ok s'' =>
    obtain ⟨hheard, n, hn, hle, rfl⟩ := (hiff s'').mp rfl
    have hboth := Nat.le_min.mp hle
    have hleft : (s'.skip n).remaining = s'.remaining - n := rfl
    by_cases hrest : s'.remaining = n
    · have hzero : ¬(s'.skip n).remaining ≠ 0 := by omega
      simp only [if_neg hzero]
      refine ⟨⟨fun _ => ⟨hheard, by rw [hrest]; exact hn, by omega⟩, fun _ => trivial⟩, trivial, fun hne => ?_⟩
      exact absurd rfl hne
    · have hne : (s'.skip n).remaining ≠ 0 := by omega
      simp only [if_pos hne]
      refine ⟨⟨nofun, fun hwhole => ?_⟩, trivial, fun _ => hinstalls.logits⟩
      exact absurd (Option.some.inj (hwhole.size.symm.trans hn)) hrest

/-- **A load that fails** leaves nothing half installed exactly when it goes through, or no party takes a
shard that it does not hold. -/
theorem kept_iff (hlayers : c.nLayers = e.layerCount) (hroute : routeValidate c entries = .ok ())
    (hbytes : s.remaining < 2 ^ 64) :
    Kept e c entries ctx s answer w ↔ Harmless e c entries ctx s answer w := by
  constructor
  · intro hkept h s' hhead
    obtain ⟨hok, hslices, -⟩ := @loadPayload_head e c entries ctx s answer w h s' hroute hhead
    by_cases hwhole : Whole e c entries answer h s'
    · exact Or.inl hwhole
    · right
      intro i hlt hi
      have hloading : Loading e c entries h s' := ⟨hroute, hlayers, ctx, s, readHead_checked hhead, hbytes⟩
      apply (hloading.installed_iff hlt hi.reaches _).mp
      have htaken := (@installs e h answer (routeShards c entries) 0 s' w).taken i hi
      rw [Nat.zero_add, ← hslices] at htaken
      have hvalid : (installed e h (routeShards c entries) s' i (w.slices i)).valid = true := by
        rw [installed, List.getElem?_eq_getElem hi.lt]
        rfl
      rcases (hkept fun h => hwhole (hok.mp h)).1 i hi.lt with hsame | hinvalid
      · rw [← htaken, hsame]
      · rw [htaken, hvalid] at hinvalid
        cases hinvalid
  · intro hharmless hfails
    cases hhead : readHead e c ctx s with
    | error text =>
      have hload : loadPayload e c entries ctx s answer w = (.error text, w) := by
        rw [loadPayload, hroute]
        simp only [hhead]
      rw [hload]
      exact ⟨fun i _ => Or.inl rfl, rfl⟩
    | ok found =>
      obtain ⟨h, s'⟩ := found
      obtain ⟨hok, hslices, hlogits⟩ := @loadPayload_head e c entries ctx s answer w h s' hroute hhead
      refine ⟨fun i hi => ?_, hlogits hfails⟩
      have hinstalls := @installs e h answer (routeShards c entries) 0 s' w
      have hloading : Loading e c entries h s' := ⟨hroute, hlayers, ctx, s, readHead_checked hhead, hbytes⟩
      have hheld := (hharmless h s' hhead).resolve_left fun hwhole => hfails (hok.mpr hwhole)
      rw [hslices]
      by_cases ht : Takes e h answer (routeShards c entries) 0 s' i
      · left
        have htaken := hinstalls.taken i ht
        rw [Nat.zero_add] at htaken
        rw [htaken, (hloading.installed_iff hi ht.reaches _).mpr (hheld i hi ht)]
      · refine hinstalls.kept i fun j hj heq => ht ?_
        rw [Nat.zero_add] at heq
        exact heq ▸ hj

end Failing

/-! ## Two routes -/

namespace KvState

variable {e : Engine} {v : KvState e}

/-- A session that was saved on one route, and what another route makes of it: both routes save the same bytes, the
second one cuts them into shards that are accepted for their layers with their own counts and tensors, and when all
its parties take their shards they hold the session and nothing is left. The coordinator's own session, which loads,
is that of the first shard. -/
structure Portable (v : KvState e) (a : Coordinator) (as : List RouteEntry) (la : Nat → Layout) (b : Coordinator)
    (bs : List RouteEntry) (lb : Nat → Layout) : Prop where
  saved : savePayload e a as (v.shardFiles a as la) v.tokens v.logits =
    savePayload e b bs (v.shardFiles b bs lb) v.tokens v.logits
  loaded : ∃ bytes, savePayload e a as (v.shardFiles a as la) v.tokens v.logits = .ok bytes ∧
    (∃ h s, readHead e b (lb 0).ctx (Source.whole bytes) = .ok (h, s) ∧
      ∀ i (hi : i < (routeShards b bs).length), ∃ g shard, parseLayerPayload e (sentFile e h (routeShards b bs) s i)
          (sentFile e h (routeShards b bs) s i).length (routeShards b bs)[i].1 (routeShards b bs)[i].2 (.start e) =
            .ok (g, shard) ∧
        shard.tensors = v.tensors (layerRange (routeShards b bs)[i].1 (routeShards b bs)[i].2) ∧
        ∀ il ∈ layerRange (routeShards b bs)[i].1 (routeShards b bs)[i].2,
          g.nComp il = v.nComp il ∧ g.nIndexComp il = v.nIndexComp il) ∧
    ∀ answer : Nat → Answer, (∀ k, (answer k).Heard k) → ∀ w,
      (loadPayload e b bs (lb 0).ctx (Source.whole bytes) answer w).1 = .ok () ∧
        v.Restored (routeShards b bs) (loadPayload e b bs (lb 0).ctx (Source.whole bytes) answer w).2

section Routes

variable {a b : Coordinator} {as bs : List RouteEntry} {la lb : Nat → Layout}

/-- A route that has saved a session has one layout, which the payload names. -/
theorem savePayload_ok (ha : a.nLayers = e.layerCount) (has : routeValidate a as = .ok ())
    (hheld : v.HeldBy a as la) {bytes : Bytes}
    (hsaved : savePayload e a as (v.shardFiles a as la) v.tokens v.logits = .ok bytes) :
    OneLayout a as la (la 0) ∧ bytes = v.payload (la 0) := by
  by_cases hone : OneLayout a as la (la 0)
  · rw [savePayload_eq ha has hheld hone] at hsaved
    exact ⟨hone, (Except.ok.inj hsaved).symm⟩
  · rw [savePayload_differs ha has hheld hone] at hsaved
    cases hsaved

/-- The parties of both routes have one layout, and the session has room in its context. -/
structure Uniform (v : KvState e) (a : Coordinator) (as : List RouteEntry) (la : Nat → Layout) (b : Coordinator)
    (bs : List RouteEntry) (lb : Nat → Layout) : Prop where
  saver : OneLayout a as la (lb 0)
  loader : OneLayout b bs lb (lb 0)
  room : v.tokens.length < (lb 0).ctx.toNat

theorem tokenCount_toNat {l : Layout} (h : l.tokenCount = UInt32.ofNat v.tokens.length) :
    l.tokenCount.toNat = v.tokens.length := by
  rw [h, UInt32.toNat_ofNat_of_lt' v.tokens_length]

/-- **Checkpoints do not depend on the route** when the parties of both have one layout, and only then. -/
theorem portable_iff (ha : a.nLayers = e.layerCount) (hb : b.nLayers = e.layerCount)
    (has : routeValidate a as = .ok ()) (hbs : routeValidate b bs = .ok ())
    (hheldA : v.HeldBy a as la) (hheldB : v.HeldBy b bs lb) :
    v.Portable a as la b bs lb ↔ v.Uniform a as la b bs lb := by
  constructor
  · intro h
    obtain ⟨bytes, hsaved, ⟨head, s, hhead, -⟩, -⟩ := h.loaded
    obtain ⟨honeA, hpayload⟩ := savePayload_ok ha has hheldA hsaved
    obtain ⟨honeB, hpayload'⟩ := savePayload_ok hb hbs hheldB (h.saved.symm.trans hsaved)
    have hsame : la 0 = lb 0 := payload_inj (hpayload.symm.trans hpayload')
    rw [hsame] at honeA
    refine ⟨honeA, honeB, ?_⟩
    have hfull := hheldB.full hb hbs honeB
    rw [hpayload', readHead_payload hfull hb (UInt32.le_refl _)] at hhead
    split_ifs at hhead with hroom
    rw [← tokenCount_toNat hfull.tokenCount]
    exact UInt32.lt_iff_toNat_lt.mp hroom
  · intro h
    have hfull := hheldB.full hb hbs h.loader
    have hroom : (lb 0).tokenCount < (lb 0).ctx := by
      rw [UInt32.lt_iff_toNat_lt, tokenCount_toNat hfull.tokenCount]
      exact h.room
    have hhead := @readHead_payload e v b (lb 0) _ hfull hb (UInt32.le_refl _)
    rw [if_pos hroom] at hhead
    obtain ⟨hloading, hreaches⟩ := payload_loading hfull hb hbs hroom
    refine ⟨?_, v.payload (lb 0), savePayload_eq ha has hheldA h.saver, ⟨v.head (lb 0), _, hhead, ?_⟩,
      fun answer hanswer w => loadPayload_payload hfull hb hbs hroom hanswer w⟩
    · rw [savePayload_eq ha has hheldA h.saver, savePayload_eq hb hbs hheldB h.loader]
    · intro i hi
      have hrows : ∀ il ∈ layerRange (routeShards b bs)[i].1 (routeShards b bs)[i].2,
          ((v.head (lb 0)).rows e (Source.whole (v.tensors (List.range (lb 0).nLayers.toNat)))).state il =
            v.state il := by
        intro il hil
        refine head_rows hfull ?_
        rw [hfull.nLayers_eq, ← hb, ← (routeValidate_ok hbs).2]
        exact List.mem_flatMap.mpr ⟨_, List.getElem_mem hi, hil⟩
      have hsized := (hheldB.sized hb hbs h.loader _ (List.getElem_mem hi)).1
      obtain ⟨shard, hparse, htensors⟩ := @Rows.parse_layerPayload v.toRows e (lb 0) _ _ hsized
        (hloading.covers hi) (.start e) rfl nofun
      rw [hloading.sentFile_eq hi (hreaches i hi), Rows.layerPayload_congr hrows]
      exact ⟨_, shard, hparse, htensors, fun il hil => ⟨fill_eq hil, fill_eq hil⟩⟩

/-- **Checkpoints between routes.** A session that one route saves is the same for another and restores it, and for
every byte string a load is all or nothing, exactly when the parties of both routes have one layout with room for the
session and the load goes through, or no party takes a shard that it does not hold already. -/
theorem portable_and_kept_iff (ha : a.nLayers = e.layerCount) (hb : b.nLayers = e.layerCount)
    (has : routeValidate a as = .ok ()) (hbs : routeValidate b bs = .ok ())
    (hheldA : v.HeldBy a as la) (hheldB : v.HeldBy b bs lb) {s : Source} (hbytes : s.remaining < 2 ^ 64)
    (answer : Nat → Answer) (w : World) :
    (v.Portable a as la b bs lb ∧ Kept e b bs (lb 0).ctx s answer w) ↔
      v.Uniform a as la b bs lb ∧ Harmless e b bs (lb 0).ctx s answer w :=
  and_congr (portable_iff ha hb has hbs hheldA hheldB) (kept_iff hb hbs hbytes)

end Routes

end KvState

/-- Two layers, the second compressed by eight, and a vocabulary of one token. -/
def smallEngine (first : UInt32) : Engine where
  layerCount := 2
  vocabSize := 1
  isGlmDsa := false
  compressRatio := fun il => if il = 0 then first else 8
  glmLayerBytes := fun _ _ _ _ _ _ => none
  vocab_lt := by decide

/-- A session of one token; a compressed layer has a row and its states. -/
def smallState (first : UInt32) (h : first = 0 ∨ first = 8) : KvState (smallEngine first) where
  nComp := fun il => if il = 0 ∧ first = 0 then 0 else 1
  nIndexComp := fun _ => 0
  tensor := fun il => List.replicate (if il = 0 ∧ first = 0 then 4 else 72) (UInt8.ofNat il)
  tokens := [0]
  logits := [1, 2, 3, 4]
  tokens_length := by decide
  tokens_lt := by simp [smallEngine]
  logits_length := rfl
  size_lt := by rcases h with rfl | rfl <;> decide +kernel

theorem eight_first : (8 : UInt32) = 0 ∨ (8 : UInt32) = 8 := .inr rfl

/-- A session of sixteen tokens on a machine with some of the layers. -/
def smallLayout (first : UInt32) (layers : List Nat) : Layout :=
  ⟨16, 4, 4, 4, graphCompCap (smallEngine first) 16 layers, 1, 2, 1, 1, 1, 1⟩

/-- A coordinator that holds the layers up to one of two. -/
def smallCoordinator (localEnd : UInt32) : Coordinator where
  modelId := 0
  modelName := []
  nLayers := 2
  localStart := 0
  localEnd := localEnd
  ctxSize := 16
  localHasOutput := false
  localCanOutputHead := true
  layers_le := by decide

/-- A worker that holds the second layer. -/
def smallEntry : RouteEntry := ⟨[49], 1, 1, 1, 1⟩

theorem small_holdsBoth : (smallState 8 eight_first).Holds (smallLayout 8 [0, 1]) [0, 1] :=
  ⟨⟨rfl, rfl, by decide, by decide, by decide, by decide, by decide +kernel⟩, rfl⟩

theorem small_holdsFirst (first : UInt32) (h : first = 0 ∨ first = 8) :
    (smallState first h).Holds (smallLayout first [0]) [0] := by
  rcases h with rfl | rfl <;>
    exact ⟨⟨rfl, rfl, by decide, by decide, by decide, by decide, by decide +kernel⟩, rfl⟩

theorem small_holdsSecond (first : UInt32) (h : first = 0 ∨ first = 8) :
    (smallState first h).Holds (smallLayout first [1]) [1] := by
  rcases h with rfl | rfl <;>
    exact ⟨⟨rfl, rfl, by decide, by decide, by decide, by decide, by decide +kernel⟩, rfl⟩

theorem small_heldByOne : (smallState 8 eight_first).HeldBy (smallCoordinator 1) [] fun _ => smallLayout 8 [0, 1] := by
  intro i hi
  obtain rfl : i = 0 := Nat.lt_one_iff.mp hi
  exact small_holdsBoth

theorem small_heldByTwo (first : UInt32) (h : first = 0 ∨ first = 8) :
    (smallState first h).HeldBy (smallCoordinator 0) [smallEntry] fun i => smallLayout first [i] := by
  intro i hi
  rcases Nat.lt_succ_iff_lt_or_eq.mp hi with hlt | rfl
  · obtain rfl : i = 0 := Nat.lt_one_iff.mp hlt
    exact small_holdsFirst first h
  · exact small_holdsSecond first h

/-- Two machines of which only one has compressed layers cannot save what they hold. -/
example : savePayload (smallEngine 0) (smallCoordinator 0) [smallEntry]
    ((smallState 0 (.inl rfl)).shardFiles (smallCoordinator 0) [smallEntry] fun i => smallLayout 0 [i]) [0]
    [1, 2, 3, 4] = .error "distributed KV shards use different layouts" :=
  KvState.savePayload_differs rfl rfl (small_heldByTwo 0 (.inl rfl)) fun hone =>
    absurd (hone 1 (by decide)) (by decide)

/-- Every party takes its shard. -/
def allTaken : Nat → Answer := fun _ => ⟨.taken, none⟩

/-- Sessions that claim nothing. -/
def emptyWorld : World := ⟨fun _ => ⟨false, [], fun _ => ⟨0, 0, []⟩⟩, []⟩

/-- The payload of a session that moves from one machine to two. -/
def smallPayload : Bytes := (smallState 8 eight_first).payload (smallLayout 8 [0, 1])

theorem small_uniform : (smallState 8 eight_first).Uniform (smallCoordinator 1) [] (fun _ => smallLayout 8 [0, 1])
    (smallCoordinator 0) [smallEntry] (fun i => smallLayout 8 [i]) := by
  refine ⟨fun i _ => by decide, fun i hi => ?_, by decide⟩
  rcases Nat.lt_succ_iff_lt_or_eq.mp hi with hlt | rfl
  · obtain rfl : i = 0 := Nat.lt_one_iff.mp hlt
    rfl
  · decide

/-- A session moves from one machine to two. -/
theorem portable_and_kept_iff_small :
    (smallState 8 eight_first).Portable (smallCoordinator 1) [] (fun _ => smallLayout 8 [0, 1]) (smallCoordinator 0)
        [smallEntry] (fun i => smallLayout 8 [i]) ∧
      Kept (smallEngine 8) (smallCoordinator 0) [smallEntry] 16 (Source.whole smallPayload) allTaken emptyWorld := by
  have hfull := small_heldByOne.full rfl rfl fun _ _ => rfl
  have hctx : (smallLayout 8 [0, 1]).ctx ≤ (smallLayout 8 [0]).ctx := UInt32.le_refl 16
  refine (KvState.portable_and_kept_iff rfl rfl rfl rfl small_heldByOne (small_heldByTwo 8 eight_first)
    (KvState.payload_length rfl) allTaken emptyWorld).mpr ⟨small_uniform, ?_⟩
  intro h s hhead
  left
  rw [smallPayload, KvState.readHead_payload hfull rfl hctx, if_pos (by decide)] at hhead
  obtain ⟨rfl, rfl⟩ := Prod.mk.inj (Except.ok.inj hhead)
  exact ⟨fun i _ => ⟨rfl, .inr rfl⟩, KvState.head_size hfull fun il hil => hil, Nat.le_refl _⟩

/-- One byte too many: the load fails, and the coordinator claims the tokens of the payload. -/
theorem trailing_not_kept :
    ¬((smallState 8 eight_first).Portable (smallCoordinator 1) [] (fun _ => smallLayout 8 [0, 1]) (smallCoordinator 0)
        [smallEntry] (fun i => smallLayout 8 [i]) ∧
      Kept (smallEngine 8) (smallCoordinator 0) [smallEntry] 16 (Source.whole (smallPayload ++ [0])) allTaken
        emptyWorld) := by
  rintro ⟨-, hkept⟩
  have hfails : (loadPayload (smallEngine 8) (smallCoordinator 0) [smallEntry] 16
      (Source.whole (smallPayload ++ [0])) allTaken emptyWorld).1 =
        .error "DS4 KV payload has trailing bytes" := by decide +kernel
  have hvalid : ((loadPayload (smallEngine 8) (smallCoordinator 0) [smallEntry] 16
      (Source.whole (smallPayload ++ [0])) allTaken emptyWorld).2.slices 0).valid = true := by decide +kernel
  rcases (hkept (by rw [hfails]; exact nofun)).1 0 (by decide) with hsame | hinvalid
  · rw [hsame] at hvalid
    cases hvalid
  · rw [hinvalid] at hvalid
    cases hvalid

end Ds4.Dist
