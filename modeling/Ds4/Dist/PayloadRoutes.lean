import Ds4.Dist.Payload
import Ds4.Dist.Route

/-!
# Shards of a checkpoint

A route whose parties have one layout saves a session as the same bytes whatever the route, and a route whose
parties have not cannot save it. A load takes the shards in order, each party answering for its own.
-/

namespace Ds4.Dist

open Ds4.Lib

/-! ## Reading what was written -/

@[simp] theorem except_ok_bind {α β : Type} (a : α) (f : α → Except String β) : (Except.ok a >>= f) = f a := rfl

/-- A file to be read to its end. -/
def Source.whole (p : Bytes) : Source := ⟨p, p.length⟩

theorem putWords_length (ws : List UInt32) : (putWords ws).length = 4 * ws.length := by
  induction ws with
  | nil => rfl
  | cons v ws ih =>
    have hcons : putWords (v :: ws) = put32 v ++ putWords ws := rfl
    rw [hcons, List.length_append, put32_length, ih, List.length_cons]
    omega

theorem Source.read_append {x r : Bytes} {n k : Nat} (hx : x.length = k) (hn : k ≤ n) :
    (Source.mk (x ++ r) n).read k = .ok (x, ⟨r, n - k⟩) := by
  subst hx
  have hremaining : ¬n < x.length := by omega
  have hfile : ¬(x ++ r).length < x.length := by
    rw [List.length_append]
    omega
  rw [Source.read, if_neg hremaining, if_neg hfile, List.take_left' rfl, List.drop_left' rfl]

@[simp] theorem Source.read_whole {x r : Bytes} {k : Nat} (hx : x.length = k) :
    (Source.whole (x ++ r)).read k = .ok (x, Source.whole r) := by
  have hlength : (x ++ r).length = k + r.length := by rw [List.length_append, hx]
  rw [Source.whole, Source.read_append hx (by omega), hlength, Nat.add_sub_cancel_left]
  rfl

@[simp] theorem Source.readU32_whole (v : UInt32) (r : Bytes) :
    (Source.whole (put32 v ++ r)).readU32 = .ok (v, Source.whole r) := by
  rw [Source.readU32, Source.read_whole (put32_length v), except_ok_bind]
  simp only [get32_put32_self]

theorem Source.readWords_whole (ws : List UInt32) (r : Bytes) :
    (Source.whole (putWords ws ++ r)).readWords ws.length = .ok (ws, Source.whole r) := by
  induction ws with
  | nil => rfl
  | cons v ws ih =>
    have hcons : putWords (v :: ws) ++ r = put32 v ++ (putWords ws ++ r) := List.append_assoc ..
    rw [List.length_cons, Source.readWords, hcons, Source.readU32_whole, except_ok_bind]
    simp only [ih, except_ok_bind]

/-- The counts of some layers are put in. -/
def fill (counts f : Nat → UInt32) (layers : List Nat) : Nat → UInt32 :=
  fun il => if il ∈ layers then f il else counts il

theorem fill_nil (counts f : Nat → UInt32) : fill counts f [] = counts := by
  funext il
  rw [fill, if_neg List.not_mem_nil]

theorem fill_cons (counts f : Nat → UInt32) (il : Nat) (layers : List Nat) :
    fill (Function.update counts il (f il)) f layers = fill counts f (il :: layers) := by
  funext i
  by_cases hi : i = il
  · subst hi
    simp [fill]
  · simp [fill, hi]

theorem fill_fill (counts f : Nat → UInt32) (a b : List Nat) : fill (fill counts f a) f b = fill counts f (a ++ b) := by
  funext i
  simp only [fill, List.mem_append]
  by_cases ha : i ∈ a <;> by_cases hb : i ∈ b <;> simp [ha, hb]

theorem fill_eq {counts f : Nat → UInt32} {layers : List Nat} {il : Nat} (h : il ∈ layers) :
    fill counts f layers il = f il := if_pos h

theorem readCounts_whole {cap : UInt32} (text : String) {f : Nat → UInt32} {layers : List Nat}
    (hcap : ∀ il ∈ layers, f il ≤ cap) (counts : Nat → UInt32) (r : Bytes) :
    readCounts cap text layers counts (Source.whole (putWords (layers.map f) ++ r)) =
      .ok (fill counts f layers, Source.whole r) := by
  induction layers generalizing counts with
  | nil =>
    rw [fill_nil]
    rfl
  | cons il layers ih =>
    have hcons : putWords ((il :: layers).map f) ++ r = put32 (f il) ++ (putWords (layers.map f) ++ r) :=
      List.append_assoc ..
    have hnot : ¬cap < f il := UInt32.not_lt.mpr (hcap il (List.mem_cons_self ..))
    rw [readCounts, hcons, Source.readU32_whole, except_ok_bind]
    simp only [if_neg hnot]
    rw [ih (fun i hi => hcap i (List.mem_cons_of_mem _ hi)), fill_cons]

theorem readCounts_le {cap : UInt32} {text : String} {layers : List Nat} {counts f : Nat → UInt32} {s s' : Source}
    (h : readCounts cap text layers counts s = .ok (f, s')) :
    (∀ il ∈ layers, f il ≤ cap) ∧ ∀ il ∉ layers, f il = counts il := by
  induction layers generalizing counts s with
  | nil =>
    obtain ⟨rfl, -⟩ := Prod.mk.inj (Except.ok.inj h)
    exact ⟨nofun, fun _ _ => rfl⟩
  | cons il layers ih =>
    rw [readCounts] at h
    cases hread : s.readU32 with
    | error text =>
      rw [hread] at h
      cases h
    | ok found =>
      obtain ⟨v, s''⟩ := found
      rw [hread, except_ok_bind] at h
      dsimp only at h
      split_ifs at h with hcap
      obtain ⟨hle, hother⟩ := ih h
      constructor
      · intro i hi
        by_cases hmem : i ∈ layers
        · exact hle i hmem
        · obtain rfl : i = il := (List.mem_cons.mp hi).resolve_right hmem
          rw [hother i hmem, Function.update_self]
          exact UInt32.not_lt.mp hcap
      · intro i hi
        rw [List.mem_cons, not_or] at hi
        rw [hother i hi.2, Function.update_of_ne hi.1]

theorem putWords_inj {ws ws' : List UInt32} {r r' : Bytes} (hlength : ws.length = ws'.length)
    (h : putWords ws ++ r = putWords ws' ++ r') : ws = ws' := by
  have hread := Source.readWords_whole ws r
  rw [h, hlength, Source.readWords_whole] at hread
  exact (Prod.mk.inj (Except.ok.inj hread)).1.symm

/-! ## The rows of a model -/

/-- The row counts and the tensors of all layers. -/
structure Rows where
  nComp : Nat → UInt32
  nIndexComp : Nat → UInt32
  tensor : Nat → Bytes

namespace Rows

variable (d : Rows)

/-- The tensors of some layers. -/
def tensors (layers : List Nat) : Bytes := (layers.map d.tensor).flatten

/-- The shard of some layers, as a session of this layout saves it. -/
def layerPayload (l : Layout) (layerStart layerEnd : UInt32) : Bytes :=
  writeLayerHeader l layerStart layerEnd d.nComp d.nIndexComp ++ d.tensors (layerRange layerStart layerEnd)

/-- The rows of some layers have the sizes that a session of this layout gives them. -/
structure Sized (e : Engine) (l : Layout) (layers : List Nat) : Prop where
  nLayers_eq : l.nLayers = e.layerCount
  vocab_eq : l.vocab = e.vocabSize
  rawLive : rawLiveValid e l = true
  nComp_le : ∀ il ∈ layers, d.nComp il ≤ l.compCap
  nIndexComp_le : ∀ il ∈ layers, d.nIndexComp il ≤ l.compCap
  tensor_size : ∀ il ∈ layers, layerTensorBytes e l il (d.nComp il) (d.nIndexComp il) = some (d.tensor il).length
  size_lt : (d.tensors layers).length < 2 ^ 64

theorem tensors_cons (il : Nat) (layers : List Nat) : d.tensors (il :: layers) = d.tensor il ++ d.tensors layers :=
  rfl

theorem tensors_append (a b : List Nat) : d.tensors (a ++ b) = d.tensors a ++ d.tensors b := by
  rw [tensors, List.map_append, List.flatten_append]
  rfl

variable {d} {e : Engine} {l : Layout} {layerStart layerEnd : UInt32}

theorem expectedBytes_eq {nComp nIndexComp : Nat → UInt32} {layers : List Nat}
    (hsize : ∀ il ∈ layers, layerTensorBytes e l il (d.nComp il) (d.nIndexComp il) = some (d.tensor il).length)
    (hcomp : ∀ il ∈ layers, nComp il = d.nComp il) (hindex : ∀ il ∈ layers, nIndexComp il = d.nIndexComp il)
    {sum : Nat} (hsum : sum + (d.tensors layers).length < 2 ^ 64) :
    expectedBytes e l nComp nIndexComp layers sum = some (sum + (d.tensors layers).length) := by
  induction layers generalizing sum with
  | nil => rfl
  | cons il layers ih =>
    have hmem := @List.mem_cons_self _ il layers
    rw [tensors_cons, List.length_append] at hsum ⊢
    rw [expectedBytes, hcomp il hmem, hindex il hmem, hsize il hmem]
    have hadd : u64Add sum (d.tensor il).length = some (sum + (d.tensor il).length) := if_pos (by omega)
    simp only [Option.bind_eq_bind, Option.bind_some, hadd]
    rw [ih (fun i hi => hsize i (List.mem_cons_of_mem _ hi)) (fun i hi => hcomp i (List.mem_cons_of_mem _ hi))
      (fun i hi => hindex i (List.mem_cons_of_mem _ hi)) (by omega), Nat.add_assoc]

theorem layoutMatches_iff {a b : Layout} (hvocab : a.vocab = b.vocab) : layoutMatches a b = true ↔ a = b := by
  rw [layoutMatches, decide_eq_true_eq]
  constructor
  · rintro ⟨h1, h2, h3, h4, h5, h6, h7, h8, h9, h10⟩
    cases a
    cases b
    simp_all
  · rintro rfl
    simp

/-- A shard is parsed behind others of the same vocabulary: up to the layout, there is nothing to object to. -/
theorem parse_header (hd : d.Sized e l (layerRange layerStart layerEnd))
    (hc : layerStart ≤ layerEnd ∧ layerEnd < l.nLayers) {g : Gather} (hg : g.layout.vocab = e.vocabSize) :
    parseLayerPayload e (d.layerPayload l layerStart layerEnd) (d.layerPayload l layerStart layerEnd).length
        layerStart layerEnd g =
      if g.layoutSet = true ∧ g.layout ≠ l then .error "distributed KV shards use different layouts"
      else .ok (⟨l, true, fill g.nComp d.nComp (layerRange layerStart layerEnd),
          fill g.nIndexComp d.nIndexComp (layerRange layerStart layerEnd)⟩,
        ⟨d.layerPayload l layerStart layerEnd, (d.layerPayload l layerStart layerEnd).length -
          (d.tensors (layerRange layerStart layerEnd)).length,
          (d.tensors (layerRange layerStart layerEnd)).length⟩) := by
  have hheader : d.layerPayload l layerStart layerEnd = putWords (layerHeader l layerStart layerEnd) ++
      (putWords ((layerRange layerStart layerEnd).map d.nComp) ++
        (putWords ((layerRange layerStart layerEnd).map d.nIndexComp) ++
          d.tensors (layerRange layerStart layerEnd))) := by
    simp only [layerPayload, writeLayerHeader, List.append_assoc]
  have hexpected : expectedBytes e l (fill g.nComp d.nComp (layerRange layerStart layerEnd))
      (fill g.nIndexComp d.nIndexComp (layerRange layerStart layerEnd)) (layerRange layerStart layerEnd) 0 =
        some (d.tensors (layerRange layerStart layerEnd)).length := by
    have hsum := @expectedBytes_eq d e l (fill g.nComp d.nComp (layerRange layerStart layerEnd))
      (fill g.nIndexComp d.nIndexComp (layerRange layerStart layerEnd)) _ hd.tensor_size (fun il hil => fill_eq hil)
      (fun il hil => fill_eq hil) 0 (by have := hd.size_lt; omega)
    rwa [Nat.zero_add] at hsum
  have hwords := Source.readWords_whole (layerHeader l layerStart layerEnd)
    (putWords ((layerRange layerStart layerEnd).map d.nComp) ++
      (putWords ((layerRange layerStart layerEnd).map d.nIndexComp) ++ d.tensors (layerRange layerStart layerEnd)))
  rw [← hheader] at hwords
  have hcomp := @readCounts_whole l.compCap "distributed KV shard has invalid compressed row count" d.nComp
    (layerRange layerStart layerEnd) hd.nComp_le g.nComp
    (putWords ((layerRange layerStart layerEnd).map d.nIndexComp) ++ d.tensors (layerRange layerStart layerEnd))
  have hindex := @readCounts_whole l.compCap "distributed KV shard has invalid indexer row count"
    d.nIndexComp (layerRange layerStart layerEnd) hd.nIndexComp_le g.nIndexComp
    (d.tensors (layerRange layerStart layerEnd))
  have hgot : (⟨l.ctx, l.prefillCap, l.rawCap, l.rawWindow, l.compCap, l.tokenCount, l.nLayers, l.headDim,
      l.indexerHeadDim, g.layout.vocab, l.rawLive⟩ : Layout) = l := by rw [hg, ← hd.vocab_eq]
  have hbad : ¬(layerStart ≠ layerStart ∨ layerEnd ≠ layerEnd ∨ layerEnd < layerStart ∨ l.nLayers ≤ layerEnd) := by
    rw [not_or, not_or, not_or]
    exact ⟨not_not.mpr rfl, not_not.mpr rfl, UInt32.not_lt.mpr hc.1, UInt32.not_le.mpr hc.2⟩
  have hlayout : ¬(l.nLayers ≠ e.layerCount ∨ rawLiveValid e l = false) := by
    rw [hd.nLayers_eq, hd.rawLive]
    simp
  have hmatches : (g.layoutSet = true ∧ layoutMatches g.layout l = false) ↔ g.layoutSet = true ∧ g.layout ≠ l := by
    rw [← Bool.not_eq_true, layoutMatches_iff (hg.trans hd.vocab_eq.symm)]
  have hmagic : ¬(layerPayloadMagic ≠ layerPayloadMagic ∨ layerPayloadVersion ≠ layerPayloadVersion) := by decide
  have hsource : Source.mk (d.layerPayload l layerStart layerEnd) (d.layerPayload l layerStart layerEnd).length =
      Source.whole (d.layerPayload l layerStart layerEnd) := rfl
  rw [parseLayerPayload, hsource, show layerPayloadFields = (layerHeader l layerStart layerEnd).length from rfl,
    hwords, except_ok_bind]
  simp only [layerHeader, List.getD_cons_zero, List.getD_cons_succ, hgot, if_neg hmagic, if_neg hbad, if_neg hlayout,
    hmatches]
  split_ifs with hdiffers hset
  · rfl
  · have hkeep : g.layout = l := not_not.mp fun hne => hdiffers ⟨hset, hne⟩
    simp only [hcomp, hindex, hexpected, hkeep, except_ok_bind]
    simp [Source.whole]
  · simp only [hcomp, hindex, hexpected, except_ok_bind]
    simp [Source.whole]

/-- **A shard is accepted** for its own layers: they get their own counts, and the rest is their tensors. -/
theorem parse_layerPayload (hd : d.Sized e l (layerRange layerStart layerEnd))
    (hc : layerStart ≤ layerEnd ∧ layerEnd < l.nLayers) {g : Gather} (hg : g.layout.vocab = e.vocabSize)
    (hsame : g.layoutSet = true → g.layout = l) :
    ∃ shard, parseLayerPayload e (d.layerPayload l layerStart layerEnd) (d.layerPayload l layerStart layerEnd).length
        layerStart layerEnd g = .ok (⟨l, true, fill g.nComp d.nComp (layerRange layerStart layerEnd),
          fill g.nIndexComp d.nIndexComp (layerRange layerStart layerEnd)⟩, shard) ∧
      shard.tensors = d.tensors (layerRange layerStart layerEnd) := by
  refine ⟨_, (parse_header hd hc hg).trans (if_neg fun hdiffers => hdiffers.2 (hsame hdiffers.1)), ?_⟩
  have hlength : (d.layerPayload l layerStart layerEnd).length - (d.tensors (layerRange layerStart layerEnd)).length =
      (writeLayerHeader l layerStart layerEnd d.nComp d.nIndexComp).length := by
    rw [layerPayload, List.length_append, Nat.add_sub_cancel]
  rw [Shard.tensors]
  simp only [hlength]
  rw [layerPayload, List.drop_left' rfl, List.take_length]

end Rows

/-- The layers of some shards. -/
def shardLayers (ranges : List (UInt32 × UInt32)) : List Nat := ranges.flatMap fun r => layerRange r.1 r.2

namespace Rows

variable {e : Engine} {d : Rows} {l : Layout} {shardFile : Nat → Except String Bytes}

theorem layerPayload_ne_nil (d : Rows) (l : Layout) (layerStart layerEnd : UInt32) :
    ¬(d.layerPayload l layerStart layerEnd).length = 0 := by
  rw [layerPayload, writeLayerHeader, List.length_append, List.length_append, putWords_length]
  simp [layerHeader]

theorem shardFile_tail {layout : Nat → Layout} {r : UInt32 × UInt32} {rest : List (UInt32 × UInt32)} {k : Nat}
    (hfile : ∀ i (hi : i < (r :: rest).length),
      shardFile (k + i) = .ok (d.layerPayload (layout (k + i)) (r :: rest)[i].1 (r :: rest)[i].2)) :
    ∀ i (hi : i < rest.length),
      shardFile (k + 1 + i) = .ok (d.layerPayload (layout (k + 1 + i)) rest[i].1 rest[i].2) := by
  intro i hi
  have hnext := hfile (i + 1) (by simpa using hi)
  rw [show k + 1 + i = k + (i + 1) by omega]
  exact hnext

theorem gatherShards_eq {layout : Nat → Layout} {ranges : List (UInt32 × UInt32)} {k : Nat} {g : Gather}
    (hsized : ∀ r ∈ ranges, d.Sized e l (layerRange r.1 r.2) ∧ r.1 ≤ r.2 ∧ r.2 < l.nLayers)
    (hg : g.layout.vocab = e.vocabSize) (hsame : g.layoutSet = true → g.layout = l)
    (hone : ∀ i < ranges.length, layout (k + i) = l)
    (hfile : ∀ i (hi : i < ranges.length),
      shardFile (k + i) = .ok (d.layerPayload (layout (k + i)) ranges[i].1 ranges[i].2)) :
    ∃ shards, gatherShards e shardFile ranges k g = .ok (shards,
        ⟨if ranges = [] then g.layout else l, if ranges = [] then g.layoutSet else true,
          fill g.nComp d.nComp (shardLayers ranges), fill g.nIndexComp d.nIndexComp (shardLayers ranges)⟩) ∧
      (shards.map Shard.tensors).flatten = d.tensors (shardLayers ranges) := by
  induction ranges generalizing k g with
  | nil =>
    refine ⟨[], ?_, rfl⟩
    rw [gatherShards, if_pos rfl, if_pos rfl, shardLayers, List.flatMap_nil, fill_nil, fill_nil]
  | cons r rest ih =>
    have hfirst := hfile 0 (Nat.succ_pos _)
    have htail := shardFile_tail hfile
    obtain ⟨layerStart, layerEnd⟩ := r
    obtain ⟨hd, hc⟩ := hsized (layerStart, layerEnd) (List.mem_cons_self ..)
    obtain ⟨shard, hparse, htensors⟩ := parse_layerPayload hd hc hg hsame
    rw [hone 0 (Nat.succ_pos _)] at hfirst
    replace hfirst : shardFile k = .ok (d.layerPayload l layerStart layerEnd) := hfirst
    have honetail : ∀ i < rest.length, layout (k + 1 + i) = l := by
      intro i hi
      rw [show k + 1 + i = k + (i + 1) by omega]
      exact hone (i + 1) (by simpa using hi)
    obtain ⟨shards, hgather, hflat⟩ := @ih (k + 1) ⟨l, true,
      fill g.nComp d.nComp (layerRange layerStart layerEnd),
      fill g.nIndexComp d.nIndexComp (layerRange layerStart layerEnd)⟩
      (fun r hr => hsized r (List.mem_cons_of_mem _ hr)) hd.vocab_eq (fun _ => rfl) honetail htail
    refine ⟨shard :: shards, ?_, ?_⟩
    · rw [gatherShards, hfirst, except_ok_bind]
      simp only [if_neg (layerPayload_ne_nil d l layerStart layerEnd), hparse, except_ok_bind, hgather, ite_self,
        fill_fill, List.cons_ne_nil, if_false]
      rfl
    · rw [List.map_cons, List.flatten_cons, htensors, hflat, ← tensors_append]
      rfl

theorem gatherShards_differs {layout : Nat → Layout} {ranges : List (UInt32 × UInt32)} {k : Nat} {g : Gather}
    (hsized : ∀ i (hi : i < ranges.length), d.Sized e (layout (k + i)) (layerRange ranges[i].1 ranges[i].2) ∧
      ranges[i].1 ≤ ranges[i].2 ∧ ranges[i].2 < (layout (k + i)).nLayers)
    (hg : g.layout.vocab = e.vocabSize) (hset : g.layoutSet = true)
    (hdiffers : ∃ i < ranges.length, layout (k + i) ≠ g.layout)
    (hfile : ∀ i (hi : i < ranges.length),
      shardFile (k + i) = .ok (d.layerPayload (layout (k + i)) ranges[i].1 ranges[i].2)) :
    gatherShards e shardFile ranges k g = .error "distributed KV shards use different layouts" := by
  induction ranges generalizing k g with
  | nil =>
    obtain ⟨i, hi, -⟩ := hdiffers
    exact absurd hi (Nat.not_lt_zero i)
  | cons r rest ih =>
    have hfirst : shardFile k = .ok (d.layerPayload (layout k) r.1 r.2) := hfile 0 (Nat.succ_pos _)
    have hhead : d.Sized e (layout k) (layerRange r.1 r.2) ∧ r.1 ≤ r.2 ∧ r.2 < (layout k).nLayers :=
      hsized 0 (Nat.succ_pos _)
    have hparse := parse_header hhead.1 hhead.2 hg
    have htail := shardFile_tail hfile
    rw [gatherShards, hfirst, except_ok_bind]
    simp only [if_neg (layerPayload_ne_nil d (layout k) r.1 r.2), hparse]
    by_cases hne : g.layout ≠ layout k
    · rw [if_pos ⟨hset, hne⟩]
      rfl
    · have hkeep := not_not.mp hne
      have hrest : gatherShards e shardFile rest (k + 1)
          ⟨layout k, true, fill g.nComp d.nComp (layerRange r.1 r.2),
            fill g.nIndexComp d.nIndexComp (layerRange r.1 r.2)⟩ =
          .error "distributed KV shards use different layouts" := by
        apply ih
        · intro i hi
          have hnext := hsized (i + 1) (by simpa using hi)
          rw [show k + 1 + i = k + (i + 1) by omega]
          exact hnext
        · exact hhead.1.vocab_eq
        · rfl
        · obtain ⟨i, hi, hlayout⟩ := hdiffers
          cases i with
          | zero => exact absurd hkeep.symm hlayout
          | succ i =>
            refine ⟨i, by simpa using hi, ?_⟩
            rw [show k + 1 + i = k + (i + 1) by omega, ← hkeep]
            exact hlayout
        · exact htail
      rw [if_neg fun h => hne h.2, except_ok_bind]
      simp only [hrest]
      rfl

end Rows

theorem routeContiguous_ok {nLayers prev : UInt32} {entries : List RouteEntry} (hprev : prev < nLayers)
    (h : routeContiguous nLayers prev entries = .ok ()) :
    (∀ r ∈ entries.map fun e => (e.layerStart, e.layerEnd), r.1 ≤ r.2 ∧ r.2 < nLayers) ∧
      shardLayers (entries.map fun e => (e.layerStart, e.layerEnd)) =
        List.range' (prev.toNat + 1) (nLayers.toNat - (prev.toNat + 1)) := by
  have hsucc := toNat_succ hprev
  induction entries generalizing prev with
  | nil =>
    rw [routeContiguous] at h
    split_ifs at h with hend
    rw [← not_not.mp hend, hsucc, Nat.sub_self]
    exact ⟨nofun, rfl⟩
  | cons e rest ih =>
    rw [routeContiguous] at h
    split_ifs at h with hbad
    simp only [not_or, not_not, UInt32.not_lt, UInt32.not_le] at hbad
    obtain ⟨-, hstart, hle, hlt⟩ := hbad
    obtain ⟨hrest, hlayers⟩ := ih hlt h (toNat_succ hlt)
    refine ⟨?_, ?_⟩
    · intro r hr
      rcases List.mem_cons.mp hr with rfl | hr
      · exact ⟨hle, hlt⟩
      · exact hrest r hr
    · have hle' := UInt32.le_iff_toNat_le.mp hle
      have hlt' := UInt32.lt_iff_toNat_lt.mp hlt
      rw [List.map_cons, shardLayers, List.flatMap_cons]
      rw [shardLayers] at hlayers
      rw [hlayers, layerRange, hstart, hsucc]
      rw [hstart, hsucc] at hle'
      have happend := @List.range'_append_1 (prev.toNat + 1) (e.layerEnd.toNat + 1 - (prev.toNat + 1))
        (nLayers.toNat - (e.layerEnd.toNat + 1))
      rw [show prev.toNat + 1 + (e.layerEnd.toNat + 1 - (prev.toNat + 1)) = e.layerEnd.toNat + 1 by omega,
        show e.layerEnd.toNat + 1 - (prev.toNat + 1) + (nLayers.toNat - (e.layerEnd.toNat + 1)) =
          nLayers.toNat - (prev.toNat + 1) by omega] at happend
      exact happend

theorem routeValidate_ok {c : Coordinator} {entries : List RouteEntry} (h : routeValidate c entries = .ok ()) :
    (∀ r ∈ routeShards c entries, r.1 ≤ r.2 ∧ r.2 < c.nLayers) ∧
      shardLayers (routeShards c entries) = List.range c.nLayers.toNat := by
  rw [routeValidate] at h
  split_ifs at h with hbad
  simp only [not_or, not_not, UInt32.not_le] at hbad
  obtain ⟨-, hstart, hlt⟩ := hbad
  obtain ⟨hrest, hlayers⟩ := routeContiguous_ok hlt h
  refine ⟨?_, ?_⟩
  · intro r hr
    rcases List.mem_cons.mp hr with rfl | hr
    · exact ⟨by rw [hstart]; exact UInt32.le_iff_toNat_le.mpr (Nat.zero_le _), hlt⟩
    · exact hrest r hr
  · have hlt' := UInt32.lt_iff_toNat_lt.mp hlt
    have hcons : shardLayers (routeShards c entries) = layerRange c.localStart c.localEnd ++
        shardLayers (entries.map fun e => (e.layerStart, e.layerEnd)) := List.flatMap_cons
    rw [hcons, hlayers, layerRange, hstart, List.range_eq_range']
    have happend := @List.range'_append_1 0 (c.localEnd.toNat + 1) (c.nLayers.toNat - (c.localEnd.toNat + 1))
    rw [Nat.zero_add, show c.localEnd.toNat + 1 + (c.nLayers.toNat - (c.localEnd.toNat + 1)) = c.nLayers.toNat by omega]
      at happend
    exact happend

/-- The tokens of a session, its logits, and the rows of all layers. -/
structure KvState (e : Engine) extends Rows where
  tokens : List UInt32
  logits : Bytes
  tokens_length : tokens.length < 2 ^ 32
  tokens_lt : ∀ t ∈ tokens, t < e.vocabSize
  logits_length : logits.length = e.vocabSize.toNat * 4
  /-- The bytes of a payload are counted in 64 bits. -/
  size_lt : 4 * payloadFields + 4 * tokens.length + logits.length + 8 * e.layerCount.toNat +
    ((List.range e.layerCount.toNat).map tensor).flatten.length < 2 ^ 64

namespace KvState

variable {e : Engine} {v : KvState e}

/-- A session of this layout holds some layers. -/
structure Holds (v : KvState e) (l : Layout) (layers : List Nat) : Prop where
  sized : v.Sized e l layers
  tokenCount : l.tokenCount = UInt32.ofNat v.tokens.length

/-- The payload of the session, in a layout. -/
def payload (v : KvState e) (l : Layout) : Bytes :=
  putWords (sessionHeader l) ++ (putWords v.tokens ++ (v.logits ++
    (putWords ((List.range l.nLayers.toNat).map v.nComp) ++
      (putWords ((List.range l.nLayers.toNat).map v.nIndexComp) ++ v.tensors (List.range l.nLayers.toNat)))))

theorem payload_length {l : Layout} (hlayers : l.nLayers = e.layerCount) : (v.payload l).length < 2 ^ 64 := by
  have hlt := v.size_lt
  have hfields : payloadFields = 13 := rfl
  simp only [payload, Rows.tensors, List.length_append, putWords_length, List.length_map, List.length_range, hlayers]
  simp only [sessionHeader, List.length_cons, List.length_nil]
  omega

theorem payload_inj {l l' : Layout} (h : v.payload l = v.payload l') : l = l' := by
  have hheader : sessionHeader l = sessionHeader l' := putWords_inj rfl h
  simp only [sessionHeader, List.cons.injEq, and_true, true_and] at hheader
  obtain ⟨h1, h2, h3, h4, h5, h6, h7, h8, h9, h10, h11⟩ := hheader
  cases l
  cases l'
  simp_all

/-! ## Saving -/

/-- The shards that the parties of a route save, each of the layout of its own session. -/
def shardFiles (v : KvState e) (c : Coordinator) (entries : List RouteEntry) (layout : Nat → Layout) (k : Nat) :
    Except String Bytes :=
  match (routeShards c entries)[k]? with
  | some r => .ok (v.layerPayload (layout k) r.1 r.2)
  | none => .error ""

/-- Every party of a route holds its layers. -/
def HeldBy (v : KvState e) (c : Coordinator) (entries : List RouteEntry) (layout : Nat → Layout) : Prop :=
  ∀ i (hi : i < (routeShards c entries).length),
    v.Holds (layout i) (layerRange (routeShards c entries)[i].1 (routeShards c entries)[i].2)

/-- The parties of a route have one layout. -/
def OneLayout (c : Coordinator) (entries : List RouteEntry) (layout : Nat → Layout) (l : Layout) : Prop :=
  ∀ i < (routeShards c entries).length, layout i = l

section Saving

variable {c : Coordinator} {entries : List RouteEntry} {layout : Nat → Layout} {l : Layout}

theorem shardFiles_eq (i : Nat) (hi : i < (routeShards c entries).length) : v.shardFiles c entries layout (0 + i) =
    .ok (v.layerPayload (layout (0 + i)) (routeShards c entries)[i].1 (routeShards c entries)[i].2) := by
  rw [shardFiles, Nat.zero_add, List.getElem?_eq_getElem hi]

theorem HeldBy.sized (hlayers : c.nLayers = e.layerCount) (hroute : routeValidate c entries = .ok ())
    (hheld : v.HeldBy c entries layout) (hone : OneLayout c entries layout l) : ∀ r ∈ routeShards c entries,
      v.Sized e l (layerRange r.1 r.2) ∧ r.1 ≤ r.2 ∧ r.2 < l.nLayers := by
  intro r hr
  obtain ⟨i, hi, rfl⟩ := List.getElem_of_mem hr
  have hsized := (hheld i hi).sized
  rw [hone i hi] at hsized
  obtain ⟨hle, hlt⟩ := (routeValidate_ok hroute).1 _ hr
  exact ⟨hsized, hle, by rw [hsized.nLayers_eq, ← hlayers]; exact hlt⟩

theorem HeldBy.first (hheld : v.HeldBy c entries layout) (hone : OneLayout c entries layout l) :
    l.nLayers = e.layerCount ∧ l.vocab = e.vocabSize ∧ rawLiveValid e l = true ∧
      l.tokenCount = UInt32.ofNat v.tokens.length := by
  have hfirst := hheld 0 (Nat.succ_pos _)
  rw [hone 0 (Nat.succ_pos _)] at hfirst
  exact ⟨hfirst.sized.nLayers_eq, hfirst.sized.vocab_eq, hfirst.sized.rawLive, hfirst.tokenCount⟩

/-- **A session is saved** as the same bytes on every valid route whose parties have this layout. -/
theorem savePayload_eq (hlayers : c.nLayers = e.layerCount) (hroute : routeValidate c entries = .ok ())
    (hheld : v.HeldBy c entries layout) (hone : OneLayout c entries layout l) :
    savePayload e c entries (v.shardFiles c entries layout) v.tokens v.logits = .ok (v.payload l) := by
  have hall := (routeValidate_ok hroute).2
  obtain ⟨hnLayers, hvocab, -, hcount⟩ := hheld.first hone
  have honefrom : ∀ i < (routeShards c entries).length, layout (0 + i) = l := by
    intro i hi
    rw [Nat.zero_add]
    exact hone i hi
  obtain ⟨shards, hgather, htensors⟩ := @Rows.gatherShards_eq e v.toRows l (v.shardFiles c entries layout) layout
    (routeShards c entries) 0 (.start e) (hheld.sized hlayers hroute hone) rfl nofun honefrom shardFiles_eq
  have hne : routeShards c entries ≠ [] := List.cons_ne_nil _ _
  simp only [if_neg hne, Gather.start] at hgather
  rw [hall, hlayers, ← hnLayers] at hgather htensors
  have hok : ¬(true = false ∨ l.tokenCount ≠ UInt32.ofNat v.tokens.length ∨ l.nLayers ≠ c.nLayers ∨
      l.vocab ≠ e.vocabSize) := by
    rw [hlayers, hnLayers, hvocab, ← hcount]
    simp
  have hcounts : ∀ f : Nat → UInt32, (List.range l.nLayers.toNat).map
      (fill (fun _ => 0) f (List.range l.nLayers.toNat)) = (List.range l.nLayers.toNat).map f :=
    fun f => List.map_congr_left fun il hil => fill_eq hil
  rw [savePayload, hroute, except_ok_bind]
  simp only [Gather.start, hgather, except_ok_bind, if_neg hok, hcounts, htensors]
  rfl

/-- **A session is not saved** on a route whose parties have different layouts. -/
theorem savePayload_differs (hlayers : c.nLayers = e.layerCount) (hroute : routeValidate c entries = .ok ())
    (hheld : v.HeldBy c entries layout) (hnot : ¬OneLayout c entries layout (layout 0)) :
    savePayload e c entries (v.shardFiles c entries layout) v.tokens v.logits =
      .error "distributed KV shards use different layouts" := by
  have hsized : ∀ i (hi : i < (routeShards c entries).length),
      v.Sized e (layout i) (layerRange (routeShards c entries)[i].1 (routeShards c entries)[i].2) ∧
        (routeShards c entries)[i].1 ≤ (routeShards c entries)[i].2 ∧
          (routeShards c entries)[i].2 < (layout i).nLayers := by
    intro i hi
    have hheld := (hheld i hi).sized
    obtain ⟨hle, hlt⟩ := (routeValidate_ok hroute).1 _ (List.getElem_mem hi)
    exact ⟨hheld, hle, by rw [hheld.nLayers_eq, ← hlayers]; exact hlt⟩
  have hfile := @shardFiles_eq e v c entries layout
  rw [OneLayout] at hnot
  push Not at hnot
  obtain ⟨i, hi, hne⟩ := hnot
  rw [savePayload, hroute, except_ok_bind]
  suffices hgather : gatherShards e (v.shardFiles c entries layout) (routeShards c entries) 0 (.start e) =
      .error "distributed KV shards use different layouts" by
    rw [hgather]
    rfl
  -- The first party sets the layout; a later one does not match it.
  rw [routeShards] at hsized hfile hi ⊢
  have hfirst := hfile 0 (Nat.succ_pos _)
  have hhead := hsized 0 (Nat.succ_pos _)
  replace hfirst : v.shardFiles c entries layout 0 = .ok (v.layerPayload (layout 0) c.localStart c.localEnd) := hfirst
  replace hhead : v.Sized e (layout 0) (layerRange c.localStart c.localEnd) ∧ c.localStart ≤ c.localEnd ∧
    c.localEnd < (layout 0).nLayers := hhead
  have hparse := @Rows.parse_header v.toRows e (layout 0) c.localStart c.localEnd hhead.1 hhead.2 (.start e) rfl
  rw [if_neg fun h => Bool.false_ne_true h.1] at hparse
  rw [gatherShards, hfirst, except_ok_bind]
  simp only [if_neg (Rows.layerPayload_ne_nil v.toRows (layout 0) c.localStart c.localEnd), hparse, except_ok_bind]
  rw [Rows.gatherShards_differs (d := v.toRows) (k := 1) ?_ hhead.1.vocab_eq rfl ?_ (Rows.shardFile_tail hfile)]
  · rfl
  · intro i hi
    rw [Nat.add_comm]
    exact hsized (i + 1) (by simpa using hi)
  · cases i with
    | zero => exact absurd rfl hne
    | succ i =>
      refine ⟨i, by simpa using hi, ?_⟩
      rw [Nat.add_comm]
      exact hne

end Saving

/-! ## Loading -/

theorem readTokens_whole {tokens : List UInt32} (h : ∀ t ∈ tokens, t < e.vocabSize) (r : Bytes) :
    readTokens e tokens.length (Source.whole (putWords tokens ++ r)) = .ok (tokens, Source.whole r) := by
  induction tokens with
  | nil => rfl
  | cons t tokens ih =>
    have hcons : putWords (t :: tokens) ++ r = put32 t ++ (putWords tokens ++ r) := List.append_assoc ..
    have ht := h t (List.mem_cons_self ..)
    have hlt := UInt32.lt_iff_toNat_lt.mp ht
    have hvocab := e.vocab_lt
    have hok : ¬(2 ^ 31 - 1 < t.toNat ∨ e.vocabSize ≤ t) := by
      rw [not_or]
      exact ⟨by omega, UInt32.not_le.mpr ht⟩
    rw [List.length_cons, readTokens, hcons, Source.readU32_whole, except_ok_bind]
    simp only [if_neg hok, ih fun t' ht' => h t' (List.mem_cons_of_mem _ ht'), except_ok_bind]

/-- The rows of all layers, as sessions of this layout hold them. -/
structure Full (v : KvState e) (l : Layout) : Prop where
  nLayers_eq : l.nLayers = e.layerCount
  vocab_eq : l.vocab = e.vocabSize
  rawLive : rawLiveValid e l = true
  tokenCount : l.tokenCount = UInt32.ofNat v.tokens.length
  nComp_le : ∀ il ∈ List.range l.nLayers.toNat, v.nComp il ≤ l.compCap
  nIndexComp_le : ∀ il ∈ List.range l.nLayers.toNat, v.nIndexComp il ≤ l.compCap
  tensor_size : ∀ il ∈ List.range l.nLayers.toNat,
    layerTensorBytes e l il (v.nComp il) (v.nIndexComp il) = some (v.tensor il).length

theorem HeldBy.full {c : Coordinator} {entries : List RouteEntry} {layout : Nat → Layout} {l : Layout}
    (hlayers : c.nLayers = e.layerCount) (hroute : routeValidate c entries = .ok ())
    (hheld : v.HeldBy c entries layout) (hone : OneLayout c entries layout l) : v.Full l := by
  obtain ⟨hnLayers, hvocab, hraw, hcount⟩ := hheld.first hone
  have hsized := hheld.sized hlayers hroute hone
  have hmem : ∀ il ∈ List.range l.nLayers.toNat, ∃ r ∈ routeShards c entries, il ∈ layerRange r.1 r.2 := by
    rw [hnLayers, ← hlayers, ← (routeValidate_ok hroute).2]
    exact fun il hil => List.mem_flatMap.mp hil
  refine ⟨hnLayers, hvocab, hraw, hcount, ?_, ?_, ?_⟩ <;> intro il hil <;> obtain ⟨r, hr, hin⟩ := hmem il hil
  · exact (hsized r hr).1.nComp_le il hin
  · exact (hsized r hr).1.nIndexComp_le il hin
  · exact (hsized r hr).1.tensor_size il hin

/-- What the payload of the session says in front of its tensors. -/
def head (v : KvState e) (l : Layout) : Head :=
  ⟨l, v.tokens, v.logits, fill (fun _ => 0) v.nComp (List.range l.nLayers.toNat),
    fill (fun _ => 0) v.nIndexComp (List.range l.nLayers.toNat)⟩

/-- The front of a payload is read back by a session with room for it, and by no other. -/
theorem readHead_payload {c : Coordinator} {l : Layout} {ctx : UInt32} (hfull : v.Full l)
    (hlayers : c.nLayers = e.layerCount) (hctx : l.ctx ≤ ctx) :
    readHead e c ctx (Source.whole (v.payload l)) =
      if l.tokenCount < ctx then .ok (v.head l, Source.whole (v.tensors (List.range l.nLayers.toNat)))
      else .error "DS4 KV payload does not match current distributed runtime" := by
  have hwords := Source.readWords_whole (sessionHeader l) (putWords v.tokens ++ (v.logits ++
    (putWords ((List.range l.nLayers.toNat).map v.nComp) ++
      (putWords ((List.range l.nLayers.toNat).map v.nIndexComp) ++ v.tensors (List.range l.nLayers.toNat)))))
  have hpayload : v.payload l = putWords (sessionHeader l) ++ (putWords v.tokens ++ (v.logits ++
    (putWords ((List.range l.nLayers.toNat).map v.nComp) ++
      (putWords ((List.range l.nLayers.toNat).map v.nIndexComp) ++
        v.tensors (List.range l.nLayers.toNat))))) := rfl
  have hmagic : ¬(payloadMagic ≠ payloadMagic ∨ payloadVersion ≠ payloadVersion) := by decide
  have hbad : (l.nLayers ≠ c.nLayers ∨ ctx < l.ctx ∨ ctx ≤ l.tokenCount ∨ l.vocab ≠ e.vocabSize ∨
      rawLiveValid e l = false) ↔ ¬l.tokenCount < ctx := by
    rw [hlayers, hfull.nLayers_eq, hfull.vocab_eq, hfull.rawLive]
    simp [UInt32.not_lt.mpr hctx]
  have htokens := @readTokens_whole e v.tokens v.tokens_lt
  have hcount : l.tokenCount.toNat = v.tokens.length := by
    rw [hfull.tokenCount, UInt32.toNat_ofNat_of_lt' v.tokens_length]
  have hlogits : v.logits.length = l.vocab.toNat * 4 := by rw [hfull.vocab_eq, v.logits_length]
  have hcomp := @readCounts_whole l.compCap "DS4 KV payload has invalid compressed row count" v.nComp
    (List.range l.nLayers.toNat) hfull.nComp_le (fun _ => 0)
  have hindex := @readCounts_whole l.compCap "DS4 KV payload has invalid indexer row count" v.nIndexComp
    (List.range l.nLayers.toNat) hfull.nIndexComp_le (fun _ => 0)
  rw [readHead, hpayload, show payloadFields = (sessionHeader l).length from rfl, hwords, except_ok_bind]
  simp only [sessionHeader, List.getD_cons_zero, List.getD_cons_succ, if_neg hmagic, hbad]
  by_cases hroom : l.tokenCount < ctx
  · rw [if_neg (not_not.mpr hroom), if_pos hroom]
    simp only [hcount, htokens, except_ok_bind, Source.read_whole hlogits, hcomp, hindex]
    rfl
  · rw [if_pos hroom, if_neg hroom]

end KvState

/-- How far a file can be read. -/
def Source.avail (s : Source) : Nat := min s.remaining s.file.length

/-- Bytes are read over. -/
def Source.skip (s : Source) (n : Nat) : Source := ⟨s.file.drop n, s.remaining - n⟩

theorem Source.skip_skip (s : Source) (n m : Nat) : (s.skip n).skip m = s.skip (n + m) := by
  rw [skip, skip, skip]
  simp only [List.drop_drop, Nat.sub_sub]

theorem Source.avail_skip (s : Source) (n : Nat) : (s.skip n).avail = s.avail - n := by
  simp only [avail, skip, List.length_drop]
  omega

theorem Source.read_eq {s : Source} {n : Nat} (h : n ≤ s.avail) : s.read n = .ok (s.file.take n, s.skip n) := by
  have hle : n ≤ s.remaining ∧ n ≤ s.file.length := Nat.le_min.mp h
  rw [read, if_neg (Nat.not_lt.mpr hle.1), if_neg (Nat.not_lt.mpr hle.2)]
  rfl

theorem Source.read_error {s : Source} {n : Nat} (h : ¬n ≤ s.avail) : ∃ text, s.read n = .error text := by
  rw [read]
  split_ifs with hremaining hfile
  · exact ⟨_, rfl⟩
  · exact ⟨_, rfl⟩
  · exact absurd (Nat.le_min.mpr ⟨Nat.not_lt.mp hremaining, Nat.not_lt.mp hfile⟩) h

section Cutting

variable {e : Engine} {h : Head}

/-- The bytes of some layers of a payload. -/
def Head.size (e : Engine) (h : Head) (layers : List Nat) : Option Nat :=
  tensorBytes e h.layout h.nComp h.nIndexComp layers

theorem Head.size_cons (il : Nat) (layers : List Nat) : h.size e (il :: layers) =
    (layerTensorBytes e h.layout il (h.nComp il) (h.nIndexComp il)).bind fun n => (h.size e layers).map (n + ·) := by
  rw [size, tensorBytes]
  cases layerTensorBytes e h.layout il (h.nComp il) (h.nIndexComp il) with
  | none => rfl
  | some n => cases hrest : tensorBytes e h.layout h.nComp h.nIndexComp layers <;> simp [size, hrest]

theorem Head.size_append (a b : List Nat) : h.size e (a ++ b) =
    (h.size e a).bind fun n => (h.size e b).map (n + ·) := by
  induction a with
  | nil =>
    have hnil : h.size e [] = some 0 := rfl
    rw [List.nil_append, hnil]
    cases h.size e b <;> simp
  | cons il a ih =>
    rw [List.cons_append, size_cons, size_cons, ih]
    cases layerTensorBytes e h.layout il (h.nComp il) (h.nIndexComp il) <;> cases h.size e a <;>
      cases h.size e b <;> simp [Nat.add_assoc]

theorem copyTensors_spec (layers : List Nat) (s : Source) :
    (∃ n, h.size e layers = some n ∧ n ≤ s.avail ∧ copyTensors e h layers s = .ok (s.file.take n, s.skip n)) ∨
      (∀ n, h.size e layers = some n → ¬n ≤ s.avail) ∧ ∃ text, copyTensors e h layers s = .error text := by
  induction layers generalizing s with
  | nil => exact Or.inl ⟨0, rfl, Nat.zero_le _, rfl⟩
  | cons il layers ih =>
    rw [copyTensors, Head.size_cons]
    cases hsize : layerTensorBytes e h.layout il (h.nComp il) (h.nIndexComp il) with
    | none => exact Or.inr ⟨nofun, _, rfl⟩
    | some n =>
      dsimp only [Option.bind_some]
      by_cases hn : n ≤ s.avail
      · rw [Source.read_eq hn, except_ok_bind]
        have havail := s.avail_skip n
        rcases ih (s.skip n) with ⟨m, hm, hle, hcopy⟩ | ⟨hnot, text, hcopy⟩
        · left
          refine ⟨n + m, by rw [hm]; rfl, by omega, ?_⟩
          rw [hcopy, except_ok_bind, Source.skip_skip]
          simp only [Source.skip, List.take_add]
        · right
          refine ⟨?_, text, by rw [hcopy]; rfl⟩
          intro m hm hle
          obtain ⟨m', hm', rfl⟩ := Option.map_eq_some_iff.mp hm
          exact hnot m' hm' (by omega)
      · right
        obtain ⟨text, htext⟩ := Source.read_error hn
        refine ⟨?_, text, by rw [htext]; rfl⟩
        intro m hm hle
        obtain ⟨m', hm', rfl⟩ := Option.map_eq_some_iff.mp hm
        omega

theorem prepareShard_spec (layerStart layerEnd : UInt32) (s : Source) :
    (∃ n, h.size e (layerRange layerStart layerEnd) = some n ∧ n ≤ s.avail ∧
        prepareShard e h layerStart layerEnd s =
          .ok (writeLayerHeader h.layout layerStart layerEnd h.nComp h.nIndexComp ++ s.file.take n, s.skip n)) ∨
      (∀ n, h.size e (layerRange layerStart layerEnd) = some n → ¬n ≤ s.avail) ∧
        ∃ text, prepareShard e h layerStart layerEnd s = .error text := by
  rcases @copyTensors_spec e h (layerRange layerStart layerEnd) s with ⟨n, hn, hle, hcopy⟩ | ⟨hnot, text, hcopy⟩
  · left
    exact ⟨n, hn, hle, by rw [prepareShard, hcopy]; rfl⟩
  · right
    exact ⟨hnot, text, by rw [prepareShard, hcopy]; rfl⟩

end Cutting

/-! ## The parties -/

/-- The coordinator hears that a party has taken its shard. -/
def Answer.Heard (a : Answer) (k : Nat) : Prop := a.taking = .taken ∧ (k = 0 ∨ a.lost = none)

section Parties

variable {e : Engine} {h : Head} {answer : Nat → Answer} {ranges : List (UInt32 × UInt32)} {k : Nat} {s : Source}
  {w : World}

/-- The tensors of the first shards are there, up to one. -/
def Reaches (e : Engine) (h : Head) (ranges : List (UInt32 × UInt32)) (s : Source) (i : Nat) : Prop :=
  ∃ n, h.size e (shardLayers (ranges.take (i + 1))) = some n ∧ n ≤ s.avail

/-- A party takes its shard: it is there, the parties before have taken theirs, and this one does. -/
structure Takes (e : Engine) (h : Head) (answer : Nat → Answer) (ranges : List (UInt32 × UInt32)) (k : Nat)
    (s : Source) (i : Nat) : Prop where
  lt : i < ranges.length
  reaches : Reaches e h ranges s i
  before : ∀ j < i, (answer (k + j)).Heard (k + j)
  taken : (answer (k + i)).taking = .taken

/-- The file of a shard. -/
def sentFile (e : Engine) (h : Head) (ranges : List (UInt32 × UInt32)) (s : Source) (i : Nat) : Bytes :=
  match ranges[i]? with
  | none => []
  | some r => writeLayerHeader h.layout r.1 r.2 h.nComp h.nIndexComp ++
      ((s.skip ((h.size e (shardLayers (ranges.take i))).getD 0)).file.take
        ((h.size e (layerRange r.1 r.2)).getD 0))

/-- What a party holds that has taken its shard. -/
def installed (e : Engine) (h : Head) (ranges : List (UInt32 × UInt32)) (s : Source) (i : Nat) (old : Slice) : Slice :=
  match ranges[i]? with
  | none => old
  | some r => old.take e h.tokens r.1 r.2 (sentFile e h ranges s i)

theorem reaches_cons {r : UInt32 × UInt32} {n : Nat} (hn : h.size e (layerRange r.1 r.2) = some n)
    (hle : n ≤ s.avail) (i : Nat) : Reaches e h (r :: ranges) s (i + 1) ↔ Reaches e h ranges (s.skip n) i := by
  have hcons : shardLayers ((r :: ranges).take (i + 1 + 1)) =
      layerRange r.1 r.2 ++ shardLayers (ranges.take (i + 1)) := rfl
  have havail := s.avail_skip n
  rw [Reaches, Reaches, hcons, Head.size_append, hn, Option.bind_some]
  constructor
  · rintro ⟨m, hm, hlem⟩
    obtain ⟨m', hm', rfl⟩ := Option.map_eq_some_iff.mp hm
    exact ⟨m', hm', by omega⟩
  · rintro ⟨m, hm, hlem⟩
    exact ⟨n + m, by rw [hm]; rfl, by omega⟩

theorem not_reaches {r : UInt32 × UInt32} (hnot : ∀ n, h.size e (layerRange r.1 r.2) = some n → ¬n ≤ s.avail)
    (i : Nat) : ¬Reaches e h (r :: ranges) s i := by
  rintro ⟨m, hm, hle⟩
  have hcons : shardLayers ((r :: ranges).take (i + 1)) = layerRange r.1 r.2 ++ shardLayers (ranges.take i) := rfl
  rw [hcons, Head.size_append] at hm
  obtain ⟨n, hn, hm⟩ := Option.bind_eq_some_iff.mp hm
  obtain ⟨m', -, rfl⟩ := Option.map_eq_some_iff.mp hm
  exact hnot n hn (by omega)

theorem sentFile_cons {r : UInt32 × UInt32} {n : Nat} (hn : h.size e (layerRange r.1 r.2) = some n) (i : Nat) :
    sentFile e h (r :: ranges) s (i + 1) = sentFile e h ranges (s.skip n) i ∨
      h.size e (shardLayers (ranges.take i)) = none := by
  cases hsize : h.size e (shardLayers (ranges.take i)) with
  | none => exact Or.inr rfl
  | some m =>
    left
    have hcons : shardLayers ((r :: ranges).take (i + 1)) = layerRange r.1 r.2 ++ shardLayers (ranges.take i) := rfl
    simp only [sentFile, List.getElem?_cons_succ, hcons, Head.size_append, hn, hsize, Option.bind_some,
      Option.map_some, Option.getD_some, Source.skip_skip]

/-- A party with the shard that was sent to it. -/
def World.give (w : World) (e : Engine) (tokens : List UInt32) (k : Nat) (r : UInt32 × UInt32) (file : Bytes) :
    World := { w with slices := Function.update w.slices k ((w.slices k).take e tokens r.1 r.2 file) }

theorem installShards_heard {r : UInt32 × UInt32} {file : Bytes} {s' : Source}
    (hprep : prepareShard e h r.1 r.2 s = .ok (file, s')) (hheard : (answer k).Heard k) :
    installShards e h answer (r :: ranges) k s w =
      installShards e h answer ranges (k + 1) s' (w.give e h.tokens k r file) := by
  obtain ⟨htaken, hlost⟩ := hheard
  simp only [installShards, hprep, htaken]
  cases k with
  | zero => rfl
  | succ k =>
    have hnone : (answer (k + 1)).lost = none := hlost.resolve_left (Nat.succ_ne_zero k)
    simp only [hnone]
    rfl

theorem installShards_lost {r : UInt32 × UInt32} {file : Bytes} {s' : Source}
    (hprep : prepareShard e h r.1 r.2 s = .ok (file, s')) (htaken : (answer k).taking = .taken)
    (hnot : ¬(answer k).Heard k) :
    ∃ text, installShards e h answer (r :: ranges) k s w = (.error text, w.give e h.tokens k r file) := by
  simp only [installShards, hprep, htaken]
  cases k with
  | zero => exact absurd ⟨htaken, Or.inl rfl⟩ hnot
  | succ k =>
    cases hlost : (answer (k + 1)).lost with
    | none => exact absurd ⟨htaken, Or.inr hlost⟩ hnot
    | some text => exact ⟨text, rfl⟩

/-- What the shards of a payload come to. -/
structure Installs (e : Engine) (h : Head) (answer : Nat → Answer) (ranges : List (UInt32 × UInt32)) (k : Nat)
    (s : Source) (w : World) (out : Except String Source × World) : Prop where
  taken : ∀ i, Takes e h answer ranges k s i →
    out.2.slices (k + i) = installed e h ranges s i (w.slices (k + i))
  kept : ∀ j, (∀ i, Takes e h answer ranges k s i → j ≠ k + i) →
    out.2.slices j = w.slices j ∨ (out.2.slices j).valid = false
  before : ∀ j < k, out.2.slices j = w.slices j
  logits : out.2.logits = w.logits
  ok_iff : ∀ s', out.1 = .ok s' ↔ (∀ i < ranges.length, (answer (k + i)).Heard (k + i)) ∧
    ∃ n, h.size e (shardLayers ranges) = some n ∧ n ≤ s.avail ∧ s' = s.skip n

theorem takes_zero {r : UInt32 × UInt32} {n : Nat} (hn : h.size e (layerRange r.1 r.2) = some n) (hle : n ≤ s.avail)
    (htaken : (answer k).taking = .taken) : Takes e h answer (r :: ranges) k s 0 where
  lt := Nat.succ_pos _
  reaches := by
    have hone : shardLayers ((r :: ranges).take (0 + 1)) = layerRange r.1 r.2 := by simp [shardLayers]
    exact ⟨n, by rw [hone]; exact hn, hle⟩
  before := nofun
  taken := htaken

theorem takes_succ {r : UInt32 × UInt32} {n : Nat} (hn : h.size e (layerRange r.1 r.2) = some n) (hle : n ≤ s.avail)
    (hheard : (answer k).Heard k) (i : Nat) :
    Takes e h answer (r :: ranges) k s (i + 1) ↔ Takes e h answer ranges (k + 1) (s.skip n) i := by
  have hindex : ∀ j, k + 1 + j = k + (j + 1) := fun j => by omega
  constructor
  · intro ht
    refine ⟨by simpa using ht.lt, (reaches_cons hn hle i).mp ht.reaches, fun j hj => ?_, ?_⟩
    · rw [hindex]
      exact ht.before (j + 1) (by omega)
    · rw [hindex]
      exact ht.taken
  · intro ht
    refine ⟨by simpa using ht.lt, (reaches_cons hn hle i).mpr ht.reaches, fun j hj => ?_, ?_⟩
    · cases j with
      | zero => exact hheard
      | succ j =>
        rw [← hindex]
        exact ht.before j (by omega)
    · rw [← hindex]
      exact ht.taken

theorem installed_zero {r : UInt32 × UInt32} {n : Nat} (hn : h.size e (layerRange r.1 r.2) = some n) (old : Slice) :
    installed e h (r :: ranges) s 0 old = old.take e h.tokens r.1 r.2
      (writeLayerHeader h.layout r.1 r.2 h.nComp h.nIndexComp ++ s.file.take n) := by
  have hnil : h.size e (shardLayers []) = some 0 := rfl
  simp [installed, sentFile, hn, hnil, Source.skip]

theorem installed_succ {r : UInt32 × UInt32} {n : Nat} (hn : h.size e (layerRange r.1 r.2) = some n) {i : Nat}
    (ht : Takes e h answer ranges (k + 1) (s.skip n) i) (old : Slice) :
    installed e h (r :: ranges) s (i + 1) old = installed e h ranges (s.skip n) i old := by
  obtain ⟨m, hm, -⟩ := ht.reaches
  have htake : ranges.take (i + 1) = ranges.take i ++ [ranges.get ⟨i, ht.lt⟩] := (List.take_append_getElem ht.lt).symm
  rw [installed, installed, List.getElem?_cons_succ]
  rcases @sentFile_cons e h ranges s r n hn i with heq | hnone
  · rw [heq]
  · rw [htake, shardLayers, List.flatMap_append] at hm
    rw [shardLayers] at hnone
    rw [Head.size_append, hnone] at hm
    cases hm

theorem installs_stop {r : UInt32 × UInt32} {text : String} {w' : World}
    (hnone : ∀ i, ¬Takes e h answer (r :: ranges) k s i)
    (hnot : ¬((answer k).Heard k ∧ ∃ n, h.size e (layerRange r.1 r.2) = some n ∧ n ≤ s.avail))
    (hkept : ∀ j, w'.slices j = w.slices j ∨ (w'.slices j).valid = false)
    (hbefore : ∀ j < k, w'.slices j = w.slices j) (hlogits : w'.logits = w.logits) :
    Installs e h answer (r :: ranges) k s w (.error text, w') where
  taken := fun i hi => absurd hi (hnone i)
  kept := fun j _ => hkept j
  before := hbefore
  logits := hlogits
  ok_iff := by
    refine fun s' => ⟨nofun, ?_⟩
    rintro ⟨hheard, m, hm, hle, -⟩
    have hcons : shardLayers (r :: ranges) = layerRange r.1 r.2 ++ shardLayers ranges := rfl
    rw [hcons, Head.size_append] at hm
    obtain ⟨n, hn, hm⟩ := Option.bind_eq_some_iff.mp hm
    obtain ⟨m', -, rfl⟩ := Option.map_eq_some_iff.mp hm
    exact absurd ⟨hheard 0 (Nat.succ_pos _), n, hn, by omega⟩ hnot

theorem installs_lost {r : UInt32 × UInt32} {text : String} {w' : World}
    (hzero : Takes e h answer (r :: ranges) k s 0) (hnot : ¬(answer k).Heard k)
    (hself : w'.slices k = installed e h (r :: ranges) s 0 (w.slices k))
    (hother : ∀ j, j ≠ k → w'.slices j = w.slices j) (hlogits : w'.logits = w.logits) :
    Installs e h answer (r :: ranges) k s w (.error text, w') where
  taken := by
    intro i hi
    cases i with
    | zero => exact hself
    | succ i => exact absurd (hi.before 0 (Nat.succ_pos i)) hnot
  kept := fun j hj => Or.inl (hother j (hj 0 hzero))
  before := fun j hj => hother j (Nat.ne_of_lt hj)
  logits := hlogits
  ok_iff := fun s' => ⟨nofun, fun hall => absurd (hall.1 0 (Nat.succ_pos _)) hnot⟩

theorem installs_heard {r : UInt32 × UInt32} {n : Nat} {w' : World} {out : Except String Source × World}
    (hn : h.size e (layerRange r.1 r.2) = some n) (hle : n ≤ s.avail) (hheard : (answer k).Heard k)
    (hself : w'.slices k = installed e h (r :: ranges) s 0 (w.slices k))
    (hother : ∀ j, j ≠ k → w'.slices j = w.slices j) (hlogits : w'.logits = w.logits)
    (hrest : Installs e h answer ranges (k + 1) (s.skip n) w' out) :
    Installs e h answer (r :: ranges) k s w out where
  taken := by
    intro i hi
    cases i with
    | zero => exact (hrest.before k (Nat.lt_succ_self k)).trans hself
    | succ i =>
      have hi' := (takes_succ hn hle hheard i).mp hi
      have htook := hrest.taken i hi'
      rw [show k + 1 + i = k + (i + 1) by omega, hother _ (by omega)] at htook
      rw [htook, installed_succ hn hi']
  kept := by
    intro j hj
    have hjk : j ≠ k := hj 0 (takes_zero hn hle hheard.1)
    rw [← hother j hjk]
    refine hrest.kept j fun i hi => ?_
    have hne := hj (i + 1) ((takes_succ hn hle hheard i).mpr hi)
    omega
  before := fun j hj => (hrest.before j (by omega)).trans (hother j (Nat.ne_of_lt hj))
  logits := hrest.logits.trans hlogits
  ok_iff := by
    have hcons : shardLayers (r :: ranges) = layerRange r.1 r.2 ++ shardLayers ranges := rfl
    have havail := s.avail_skip n
    intro s'
    rw [hrest.ok_iff, hcons, Head.size_append, hn, Option.bind_some]
    constructor
    · rintro ⟨hall, m, hm, hlem, rfl⟩
      refine ⟨fun i hi => ?_, n + m, by rw [hm]; rfl, by omega, s.skip_skip n m⟩
      cases i with
      | zero => exact hheard
      | succ i =>
        rw [show k + (i + 1) = k + 1 + i by omega]
        exact hall i (by simpa using hi)
    · rintro ⟨hall, m, hm, hlem, rfl⟩
      obtain ⟨m', hm', rfl⟩ := Option.map_eq_some_iff.mp hm
      refine ⟨fun i hi => ?_, m', hm', by omega, (s.skip_skip n m').symm⟩
      rw [show k + 1 + i = k + (i + 1) by omega]
      exact hall (i + 1) (by simpa using hi)

theorem installs (ranges : List (UInt32 × UInt32)) (k : Nat) (s : Source) (w : World) :
    Installs e h answer ranges k s w (installShards e h answer ranges k s w) := by
  induction ranges generalizing k s w with
  | nil =>
    constructor
    · intro i hi
      exact absurd hi.lt (Nat.not_lt_zero i)
    · exact fun j _ => Or.inl rfl
    · exact fun j _ => rfl
    · rfl
    · intro s'
      constructor
      · intro hok
        obtain rfl := Except.ok.inj hok
        exact ⟨nofun, 0, rfl, Nat.zero_le _, rfl⟩
      · rintro ⟨-, n, hn, -, rfl⟩
        obtain rfl := Option.some.inj hn
        rfl
  | cons r rest ih =>
    rcases @prepareShard_spec e h r.1 r.2 s with ⟨n, hn, hle, hprep⟩ | ⟨hnot, text, hprep⟩
    · by_cases htaken : (answer k).taking = .taken
      · have hzero := @takes_zero e h answer rest k s r n hn hle htaken
        have hself : (w.give e h.tokens k r
            (writeLayerHeader h.layout r.1 r.2 h.nComp h.nIndexComp ++ s.file.take n)).slices k =
              installed e h (r :: rest) s 0 (w.slices k) := by
          rw [installed_zero hn]
          exact Function.update_self k _ _
        have hother : ∀ j, j ≠ k → (w.give e h.tokens k r
            (writeLayerHeader h.layout r.1 r.2 h.nComp h.nIndexComp ++ s.file.take n)).slices j = w.slices j :=
          fun j hj => Function.update_of_ne hj _ _
        by_cases hheard : (answer k).Heard k
        · rw [installShards_heard hprep hheard]
          exact installs_heard hn hle hheard hself hother rfl (ih _ _ _)
        · obtain ⟨text, hlost⟩ := @installShards_lost e h answer rest k s w r _ _ hprep htaken hheard
          rw [hlost]
          exact installs_lost hzero hheard hself hother rfl
      · have hnone : ∀ i, ¬Takes e h answer (r :: rest) k s i := by
          intro i hi
          cases i with
          | zero => exact htaken hi.taken
          | succ i => exact htaken (hi.before 0 (Nat.succ_pos i)).1
        have hnot : ¬((answer k).Heard k ∧ ∃ n, h.size e (layerRange r.1 r.2) = some n ∧ n ≤ s.avail) :=
          fun hboth => htaken hboth.1.1
        simp only [installShards, hprep]
        cases hcase : (answer k).taking with
        | refused text => exact installs_stop hnone hnot (fun j => Or.inl rfl) (fun j _ => rfl) rfl
        | broken text =>
          refine installs_stop hnone hnot (fun j => ?_) (fun j hj => ?_) rfl
          · by_cases hj : j = k
            · subst hj
              right
              simp [Slice.broken]
            · exact Or.inl (Function.update_of_ne hj _ _)
          · exact Function.update_of_ne (Nat.ne_of_lt hj) _ _
        | taken => exact absurd hcase htaken
    · simp only [installShards, hprep]
      exact installs_stop (fun i hi => not_reaches hnot i hi.reaches) (fun hboth => by
        obtain ⟨-, n, hn, hle⟩ := hboth
        exact hnot n hn hle) (fun j => Or.inl rfl) (fun j _ => rfl) rfl

end Parties

end Ds4.Dist
