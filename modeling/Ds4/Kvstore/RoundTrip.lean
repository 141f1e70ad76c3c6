import Ds4.Kvstore.Entry

/-!
# The round trip of a checkpoint file

`writeEntryImages_data` is the layout of a written file: `headerBytes`, the text with its length, the
image list, the payload and the trailer. `RoundTrip` says that the loader reads back what was
written. A digest of 0 stands for no digest, so a payload whose digest is 0 is written and then
refused; and a reason code that is none of `ds4_kvstore_reason` is read as unknown. Apart from these
every file is read back (`roundTrip_iff`).
-/

namespace Ds4.Kvstore

open Ds4.Lib

/-! ## The layout -/

/-- The header of a finished file. -/
def headerBytes (g : Process) (a : HeaderArgs) (abi : UInt8) (payloadBytes hash : UInt64) : Bytes :=
  [75, 86, 67, 2, a.quantBits, a.reason, a.extFlags, a.modelId] ++ put32 a.tokens ++ put32 a.hits ++
    put32 a.ctxSize ++ [abi, 0, 0, 0] ++ put64 a.createdAt ++ put64 a.lastUsed ++
    put64 payloadBytes ++ put64 g.identity ++ put64 g.canary ++ put64 hash ++ List.replicate 8 0

example (g : Process) (a : HeaderArgs) : (headerBytes g a 2 0 0).take 4 = lit "KVC" ++ [2] := by
  simp [headerBytes, show lit "KVC" = [75, 86, 67] by decide]

section Layout

variable (g : Process) (a : HeaderArgs) (abi abi' : UInt8) (pb pb' hash hash' : UInt64)

theorem fillHeader_eq : fillHeader g a = headerBytes g a 2 a.payloadBytes 0 := by
  have : put64 0 = List.replicate 8 0 := by decide
  simp [fillHeader, headerBytes, this]

@[simp] theorem headerBytes_length : (headerBytes g a abi pb hash).length = 80 := by
  simp [headerBytes]

theorem patch_abi : patch (headerBytes g a abi pb hash) 20 [abi'] = headerBytes g a abi' pb hash := by
  have := patch_over (a := [75, 86, 67, 2, a.quantBits, a.reason, a.extFlags, a.modelId] ++
    put32 a.tokens ++ put32 a.hits ++ put32 a.ctxSize) (x := [abi]) (y := [abi'])
    (c := [0, 0, 0] ++ put64 a.createdAt ++ put64 a.lastUsed ++ put64 pb ++ put64 g.identity ++
      put64 g.canary ++ put64 hash ++ List.replicate 8 0) rfl
  simpa [headerBytes] using this

theorem patch_payloadBytes :
    patch (headerBytes g a abi pb hash) 40 (put64 pb') = headerBytes g a abi pb' hash := by
  have := patch_over (a := [75, 86, 67, 2, a.quantBits, a.reason, a.extFlags, a.modelId] ++
    put32 a.tokens ++ put32 a.hits ++ put32 a.ctxSize ++ [abi, 0, 0, 0] ++ put64 a.createdAt ++
    put64 a.lastUsed) (x := put64 pb) (y := put64 pb')
    (c := put64 g.identity ++ put64 g.canary ++ put64 hash ++ List.replicate 8 0) (by simp)
  simpa [headerBytes] using this

theorem patch_hash (r : Bytes) :
    patch (headerBytes g a abi pb hash ++ r) 64 (put64 hash') =
      headerBytes g a abi pb hash' ++ r := by
  have := patch_over (a := [75, 86, 67, 2, a.quantBits, a.reason, a.extFlags, a.modelId] ++
    put32 a.tokens ++ put32 a.hits ++ put32 a.ctxSize ++ [abi, 0, 0, 0] ++ put64 a.createdAt ++
    put64 a.lastUsed ++ put64 pb ++ put64 g.identity ++ put64 g.canary) (x := put64 hash)
    (y := put64 hash') (c := List.replicate 8 0 ++ r) (by simp)
  simpa [headerBytes] using this

theorem get_payloadBytes : get64 ((headerBytes g a abi pb hash).drop 40) = pb := by
  simp [headerBytes, List.drop_append]

theorem headerBytes_getD :
    (headerBytes g a abi pb hash).getD 3 0 = 2 ∧ (headerBytes g a abi pb hash).getD 4 0 = a.quantBits ∧
      (headerBytes g a abi pb hash).getD 5 0 = a.reason ∧
      (headerBytes g a abi pb hash).getD 6 0 = a.extFlags ∧
      (headerBytes g a abi pb hash).getD 7 0 = a.modelId := by
  simp only [headerBytes, List.append_assoc, List.cons_append, List.getD_cons_succ,
    List.getD_cons_zero, and_self]

theorem headerBytes_abi : (headerBytes g a abi pb hash).getD 20 0 = abi := by
  simp only [headerBytes, put32, List.append_assoc, List.cons_append, List.nil_append,
    List.getD_cons_succ, List.getD_cons_zero]

theorem headerEntry_headerBytes (tb : UInt32) :
    headerEntry g (headerBytes g a abi pb hash) tb =
      { version := 2
        quantBits := a.quantBits
        reason := if a.reason ≤ 6 then a.reason else 0
        extFlags := a.extFlags
        modelId := a.modelId
        tokens := a.tokens
        hits := a.hits
        ctxSize := a.ctxSize
        createdAt := a.createdAt
        lastUsed := a.lastUsed
        payloadBytes := pb
        images := abi == 3
        identity := g.identity
        canary := g.canary
        payloadHash := hash
        textBytes := tb.toUInt64
        refusal := refusalOf g 2 abi (abi == 3) g.identity g.canary } := by
  have h8 : get32 ((headerBytes g a abi pb hash).drop 8) = a.tokens := by
    simp [headerBytes, List.drop_append]
  have h12 : get32 ((headerBytes g a abi pb hash).drop 12) = a.hits := by
    simp [headerBytes, List.drop_append]
  have h16 : get32 ((headerBytes g a abi pb hash).drop 16) = a.ctxSize := by
    simp [headerBytes, List.drop_append]
  have h24 : get64 ((headerBytes g a abi pb hash).drop 24) = a.createdAt := by
    simp [headerBytes, List.drop_append]
  have h32 : get64 ((headerBytes g a abi pb hash).drop 32) = a.lastUsed := by
    simp [headerBytes, List.drop_append]
  have h48 : get64 ((headerBytes g a abi pb hash).drop 48) = g.identity := by
    simp [headerBytes, List.drop_append]
  have h56 : get64 ((headerBytes g a abi pb hash).drop 56) = g.canary := by
    simp [headerBytes, List.drop_append]
  have h64 : get64 ((headerBytes g a abi pb hash).drop 64) = hash := by
    simp [headerBytes, List.drop_append]
  obtain ⟨g3, g4, g5, g6, g7⟩ := headerBytes_getD g a abi pb hash
  have g20 := headerBytes_abi g a abi pb hash
  have hv : ((2 : UInt8) != 1) = true := by decide
  simp only [headerEntry, h8, h12, h16, h24, h32, get_payloadBytes, h48, h56, h64, g3, g4, g5, g6,
    g7, g20, hv, if_true, Bool.true_and]

end Layout

theorem refusalOf_own (g : Process) {abi : UInt8} (h : abi = 2 ∨ abi = 3) :
    refusalOf g 2 abi (abi == 3) g.identity g.canary = none := by
  rcases h with rfl | rfl <;> simp [refusalOf]

theorem parseHeader_headerBytes {g : Process} {a : HeaderArgs} {abi : UInt8} {pb hash : UInt64}
    {tb : UInt32} {r : Bytes} {f : File} (ht : a.tokens ≠ 0)
    (hq : quantBitsSupported a.quantBits = true)
    (hf : f.rest = headerBytes g a abi pb hash ++ (put32 tb ++ r)) :
    ∃ f', parseHeader g f = some (headerEntry g (headerBytes g a abi pb hash) tb, tb, f') ∧
      f'.rest = r ∧ f'.data = f.data := by
  have hsplit : f.rest = (headerBytes g a abi pb hash).take 4 ++
      ((headerBytes g a abi pb hash).drop 4 ++ (put32 tb ++ r)) := by
    rw [hf, ← List.append_assoc ((headerBytes g a abi pb hash).take 4), List.take_append_drop]
  have hl4 : ((headerBytes g a abi pb hash).take 4).length = 4 := by simp
  have hl76 : ((headerBytes g a abi pb hash).drop 4).length = 76 := by simp
  obtain ⟨h4, hrest4, -⟩ := File.read_of_rest hsplit
  rw [hl4] at h4 hrest4
  obtain ⟨h76, hrest76, -⟩ := File.read_of_rest hrest4
  rw [hl76] at h76 hrest76
  obtain ⟨htb, hrest, -⟩ := File.read_of_rest hrest76
  rw [put32_length] at htb hrest
  have hmagic : ((headerBytes g a abi pb hash).take 4).take 3 = [75, 86, 67] := rfl
  have hversion : ((headerBytes g a abi pb hash).take 4).getD 3 0 = 2 := rfl
  have hentry := headerEntry_headerBytes g a abi pb hash tb
  refine ⟨_, ?_, hrest, rfl⟩
  unfold parseHeader
  simp only [h4, hl4, hmagic, hversion, ne_eq, not_true_eq_false, if_false,
    show ¬ ((2 : UInt8) = 1) by decide, not_false_eq_true, and_false, Nat.reduceSub, h76, hl76, htb,
    put32_length, List.take_append_drop, get32_put32_self]
  rw [if_pos ⟨by rw [hentry]; exact ht, by rw [hentry]; exact hq⟩]

/-! ## The image list -/

@[simp] theorem encodeImage_length (im : Image) : (encodeImage im).length = 48 := by
  simp [encodeImage]

theorem decodeImage_encodeImage (im : Image) : decodeImage (encodeImage im) = im := by
  have h0 : get32 (encodeImage im) = im.textOffset := by simp [encodeImage]
  have h4 : get32 ((encodeImage im).drop 4) = im.textLen := by simp [encodeImage, List.drop_append]
  have h8 : get32 ((encodeImage im).drop 8) = im.tokenStart := by
    simp [encodeImage, List.drop_append]
  have h12 : get32 ((encodeImage im).drop 12) = im.tokenCount := by
    simp [encodeImage, List.drop_append]
  have hfp : (Vector.ofFn fun i : Fin 32 => (encodeImage im).getD (16 + i) 0) = im.fingerprint := by
    ext i hi
    have : (encodeImage im).getD (16 + i) 0 = im.fingerprint.toList.getD i 0 := by
      unfold encodeImage
      rw [List.getD_eq_getElem?_getD, List.getElem?_append_right (by simp)]
      simp
    simp only [Vector.getElem_ofFn, this]
    simp [hi]
  simp only [decodeImage, h0, h4, h8, h12, hfp]

theorem readRecords_encode {v : List Image} {f : File} {r : Bytes}
    (h : f.rest = v.flatMap encodeImage ++ r) :
    ∃ f', readRecords v.length f = some (v, f') ∧ f'.rest = r := by
  induction v generalizing f with
  | nil => exact ⟨f, rfl, h⟩
  | cons im v ih =>
    rw [List.flatMap_cons, List.append_assoc] at h
    obtain ⟨hread, hrest, -⟩ := File.read_of_rest h
    rw [encodeImage_length] at hread hrest
    obtain ⟨f', hf', hr⟩ := ih hrest
    refine ⟨f', ?_, hr⟩
    simp only [List.length_cons, readRecords, hread, encodeImage_length, ne_eq, not_true_eq_false,
      if_false, hf', Option.map_some, decodeImage_encodeImage]

theorem encodeImages_length (im : Images) : (encodeImages im).length = 24 + im.v.length * 48 := by
  have hlit : (lit "KVIM").length = 4 := by decide
  have hrec : (im.v.flatMap encodeImage).length = im.v.length * 48 := by
    rw [List.length_flatMap, List.map_congr_left fun a _ => encodeImage_length a]
    simp
  simp only [encodeImages, List.length_append, hlit, put32_length, put64_length, hrec]

theorem readImages_encode {im : Images} (hok : ImagesOk im) (hne : im.v ≠ []) {f : File} {r : Bytes}
    {pb : UInt64} (hpb : 24 + im.v.length * 48 ≤ pb.toNat) (h : f.rest = encodeImages im ++ r) :
    ∃ f', readImages f pb = some (24 + im.v.length * 48, im, f') ∧ f'.rest = r := by
  have hle := hok.length_le
  have hpos : 0 < im.v.length := List.length_pos_iff.mpr hne
  set front := lit "KVIM" ++ put32 1 ++ put32 (UInt32.ofNat im.v.length) ++ put32 0 ++
    put64 im.encoder with hfront
  have hsplit : f.rest = front ++ (im.v.flatMap encodeImage ++ r) := by
    rw [h, encodeImages, ← hfront, List.append_assoc]
  have hl : front.length = 24 := by
    simp [hfront, show (lit "KVIM").length = 4 by decide]
  obtain ⟨hread, hrest, -⟩ := File.read_of_rest hsplit
  rw [hl] at hread hrest
  obtain ⟨f', hf', hr⟩ := readRecords_encode hrest
  have hk : lit "KVIM" = [75, 86, 73, 77] := by decide
  have h0 : front.take 4 = lit "KVIM" := by simp [hfront, hk]
  have h4 : get32 (front.drop 4) = 1 := by simp [hfront, hk]
  have h8 : get32 (front.drop 8) = UInt32.ofNat im.v.length := by
    simp [hfront, hk, List.drop_append]
  have h12 : get32 (front.drop 12) = 0 := by simp [hfront, hk, List.drop_append]
  have h16 : get64 (front.drop 16) = im.encoder := by simp [hfront, hk, List.drop_append]
  have hcount : (UInt32.ofNat im.v.length).toNat = im.v.length := by
    simp; omega
  have hpb' : ¬ pb < 24 := by
    rw [UInt64.lt_iff_toNat_lt]
    simp; omega
  refine ⟨f', ?_, hr⟩
  unfold readImages
  simp only [hread, hl, h0, h4, h8, h12, h16, hcount, hf', hpb', ne_eq, not_true_eq_false, or_self,
    if_false]
  rw [if_neg (by omega), if_neg (by omega), if_pos ⟨hok.encoder, hok.wellFormed⟩]

/-! ## The payload -/

theorem verifyLoop_spec {f : File} {p r : Bytes} (h : f.rest = p ++ r) (s : Hash) :
    verifyLoop f s p.length = (hashUpdate s p, 0) := by
  induction hn : p.length using Nat.strong_induction_on generalizing f p s with
  | _ n ih =>
    subst hn
    unfold verifyLoop
    by_cases h0 : p.length = 0
    · rw [if_pos h0, List.length_eq_zero_iff.mp h0, hashUpdate_nil]
    · rw [if_neg h0]
      have hchunk : 0 < hashChunk := by decide
      have hsplit : f.rest = p.take hashChunk ++ (p.drop hashChunk ++ r) := by
        rw [h, ← List.append_assoc, List.take_append_drop]
      obtain ⟨hread, hrest, -⟩ := File.read_of_rest hsplit
      rw [List.length_take, Nat.min_comm] at hread hrest
      simp only [hread, List.length_take, Nat.min_comm hashChunk, ne_eq, not_true_eq_false, if_false]
      have hlen : p.length - min p.length hashChunk = (p.drop hashChunk).length := by
        rw [List.length_drop]; omega
      rw [hlen, ih _ (by rw [List.length_drop]; omega) hrest _ rfl, hashUpdate_append,
        List.take_append_drop]

theorem verifyLoop_short {f : File} {n : Nat} (h : f.rest.length < n) (s : Hash) :
    (verifyLoop f s n).2 ≠ 0 := by
  induction n using Nat.strong_induction_on generalizing f s with
  | _ n ih =>
    have hchunk : 0 < hashChunk := by decide
    unfold verifyLoop
    rw [if_neg (by omega)]
    simp only
    split
    · omega
    next hread =>
      simp only [File.read, List.length_take, ne_eq, not_not] at hread
      refine ih _ (by omega) ?_ _
      rw [File.rest_read, List.length_drop]
      omega

theorem verifyPayload_ok {f f' : File} {e : Entry} (h : verifyPayload f e = .ok f') :
    f' = f ∧ e.payloadBytes.toNat ≤ f.rest.length ∧
      payloadHash (f.rest.take e.payloadBytes.toNat) = e.payloadHash := by
  unfold verifyPayload at h
  simp only at h
  split_ifs at h with h0 hleft hhash
  obtain rfl : f.seek f.pos = f' := by simpa using h
  have hle : e.payloadBytes.toNat ≤ f.rest.length := by
    by_contra hlt
    exact hleft (verifyLoop_short (not_le.mp hlt) hashInit)
  have hloop := verifyLoop_spec
    (List.take_append_drop e.payloadBytes.toNat f.rest).symm hashInit
  rw [List.length_take, Nat.min_eq_left hle] at hloop
  rw [hloop, not_not] at hhash
  exact ⟨rfl, hle, hhash⟩

theorem copyLoop_spec {src : File} {p r : Bytes} (h : src.rest = p ++ r) (d : Bytes) (s : Hash) :
    copyLoop src (File.written d) s p.length = some (File.written (d ++ p), hashUpdate s p) := by
  induction hn : p.length using Nat.strong_induction_on generalizing src p d s with
  | _ n ih =>
    subst hn
    unfold copyLoop
    by_cases h0 : p.length = 0
    · rw [if_pos h0, List.length_eq_zero_iff.mp h0, hashUpdate_nil, List.append_nil]
    · rw [if_neg h0]
      have hchunk : 0 < hashChunk := by decide
      have hsplit : src.rest = p.take hashChunk ++ (p.drop hashChunk ++ r) := by
        rw [h, ← List.append_assoc, List.take_append_drop]
      obtain ⟨hread, hrest, -⟩ := File.read_of_rest hsplit
      rw [List.length_take, Nat.min_comm] at hread hrest
      simp only [hread, List.length_take, Nat.min_comm hashChunk, ne_eq, not_true_eq_false, if_false]
      have hlen : p.length - min p.length hashChunk = (p.drop hashChunk).length := by
        rw [List.length_drop]; omega
      rw [hlen, File.write_written, ih _ (by rw [List.length_drop]; omega) hrest _ _ rfl,
        hashUpdate_append, List.append_assoc, List.take_append_drop]

/-! ## Writing and reading back -/

/-- What a caller stores: a header with tokens and a supported quantization whose payload size is
the staged one, a text that fits its length field, and no images or an accepted list. -/
structure Checkpoint where
  args : HeaderArgs
  text : Bytes
  images : Option Images
  staged : Option Staged
  hook : Option TrailerWrite
  trailer : Bytes
  tokens_ne : args.tokens ≠ 0
  quant_ok : quantBitsSupported args.quantBits = true
  text_lt : text.length < 2 ^ 32
  images_ok : ∀ im, images = some im → im.v ≠ [] → ImagesOk im
  staged_whole : ∀ st, staged = some st → st.bytes.toNat = st.content.length
  payload_bytes : args.payloadBytes.toNat = ((staged.map (·.content)).getD []).length
  payload_lt : ((staged.map (·.content)).getD []).length < 2 ^ 63
  trailer_eq : trailerWrite hook text = some trailer

namespace Checkpoint

variable (g : Process) (c : Checkpoint)

/-- The staged payload. -/
def payload : Bytes := (c.staged.map (·.content)).getD []

/-- The image list in front of it. -/
def list : Bytes :=
  match c.images with
  | none => []
  | some im => if im.v = [] then [] else encodeImages im

/-- The digest of the payload with its list. -/
def digest : UInt64 := payloadHash (c.list ++ c.payload)

/-- The payload size of the file. -/
def fileBytes : UInt64 := c.args.payloadBytes + UInt64.ofNat (imagesBytes c.images)

/-- The payload ABI of the file. -/
def abi : UInt8 := if imagesBytes c.images = 0 then 2 else 3

/-- The content of the file. -/
def data : Bytes :=
  headerBytes g c.args c.abi c.fileBytes c.digest ++
    (put32 (UInt32.ofNat c.text.length) ++ (c.text ++ (c.list ++ (c.payload ++ c.trailer))))

/-- The entry that a reader should get. -/
def entry : Entry :=
  { version := 2
    quantBits := c.args.quantBits
    reason := c.args.reason
    extFlags := c.args.extFlags
    modelId := c.args.modelId
    tokens := c.args.tokens
    hits := c.args.hits
    ctxSize := c.args.ctxSize
    createdAt := c.args.createdAt
    lastUsed := c.args.lastUsed
    payloadBytes := c.fileBytes
    images := decide (imagesBytes c.images ≠ 0)
    identity := g.identity
    canary := g.canary
    payloadHash := c.digest
    textBytes := UInt64.ofNat c.text.length
    refusal := none }

theorem list_length : c.list.length = imagesBytes c.images := by
  unfold list imagesBytes
  cases c.images with
  | none => rfl
  | some im =>
    simp only
    split
    · rfl
    · exact encodeImages_length im

theorem imagesBytes_le : imagesBytes c.images ≤ 792 := by
  unfold imagesBytes
  cases him : c.images with
  | none => simp
  | some im =>
    simp only
    split
    · omega
    next hne =>
      have := (c.images_ok im him hne).length_le
      omega

theorem fileBytes_toNat : c.fileBytes.toNat = (c.list ++ c.payload).length := by
  have h1 := c.imagesBytes_le
  have h2 := c.payload_lt
  have h3 := c.payload_bytes
  have h4 : c.payload.length < 2 ^ 63 := h2
  have h5 : c.args.payloadBytes.toNat = c.payload.length := h3
  rw [List.length_append, list_length, fileBytes, UInt64.toNat_add, UInt64.toNat_ofNat', h5]
  omega

theorem entryFront_eq :
    entryFront (fillHeader g c.args) c.images =
      .ok (headerBytes g c.args c.abi c.fileBytes 0, c.list) := by
  unfold entryFront abi fileBytes list
  cases him : c.images with
  | none =>
    simp [imagesBytes, fillHeader_eq]
  | some im =>
    by_cases hne : im.v = []
    · simp [imagesBytes, hne, fillHeader_eq]
    · have hok := c.images_ok im him hne
      have hb : imagesBytes (some im) ≠ 0 := by simp [imagesBytes, hne]
      simp only [hb, if_false, hne, hok.wellFormed, hok.encoder, Bool.true_eq_false, or_self,
        fillHeader_eq, patch_abi, patch_payloadBytes, get_payloadBytes]

theorem writePayload_eq (d : Bytes) :
    writePayload c.staged (File.written d) (hashUpdate hashInit c.list) =
      .ok (File.written (d ++ c.payload), c.digest) := by
  unfold digest payload payloadHash writePayload
  cases hst : c.staged with
  | none => simp
  | some st =>
    have hrest : (File.open' st.content).rest = st.content ++ [] := by simp
    simp only [copyStagedHashed, c.staged_whole st hst, copyLoop_spec hrest, Option.map_some,
      Option.getD_some, hashUpdate_append]

/-- **Layout.** The content of a written file. -/
theorem writeEntryImages_data :
    ∃ f, writeEntryImages File.empty (fillHeader g c.args) c.text c.images c.staged c.hook =
        .ok (f, c.trailer.length, c.digest) ∧ f.data = c.data g := by
  have hempty : File.empty = File.written [] := rfl
  refine ⟨((File.written (headerBytes g c.args c.abi c.fileBytes 0 ++
    put32 (UInt32.ofNat c.text.length) ++ c.text ++ c.list ++ c.payload ++ c.trailer)).seek 64).write
      (put64 c.digest), ?_, ?_⟩
  · unfold writeEntryImages
    simp only [entryFront_eq, hempty, File.write_written, List.nil_append, writePayload_eq,
      c.trailer_eq]
  · have := patch_hash g c.args c.abi c.fileBytes 0 c.digest
      (put32 (UInt32.ofNat c.text.length) ++ (c.text ++ (c.list ++ (c.payload ++ c.trailer))))
    simpa only [File.write, File.seek, File.written, data, List.append_assoc] using this

/-- The loader reads back what was written: the fields, the text behind them, a payload that
verifies, the same list, and then the staged payload. -/
def RoundTrip (d : Bytes) : Prop :=
  ∃ f, parseHeader g (File.open' d) = some (c.entry g, UInt32.ofNat c.text.length, f) ∧
    (f.read c.text.length).1 = c.text ∧
    verifyPayload (f.read c.text.length).2 (c.entry g) = .ok (f.read c.text.length).2 ∧
    (imagesBytes c.images = 0 → (f.read c.text.length).2.rest = c.payload ++ c.trailer) ∧
    ∀ im, c.images = some im → im.v ≠ [] →
      ∃ f', readImages (f.read c.text.length).2 c.fileBytes = some (imagesBytes c.images, im, f') ∧
        f'.rest = c.payload ++ c.trailer

theorem abi_images : (c.abi == 3) = decide (imagesBytes c.images ≠ 0) := by
  unfold abi
  by_cases h : imagesBytes c.images = 0 <;> simp [h]

theorem parse_data :
    ∃ f, parseHeader g (File.open' (c.data g)) =
        some ({ c.entry g with reason := if c.args.reason ≤ 6 then c.args.reason else 0 },
          UInt32.ofNat c.text.length, f) ∧
      f.rest = c.text ++ (c.list ++ (c.payload ++ c.trailer)) := by
  obtain ⟨f, hf, hrest, -⟩ := parseHeader_headerBytes (g := g) (a := c.args)
    (f := File.open' (c.data g)) c.tokens_ne c.quant_ok rfl
  refine ⟨f, ?_, hrest⟩
  have habi : c.abi = 2 ∨ c.abi = 3 := by
    unfold abi
    split <;> simp
  have htb : (UInt32.ofNat c.text.length).toUInt64 = UInt64.ofNat c.text.length := by
    have := c.text_lt
    apply UInt64.toNat_inj.mp
    simp only [UInt32.toNat_toUInt64, UInt32.toNat_ofNat', UInt64.toNat_ofNat']
    omega
  rw [hf, headerEntry_headerBytes, refusalOf_own g habi, abi_images, htb]
  rfl

/-- Verification refuses exactly the digest that stands for no digest. -/
theorem verify_data {f : File} (hf : f.rest = c.list ++ (c.payload ++ c.trailer)) {e : Entry}
    (hb : e.payloadBytes = c.fileBytes) (hh : e.payloadHash = c.digest) :
    verifyPayload f e =
      if c.digest = 0 then .error (lit "entry records no payload hash") else .ok f := by
  rw [← List.append_assoc] at hf
  unfold verifyPayload
  rw [hb, hh, fileBytes_toNat, verifyLoop_spec hf]
  split
  · rfl
  · simp only [ne_eq, not_true_eq_false, if_false]
    exact if_neg (not_not.mpr rfl)

theorem readImages_data {f : File} (hf : f.rest = c.list ++ (c.payload ++ c.trailer)) {im : Images}
    (him : c.images = some im) (hne : im.v ≠ []) :
    ∃ f', readImages f c.fileBytes = some (imagesBytes c.images, im, f') ∧
      f'.rest = c.payload ++ c.trailer := by
  have hlist : c.list = encodeImages im := by simp [list, him, hne]
  have hbytes : imagesBytes c.images = 24 + im.v.length * 48 := by simp [imagesBytes, him, hne]
  rw [hlist] at hf
  rw [hbytes]
  refine readImages_encode (c.images_ok im him hne) hne ?_ hf
  rw [fileBytes_toNat, List.length_append, list_length, hbytes]
  omega

/-- **Round trip.** Every checkpoint is written, and the loader reads it back exactly when its reason
is one of `ds4_kvstore_reason` and its digest is not the one that stands for no digest. -/
theorem roundTrip_iff :
    ∃ f, writeEntryImages File.empty (fillHeader g c.args) c.text c.images c.staged c.hook =
        .ok (f, c.trailer.length, c.digest) ∧
      (c.RoundTrip g f.data ↔ c.args.reason ≤ 6 ∧ c.digest ≠ 0) := by
  obtain ⟨f, hw, hdata⟩ := c.writeEntryImages_data g
  refine ⟨f, hw, ?_⟩
  rw [hdata]
  obtain ⟨f₁, hparse, hrest⟩ := c.parse_data g
  obtain ⟨htext, hrest', -⟩ := File.read_of_rest hrest
  unfold RoundTrip
  rw [hparse]
  constructor
  · rintro ⟨f₂, h, -, hverify, -⟩
    obtain ⟨he, rfl⟩ := by simpa only [Option.some.injEq, Prod.mk.injEq, true_and] using h
    refine ⟨?_, fun h0 => ?_⟩
    · have hreason : (if c.args.reason ≤ 6 then c.args.reason else 0) = c.args.reason :=
        congrArg Entry.reason he
      by_contra hle
      rw [if_neg hle] at hreason
      exact hle (by rw [← hreason]; decide)
    · rw [c.verify_data hrest' rfl rfl, if_pos h0] at hverify
      cases hverify
  · rintro ⟨hreason, hdigest⟩
    refine ⟨f₁, ?_, htext, ?_, fun h0 => ?_, fun im him hne => c.readImages_data hrest' him hne⟩
    · rw [if_pos hreason]
      rfl
    · rw [c.verify_data hrest' rfl rfl, if_neg hdigest]
    · have : c.list = [] := List.length_eq_zero_iff.mp (by rw [list_length, h0])
      rw [hrest', this, List.nil_append]

end Checkpoint

/-- A payload of eight bytes whose digest is 0. -/
def zeroDigestPayload : Bytes := [253, 136, 150, 251, 89, 30, 64, 191]

/-- A checkpoint with that payload. -/
def zeroDigest : Checkpoint where
  args := ⟨0, 2, 1, 0, 600, 0, 32768, 100, 100, 8⟩
  text := lit "hello"
  images := none
  staged := some ⟨zeroDigestPayload, 8⟩
  hook := none
  trailer := []
  tokens_ne := by decide
  quant_ok := by decide
  text_lt := by decide
  images_ok := by simp
  staged_whole := by
    rintro st ⟨⟩
    decide
  payload_bytes := by decide
  payload_lt := by decide
  trailer_eq := rfl

/-- The file is written, its header is readable and not refused, and its payload is refused. -/
theorem zeroDigest_refused :
    ∃ f e f₁, writeEntryImages File.empty (fillHeader ⟨1, 1⟩ zeroDigest.args) (lit "hello") none
        (some ⟨zeroDigestPayload, 8⟩) none = .ok (f, 0, 0) ∧
      parseHeader ⟨1, 1⟩ (File.open' f.data) = some (e, 5, f₁) ∧ e.refusal = none ∧
      (f₁.read 5).1 = lit "hello" ∧
      verifyPayload (f₁.read 5).2 e = .error (lit "entry records no payload hash") := by
  have hzero : zeroDigest.digest = 0 := by decide
  obtain ⟨f, hw, hdata⟩ := zeroDigest.writeEntryImages_data ⟨1, 1⟩
  obtain ⟨f₁, hparse, hrest⟩ := zeroDigest.parse_data ⟨1, 1⟩
  obtain ⟨htext, hrest', -⟩ := File.read_of_rest hrest
  have hlen : zeroDigest.text.length = 5 := by decide
  rw [hlen] at htext hrest' hparse
  rw [hzero] at hw
  refine ⟨f, _, f₁, hw, by rw [hdata]; exact hparse, rfl, htext, ?_⟩
  rw [zeroDigest.verify_data hrest' rfl rfl, if_pos hzero]

end Ds4.Kvstore
