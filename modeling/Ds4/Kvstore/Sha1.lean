import Ds4.Kvstore.Entry

/-!
# Entry names

An entry is named by the SHA-1 of its key text, followed by the identities of the images inside it
when there are any. `sha1Transform`, `sha1Update`, `sha1Final`, `hex20` and `entrySha` are the
functions of the source; `sha1Update` is an `Absorber` with blocks of 64 bytes, so the parts that
`entrySha` feeds are one byte string, `entryInput` (`entrySha_eq`), which determines the text and the
images inside it (`entryInput_inj`).
-/

namespace Ds4.Kvstore

open Ds4.Lib

/-! ## SHA-1 -/

/-- The five words of the state. -/
structure Sha1State where
  a : UInt32
  b : UInt32
  c : UInt32
  d : UInt32
  e : UInt32
deriving DecidableEq

/-- `rol32`. -/
def rol32 (v n : UInt32) : UInt32 := (v <<< n) ||| (v >>> (32 - n))

/-- A big-endian word. -/
def beWord (p : Bytes) : UInt32 :=
  ((p.getD 0 0).toUInt32 <<< 24) ||| ((p.getD 1 0).toUInt32 <<< 16) |||
    ((p.getD 2 0).toUInt32 <<< 8) ||| (p.getD 3 0).toUInt32

/-- The message schedule `w`. -/
def sha1Schedule (block : Bytes) : List UInt32 :=
  (List.range' 16 64).foldl
    (fun w i => w ++ [rol32 (w.getD (i - 3) 0 ^^^ w.getD (i - 8) 0 ^^^ w.getD (i - 14) 0 ^^^
      w.getD (i - 16) 0) 1])
    ((List.range 16).map fun i => beWord (block.drop (i * 4)))

/-- One of the eighty rounds. -/
def sha1Round (s : Sha1State) (i : Nat) (w : UInt32) : Sha1State :=
  let fk : UInt32 × UInt32 :=
    if i < 20 then ((s.b &&& s.c) ||| (~~~ s.b &&& s.d), 0x5a827999)
    else if i < 40 then (s.b ^^^ s.c ^^^ s.d, 0x6ed9eba1)
    else if i < 60 then ((s.b &&& s.c) ||| (s.b &&& s.d) ||| (s.c &&& s.d), 0x8f1bbcdc)
    else (s.b ^^^ s.c ^^^ s.d, 0xca62c1d6)
  ⟨rol32 s.a 5 + fk.1 + s.e + fk.2 + w, s.a, rol32 s.b 30, s.c, s.d⟩

/-- `sha1_transform`. -/
def sha1Transform (h : Sha1State) (block : Bytes) : Sha1State :=
  let s := (sha1Schedule block).zipIdx.foldl (fun s x => sha1Round s x.2 x.1) h
  ⟨h.a + s.a, h.b + s.b, h.c + s.c, h.d + s.d, h.e + s.e⟩

/-- `sha1_ctx`; `used` is the length of `block`. -/
structure Sha1Ctx where
  h : Sha1State
  bytes : UInt64
  block : Bytes
  used_lt : block.length < 64

/-- `sha1_init`. -/
def sha1Init : Sha1Ctx :=
  ⟨⟨0x67452301, 0xefcdab89, 0x98badcfe, 0x10325476, 0xc3d2e1f0⟩, 0, [], by decide⟩

/-- The loop of `sha1_update`. -/
def sha1Loop (c : Sha1Ctx) (p : Bytes) : Sha1Ctx :=
  if hp : p = [] then c
  else
    let n := min (64 - c.block.length) p.length
    if h : (c.block ++ p.take n).length = 64 then
      sha1Loop ⟨sha1Transform c.h (c.block ++ p.take n), c.bytes, [], by decide⟩ (p.drop n)
    else
      sha1Loop ⟨c.h, c.bytes, c.block ++ p.take n, by
        have := c.used_lt
        simp only [List.length_append, List.length_take] at h ⊢
        omega⟩ (p.drop n)
termination_by p.length
decreasing_by
  all_goals
    have := c.used_lt
    have := List.length_pos_iff.mpr hp
    simp only [List.length_drop]
    omega

/-- `sha1_update`. -/
def sha1Update (c : Sha1Ctx) (p : Bytes) : Sha1Ctx :=
  sha1Loop ⟨c.h, c.bytes + UInt64.ofNat p.length, c.block, c.used_lt⟩ p

/-- The loop of `sha1_final` that pads with zeros to 56 bytes; it takes less than 64 rounds. -/
def sha1Pad : Nat → Sha1Ctx → Sha1Ctx
  | 0, c => c
  | n + 1, c => if c.block.length = 56 then c else sha1Pad n (sha1Update c [0])

/-- The four bytes of a big-endian word. -/
def beBytes (v : UInt32) : Bytes :=
  [(v >>> 24).toUInt8, (v >>> 16).toUInt8, (v >>> 8).toUInt8, v.toUInt8]

/-- `sha1_final`. -/
def sha1Final (c : Sha1Ctx) : Bytes :=
  let bits := c.bytes * 8
  let c := sha1Pad 64 (sha1Update c [0x80])
  let c := sha1Update c (put64 bits).reverse
  beBytes c.h.a ++ beBytes c.h.b ++ beBytes c.h.c ++ beBytes c.h.d ++ beBytes c.h.e

/-- A digit of `hex20`. -/
def hexDigit (v : UInt8) : UInt8 := (lit "0123456789abcdef").getD v.toNat 0

/-- `hex20`. -/
def hex20 (d : Bytes) : Bytes := d.flatMap fun (b : UInt8) => [hexDigit (b >>> 4), hexDigit (b &&& 15)]

/-- `ds4_kvstore_sha1_bytes_hex`. -/
def sha1BytesHex (p : Bytes) : Bytes := hex20 (sha1Final (sha1Update sha1Init p))

/-! ## The name of an entry -/

/-- The images of a list that start in front of `len`: the loop `inside` of the source. -/
def imagesInside (images : Option Images) (len : Nat) : List Image :=
  match images with
  | none => []
  | some im => im.v.takeWhile fun i => i.textOffset.toNat < len

/-- The identity of one image in a name. -/
def imageKey (im : Image) : Bytes :=
  put32 im.textOffset ++ put32 im.textLen ++ put32 im.tokenCount

/-- `ds4_kvstore_entry_sha` of the text. -/
def entrySha (text : Bytes) (images : Option Images) : Bytes :=
  let inside := imagesInside images text.length
  if inside = [] then sha1BytesHex text
  else
    let c := sha1Update sha1Init text
    let c := sha1Update c (0 :: lit "KVIM")
    let c := sha1Update c (put64 ((images.map (·.encoder)).getD 0))
    hex20 (sha1Final (inside.foldl
      (fun c im => sha1Update (sha1Update c (imageKey im)) im.fingerprint.toList) c))

/-! ## Updates absorb -/

/-- The state without the byte count. -/
def Sha1Ctx.abs (c : Sha1Ctx) : Absorber Sha1State := ⟨c.h, c.block⟩

theorem sha1Loop_spec (c : Sha1Ctx) (p : Bytes) :
    (sha1Loop c p).abs = Absorber.absorb 64 sha1Transform c.abs p ∧
      (sha1Loop c p).bytes = c.bytes := by
  fun_induction sha1Loop c p with
  | case1 c => exact ⟨rfl, rfl⟩
  | case2 c p hp n h ih =>
    have hlen : c.abs.buf.length + (p.take n).length = 64 := by simpa [Sha1Ctx.abs] using h
    have hne : p.take n ≠ [] := fun h0 => by
      have := c.used_lt
      rw [h0, List.append_nil] at h
      omega
    refine ⟨?_, ih.2⟩
    rw [ih.1]
    conv_rhs => rw [← List.take_append_drop n p]
    rw [Absorber.absorb_append, Absorber.absorb_block 64 sha1Transform hlen hne]
    rfl
  | case3 c p hp n h ih =>
    have hlen : c.abs.buf.length + (p.take n).length < 64 := by
      have := c.used_lt
      simp only [List.length_append, List.length_take] at h
      simp only [Sha1Ctx.abs, List.length_take]
      omega
    refine ⟨?_, ih.2⟩
    rw [ih.1]
    conv_rhs => rw [← List.take_append_drop n p]
    rw [Absorber.absorb_append, Absorber.absorb_fill 64 sha1Transform hlen]
    rfl

theorem sha1Ctx_ext {c d : Sha1Ctx} (h : c.abs = d.abs) (hb : c.bytes = d.bytes) : c = d := by
  obtain ⟨ch, cb, cbl, _⟩ := c
  obtain ⟨dh, db, dbl, _⟩ := d
  simp_all [Sha1Ctx.abs]

theorem sha1Update_spec (c : Sha1Ctx) (p : Bytes) :
    (sha1Update c p).abs = Absorber.absorb 64 sha1Transform c.abs p ∧
      (sha1Update c p).bytes = c.bytes + UInt64.ofNat p.length :=
  sha1Loop_spec ⟨c.h, c.bytes + UInt64.ofNat p.length, c.block, c.used_lt⟩ p

/-- **The split law of SHA-1.** -/
theorem sha1Update_append (c : Sha1Ctx) (p q : Bytes) :
    sha1Update (sha1Update c p) q = sha1Update c (p ++ q) := by
  obtain ⟨habs, hb⟩ := sha1Update_spec c p
  obtain ⟨habs', hb'⟩ := sha1Update_spec (sha1Update c p) q
  obtain ⟨habs'', hb''⟩ := sha1Update_spec c (p ++ q)
  refine sha1Ctx_ext ?_ ?_
  · rw [habs', habs, habs'', Absorber.absorb_append]
  · rw [hb', hb, hb'', List.length_append, UInt64.ofNat_add, add_assoc]

@[simp] theorem sha1Update_nil (c : Sha1Ctx) : sha1Update c [] = c := by
  obtain ⟨habs, hb⟩ := sha1Update_spec c []
  exact sha1Ctx_ext habs (by simpa using hb)

/-! ## What a name binds -/

/-- All that a name holds of one image. -/
def imageRecord (im : Image) : Bytes := imageKey im ++ im.fingerprint.toList

/-- The byte string that is hashed. -/
def entryInput (text : Bytes) (images : Option Images) : Bytes :=
  let inside := imagesInside images text.length
  text ++ if inside = [] then [] else
    0 :: lit "KVIM" ++ put64 ((images.map (·.encoder)).getD 0) ++
      inside.flatMap imageRecord

theorem foldl_sha1Update (c : Sha1Ctx) (v : List Image) :
    v.foldl (fun c im => sha1Update (sha1Update c (imageKey im)) im.fingerprint.toList) c =
      sha1Update c (v.flatMap imageRecord) := by
  induction v generalizing c with
  | nil => simp
  | cons im v ih =>
    rw [List.foldl_cons, ih, sha1Update_append, sha1Update_append, List.flatMap_cons, imageRecord,
      List.append_assoc]

theorem entrySha_eq (text : Bytes) (images : Option Images) :
    entrySha text images = sha1BytesHex (entryInput text images) := by
  unfold entrySha entryInput sha1BytesHex
  simp only
  split
  next h => rw [List.append_nil]
  next h => rw [foldl_sha1Update, sha1Update_append, sha1Update_append, sha1Update_append]; simp

/-- Two images with the same identity; their rows in the token history may differ. -/
structure SameImage (a b : Image) : Prop where
  textOffset : a.textOffset = b.textOffset
  textLen : a.textLen = b.textLen
  tokenCount : a.tokenCount = b.tokenCount
  fingerprint : a.fingerprint = b.fingerprint

@[simp] theorem imageRecord_length (im : Image) : (imageRecord im).length = 44 := by
  simp [imageRecord, imageKey]

theorem sameImage_of_record {a b : Image} (h : imageRecord a = imageRecord b) : SameImage a b := by
  obtain ⟨hkey, hfp⟩ := List.append_inj h (by simp [imageKey])
  have h0 := congrArg get32 hkey
  have h4 := congrArg (fun l => get32 (l.drop 4)) hkey
  have h8 := congrArg (fun l => get32 (l.drop 8)) hkey
  simp only [imageKey, List.append_assoc, get32_put32] at h0
  simp [imageKey, List.drop_append] at h4 h8
  exact ⟨h0, h4, h8, Vector.toList_inj.mp hfp⟩

theorem imageRecord_congr {a b : Image} (h : SameImage a b) : imageRecord a = imageRecord b := by
  simp only [imageRecord, imageKey, h.textOffset, h.textLen, h.tokenCount, h.fingerprint]

theorem flatMap_imageRecord {v w : List Image} :
    v.flatMap imageRecord = w.flatMap imageRecord ↔ List.Forall₂ SameImage v w := by
  constructor
  · intro h
    induction v generalizing w with
    | nil =>
      cases w with
      | nil => exact .nil
      | cons b w =>
        have := congrArg List.length h
        simp only [List.flatMap_nil, List.length_nil, List.flatMap_cons, List.length_append,
          imageRecord_length] at this
        omega
    | cons a v ih =>
      cases w with
      | nil =>
        have := congrArg List.length h
        simp only [List.flatMap_nil, List.length_nil, List.flatMap_cons, List.length_append,
          imageRecord_length] at this
        omega
      | cons b w =>
        obtain ⟨hab, hvw⟩ := List.append_inj h (by simp)
        exact .cons (sameImage_of_record hab) (ih hvw)
  · intro h
    induction h with
    | nil => rfl
    | cons hab _ ih => rw [List.flatMap_cons, List.flatMap_cons, ih, imageRecord_congr hab]

theorem text_of_entryInput {text : Bytes} (h : 0 ∉ text) (images : Option Images) :
    (entryInput text images).takeWhile (· != 0) = text := by
  unfold entryInput
  refine takeWhile_append_stop (fun a ha => by simpa using fun h0 : a = 0 => h (h0 ▸ ha)) ?_
  intro a ha
  split at ha
  · cases ha
  · obtain rfl : 0 = a := by simpa using ha
    rfl

/-- **A name binds its text and its images.** Equal inputs of NUL-free texts have the same text, and
the same images and encoder inside it. -/
theorem entryInput_inj {t t' : Bytes} {im im' : Option Images} (ht : 0 ∉ t) (ht' : 0 ∉ t')
    (h : entryInput t im = entryInput t' im') :
    t = t' ∧ List.Forall₂ SameImage (imagesInside im t.length) (imagesInside im' t.length) ∧
      (imagesInside im t.length ≠ [] →
        (im.map (·.encoder)).getD 0 = (im'.map (·.encoder)).getD 0) := by
  obtain rfl : t = t' := by
    rw [← text_of_entryInput ht im, h, text_of_entryInput ht' im']
  refine ⟨rfl, ?_⟩
  unfold entryInput at h
  simp only [List.append_cancel_left_eq] at h
  by_cases h0 : imagesInside im t.length = []
  · by_cases h0' : imagesInside im' t.length = []
    · rw [h0, h0']
      exact ⟨.nil, fun hne => absurd rfl hne⟩
    · rw [if_pos h0, if_neg h0'] at h
      cases h
  · by_cases h0' : imagesInside im' t.length = []
    · rw [if_neg h0, if_pos h0'] at h
      cases h
    · rw [if_neg h0, if_neg h0', List.append_assoc, List.append_assoc] at h
      obtain ⟨henc, hrec⟩ := List.append_inj (List.append_cancel_left h) (by simp)
      exact ⟨flatMap_imageRecord.1 hrec, fun _ => put64_inj henc⟩

theorem entryInput_congr {t : Bytes} {im im' : Option Images}
    (h : List.Forall₂ SameImage (imagesInside im t.length) (imagesInside im' t.length))
    (he : imagesInside im t.length ≠ [] →
      (im.map (·.encoder)).getD 0 = (im'.map (·.encoder)).getD 0) :
    entryInput t im = entryInput t im' := by
  unfold entryInput
  have hnil : imagesInside im t.length = [] ↔ imagesInside im' t.length = [] := by
    rw [← List.length_eq_zero_iff, ← List.length_eq_zero_iff, h.length_eq]
  by_cases h0 : imagesInside im t.length = []
  · simp only [if_pos h0, if_pos (hnil.mp h0)]
  · simp only [if_neg h0, if_neg fun h' => h0 (hnil.mpr h'), he h0,
      flatMap_imageRecord.2 h]

end Ds4.Kvstore
