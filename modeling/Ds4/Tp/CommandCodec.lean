import Ds4.Tp.Command

/-!
# The command codec

A frame of a call that a sender accepts is decoded as the call's command, every read of the decoder
stays inside the payload, and an accepted payload is the frame of its command but for the word that a
create, a rewind and a batch leave unused.
-/

namespace Ds4.Tp

open Lib

/-! ## Steps of a decoder -/

section Steps

variable {α β : Type} {c : Prop} [Decidable c] {got : Bool} {stop : Stop} {o : Option α} {b : β}

theorem rejectIf_ok {u : Unit} : rejectIf c = .ok u ↔ ¬ c := by
  unfold rejectIf
  split <;> simp_all

theorem unlessGot_ok {u : Unit} : unlessGot got stop = .ok u ↔ got = true := by
  cases got <;> simp [unlessGot]

theorem fetch_ok {a : α} : fetch o = .ok a ↔ o = some a := by
  cases o <;> simp [fetch]

theorem rejectIf_bind_ok {f : Unit → Decode β} : (rejectIf c >>= f) = .ok b ↔ ¬ c ∧ f () = .ok b := by
  rw [bind_ok]
  exact ⟨fun ⟨_, hc, hf⟩ => ⟨rejectIf_ok.1 hc, hf⟩, fun ⟨hc, hf⟩ => ⟨(), rejectIf_ok.2 hc, hf⟩⟩

theorem unlessGot_bind_ok {f : Unit → Decode β} :
    (unlessGot got stop >>= f) = .ok b ↔ got = true ∧ f () = .ok b := by
  rw [bind_ok]
  exact ⟨fun ⟨_, hgot, hf⟩ => ⟨unlessGot_ok.1 hgot, hf⟩, fun ⟨hgot, hf⟩ => ⟨(), unlessGot_ok.2 hgot, hf⟩⟩

theorem fetch_bind_ok {f : α → Decode β} : (fetch o >>= f) = .ok b ↔ ∃ a, o = some a ∧ f a = .ok b := by
  rw [bind_ok]
  simp only [fetch_ok]

/-- A decoder that reads only inside the payload. -/
def Inside (x : Decode α) : Prop := x ≠ .error .outside

theorem inside_ok (a : α) : Inside (.ok a : Decode α) := nofun

theorem inside_bind {f : α → Decode β} (hx : Inside x) (hf : ∀ a, x = .ok a → Inside (f a)) :
    Inside (x >>= f) := by
  cases x with
  | error e => exact fun h => hx (congrArg _ (Except.error.inj h))
  | ok a => exact hf a rfl

theorem inside_rejectIf_bind {f : Unit → Decode β} (hf : ¬ c → Inside (f ())) : Inside (rejectIf c >>= f) := by
  refine inside_bind ?_ fun _ h => hf (rejectIf_ok.1 h)
  unfold rejectIf Inside
  split <;> nofun

theorem inside_unlessGot_bind {f : Unit → Decode β} (hstop : stop ≠ .outside) (hf : Inside (f ())) :
    Inside (unlessGot got stop >>= f) := by
  refine inside_bind ?_ fun _ _ => hf
  unfold unlessGot Inside
  split
  · nofun
  · exact fun h => hstop (Except.error.inj h)

theorem inside_fetch_bind {f : α → Decode β} (ho : o ≠ none) (hf : ∀ a, o = some a → Inside (f a)) :
    Inside (fetch o >>= f) := by
  cases o with
  | none => exact absurd rfl ho
  | some a => exact hf a rfl

end Steps

/-! ## Widths -/

@[simp] theorem int32_width : int32.width = 4 := rfl
@[simp] theorem frameHeader_width : frameHeader.width = 12 := rfl
@[simp] theorem tokenCommandHeader_width : tokenCommandHeader.width = 16 := rfl
@[simp] theorem multimodalCommandHeader_width : multimodalCommandHeader.width = 16 := rfl
@[simp] theorem visionWire_width : visionWire.width = 60 := rfl
@[simp] theorem valueCommand_width : valueCommand.width = 16 := rfl
@[simp] theorem evalCommand_width : evalCommand.width = 24 := rfl
@[simp] theorem dsparkDraftCommand_width : dsparkDraftCommand.width = 24 := rfl
@[simp] theorem batchCommandHeader_width : batchCommandHeader.width = 8 := rfl
@[simp] theorem batchItem_width : batchItem.width = 16 := rfl
@[simp] theorem mixedCommandHeader_width : mixedCommandHeader.width = 16 := rfl
@[simp] theorem word64_width : Record.word64.width = 8 := rfl

theorem toNat_ofNat_of_le {n : Nat} (h : n ≤ uint32Max) : (UInt32.ofNat n).toNat = n :=
  UInt32.toNat_ofNat_of_lt' (Nat.lt_of_le_of_lt h (by decide))

/-! ## Every read is inside -/

section Reads

variable {α : Type} {R : Record α} {p : Bytes} {pos n : Nat}

theorem readAt_ne_none (h : pos + R.width ≤ p.length) : R.readAt p pos ≠ none := by
  rw [R.readAt_eq h]
  exact Option.some_ne_none _

theorem readAll_ne_none (h : pos + R.width * n ≤ p.length) : R.readAll p pos n ≠ none := by
  rw [R.readAll_eq h]
  exact Option.some_ne_none _

theorem bytesAt_ne_none (h : pos + n ≤ p.length) : bytesAt p pos n ≠ none := by
  rw [bytesAt, if_pos h]
  exact Option.some_ne_none _

end Reads

section Inside

variable {nEmbd : UInt32} {malloc : Site → Bool} {payload : Bytes}

theorem inside_tokens (type : FrameType) : Inside (tpCommandDecodeTokens malloc payload type) := by
  refine inside_rejectIf_bind fun hlen => inside_fetch_bind (readAt_ne_none (by simpa using hlen)) fun h _ => ?_
  refine inside_rejectIf_bind fun hwant => inside_unlessGot_bind nofun ?_
  refine inside_fetch_bind (readAll_ne_none ?_) fun _ _ => inside_ok _
  simp only [tokenCommandHeader_width, int32_width] at hwant ⊢
  omega

theorem inside_decodeImages (k i pos : Nat) : Inside (decodeImages nEmbd malloc payload k i pos) := by
  induction k generalizing i pos with
  | zero => exact inside_ok _
  | succ k ih =>
    refine inside_rejectIf_bind fun hlen => ?_
    refine inside_fetch_bind (readAt_ne_none (by simpa using hlen)) fun wire _ => ?_
    refine inside_rejectIf_bind fun _ => inside_rejectIf_bind fun hdata => inside_unlessGot_bind nofun ?_
    refine inside_fetch_bind (bytesAt_ne_none (by omega)) fun _ _ => ?_
    exact inside_bind (ih _ _) fun _ _ => inside_ok _

theorem inside_multimodal : Inside (tpCommandDecodeMultimodal nEmbd malloc payload) := by
  refine inside_rejectIf_bind fun hlen => inside_fetch_bind (readAt_ne_none (by simpa using hlen)) fun h _ => ?_
  refine inside_rejectIf_bind fun htokens => inside_rejectIf_bind fun _ => inside_unlessGot_bind nofun ?_
  refine inside_fetch_bind (readAll_ne_none ?_) fun _ _ => inside_bind (inside_decodeImages _ _ _) fun _ _ => ?_
  · rw [Nat.mul_comm]
    exact Nat.le_of_not_lt htokens
  · exact inside_rejectIf_bind fun _ => inside_ok _

theorem inside_value (type : FrameType) : Inside (commandDecode.value payload type) :=
  inside_rejectIf_bind fun hlen => inside_fetch_bind (readAt_ne_none (by omega)) fun _ _ =>
    inside_rejectIf_bind fun _ => inside_ok _

theorem inside_session (type : FrameType) : Inside (commandDecode.session payload type) :=
  inside_rejectIf_bind fun hlen => inside_fetch_bind (readAt_ne_none (by omega)) fun _ _ => inside_ok _

/-- **No read leaves the payload.** -/
theorem commandDecode_inside (type : FrameType) : Inside (commandDecode nEmbd malloc payload type) := by
  cases type with
  | error => exact nofun
  | sync => exact inside_bind (inside_tokens _) fun _ _ => inside_rejectIf_bind fun _ => inside_ok _
  | verify => exact inside_bind (inside_tokens _) fun _ _ => inside_rejectIf_bind fun _ => inside_ok _
  | syncMultimodal => exact inside_multimodal
  | sessionCreate => exact inside_value _
  | rewind => exact inside_value _
  | specRestore => exact inside_value _
  | sessionDestroy => exact inside_session _
  | invalidate => exact inside_session _
  | eval | glmMtp | dsparkDraft =>
    exact inside_rejectIf_bind fun hlen => inside_fetch_bind (readAt_ne_none (by omega)) fun _ _ =>
      inside_rejectIf_bind fun _ => inside_ok _
  | evalBatch =>
    refine inside_rejectIf_bind fun hlen => inside_fetch_bind (readAt_ne_none (by omega)) fun h _ => ?_
    refine inside_rejectIf_bind fun hwant => inside_unlessGot_bind nofun ?_
    refine inside_fetch_bind (readAll_ne_none ?_) fun _ _ => inside_ok _
    rw [Nat.mul_comm]
    omega
  | mixedBatch =>
    refine inside_rejectIf_bind fun hlen => inside_fetch_bind (readAt_ne_none (by omega)) fun h _ => ?_
    refine inside_rejectIf_bind fun hwant => inside_unlessGot_bind nofun ?_
    refine inside_fetch_bind (readAll_ne_none ?_) fun _ _ => ?_
    · rw [Nat.mul_comm]
      omega
    · refine inside_fetch_bind (readAll_ne_none ?_) fun _ _ => inside_ok _
      rw [Nat.mul_comm batchItem.width]
      omega
  | stop => exact inside_rejectIf_bind fun _ => inside_ok _

end Inside

/-! ## What a call says -/

/-- An image as the wire carries it: without its layout and grid. -/
def VisionSpan.carried (image : VisionSpan) : VisionSpan :=
  { image with embedding := { image.embedding with layout := 0, gridWidth := 0, gridHeight := 0 } }

/-- An image with rows and a width, its data an object of memory with a row of the model's width for each. -/
structure VisionSpan.Sound (nEmbd : UInt32) (image : VisionSpan) : Prop where
  rows : image.embedding.tokenCount ≠ 0
  width : image.embedding.width ≠ 0
  data : ∀ d, image.embedding.data = some d →
    d.length = image.embedding.tokenCount.toNat * nEmbd.toNat * 4 ∧ d.length < 2 ^ 63

/-- The images of a call. -/
def Request.images : Request → List VisionSpan
  | .syncMultimodal _ _ images => images
  | _ => []

/-- The command the worker is to see. -/
def Request.command : Request → Command
  | .sessionCreate s ctxSize => { commandFree with type := .sessionCreate, sessionId := s, value := ctxSize }
  | .sessionDestroy s => { commandFree with type := .sessionDestroy, sessionId := s }
  | .sync s tokens => { commandFree with type := .sync, sessionId := s, tokens := tokens }
  | .syncMultimodal s tokens images =>
    { commandFree with
      type := .syncMultimodal, sessionId := s, tokens := tokens, images := images.map VisionSpan.carried }
  | .eval s seq token => { commandFree with type := .eval, sessionId := s, seq := seq, value := token }
  | .glmMtp s seq token limit =>
    { commandFree with type := .glmMtp, sessionId := s, seq := seq, value := token, limit := limit }
  | .rewind s pos => { commandFree with type := .rewind, sessionId := s, value := pos }
  | .specRestore s pos => { commandFree with type := .specRestore, sessionId := s, value := pos }
  | .invalidate s => { commandFree with type := .invalidate, sessionId := s }
  | .evalBatch items => { commandFree with type := .evalBatch, items := items }
  | .mixedBatch s prompt items =>
    { commandFree with type := .mixedBatch, sessionId := s, tokens := prompt, items := items }
  | .verify s drafts flags =>
    { commandFree with type := .verify, sessionId := s, tokens := drafts, value := flags.toInt32 }
  | .dsparkDraft s token pos mode =>
    { commandFree with
      type := .dsparkDraft, sessionId := s, value := token, limit := pos, seq := mode.toUInt64 }
  | .stop => { commandFree with type := .stop }

/-! ## Images on the wire -/

section Images

variable {nEmbd : UInt32} {image : VisionSpan} {images : List VisionSpan}

theorem putImage_eq {d : Bytes} (hs : image.Sound nEmbd) (hd : image.embedding.data = some d) :
    putImage nEmbd image = visionWire.put ⟨image.tokenStart, image.embedding.tokenCount, nEmbd,
      image.embedding.width, image.embedding.height, image.embedding.contentWidth, image.embedding.contentHeight,
      image.embedding.fingerprint⟩ ++ d := by
  rw [putImage, hd, Option.getD_some, List.take_of_length_le (hs.data d hd).1.le]

theorem length_putImage {d : Bytes} (hs : image.Sound nEmbd) (hd : image.embedding.data = some d) :
    (putImage nEmbd image).length = 60 + d.length := by
  rw [putImage_eq hs hd, List.length_append, visionWire.length_put, visionWire_width]

/-- The sizes add up to the images' bytes, and a sum is refused once it leaves 32 bits. -/
theorem multimodalBytes_eq_some {b n : Nat} (hs : ∀ image ∈ images, image.Sound nEmbd) (hb : b ≤ uint32Max) :
    multimodalBytes nEmbd b images = some n ↔
      (∀ image ∈ images, image.embedding.data ≠ none) ∧ n = b + (images.flatMap (putImage nEmbd)).length ∧
        n ≤ uint32Max := by
  induction images generalizing b with
  | nil =>
    rw [multimodalBytes, Option.some.injEq, List.flatMap_nil, List.length_nil, Nat.add_zero]
    exact ⟨fun h => ⟨nofun, h.symm, h ▸ hb⟩, fun h => h.2.1.symm⟩
  | cons image images ih =>
    obtain ⟨hi, hs⟩ := List.forall_mem_cons.1 hs
    rw [List.flatMap_cons, List.length_append, List.forall_mem_cons, multimodalBytes]
    cases hd : image.embedding.data with
    | none =>
      simp only [Option.isNone_none, true_or, if_true, ite_self]
      exact ⟨nofun, fun h => absurd rfl h.1.1⟩
    | some d =>
      obtain ⟨hlen, hmem⟩ := hi.data d hd
      have hput := length_putImage hi hd
      have hmod : (visionWire.width + image.embedding.tokenCount.toNat * nEmbd.toNat * 4) % 2 ^ 64 =
          (putImage nEmbd image).length := by
        rw [visionWire_width, ← hlen, hput]
        exact Nat.mod_eq_of_lt (by omega)
      have hvalues : ¬ image.embedding.tokenCount.toNat * nEmbd.toNat > uint64Max / 4 := by
        unfold uint64Max
        omega
      simp only [hmod, if_neg hvalues]
      by_cases hfit : b + (putImage nEmbd image).length ≤ uint32Max
      · rw [if_neg (by simp only [Option.isNone_some]; simp; omega), ih hs hfit, Nat.add_assoc]
        simp
      · rw [if_pos (by omega)]
        exact ⟨nofun, fun h => absurd h.2.2 (by omega)⟩

end Images

/-! ## What is sent is received -/

section RoundTrip

variable {nEmbd : UInt32} {malloc : Site → Bool}

theorem readAt_put {α : Type} {R : Record α} (a : α) (r : Bytes) : R.readAt (R.put a ++ r) 0 = some a :=
  R.readAt_middle [] r a

theorem readAll_put {α : Type} {R : Record α} {q : Bytes} {pos n : Nat} {l : List α} (r : Bytes)
    (hq : q.length = pos) (hn : l.length = n) : R.readAll (q ++ (R.putAll l ++ r)) pos n = some l := by
  rw [← List.append_assoc, ← hq, ← hn, R.readAll_middle]

theorem readAll_put_end {α : Type} {R : Record α} {q : Bytes} {pos n : Nat} {l : List α} (hq : q.length = pos)
    (hn : l.length = n) : R.readAll (q ++ R.putAll l) pos n = some l := by
  simpa only [List.append_nil] using readAll_put [] hq hn

theorem decodeTokens_put (type : FrameType) (s : UInt64) {tokens : List Int32} (flags : UInt32)
    (hm : ∀ site, malloc site = true) (hn : tokens.length ≤ uint32Max) :
    tpCommandDecodeTokens malloc
      (tokenCommandHeader.put ⟨s, .ofNat tokens.length, flags⟩ ++ int32.putAll tokens) type =
      .ok { commandFree with type := type, sessionId := s, tokens := tokens, value := flags.toInt32 } := by
  have hcount := toNat_ofNat_of_le hn
  have hhead := tokenCommandHeader.length_put ⟨s, .ofNat tokens.length, flags⟩
  refine rejectIf_bind_ok.2 ⟨?_, fetch_bind_ok.2 ⟨_, readAt_put _ _, rejectIf_bind_ok.2 ⟨?_,
    unlessGot_bind_ok.2 ⟨hm _, fetch_bind_ok.2 ⟨_, readAll_put_end hhead hcount.symm, rfl⟩⟩⟩⟩⟩
  · rw [List.length_append, hhead]
    omega
  · rw [hcount, List.length_append, hhead, int32.length_putAll, Nat.mul_comm]
    exact not_not_intro rfl

theorem decodeImages_succ_ok {p : Bytes} {k i pos e : Nat} {images : List VisionSpan} :
    decodeImages nEmbd malloc p (k + 1) i pos = .ok (images, e) ↔
      ∃ wire d rest, visionWire.readAt p pos = some wire ∧ wire.tokenCount ≠ 0 ∧ wire.dataWidth = nEmbd ∧
        wire.width ≠ 0 ∧ wire.tokenCount.toNat * wire.dataWidth.toNat ≤ uint64Max / 4 ∧
        malloc (.data i) = true ∧
        bytesAt p (pos + 60) (wire.tokenCount.toNat * wire.dataWidth.toNat * 4) = some d ∧
        decodeImages nEmbd malloc p k (i + 1) (pos + 60 + wire.tokenCount.toNat * wire.dataWidth.toNat * 4) =
          .ok (rest, e) ∧ images = wire.image d :: rest := by
  rw [decodeImages]
  constructor
  · intro h
    obtain ⟨-, h⟩ := rejectIf_bind_ok.1 h
    obtain ⟨wire, hwire, h⟩ := fetch_bind_ok.1 h
    obtain ⟨hbad, h⟩ := rejectIf_bind_ok.1 h
    obtain ⟨-, h⟩ := rejectIf_bind_ok.1 h
    obtain ⟨hgot, h⟩ := unlessGot_bind_ok.1 h
    obtain ⟨d, hd, h⟩ := fetch_bind_ok.1 h
    obtain ⟨⟨rest, e'⟩, hrest, h⟩ := bind_ok.1 h
    obtain ⟨rfl, rfl⟩ := Prod.mk.injEq .. ▸ Except.ok.inj h
    simp only [not_or, not_not, not_lt] at hbad
    exact ⟨wire, d, rest, hwire, hbad.1, hbad.2.1, hbad.2.2.1, hbad.2.2.2, hgot, hd, hrest, rfl⟩
  · rintro ⟨wire, d, rest, hwire, hrows, hwidth, hw, hvalues, hgot, hd, hrest, rfl⟩
    have hin := (Record.put_of_readAt hwire).1
    have hdata := (Option.ite_none_right_eq_some.1 hd).1
    rw [visionWire_width] at hin
    refine rejectIf_bind_ok.2 ⟨by rw [visionWire_width]; omega, fetch_bind_ok.2 ⟨wire, hwire,
      rejectIf_bind_ok.2 ⟨?_, rejectIf_bind_ok.2 ⟨by rw [visionWire_width]; omega,
        unlessGot_bind_ok.2 ⟨hgot, fetch_bind_ok.2 ⟨d, hd, bind_ok.2 ⟨(rest, e), hrest, rfl⟩⟩⟩⟩⟩⟩⟩
    simp only [not_or, not_not, not_lt]
    exact ⟨hrows, hwidth, hw, hvalues⟩

theorem decodeImages_put {images : List VisionSpan} (hm : ∀ site, malloc site = true)
    (hs : ∀ image ∈ images, image.Sound nEmbd) (hd : ∀ image ∈ images, image.embedding.data ≠ none) (i : Nat)
    (q : Bytes) :
    decodeImages nEmbd malloc (q ++ images.flatMap (putImage nEmbd)) images.length i q.length =
      .ok (images.map VisionSpan.carried, q.length + (images.flatMap (putImage nEmbd)).length) := by
  induction images generalizing i q with
  | nil => rfl
  | cons image images ih =>
    obtain ⟨hi, hs⟩ := List.forall_mem_cons.1 hs
    obtain ⟨hdi, hd⟩ := List.forall_mem_cons.1 hd
    obtain ⟨d, hdata⟩ := Option.ne_none_iff_exists'.1 hdi
    obtain ⟨hlen, hmem⟩ := hi.data d hdata
    rw [List.flatMap_cons, putImage_eq hi hdata]
    set wire : VisionWire := ⟨image.tokenStart, image.embedding.tokenCount, nEmbd, image.embedding.width,
      image.embedding.height, image.embedding.contentWidth, image.embedding.contentHeight,
      image.embedding.fingerprint⟩ with hwiredef
    set tail := images.flatMap (putImage nEmbd)
    have hwire : (visionWire.put wire).length = 60 := visionWire.length_put wire
    have hread : visionWire.readAt (q ++ (visionWire.put wire ++ d ++ tail)) q.length = some wire := by
      have := visionWire.readAt_middle q (d ++ tail) wire
      simpa only [List.append_assoc] using this
    have hbytes : bytesAt (q ++ (visionWire.put wire ++ d ++ tail)) (q.length + 60) d.length = some d := by
      have := bytesAt_middle (p := d) (q := q ++ visionWire.put wire) (r := tail)
      rw [List.length_append, hwire] at this
      simpa only [List.append_assoc] using this
    have hrest := ih hs hd (i + 1) (q ++ (visionWire.put wire ++ d))
    rw [List.append_assoc, List.length_append, List.length_append, hwire] at hrest
    refine decodeImages_succ_ok.2 ⟨wire, d, images.map VisionSpan.carried, hread, hi.rows, rfl, hi.width, ?_, hm _,
      hlen ▸ hbytes, ?_, ?_⟩
    · change image.embedding.tokenCount.toNat * nEmbd.toNat ≤ _
      unfold uint64Max
      omega
    · change decodeImages nEmbd malloc _ _ _ (_ + _ + image.embedding.tokenCount.toNat * nEmbd.toNat * 4) = _
      rw [← hlen, Nat.add_assoc, hrest, List.length_append, List.length_append, hwire]
      simp only [Nat.add_assoc]
    · rw [List.map_cons, List.cons.injEq]
      refine ⟨?_, rfl⟩
      rw [VisionSpan.carried, VisionWire.image, ← hdata]

end RoundTrip

/-! ## Every call -/

section Calls

variable {nEmbd : UInt32} {malloc : Site → Bool} {t : FrameType} {p : Bytes}

theorem tokenCommand_eq_some {type : FrameType} {s : UInt64} {tokens : List Int32} {flags : UInt32} :
    tpSendTokenCommandFlags type s tokens flags = some (t, p) ↔
      16 + tokens.length * 4 ≤ uint32Max ∧ type = t ∧
        tokenCommandHeader.put ⟨s, .ofNat tokens.length, flags⟩ ++ int32.putAll tokens = p := by
  simp [tpSendTokenCommandFlags]

theorem length_tokenCommand {tokens : List Int32} {h : TokenCommandHeader} :
    (tokenCommandHeader.put h ++ int32.putAll tokens).length = 16 + tokens.length * 4 := by
  rw [List.length_append, tokenCommandHeader.length_put, int32.length_putAll, int32_width, Nat.mul_comm]
  rfl

theorem multimodal_eq_some {s : UInt64} {tokens : List Int32} {images : List VisionSpan}
    (hs : ∀ image ∈ images, image.Sound nEmbd) :
    ds4TpSendSyncMultimodal nEmbd s tokens images = some (t, p) ↔
      nEmbd ≠ 0 ∧ (∀ image ∈ images, image.embedding.data ≠ none) ∧ p.length ≤ uint32Max ∧ .syncMultimodal = t ∧
        multimodalCommandHeader.put ⟨s, .ofNat tokens.length, .ofNat images.length⟩ ++
          (int32.putAll tokens ++ images.flatMap (putImage nEmbd)) = p := by
  have hlen : (multimodalCommandHeader.put ⟨s, .ofNat tokens.length, .ofNat images.length⟩ ++
      (int32.putAll tokens ++ images.flatMap (putImage nEmbd))).length =
        16 + tokens.length * 4 + (images.flatMap (putImage nEmbd)).length := by
    rw [List.length_append, List.length_append, multimodalCommandHeader.length_put, int32.length_putAll]
    simp only [multimodalCommandHeader_width, int32_width]
    omega
  rw [ds4TpSendSyncMultimodal]
  simp only [multimodalCommandHeader_width, int32_width, List.append_assoc]
  by_cases hbad : nEmbd = 0 ∨ 16 + tokens.length * 4 > uint32Max
  · rw [if_pos hbad]
    refine ⟨nofun, ?_⟩
    rintro ⟨hne, -, hp, -, rfl⟩
    exact absurd (hbad.resolve_left hne) (by omega)
  · obtain ⟨hne, hb⟩ := not_or.1 hbad
    rw [if_neg hbad, Option.map_eq_some_iff]
    constructor
    · rintro ⟨n, hn, heq⟩
      obtain ⟨hdata, hsum, hle⟩ := (multimodalBytes_eq_some hs (Nat.le_of_not_lt hb)).1 hn
      obtain ⟨rfl, rfl⟩ := Prod.mk.injEq .. ▸ heq
      exact ⟨hne, hdata, by omega, rfl, rfl⟩
    · rintro ⟨-, hdata, hp, rfl, rfl⟩
      exact ⟨_, (multimodalBytes_eq_some hs (Nat.le_of_not_lt hb)).2 ⟨hdata, rfl, by omega⟩, rfl⟩

theorem length_images {images : List VisionSpan} (hs : ∀ image ∈ images, image.Sound nEmbd)
    (hd : ∀ image ∈ images, image.embedding.data ≠ none) :
    60 * images.length ≤ (images.flatMap (putImage nEmbd)).length := by
  induction images with
  | nil => rfl
  | cons image images ih =>
    obtain ⟨hi, hs⟩ := List.forall_mem_cons.1 hs
    obtain ⟨hdi, hd⟩ := List.forall_mem_cons.1 hd
    obtain ⟨d, hdata⟩ := Option.ne_none_iff_exists'.1 hdi
    have hput := length_putImage hi hdata
    have hrest := ih hs hd
    rw [List.flatMap_cons, List.length_append, List.length_cons]
    omega

theorem decodeMultimodal_put {s : UInt64} {tokens : List Int32} {images : List VisionSpan}
    (hm : ∀ site, malloc site = true) (hs : ∀ image ∈ images, image.Sound nEmbd)
    (hd : ∀ image ∈ images, image.embedding.data ≠ none)
    (hp : multimodalCommandHeader.put ⟨s, .ofNat tokens.length, .ofNat images.length⟩ ++
      (int32.putAll tokens ++ images.flatMap (putImage nEmbd)) = p) (hlen : p.length ≤ uint32Max) :
    tpCommandDecodeMultimodal nEmbd malloc p =
      .ok (Request.syncMultimodal s tokens images).command := by
  have hhead := multimodalCommandHeader.length_put ⟨s, .ofNat tokens.length, .ofNat images.length⟩
  have hplen : p.length = 16 + tokens.length * 4 + (images.flatMap (putImage nEmbd)).length := by
    rw [← hp, List.length_append, List.length_append, hhead, int32.length_putAll, multimodalCommandHeader_width,
      int32_width]
    omega
  have himages := length_images hs hd
  have htokens := toNat_ofNat_of_le (n := tokens.length) (by omega)
  have hcount := toNat_ofNat_of_le (n := images.length) (by omega)
  have hdecode := decodeImages_put hm hs hd 0 (multimodalCommandHeader.put ⟨s, .ofNat tokens.length,
    .ofNat images.length⟩ ++ int32.putAll tokens)
  rw [List.length_append, hhead, int32.length_putAll, List.append_assoc, hp] at hdecode
  simp only [multimodalCommandHeader_width, int32_width] at hdecode
  refine rejectIf_bind_ok.2 ⟨by rw [multimodalCommandHeader_width]; omega, fetch_bind_ok.2 ⟨_, hp ▸ readAt_put _ _,
    rejectIf_bind_ok.2 ⟨?_, rejectIf_bind_ok.2 ⟨?_, unlessGot_bind_ok.2 ⟨by simp [hm], fetch_bind_ok.2 ⟨tokens, ?_,
      bind_ok.2 ⟨(images.map VisionSpan.carried, p.length), ?_, rejectIf_bind_ok.2 ⟨not_not_intro rfl, rfl⟩⟩⟩⟩⟩⟩⟩⟩
  · simp only [htokens, multimodalCommandHeader_width, int32_width]
    omega
  · simp only [htokens, hcount, multimodalCommandHeader_width, int32_width, visionWire_width]
    omega
  · simp only [htokens]
    rw [← hp]
    exact readAll_put _ hhead rfl
  · simp only [htokens, hcount, multimodalCommandHeader_width, int32_width]
    rw [Nat.mul_comm tokens.length, hdecode]
    congr 2
    omega

theorem fixed_ok {α : Type} {R : Record α} {f : α → Decode Command} {a : α} {c : Command} (hf : f a = .ok c) :
    (do rejectIf ((R.put a).length ≠ R.width)
        let msg ← fetch (R.readAt (R.put a) 0)
        f msg) = .ok c := by
  have hread : R.readAt (R.put a) 0 = some a := by simpa only [List.append_nil] using readAt_put a []
  exact rejectIf_bind_ok.2 ⟨not_not_intro (R.length_put a), fetch_bind_ok.2 ⟨a, hread, hf⟩⟩

theorem decodeFlags_put (type : FrameType) {s : UInt64} {tokens : List Int32} {flags : UInt32} {c : Prop}
    [Decidable c] (hm : ∀ site, malloc site = true) (hn : 16 + tokens.length * 4 ≤ uint32Max) (hc : ¬ c)
    {f : Command → Prop} [DecidablePred f]
    (hf : f { commandFree with type := type, sessionId := s, tokens := tokens, value := flags.toInt32 } ↔ c) :
    (do let c ← tpCommandDecodeTokens malloc
          (tokenCommandHeader.put ⟨s, .ofNat tokens.length, flags⟩ ++ int32.putAll tokens) type
        rejectIf (f c)
        return c : Decode Command) =
      .ok { commandFree with type := type, sessionId := s, tokens := tokens, value := flags.toInt32 } :=
  bind_ok.2 ⟨_, decodeTokens_put type s flags hm (by omega), rejectIf_bind_ok.2 ⟨fun h => hc (hf.1 h), rfl⟩⟩

theorem limit_cases {limit : Int32} (h : ¬ (limit < 1 ∨ limit > 2)) : limit = 1 ∨ limit = 2 := by
  simp only [gt_iff_lt, not_or, Int32.lt_iff_toInt_lt, ← Int32.toInt_inj] at h ⊢
  have h1 : (1 : Int32).toInt = 1 := by decide
  have h2 : (2 : Int32).toInt = 2 := by decide
  omega

/-- **What is sent is decoded**: the payload of an accepted call is the call's command, and fits its frame. -/
theorem commandDecode_send {r : Request} (hm : ∀ site, malloc site = true)
    (hs : ∀ image ∈ r.images, image.Sound nEmbd) (h : r.send nEmbd = some (t, p)) :
    commandDecode nEmbd malloc p t = .ok r.command ∧ p.length ≤ uint32Max ∧ FrameType.ofCode t.code = some t := by
  have hsmall : ∀ {n : Nat}, n ≤ 24 → n ≤ uint32Max := fun h => h.trans (by decide)
  cases r with
  | sessionCreate s v | rewind s v =>
    obtain ⟨rfl, rfl⟩ := Prod.mk.injEq .. ▸ Option.some.inj h
    refine ⟨fixed_ok (rejectIf_bind_ok.2 ⟨nofun, rfl⟩), hsmall ?_, rfl⟩
    rw [valueCommand.length_put]
    decide
  | specRestore s v =>
    obtain ⟨hv, h⟩ := Option.ite_none_left_eq_some.1 h
    obtain ⟨rfl, rfl⟩ := Prod.mk.injEq .. ▸ Option.some.inj h
    refine ⟨fixed_ok (rejectIf_bind_ok.2 ⟨fun hbad => hbad.2.elim hv (fun h => h rfl), rfl⟩), hsmall ?_, rfl⟩
    rw [valueCommand.length_put]
    decide
  | sessionDestroy s | invalidate s =>
    obtain ⟨rfl, rfl⟩ := Prod.mk.injEq .. ▸ Option.some.inj h
    exact ⟨fixed_ok (R := Record.word64) (a := s) rfl, hsmall (by rw [put64_length]; decide), rfl⟩
  | eval s q v =>
    obtain ⟨rfl, rfl⟩ := Prod.mk.injEq .. ▸ Option.some.inj h
    refine ⟨fixed_ok (rejectIf_bind_ok.2 ⟨not_not_intro rfl, rfl⟩), hsmall ?_, rfl⟩
    rw [evalCommand.length_put]
    decide
  | glmMtp s q v limit =>
    obtain ⟨hlimit, h⟩ := Option.ite_none_left_eq_some.1 h
    obtain ⟨rfl, rfl⟩ := Prod.mk.injEq .. ▸ Option.some.inj h
    refine ⟨fixed_ok (rejectIf_bind_ok.2 ⟨?_, rfl⟩), hsmall ?_, rfl⟩
    · change ¬ (limit.toUInt32 < 1 ∨ limit.toUInt32 > 2)
      obtain rfl | rfl := limit_cases hlimit <;> decide
    · rw [evalCommand.length_put]
      decide
  | dsparkDraft s v pos mode =>
    obtain ⟨hbad, h⟩ := Option.ite_none_left_eq_some.1 h
    obtain ⟨rfl, rfl⟩ := Prod.mk.injEq .. ▸ Option.some.inj h
    refine ⟨fixed_ok (rejectIf_bind_ok.2 ⟨?_, rfl⟩), hsmall ?_, rfl⟩
    · rintro (h | h | h | h)
      · exact hbad (.inl h)
      · exact hbad (.inr (.inl h))
      · exact h rfl
      · exact hbad (.inr (.inr h))
    · rw [dsparkDraftCommand.length_put]
      decide
  | stop =>
    obtain ⟨rfl, rfl⟩ := Prod.mk.injEq .. ▸ Option.some.inj h
    exact ⟨rfl, hsmall (by decide), rfl⟩
  | sync s tokens =>
    obtain ⟨hn, rfl, rfl⟩ := tokenCommand_eq_some.1 h
    exact ⟨decodeFlags_put .sync hm hn (not_not_intro rfl) Iff.rfl, length_tokenCommand ▸ hn, rfl⟩
  | verify s drafts flags =>
    obtain ⟨hvalid, h⟩ := Option.ite_none_left_eq_some.1 h
    obtain ⟨hn, rfl, rfl⟩ := tokenCommand_eq_some.1 h
    exact ⟨decodeFlags_put .verify hm hn (fun hbad => hbad.2 (not_not.1 hvalid)) Iff.rfl,
      length_tokenCommand ▸ hn, rfl⟩
  | syncMultimodal s tokens images =>
    obtain ⟨-, hd, hlen, rfl, hp⟩ := (multimodal_eq_some hs).1 h
    exact ⟨decodeMultimodal_put hm hs hd hp hlen, hlen, rfl⟩
  | evalBatch items =>
    obtain ⟨hbad, h⟩ := Option.ite_none_left_eq_some.1 h
    obtain ⟨rfl, rfl⟩ := Prod.mk.injEq .. ▸ Option.some.inj h
    obtain ⟨hne, hn⟩ := not_or.1 hbad
    have hlen : (batchCommandHeader.put ⟨.ofNat items.length, 0⟩ ++ batchItem.putAll items).length =
        8 + items.length * 16 := by
      rw [List.length_append, batchCommandHeader.length_put, batchItem.length_putAll, batchItem_width,
        Nat.mul_comm]
      rfl
    rw [batchCommandHeader_width, batchItem_width, Nat.not_lt] at hn
    have hcount := toNat_ofNat_of_le (n := items.length) (by omega)
    refine ⟨rejectIf_bind_ok.2 ⟨by rw [hlen, batchCommandHeader_width]; omega, fetch_bind_ok.2 ⟨_, readAt_put _ _,
      rejectIf_bind_ok.2 ⟨?_, unlessGot_bind_ok.2 ⟨hm _, fetch_bind_ok.2 ⟨items, ?_, rfl⟩⟩⟩⟩⟩, hlen ▸ hn, rfl⟩
    · rw [hcount, hlen, ← UInt32.toNat_inj, hcount]
      exact not_or.2 ⟨hne, not_not_intro rfl⟩
    · exact readAll_put_end (batchCommandHeader.length_put _) hcount.symm
  | mixedBatch s prompt items =>
    obtain ⟨hbad, h⟩ := Option.ite_none_left_eq_some.1 h
    obtain ⟨rfl, rfl⟩ := Prod.mk.injEq .. ▸ Option.some.inj h
    obtain ⟨hprompt, hbad⟩ := not_or.1 hbad
    obtain ⟨hitems, hn⟩ := not_or.1 hbad
    have hhead := mixedCommandHeader.length_put ⟨s, .ofNat prompt.length, .ofNat items.length⟩
    have hlen : (mixedCommandHeader.put ⟨s, .ofNat prompt.length, .ofNat items.length⟩ ++
        (int32.putAll prompt ++ batchItem.putAll items)).length = 16 + prompt.length * 4 + items.length * 16 := by
      rw [List.length_append, List.length_append, hhead, int32.length_putAll, batchItem.length_putAll]
      simp only [mixedCommandHeader_width, int32_width, batchItem_width]
      omega
    simp only [mixedCommandHeader_width, int32_width, batchItem_width, Nat.not_lt] at hn
    have hp := toNat_ofNat_of_le (n := prompt.length) (by omega)
    have hi := toNat_ofNat_of_le (n := items.length) (by omega)
    rw [List.append_assoc]
    refine ⟨rejectIf_bind_ok.2 ⟨by rw [hlen, mixedCommandHeader_width]; omega, fetch_bind_ok.2 ⟨_, readAt_put _ _,
      rejectIf_bind_ok.2 ⟨?_, unlessGot_bind_ok.2 ⟨by simp [hm], fetch_bind_ok.2 ⟨prompt, ?_,
        fetch_bind_ok.2 ⟨items, ?_, rfl⟩⟩⟩⟩⟩⟩, hlen ▸ hn, rfl⟩
    · rw [hlen, ← UInt32.toNat_inj, ← UInt32.toNat_inj, hp, hi]
      exact not_or.2 ⟨hprompt, not_or.2 ⟨hitems, not_not_intro rfl⟩⟩
    · exact readAll_put _ hhead hp.symm
    · rw [hp, ← List.append_assoc]
      refine readAll_put_end ?_ hi.symm
      rw [List.length_append, hhead, int32.length_putAll, Nat.mul_comm]

end Calls

/-! ## What is accepted was sent -/

/-- A payload with zero in the word that its frame leaves unused. -/
def clearUnused (t : FrameType) (p : Bytes) : Bytes :=
  match t with
  | .sessionCreate | .rewind => p.take 12 ++ put32 0
  | .evalBatch => p.take 4 ++ put32 0 ++ p.drop 8
  | _ => p

section Accepted

variable {nEmbd : UInt32} {malloc : Site → Bool} {p : Bytes} {c : Command}

theorem fixed_inv {α : Type} {R : Record α} {f : α → Decode Command}
    (h : (do rejectIf (p.length ≠ R.width)
             let msg ← fetch (R.readAt p 0)
             f msg) = .ok c) : ∃ a, p = R.put a ∧ f a = .ok c := by
  obtain ⟨hlen, h⟩ := rejectIf_bind_ok.1 h
  obtain ⟨a, ha, h⟩ := fetch_bind_ok.1 h
  refine ⟨a, ?_, h⟩
  rw [← (Record.put_of_readAt ha).2, ← not_not.1 hlen, slice_all]

theorem payload_split {m n : Nat} (h : m + n = p.length) : p = slice p 0 m ++ slice p m n := by
  have hsplit : slice p 0 m ++ slice p (0 + m) n = slice p 0 (m + n) := slice_append_slice
  rw [h, slice_all, Nat.zero_add] at hsplit
  exact hsplit.symm

theorem decodeTokens_inv {type : FrameType} (h : tpCommandDecodeTokens malloc p type = .ok c) :
    ∃ s tokens flags, p = tokenCommandHeader.put ⟨s, .ofNat tokens.length, flags⟩ ++ int32.putAll tokens ∧
      c = { commandFree with type := type, sessionId := s, tokens := tokens, value := flags.toInt32 } := by
  obtain ⟨-, h⟩ := rejectIf_bind_ok.1 h
  obtain ⟨head, hhead, h⟩ := fetch_bind_ok.1 h
  obtain ⟨hwant, h⟩ := rejectIf_bind_ok.1 h
  obtain ⟨-, h⟩ := unlessGot_bind_ok.1 h
  obtain ⟨tokens, htokens, h⟩ := fetch_bind_ok.1 h
  obtain ⟨-, hslice⟩ := Record.put_of_readAt hhead
  obtain ⟨-, hcount, hslice'⟩ := Record.putAll_of_readAll htokens
  refine ⟨head.sessionId, tokens, head.reserved, ?_, (Except.ok.inj h).symm⟩
  have hsplit := payload_split (not_not.1 hwant)
  rw [hslice, Nat.mul_comm, hslice'] at hsplit
  rw [hcount, UInt32.ofNat_toNat]
  exact hsplit

theorem decodeImages_inv {k i pos e : Nat} {images : List VisionSpan} (hpos : pos ≤ p.length)
    (hp : p.length ≤ uint32Max) (h : decodeImages nEmbd malloc p k i pos = .ok (images, e)) :
    pos ≤ e ∧ e ≤ p.length ∧ images.length = k ∧ (∀ image ∈ images, image.Sound nEmbd) ∧
      (∀ image ∈ images, image.embedding.data ≠ none) ∧ images.map VisionSpan.carried = images ∧
      slice p pos (e - pos) = images.flatMap (putImage nEmbd) := by
  induction k generalizing i pos images with
  | zero =>
    obtain ⟨rfl, rfl⟩ := Prod.mk.injEq .. ▸ Except.ok.inj h
    exact ⟨le_rfl, hpos, rfl, nofun, nofun, rfl, by rw [Nat.sub_self, slice_zero]; rfl⟩
  | succ k ih =>
    obtain ⟨wire, d, rest, hwire, hrows, hwidth, hw, hvalues, -, hd, hrest, rfl⟩ := decodeImages_succ_ok.1 h
    obtain ⟨hwirele, hwireput⟩ := Record.put_of_readAt hwire
    obtain ⟨hdle, hdeq⟩ := Option.ite_none_right_eq_some.1 hd
    set n := wire.tokenCount.toNat * wire.dataWidth.toNat * 4 with hn
    obtain ⟨hle, heq, hlen, hs, hdata, hcarried, hslice⟩ := ih hdle hrest
    have hdlen : d.length = n := by rw [← Option.some.inj hdeq, length_slice hdle]
    have hsound : (wire.image d).Sound nEmbd := by
      refine ⟨hrows, hw, fun d' hd' => ?_⟩
      obtain rfl : d = d' := Option.some.inj hd'
      refine ⟨by rw [hdlen, hn, hwidth]; rfl, ?_⟩
      have : uint32Max < 2 ^ 63 := by decide
      omega
    refine ⟨by omega, heq, by rw [List.length_cons, hlen], List.forall_mem_cons.2 ⟨hsound, hs⟩,
      List.forall_mem_cons.2 ⟨nofun, hdata⟩, by rw [List.map_cons, hcarried]; rfl, ?_⟩
    have hsplit : e - pos = 60 + (n + (e - (pos + 60 + n))) := by omega
    rw [visionWire_width] at hwireput
    rw [hsplit, ← slice_append_slice, ← slice_append_slice, hwireput, Option.some.inj hdeq, hslice,
      List.flatMap_cons, putImage_eq hsound rfl, List.append_assoc, ← hwidth]
    rfl

theorem decodeMultimodal_inv (hp : p.length ≤ uint32Max) (h : tpCommandDecodeMultimodal nEmbd malloc p = .ok c) :
    ∃ s tokens images, (∀ image ∈ images, image.Sound nEmbd) ∧ (∀ image ∈ images, image.embedding.data ≠ none) ∧
      multimodalCommandHeader.put ⟨s, .ofNat tokens.length, .ofNat images.length⟩ ++
        (int32.putAll tokens ++ images.flatMap (putImage nEmbd)) = p ∧
      c = (Request.syncMultimodal s tokens images).command := by
  obtain ⟨-, h⟩ := rejectIf_bind_ok.1 h
  obtain ⟨head, hhead, h⟩ := fetch_bind_ok.1 h
  obtain ⟨htokenBytes, h⟩ := rejectIf_bind_ok.1 h
  obtain ⟨-, h⟩ := rejectIf_bind_ok.1 h
  obtain ⟨-, h⟩ := unlessGot_bind_ok.1 h
  obtain ⟨tokens, htokens, h⟩ := fetch_bind_ok.1 h
  obtain ⟨⟨images, e⟩, himages, h⟩ := bind_ok.1 h
  obtain ⟨hend, h⟩ := rejectIf_bind_ok.1 h
  obtain ⟨-, hslice⟩ := Record.put_of_readAt hhead
  obtain ⟨-, hcount, hslice'⟩ := Record.putAll_of_readAll htokens
  obtain ⟨hle, -, hn, hs, hd, hcarried, hslice''⟩ := decodeImages_inv (Nat.le_of_not_lt htokenBytes) hp himages
  refine ⟨head.sessionId, tokens, images, hs, hd, ?_, ?_⟩
  · have hsum : multimodalCommandHeader.width + (int32.width * head.tokenCount.toNat +
        (e - (multimodalCommandHeader.width + head.tokenCount.toNat * int32.width))) = p.length := by
      rw [Nat.mul_comm int32.width]
      omega
    have hsplit := payload_split hsum
    rw [← slice_append_slice, hslice, hslice', Nat.mul_comm int32.width, hslice''] at hsplit
    rw [hcount, hn, UInt32.ofNat_toNat, UInt32.ofNat_toNat]
    exact hsplit.symm
  · rw [Request.command, hcarried]
    exact (Except.ok.inj h).symm

theorem value_clear (a : ValueCommand) :
    (valueCommand.put a).take 12 ++ put32 0 = valueCommand.put { a with reserved := 0 } := by
  change (put64 a.sessionId ++ (put32 a.value.toUInt32 ++ put32 a.reserved)).take 12 ++ put32 0 =
    put64 a.sessionId ++ (put32 a.value.toUInt32 ++ put32 0)
  rw [← List.append_assoc, List.take_left' (by simp), List.append_assoc]

theorem batch_clear (h : BatchCommandHeader) (r : Bytes) :
    (batchCommandHeader.put h ++ r).take 4 ++ put32 0 ++ (batchCommandHeader.put h ++ r).drop 8 =
      batchCommandHeader.put ⟨h.count, 0⟩ ++ r := by
  change (put32 h.count ++ put32 h.reserved ++ r).take 4 ++ put32 0 ++
    (put32 h.count ++ put32 h.reserved ++ r).drop 8 = put32 h.count ++ put32 0 ++ r
  rw [List.drop_left' (by simp), List.append_assoc (put32 h.count), List.take_left' (by simp)]

theorem limit_reserved {reserved : UInt32} (h : ¬ (reserved < 1 ∨ reserved > 2)) :
    ¬ (reserved.toInt32 < 1 ∨ reserved.toInt32 > 2) := by
  have hcases : reserved = 1 ∨ reserved = 2 := by
    simp only [gt_iff_lt, not_or, UInt32.lt_iff_toNat_lt, ← UInt32.toNat_inj] at h ⊢
    have h1 : (1 : UInt32).toNat = 1 := by decide
    have h2 : (2 : UInt32).toNat = 2 := by decide
    omega
  obtain rfl | rfl := hcases <;> decide

/-- **What is accepted was sent**: an accepted payload, its unused word aside, is the frame of a call with the
accepted command. -/
theorem commandDecode_inv {t : FrameType} (hn : nEmbd ≠ 0) (hp : p.length ≤ uint32Max)
    (h : commandDecode nEmbd malloc p t = .ok c) :
    ∃ r : Request, (∀ image ∈ r.images, image.Sound nEmbd) ∧ r.command = c ∧
      r.send nEmbd = some (t, clearUnused t p) := by
  cases t with
  | error => exact nomatch h
  | sync =>
    obtain ⟨c', hc, h⟩ := bind_ok.1 h
    obtain ⟨hflags, h⟩ := rejectIf_bind_ok.1 h
    obtain ⟨s, tokens, flags, hput, rfl⟩ := decodeTokens_inv hc
    obtain rfl : flags = 0 := not_not.1 hflags
    exact ⟨.sync s tokens, nofun, Except.ok.inj h,
      tokenCommand_eq_some.2 ⟨length_tokenCommand ▸ hput ▸ hp, rfl, hput.symm⟩⟩
  | verify =>
    obtain ⟨c', hc, h⟩ := bind_ok.1 h
    obtain ⟨hflags, h⟩ := rejectIf_bind_ok.1 h
    obtain ⟨s, tokens, flags, hput, rfl⟩ := decodeTokens_inv hc
    refine ⟨.verify s tokens flags, nofun, Except.ok.inj h, Option.ite_none_left_eq_some.2 ⟨?_,
      tokenCommand_eq_some.2 ⟨length_tokenCommand ▸ hput ▸ hp, rfl, hput.symm⟩⟩⟩
    intro hvalid
    refine hflags ⟨?_, hvalid⟩
    rintro (hzero : flags = 0)
    exact hvalid (hzero ▸ by decide)
  | syncMultimodal =>
    obtain ⟨s, tokens, images, hs, hd, hput, rfl⟩ := decodeMultimodal_inv hp h
    exact ⟨.syncMultimodal s tokens images, hs, rfl, (multimodal_eq_some hs).2 ⟨hn, hd, hp, rfl, hput⟩⟩
  | sessionCreate =>
    obtain ⟨a, rfl, h'⟩ := fixed_inv h
    obtain ⟨-, h'⟩ := rejectIf_bind_ok.1 h'
    exact ⟨.sessionCreate a.sessionId a.value, nofun, Except.ok.inj h', by rw [clearUnused, value_clear]; rfl⟩
  | rewind =>
    obtain ⟨a, rfl, h'⟩ := fixed_inv h
    obtain ⟨-, h'⟩ := rejectIf_bind_ok.1 h'
    exact ⟨.rewind a.sessionId a.value, nofun, Except.ok.inj h', by rw [clearUnused, value_clear]; rfl⟩
  | specRestore =>
    obtain ⟨⟨s, v, reserved⟩, rfl, h'⟩ := fixed_inv h
    obtain ⟨hbad, h'⟩ := rejectIf_bind_ok.1 h'
    obtain ⟨hv, hr⟩ := not_or.1 fun h => hbad ⟨rfl, h⟩
    obtain rfl : reserved = 0 := not_not.1 hr
    exact ⟨.specRestore s v, nofun, Except.ok.inj h', if_neg hv⟩
  | sessionDestroy =>
    obtain ⟨s, rfl, h'⟩ := fixed_inv (R := Record.word64) h
    exact ⟨.sessionDestroy s, nofun, Except.ok.inj h', rfl⟩
  | invalidate =>
    obtain ⟨s, rfl, h'⟩ := fixed_inv (R := Record.word64) h
    exact ⟨.invalidate s, nofun, Except.ok.inj h', rfl⟩
  | eval =>
    obtain ⟨⟨s, q, v, reserved⟩, rfl, h'⟩ := fixed_inv h
    obtain ⟨hr, h'⟩ := rejectIf_bind_ok.1 h'
    obtain rfl : reserved = 0 := not_not.1 hr
    exact ⟨.eval s q v, nofun, Except.ok.inj h', rfl⟩
  | glmMtp =>
    obtain ⟨a, rfl, h'⟩ := fixed_inv h
    obtain ⟨hr, h'⟩ := rejectIf_bind_ok.1 h'
    exact ⟨.glmMtp a.sessionId a.seq a.token a.reserved.toInt32, nofun, Except.ok.inj h',
      if_neg (limit_reserved hr)⟩
  | dsparkDraft =>
    obtain ⟨⟨s, v, pos, mode, reserved⟩, rfl, h'⟩ := fixed_inv h
    obtain ⟨hbad, h'⟩ := rejectIf_bind_ok.1 h'
    simp only [not_or] at hbad
    obtain ⟨hpos, hv, hr, hmode⟩ := hbad
    obtain rfl : reserved = 0 := not_not.1 hr
    refine ⟨.dsparkDraft s v pos mode, nofun, Except.ok.inj h', if_neg ?_⟩
    simp only [not_or]
    exact ⟨hpos, hv, hmode⟩
  | evalBatch =>
    obtain ⟨-, h⟩ := rejectIf_bind_ok.1 h
    obtain ⟨head, hhead, h⟩ := fetch_bind_ok.1 h
    obtain ⟨hwant, h⟩ := rejectIf_bind_ok.1 h
    obtain ⟨-, h⟩ := unlessGot_bind_ok.1 h
    obtain ⟨items, hitems, h⟩ := fetch_bind_ok.1 h
    obtain ⟨-, hslice⟩ := Record.put_of_readAt hhead
    obtain ⟨-, hcount, hslice'⟩ := Record.putAll_of_readAll hitems
    obtain ⟨hne, hwant⟩ := not_or.1 hwant
    have hsplit := payload_split (not_not.1 hwant)
    rw [hslice, Nat.mul_comm, hslice'] at hsplit
    refine ⟨.evalBatch items, nofun, Except.ok.inj h, ?_⟩
    refine Option.ite_none_left_eq_some.2 ⟨not_or.2 ⟨?_, ?_⟩, ?_⟩
    · rw [hcount]
      exact fun h => hne (UInt32.toNat_inj.1 h)
    · rw [hcount, not_not.1 hwant]
      exact Nat.not_lt.2 hp
    · rw [hcount, UInt32.ofNat_toNat, clearUnused, hsplit, batch_clear]
  | mixedBatch =>
    obtain ⟨-, h⟩ := rejectIf_bind_ok.1 h
    obtain ⟨head, hhead, h⟩ := fetch_bind_ok.1 h
    obtain ⟨hwant, h⟩ := rejectIf_bind_ok.1 h
    obtain ⟨-, h⟩ := unlessGot_bind_ok.1 h
    obtain ⟨tokens, htokens, h⟩ := fetch_bind_ok.1 h
    obtain ⟨items, hitems, h⟩ := fetch_bind_ok.1 h
    obtain ⟨-, hslice⟩ := Record.put_of_readAt hhead
    obtain ⟨-, hcount, hslice'⟩ := Record.putAll_of_readAll htokens
    obtain ⟨-, hcount', hslice''⟩ := Record.putAll_of_readAll hitems
    obtain ⟨hprompt, hwant⟩ := not_or.1 hwant
    obtain ⟨hitemCount, hwant⟩ := not_or.1 hwant
    have hsum := not_not.1 hwant
    rw [Nat.add_assoc] at hsum
    have hsplit := payload_split hsum
    rw [← slice_append_slice, hslice, Nat.mul_comm _ int32.width, hslice', Nat.mul_comm int32.width,
      Nat.mul_comm _ batchItem.width, hslice''] at hsplit
    refine ⟨.mixedBatch head.prefillSessionId tokens items, nofun, Except.ok.inj h, ?_⟩
    refine Option.ite_none_left_eq_some.2 ⟨not_or.2 ⟨?_, not_or.2 ⟨?_, ?_⟩⟩, ?_⟩
    · rw [hcount]
      exact fun h => hprompt (UInt32.toNat_inj.1 h)
    · rw [hcount']
      exact fun h => hitemCount (UInt32.toNat_inj.1 h)
    · rw [hcount, hcount', not_not.1 hwant]
      exact Nat.not_lt.2 hp
    · rw [hcount, hcount', UInt32.ofNat_toNat, UInt32.ofNat_toNat, List.append_assoc]
      exact congrArg (fun q => some (FrameType.mixedBatch, q)) hsplit.symm
  | stop =>
    obtain ⟨hlen, h⟩ := rejectIf_bind_ok.1 h
    obtain rfl : p = [] := List.length_eq_zero_iff.1 (not_not.1 hlen)
    exact ⟨.stop, nofun, Except.ok.inj h, rfl⟩

end Accepted

end Ds4.Tp
