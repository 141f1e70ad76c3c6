import Ds4.Lib.Record

/-!
# Commands of a tensor-parallel pair

The leader mirrors every operation on its sessions to the worker as a frame, a type and a payload.
`Request` is a call of one of the `ds4_tp_send_*` functions with `Request.send` the frame it makes, and
`commandDecode` is the worker's `switch` over the type. The structures of the wire are records, and
what an image needs not carry (its layout and grid) is not on the wire. How a frame travels is in
`Ds4.Tp.Mailbox`.
-/

namespace Ds4.Tp

open Lib

/-- `UINT32_MAX`. -/
def uint32Max : Nat := 2 ^ 32 - 1

/-- `UINT64_MAX`, which is `SIZE_MAX`. -/
def uint64Max : Nat := 2 ^ 64 - 1

/-! ## Frames -/

/-- `ds4_tp_frame_type`, the frames of a command. -/
inductive FrameType
  | error | sync | eval | rewind | invalidate | stop | verify | sessionCreate | sessionDestroy | evalBatch
  | mixedBatch | syncMultimodal | glmMtp | dsparkDraft | specRestore
  deriving DecidableEq, Repr

/-- The number of a frame. -/
def FrameType.code : FrameType → UInt32
  | .error => -1
  | .sync => 1
  | .eval => 2
  | .rewind => 3
  | .invalidate => 4
  | .stop => 5
  | .verify => 11
  | .sessionCreate => 13
  | .sessionDestroy => 14
  | .evalBatch => 15
  | .mixedBatch => 16
  | .syncMultimodal => 18
  | .glmMtp => 21
  | .dsparkDraft => 23
  | .specRestore => 24

/-- The frames the receiver has a case for. -/
def commandFrames : List FrameType :=
  [.sync, .verify, .syncMultimodal, .sessionCreate, .rewind, .specRestore, .sessionDestroy, .invalidate, .eval,
    .glmMtp, .dsparkDraft, .evalBatch, .mixedBatch, .stop]

/-- The case of the receiver's `switch`, `none` in its default. -/
def FrameType.ofCode (code : UInt32) : Option FrameType := commandFrames.find? fun t => t.code == code

/-! ## The structures of the wire -/

/-- An `int32_t`. -/
def int32 : Record Int32 := Record.word32.named UInt32.toInt32 Int32.toUInt32 (fun _ => rfl) (fun _ => rfl)

/-- `ds4_tp_frame_header`. -/
structure FrameHeader where
  magic : UInt32
  type : UInt32
  bytes : UInt32

/-- `DS4_TP_MAGIC`. -/
def magic : UInt32 := 0x44533454

def frameHeader : Record FrameHeader :=
  (Record.word32.pair (Record.word32.pair Record.word32)).named (fun ⟨m, t, b⟩ => ⟨m, t, b⟩)
    (fun h => (h.magic, h.type, h.bytes)) (fun _ => rfl) (fun _ => rfl)

/-- `ds4_tp_token_command_header`; `reserved` carries the flags of a verify. -/
structure TokenCommandHeader where
  sessionId : UInt64
  count : UInt32
  reserved : UInt32

def tokenCommandHeader : Record TokenCommandHeader :=
  (Record.word64.pair (Record.word32.pair Record.word32)).named (fun ⟨s, c, r⟩ => ⟨s, c, r⟩)
    (fun h => (h.sessionId, h.count, h.reserved)) (fun _ => rfl) (fun _ => rfl)

/-- `ds4_tp_multimodal_command_header`. -/
structure MultimodalCommandHeader where
  sessionId : UInt64
  tokenCount : UInt32
  imageCount : UInt32

def multimodalCommandHeader : Record MultimodalCommandHeader :=
  (Record.word64.pair (Record.word32.pair Record.word32)).named (fun ⟨s, t, i⟩ => ⟨s, t, i⟩)
    (fun h => (h.sessionId, h.tokenCount, h.imageCount)) (fun _ => rfl) (fun _ => rfl)

/-- `ds4_tp_vision_wire`. -/
structure VisionWire where
  tokenStart : UInt32
  tokenCount : UInt32
  dataWidth : UInt32
  width : UInt32
  height : UInt32
  contentWidth : UInt32
  contentHeight : UInt32
  fingerprint : Vector UInt8 32

def visionWire : Record VisionWire :=
  (Record.word32.pair (Record.word32.pair (Record.word32.pair (Record.word32.pair (Record.word32.pair
    (Record.word32.pair (Record.word32.pair (Record.raw 32)))))))).named
    (fun ⟨s, c, d, w, h, cw, ch, f⟩ => ⟨s, c, d, w, h, cw, ch, f⟩)
    (fun v => (v.tokenStart, v.tokenCount, v.dataWidth, v.width, v.height, v.contentWidth, v.contentHeight,
      v.fingerprint)) (fun _ => rfl) (fun _ => rfl)

/-- `ds4_tp_value_command`. -/
structure ValueCommand where
  sessionId : UInt64
  value : Int32
  reserved : UInt32

def valueCommand : Record ValueCommand :=
  (Record.word64.pair (int32.pair Record.word32)).named (fun ⟨s, v, r⟩ => ⟨s, v, r⟩)
    (fun h => (h.sessionId, h.value, h.reserved)) (fun _ => rfl) (fun _ => rfl)

/-- `ds4_tp_eval_command`. -/
structure EvalCommand where
  sessionId : UInt64
  seq : UInt64
  token : Int32
  reserved : UInt32

def evalCommand : Record EvalCommand :=
  (Record.word64.pair (Record.word64.pair (int32.pair Record.word32))).named (fun ⟨s, q, t, r⟩ => ⟨s, q, t, r⟩)
    (fun h => (h.sessionId, h.seq, h.token, h.reserved)) (fun _ => rfl) (fun _ => rfl)

/-- `ds4_tp_dspark_draft_command`. -/
structure DsparkDraftCommand where
  sessionId : UInt64
  token : Int32
  pos : Int32
  mode : UInt32
  reserved : UInt32

def dsparkDraftCommand : Record DsparkDraftCommand :=
  (Record.word64.pair (int32.pair (int32.pair (Record.word32.pair Record.word32)))).named
    (fun ⟨s, t, p, m, r⟩ => ⟨s, t, p, m, r⟩) (fun h => (h.sessionId, h.token, h.pos, h.mode, h.reserved))
    (fun _ => rfl) (fun _ => rfl)

/-- `ds4_tp_batch_command_header`. -/
structure BatchCommandHeader where
  count : UInt32
  reserved : UInt32

def batchCommandHeader : Record BatchCommandHeader :=
  (Record.word32.pair Record.word32).named (fun ⟨c, r⟩ => ⟨c, r⟩) (fun h => (h.count, h.reserved)) (fun _ => rfl)
    (fun _ => rfl)

/-- `ds4_tp_batch_item`. -/
structure BatchItem where
  sessionId : UInt64
  token : Int32
  reserved : UInt32
  deriving DecidableEq

def batchItem : Record BatchItem :=
  (Record.word64.pair (int32.pair Record.word32)).named (fun ⟨s, t, r⟩ => ⟨s, t, r⟩)
    (fun h => (h.sessionId, h.token, h.reserved)) (fun _ => rfl) (fun _ => rfl)

/-- `ds4_tp_mixed_command_header`. -/
structure MixedCommandHeader where
  prefillSessionId : UInt64
  promptCount : UInt32
  itemCount : UInt32

def mixedCommandHeader : Record MixedCommandHeader :=
  (Record.word64.pair (Record.word32.pair Record.word32)).named (fun ⟨s, p, i⟩ => ⟨s, p, i⟩)
    (fun h => (h.prefillSessionId, h.promptCount, h.itemCount)) (fun _ => rfl) (fun _ => rfl)

/-! ## Commands -/

/-- `ds4_vision_embedding`; `data` are the rows' bytes, `none` for an image that is only described. -/
structure VisionEmbedding where
  data : Option Bytes
  tokenCount : UInt32
  layout : UInt32
  gridWidth : UInt32
  gridHeight : UInt32
  width : UInt32
  height : UInt32
  contentWidth : UInt32
  contentHeight : UInt32
  fingerprint : Vector UInt8 32
  deriving DecidableEq

/-- `ds4_vision_span`. -/
structure VisionSpan where
  tokenStart : UInt32
  embedding : VisionEmbedding
  deriving DecidableEq

/-- `ds4_tp_command`; the counts are the lists' lengths. -/
structure Command where
  type : FrameType
  sessionId : UInt64
  seq : UInt64
  value : Int32
  limit : Int32
  tokens : List Int32
  items : List BatchItem
  images : List VisionSpan
  deriving DecidableEq

/-- `ds4_tp_command_free`: the command without contents, which is no command. -/
def commandFree : Command := ⟨.error, 0, 0, 0, 0, [], [], []⟩

/-! ## Sending -/

/-- `tp_send_token_command_flags`. -/
def tpSendTokenCommandFlags (type : FrameType) (sessionId : UInt64) (tokens : List Int32) (flags : UInt32) :
    Option (FrameType × Bytes) :=
  let bytes64 := tokenCommandHeader.width + tokens.length * int32.width
  if bytes64 > uint32Max then none
  else some (type, tokenCommandHeader.put ⟨sessionId, .ofNat tokens.length, flags⟩ ++ int32.putAll tokens)

/-- `tp_verify_flags_valid`: bits 0 to 2 only, and a seed block only of a lockstep proposal. -/
def tpVerifyFlagsValid (flags : UInt32) : Bool :=
  flags &&& ~~~7 == 0 && (flags &&& 4 == 0 || flags &&& 2 != 0)

/-- The sizes that `ds4_tp_send_sync_multimodal` adds up before it writes, `none` when it refuses. -/
def multimodalBytes (nEmbd : UInt32) (bytes64 : Nat) : List VisionSpan → Option Nat
  | [] => some bytes64
  | image :: images =>
    let values := image.embedding.tokenCount.toNat * nEmbd.toNat
    if values > uint64Max / 4 then none
    else
      let addBytes := (visionWire.width + values * 4) % 2 ^ 64
      if image.embedding.data.isNone ∨ addBytes > uint32Max ∨ bytes64 > uint32Max - addBytes then none
      else multimodalBytes nEmbd (bytes64 + addBytes) images

/-- One image on the wire: its `ds4_tp_vision_wire` and its rows. -/
def putImage (nEmbd : UInt32) (image : VisionSpan) : Bytes :=
  let e := image.embedding
  visionWire.put ⟨image.tokenStart, e.tokenCount, nEmbd, e.width, e.height, e.contentWidth, e.contentHeight,
    e.fingerprint⟩ ++ (e.data.getD []).take (e.tokenCount.toNat * nEmbd.toNat * 4)

/-- `ds4_tp_send_sync_multimodal`. -/
def ds4TpSendSyncMultimodal (nEmbd : UInt32) (sessionId : UInt64) (tokens : List Int32)
    (images : List VisionSpan) : Option (FrameType × Bytes) :=
  let bytes64 := multimodalCommandHeader.width + tokens.length * int32.width
  if nEmbd = 0 ∨ bytes64 > uint32Max then none
  else (multimodalBytes nEmbd bytes64 images).map fun _ =>
    (.syncMultimodal, multimodalCommandHeader.put ⟨sessionId, .ofNat tokens.length, .ofNat images.length⟩ ++
      int32.putAll tokens ++ images.flatMap (putImage nEmbd))

/-- `ds4_tp_send_eval_batch`. -/
def ds4TpSendEvalBatch (items : List BatchItem) : Option (FrameType × Bytes) :=
  let bytes64 := batchCommandHeader.width + items.length * batchItem.width
  if items.length = 0 ∨ bytes64 > uint32Max then none
  else some (.evalBatch, batchCommandHeader.put ⟨.ofNat items.length, 0⟩ ++ batchItem.putAll items)

/-- `ds4_tp_send_mixed_batch`. -/
def ds4TpSendMixedBatch (prefillSessionId : UInt64) (prompt : List Int32) (items : List BatchItem) :
    Option (FrameType × Bytes) :=
  let bytes64 := mixedCommandHeader.width + prompt.length * int32.width + items.length * batchItem.width
  if prompt.length = 0 ∨ items.length = 0 ∨ bytes64 > uint32Max then none
  else some (.mixedBatch, mixedCommandHeader.put ⟨prefillSessionId, .ofNat prompt.length, .ofNat items.length⟩ ++
    int32.putAll prompt ++ batchItem.putAll items)

/-- `DS4_TP_DSPARK_MAINTAIN` and `DS4_TP_DSPARK_DRAFT`. -/
def dsparkMode (mode : UInt32) : Bool := mode == 1 || mode == 2

/-- A call of one of the `ds4_tp_send_*` functions. -/
inductive Request
  | sessionCreate (sessionId : UInt64) (ctxSize : Int32)
  | sessionDestroy (sessionId : UInt64)
  | sync (sessionId : UInt64) (tokens : List Int32)
  | syncMultimodal (sessionId : UInt64) (tokens : List Int32) (images : List VisionSpan)
  | eval (sessionId seq : UInt64) (token : Int32)
  | glmMtp (sessionId seq : UInt64) (token limit : Int32)
  | rewind (sessionId : UInt64) (pos : Int32)
  | specRestore (sessionId : UInt64) (pos : Int32)
  | invalidate (sessionId : UInt64)
  | evalBatch (items : List BatchItem)
  | mixedBatch (prefillSessionId : UInt64) (prompt : List Int32) (items : List BatchItem)
  | verify (sessionId : UInt64) (drafts : List Int32) (flags : UInt32)
  | dsparkDraft (sessionId : UInt64) (token pos : Int32) (mode : UInt32)
  | stop
  deriving DecidableEq

/-- The frame that a call hands to `tp_send_command`, `none` when it refuses. -/
def Request.send (nEmbd : UInt32) : Request → Option (FrameType × Bytes)
  | .sessionCreate s ctxSize => some (.sessionCreate, valueCommand.put ⟨s, ctxSize, 0⟩)
  | .sessionDestroy s => some (.sessionDestroy, put64 s)
  | .sync s tokens => tpSendTokenCommandFlags .sync s tokens 0
  | .syncMultimodal s tokens images => ds4TpSendSyncMultimodal nEmbd s tokens images
  | .eval s seq token => some (.eval, evalCommand.put ⟨s, seq, token, 0⟩)
  | .glmMtp s seq token limit =>
    if limit < 1 ∨ limit > 2 then none else some (.glmMtp, evalCommand.put ⟨s, seq, token, limit.toUInt32⟩)
  | .rewind s pos => some (.rewind, valueCommand.put ⟨s, pos, 0⟩)
  | .specRestore s pos => if pos < 0 then none else some (.specRestore, valueCommand.put ⟨s, pos, 0⟩)
  | .invalidate s => some (.invalidate, put64 s)
  | .evalBatch items => ds4TpSendEvalBatch items
  | .mixedBatch s prompt items => ds4TpSendMixedBatch s prompt items
  | .verify s drafts flags =>
    if ¬ tpVerifyFlagsValid flags then none else tpSendTokenCommandFlags .verify s drafts flags
  | .dsparkDraft s token pos mode =>
    if pos ≤ 0 ∨ token < 0 ∨ ¬ dsparkMode mode then none
    else some (.dsparkDraft, dsparkDraftCommand.put ⟨s, token, pos, mode, 0⟩)
  | .stop => some (.stop, [])

/-! ## Decoding -/

/-- What the receiver allocates. -/
inductive Site
  | payload | tokens | images | items | data (i : Nat)
  deriving DecidableEq

/-- Why a payload is no command: rejected, an allocation failed with its text, or a read left the payload. -/
inductive Stop
  | rejected | allocation (text : String) | outside
  deriving DecidableEq

/-- What decodes a payload. -/
abbrev Decode := Except Stop

/-- `return 0` and `goto malformed` under a condition. -/
def rejectIf (c : Prop) [Decidable c] : Decode Unit := if c then .error .rejected else .ok ()

/-- A failed allocation. -/
def unlessGot (got : Bool) (stop : Stop) : Decode Unit := if got then .ok () else .error stop

/-- A read of the payload. -/
def fetch {α : Type} (o : Option α) : Decode α := o.elim (.error .outside) .ok

/-- The span of an image: what the wire says of it, and zero for the rest. -/
def VisionWire.image (wire : VisionWire) (data : Bytes) : VisionSpan :=
  ⟨wire.tokenStart, some data, wire.tokenCount, 0, 0, 0, wire.width, wire.height, wire.contentWidth,
    wire.contentHeight, wire.fingerprint⟩

section Decoding

variable (nEmbd : UInt32) (malloc : Site → Bool) (payload : Bytes)

/-- `tp_command_decode_tokens`. -/
def tpCommandDecodeTokens (type : FrameType) : Decode Command := do
  rejectIf (payload.length < tokenCommandHeader.width)
  let h ← fetch (tokenCommandHeader.readAt payload 0)
  rejectIf (tokenCommandHeader.width + h.count.toNat * int32.width ≠ payload.length)
  unlessGot (malloc .tokens) (.allocation "tp: command token allocation failed")
  let tokens ← fetch (int32.readAll payload tokenCommandHeader.width h.count.toNat)
  return { commandFree with type := type, sessionId := h.sessionId, tokens := tokens, value := h.reserved.toInt32 }

/-- The images of a multimodal sync, from the `i`-th at `pos` on. -/
def decodeImages : Nat → Nat → Nat → Decode (List VisionSpan × Nat)
  | 0, _, pos => .ok ([], pos)
  | k + 1, i, pos => do
    rejectIf (pos + visionWire.width > payload.length)
    let wire ← fetch (visionWire.readAt payload pos)
    let values := wire.tokenCount.toNat * wire.dataWidth.toNat
    rejectIf (wire.tokenCount = 0 ∨ wire.dataWidth ≠ nEmbd ∨ wire.width = 0 ∨ values > uint64Max / 4)
    rejectIf (values * 4 > payload.length - (pos + visionWire.width))
    unlessGot (malloc (.data i)) .rejected
    let data ← fetch (bytesAt payload (pos + visionWire.width) (values * 4))
    let (images, pos) ← decodeImages k (i + 1) (pos + visionWire.width + values * 4)
    return (wire.image data :: images, pos)

/-- `tp_command_decode_multimodal`. -/
def tpCommandDecodeMultimodal : Decode Command := do
  rejectIf (payload.length < multimodalCommandHeader.width)
  let h ← fetch (multimodalCommandHeader.readAt payload 0)
  let pos := multimodalCommandHeader.width
  let tokenBytes := h.tokenCount.toNat * int32.width
  rejectIf (pos + tokenBytes > payload.length)
  rejectIf (h.imageCount.toNat > (payload.length - pos - tokenBytes) / visionWire.width)
  unlessGot (malloc .tokens && (h.imageCount == 0 || malloc .images))
    (.allocation "tp: multimodal command allocation failed")
  let tokens ← fetch (int32.readAll payload pos h.tokenCount.toNat)
  let (images, pos) ← decodeImages nEmbd malloc payload h.imageCount.toNat 0 (pos + tokenBytes)
  rejectIf (pos ≠ payload.length)
  return { commandFree with
    type := .syncMultimodal, sessionId := h.sessionId, tokens := tokens, images := images }

/-- The `switch` of `ds4_tp_recv_command`. -/
def commandDecode : FrameType → Decode Command
  | .sync => do
    let c ← tpCommandDecodeTokens malloc payload .sync
    rejectIf (c.value.toUInt32 ≠ 0)
    return c
  | .verify => do
    let c ← tpCommandDecodeTokens malloc payload .verify
    rejectIf (c.value.toUInt32 ≠ 0 ∧ ¬ tpVerifyFlagsValid c.value.toUInt32)
    return c
  | .syncMultimodal => tpCommandDecodeMultimodal nEmbd malloc payload
  | .sessionCreate => value .sessionCreate
  | .rewind => value .rewind
  | .specRestore => value .specRestore
  | .sessionDestroy => session .sessionDestroy
  | .invalidate => session .invalidate
  | .eval => do
    rejectIf (payload.length ≠ evalCommand.width)
    let msg ← fetch (evalCommand.readAt payload 0)
    rejectIf (msg.reserved ≠ 0)
    return { commandFree with type := .eval, sessionId := msg.sessionId, seq := msg.seq, value := msg.token }
  | .glmMtp => do
    rejectIf (payload.length ≠ evalCommand.width)
    let msg ← fetch (evalCommand.readAt payload 0)
    rejectIf (msg.reserved < 1 ∨ msg.reserved > 2)
    return { commandFree with
      type := .glmMtp, sessionId := msg.sessionId, seq := msg.seq, value := msg.token,
      limit := msg.reserved.toInt32 }
  | .dsparkDraft => do
    rejectIf (payload.length ≠ dsparkDraftCommand.width)
    let msg ← fetch (dsparkDraftCommand.readAt payload 0)
    rejectIf (msg.pos ≤ 0 ∨ msg.token < 0 ∨ msg.reserved ≠ 0 ∨ ¬ dsparkMode msg.mode)
    return { commandFree with
      type := .dsparkDraft, sessionId := msg.sessionId, value := msg.token, limit := msg.pos,
      seq := msg.mode.toUInt64 }
  | .evalBatch => do
    rejectIf (payload.length < batchCommandHeader.width)
    let h ← fetch (batchCommandHeader.readAt payload 0)
    rejectIf (h.count = 0 ∨ batchCommandHeader.width + h.count.toNat * batchItem.width ≠ payload.length)
    unlessGot (malloc .items) (.allocation "tp: command allocation failed")
    let items ← fetch (batchItem.readAll payload batchCommandHeader.width h.count.toNat)
    return { commandFree with type := .evalBatch, items := items }
  | .mixedBatch => do
    rejectIf (payload.length < mixedCommandHeader.width)
    let h ← fetch (mixedCommandHeader.readAt payload 0)
    let tokenBytes := h.promptCount.toNat * int32.width
    rejectIf (h.promptCount = 0 ∨ h.itemCount = 0 ∨
      mixedCommandHeader.width + tokenBytes + h.itemCount.toNat * batchItem.width ≠ payload.length)
    unlessGot (malloc .tokens && malloc .items) (.allocation "tp: command allocation failed")
    let tokens ← fetch (int32.readAll payload mixedCommandHeader.width h.promptCount.toNat)
    let items ← fetch (batchItem.readAll payload (mixedCommandHeader.width + tokenBytes) h.itemCount.toNat)
    return { commandFree with
      type := .mixedBatch, sessionId := h.prefillSessionId, tokens := tokens, items := items }
  | .stop => do
    rejectIf (payload.length ≠ 0)
    return { commandFree with type := .stop }
  | .error => .error .rejected
where
  /-- A create, a rewind or a restore; only the restore looks at the sign and at `reserved`. -/
  value (type : FrameType) : Decode Command := do
    rejectIf (payload.length ≠ valueCommand.width)
    let msg ← fetch (valueCommand.readAt payload 0)
    rejectIf (type = .specRestore ∧ (msg.value < 0 ∨ msg.reserved ≠ 0))
    return { commandFree with type := type, sessionId := msg.sessionId, value := msg.value }
  /-- A destroy or an invalidate. -/
  session (type : FrameType) : Decode Command := do
    rejectIf (payload.length ≠ Record.word64.width)
    let sessionId ← fetch (Record.word64.readAt payload 0)
    return { commandFree with type := type, sessionId := sessionId }

end Decoding

end Ds4.Tp
