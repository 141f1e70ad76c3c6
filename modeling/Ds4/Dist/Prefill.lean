import Ds4.Lib.Words

/-!
# Prefill through a route

A long prompt goes through a route in chunks. `dist_coordinator_prefill_prompt` evaluates them one by one;
`dist_coordinator_prefill_prompt_pipelined` runs the own layers of a chunk while the workers are busy with
the ones before. The calling thread produces chunks into a ring of slots, a sender thread writes the slots
downstream, and a result reader takes the answers. A step is what one thread does in one section of a mutex,
or one call that may fail. A thread that finds nothing to do sleeps on a condition until another thread signals
it; steps that wait for the network, and spurious wake-ups, are marked.
-/

namespace Ds4.Dist

open Ds4.Lib

/-! ## Token hashes -/

/-- `DS4_DIST_TOKEN_HASH_INIT` and `DS4_DIST_TOKEN_HASH_PRIME`. -/
abbrev tokenHashInit : UInt64 := 1469598103934665603
abbrev tokenHashPrime : UInt64 := 1099511628211

/-- `dist_token_hash_update`. -/
def tokenHashUpdate (h : UInt64) (token : UInt32) : UInt64 :=
  ([0, 8, 16, 24] : List UInt32).foldl (fun h i => (h ^^^ ((token >>> i) &&& 0xff).toUInt64) * tokenHashPrime) h

/-- `dist_token_hash_update_span`. -/
def tokenHashUpdateSpan (h : UInt64) (tokens : List UInt32) : UInt64 := tokens.foldl tokenHashUpdate h

/-- `dist_token_hash_prefix`. -/
def tokenHashPrefix (tokens : List UInt32) : UInt64 := tokenHashUpdateSpan tokenHashInit tokens

/-! ## Chunks -/

/-- What a prefill is given: the span of the prompt, the limits, and what the engine does. -/
structure PrefillJob (σ η : Type) where
  prompt : List UInt32
  spanStart : Nat
  nTokens : Nat
  chunkCap : Nat
  resetFirstChunk : Bool
  /-- `dist_prefill_send_depth` and `dist_coordinator_prefill_window`. -/
  slotCount : Nat
  flowWindow : Nat
  requestId : UInt64
  /-- `ds4_engine_hidden_f32_values`, and the bytes of a row of logits. -/
  hcValues : Nat
  logitsBytes : Nat
  /-- The last entry of the route does not give logits. -/
  allowHidden : Bool
  /-- `DS4_DIST_DISABLE_PREFILL_ACK_ONLY` is not set. -/
  ackOnly : Bool
  /-- `ds4_session_layer_slice_reset`. -/
  layerSliceReset : σ → σ
  /-- `ds4_session_eval_layer_slice`: the session and the hidden rows. -/
  evalLayerSlice : σ → List UInt32 → Nat → σ × η
  /-- `ds4_session_eval_output_head_from_hc`. -/
  evalOutputHead : σ → Bytes → Nat → Bytes
  span_le : spanStart + nTokens ≤ prompt.length
  nTokens_pos : 0 < nTokens
  chunkCap_pos : 0 < chunkCap
  slotCount_pos : 0 < slotCount
  flowWindow_pos : 0 < flowWindow

/-- A WORK frame of a chunk. -/
structure WorkFrame (η : Type) where
  tokens : List UInt32
  pos : Nat
  requestId : UInt64
  prefixHash : UInt64
  resultHash : UInt64
  resetSession : Bool
  ackOnly : Bool
  hidden : η
  hiddenBytes : Nat

/-- `DS4_DIST_RESULT_ACK`, `DS4_DIST_RESULT_HIDDEN_STATE`, `DS4_DIST_RESULT_LOGITS`. -/
inductive ResultKind
  | ack
  | hiddenState
  | logits
  | other (kind : UInt32)
deriving DecidableEq

/-- What `dist_recv_result_alloc` gives: the result of the request that was asked for. -/
structure SpanResult where
  kind : ResultKind
  resultHash : UInt64
  payload : Bytes

namespace PrefillJob

variable {σ η : Type} (j : PrefillJob σ η)

/-- `span_end`. -/
def spanEnd : Nat := j.spanStart + j.nTokens

/-- `chunk_count`. -/
def chunkCount : Nat := (j.nTokens + j.chunkCap - 1) / j.chunkCap

/-- The tokens that are left of a position, a chunk at most. -/
def chunkAt (pos : Nat) : Nat := if j.spanEnd - pos < j.chunkCap then j.spanEnd - pos else j.chunkCap

/-- The tokens of a chunk. -/
def tokensAt (pos : Nat) : List UInt32 := (j.prompt.drop pos).take (j.chunkAt pos)

/-- The loop that fills `expected_hashes`. -/
def expectedHashesFrom : Nat → Nat → UInt64 → List UInt64
  | 0, _, _ => []
  | n + 1, hashPos, h =>
    let h := tokenHashUpdateSpan h (j.tokensAt hashPos)
    h :: expectedHashesFrom n (hashPos + j.chunkAt hashPos) h

/-- `expected_hashes`. -/
def expectedHashes : List UInt64 :=
  j.expectedHashesFrom j.chunkCount j.spanStart (tokenHashPrefix (j.prompt.take j.spanStart))

/-- The own layers of a chunk. -/
def evalChunk (session : σ) (pos : Nat) : σ × η :=
  j.evalLayerSlice (if pos = j.spanStart ∧ j.resetFirstChunk = true then j.layerSliceReset session else session)
    (j.tokensAt pos) pos

/-! ### One by one -/

/-- `dist_coordinator_eval_span` up to the frame: the own layers, and what is sent. -/
def evalSpan (session : σ) (pos : Nat) (requestId : UInt64) : σ × WorkFrame η :=
  let prefixHash := tokenHashPrefix (j.prompt.take pos)
  let (session, hidden) := j.evalChunk session pos
  (session,
    { tokens := j.tokensAt pos
      pos := pos
      requestId := requestId
      prefixHash := prefixHash
      resultHash := tokenHashUpdateSpan prefixHash (j.tokensAt pos)
      resetSession := decide (pos = j.spanStart) && j.resetFirstChunk
      ackOnly := false
      hidden := hidden
      hiddenBytes := j.chunkAt pos * j.hcValues * 4 })

/-- What `dist_coordinator_eval_remote_on_fd` makes of a result: logits, or nothing. -/
def spanLogits (session : σ) (pos : Nat) (r : SpanResult) : Option Bytes :=
  if r.kind = .logits ∧ r.payload.length = j.logitsBytes then some r.payload
  else if r.kind = .hiddenState ∧ r.payload.length = j.chunkAt pos * j.hcValues * 4 then
    some (j.evalOutputHead session r.payload (j.chunkAt pos))
  else none

/-- The loop over the chunks, `n` at most: the session, the request id, and the frames. -/
def sequentialFrom : Nat → Nat → σ → UInt64 → σ × UInt64 × List (WorkFrame η)
  | 0, _, session, id => (session, id, [])
  | n + 1, pos, session, id =>
    if pos < j.spanEnd then
      let (session, frame) := j.evalSpan session pos id
      let (session, id, frames) := sequentialFrom n (pos + j.chunkAt pos) session (id + 1)
      (session, id, frame :: frames)
    else (session, id, [])

/-- `dist_coordinator_prefill_prompt`, chunk by chunk. -/
def sequential (session : σ) : σ × UInt64 × List (WorkFrame η) :=
  j.sequentialFrom j.nTokens j.spanStart session j.requestId

end PrefillJob

/-! ## The threads -/

/-- `ds4_dist_prefill_send_slot`. -/
structure SendSlot (η : Type) where
  pos : Nat
  nTokens : Nat
  hiddenBytes : Nat
  requestId : UInt64
  prefixHash : UInt64
  resultHash : UInt64
  resetSession : Bool
  ackOnly : Bool
  hidden : η

/-- Where the calling thread is. -/
inductive ProducerAt
  /-- At the head of the loop, in `dist_prefill_reader_wait_flow_window`. -/
  | checking
  /-- There, in `pthread_cond_wait` on `progress_cv`, and behind it. -/
  | sleepingFlow
  | wokenFlow
  /-- `dist_prefill_reader_emit_progress` before it returns: there is room, or the reader has stopped. -/
  | reporting (room : Bool)
  /-- `dist_prefill_sender_acquire_slot`, and its `pthread_cond_wait` on `can_enqueue`. -/
  | acquiring
  | sleepingSlot
  /-- The own layers run. -/
  | evaluating
  /-- The fields of the slot are written. -/
  | filling
  /-- `dist_prefill_sender_enqueue_slot`. -/
  | enqueuing
  /-- The counters advance. -/
  | advancing
  /-- `dist_prefill_sender_finish`, or `dist_prefill_sender_cancel` when something failed. -/
  | finishing (failed : Bool)
  /-- The shutdown of the connection by `dist_prefill_sender_cancel`. -/
  | shuttingSender
  | joiningSender (failed : Bool)
  /-- The shutdown of the connection behind a failure. -/
  | closing
  /-- `dist_prefill_reader_wait_emit_progress`, its `pthread_cond_wait` on `progress_cv`, and its two further
  sections with what the first has read. -/
  | waitingProgress
  | sleepingProgress
  | emitting (done : Bool)
  | concluding (done : Bool)
  | joiningReader (failed : Bool)
  /-- The returned value, and the logits. -/
  | returned (rc : Int) (logits : Option Bytes)

/-- Where the sender thread is. -/
inductive SenderAt
  | waiting
  /-- In `pthread_cond_wait` on `can_dequeue`. -/
  | sleeping
  /-- `dist_coordinator_send_remote_work_on_fd`. -/
  | sending
  | sendDone
  | sendFailed
  /-- The shutdown of the connection behind a failed send. -/
  | stopping
  | exited

/-- Where the reader thread is. -/
inductive ReaderAt
  | receiving (i : Nat)
  /-- Something is wrong with an answer; the connection is shut down. -/
  | failing (i : Nat)
  | givingUp (i : Nat)
  /-- `dist_prefill_reader_signal_progress`. -/
  | signalling (completed : Nat) (final : Bool)
  | closing
  | exited

/-- The shared records of a pipelined prefill, the threads, and what was done so far. -/
structure Pipeline (σ η : Type) where
  /-- `ds4_dist_prefill_sender`. -/
  slots : Nat → SendSlot η
  head : Nat
  tail : Nat
  queued : Nat
  producerDone : Bool
  stop : Bool
  senderFailed : Bool
  /-- `ds4_dist_prefill_result_reader`. -/
  progressCompleted : Nat
  progressDone : Bool
  readerRc : Int
  final : Option SpanResult
  /-- The calling thread. -/
  session : σ
  pos : Nat
  requestId : UInt64
  nextPrefixHash : UInt64
  submittedChunks : Nat
  reportedChunks : Nat
  slot : Nat
  producer : ProducerAt
  sender : SenderAt
  reader : ReaderAt
  /-- The first-hop connection was shut down. -/
  shut : Bool
  /-- The slots that were queued, and those that were taken out again. -/
  put : Nat
  taken : Nat
  /-- The frames that were written whole, and the results that were accepted. -/
  sent : List (WorkFrame η)
  answered : List SpanResult

namespace Pipeline

variable {σ η : Type} (j : PrefillJob σ η)

/-- The state when both threads have been started. -/
def init (slots : Nat → SendSlot η) (session : σ) : Pipeline σ η where
  slots := slots
  head := 0
  tail := 0
  queued := 0
  producerDone := false
  stop := false
  senderFailed := false
  progressCompleted := 0
  progressDone := false
  readerRc := 0
  final := none
  session := session
  pos := j.spanStart
  requestId := j.requestId
  nextPrefixHash := tokenHashPrefix (j.prompt.take j.spanStart)
  submittedChunks := 0
  reportedChunks := 0
  slot := 0
  producer := .checking
  sender := .waiting
  reader := .receiving 0
  shut := false
  put := 0
  taken := 0
  sent := []
  answered := []

/-- The frame that is sent for a slot. -/
def frameOf (slot : SendSlot η) : WorkFrame η where
  tokens := (j.prompt.drop slot.pos).take slot.nTokens
  pos := slot.pos
  requestId := slot.requestId
  prefixHash := slot.prefixHash
  resultHash := slot.resultHash
  resetSession := slot.resetSession
  ackOnly := slot.ackOnly
  hidden := slot.hidden
  hiddenBytes := slot.hiddenBytes

/-- What the reader accepts for a chunk. -/
def Accepts (i : Nat) (r : SpanResult) : Prop :=
  let pos0 := i * j.chunkCap
  let remaining := j.nTokens - pos0
  let chunk := if remaining < j.chunkCap then remaining else j.chunkCap
  r.resultHash = j.expectedHashes.getD i 0 ∧
    (¬i + 1 = j.chunkCount ∧ r.kind = .ack ∧ r.payload.length = 0 ∨
      r.kind = .logits ∧ r.payload.length = j.logitsBytes ∨
      j.allowHidden = true ∧ r.kind = .hiddenState ∧ r.payload.length = chunk * j.hcValues * 4)

/-- `dist_prefill_reader_emit_progress`. -/
def emitProgress (s : Pipeline σ η) : Pipeline σ η :=
  { s with reportedChunks := max s.reportedChunks s.progressCompleted }

/-- `dist_prefill_reader_signal_progress`. -/
def signalProgress (s : Pipeline σ η) (completed : Nat) (done : Bool) : Pipeline σ η :=
  { s with
    progressCompleted := max s.progressCompleted completed
    progressDone := s.progressDone || done }

/-- The slot that a chunk goes to gets its hidden rows. -/
def putHidden (s : Pipeline σ η) (hidden : η) : Pipeline σ η :=
  { s with slots := Function.update s.slots s.slot { s.slots s.slot with hidden := hidden } }

/-- It gets its other fields. -/
def fillSlot (s : Pipeline σ η) : Pipeline σ η :=
  { s with slots := Function.update s.slots s.slot {
      pos := s.pos
      nTokens := j.chunkAt s.pos
      hiddenBytes := j.chunkAt s.pos * j.hcValues * 4
      requestId := s.requestId
      prefixHash := s.nextPrefixHash
      resultHash := j.expectedHashes.getD s.submittedChunks 0
      resetSession := j.resetFirstChunk && decide (s.pos = j.spanStart)
      ackOnly := j.ackOnly && decide (s.pos + j.chunkAt s.pos < j.spanEnd)
      hidden := (s.slots s.slot).hidden } }

/-- The counters of the loop behind a chunk. -/
def advance (s : Pipeline σ η) : Pipeline σ η :=
  { s with
    requestId := s.requestId + 1
    submittedChunks := s.submittedChunks + 1
    nextPrefixHash := (s.slots s.slot).resultHash
    pos := s.pos + j.chunkAt s.pos }

/-- What is returned when both threads have been joined; `headRc` is what the output head returns. -/
def result (s : Pipeline σ η) (failed : Bool) (headRc : Int) : Int × Option Bytes :=
  if s.readerRc ≠ 0 then (s.readerRc, none)
  else if failed = true then (1, none)
  else
    match s.final with
    | none => (1, none)
    | some r =>
      if r.kind = .logits ∧ r.payload.length = j.logitsBytes then (0, some r.payload)
      else if r.kind = .hiddenState ∧ r.payload ≠ [] then
        if headRc ≠ 0 then (headRc, none)
        else (0, some (j.evalOutputHead s.session r.payload (j.nTokens - (j.chunkCount - 1) * j.chunkCap)))
      else (1, none)

/-! ### Conditions -/

/-- The sender does not wait: what `dist_prefill_sender_main` asks before it sleeps. -/
def DequeueReady (s : Pipeline σ η) : Prop := s.stop = true ∨ s.queued ≠ 0 ∨ s.producerDone = true

/-- `dist_prefill_sender_acquire_slot` does not wait. -/
def EnqueueReady (s : Pipeline σ η) : Prop := s.stop = true ∨ s.queued ≠ j.slotCount

/-- `dist_prefill_reader_wait_flow_window` does not wait. -/
def FlowReady (s : Pipeline σ η) : Prop :=
  s.progressDone = true ∨ s.submittedChunks < s.progressCompleted + j.flowWindow

/-- `dist_prefill_reader_wait_emit_progress` does not wait. -/
def ProgressReady (s : Pipeline σ η) : Prop := s.reportedChunks < s.progressCompleted ∨ s.progressDone = true

/-- `can_enqueue` is signalled: the calling thread, which alone sleeps on it, looks again. -/
def signalCanEnqueue (s : Pipeline σ η) : Pipeline σ η :=
  { s with producer := match s.producer with | .sleepingSlot => .acquiring | p => p }

/-- `can_dequeue` is signalled: the sender, which alone sleeps on it, looks again. -/
def signalCanDequeue (s : Pipeline σ η) : Pipeline σ η :=
  { s with sender := match s.sender with | .sleeping => .waiting | p => p }

/-- `progress_cv` is signalled: the calling thread, which alone sleeps on it, looks again. -/
def signalProgressCv (s : Pipeline σ η) : Pipeline σ η :=
  { s with producer := match s.producer with
      | .sleepingFlow => .wokenFlow
      | .sleepingProgress => .waitingProgress
      | p => p }

/-- What a step waits for: nothing, the network, or for `pthread_cond_wait` to return without a signal. -/
inductive Cause
  | thread
  | network
  | spurious
deriving DecidableEq

/-- A step of one thread. -/
inductive Step : Cause → Pipeline σ η → Pipeline σ η → Prop
  | flow {s : Pipeline σ η} (hs : s.producer = .checking) (hpos : s.pos < j.spanEnd)
      (hready : s.FlowReady j) :
      Step .thread s { s with
        producer := .reporting
          (!s.progressDone && decide (s.submittedChunks < s.progressCompleted + j.flowWindow)) }
  | sleepFlow {s : Pipeline σ η} (hs : s.producer = .checking) (hpos : s.pos < j.spanEnd)
      (hnot : ¬s.FlowReady j) : Step .thread s { s with producer := .sleepingFlow }
  /-- The chunks that were completed are reported, and it looks again. -/
  | wokenFlow {s : Pipeline σ η} (hs : s.producer = .wokenFlow) :
      Step .thread s { s.emitProgress with producer := .checking }
  | report {s : Pipeline σ η} {room : Bool} (hs : s.producer = .reporting room) :
      Step .thread s { s.emitProgress with producer := if room = true then .acquiring else .finishing true }
  | loopEnd {s : Pipeline σ η} (hs : s.producer = .checking) (hpos : ¬s.pos < j.spanEnd) :
      Step .thread s { s with producer := .finishing false }
  | acquire {s : Pipeline σ η} (hs : s.producer = .acquiring)
      (hready : s.EnqueueReady j) :
      Step .thread s { s with
        slot := s.tail
        producer := if s.stop = true ∨ s.senderFailed = true then .finishing true else .evaluating }
  | sleepSlot {s : Pipeline σ η} (hs : s.producer = .acquiring) (hnot : ¬s.EnqueueReady j) :
      Step .thread s { s with producer := .sleepingSlot }
  /-- The reset or the own layers fail: the session and the hidden rows of the slot are anything. -/
  | evalFails {s : Pipeline σ η} (hs : s.producer = .evaluating) (session : σ) (hidden : η) :
      Step .thread s { s.putHidden hidden with
        session := session
        producer := .finishing true }
  | eval {s : Pipeline σ η} (hs : s.producer = .evaluating) :
      Step .thread s { s.putHidden (j.evalChunk s.session s.pos).2 with
        session := (j.evalChunk s.session s.pos).1
        producer := .filling }
  | fill {s : Pipeline σ η} (hs : s.producer = .filling) :
      Step .thread s { s.fillSlot j with producer := .enqueuing }
  | enqueue {s : Pipeline σ η} (hs : s.producer = .enqueuing) (hok : s.stop = false ∧ s.senderFailed = false) :
      Step .thread s (signalCanDequeue { s with
        tail := (s.tail + 1) % j.slotCount
        queued := s.queued + 1
        put := s.put + 1
        producer := .advancing })
  | enqueueFails {s : Pipeline σ η} (hs : s.producer = .enqueuing)
      (hfails : s.stop = true ∨ s.senderFailed = true) : Step .thread s { s with producer := .finishing true }
  | advance {s : Pipeline σ η} (hs : s.producer = .advancing) :
      Step .thread s { s.emitProgress.advance j with producer := .checking }
  | finish {s : Pipeline σ η} (hs : s.producer = .finishing false) :
      Step .thread s (signalCanDequeue { s with producerDone := true, producer := .joiningSender false })
  | cancel {s : Pipeline σ η} (hs : s.producer = .finishing true) :
      Step .thread s (signalCanDequeue (signalCanEnqueue
        { s with producerDone := true, stop := true, producer := .shuttingSender }))
  | cancelShut {s : Pipeline σ η} (hs : s.producer = .shuttingSender) :
      Step .thread s { s with shut := true, producer := .joiningSender true }
  | joinSender {s : Pipeline σ η} {failed : Bool} (hs : s.producer = .joiningSender failed)
      (hexit : s.sender = .exited) :
      Step .thread s { s with
        producer := if failed = true ∨ s.senderFailed = true then .closing else .waitingProgress }
  | close {s : Pipeline σ η} (hs : s.producer = .closing) :
      Step .thread s { s with shut := true, producer := .joiningReader true }
  | progress {s : Pipeline σ η} (hs : s.producer = .waitingProgress)
      (hready : s.ProgressReady) : Step .thread s { s with producer := .emitting s.progressDone }
  | sleepProgress {s : Pipeline σ η} (hs : s.producer = .waitingProgress) (hnot : ¬s.ProgressReady) :
      Step .thread s { s with producer := .sleepingProgress }
  | emit {s : Pipeline σ η} {done : Bool} (hs : s.producer = .emitting done) :
      Step .thread s { s.emitProgress with producer := .concluding done }
  | conclude {s : Pipeline σ η} {done : Bool} (hs : s.producer = .concluding done) :
      Step .thread s { s with
        producer :=
          if done = true ∧ s.progressCompleted ≤ s.reportedChunks then .joiningReader false
          else .waitingProgress }
  | joinReader {s : Pipeline σ η} {failed : Bool} (hs : s.producer = .joiningReader failed)
      (hexit : s.reader = .exited) (headRc : Int) :
      Step .thread s { s with producer := .returned (s.result j failed headRc).1 (s.result j failed headRc).2 }
  | take {s : Pipeline σ η} (hs : s.sender = .waiting) (hready : s.DequeueReady) :
      Step .thread s { s with
        sender := if s.stop = true ∨ s.queued = 0 ∧ s.producerDone = true then .exited else .sending }
  | sleepSender {s : Pipeline σ η} (hs : s.sender = .waiting) (hnot : ¬s.DequeueReady) :
      Step .thread s { s with sender := .sleeping }
  | send {s : Pipeline σ η} (hs : s.sender = .sending) (hopen : s.shut = false) :
      Step .network s { s with sent := s.sent ++ [frameOf j (s.slots s.head)], sender := .sendDone }
  | sendBreaks {s : Pipeline σ η} (hs : s.sender = .sending) : Step .network s { s with sender := .sendFailed }
  | sendShut {s : Pipeline σ η} (hs : s.sender = .sending) (hshut : s.shut = true) :
      Step .thread s { s with sender := .sendFailed }
  | sent {s : Pipeline σ η} (hs : s.sender = .sendDone) :
      Step .thread s (signalCanEnqueue { s with
        head := (s.head + 1) % j.slotCount
        queued := s.queued - 1
        taken := s.taken + 1
        sender := .waiting })
  | failSender {s : Pipeline σ η} (hs : s.sender = .sendFailed) :
      Step .thread s (signalCanDequeue (signalCanEnqueue
        { s with senderFailed := true, stop := true, sender := .stopping }))
  | stopSender {s : Pipeline σ η} (hs : s.sender = .stopping) :
      Step .thread s { s with shut := true, sender := .exited }
  | receive {s : Pipeline σ η} {i : Nat} (hs : s.reader = .receiving i) (r : SpanResult) (hr : Accepts j i r) :
      Step .network s { s with
        answered := s.answered ++ [r]
        final := if i + 1 = j.chunkCount then some r else s.final
        reader := .signalling (i + 1) (i + 1 = j.chunkCount) }
  /-- The answer is none, an error or not accepted. -/
  | receiveFails {s : Pipeline σ η} {i : Nat} (hs : s.reader = .receiving i) (rc : Int) (hrc : rc ≠ 0) :
      Step .network s { s with readerRc := rc, reader := .failing i }
  | receiveShut {s : Pipeline σ η} {i : Nat} (hs : s.reader = .receiving i) (hshut : s.shut = true) :
      Step .thread s { s with readerRc := 1, reader := .failing i }
  | failReader {s : Pipeline σ η} {i : Nat} (hs : s.reader = .failing i) :
      Step .thread s { s with shut := true, reader := .givingUp i }
  | giveUp {s : Pipeline σ η} {i : Nat} (hs : s.reader = .givingUp i) :
      Step .thread s (signalProgressCv { s.signalProgress i true with reader := .exited })
  | signal {s : Pipeline σ η} {completed : Nat} {final : Bool} (hs : s.reader = .signalling completed final) :
      Step .thread s (signalProgressCv { s.signalProgress completed final with
        reader := if completed = j.chunkCount then .closing else .receiving completed })
  | closeReader {s : Pipeline σ η} (hs : s.reader = .closing) :
      Step .thread s (signalProgressCv { s.signalProgress j.chunkCount true with reader := .exited })
  /-- A thread wakes up and nobody has signalled. -/
  | wakeSlot {s : Pipeline σ η} (hs : s.producer = .sleepingSlot) : Step .spurious s s.signalCanEnqueue
  | wakeProgress {s : Pipeline σ η} (hs : s.producer = .sleepingFlow ∨ s.producer = .sleepingProgress) :
      Step .spurious s s.signalProgressCv
  | wakeSender {s : Pipeline σ η} (hs : s.sender = .sleeping) : Step .spurious s s.signalCanDequeue

/-- The states that a pipelined prefill comes to. -/
inductive Reach (slots : Nat → SendSlot η) (session : σ) : Pipeline σ η → Prop
  | init : Reach slots session (init j slots session)
  | step {cause : Cause} {s s' : Pipeline σ η} (h : Reach slots session s) (hstep : Step j cause s s') :
      Reach slots session s'

end Pipeline

end Ds4.Dist
