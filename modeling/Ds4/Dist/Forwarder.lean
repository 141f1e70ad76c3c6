import Ds4.Lib.Fifo
import Ds4.Lib.Words

/-!
# Forwarding work

A worker that is not the last one of a route sends a request on and answers it when the next worker does.
`dist_forward_work_to_next` runs on the evaluation thread: it queues the request and sends it downstream.
`dist_worker_forwarder_relay_main` runs on a thread of its own: it reads results from downstream, takes their
requests from the queue and writes the results upstream. A step is what one thread does in one section of a
mutex, or one frame that is sent or received, which may fail. Frames from downstream may say anything; what
a clock says is any number.
-/

namespace Ds4.Dist

open Ds4.Lib

/-! ## Records -/

/-- `ds4_dist_telemetry_fixed`. -/
structure Telemetry where
  layerStart : UInt32
  layerEnd : UInt32
  routeIndex : UInt32
  pos0 : UInt32
  nTokens : UInt32
  evalUsec : UInt32
  downstreamWaitUsec : UInt32
  forwardSendUsec : UInt32
  inputBytes : UInt32
  outputBytes : UInt32

/-- `sizeof(ds4_dist_telemetry_fixed)`. -/
abbrev telemetrySize : Nat := 40

/-- `dist_telemetry_to_wire`. -/
def Telemetry.toWire (t : Telemetry) : Bytes :=
  putNet32 t.layerStart ++ (putNet32 t.layerEnd ++ (putNet32 t.routeIndex ++ (putNet32 t.pos0 ++
    (putNet32 t.nTokens ++ (putNet32 t.evalUsec ++ (putNet32 t.downstreamWaitUsec ++
      (putNet32 t.forwardSendUsec ++ (putNet32 t.inputBytes ++ putNet32 t.outputBytes))))))))

/-- `dist_telemetry_from_wire`. -/
def Telemetry.fromWire (p : Bytes) : Telemetry :=
  ⟨getNet32 p, getNet32 (p.drop 4), getNet32 (p.drop 8), getNet32 (p.drop 12), getNet32 (p.drop 16),
    getNet32 (p.drop 20), getNet32 (p.drop 24), getNet32 (p.drop 28), getNet32 (p.drop 32),
    getNet32 (p.drop 36)⟩

/-- A RESULT frame: `ds4_dist_result_fixed` and the bytes behind it. -/
structure ResultFrame where
  requestId : UInt64
  resultHash : UInt64
  status : UInt32
  resultKind : UInt32
  telemetryCount : UInt32
  telemetryBytes : UInt32
  payloadBytes : UInt32
  payloadBits : UInt32
  body : Bytes

/-- `sizeof(ds4_dist_result_fixed)`. -/
abbrev resultFixedSize : Nat := 40

/-- The records at the front of some bytes. -/
def telemetryRecords : Nat → Bytes → List Telemetry
  | 0, _ => []
  | n + 1, p => Telemetry.fromWire (p.take telemetrySize) :: telemetryRecords n (p.drop telemetrySize)

/-- The telemetry of a frame. -/
def ResultFrame.telemetry (r : ResultFrame) : List Telemetry := telemetryRecords r.telemetryCount.toNat r.body

/-- The payload of a frame. -/
def ResultFrame.payload (r : ResultFrame) : Bytes := r.body.drop r.telemetryBytes.toNat

/-- The metadata of a frame do not fit. -/
def ResultFrame.Mismatch (r : ResultFrame) : Prop :=
  r.telemetryBytes.toNat % telemetrySize ≠ 0 ∨
    r.telemetryCount.toNat ≠ r.telemetryBytes.toNat / telemetrySize ∨
    r.body.length < r.telemetryBytes.toNat ∨
    r.payloadBytes.toNat ≠ r.body.length - r.telemetryBytes.toNat

/-- The frame that is written upstream: one more record behind the telemetry. -/
def ResultFrame.relayed (r : ResultFrame) (own : Telemetry) : ResultFrame :=
  { r with
    telemetryCount := r.telemetryCount + 1
    telemetryBytes := .ofNat (r.telemetryBytes.toNat + telemetrySize)
    body := r.body.take r.telemetryBytes.toNat ++ (own.toWire ++ r.body.drop r.telemetryBytes.toNat) }

/-- `ds4_dist_pending_request`. -/
structure PendingRequest where
  requestId : UInt64
  telemetry : Telemetry

/-! ## The threads -/

/-- Where the evaluation thread is. -/
inductive Sender
  | idle
  /-- An error reply to a request that was not queued. -/
  | refusing (requestId : UInt64) (text : String)
  /-- `dist_worker_forwarder_enqueue_request`. -/
  | enqueueing (requestId : UInt64) (telemetry : Telemetry)
  /-- `dist_send_work_frame`. -/
  | sending (requestId : UInt64)
  /-- `dist_worker_forwarder_note_send_done`, with what the send returned. -/
  | noting (requestId : UInt64) (sent : Bool) (forwardSendUsec : UInt32)
  /-- `dist_worker_forwarder_remove_request`. -/
  | removing (requestId : UInt64)
  /-- The error reply behind a failed send. -/
  | failing (requestId : UInt64)
  /-- The shutdown of the upstream connection behind it. -/
  | failed
  /-- `dist_worker_upstream_destroy`. -/
  | finished

/-- Where the relay thread is. -/
inductive Relay
  | starting
  | reading
  /-- The connection or the frame is bad: the first request gets an error. -/
  | popping (text : String)
  /-- A frame whose metadata fit. -/
  | received (r : ResultFrame)
  /-- An error reply. -/
  | answering (requestId : UInt64) (text : String)
  /-- The result is passed on. -/
  | relaying (own : Telemetry) (r : ResultFrame)
  /-- `dist_worker_forwarder_close_queue`. -/
  | leaving
  /-- The shutdown of the upstream connection. -/
  | shutting
  | done

/-- What is written upstream. A frame that breaks off is torn. -/
inductive Reply
  | result (frame : ResultFrame)
  | error (requestId : UInt64) (text : String)
  | torn (requestId : UInt64)

/-- The request that a reply answers. -/
def Reply.requestId : Reply → UInt64
  | .result frame => frame.requestId
  | .error id _ => id
  | .torn id => id

/-- A reply and who wrote it. -/
structure Written where
  byRelay : Bool
  reply : Reply

/-- `dist_worker_forward_window`, with the number that the environment gives, if it gives one. -/
def forwardWindow (env : Option Int) : Nat :=
  match env with
  | some v => if 1 ≤ v ∧ v ≤ 64 then v.toNat else 4
  | none => 4

/-- `ds4_dist_worker_forwarder`, the two threads, and what was done so far. -/
structure Forwarder where
  /-- The memory of the nodes, and the addresses in use. -/
  node : Nat → PendingRequest
  live : Finset Nat
  /-- `pending_head`, `pending_tail` and the links. -/
  queue : Fifo
  pendingCount : Nat
  pendingDepth : Nat
  closing : Bool
  upstreamOpen : Bool
  sender : Sender
  relay : Relay
  /-- The frames written upstream. -/
  upstream : List Written
  /-- The requests that the evaluation thread took up. -/
  started : List UInt64
  /-- The requests that were queued, with their records, in the order they are sent downstream. -/
  forwarded : List (UInt64 × Telemetry)
  /-- The requests that the relay thread took from the queue. -/
  popped : List UInt64
  /-- The frames received from downstream. -/
  arrived : List ResultFrame

namespace Forwarder

/-- A new forwarder. -/
def init (depth : Nat) : Forwarder where
  node := fun _ => ⟨0, ⟨0, 0, 0, 0, 0, 0, 0, 0, 0, 0⟩⟩
  live := ∅
  queue := Fifo.empty
  pendingCount := 0
  pendingDepth := depth
  closing := false
  upstreamOpen := true
  sender := .idle
  relay := .starting
  upstream := []
  started := []
  forwarded := []
  popped := []
  arrived := []

/-- The node of a request. -/
def find (s : Forwarder) (requestId : UInt64) : Option (Option Nat × Nat) :=
  s.queue.find (fun p => (s.node p).requestId = requestId) s.pendingCount none s.queue.head

/-- The queueing section of `dist_worker_forwarder_enqueue_request`, with what `calloc` returned. -/
def enqueue (s : Forwarder) (p : Nat) (request : PendingRequest) : Forwarder :=
  { s with
    node := Function.update s.node p request
    live := insert p s.live
    queue := s.queue.push p
    pendingCount := s.pendingCount + 1
    forwarded := s.forwarded ++ [(request.requestId, request.telemetry)] }

/-- The section of `dist_worker_forwarder_pop_request`: the first request, and what is left. -/
def pop (s : Forwarder) : Option (PendingRequest × Forwarder) :=
  match s.queue.head with
  | none => none
  | some p => some (s.node p, { s with
      live := s.live.erase p
      queue := s.queue.pop p
      pendingCount := s.pendingCount - 1
      popped := s.popped ++ [(s.node p).requestId] })

/-- The section of `dist_worker_forwarder_remove_request`. -/
def removeRequest (s : Forwarder) (requestId : UInt64) : Forwarder :=
  match s.find requestId with
  | none => s
  | some (prev, p) => { s with
      live := s.live.erase p
      queue := s.queue.remove prev p
      pendingCount := s.pendingCount - 1 }

/-- The section of `dist_worker_forwarder_note_send_done`. -/
def noteSendDone (s : Forwarder) (requestId : UInt64) (forwardSendUsec : UInt32) : Forwarder :=
  match s.find requestId with
  | none => s
  | some (_, p) => { s with
      node := Function.update s.node p { s.node p with
        telemetry := { (s.node p).telemetry with forwardSendUsec := forwardSendUsec } } }

/-- `dist_worker_forwarder_clear_requests`. -/
def clearRequests (s : Forwarder) : Forwarder :=
  { s with live := ∅, queue := { s.queue with head := none, tail := none }, pendingCount := 0 }

/-- A frame is written upstream. -/
def write (s : Forwarder) (byRelay : Bool) (reply : Reply) : Forwarder :=
  { s with upstream := s.upstream ++ [⟨byRelay, reply⟩] }

/-- What the relay thread does with a request that it took for a result. -/
def afterPop (r : ResultFrame) (request : PendingRequest) (downstreamWaitUsec : UInt32) : Relay :=
  if r.requestId ≠ request.requestId then
    .answering request.requestId "next worker RESULT metadata mismatch"
  else if 2 ^ 32 - 1 < r.telemetryBytes.toNat + telemetrySize ∨ r.telemetryCount + 1 = 0 then
    .answering request.requestId "distributed telemetry chain is too large"
  else if 2 ^ 32 - 1 < resultFixedSize + (r.telemetryBytes.toNat + telemetrySize) + r.payloadBytes.toNat then
    .answering request.requestId "distributed RESULT frame is too large"
  else .relaying { request.telemetry with downstreamWaitUsec := downstreamWaitUsec } r

/-- The ways to write an error reply: whole, broken off, or not at all. -/
inductive Replies (s : Forwarder) (byRelay : Bool) (requestId : UInt64) (text : String) : Forwarder → Prop
  | whole (hopen : s.upstreamOpen = true) : Replies s byRelay requestId text (s.write byRelay (.error requestId text))
  | torn (hopen : s.upstreamOpen = true) : Replies s byRelay requestId text (s.write byRelay (.torn requestId))
  | none : Replies s byRelay requestId text s

/-- A step of the evaluation thread or of the relay thread. -/
inductive Step : Forwarder → Forwarder → Prop
  /-- A request is taken up, and there is no forwarder for it or its size is wrong. -/
  | refuse {s : Forwarder} {id : UInt64} {text : String} (hs : s.sender = .idle) (hnew : id ∉ s.started) :
      Step s { s with sender := .refusing id text, started := s.started ++ [id] }
  | start {s : Forwarder} {id : UInt64} {t : Telemetry} (hs : s.sender = .idle) (hnew : id ∉ s.started) :
      Step s { s with sender := .enqueueing id t, started := s.started ++ [id] }
  | enqueue {s : Forwarder} {id : UInt64} {t : Telemetry} {p : Nat} (hs : s.sender = .enqueueing id t)
      (hclosing : s.closing = false) (hroom : ¬(s.pendingDepth ≠ 0 ∧ s.pendingDepth ≤ s.pendingCount))
      (hp : p ∉ s.live) : Step s { s.enqueue p ⟨id, t⟩ with sender := .sending id }
  /-- The queue is closed, or `calloc` fails. -/
  | enqueueFails {s : Forwarder} {id : UInt64} {t : Telemetry} (hs : s.sender = .enqueueing id t)
      (hfails : s.closing = true ∨ ¬(s.pendingDepth ≠ 0 ∧ s.pendingDepth ≤ s.pendingCount)) :
      Step s { s with sender := .refusing id "out of memory tracking forwarded request" }
  | refused {s s' : Forwarder} {id : UInt64} {text : String} (hs : s.sender = .refusing id text)
      (hreply : Replies s false id text s') : Step s { s' with sender := .idle }
  | send {s : Forwarder} {id : UInt64} (hs : s.sender = .sending id) (sent : Bool) (usec : UInt32) :
      Step s { s with sender := .noting id sent usec }
  | note {s : Forwarder} {id : UInt64} {sent : Bool} {usec : UInt32} (hs : s.sender = .noting id sent usec) :
      Step s { s.noteSendDone id usec with sender := if sent then .idle else .removing id }
  | remove {s : Forwarder} {id : UInt64} (hs : s.sender = .removing id) :
      Step s { s.removeRequest id with sender := .failing id }
  | fail {s s' : Forwarder} {id : UInt64} (hs : s.sender = .failing id)
      (hreply : Replies s false id "failed to forward distributed work" s') :
      Step s { s' with sender := .failed }
  | failed {s : Forwarder} (hs : s.sender = .failed) :
      Step s { s with upstreamOpen := false, sender := .idle }
  | finish {s : Forwarder} (hs : s.sender = .idle) : Step s { s with closing := true, sender := .finished }
  | clear {s : Forwarder} (hs : s.sender = .finished) (hr : s.relay = .done) : Step s s.clearRequests
  /-- The relay thread gets its buffer, or shuts the upstream connection down. -/
  | begin {s : Forwarder} (hr : s.relay = .starting) : Step s { s with relay := .reading }
  | noBuffer {s : Forwarder} (hr : s.relay = .starting) :
      Step s { s with upstreamOpen := false, relay := .done }
  | readEnd {s : Forwarder} (hr : s.relay = .reading) :
      Step s { s with relay := .popping "next worker closed connection" }
  | readInvalid {s : Forwarder} (hr : s.relay = .reading) :
      Step s { s with relay := .popping "next worker did not return valid RESULT" }
  | readShort {s : Forwarder} (hr : s.relay = .reading) :
      Step s { s with relay := .popping "next worker closed while returning RESULT" }
  | readMismatch {s : Forwarder} (hr : s.relay = .reading) (r : ResultFrame) (hbad : r.Mismatch) :
      Step s { s with relay := .popping "next worker RESULT metadata mismatch" }
  | read {s : Forwarder} (hr : s.relay = .reading) (r : ResultFrame)
      (hsize : resultFixedSize + r.body.length < 2 ^ 32) (hfits : ¬r.Mismatch) :
      Step s { s with relay := .received r, arrived := s.arrived ++ [r] }
  | popError {s s' : Forwarder} {text : String} {request : PendingRequest} (hr : s.relay = .popping text)
      (hpop : s.pop = some (request, s')) : Step s { s' with relay := .answering request.requestId text }
  | popResult {s s' : Forwarder} {r : ResultFrame} {request : PendingRequest} (hr : s.relay = .received r)
      (hpop : s.pop = some (request, s')) (usec : UInt32) : Step s { s' with relay := afterPop r request usec }
  | popNone {s : Forwarder} (hr : (∃ text, s.relay = .popping text) ∨ ∃ r, s.relay = .received r)
      (hpop : s.pop = none) : Step s { s with relay := .leaving }
  | answer {s s' : Forwarder} {id : UInt64} {text : String} (hr : s.relay = .answering id text)
      (hreply : Replies s true id text s') : Step s { s' with relay := .leaving }
  | pass {s : Forwarder} {own : Telemetry} {r : ResultFrame} (hr : s.relay = .relaying own r)
      (hopen : s.upstreamOpen = true) :
      Step s { s.write true (.result (r.relayed own)) with relay := .reading }
  | passTorn {s : Forwarder} {own : Telemetry} {r : ResultFrame} (hr : s.relay = .relaying own r)
      (hopen : s.upstreamOpen = true) :
      Step s { s.write true (.torn r.requestId) with relay := .leaving }
  | passNone {s : Forwarder} {own : Telemetry} {r : ResultFrame} (hr : s.relay = .relaying own r) :
      Step s { s with relay := .leaving }
  | closeQueue {s : Forwarder} (hr : s.relay = .leaving) :
      Step s { s with closing := true, relay := .shutting }
  | shut {s : Forwarder} (hr : s.relay = .shutting) :
      Step s { s with upstreamOpen := false, relay := .done }

/-- The states that runs lead to whose steps all meet a condition. -/
inductive Run (meets : Forwarder → Forwarder → Prop) (depth : Nat) : Forwarder → Prop
  | init : Run meets depth (init depth)
  | step {s s' : Forwarder} (h : Run meets depth s) (hstep : Step s s') (hmeets : meets s s') :
      Run meets depth s'

end Forwarder

end Ds4.Dist
