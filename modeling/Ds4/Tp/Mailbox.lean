import Ds4.Lib.Ring
import Ds4.Tp.Command

/-!
# How a command travels

A pair with an RDMA mailbox sends a command as a record of a ring of 64 slots in the worker's memory:
the record is staged in a ring of the leader, one write copies it over, and a second one the sequence
word behind it. The queue pair executes writes in their order, each at some later time (`Pair.place`),
and reads what is staged then. Every sixteen records the worker writes a credit back, and a sender waits
for the credit of the record whose slot it takes. A frame that fits no slot, and every frame of a pair
without a mailbox, goes over the TCP control channel, behind a marker in the ring if there is one.

A wait is a step that is not possible yet (`none`). Time-outs, completions and the room of the send queue
are not modelled, nor is what else the parties exchange over the control channel between commands.
-/

namespace Ds4.Tp

open Lib

/-- `DS4_TP_MBOX_SLOTS`. -/
def mboxSlots : Nat := 64

scoped instance neZeroMbox : NeZero 64 := ⟨by decide⟩

/-- `DS4_TP_MBOX_SEQ_OFF`. -/
def mboxSeqOff : Nat := 4096 - 8

/-- `DS4_TP_MBOX_FRAME_TCP`: the frame is on TCP. -/
def mboxFrameTcp : UInt32 := 0x4d424f58

/-- `DS4_TP_MBOX_ACK_EVERY`. -/
def mboxAckEvery : Nat := 16

/-! ## The rings -/

/-- A slot: the bytes of a record and the sequence word behind them. -/
structure Slot where
  record : Bytes
  seq : Nat
  length_record : record.length = mboxSeqOff

theorem length_copyIn (s : Slot) (bytes : Bytes) :
    ((bytes ++ s.record.drop bytes.length).take mboxSeqOff).length = mboxSeqOff := by
  have := s.length_record
  rw [List.length_take, List.length_append, List.length_drop]
  omega

/-- Bytes copied to the front of a slot. -/
def Slot.copyIn (s : Slot) (bytes : Bytes) : Slot :=
  ⟨(bytes ++ s.record.drop bytes.length).take mboxSeqOff, s.seq, length_copyIn s bytes⟩

/-- A slot of the slab as it is set up. -/
def Slot.zero : Slot := ⟨List.replicate mboxSeqOff 0, 0, List.length_replicate⟩

/-- A posted write: the first bytes of a staged record, or its sequence word. -/
inductive Write
  | record (slot : Fin 64) (bytes : Nat)
  | seq (slot : Fin 64)

/-- The command channel of a pair: of the leader the counter `mbox_sent`, the staging ring, the writes on their
way and the credit word; of the worker the ring, the counters `mbox_consumed` and `mbox_acked`, the credit
it returns and the credit writes on their way; and what is on the control channel. -/
structure Pair where
  mailbox : Bool
  sent : Nat
  staged : Ring 64 Slot
  posted : List Write
  creditIn : Nat
  ring : Ring 64 Slot
  consumed : Nat
  acked : Nat
  creditOut : Nat
  credits : Nat
  control : Bytes
  closed : Bool

/-- A pair that has just connected. -/
def Pair.start (mailbox : Bool) : Pair :=
  ⟨mailbox, 0, fun _ => .zero, [], 0, fun _ => .zero, 0, 0, 0, 0, [], false⟩

/-- The queue pair executes the leader's oldest write. -/
def Pair.place (p : Pair) : Option Pair :=
  match p.posted with
  | [] => none
  | .record slot bytes :: posted =>
    let written := (p.ring slot).copyIn ((p.staged slot).record.take bytes)
    some { p with ring := Function.update p.ring slot written, posted := posted }
  | .seq slot :: posted =>
    let written := { p.ring slot with seq := (p.staged slot).seq }
    some { p with ring := Function.update p.ring slot written, posted := posted }

/-- The queue pair executes a write of the credit, which takes the word's newest value. -/
def Pair.placeCredit (p : Pair) : Option Pair :=
  if p.credits = 0 then none else some { p with creditIn := p.creditOut, credits := p.credits - 1 }

/-! ## Sending -/

/-- The bytes of a frame. -/
def frameBytes (type : UInt32) (payload : Bytes) : Bytes :=
  frameHeader.put ⟨magic, type, .ofNat payload.length⟩ ++ payload

/-- `tp_mbox_put`. -/
def tpMboxPut (p : Pair) (type : UInt32) (payload : Bytes) : Option Pair :=
  if payload.length > mboxSeqOff - frameHeader.width then none
  else
    let seq := p.sent + 1
    if seq > mboxSlots ∧ p.creditIn < seq - mboxSlots then none
    else
      let slot := Ring.slot 64 (seq - 1)
      let record := frameBytes type payload
      some { p with
        staged := Function.update p.staged slot { (p.staged slot).copyIn record with seq := seq }
        posted := p.posted ++ [.record slot record.length, .seq slot]
        sent := seq }

/-- `tp_send_frame` on the control channel. -/
def tpSendFrame (p : Pair) (frame : FrameType × Bytes) : Pair :=
  { p with control := p.control ++ frameBytes frame.1.code frame.2 }

/-- `tp_send_command`. -/
def tpSendCommand (p : Pair) (frame : FrameType × Bytes) : Option Pair :=
  if p.mailbox then
    if frame.2.length ≤ mboxSeqOff - frameHeader.width then tpMboxPut p frame.1.code frame.2
    else (tpMboxPut p mboxFrameTcp []).map fun p => tpSendFrame p frame
  else some (tpSendFrame p frame)

/-! ## Receiving -/

/-- The texts `ds4_tp_recv_command` fails with. -/
inductive RecvError
  | mailbox | closed | truncated | invalid (ftype bytes : UInt32) | allocation (text : String)
  deriving DecidableEq

def RecvError.text : RecvError → String
  | .mailbox => "tp: command mailbox closed"
  | .closed => "tp: control channel closed"
  | .truncated => "tp: truncated command frame"
  | .invalid ftype bytes =>
    "tp: invalid command frame type " ++ toString ftype ++ " (" ++ toString bytes ++ " bytes)"
  | .allocation text => text

/-- A call of `ds4_tp_recv_command`: its error if any, `*command`, and the channel behind it. -/
structure Received where
  error : Option RecvError
  command : Command
  pair : Pair

/-- The worker has copied the next record out, and returns credits for sixteen of them. -/
def Pair.consume (p : Pair) : Pair :=
  let seq := p.consumed + 1
  if seq - p.acked ≥ mboxAckEvery then
    { p with consumed := seq, creditOut := seq, credits := p.credits + 1, acked := seq }
  else { p with consumed := seq }

section Receiving

variable (nEmbd : UInt32) (malloc : Site → Bool)

/-- `tp_mbox_get`: the next record's header and payload, `none` when it returns 0. -/
def tpMboxGet (p : Pair) : Option (Pair × Option (FrameHeader × Bytes)) :=
  let seq := p.consumed + 1
  let slot := p.ring (Ring.slot 64 (seq - 1))
  if slot.seq < seq then if p.closed then some (p, none) else none
  else if slot.seq ≠ seq then some (p, none)
  else
    let h := frameHeader.get (slot.record.take frameHeader.width)
    if h.magic ≠ magic ∨ h.bytes.toNat > mboxSeqOff - frameHeader.width ∨
        (h.type = mboxFrameTcp ∧ h.bytes ≠ 0) then some (p, none)
    else if h.bytes ≠ 0 ∧ ¬ malloc .payload then some (p, none)
    else some (p.consume, some (h, slice slot.record frameHeader.width h.bytes.toNat))

/-- A payload's verdict. -/
def recvPayload (p : Pair) (ftype bytes : UInt32) (payload : Bytes) : Received :=
  match FrameType.ofCode ftype with
  | none => ⟨some (.invalid ftype bytes), commandFree, p⟩
  | some type =>
    match commandDecode nEmbd malloc payload type with
    | .ok command => ⟨none, command, p⟩
    | .error (.allocation text) => ⟨some (.allocation text), commandFree, p⟩
    | .error _ => ⟨some (.invalid ftype bytes), commandFree, p⟩

/-- A frame of the control channel; a channel that is closed early is an error. -/
def recvControl (p : Pair) : Option Received :=
  match frameHeader.readAt p.control 0 with
  | none => if p.closed then some ⟨some .closed, commandFree, { p with control := [] }⟩ else none
  | some h =>
    let control := p.control.drop frameHeader.width
    if h.magic ≠ magic then some ⟨some .closed, commandFree, { p with control := control }⟩
    else if h.bytes ≠ 0 ∧ ¬ malloc .payload then
      some ⟨some .truncated, commandFree, { p with control := control }⟩
    else
      match bytesAt control 0 h.bytes.toNat with
      | none => if p.closed then some ⟨some .truncated, commandFree, { p with control := [] }⟩ else none
      | some payload =>
        some (recvPayload nEmbd malloc { p with control := control.drop h.bytes.toNat } h.type h.bytes payload)

/-- `ds4_tp_recv_command`. -/
def ds4TpRecvCommand (p : Pair) : Option Received :=
  if p.mailbox then
    match tpMboxGet malloc p with
    | none => none
    | some (p, none) => some ⟨some .mailbox, commandFree, p⟩
    | some (p, some (h, payload)) =>
      if h.type = mboxFrameTcp then recvControl nEmbd malloc p
      else some (recvPayload nEmbd malloc p h.type h.bytes payload)
  else recvControl nEmbd malloc p

end Receiving

end Ds4.Tp
