import Ds4.Tp.CommandCodec
import Ds4.Tp.MailboxRuns

/-!
# Commands are received as they were sent

The leader sends, the queue pair executes writes and the worker receives, in any order. With a mailbox
or without, what was received is at any time the front of what was sent, and when the writes have
arrived the next command is received.
-/

namespace Ds4.Tp

open Lib

/-- The channel with the calls sent over it and what the worker's calls returned. -/
structure Exchange where
  pair : Pair
  calls : List Request
  received : List (Option RecvError × Command)

section Runs

variable (nEmbd : UInt32) (malloc : Site → Bool)

/-- A call that a sender accepts, a received command, or a write. -/
inductive Step : Exchange → Exchange → Prop
  | send {x : Exchange} {r : Request} {frame : FrameType × Bytes} {p : Pair}
      (himages : ∀ image ∈ r.images, image.Sound nEmbd) (hframe : r.send nEmbd = some frame)
      (h : tpSendCommand x.pair frame = some p) : Step x { x with pair := p, calls := x.calls ++ [r] }
  | receive {x : Exchange} {got : Received} (h : ds4TpRecvCommand nEmbd malloc x.pair = some got) :
      Step x { x with pair := got.pair, received := x.received ++ [(got.error, got.command)] }
  | place {x : Exchange} {p : Pair} (h : x.pair.place = some p) : Step x { x with pair := p }
  | placeCredit {x : Exchange} {p : Pair} (h : x.pair.placeCredit = some p) : Step x { x with pair := p }

/-- What a pair does from its start. -/
def Run (mailbox : Bool) (x : Exchange) : Prop :=
  Relation.ReflTransGen (Step nEmbd malloc) ⟨.start mailbox, [], []⟩ x

end Runs

/-! ## Frames -/

section Frames

variable {nEmbd : UInt32} {malloc : Site → Bool} {p : Pair}

theorem recvControl_frame {t : FrameType} {payload rest : Bytes} (hm : ∀ site, malloc site = true)
    (hlen : payload.length ≤ uint32Max) (hcontrol : p.control = frameBytes t.code payload ++ rest) :
    recvControl nEmbd malloc p =
      some (recvPayload nEmbd malloc { p with control := rest } t.code (.ofNat payload.length) payload) := by
  have hhead := frameHeader.length_put ⟨magic, t.code, .ofNat payload.length⟩
  have hread : frameHeader.readAt p.control 0 = some ⟨magic, t.code, .ofNat payload.length⟩ := by
    rw [hcontrol, frameBytes, List.append_assoc, readAt_put]
  have hdrop : p.control.drop frameHeader.width = payload ++ rest := by
    rw [hcontrol, frameBytes, List.append_assoc, List.drop_left' hhead]
  have hbytes : bytesAt (payload ++ rest) 0 payload.length = some payload := bytesAt_middle (q := [])
  rw [recvControl, hread]
  simp only [hm, hdrop, toNat_ofNat_of_le hlen, ne_eq, not_true, if_false, and_false, hbytes, List.drop_left]

theorem recvPayload_ok {t : FrameType} {payload : Bytes} {c : Command} (hcode : FrameType.ofCode t.code = some t)
    (h : commandDecode nEmbd malloc payload t = .ok c) (bytes : UInt32) :
    recvPayload nEmbd malloc p t.code bytes payload = ⟨none, c, p⟩ := by
  rw [recvPayload, hcode]
  simp only [h]

theorem recvPayload_failed {ftype bytes : UInt32} {payload : Bytes}
    (herror : (recvPayload nEmbd malloc p ftype bytes payload).error ≠ none) :
    (recvPayload nEmbd malloc p ftype bytes payload).command = commandFree := by
  unfold recvPayload at *
  split
  · rfl
  · split <;> simp_all

theorem recvControl_failed {got : Received} (h : recvControl nEmbd malloc p = some got)
    (herror : got.error ≠ none) : got.command = commandFree := by
  unfold recvControl at h
  split at h
  · obtain ⟨-, h⟩ := Option.ite_none_right_eq_some.1 h
    exact Option.some.inj h ▸ rfl
  · dsimp only at h
    split at h
    · exact Option.some.inj h ▸ rfl
    · split at h
      · exact Option.some.inj h ▸ rfl
      · split at h
        · obtain ⟨-, h⟩ := Option.ite_none_right_eq_some.1 h
          exact Option.some.inj h ▸ rfl
        · obtain rfl := Option.some.inj h
          exact recvPayload_failed herror

theorem recvCommand_failed {got : Received} (h : ds4TpRecvCommand nEmbd malloc p = some got)
    (herror : got.error ≠ none) : got.command = commandFree := by
  unfold ds4TpRecvCommand at h
  split at h
  · split at h
    · cases h
    · exact Option.some.inj h ▸ rfl
    · split at h
      · exact recvControl_failed h herror
      · obtain rfl := Option.some.inj h
        exact recvPayload_failed herror
  · exact recvControl_failed h herror

theorem recvCommand_control {r : Request} {frame : FrameType × Bytes} {rest : Bytes}
    (hm : ∀ site, malloc site = true) (himages : ∀ image ∈ r.images, image.Sound nEmbd)
    (hframe : r.send nEmbd = some frame) (hcontrol : p.control = frameBytes frame.1.code frame.2 ++ rest) :
    recvControl nEmbd malloc p = some ⟨none, r.command, { p with control := rest }⟩ := by
  obtain ⟨hdecode, hlen, hcode⟩ := commandDecode_send hm himages hframe
  rw [recvControl_frame hm hlen hcontrol, recvPayload_ok hcode hdecode]

end Frames

/-! ## What is on its way -/

/-- The record of a frame in the ring: the frame if it fits a slot, the marker otherwise. -/
def recordOf (frame : FrameType × Bytes) : UInt32 × Bytes :=
  if frame.2.length ≤ 4076 then (frame.1.code, frame.2) else (mboxFrameTcp, [])

/-- What a frame puts on the control channel. -/
def overControl (mailbox : Bool) (frame : FrameType × Bytes) : Bytes :=
  if mailbox = true ∧ frame.2.length ≤ 4076 then [] else frameBytes frame.1.code frame.2

theorem code_ne_marker (t : FrameType) : t.code ≠ mboxFrameTcp := by
  cases t <;> decide

theorem recordOf_marker {frame : FrameType × Bytes} (h : (recordOf frame).1 = mboxFrameTcp) :
    (recordOf frame).2 = [] := by
  unfold recordOf at *
  split at h
  · exact absurd h (code_ne_marker _)
  · rw [if_neg ‹_›]

theorem tpSendCommand_eq {p p' : Pair} {frame : FrameType × Bytes} (h : tpSendCommand p frame = some p') :
    (p.mailbox = true ∧ ∃ put, tpMboxPut p (recordOf frame).1 (recordOf frame).2 = some put ∧
      p' = { put with control := p.control ++ overControl true frame }) ∨
    (p.mailbox = false ∧ p' = { p with control := p.control ++ overControl false frame }) := by
  obtain hmailbox | hmailbox := Bool.eq_false_or_eq_true p.mailbox
  · rw [tpSendCommand, if_pos hmailbox] at h
    refine .inl ⟨hmailbox, ?_⟩
    by_cases hfits : frame.2.length ≤ 4076
    · rw [if_pos (show frame.2.length ≤ mboxSeqOff - frameHeader.width from hfits)] at h
      rw [recordOf, if_pos hfits, overControl, if_pos ⟨rfl, hfits⟩, List.append_nil]
      refine ⟨p', h, ?_⟩
      obtain ⟨-, -, rfl⟩ := tpMboxPut_eq_some.1 h
      rfl
    · rw [if_neg (show ¬ frame.2.length ≤ mboxSeqOff - frameHeader.width from hfits)] at h
      obtain ⟨put, hput, rfl⟩ := Option.map_eq_some_iff.1 h
      rw [recordOf, if_neg hfits, overControl, if_neg fun h => hfits h.2]
      refine ⟨put, hput, ?_⟩
      obtain ⟨-, -, rfl⟩ := tpMboxPut_eq_some.1 hput
      rfl
  · rw [tpSendCommand, if_neg (Bool.eq_false_iff.1 hmailbox)] at h
    refine .inr ⟨hmailbox, (Option.some.inj h).symm.trans ?_⟩
    rw [overControl, if_neg (fun h => Bool.false_ne_true h.1)]
    rfl

/-- With a mailbox a frame is sent at once if there is room, and two writes are on their way. -/
theorem tpSendCommand_room {p : Pair} (hmailbox : p.mailbox = true) (hroom : p.sent < p.creditIn + 64)
    (frame : FrameType × Bytes) : ∃ p', tpSendCommand p frame = some p' ∧ p'.mailbox = true ∧
      p'.sent = p.sent + 1 ∧ p'.creditIn = p.creditIn ∧ ∃ record seq, p'.posted = p.posted ++ [record, seq] := by
  rw [tpSendCommand, if_pos hmailbox]
  by_cases hfits : frame.2.length ≤ mboxSeqOff - frameHeader.width
  · rw [if_pos hfits]
    exact ⟨_, tpMboxPut_eq_some.2 ⟨hfits, hroom, rfl⟩, hmailbox, rfl, rfl, _, _, rfl⟩
  · rw [if_neg hfits, tpMboxPut_eq_some.2 ⟨Nat.zero_le _, hroom, rfl⟩]
    exact ⟨_, rfl, hmailbox, rfl, rfl, _, _, rfl⟩

section Invariant

variable (nEmbd : UInt32)

/-- The frame of a call. -/
def Request.frame (r : Request) : FrameType × Bytes := (r.send nEmbd).getD (.stop, [])

/-- The `i`-th record of some calls. -/
def recordAt (calls : List Request) (i : Nat) : UInt32 × Bytes := recordOf (((calls[i]?).getD .stop).frame nEmbd)

/-- What was received is the front of what was sent; the rest is on the control channel and in the ring. -/
structure Inv (x : Exchange) (placed : Nat) : Prop where
  opened : x.pair.closed = false
  images : ∀ r ∈ x.calls, ∀ image ∈ r.images, image.Sound nEmbd
  frames : ∀ r ∈ x.calls, r.send nEmbd = some (r.frame nEmbd)
  received : x.received = (x.calls.take x.received.length).map fun r => (none, r.command)
  control : x.pair.control =
    (x.calls.drop x.received.length).flatMap fun r => overControl x.pair.mailbox (r.frame nEmbd)
  sent : x.pair.mailbox = true → x.pair.sent = x.calls.length
  consumed : x.pair.mailbox = true → x.pair.consumed = x.received.length
  mailed : x.pair.mailbox = true → Mailed x.pair (recordAt nEmbd x.calls) placed
  unused : x.pair.mailbox = false → x.pair.posted = [] ∧ x.pair.credits = 0

variable {nEmbd} {malloc : Site → Bool} {x : Exchange} {placed : Nat}

theorem inv_start (mailbox : Bool) : Inv nEmbd ⟨.start mailbox, [], []⟩ 0 where
  opened := rfl
  images _ h := absurd h List.not_mem_nil
  frames _ h := absurd h List.not_mem_nil
  received := rfl
  control := rfl
  sent _ := rfl
  consumed _ := rfl
  mailed _ := mailed_start mailbox
  unused _ := ⟨rfl, rfl⟩

theorem Inv.received_le (h : Inv nEmbd x placed) : x.received.length ≤ x.calls.length := by
  have hlen := congrArg List.length h.received
  rw [List.length_map, List.length_take] at hlen
  omega

theorem Inv.send (h : Inv nEmbd x placed) {r : Request} {frame : FrameType × Bytes} {p : Pair}
    (himages : ∀ image ∈ r.images, image.Sound nEmbd) (hframe : r.send nEmbd = some frame)
    (hsend : tpSendCommand x.pair frame = some p) :
    Inv nEmbd { x with pair := p, calls := x.calls ++ [r] } placed := by
  have hle := h.received_le
  obtain rfl : r.frame nEmbd = frame := by rw [Request.frame, hframe, Option.getD_some]
  have hreceived : x.received = ((x.calls ++ [r]).take x.received.length).map fun r => (none, r.command) := by
    rw [List.take_append_of_le_length hle]
    exact h.received
  have hcontrol : x.pair.control ++ overControl x.pair.mailbox (r.frame nEmbd) =
      ((x.calls ++ [r]).drop x.received.length).flatMap fun r => overControl x.pair.mailbox (r.frame nEmbd) := by
    rw [List.drop_append_of_le_length hle, List.flatMap_append, h.control, List.flatMap_singleton]
  have hall : ∀ {P : Request → Prop}, (∀ r ∈ x.calls, P r) → P r → ∀ r' ∈ x.calls ++ [r], P r' := by
    intro P hold hnew r' hr'
    obtain hmem | hmem := List.mem_append.1 hr'
    · exact hold r' hmem
    · exact List.mem_singleton.1 hmem ▸ hnew
  obtain ⟨hmailbox, put, hput, rfl⟩ | ⟨hmailbox, rfl⟩ := tpSendCommand_eq hsend
  · have hold : ∀ i < x.pair.sent, recordAt nEmbd (x.calls ++ [r]) i = recordAt nEmbd x.calls i := by
      intro i hi
      rw [recordAt, List.getElem?_append_left (h.sent hmailbox ▸ hi), recordAt]
    have hnew : recordAt nEmbd (x.calls ++ [r]) x.pair.sent = recordOf (r.frame nEmbd) := by
      rw [recordAt, h.sent hmailbox, List.getElem?_concat_length, Option.getD_some]
    have hmailed := (h.mailed hmailbox).put hput recordOf_marker hold hnew
    obtain ⟨-, -, rfl⟩ := tpMboxPut_eq_some.1 hput
    rw [hmailbox] at hcontrol
    exact {
      opened := h.opened
      images := hall h.images himages
      frames := hall h.frames hframe
      received := hreceived
      control := hcontrol.trans (by rw [← hmailbox])
      sent := fun _ => by
        rw [List.length_append, List.length_singleton]
        exact congrArg (· + 1) (h.sent hmailbox)
      consumed := fun _ => h.consumed hmailbox
      mailed := fun _ => { hmailed with }
      unused := fun hm => absurd (hmailbox.symm.trans hm) Bool.noConfusion }
  · have hnone : x.pair.mailbox ≠ true := Bool.eq_false_iff.1 hmailbox
    rw [hmailbox] at hcontrol
    exact {
      opened := h.opened
      images := hall h.images himages
      frames := hall h.frames hframe
      received := hreceived
      control := hcontrol.trans (by rw [← hmailbox])
      sent := fun hm => absurd hm hnone
      consumed := fun hm => absurd hm hnone
      mailed := fun hm => absurd hm hnone
      unused := h.unused }

theorem consume_eq (p : Pair) : ∃ creditOut credits acked, p.consume =
    { p with consumed := p.consumed + 1, creditOut := creditOut, credits := credits, acked := acked } := by
  simp only [Pair.consume]
  split
  · exact ⟨_, _, _, rfl⟩
  · exact ⟨_, _, _, rfl⟩

theorem Inv.received_concat (h : Inv nEmbd x placed) {r : Request} (hr : x.calls[x.received.length]? = some r) :
    x.received ++ [(none, r.command)] =
      (x.calls.take (x.received.length + 1)).map fun r => (none, r.command) := by
  rw [List.take_add_one, hr, Option.toList_some, List.map_append, List.map_singleton, ← h.received]

theorem Inv.control_next (h : Inv nEmbd x placed) {r : Request} (hr : x.calls[x.received.length]? = some r) :
    x.pair.control = overControl x.pair.mailbox (r.frame nEmbd) ++
      (x.calls.drop (x.received.length + 1)).flatMap fun r => overControl x.pair.mailbox (r.frame nEmbd) := by
  obtain ⟨hlt, hget⟩ := List.getElem?_eq_some_iff.1 hr
  rw [h.control, List.drop_eq_getElem_cons hlt, hget, List.flatMap_cons]

theorem Inv.receive_control (h : Inv nEmbd x placed) (hm : ∀ site, malloc site = true) {r : Request}
    (hr : x.calls[x.received.length]? = some r) (hmailbox : x.pair.mailbox = false) :
    ∃ p, ds4TpRecvCommand nEmbd malloc x.pair = some ⟨none, r.command, p⟩ ∧
      Inv nEmbd { x with pair := p, received := x.received ++ [(none, r.command)] } placed := by
  have hmem := List.mem_of_getElem? hr
  have hnone : x.pair.mailbox ≠ true := Bool.eq_false_iff.1 hmailbox
  have hcontrol := h.control_next hr
  rw [overControl, if_neg fun h => hnone h.1] at hcontrol
  have hrecv := recvCommand_control hm (h.images r hmem) (h.frames r hmem) hcontrol
  rw [ds4TpRecvCommand, if_neg hnone]
  exact ⟨_, hrecv, {
    opened := h.opened
    images := h.images
    frames := h.frames
    received := by rw [List.length_append]; exact h.received_concat hr
    control := by rw [List.length_append]; rfl
    sent := fun hm => absurd hm hnone
    consumed := fun hm => absurd hm hnone
    mailed := fun hm => absurd hm hnone
    unused := h.unused }⟩

theorem Inv.receive_mailbox (h : Inv nEmbd x placed) (hm : ∀ site, malloc site = true) {r : Request}
    (hr : x.calls[x.received.length]? = some r) (hmailbox : x.pair.mailbox = true)
    (hnext : x.pair.consumed < placed / 2) :
    ∃ p, ds4TpRecvCommand nEmbd malloc x.pair = some ⟨none, r.command, p⟩ ∧
      Inv nEmbd { x with pair := p, received := x.received ++ [(none, r.command)] } placed := by
  have hmem := List.mem_of_getElem? hr
  have hframe := h.frames r hmem
  have hmailed := (h.mailed hmailbox).consume hnext
  have hrecord : recordAt nEmbd x.calls x.pair.consumed = recordOf (r.frame nEmbd) := by
    rw [recordAt, h.consumed hmailbox, hr, Option.getD_some]
  have hgot := (h.mailed hmailbox).get (hm .payload) hnext
  obtain ⟨creditOut, credits, acked, hconsume⟩ := consume_eq x.pair
  rw [hrecord, hconsume] at hgot
  rw [hconsume] at hmailed
  have hcontrol := h.control_next hr
  set rest := (x.calls.drop (x.received.length + 1)).flatMap fun r => overControl x.pair.mailbox (r.frame nEmbd)
    with hrest
  have hinv : Inv nEmbd { x with
      pair := { x.pair with
        consumed := x.pair.consumed + 1, creditOut := creditOut, credits := credits, acked := acked, control := rest }
      received := x.received ++ [(none, r.command)] } placed := {
    opened := h.opened
    images := h.images
    frames := h.frames
    received := by rw [List.length_append]; exact h.received_concat hr
    control := by rw [List.length_append]; exact hrest
    sent := h.sent
    consumed := fun _ => by rw [List.length_append]; exact congrArg (· + 1) (h.consumed hmailbox)
    mailed := fun _ => { hmailed with }
    unused := fun hm => absurd (hmailbox.symm.trans hm) Bool.noConfusion }
  refine ⟨_, ?_, hinv⟩
  rw [ds4TpRecvCommand, if_pos hmailbox, hgot]
  by_cases hfits : (r.frame nEmbd).2.length ≤ 4076
  · obtain ⟨hdecode, -, hcode⟩ :=
      commandDecode_send (t := (r.frame nEmbd).1) (p := (r.frame nEmbd).2) hm (h.images r hmem) hframe
    rw [overControl, if_pos ⟨hmailbox, hfits⟩, List.nil_append] at hcontrol
    rw [recordOf, if_pos hfits, ← hcontrol]
    simp only [if_neg (code_ne_marker _), recvPayload_ok hcode hdecode]
  · rw [overControl, if_neg fun h => hfits h.2] at hcontrol
    rw [recordOf, if_neg hfits]
    exact recvCommand_control hm (h.images r hmem) hframe hcontrol

theorem Inv.receive (h : Inv nEmbd x placed) (hm : ∀ site, malloc site = true) {r : Request}
    (hr : x.calls[x.received.length]? = some r)
    (hplaced : x.pair.mailbox = true → x.pair.consumed < placed / 2) :
    ∃ p, ds4TpRecvCommand nEmbd malloc x.pair = some ⟨none, r.command, p⟩ ∧
      Inv nEmbd { x with pair := p, received := x.received ++ [(none, r.command)] } placed := by
  obtain hmailbox | hmailbox := Bool.eq_false_or_eq_true x.pair.mailbox
  · exact h.receive_mailbox hm hr hmailbox (hplaced hmailbox)
  · exact h.receive_control hm hr hmailbox

theorem Inv.waits (h : Inv nEmbd x placed) (hnext : x.calls[x.received.length]? = none ∨
    (x.pair.mailbox = true ∧ placed / 2 ≤ x.pair.consumed)) : ds4TpRecvCommand nEmbd malloc x.pair = none := by
  unfold ds4TpRecvCommand
  cases hmailbox : x.pair.mailbox with
  | false =>
    have hend := List.getElem?_eq_none_iff.1 (hnext.resolve_right fun hm => Bool.false_ne_true (hmailbox ▸ hm.1))
    have hcontrol : x.pair.control = [] := by
      rw [h.control, List.drop_eq_nil_of_le hend, List.flatMap_nil]
    rw [if_neg Bool.false_ne_true, recvControl, hcontrol, h.opened]
    rfl
  | true =>
    have hmailed := h.mailed hmailbox
    have hlast : placed / 2 ≤ x.pair.consumed := by
      refine hnext.elim (fun hend => ?_) And.right
      have := List.getElem?_eq_none_iff.1 hend
      rw [h.consumed hmailbox]
      have := h.sent hmailbox
      have := hmailed.placed_le
      omega
    rw [if_pos rfl, hmailed.get_waits malloc h.opened hlast]

/-- **One step.** -/
theorem Step.inv (hm : ∀ site, malloc site = true) {x' : Exchange} (hstep : Step nEmbd malloc x x')
    (h : Inv nEmbd x placed) : ∃ placed', Inv nEmbd x' placed' := by
  cases hstep with
  | send himages hframe hsend => exact ⟨placed, h.send himages hframe hsend⟩
  | receive hrecv =>
    by_cases hwaits : x.calls[x.received.length]? = none ∨ (x.pair.mailbox = true ∧ placed / 2 ≤ x.pair.consumed)
    · exact absurd (hrecv.symm.trans (h.waits hwaits)) (Option.some_ne_none _)
    · obtain ⟨hsome, hplaced⟩ := not_or.1 hwaits
      obtain ⟨r, hr⟩ := Option.ne_none_iff_exists'.1 hsome
      obtain ⟨p, hnext, hinv⟩ := h.receive hm hr fun hmailbox => Nat.lt_of_not_le fun hle => hplaced ⟨hmailbox, hle⟩
      obtain rfl := Option.some.inj (hrecv.symm.trans hnext)
      exact ⟨placed, hinv⟩
  | place hplace =>
    cases hmailbox : x.pair.mailbox with
    | false =>
      rw [Pair.place, (h.unused hmailbox).1] at hplace
      cases hplace
    | true =>
      obtain ⟨hmailed, ring, posted, rfl⟩ := (h.mailed hmailbox).place hplace
      exact ⟨placed + 1, { h with
        mailed := fun _ => hmailed
        unused := fun hm => absurd (hmailbox.symm.trans hm) Bool.noConfusion }⟩
  | placeCredit hplace =>
    cases hmailbox : x.pair.mailbox with
    | false =>
      rw [Pair.placeCredit, if_pos (h.unused hmailbox).2] at hplace
      cases hplace
    | true =>
      obtain ⟨hmailed, creditIn, credits, rfl⟩ := (h.mailed hmailbox).placeCredit hplace
      exact ⟨placed, { h with
        mailed := fun _ => hmailed
        unused := fun hm => absurd (hmailbox.symm.trans hm) Bool.noConfusion }⟩

theorem Run.inv (hm : ∀ site, malloc site = true) {mailbox : Bool} (h : Run nEmbd malloc mailbox x) :
    ∃ placed, Inv nEmbd x placed := by
  induction h with
  | refl => exact ⟨0, inv_start mailbox⟩
  | tail _ hstep ih =>
    obtain ⟨placed, hinv⟩ := ih
    exact hstep.inv hm hinv

theorem Inv.receive_arrived (h : Inv nEmbd x placed) (hm : ∀ site, malloc site = true)
    (hposted : x.pair.posted = []) {r : Request} (hr : x.calls[x.received.length]? = some r) :
    ∃ p, ds4TpRecvCommand nEmbd malloc x.pair = some ⟨none, r.command, p⟩ := by
  obtain ⟨p, hrecv, -⟩ := h.receive hm hr fun hmailbox => by
    rw [(h.mailed hmailbox).placed_of_posted hposted, Nat.mul_div_cancel_left _ Nat.two_pos, h.sent hmailbox,
      h.consumed hmailbox]
    exact (List.getElem?_eq_some_iff.1 hr).1
  exact ⟨p, hrecv⟩

theorem Inv.send_idle (h : Inv nEmbd x placed) (hcredits : x.pair.credits = 0)
    (hall : x.received.length = x.calls.length) (frame : FrameType × Bytes) :
    ∃ p, tpSendCommand x.pair frame = some p := by
  obtain hmailbox | hmailbox := Bool.eq_false_or_eq_true x.pair.mailbox
  · have hroom := (h.mailed hmailbox).room
      (((h.consumed hmailbox).trans hall).trans (h.sent hmailbox).symm) hcredits
    obtain ⟨p, hsend, -⟩ := tpSendCommand_room hmailbox hroom frame
    exact ⟨p, hsend⟩
  · rw [tpSendCommand, if_neg (Bool.eq_false_iff.1 hmailbox)]
    exact ⟨_, rfl⟩

end Invariant

/-- **The command codec.** Over a mailbox or the control channel, in any run, what the worker receives is the
commands of the calls that the senders accepted, in their order, and the next one is received once its writes have
arrived; a frame in front of a control channel is received and nothing behind it is touched. No read leaves a
payload, a failed call leaves the empty command, and an accepted payload is, its unused word aside, the payload of a
call with the accepted command. -/
theorem command_codec (nEmbd : UInt32) (malloc : Site → Bool) :
    (∀ (mailbox : Bool) (x : Exchange), (∀ site, malloc site = true) → Run nEmbd malloc mailbox x →
      x.received = (x.calls.take x.received.length).map (fun r => (none, r.command)) ∧
      (x.pair.posted = [] → ∀ r, x.calls[x.received.length]? = some r →
        ∃ p, ds4TpRecvCommand nEmbd malloc x.pair = some ⟨none, r.command, p⟩) ∧
      (x.pair.credits = 0 → x.received.length = x.calls.length →
        ∀ frame, ∃ p, tpSendCommand x.pair frame = some p)) ∧
    (∀ (p : Pair) (r : Request) (frame : FrameType × Bytes) (rest : Bytes), p.mailbox = false →
      (∀ site, malloc site = true) → (∀ image ∈ r.images, image.Sound nEmbd) → r.send nEmbd = some frame →
      p.control = frameBytes frame.1.code frame.2 ++ rest →
      ds4TpRecvCommand nEmbd malloc p = some ⟨none, r.command, { p with control := rest }⟩) ∧
    (∀ (t : FrameType) (payload : Bytes), commandDecode nEmbd malloc payload t ≠ .error .outside) ∧
    (∀ (p : Pair) (got : Received), ds4TpRecvCommand nEmbd malloc p = some got → got.error ≠ none →
      got.command = commandFree) ∧
    (∀ (t : FrameType) (payload : Bytes) (c : Command), nEmbd ≠ 0 → payload.length ≤ uint32Max →
      commandDecode nEmbd malloc payload t = .ok c →
      ∃ r : Request, (∀ image ∈ r.images, image.Sound nEmbd) ∧ r.command = c ∧
        r.send nEmbd = some (t, clearUnused t payload)) := by
  refine ⟨fun mailbox x hm hrun => ?_, fun p r frame rest hmailbox hm himages hframe hcontrol => ?_,
    fun t p => commandDecode_inside t, fun p got => recvCommand_failed,
    fun t p c hn hp h => commandDecode_inv hn hp h⟩
  · obtain ⟨placed, hinv⟩ := hrun.inv hm
    exact ⟨hinv.received, fun hposted r hr => hinv.receive_arrived hm hposted hr, hinv.send_idle⟩
  · rw [ds4TpRecvCommand, if_neg (Bool.eq_false_iff.1 hmailbox)]
    exact recvCommand_control hm himages hframe hcontrol

/-- An image of one row of one number, laid out on a grid. -/
def oneRow : VisionSpan := ⟨3, some [1, 2, 3, 4], 1, 0, 1, 1, 14, 14, 14, 14, Vector.replicate 32 7⟩

theorem oneRow_sound : oneRow.Sound 1 := ⟨by decide, by decide, fun _ h => Option.some.inj h ▸ by decide⟩

theorem place_posted {p : Pair} {write : Write} {posted : List Write} (h : p.posted = write :: posted) :
    ∃ p', p.place = some p' ∧ p'.posted = posted := by
  rw [Pair.place, h]
  cases write with
  | record => exact ⟨_, rfl, rfl⟩
  | seq => exact ⟨_, rfl, rfl⟩

/-- A multimodal sync travels in the ring and a long sync on the control channel behind its marker; whichever is sent
first is received first. -/
theorem command_codec_mailbox :
    let short := Request.syncMultimodal 9 [5, 6] [oneRow]
    let long := Request.sync 9 (List.replicate 1024 5)
    (∃ x p, Run 1 (fun _ => true) true x ∧ x.calls = [short, long] ∧
      ds4TpRecvCommand 1 (fun _ => true) x.pair = some ⟨none, { commandFree with
        type := .syncMultimodal, sessionId := 9, tokens := [5, 6], images := [oneRow.carried] }, p⟩) ∧
    ∃ x p, Run 1 (fun _ => true) true x ∧ x.calls = [long, short] ∧
      ds4TpRecvCommand 1 (fun _ => true) x.pair = some ⟨none, { commandFree with
        type := .sync, sessionId := 9, tokens := List.replicate 1024 5 }, p⟩ := by
  intro short long
  have htwo : ∀ {r r' : Request} {frame frame' : FrameType × Bytes}, (∀ image ∈ r.images, image.Sound 1) →
      r.send 1 = some frame → (∀ image ∈ r'.images, image.Sound 1) → r'.send 1 = some frame' →
      ∃ x p, Run 1 (fun _ => true) true x ∧ x.calls = [r, r'] ∧
        ds4TpRecvCommand 1 (fun _ => true) x.pair = some ⟨none, r.command, p⟩ := by
    intro r r' frame frame' himages hframe himages' hframe'
    obtain ⟨p₁, hsend₁, hmailbox₁, hsent₁, hcredit₁, a, b, hposted₁⟩ :=
      tpSendCommand_room (p := .start true) rfl (by decide) frame
    have hroom : p₁.sent < p₁.creditIn + 64 := by
      rw [hsent₁, hcredit₁]
      decide
    obtain ⟨p₂, hsend₂, -, -, -, c, d, hposted₂⟩ := tpSendCommand_room hmailbox₁ hroom frame'
    obtain ⟨p₃, hplace₃, hposted₃⟩ := place_posted (hposted₂.trans (congrArg (· ++ [c, d]) hposted₁))
    obtain ⟨p₄, hplace₄, hposted₄⟩ := place_posted hposted₃
    obtain ⟨p₅, hplace₅, hposted₅⟩ := place_posted hposted₄
    obtain ⟨p₆, hplace₆, hposted₆⟩ := place_posted hposted₅
    have hrun : Run 1 (fun _ => true) true ⟨p₆, [r, r'], []⟩ :=
      (((((Relation.ReflTransGen.single (.send himages hframe hsend₁)).tail (.send himages' hframe' hsend₂)).tail
        (.place hplace₃)).tail (.place hplace₄)).tail (.place hplace₅)).tail (.place hplace₆)
    obtain ⟨-, hnext, -⟩ := (command_codec 1 fun _ => true).1 true _ (fun _ => rfl) hrun
    obtain ⟨p, hrecv⟩ := hnext hposted₆ r rfl
    exact ⟨_, p, hrun, rfl, hrecv⟩
  have hshort : short.send 1 = some _ := rfl
  have hsync : ∀ tokens : List Int32, 16 + tokens.length * 4 ≤ uint32Max →
      ∃ frame, (Request.sync 9 tokens).send 1 = some frame :=
    fun tokens h => ⟨_, tokenCommand_eq_some.2 ⟨h, rfl, rfl⟩⟩
  obtain ⟨frame, hlong⟩ := hsync (List.replicate 1024 5) (by rw [List.length_replicate]; decide)
  have himages : ∀ image ∈ short.images, image.Sound 1 := List.forall_mem_singleton.2 oneRow_sound
  exact ⟨htwo himages hshort nofun hlong, htwo nofun hlong himages hshort⟩

theorem send_type {nEmbd : UInt32} {t : FrameType} {p : Bytes} {r : Request} (h : r.send nEmbd = some (t, p)) :
    r.command.type = t := by
  cases r with
  | sessionCreate | sessionDestroy | eval | rewind | invalidate | stop =>
    exact (Prod.mk.inj (Option.some.inj h)).1
  | glmMtp | specRestore | dsparkDraft | evalBatch | mixedBatch =>
    obtain ⟨-, h⟩ := Option.ite_none_left_eq_some.1 h
    exact (Prod.mk.inj (Option.some.inj h)).1
  | sync => exact (tokenCommand_eq_some.1 h).2.1
  | verify =>
    obtain ⟨-, h⟩ := Option.ite_none_left_eq_some.1 h
    exact (tokenCommand_eq_some.1 h).2.1
  | syncMultimodal =>
    obtain ⟨-, h⟩ := Option.ite_none_left_eq_some.1 h
    obtain ⟨_, -, h⟩ := Option.map_eq_some_iff.1 h
    exact (Prod.mk.inj h).1

/-- A create with a word set that no sender sets is accepted, and the grid of an image is not received. -/
theorem command_codec_loose :
    (∃ c, commandDecode 1 (fun _ => true) (valueCommand.put ⟨9, 4096, 1⟩) .sessionCreate = .ok c ∧
      ∀ r : Request, r.send 1 ≠ some (.sessionCreate, valueCommand.put ⟨9, 4096, 1⟩)) ∧
    ∃ frame, (Request.syncMultimodal 9 [5, 6] [oneRow]).send 1 = some frame ∧
      ∃ got, ds4TpRecvCommand 1 (fun _ => true) (tpSendFrame (.start false) frame) = some got ∧ got.error = none ∧
        got.command.images ≠ [oneRow] := by
  constructor
  · refine ⟨_, fixed_ok (rejectIf_bind_ok.2 ⟨nofun, rfl⟩), fun r h => ?_⟩
    cases r with
    | sessionCreate s v =>
      have hput := congrArg valueCommand.get (Prod.mk.inj (Option.some.inj h)).2
      rw [valueCommand.get_put, valueCommand.get_put] at hput
      have hreserved : (0 : UInt32) = 1 := congrArg ValueCommand.reserved hput
      exact absurd hreserved (by decide)
    | _ => exact nomatch send_type h
  · obtain ⟨frame, hsend⟩ : ∃ frame, (Request.syncMultimodal 9 [5, 6] [oneRow]).send 1 = some frame := ⟨_, rfl⟩
    have hcontrol : (tpSendFrame (.start false) frame).control = frameBytes frame.1.code frame.2 ++ [] :=
      (List.append_nil _).symm
    have himages : ∀ image ∈ (Request.syncMultimodal 9 [5, 6] [oneRow]).images, image.Sound 1 :=
      List.forall_mem_singleton.2 oneRow_sound
    have hrecv := @recvCommand_control 1 (fun _ => true) _ _ _ _ (fun _ => rfl) himages hsend hcontrol
    have hother : (Request.syncMultimodal 9 [5, 6] [oneRow]).command.images ≠ [oneRow] := by decide
    exact ⟨frame, hsend, _, hrecv, rfl, hother⟩

end Ds4.Tp
