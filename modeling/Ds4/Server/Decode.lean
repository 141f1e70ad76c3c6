import Mathlib.Logic.Function.Basic
import Mathlib.Tactic

/-!
# The decode coordinator

`server_eval_tokens` and `server_eval_cycle` of the slot workers, `decode_worker_main`, the prefill
turns and the withdrawals of batched mode, in steps as long as one holds `model_mu`. The slots are
`slots[]` and then the utility slot. What the engine answers to a batch is an input of the step that
ends it. The fields `calls`, `finished` and `returns` of a state keep the history, and `decodeCall` of
a slot numbers the call that its token belongs to.
-/

namespace Ds4.Server

/-- `DS4_SESSION_SYNC_INTERRUPTED`. -/
def sessionSyncInterrupted : Int := 2

/-- `decode_cycle`, less how it samples. -/
structure DecodeCycle where
  cap : Int
  eos : Int
  ignoreEos : Bool
  deriving DecidableEq

/-- A call of `server_eval_tokens`, by `server_eval_cycle` when there is a cycle. -/
structure DecodeCall where
  slot : Nat
  token : Int
  speculative : Bool
  cycle : Option DecodeCycle
  deriving DecidableEq

/-- The tokens that the caller has room for. -/
def DecodeCall.room (call : DecodeCall) : Nat := if call.cycle.isSome then 17 else 2

/-- Where the worker of a slot is. -/
inductive Worker
  | idle
  | decoding
  | entering
  | prefilling
  | parked
  | resuming
  | exited
  deriving DecidableEq

/-- The part of a `server_slot` behind `model_mu`, whether its job is cancelled, and where its worker
is. `decodeAccepted` is as long as `decode_accepted_count`. -/
structure DecodeSlot where
  prefillWaiting : Bool
  decodePending : Bool
  decodeInFlight : Bool
  decodeDone : Bool
  decodeToken : Int
  decodeSpeculative : Bool
  decodeAccepted : List Int
  decodeCycle : Option DecodeCycle
  decodeCarry : Int
  decodeRc : Int
  decodeErr : String
  cancelled : Bool
  worker : Worker
  decodeCall : Nat
  deriving DecidableEq

/-- A slot at the start. -/
def DecodeSlot.init : DecodeSlot where
  prefillWaiting := false
  decodePending := false
  decodeInFlight := false
  decodeDone := false
  decodeToken := 0
  decodeSpeculative := false
  decodeAccepted := []
  decodeCycle := none
  decodeCarry := 0
  decodeRc := 0
  decodeErr := ""
  cancelled := false
  worker := .idle
  decodeCall := 0

/-- A member of a batch: its slot and the token that was taken from it. -/
structure DecodeMember where
  slot : Nat
  call : Nat
  token : Int
  cycle : Option DecodeCycle
  deriving DecidableEq

namespace DecodeSlot

/-- A slot with a token that was submitted. -/
def submit (slot : DecodeSlot) (call : DecodeCall) (k : Nat) : DecodeSlot :=
  { slot with
    decodeToken := call.token
    decodeSpeculative := call.speculative
    decodeAccepted := []
    decodeCycle := call.cycle.or slot.decodeCycle
    decodeCarry := if call.cycle.isSome then -1 else slot.decodeCarry
    decodeRc := 1
    decodeErr := ""
    decodeDone := false
    decodePending := true
    worker := .decoding
    decodeCall := k }

/-- `server_cancel_pending_decode_locked`, for a slot whose token is pending. -/
def withdraw (slot : DecodeSlot) (err : String) : DecodeSlot :=
  { slot with
    decodePending := false
    decodeRc := sessionSyncInterrupted
    decodeErr := err
    decodeDone := true }

/-- A slot whose token was taken. -/
def take (slot : DecodeSlot) : DecodeSlot :=
  { slot with decodePending := false, decodeInFlight := true }

/-- A slot with the result of its batch. -/
def finish (slot : DecodeSlot) (rc : Int) (accepted : List Int) (carry : Int) (err : String) :
    DecodeSlot :=
  { slot with
    decodeInFlight := false
    decodeRc := rc
    decodeAccepted := if rc = 0 then accepted else slot.decodeAccepted
    decodeCarry := if rc = 0 then carry else slot.decodeCarry
    decodeErr := if rc = 0 then slot.decodeErr
      else if err ≠ "" then err else "batched decode failed"
    decodeDone := true }

/-- A slot whose call has returned. -/
def answer (slot : DecodeSlot) : DecodeSlot :=
  { slot with decodeDone := false, decodeCycle := none, worker := .idle }

/-- The member that a slot is of the batch that takes its token. -/
def member (slot : DecodeSlot) (i : Nat) : DecodeMember :=
  ⟨i, slot.decodeCall, slot.decodeToken, slot.decodeCycle⟩

/-- The call of the worker of a slot. -/
def asCall (slot : DecodeSlot) (i : Nat) : DecodeCall :=
  ⟨i, slot.decodeToken, slot.decodeSpeculative, slot.decodeCycle⟩

end DecodeSlot

/-- The slots, and `mixed_rows`. -/
structure DecodeConfig where
  slotCount : Nat
  hasUtility : Bool
  mixedRows : Int

/-- `server_decode_slots`. -/
def DecodeConfig.decodeSlots (c : DecodeConfig) : Nat := c.slotCount + c.hasUtility.toNat

/-! ## Batches -/

/-- The members of a batch, the plain group in front. -/
structure DecodeBatch where
  members : List DecodeMember
  plainCount : Nat
  deriving DecidableEq

/-- What the engine answers: whether it takes mixed steps, which sessions are ready for a cycle, and
for each call that the coordinator can make its result. A cycle returns its tokens, none when its
count is below one; it has room for 17, and a row of the speculative group for two. -/
structure EngineAnswers where
  mixedStep : Bool
  cycleReady : Nat → Bool
  mixedRc : Int
  cycleTokens : List Int
  cycleCarry : Int
  batchRc : Int
  speculativeRc : Int
  speculativeAccepted : Nat → List Int
  batchErr : String
  cycleTokens_le : cycleTokens.length ≤ 17
  speculativeAccepted_le : ∀ m, (speculativeAccepted m).length ≤ 2

namespace DecodeBatch

variable (c : DecodeConfig) (blockSlot : Nat) (b : DecodeBatch) (e : EngineAnswers)

/-- The members that are no utility row. -/
def streams : Nat := b.members.countP fun m => m.slot != c.slotCount

/-- Whether the step is a mixed one. -/
def mixes : Bool :=
  decide (1 < b.members.length) && decide ((b.streams c : Int) ≤ c.mixedRows) &&
    decide (b.plainCount = b.members.length) && e.mixedStep

/-- The next member behind `blockSlot` that would draft, with its slot. -/
def drafter : Option (Nat × Nat) :=
  (List.range c.decodeSlots).findSome? fun i =>
    let want := (blockSlot + (i + 1)) % c.decodeSlots
    (b.members.findIdx? fun m => m.slot == want && m.cycle.isSome && e.cycleReady m.slot).map
      fun m => (m, want)

/-- The member whose block the step drafts, with the slot to go on from. -/
def block : Option (Nat × Nat) :=
  if b.mixes c e then b.drafter c blockSlot e
  else if b.members.length = 1 then
    (b.members.head?.bind DecodeMember.cycle).map fun _ => (0, blockSlot)
  else none

/-- The result code of a batch. -/
def rc : Int :=
  let rc :=
    if b.mixes c e && (b.block c blockSlot e).isNone then e.mixedRc
    else if (b.block c blockSlot e).isSome then if e.cycleTokens.length < 1 then 1 else 0
    else if b.plainCount ≠ 0 then e.batchRc
    else 0
  if rc = 0 ∧ b.plainCount < b.members.length then e.speculativeRc else rc

/-- The tokens that a successful batch accepts for member `i`. -/
def accepted (i : Nat) : List Int :=
  if (b.block c blockSlot e).map Prod.fst = some i then e.cycleTokens
  else if i < b.plainCount then (b.members[i]?.map DecodeMember.token).toList
  else e.speculativeAccepted i

/-- The carry that a successful batch leaves for member `i`; only a mixed block has one. -/
def carry (i : Nat) : Int :=
  if (b.block c blockSlot e).map Prod.fst = some i ∧ b.mixes c e then e.cycleCarry else -1

/-- Where the next mixed step starts to look. -/
def nextBlockSlot : Nat :=
  ((b.block c blockSlot e).map Prod.snd).getD blockSlot

end DecodeBatch

/-- A batch that was evaluated, with what decided its results. -/
structure FinishedBatch where
  batch : DecodeBatch
  blockSlot : Nat
  answers : EngineAnswers

/-- A call that has returned: its result, and the flags that it saw. -/
structure DecodeReturn where
  call : Nat
  rc : Int
  accepted : List Int
  carry : Option Int
  err : String
  stopped : Bool
  cancelled : Bool
  deriving DecidableEq

/-- Where `decode_worker_main` is: it waits for a token, it has seen one, a batch is evaluated, it has
ended. -/
inductive CoordinatorPhase
  | idle
  | ready
  | batch (b : DecodeBatch)
  | exited
  deriving DecidableEq

/-- The part of `server` behind `model_mu`, `g_stop_requested`, the coordinator, and the history. -/
structure Coordinator where
  slots : Nat → DecodeSlot
  modelBusy : Bool
  modelStopping : Bool
  decodePending : Int
  lastPrefillSlot : Nat
  stopRequested : Bool
  phase : CoordinatorPhase
  blockSlot : Nat
  calls : List DecodeCall
  finished : List FinishedBatch
  returns : List DecodeReturn

namespace Coordinator

/-- The server at its start. -/
def init (c : DecodeConfig) : Coordinator where
  slots := fun _ => DecodeSlot.init
  modelBusy := false
  modelStopping := false
  decodePending := 0
  lastPrefillSlot := c.slotCount - 1
  stopRequested := false
  phase := .idle
  blockSlot := c.decodeSlots - 1
  calls := []
  finished := []
  returns := []

/-- Writes one slot. -/
def setSlot (s : Coordinator) (i : Nat) (slot : DecodeSlot) : Coordinator :=
  { s with slots := Function.update s.slots i slot }

/-! ## Calls -/

/-- The text of an interrupted call. -/
def interruptedErr (s : Coordinator) : String :=
  if s.stopRequested then "shutdown requested" else "client disconnected"

/-- A call that returns before it submits its token. -/
def refuse (s : Coordinator) (call : DecodeCall) (rc : Int) (err : String) : Coordinator :=
  { s with
    calls := s.calls ++ [call]
    returns := s.returns ++
      [⟨s.calls.length, rc, [], call.cycle.map fun _ => -1, err, s.stopRequested,
        (s.slots call.slot).cancelled⟩] }

/-- `server_eval_tokens` up to its wait. -/
def evalTokens (s : Coordinator) (call : DecodeCall) : Coordinator :=
  let slot := s.slots call.slot
  if s.stopRequested || slot.cancelled then s.refuse call sessionSyncInterrupted s.interruptedErr
  else if slot.decodePending || slot.decodeInFlight then
    s.refuse call 1 "session already has a decode in flight"
  else
    { s with
      slots := Function.update s.slots call.slot (slot.submit call s.calls.length)
      decodePending := s.decodePending + 1
      calls := s.calls ++ [call] }

/-- What a call returns when its slot has a result. -/
def result (s : Coordinator) (slot : DecodeSlot) : DecodeReturn :=
  let rc :=
    if s.stopRequested && slot.decodeRc == 0 then sessionSyncInterrupted else slot.decodeRc
  { call := slot.decodeCall
    rc := rc
    accepted := if rc = 0 then slot.decodeAccepted else []
    carry := slot.decodeCycle.map fun _ => slot.decodeCarry
    err := if rc = 0 then ""
      else if s.stopRequested then "shutdown requested"
      else if slot.decodeErr ≠ "" then slot.decodeErr
      else "decode interrupted"
    stopped := s.stopRequested
    cancelled := slot.cancelled }

/-- The call of slot `i` returns, with the result that `slot` holds. -/
def answer (s : Coordinator) (i : Nat) (slot : DecodeSlot) : Coordinator :=
  { s with
    slots := Function.update s.slots i slot.answer
    returns := s.returns ++ [s.result slot] }

/-- The worker of slot `i` withdraws its token and returns. -/
def withdraw (s : Coordinator) (i : Nat) : Coordinator :=
  let slot := s.slots i
  { s with decodePending := s.decodePending - 1 }.answer i
    (slot.withdraw (if slot.cancelled then "client disconnected" else "shutdown requested"))

/-- `server_cancel_job`, for the slot that runs the job. -/
def disconnect (s : Coordinator) (i : Nat) : Coordinator :=
  let slot := s.slots i
  if slot.decodePending && !slot.decodeInFlight then
    { s with
      slots := Function.update s.slots i (slot.withdraw "client disconnected")
      decodePending := s.decodePending - 1 }
  else s

/-! ## Batches -/

/-- The members of a group, in the order of their slots. -/
def group (s : Coordinator) (c : DecodeConfig) (speculative : Bool) : List DecodeMember :=
  ((List.range c.decodeSlots).filter fun i =>
    (s.slots i).decodePending && (s.slots i).decodeSpeculative == speculative).map
      fun i => (s.slots i).member i

/-- The batch that takes all pending tokens. -/
def nextBatch (s : Coordinator) (c : DecodeConfig) : DecodeBatch where
  members := s.group c false ++ s.group c true
  plainCount := (s.group c false).length

/-- The coordinator takes the pending tokens and the model, or finds no token. -/
def form (s : Coordinator) (c : DecodeConfig) : Coordinator :=
  if (s.nextBatch c).members.length = 0 then { s with phase := .idle }
  else
    { s with
      slots := fun i =>
        if i < c.decodeSlots ∧ (s.slots i).decodePending then (s.slots i).take else s.slots i
      decodePending := s.decodePending - (s.nextBatch c).members.length
      modelBusy := true
      phase := .batch (s.nextBatch c) }

/-- The batch was evaluated: each member gets its result. A slot is at most once a member. -/
def finish (s : Coordinator) (c : DecodeConfig) (b : DecodeBatch) (e : EngineAnswers) :
    Coordinator :=
  { s with
    slots := fun i =>
      match b.members.findIdx? fun m => m.slot == i with
      | none => s.slots i
      | some m =>
        (s.slots i).finish (b.rc c s.blockSlot e) (b.accepted c s.blockSlot e m)
          (b.carry c s.blockSlot e m) e.batchErr
    modelBusy := false
    phase := .idle
    blockSlot := b.nextBlockSlot c s.blockSlot e
    finished := s.finished ++ [⟨b, s.blockSlot, e⟩] }

/-! ## Prefill turns -/

/-- `server_next_prefill_slot_locked`. -/
def nextPrefillSlot (s : Coordinator) (c : DecodeConfig) : Option Nat :=
  if c.slotCount = 0 then none
  else
    ((List.range c.decodeSlots).map fun n => (s.lastPrefillSlot + (n + 1)) % c.decodeSlots).find?
      fun i => (s.slots i).prefillWaiting

/-- Whether a prefill has to wait although the model is free. -/
def prefillWaits (s : Coordinator) (c : DecodeConfig) (i : Nat) (yielding : Bool) : Bool :=
  decide (0 < s.decodePending) || s.nextPrefillSlot c != some i || yielding

/-- The worker of slot `i` waits for the model. -/
def prefillWait (s : Coordinator) (i : Nat) (worker : Worker) : Coordinator :=
  s.setSlot i { s.slots i with prefillWaiting := true, worker := worker }

/-- The worker of slot `i` takes the model. -/
def prefillTake (s : Coordinator) (i : Nat) : Coordinator :=
  { s.setSlot i { s.slots i with prefillWaiting := false, worker := .prefilling } with
    lastPrefillSlot := i
    modelBusy := true }

/-- The worker of slot `i` gives the model back. -/
def prefillLeave (s : Coordinator) (i : Nat) (worker : Worker) : Coordinator :=
  { s.setSlot i { s.slots i with worker := worker } with modelBusy := false }

/-! ## Steps -/

/-- The steps of the parties. A worker calls `server_eval_tokens` or `server_eval_cycle`, which
withdraws its token or returns a result; its client goes, and what noticed it withdraws the token; a
worker takes its next job or ends. The coordinator sees a token, ends, forms a batch and finishes it.
A worker asks for a prefill turn, gives up, takes it, leaves it (to come back when it parks), asks to
come back, and does. The server is asked to stop, and stops the coordinator. -/
inductive Step
  | evalTokens (i : Nat) (token : Int) (speculative : Bool)
  | evalCycle (i : Nat) (token : Int) (cycle : DecodeCycle)
  | withdraw (i : Nat)
  | answer (i : Nat)
  | cancel (i : Nat)
  | disconnect (i : Nat)
  | nextJob (i : Nat)
  | workerExit (i : Nat)
  | gather
  | coordinatorExit
  | form
  | finish (e : EngineAnswers)
  | prefillEnter (i : Nat)
  | prefillGiveUp (i : Nat)
  | prefillTake (i : Nat) (yielding : Bool)
  | prefillLeave (i : Nat) (park : Bool)
  | prefillResume (i : Nat)
  | prefillBack (i : Nat) (yielding : Bool)
  | stop
  | decodeStop

/-- A step; `none` when the party cannot take it now. -/
def step (c : DecodeConfig) (s : Coordinator) : Step → Option Coordinator
  | .evalTokens i token speculative =>
    if i < c.decodeSlots ∧ (s.slots i).worker = .idle then
      some (s.evalTokens ⟨i, token, speculative, none⟩)
    else none
  | .evalCycle i token cycle =>
    if i < c.decodeSlots ∧ (s.slots i).worker = .idle then
      some (s.evalTokens ⟨i, token, false, some cycle⟩)
    else none
  | .withdraw i =>
    if (s.slots i).worker = .decoding ∧ (s.slots i).decodeDone = false ∧
        ((s.slots i).cancelled ∨ s.stopRequested) ∧
        (s.slots i).decodePending ∧ (s.slots i).decodeInFlight = false then
      some (s.withdraw i)
    else none
  | .answer i =>
    if (s.slots i).worker = .decoding ∧ (s.slots i).decodeDone then some (s.answer i (s.slots i))
    else none
  | .cancel i =>
    if i < c.decodeSlots then some (s.setSlot i { s.slots i with cancelled := true }) else none
  | .disconnect i => if (s.slots i).cancelled then some (s.disconnect i) else none
  | .nextJob i =>
    if i < c.decodeSlots ∧ (s.slots i).worker = .idle then
      some (s.setSlot i { s.slots i with cancelled := false })
    else none
  | .workerExit i =>
    if i < c.decodeSlots ∧ (s.slots i).worker = .idle then some (s.setSlot i { s.slots i with worker := .exited })
    else none
  | .gather =>
    if s.phase = .idle ∧ s.decodePending ≠ 0 then some { s with phase := .ready } else none
  | .coordinatorExit =>
    if (s.phase = .idle ∨ s.phase = .ready) ∧ s.decodePending = 0 ∧ s.modelStopping then
      some { s with phase := .exited }
    else none
  | .form => if s.phase = .ready ∧ s.modelBusy = false then some (s.form c) else none
  | .finish e =>
    match s.phase with
    | .batch b => some (s.finish c b e)
    | _ => none
  | .prefillEnter i =>
    if i < c.decodeSlots ∧ (s.slots i).worker = .idle ∧ (s.slots i).cancelled = false then
      some (s.prefillWait i .entering)
    else none
  | .prefillGiveUp i =>
    if (s.slots i).worker = .entering ∧ (s.stopRequested ∨ (s.slots i).cancelled) then
      some (s.setSlot i { s.slots i with prefillWaiting := false, worker := .idle })
    else none
  | .prefillTake i yielding =>
    if (s.slots i).worker = .entering ∧ s.stopRequested = false ∧ (s.slots i).cancelled = false ∧
        s.modelBusy = false ∧ s.prefillWaits c i yielding = false then
      some (s.prefillTake i)
    else none
  | .prefillLeave i park =>
    if (s.slots i).worker = .prefilling then
      some (s.prefillLeave i (if park then .parked else .idle))
    else none
  | .prefillResume i =>
    if (s.slots i).worker = .parked then some (s.prefillWait i .resuming) else none
  | .prefillBack i yielding =>
    if (s.slots i).worker = .resuming ∧ s.modelBusy = false ∧
        (s.stopRequested ∨ (s.slots i).cancelled ∨ s.prefillWaits c i yielding = false) then
      some (s.prefillTake i)
    else none
  | .stop => some { s with stopRequested := true }
  | .decodeStop =>
    if ∀ i < c.decodeSlots, (s.slots i).worker = .exited then some { s with modelStopping := true }
    else none

/-- A run of steps of some kind. -/
inductive Run (c : DecodeConfig) (kind : Step → Prop) : Coordinator → Coordinator → Prop
  | refl (s : Coordinator) : Run c kind s s
  | step {s s' s'' : Coordinator} {e : Step} (h : Run c kind s s') (he : kind e)
      (hs : s'.step c e = some s'') : Run c kind s s''

/-- The states that the server can reach. -/
def Reachable (c : DecodeConfig) (s : Coordinator) : Prop := Run c (fun _ => True) (init c) s

/-- The steps that end what has begun: nothing is asked for, no client goes, nothing is stopped. -/
def Step.Serves : Step → Prop
  | .withdraw _ | .answer _ | .gather | .form | .finish _ | .prefillLeave _ _ => True
  | _ => False

end Coordinator

end Ds4.Server
