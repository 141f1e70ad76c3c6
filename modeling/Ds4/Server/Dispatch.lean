import Ds4.Lib.Best
import Ds4.Lib.Bytes
import Ds4.Lib.Links

/-!
# Dispatching jobs to slots

`dispatch_jobs_locked`, `enqueue` and the steps of a slot worker in batched mode. The jobs wait in a
singly linked queue. A dispatch reads what a slot could reuse, its live tool states and its last use
through a `Probe`, which may be another one each time that the loop looks. The utility slot, when
there is one, has the index behind the slots.
-/

namespace Ds4.Server

open Ds4.Lib

/-! ## Jobs and slots -/

/-- `live_tool_state`: the calls that a slot waits for. -/
structure LiveToolState where
  valid : Bool
  callIds : List Bytes

/-- What a dispatch reads of a `request`. -/
structure JobRequest where
  utility : Bool
  responsesRequiresLiveToolState : Bool
  responsesLiveCallIds : List Bytes
  anthropicRequiresLiveToolState : Bool
  anthropicLiveCallIds : List Bytes

/-- What a dispatch reads of a slot; `live` counts the tokens of its valid checkpoint, and `reuse`
those of them that `slot_probe_reuse_locked` would use again. -/
structure SlotView where
  responsesLive : LiveToolState
  anthropicLive : LiveToolState
  live : Nat
  lastUsed : Int
  reuse : JobRequest → Int

/-- What a dispatch reads of all slots. -/
abbrev Probe := Nat → SlotView

/-- The flags of a `server_slot`, and the job of its worker. -/
structure Slot where
  busy : Bool
  assigned : Option Nat
  running : Option Nat

/-- A slot that a job may be given. -/
def Slot.free (slot : Slot) : Bool := !slot.busy && slot.assigned.isNone

/-- What does not change: the slots, and the requests of the jobs. -/
structure Fleet where
  slotCount : Nat
  hasUtility : Bool
  req : Nat → JobRequest

/-- A job for the utility slot. -/
def Fleet.isUtility (c : Fleet) (j : Nat) : Bool := (c.req j).utility && c.hasUtility

/-! ## Scores -/

/-- `live_state_contains_all`. -/
def LiveToolState.containsAll (state : LiveToolState) (ids : List Bytes) : Bool :=
  state.valid && decide (ids ≠ []) && ids.all fun id => state.callIds.contains id

/-- `job_required_slot_locked`. -/
def Fleet.requiredSlot (c : Fleet) (probe : Probe) (j : Nat) : Option Nat :=
  (List.range c.slotCount).find? fun i =>
    ((c.req j).responsesRequiresLiveToolState &&
      (probe i).responsesLive.containsAll (c.req j).responsesLiveCallIds) ||
    ((c.req j).anthropicRequiresLiveToolState &&
      (probe i).anthropicLive.containsAll (c.req j).anthropicLiveCallIds)

/-- `SLOT_STALE_AFTER_SEC`. -/
def slotStaleAfterSec : Int := 60 * 60

/-- `SLOT_IDLE_SCORE_CAP`. -/
def slotIdleScoreCap : Int := 2 ^ 20

/-- `SLOT_PROTECTED_SCORE_BASE`. -/
def slotProtectedScoreBase : Int := -2 - slotIdleScoreCap

/-- How long a slot has not been used. -/
def SlotView.idle (view : SlotView) (now : Int) : Int :=
  if view.lastUsed < now then now - view.lastUsed else 0

/-- `job_slot_score`; `INT_MIN`, for a slot that may not be chosen, is `none`. -/
def jobSlotScore (slot : Slot) (i : Nat) (view : SlotView) (req : JobRequest)
    (required : Option Nat) (now : Int) : Option Int :=
  if slot.busy || slot.assigned.isSome then none
  else if required ≠ none ∧ required ≠ some i then none
  else if required = some i then some (2 ^ 31 - 1)
  else if 0 < view.reuse req then some (view.reuse req)
  else if view.live = 0 then some 0
  else if slotStaleAfterSec ≤ view.idle now then
    some (-1 - slotIdleScoreCap +
      if slotIdleScoreCap < view.idle now then slotIdleScoreCap else view.idle now)
  else some (slotProtectedScoreBase - view.live)

/-! ## The queue -/

/-- An assignment as it was made: the job and its slot, with the jobs that were waiting, the slots
that were free, and what was read. -/
structure Assignment where
  job : Nat
  slot : Nat
  waiting : List Nat
  free : Nat → Bool
  probe : Probe
  now : Int

/-- The part of `server` behind `mu`, with the jobs that were enqueued and the assignments that were
made so far. -/
structure Dispatcher where
  slots : Nat → Slot
  head : Option Nat
  tail : Option Nat
  next : Nat → Option Nat
  canaryPending : Bool
  stopping : Bool
  enqueued : List Nat
  log : List Assignment

namespace Dispatcher

/-- The server at its start. -/
def init (canaryPending : Bool) : Dispatcher where
  slots := fun _ => ⟨false, none, none⟩
  head := none
  tail := none
  next := fun _ => none
  canaryPending := canaryPending
  stopping := false
  enqueued := []
  log := []

/-- The jobs that were enqueued and not assigned. -/
def waiting (s : Dispatcher) : List Nat :=
  s.enqueued.filter fun j => !(s.log.map Assignment.job).contains j

/-- The score of a slot for a job. -/
def score (s : Dispatcher) (c : Fleet) (probe : Probe) (now : Int) (j i : Nat) : Option Int :=
  jobSlotScore (s.slots i) i (probe i) (c.req j) (c.requiredSlot probe j) now

/-- The slot that a job would be given now. -/
def bestSlot (s : Dispatcher) (c : Fleet) (probe : Probe) (now : Int) (j : Nat) : Option Nat :=
  if c.isUtility j then
    if (s.slots c.slotCount).free then some c.slotCount else none
  else
    (List.range c.slotCount).foldl
      (bestStep (fun i => s.score c probe now j i ≠ none)
        fun i => (s.score c probe now j i).getD 0) none

/-- The walk of `dispatch_jobs_locked` over the queue from `j` on, behind the job `prev`: the first
job that can run, with the job in front of it and the slot for it. The queue never holds more jobs
than were enqueued, which bounds the walk. -/
def chooseFrom (s : Dispatcher) (c : Fleet) (probe : Probe) (now : Int) :
    Nat → Option Nat → Option Nat → Option (Option Nat × Nat × Nat)
  | 0, _, _ => none
  | _ + 1, _, none => none
  | n + 1, prev, some j =>
    match s.bestSlot c probe now j with
    | some i => some (prev, j, i)
    | none => chooseFrom s c probe now n (some j) (s.next j)

/-- Takes a job out of the queue and gives it to a slot. -/
def assign (s : Dispatcher) (probe : Probe) (now : Int) (prev : Option Nat) (j i : Nat) :
    Dispatcher where
  slots := Function.update s.slots i { s.slots i with assigned := some j, busy := true }
  head := match prev with
    | some _ => s.head
    | none => s.next j
  tail := if s.tail = some j then prev else s.tail
  next := match prev with
    | some p => Function.update (Function.update s.next p (s.next j)) j none
    | none => Function.update s.next j none
  canaryPending := s.canaryPending
  stopping := s.stopping
  enqueued := s.enqueued
  log := s.log ++ [⟨j, i, s.waiting, fun i => (s.slots i).free, probe, now⟩]

/-- One round of `dispatch_jobs_locked`. -/
def dispatchOne (s : Dispatcher) (c : Fleet) (probe : Probe) (now : Int) : Option Dispatcher :=
  (s.chooseFrom c probe now (s.enqueued.length + 1) none s.head).map fun (prev, j, i) =>
    s.assign probe now prev j i

/-- The rounds of `dispatch_jobs_locked`, each of which takes a job out of the queue. -/
def dispatchLoop (c : Fleet) (probes : Nat → Probe) (now : Int) : Nat → Dispatcher → Dispatcher
  | 0, s => s
  | n + 1, s =>
    match s.dispatchOne c (probes n) now with
    | none => s
    | some s => dispatchLoop c probes now n s

/-- `dispatch_jobs_locked`. -/
def dispatchJobs (s : Dispatcher) (c : Fleet) (probes : Nat → Probe) (now : Int) : Dispatcher :=
  if s.canaryPending then s else dispatchLoop c probes now (s.waiting.length + 1) s

/-- Puts a job at the end of the queue. -/
def link (s : Dispatcher) (j : Nat) : Dispatcher :=
  { s with
    next := match s.tail with
      | some t => Function.update s.next t (some j)
      | none => s.next
    head := match s.tail with
      | some _ => s.head
      | none => some j
    tail := some j
    enqueued := s.enqueued ++ [j] }

/-! ## Steps -/

/-- The steps of the server: a client enqueues a job, somebody dispatches, a worker takes its job or
has completed it, the canary has its verdict, the server stops. -/
inductive Step
  | enqueue (j : Nat) (probes : Nat → Probe) (now : Int)
  | dispatch (probes : Nat → Probe) (now : Int)
  | take (i : Nat)
  | complete (i : Nat) (probes : Nat → Probe) (now : Int)
  | canaryFinish (probes : Nat → Probe) (now : Int)
  | stop

/-- A step; a job is enqueued once, and a worker takes a job when it has none. -/
def step (c : Fleet) (s : Dispatcher) : Step → Option Dispatcher
  | .enqueue j probes now =>
    if j ∈ s.enqueued then none
    else if s.stopping then some s
    else some ((s.link j).dispatchJobs c probes now)
  | .dispatch probes now => some (s.dispatchJobs c probes now)
  | .take i =>
    match (s.slots i).assigned, (s.slots i).running with
    | some j, none =>
      some { s with
        slots := Function.update s.slots i { s.slots i with assigned := none, running := some j } }
    | _, _ => none
  | .complete i probes now =>
    match (s.slots i).running with
    | some _ =>
      let s := { s with
        slots := Function.update s.slots i { s.slots i with running := none, busy := false } }
      some (s.dispatchJobs c probes now)
    | none => none
  | .canaryFinish probes now => some ({ s with canaryPending := false }.dispatchJobs c probes now)
  | .stop => some { s with stopping := true }

/-- The states that the server can reach. -/
inductive Reachable (c : Fleet) : Dispatcher → Prop
  | init (canaryPending : Bool) : Reachable c (init canaryPending)
  | step {s s' : Dispatcher} {e : Step} (h : Reachable c s) (hs : s.step c e = some s') :
      Reachable c s'

end Dispatcher

end Ds4.Server
