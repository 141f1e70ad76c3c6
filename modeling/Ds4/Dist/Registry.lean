import Ds4.Lib.Words

/-!
# The worker registry

A worker says HELLO, `dist_coordinator_client_main` checks what it says, and `dist_coordinator_add_worker`
registers it. A registered worker carries what was checked. `dist_coordinator_remove_worker` and
`dist_coordinator_forget_route_workers` take workers out again.
-/

namespace Ds4.Dist

open Ds4.Lib

/-- `NI_MAXHOST`. -/
abbrev maxHost : Nat := 1025

/-- `DS4_MAX_LAYER`. -/
abbrev maxLayer : Nat := 79

/-- A numeric host as `getnameinfo` writes it, or "unknown". -/
structure Host where
  name : Bytes
  pos : 0 < name.length
  lt : name.length < maxHost
  noNul : (0 : UInt8) ∉ name

/-- `ds4_dist_hello_fixed`. -/
structure Hello where
  modelId : UInt32
  quantBits : UInt32
  layerStart : UInt32
  layerEnd : UInt32
  hasOutput : UInt32
  hasHidden : UInt32
  ctxSize : UInt32
  nLayers : UInt32
  listenPort : UInt32

/-- `ds4_dist_coordinator_state`, without the registry. -/
structure Coordinator where
  modelId : UInt32
  modelName : Bytes
  nLayers : UInt32
  localStart : UInt32
  localEnd : UInt32
  ctxSize : UInt32
  localHasOutput : Bool
  localCanOutputHead : Bool
  layers_le : nLayers.toNat ≤ maxLayer

/-- `ds4_dist_worker_entry`, with what was checked of its HELLO. -/
structure Worker (nLayers : UInt32) where
  fd : Int
  peerHost : Host
  modelId : UInt32
  layerStart : UInt32
  layerEnd : UInt32
  hasOutput : Bool
  hasHidden : Bool
  listenPort : UInt32
  start_le : layerStart ≤ layerEnd
  end_lt : layerEnd < nLayers
  output_end : hasOutput = true → layerEnd + 1 = nLayers
  port_ne : listenPort ≠ 0
  port_le : listenPort ≤ 65535

/-! ## The HELLO -/

/-- The texts a worker is rejected with. -/
def rejection (parts : List Bytes) : Bytes := parts.flatten.take 255

/-- A number in a text. -/
def number (v : UInt32) : Bytes := lit (toString v.toNat)

/-- The checks of `dist_coordinator_client_main`. -/
def clientMain (c : Coordinator) (fd : Int) (peerHost : Host) (hello : Hello) (modelName : Bytes) :
    Except Bytes (Worker c.nLayers) :=
  if hello.modelId ≠ c.modelId then
    .error (rejection [lit "model id mismatch: worker=", number hello.modelId, lit " coordinator=",
      number c.modelId])
  else if modelName ≠ c.modelName then
    .error (rejection [lit "model family mismatch: worker=", modelName, lit " coordinator=", c.modelName])
  else if hello.nLayers ≠ c.nLayers then
    .error (rejection [lit "layer count mismatch: worker=", number hello.nLayers, lit " coordinator=",
      number c.nLayers])
  else if hello.quantBits ≠ 2 ∧ hello.quantBits ≠ 4 then
    .error (rejection [lit "unsupported worker quant profile Q", number hello.quantBits])
  else if 1 < hello.hasOutput then
    .error (rejection [lit "invalid worker output-head flag ", number hello.hasOutput])
  else if 1 < hello.hasHidden then
    .error (rejection [lit "invalid worker hidden-state flag ", number hello.hasHidden])
  else if hrange : c.nLayers ≤ hello.layerStart ∨ c.nLayers ≤ hello.layerEnd ∨
      hello.layerEnd < hello.layerStart then
    .error (rejection [lit "invalid worker layer range ", number hello.layerStart, lit ":",
      number hello.layerEnd, lit " for ", number hello.nLayers, lit " layers"])
  else if houtput : hello.hasOutput ≠ 0 ∧ hello.layerEnd + 1 ≠ c.nLayers then
    .error (rejection [lit "worker output head requires final layer: range=", number hello.layerStart,
      lit ":", number hello.layerEnd, lit " layers=", number hello.nLayers])
  else if c.ctxSize ≠ 0 ∧ hello.ctxSize < c.ctxSize then
    .error (rejection [lit "worker context too small: worker=", number hello.ctxSize, lit " coordinator=",
      number c.ctxSize])
  else if hport : hello.listenPort = 0 ∨ 65535 < hello.listenPort then
    .error (rejection [lit "invalid worker data listen port ", number hello.listenPort])
  else
    .ok {
      fd := fd
      peerHost := peerHost
      modelId := hello.modelId
      layerStart := hello.layerStart
      layerEnd := hello.layerEnd
      hasOutput := hello.hasOutput ≠ 0
      hasHidden := hello.hasHidden ≠ 0
      listenPort := hello.listenPort
      start_le := by
        rw [not_or, not_or] at hrange
        exact UInt32.not_lt.mp hrange.2.2
      end_lt := by
        rw [not_or, not_or] at hrange
        exact UInt32.not_le.mp hrange.2.1
      output_end := by
        intro h
        by_contra hne
        exact houtput ⟨of_decide_eq_true h, hne⟩
      port_ne := fun h => hport (Or.inl h)
      port_le := UInt32.not_lt.mp fun h => hport (Or.inr h) }

/-! ## The registry -/

/-- `ds4_dist_route_entry`. -/
structure RouteEntry where
  host : Bytes
  port : UInt32
  layerStart : UInt32
  layerEnd : UInt32
  flags : UInt32
deriving DecidableEq

/-- `DS4_DIST_ROUTE_F_OUTPUT_LOGITS`. -/
abbrev routeOutputLogits : UInt32 := 1

/-- The registered workers, the last one first. -/
structure Registry (nLayers : UInt32) where
  workers : List (Worker nLayers)
  generation : UInt64
  shuttingDown : Bool

namespace Registry

variable {nLayers : UInt32}

def empty : Registry nLayers := ⟨[], 0, false⟩

/-- An entry that a HELLO replaces. -/
def stale (old w : Worker nLayers) : Bool :=
  old.peerHost.name = w.peerHost.name && old.modelId = w.modelId && old.layerStart = w.layerStart &&
    old.layerEnd = w.layerEnd && old.hasOutput = w.hasOutput

/-- `dist_coordinator_add_worker`. -/
def addWorker (r : Registry nLayers) (w : Worker nLayers) : Registry nLayers :=
  if r.shuttingDown then r
  else { r with
    workers := w :: r.workers.filter fun old => !stale old w
    generation := r.generation + 1 }

/-- `dist_coordinator_remove_worker`. -/
def removeWorker (r : Registry nLayers) (fd : Int) : Registry nLayers :=
  if r.workers.any fun w => w.fd = fd then
    { r with workers := r.workers.eraseP fun w => w.fd = fd, generation := r.generation + 1 }
  else r

/-- `dist_route_entry_matches_worker`. -/
def entryMatchesWorker (route : RouteEntry) (w : Worker nLayers) : Bool :=
  route.port = w.listenPort && route.host = w.peerHost.name && route.layerStart = w.layerStart &&
    route.layerEnd = w.layerEnd && (decide (route.flags &&& routeOutputLogits ≠ 0) = w.hasOutput)

/-- `dist_coordinator_forget_route_workers`. -/
def forgetRouteWorkers (r : Registry nLayers) (entries : List RouteEntry) : Registry nLayers :=
  let workers := entries.foldl (fun workers e => workers.eraseP (entryMatchesWorker e)) r.workers
  { r with
    workers := workers
    generation := if workers.length < r.workers.length then r.generation + 1 else r.generation }

/-- What happens to the registry. -/
inductive Op (nLayers : UInt32)
  | add (w : Worker nLayers)
  | remove (fd : Int)
  | forget (entries : List RouteEntry)
  | shutDown

def apply (r : Registry nLayers) : Op nLayers → Registry nLayers
  | .add w => r.addWorker w
  | .remove fd => r.removeWorker fd
  | .forget entries => r.forgetRouteWorkers entries
  | .shutDown => { r with shuttingDown := true }

/-- The registry that some operations lead to. -/
def after (ops : List (Op nLayers)) : Registry nLayers := ops.foldl apply empty

end Registry

end Ds4.Dist
