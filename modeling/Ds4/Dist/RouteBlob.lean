import Ds4.Dist.Registry

/-!
# The route on the wire

A route is sent as a blob: an entry of fixed size with its host for every hop, and the final
destination. `dist_route_plan_append_blob` and `dist_route_plan_append_return_upstream` write it, and
`dist_route_validate_blob`, `dist_route_get_entry` and `dist_route_get_return_target` each walk through it
on their own.
-/

namespace Ds4.Dist

open Ds4.Lib

/-- `ds4_dist_route_fixed`. -/
structure RouteFixed where
  hostLen : UInt32
  port : UInt32
  layerStart : UInt32
  layerEnd : UInt32
  flags : UInt32

/-- `sizeof(ds4_dist_route_fixed)`. -/
abbrev routeFixedSize : Nat := 20

/-- `dist_route_to_wire`. -/
def RouteFixed.toWire (f : RouteFixed) : Bytes :=
  putNet32 f.hostLen ++ (putNet32 f.port ++ (putNet32 f.layerStart ++ (putNet32 f.layerEnd ++ putNet32 f.flags)))

/-- `dist_route_from_wire`. -/
def RouteFixed.fromWire (p : Bytes) : RouteFixed :=
  ⟨getNet32 p, getNet32 (p.drop 4), getNet32 (p.drop 8), getNet32 (p.drop 12), getNet32 (p.drop 16)⟩

/-- `ds4_dist_route_return_fixed`. -/
structure RouteReturnFixed where
  kind : UInt32
  hostLen : UInt32
  port : UInt32

/-- `sizeof(ds4_dist_route_return_fixed)`. -/
abbrev routeReturnFixedSize : Nat := 12

/-- `dist_route_return_to_wire`. -/
def RouteReturnFixed.toWire (f : RouteReturnFixed) : Bytes :=
  putNet32 f.kind ++ (putNet32 f.hostLen ++ putNet32 f.port)

/-- `dist_route_return_from_wire`. -/
def RouteReturnFixed.fromWire (p : Bytes) : RouteReturnFixed :=
  ⟨getNet32 p, getNet32 (p.drop 4), getNet32 (p.drop 8)⟩

/-- `DS4_DIST_ROUTE_RETURN_UPSTREAM`. -/
abbrev routeReturnUpstream : UInt32 := 1

/-- `ds4_dist_route_return`. -/
structure RouteReturn where
  host : Bytes
  port : UInt32
  kind : UInt32
deriving DecidableEq

/-! ## The writers -/

/-- `dist_route_plan_append_blob`. -/
def appendBlob (blob : Option Bytes) (entry : RouteEntry) : Except String (Option Bytes) :=
  let old := blob.getD []
  if entry.host.length = 0 ∨ maxHost ≤ entry.host.length then .error "invalid route host"
  else if 2 ^ 32 - 1 < routeFixedSize + entry.host.length ∨
      2 ^ 32 - 1 - (routeFixedSize + entry.host.length) < old.length then
    .error "route payload is too large"
  else
    let fixed : RouteFixed :=
      ⟨.ofNat entry.host.length, entry.port, entry.layerStart, entry.layerEnd, entry.flags⟩
    .ok (some (old ++ (fixed.toWire ++ entry.host)))

/-- `dist_route_plan_append_return_upstream`. -/
def appendReturnUpstream (blob : Option Bytes) : Except String (Option Bytes) :=
  let old := blob.getD []
  if 2 ^ 32 - 1 - routeReturnFixedSize < old.length then .error "route payload is too large"
  else .ok (some (old ++ RouteReturnFixed.toWire ⟨routeReturnUpstream, 0, 0⟩))

/-! ## The walkers -/

/-- `dist_bytes_have_nul`. -/
def bytesHaveNul (p : Bytes) : Bool := decide ((0 : UInt8) ∈ p)

/-- The loop of `dist_route_get_entry`, the target counted from where the loop is. -/
def getEntryFrom : Nat → Nat → Bytes → Except String RouteEntry
  | 0, _, p => .error (if p.length ≠ 0 then "route payload has trailing bytes" else "route entry not found")
  | count + 1, target, p =>
    if p.length < routeFixedSize then .error "truncated route entry"
    else
      let fixed := RouteFixed.fromWire p
      let p := p.drop routeFixedSize
      let hostLen := fixed.hostLen.toNat
      if hostLen = 0 ∨ maxHost ≤ hostLen ∨ p.length < hostLen then .error "invalid route host length"
      else if bytesHaveNul (p.take hostLen) then .error "route host contains NUL bytes"
      else
        match target with
        | 0 => .ok ⟨p.take hostLen, fixed.port, fixed.layerStart, fixed.layerEnd, fixed.flags⟩
        | target + 1 => getEntryFrom count target (p.drop hostLen)

/-- `dist_route_get_entry`. -/
def getEntry (blob : Option Bytes) (count target : Nat) : Except String RouteEntry :=
  match blob with
  | none => .error "invalid route entry index"
  | some p => if count ≤ target then .error "invalid route entry index" else getEntryFrom count target p

/-- The end of `dist_route_get_return_target`. -/
def getReturn (p : Bytes) : Except String RouteReturn :=
  if p.length < routeReturnFixedSize then .error "route payload missing final destination"
  else
    let fixed := RouteReturnFixed.fromWire p
    let p := p.drop routeReturnFixedSize
    let hostLen := fixed.hostLen.toNat
    if maxHost ≤ hostLen ∨ p.length < hostLen then .error "invalid route final destination host length"
    else if bytesHaveNul (p.take hostLen) then .error "route final destination host contains NUL bytes"
    else if (p.drop hostLen).length ≠ 0 then .error "route payload has trailing bytes"
    else .ok ⟨p.take hostLen, fixed.port, fixed.kind⟩

/-- The loop of `dist_route_get_return_target`. -/
def getReturnFrom : Nat → Bytes → Except String RouteReturn
  | 0, p => getReturn p
  | count + 1, p =>
    if p.length < routeFixedSize then .error "truncated route entry"
    else
      let fixed := RouteFixed.fromWire p
      let p := p.drop routeFixedSize
      let hostLen := fixed.hostLen.toNat
      if p.length < hostLen then .error "invalid route host length"
      else if bytesHaveNul (p.take hostLen) then .error "route host contains NUL bytes"
      else getReturnFrom count (p.drop hostLen)

/-- `dist_route_get_return_target`. -/
def getReturnTarget (blob : Option Bytes) (count : Nat) : Except String RouteReturn :=
  match blob with
  | none => .error "invalid route final destination"
  | some p => if count = 0 then .error "invalid route final destination" else getReturnFrom count p

/-- The end of `dist_route_validate_blob`. -/
def validateReturn (p : Bytes) : Except String Unit :=
  if p.length < routeReturnFixedSize then .error "route payload missing final destination"
  else
    let ret := RouteReturnFixed.fromWire p
    let p := p.drop routeReturnFixedSize
    let hostLen := ret.hostLen.toNat
    if maxHost ≤ hostLen ∨ p.length < hostLen then .error "invalid route final destination host length"
    else if bytesHaveNul (p.take hostLen) then .error "route final destination host contains NUL bytes"
    else if ret.kind ≠ routeReturnUpstream then .error "unsupported route final destination"
    else if ret.hostLen ≠ 0 ∨ ret.port ≠ 0 then .error "invalid upstream route final destination"
    else if (p.drop hostLen).length ≠ 0 then .error "route payload has trailing bytes"
    else .ok ()

/-- The loop of `dist_route_validate_blob`; there is no previous end in front of the first entry. -/
def validateFrom (nLayers : UInt32) : Nat → Option UInt32 → Bytes → Except String Unit
  | 0, _, p => validateReturn p
  | count + 1, prevEnd, p =>
    if p.length < routeFixedSize then .error "truncated route entry"
    else
      let fixed := RouteFixed.fromWire p
      let p := p.drop routeFixedSize
      let hostLen := fixed.hostLen.toNat
      if hostLen = 0 ∨ maxHost ≤ hostLen ∨ p.length < hostLen then .error "invalid route host length"
      else if bytesHaveNul (p.take hostLen) then .error "route host contains NUL bytes"
      else if fixed.port = 0 ∨ 65535 < fixed.port then .error "invalid route port"
      else if nLayers ≤ fixed.layerStart ∨ nLayers ≤ fixed.layerEnd ∨ fixed.layerEnd < fixed.layerStart then
        .error "invalid route layer range"
      else if fixed.flags &&& ~~~routeOutputLogits ≠ 0 then .error "invalid route flags"
      else if fixed.flags &&& routeOutputLogits ≠ 0 ∧ fixed.layerEnd + 1 ≠ nLayers then
        .error "route logits require final layer"
      else if prevEnd.any fun e => fixed.layerStart ≠ e + 1 then
        .error "route layer ranges are not contiguous"
      else validateFrom nLayers count (some fixed.layerEnd) (p.drop hostLen)

/-- `dist_route_validate_blob`. -/
def validateBlob (blob : Option Bytes) (count : Nat) (nLayers : UInt32) : Except String Unit :=
  if count = 0 then
    if (blob.getD []).length = 0 then .ok ()
    else .error "route payload has entries without a route count"
  else
    match blob with
    | none => .error "route payload is missing"
    | some p => validateFrom nLayers count none p

/-! ## An entry -/

/-- An entry that can be written. -/
structure RouteEntry.Ok (e : RouteEntry) (nLayers : UInt32) : Prop where
  pos : 0 < e.host.length
  lt : e.host.length < maxHost
  noNul : (0 : UInt8) ∉ e.host
  port_ne : e.port ≠ 0
  port_le : e.port ≤ 65535
  start_le : e.layerStart ≤ e.layerEnd
  end_lt : e.layerEnd < nLayers
  flags : e.flags = 0 ∨ e.flags = routeOutputLogits ∧ e.layerEnd + 1 = nLayers

/-- The bytes of an entry. -/
def RouteEntry.wire (e : RouteEntry) : Bytes :=
  RouteFixed.toWire ⟨.ofNat e.host.length, e.port, e.layerStart, e.layerEnd, e.flags⟩ ++ e.host

@[simp] theorem RouteFixed.toWire_length (f : RouteFixed) : f.toWire.length = routeFixedSize := by
  simp [RouteFixed.toWire]

@[simp] theorem RouteReturnFixed.toWire_length (f : RouteReturnFixed) :
    f.toWire.length = routeReturnFixedSize := by
  simp [RouteReturnFixed.toWire]

@[simp] theorem RouteFixed.fromWire_toWire (f : RouteFixed) (r : Bytes) :
    RouteFixed.fromWire (f.toWire ++ r) = f := by
  have hdrop := drop_putNet32
  simp only [RouteFixed.fromWire, RouteFixed.toWire, List.append_assoc, getNet32_putNet32]
  rw [show 4 = 0 + 4 from rfl, hdrop, show 8 = 0 + 4 + 4 from rfl, hdrop, hdrop,
    show 12 = 0 + 4 + 4 + 4 from rfl, hdrop, hdrop, hdrop, show 16 = 0 + 4 + 4 + 4 + 4 from rfl, hdrop, hdrop,
    hdrop, hdrop]
  simp only [List.drop_zero, getNet32_putNet32]

@[simp] theorem RouteReturnFixed.fromWire_toWire (f : RouteReturnFixed) (r : Bytes) :
    RouteReturnFixed.fromWire (f.toWire ++ r) = f := by
  have hdrop := drop_putNet32
  simp only [RouteReturnFixed.fromWire, RouteReturnFixed.toWire, List.append_assoc, getNet32_putNet32]
  rw [show 4 = 0 + 4 from rfl, hdrop, show 8 = 0 + 4 + 4 from rfl, hdrop, hdrop]
  simp only [List.drop_zero, getNet32_putNet32]

section Entry

variable {e : RouteEntry} {nLayers : UInt32}

theorem RouteEntry.Ok.hostLen (h : e.Ok nLayers) : (UInt32.ofNat e.host.length).toNat = e.host.length := by
  have hlt := h.lt
  exact UInt32.toNat_ofNat_of_lt' (lt_trans hlt (by decide))

theorem RouteEntry.wire_length (e : RouteEntry) : e.wire.length = routeFixedSize + e.host.length := by
  rw [RouteEntry.wire, List.length_append, RouteFixed.toWire_length]

theorem RouteEntry.wire_drop (e : RouteEntry) (r : Bytes) : (e.wire ++ r).drop routeFixedSize = e.host ++ r := by
  rw [RouteEntry.wire, List.append_assoc]
  exact List.drop_left' (RouteFixed.toWire_length _)

theorem RouteEntry.fromWire_wire (e : RouteEntry) (r : Bytes) : RouteFixed.fromWire (e.wire ++ r) =
    ⟨.ofNat e.host.length, e.port, e.layerStart, e.layerEnd, e.flags⟩ := by
  rw [RouteEntry.wire, List.append_assoc, RouteFixed.fromWire_toWire]

theorem RouteEntry.Ok.not_nul (h : e.Ok nLayers) : ¬bytesHaveNul e.host = true := by
  rw [bytesHaveNul, decide_eq_true_eq]
  exact h.noNul

theorem RouteEntry.Ok.getEntryFrom_wire (h : e.Ok nLayers) (count target : Nat) (r : Bytes) :
    getEntryFrom (count + 1) target (e.wire ++ r) =
      match target with
      | 0 => .ok e
      | target + 1 => getEntryFrom count target r := by
  have hlong : ¬(e.wire ++ r).length < routeFixedSize := by
    rw [List.length_append, e.wire_length]
    omega
  have hpos := h.pos
  have hlt := h.lt
  rw [getEntryFrom, if_neg hlong, e.fromWire_wire, e.wire_drop]
  simp only [h.hostLen, List.take_left, List.drop_left]
  rw [if_neg (by rw [List.length_append]; omega), if_neg h.not_nul]

theorem RouteEntry.Ok.getReturnFrom_wire (h : e.Ok nLayers) (count : Nat) (r : Bytes) :
    getReturnFrom (count + 1) (e.wire ++ r) = getReturnFrom count r := by
  have hlong : ¬(e.wire ++ r).length < routeFixedSize := by
    rw [List.length_append, e.wire_length]
    omega
  rw [getReturnFrom, if_neg hlong, e.fromWire_wire, e.wire_drop]
  simp only [h.hostLen, List.take_left, List.drop_left]
  rw [if_neg (by rw [List.length_append]; omega), if_neg h.not_nul]

theorem RouteEntry.Ok.flags_mask (h : e.Ok nLayers) : e.flags &&& ~~~routeOutputLogits = 0 := by
  rcases h.flags with hflags | ⟨hflags, -⟩
  · rw [hflags]
    decide
  · rw [hflags]
    decide

theorem RouteEntry.Ok.output_end (h : e.Ok nLayers) (hout : e.flags &&& routeOutputLogits ≠ 0) :
    e.layerEnd + 1 = nLayers := by
  rcases h.flags with hflags | ⟨-, hend⟩
  · rw [hflags] at hout
    exact absurd rfl hout
  · exact hend

theorem RouteEntry.Ok.validateFrom_wire (h : e.Ok nLayers) (count : Nat) {prevEnd : Option UInt32}
    (hprev : ∀ p ∈ prevEnd, e.layerStart = p + 1) (r : Bytes) :
    validateFrom nLayers (count + 1) prevEnd (e.wire ++ r) = validateFrom nLayers count (some e.layerEnd) r := by
  have hlong : ¬(e.wire ++ r).length < routeFixedSize := by
    rw [List.length_append, e.wire_length]
    omega
  have hpos := h.pos
  have hlt := h.lt
  have hport : ¬(e.port = 0 ∨ 65535 < e.port) := by
    rw [not_or]
    exact ⟨h.port_ne, UInt32.not_lt.mpr h.port_le⟩
  have hrange : ¬(nLayers ≤ e.layerStart ∨ nLayers ≤ e.layerEnd ∨ e.layerEnd < e.layerStart) := by
    rw [not_or, not_or]
    exact ⟨UInt32.not_le.mpr (UInt32.lt_of_le_of_lt h.start_le h.end_lt), UInt32.not_le.mpr h.end_lt,
      UInt32.not_lt.mpr h.start_le⟩
  have hout : ¬(e.flags &&& routeOutputLogits ≠ 0 ∧ e.layerEnd + 1 ≠ nLayers) := by
    rintro ⟨hout, hne⟩
    exact hne (h.output_end hout)
  have hcontiguous : ¬prevEnd.any (fun p => decide (e.layerStart ≠ p + 1)) = true := by
    cases prevEnd with
    | none => exact Bool.false_ne_true
    | some p => simp [hprev p rfl]
  rw [validateFrom, if_neg hlong, e.fromWire_wire, e.wire_drop]
  simp only [h.hostLen, List.take_left, List.drop_left]
  rw [if_neg (by rw [List.length_append]; omega), if_neg h.not_nul, if_neg hport, if_neg hrange,
    if_neg (not_not.mpr h.flags_mask), if_neg hout, if_neg hcontiguous]

end Entry

/-! ## The whole blob -/

section Blob

variable {entries : List RouteEntry} {nLayers : UInt32}

/-- The bytes of a final destination upstream. -/
def upstreamWire : Bytes := RouteReturnFixed.toWire ⟨routeReturnUpstream, 0, 0⟩

/-- The bytes of a route. -/
def routeWire (entries : List RouteEntry) : Bytes := (entries.map RouteEntry.wire).flatten ++ upstreamWire

theorem routeWire_cons (e : RouteEntry) (entries : List RouteEntry) :
    routeWire (e :: entries) = e.wire ++ routeWire entries := by
  rw [routeWire, List.map_cons, List.flatten_cons, List.append_assoc]
  rfl

/-- Entries that follow each other. -/
def Contiguous : Option UInt32 → List RouteEntry → Prop
  | _, [] => True
  | prevEnd, e :: entries => (∀ p ∈ prevEnd, e.layerStart = p + 1) ∧ Contiguous (some e.layerEnd) entries

theorem getEntryFrom_routeWire (h : ∀ e ∈ entries, e.Ok nLayers) {i : Nat} {e : RouteEntry}
    (hi : entries[i]? = some e) : getEntryFrom entries.length i (routeWire entries) = .ok e := by
  induction entries generalizing i with
  | nil => cases hi
  | cons a entries ih =>
    have ha := h a (by simp)
    rw [List.length_cons, routeWire_cons, ha.getEntryFrom_wire]
    cases i with
    | zero =>
      obtain rfl := Option.some.inj hi
      rfl
    | succ i => exact ih (fun e he => h e (by simp [he])) hi

theorem getReturnFrom_routeWire (h : ∀ e ∈ entries, e.Ok nLayers) :
    getReturnFrom entries.length (routeWire entries) = .ok ⟨[], 0, routeReturnUpstream⟩ := by
  induction entries with
  | nil => decide
  | cons a entries ih =>
    rw [List.length_cons, routeWire_cons, (h a (by simp)).getReturnFrom_wire]
    exact ih fun e he => h e (by simp [he])

theorem validateFrom_routeWire (h : ∀ e ∈ entries, e.Ok nLayers) {prevEnd : Option UInt32}
    (hc : Contiguous prevEnd entries) :
    validateFrom nLayers entries.length prevEnd (routeWire entries) = .ok () := by
  induction entries generalizing prevEnd with
  | nil => rfl
  | cons a entries ih =>
    rw [List.length_cons, routeWire_cons, (h a (by simp)).validateFrom_wire _ hc.1]
    exact ih (fun e he => h e (by simp [he])) hc.2

/-- The writers of all entries. -/
def appendBlobs (blob : Option Bytes) : List RouteEntry → Except String (Option Bytes)
  | [] => .ok blob
  | e :: entries =>
    match appendBlob blob e with
    | .error text => .error text
    | .ok blob => appendBlobs blob entries

/-- The most bytes of an entry. -/
abbrev entryMax : Nat := routeFixedSize + maxHost

theorem appendBlob_eq {e : RouteEntry} (h : e.Ok nLayers) {blob : Option Bytes} {k : Nat} (hk : k < maxLayer)
    (hsize : (blob.getD []).length ≤ k * entryMax) :
    appendBlob blob e = .ok (some (blob.getD [] ++ e.wire)) := by
  have hpos := h.pos
  have hlt := h.lt
  simp only [maxHost, maxLayer, entryMax, routeFixedSize] at hlt hk hsize
  rw [appendBlob]
  simp only [maxHost, routeFixedSize]
  rw [if_neg (by omega), if_neg (by omega)]
  rfl

/-- **What the writers write.** -/
theorem appendBlobs_eq (h : ∀ e ∈ entries, e.Ok nLayers) {blob : Option Bytes} {k : Nat}
    (hk : k + entries.length ≤ maxLayer) (hsize : (blob.getD []).length ≤ k * entryMax) :
    ∃ b, appendBlobs blob entries = .ok b ∧ (entries = [] → b = blob) ∧
      b.getD [] = blob.getD [] ++ (entries.map RouteEntry.wire).flatten ∧
      (b.getD []).length ≤ (k + entries.length) * entryMax := by
  induction entries generalizing blob k with
  | nil => exact ⟨blob, rfl, fun _ => rfl, (List.append_nil _).symm, hsize⟩
  | cons e entries ih =>
    rw [List.length_cons] at hk
    have he := h e (by simp)
    have hlt := he.lt
    have hnext : ((some (blob.getD [] ++ e.wire)).getD []).length ≤ (k + 1) * entryMax := by
      rw [Option.getD_some, List.length_append, e.wire_length]
      simp only [maxHost, entryMax, routeFixedSize] at hlt hsize ⊢
      omega
    obtain ⟨b, hb, -, hbytes, hlength⟩ := ih (fun e he => h e (by simp [he])) (by omega) hnext
    refine ⟨b, ?_, nofun, ?_, ?_⟩
    · rw [appendBlobs, appendBlob_eq he (by omega) hsize]
      exact hb
    · rw [hbytes, Option.getD_some, List.map_cons, List.flatten_cons, List.append_assoc]
    · rw [List.length_cons]
      rwa [Nat.add_right_comm] at hlength

theorem appendReturnUpstream_eq {blob : Option Bytes} (hsize : (blob.getD []).length ≤ maxLayer * entryMax) :
    appendReturnUpstream blob = .ok (some (blob.getD [] ++ upstreamWire)) := by
  simp only [maxHost, maxLayer, entryMax, routeFixedSize] at hsize
  rw [appendReturnUpstream, routeReturnFixedSize, if_neg (by omega)]
  rfl

end Blob

end Ds4.Dist
