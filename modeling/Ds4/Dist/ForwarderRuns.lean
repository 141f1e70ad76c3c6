import Ds4.Dist.Forwarder

/-!
# Answers of a forwarder

Whatever fails, the queue stays well formed and the relay thread answers requests in the order they were sent
downstream. No request is answered twice, as long as a request whose send failed is still in the queue when
the evaluation thread comes to remove it.
-/

namespace Ds4.Dist

open Ds4.Lib

/-! ## Frames -/

/-- Two records that differ in their times of forwarding at most. -/
def Telemetry.SameRecord (a b : Telemetry) : Prop :=
  { a with downstreamWaitUsec := b.downstreamWaitUsec, forwardSendUsec := b.forwardSendUsec } = b

@[simp] theorem Telemetry.toWire_length (t : Telemetry) : t.toWire.length = telemetrySize := by
  simp [Telemetry.toWire]

@[simp] theorem Telemetry.fromWire_toWire (t : Telemetry) : Telemetry.fromWire t.toWire = t := by
  have hdrop := drop_putNet32
  have hlast : getNet32 (putNet32 t.outputBytes) = t.outputBytes := by
    simpa using getNet32_putNet32 t.outputBytes []
  simp only [Telemetry.fromWire, Telemetry.toWire, getNet32_putNet32]
  rw [show 4 = 0 + 4 from rfl, hdrop, show 8 = 0 + 4 + 4 from rfl, hdrop, hdrop,
    show 12 = 0 + 4 + 4 + 4 from rfl, hdrop, hdrop, hdrop, show 16 = 0 + 4 + 4 + 4 + 4 from rfl, hdrop, hdrop,
    hdrop, hdrop, show 20 = 0 + 4 + 4 + 4 + 4 + 4 from rfl, hdrop, hdrop, hdrop, hdrop, hdrop,
    show 24 = 0 + 4 + 4 + 4 + 4 + 4 + 4 from rfl, hdrop, hdrop, hdrop, hdrop, hdrop, hdrop,
    show 28 = 0 + 4 + 4 + 4 + 4 + 4 + 4 + 4 from rfl, hdrop, hdrop, hdrop, hdrop, hdrop, hdrop, hdrop,
    show 32 = 0 + 4 + 4 + 4 + 4 + 4 + 4 + 4 + 4 from rfl, hdrop, hdrop, hdrop, hdrop, hdrop, hdrop, hdrop, hdrop,
    show 36 = 0 + 4 + 4 + 4 + 4 + 4 + 4 + 4 + 4 + 4 from rfl, hdrop, hdrop, hdrop, hdrop, hdrop, hdrop, hdrop,
    hdrop, hdrop]
  simp only [List.drop_zero, getNet32_putNet32, hlast]

theorem telemetryRecords_append {n : Nat} {a : Bytes} (ha : a.length = n * telemetrySize) (b : Bytes) :
    telemetryRecords n (a ++ b) = telemetryRecords n a := by
  induction n generalizing a with
  | zero => rfl
  | succ n ih =>
    rw [Nat.succ_mul] at ha
    have hle : telemetrySize ≤ a.length := by omega
    have hdrop : (a.drop telemetrySize).length = n * telemetrySize := by
      rw [List.length_drop]
      omega
    rw [telemetryRecords, telemetryRecords, List.take_append_of_le_length hle, List.drop_append_of_le_length hle,
      ih hdrop]

theorem telemetryRecords_succ {n : Nat} {a : Bytes} (ha : a.length = n * telemetrySize) (t : Telemetry)
    (b : Bytes) : telemetryRecords (n + 1) (a ++ (t.toWire ++ b)) = telemetryRecords n a ++ [t] := by
  induction n generalizing a with
  | zero =>
    have hnil : a = [] := List.length_eq_zero_iff.mp (by omega)
    have htake : (t.toWire ++ b).take telemetrySize = t.toWire := List.take_left' t.toWire_length
    simp only [hnil, telemetryRecords, htake, Telemetry.fromWire_toWire, List.nil_append]
  | succ n ih =>
    rw [Nat.succ_mul] at ha
    have hle : telemetrySize ≤ a.length := by omega
    have hdrop : (a.drop telemetrySize).length = n * telemetrySize := by
      rw [List.length_drop]
      omega
    rw [telemetryRecords, List.take_append_of_le_length hle, List.drop_append_of_le_length hle, ih hdrop,
      telemetryRecords]
    rfl

section Relayed

variable {r : ResultFrame}

/-- The metadata of a frame fit. -/
structure ResultFrame.Fits (r : ResultFrame) : Prop where
  bytes : r.telemetryBytes.toNat = r.telemetryCount.toNat * telemetrySize
  le : r.telemetryBytes.toNat ≤ r.body.length

theorem ResultFrame.fits_of_not_mismatch (h : ¬r.Mismatch) : r.Fits := by
  simp only [ResultFrame.Mismatch, not_or, not_not, Nat.not_lt] at h
  obtain ⟨hmod, hcount, hle, -⟩ := h
  refine ⟨?_, hle⟩
  rw [hcount, Nat.div_mul_cancel (Nat.dvd_of_mod_eq_zero hmod)]

theorem ResultFrame.Fits.take_length (h : r.Fits) :
    (r.body.take r.telemetryBytes.toNat).length = r.telemetryCount.toNat * telemetrySize := by
  rw [List.length_take, Nat.min_eq_left h.le, h.bytes]

/-- There is room for one more record. -/
structure ResultFrame.Room (r : ResultFrame) : Prop where
  bytes : r.telemetryBytes.toNat + telemetrySize < 2 ^ 32
  count : r.telemetryCount + 1 ≠ 0

theorem ResultFrame.Room.count_toNat (h : r.Room) :
    (r.telemetryCount + 1).toNat = r.telemetryCount.toNat + 1 := by
  have hlt := r.telemetryCount.toNat_lt
  have hne : (r.telemetryCount + 1).toNat ≠ 0 := fun h0 => h.count (UInt32.toNat_inj.mp h0)
  rw [UInt32.toNat_add] at hne ⊢
  have hone : (1 : UInt32).toNat = 1 := rfl
  omega

/-- **The frame that is passed on** carries the telemetry from downstream and the own record behind it. -/
theorem ResultFrame.relayed_telemetry (h : r.Fits) (hroom : r.Room) (own : Telemetry) :
    (r.relayed own).telemetry = r.telemetry ++ [own] := by
  have hfront := @telemetryRecords_append _ _ h.take_length (r.body.drop r.telemetryBytes.toNat)
  rw [List.take_append_drop] at hfront
  rw [ResultFrame.telemetry, ResultFrame.telemetry, hfront]
  simp only [ResultFrame.relayed]
  rw [hroom.count_toNat]
  exact telemetryRecords_succ h.take_length own _

theorem ResultFrame.relayed_payload (h : r.Fits) (hroom : r.Room) (own : Telemetry) :
    (r.relayed own).payload = r.payload := by
  have hbytes : (UInt32.ofNat (r.telemetryBytes.toNat + telemetrySize)).toNat =
      r.telemetryBytes.toNat + telemetrySize := UInt32.toNat_ofNat_of_lt' hroom.bytes
  have hlength : (r.body.take r.telemetryBytes.toNat ++ own.toWire).length =
      r.telemetryBytes.toNat + telemetrySize := by
    rw [List.length_append, h.take_length, own.toWire_length, h.bytes]
  rw [ResultFrame.payload, ResultFrame.payload]
  simp only [ResultFrame.relayed]
  rw [hbytes, ← List.append_assoc]
  exact List.drop_left' hlength

end Relayed

/-! ## The queue -/

/-- The request that the evaluation thread holds. -/
def Sender.request : Sender → Option UInt64
  | .enqueueing id _ => some id
  | .refusing id _ => some id
  | .failing id => some id
  | _ => none

/-- The request that the relay thread took from the queue and has not answered. -/
def Relay.request : Relay → Option UInt64
  | .answering id _ => some id
  | .relaying _ r => some r.requestId
  | _ => none

namespace Forwarder

variable {depth : Nat} {s s' : Forwarder} {l : List Nat}

/-- The requests of some nodes. -/
def ids (s : Forwarder) (l : List Nat) : List UInt64 := l.map fun p => (s.node p).requestId

/-- The requests sent downstream, in order. -/
def sentIds (s : Forwarder) : List UInt64 := s.forwarded.map Prod.fst

/-- The queue links the nodes `l`, which are the requests that were sent and neither taken nor removed. -/
structure Queued (depth : Nat) (s : Forwarder) (l : List Nat) : Prop where
  holds : s.queue.Holds l
  live : ∀ p, p ∈ s.live ↔ p ∈ l
  count : s.pendingCount = l.length
  depth_eq : s.pendingDepth = depth
  length_le : l.length ≤ depth
  order : (s.popped ++ s.ids l).Sublist s.sentIds
  sent : s.sentIds.Nodup
  started : ∀ id ∈ s.sentIds, id ∈ s.started
  records : ∀ p ∈ l, ∃ t, ((s.node p).requestId, t) ∈ s.forwarded ∧ (s.node p).telemetry.SameRecord t

theorem ids_update {p : Nat} (hp : p ∉ l) (request : PendingRequest) :
    (l.map fun q => (Function.update s.node p request q).requestId) = s.ids l := by
  refine List.map_congr_left fun q hq => ?_
  have hne : q ≠ p := by
    rintro rfl
    exact hp hq
  rw [Function.update_of_ne hne]

theorem ids_enqueue {p : Nat} (hp : p ∉ l) (id : UInt64) (t : Telemetry) :
    (s.enqueue p ⟨id, t⟩).ids (l ++ [p]) = s.ids l ++ [id] := by
  have hfront := @ids_update s l p hp ⟨id, t⟩
  simp only [ids, enqueue, List.map_append, List.map_cons, List.map_nil, Function.update_self] at hfront ⊢
  rw [hfront]

theorem Queued.enqueue (h : Queued depth s l) (hdepth : 0 < depth) {id : UInt64} {t : Telemetry} {p : Nat}
    (hroom : ¬(s.pendingDepth ≠ 0 ∧ s.pendingDepth ≤ s.pendingCount)) (hp : p ∉ s.live)
    (hnew : id ∉ s.sentIds) (hstarted : id ∈ s.started) : Queued depth (s.enqueue p ⟨id, t⟩) (l ++ [p]) := by
  have hpl : p ∉ l := fun hmem => hp ((h.live p).mpr hmem)
  have hroom' : l.length < depth := by
    rw [h.depth_eq, h.count] at hroom
    omega
  have hids := @ids_enqueue s l p hpl id t
  have hsent : (s.enqueue p ⟨id, t⟩).sentIds = s.sentIds ++ [id] := by
    simp [sentIds, Forwarder.enqueue]
  constructor
  · exact h.holds.push hpl
  · intro q
    simp only [Forwarder.enqueue, Finset.mem_insert, h.live, List.mem_append, List.mem_singleton]
    tauto
  · simp [Forwarder.enqueue, h.count]
  · exact h.depth_eq
  · rw [List.length_append, List.length_singleton]
    omega
  · rw [hids, hsent]
    simp only [Forwarder.enqueue]
    rw [← List.append_assoc]
    exact h.order.append_right _
  · rw [hsent, List.nodup_append]
    refine ⟨h.sent, List.nodup_singleton _, fun x hx y hy heq => ?_⟩
    rw [List.mem_singleton] at hy
    exact hnew (hy ▸ heq ▸ hx)
  · rw [hsent]
    intro x hx
    rcases List.mem_append.mp hx with hx | hx
    · exact h.started x hx
    · rw [List.mem_singleton] at hx
      exact hx ▸ hstarted
  · intro q hq
    simp only [Forwarder.enqueue]
    by_cases hqp : q = p
    · subst hqp
      rw [Function.update_self]
      exact ⟨t, by simp, rfl⟩
    · rw [Function.update_of_ne hqp]
      have hql : q ∈ l := by
        rcases List.mem_append.mp hq with hq | hq
        · exact hq
        · exact absurd (List.mem_singleton.mp hq) hqp
      obtain ⟨t', ht', hsame⟩ := h.records q hql
      exact ⟨t', List.mem_append_left _ ht', hsame⟩

theorem Queued.pop (h : Queued depth s l) {request : PendingRequest} (hpop : s.pop = some (request, s')) :
    ∃ p rest, l = p :: rest ∧ request = s.node p ∧ Queued depth s' rest ∧
      s'.popped = s.popped ++ [request.requestId] := by
  have hhead := h.holds.head_eq
  cases l with
  | nil =>
    have hnone : s.queue.head = none := hhead
    rw [Forwarder.pop, hnone] at hpop
    cases hpop
  | cons p rest =>
    have hsome : s.queue.head = some p := hhead
    rw [Forwarder.pop, hsome] at hpop
    obtain ⟨rfl, rfl⟩ := Prod.mk.inj (Option.some.inj hpop)
    have hnd := List.nodup_cons.mp h.holds.nodup
    have hlength := h.length_le
    rw [List.length_cons] at hlength
    refine ⟨p, rest, rfl, rfl, ?_, rfl⟩
    constructor
    · exact h.holds.pop
    · intro q
      simp only [Finset.mem_erase, h.live, List.mem_cons]
      constructor
      · rintro ⟨hne, rfl | hq⟩
        · exact absurd rfl hne
        · exact hq
      · intro hq
        exact ⟨fun heq => hnd.1 (heq ▸ hq), Or.inr hq⟩
    · simp [h.count]
    · exact h.depth_eq
    · omega
    · have horder := h.order
      simp only [ids, List.map_cons] at horder ⊢
      rwa [List.append_assoc]
    · exact h.sent
    · exact h.started
    · exact fun q hq => h.records q (List.mem_cons_of_mem _ hq)

theorem Queued.removeRequest (h : Queued depth s l) (id : UInt64) :
    (s.find id = none ∧ s.removeRequest id = s) ∨
      ∃ a p b, l = a ++ p :: b ∧ (s.node p).requestId = id ∧ (s.find id).isSome = true ∧
        Queued depth (s.removeRequest id) (a ++ b) := by
  rcases h.holds.find h.count.ge (fun p => decide ((s.node p).requestId = id)) with
    ⟨hnone, -⟩ | ⟨a, p, b, rfl, htest, -, hfind⟩
  · left
    have hnone' : s.find id = none := hnone
    exact ⟨hnone', by rw [Forwarder.removeRequest, hnone']⟩
  · right
    have hfind' : s.find id = some (a.getLast?, p) := hfind
    have hnd := List.nodup_cons.mp (List.nodup_middle.mp h.holds.nodup)
    have hlength := h.length_le
    have hcount := h.count
    rw [List.length_append, List.length_cons] at hlength hcount
    refine ⟨a, p, b, rfl, of_decide_eq_true htest, by rw [hfind']; rfl, ?_⟩
    rw [Forwarder.removeRequest, hfind']
    constructor
    · exact h.holds.remove
    · intro q
      simp only [Finset.mem_erase, h.live, List.mem_append, List.mem_cons]
      constructor
      · rintro ⟨hne, hq | rfl | hq⟩
        · exact Or.inl hq
        · exact absurd rfl hne
        · exact Or.inr hq
      · intro hq
        refine ⟨fun heq => hnd.1 (heq ▸ List.mem_append.mpr hq), ?_⟩
        tauto
    · simp only [List.length_append]
      omega
    · exact h.depth_eq
    · rw [List.length_append]
      omega
    · refine List.Sublist.trans ?_ h.order
      refine List.Sublist.append_left ?_ _
      simp only [ids]
      exact (List.Sublist.append_left (List.sublist_cons_self p b) a).map _
    · exact h.sent
    · exact h.started
    · intro q hq
      refine h.records q ?_
      rcases List.mem_append.mp hq with hq | hq
      · exact List.mem_append_left _ hq
      · exact List.mem_append_right _ (List.mem_cons_of_mem _ hq)

theorem Queued.noteSendDone (h : Queued depth s l) (id : UInt64) (usec : UInt32) :
    Queued depth (s.noteSendDone id usec) l ∧ (s.noteSendDone id usec).ids l = s.ids l := by
  unfold Forwarder.noteSendDone
  cases s.find id with
  | none => exact ⟨h, rfl⟩
  | some found =>
    obtain ⟨prev, p⟩ := found
    have hid : ∀ q, (Function.update s.node p { s.node p with
        telemetry := { (s.node p).telemetry with forwardSendUsec := usec } } q).requestId =
          (s.node q).requestId := by
      intro q
      by_cases hq : q = p
      · rw [hq, Function.update_self]
      · rw [Function.update_of_ne hq]
    have hids : ∀ l' : List Nat, (l'.map fun q => (Function.update s.node p { s.node p with
        telemetry := { (s.node p).telemetry with forwardSendUsec := usec } } q).requestId) = s.ids l' :=
      fun l' => List.map_congr_left fun q _ => hid q
    refine ⟨⟨h.holds, h.live, h.count, h.depth_eq, h.length_le, ?_, h.sent, h.started, ?_⟩, hids l⟩
    · have horder := h.order
      rwa [← hids] at horder
    · intro q hq
      obtain ⟨t, ht, hsame⟩ := h.records q hq
      refine ⟨t, ?_, ?_⟩
      · rw [hid]
        exact ht
      · dsimp only
        by_cases hqp : q = p
        · subst hqp
          rw [Function.update_self]
          exact hsame
        · rw [Function.update_of_ne hqp]
          exact hsame

theorem Queued.clearRequests (h : Queued depth s l) : Queued depth s.clearRequests [] where
  holds := ⟨List.nodup_nil, rfl, rfl⟩
  live := by simp [Forwarder.clearRequests]
  count := rfl
  depth_eq := h.depth_eq
  length_le := Nat.zero_le _
  order := by
    simp only [Forwarder.clearRequests, ids, List.map_nil, List.append_nil]
    exact (List.sublist_append_left _ _).trans h.order
  sent := h.sent
  started := h.started
  records := nofun
theorem Queued.quiet (h : Queued depth s l) (closing upstreamOpen : Bool) (sender : Sender) (relay : Relay)
    (upstream : List Written) (arrived : List ResultFrame) {started : List UInt64} (hst : s.started ⊆ started) :
    Queued depth { s with
      closing := closing
      upstreamOpen := upstreamOpen
      sender := sender
      relay := relay
      upstream := upstream
      arrived := arrived
      started := started } l where
  holds := h.holds
  live := h.live
  count := h.count
  depth_eq := h.depth_eq
  length_le := h.length_le
  order := h.order
  sent := h.sent
  started := fun id hid => hst (h.started id hid)
  records := h.records

/-! ## Replies -/

theorem Replies.frame {byRelay : Bool} {id : UInt64} {text : String} (h : Replies s byRelay id text s') :
    s' = s ∨ ∃ reply : Reply, s' = s.write byRelay reply ∧ reply.requestId = id ∧ ∀ f, reply ≠ .result f := by
  cases h with
  | whole => exact Or.inr ⟨_, rfl, rfl, nofun⟩
  | torn => exact Or.inr ⟨_, rfl, rfl, nofun⟩
  | none => exact Or.inl rfl

/-- The requests that were answered, in order. -/
def answers (s : Forwarder) : List UInt64 := s.upstream.map fun w => w.reply.requestId

/-- The requests that the relay thread answered, in order. -/
def relayAnswers (s : Forwarder) : List UInt64 :=
  (s.upstream.filter fun w => w.byRelay).map fun w => w.reply.requestId

theorem afterPop_request (r : ResultFrame) (request : PendingRequest) (usec : UInt32) :
    (afterPop r request usec).request = some request.requestId := by
  unfold afterPop
  split_ifs with hid hbytes hframe
  · rfl
  · rfl
  · rfl
  · rw [Relay.request, not_not.mp hid]

theorem pop_eq {request : PendingRequest} (h : s.pop = some (request, s')) :
    ∃ live queue count, s' = { s with
      live := live
      queue := queue
      pendingCount := count
      popped := s.popped ++ [request.requestId] } := by
  unfold Forwarder.pop at h
  cases hhead : s.queue.head with
  | none =>
    rw [hhead] at h
    cases h
  | some p =>
    rw [hhead] at h
    obtain ⟨rfl, rfl⟩ := Prod.mk.inj (Option.some.inj h)
    exact ⟨_, _, _, rfl⟩

/-- A result that may be passed on: it arrived, and its request was sent downstream with the own record. -/
structure Ready (s : Forwarder) (own : Telemetry) (r : ResultFrame) : Prop where
  arrived : r ∈ s.arrived
  fits : r.Fits
  room : r.Room
  sent : ∃ t, (r.requestId, t) ∈ s.forwarded ∧ own.SameRecord t

theorem Ready.mono {own : Telemetry} {r : ResultFrame} (h : s.Ready own r) (ha : s.arrived ⊆ s'.arrived)
    (hf : s.forwarded ⊆ s'.forwarded) : s'.Ready own r := by
  obtain ⟨t, ht, hsame⟩ := h.sent
  exact ⟨ha h.arrived, h.fits, h.room, t, hf ht, hsame⟩

theorem afterPop_ready {r r' : ResultFrame} {request : PendingRequest} {usec : UInt32} {own : Telemetry}
    (h : afterPop r request usec = .relaying own r') (harrived : r ∈ s.arrived) (hfits : r.Fits)
    (hsent : ∃ t, (request.requestId, t) ∈ s.forwarded ∧ request.telemetry.SameRecord t) : s.Ready own r' := by
  unfold afterPop at h
  split_ifs at h with hid hbytes hframe
  obtain ⟨rfl, rfl⟩ := Relay.relaying.inj h
  obtain ⟨t, ht, hsame⟩ := hsent
  rw [not_or] at hbytes
  refine ⟨harrived, hfits, ⟨by omega, hbytes.2⟩, t, ?_, hsame⟩
  rwa [not_not.mp hid]

/-- The relay thread answers what it takes, in order, and passes on what arrived. -/
structure Relaying (s : Forwarder) : Prop where
  order : (s.relayAnswers ++ s.relay.request.toList).Sublist s.popped
  received : ∀ r, s.relay = .received r → r ∈ s.arrived ∧ r.Fits
  ready : ∀ own r, s.relay = .relaying own r → s.Ready own r
  passed : ∀ w ∈ s.upstream, ∀ f, w.reply = .result f →
    w.byRelay = true ∧ ∃ own r, f = r.relayed own ∧ s.Ready own r

theorem Relaying.frame (h : s.Relaying) (hrelay : s'.relay = s.relay) (hup : s'.upstream = s.upstream)
    (hpopped : s'.popped = s.popped) (harrived : s'.arrived = s.arrived) (hfwd : s.forwarded ⊆ s'.forwarded) :
    s'.Relaying := by
  have hmono : ∀ {own r}, s.Ready own r → s'.Ready own r := fun hr => hr.mono (harrived ▸ List.Subset.refl _) hfwd
  constructor
  · rw [relayAnswers, hrelay, hup, hpopped]
    exact h.order
  · rw [hrelay, harrived]
    exact h.received
  · intro own r hr
    rw [hrelay] at hr
    exact hmono (h.ready own r hr)
  · intro w hw f hf
    rw [hup] at hw
    obtain ⟨hby, own, r, heq, hr⟩ := h.passed w hw f hf
    exact ⟨hby, own, r, heq, hmono hr⟩

theorem Relaying.write_sender (h : s.Relaying) {reply : Reply} (hreply : ∀ f, reply ≠ .result f) :
    (s.write false reply).Relaying := by
  constructor
  · have horder := h.order
    simpa [relayAnswers, write] using horder
  · exact h.received
  · exact fun own r hr => (h.ready own r hr).mono (List.Subset.refl _) (List.Subset.refl _)
  · intro w hw f hf
    rcases List.mem_append.mp hw with hw | hw
    · obtain ⟨hby, own, r, heq, hr⟩ := h.passed w hw f hf
      exact ⟨hby, own, r, heq, hr.mono (List.Subset.refl _) (List.Subset.refl _)⟩
    · rw [List.mem_singleton] at hw
      rw [hw] at hf
      exact absurd hf (hreply f)

theorem Relaying.turn (h : s.Relaying) (closing upstreamOpen : Bool) {relay : Relay} (hreq : relay.request = none)
    (hrec : ∀ r, relay ≠ .received r) :
    Relaying { s with closing := closing, upstreamOpen := upstreamOpen, relay := relay } where
  order := by
    simp only [hreq, Option.toList_none, List.append_nil]
    exact (List.sublist_append_left _ _).trans h.order
  received := fun r hr => absurd hr (hrec r)
  ready := by
    intro own r hr
    have hr' : relay = .relaying own r := hr
    rw [hr'] at hreq
    cases hreq
  passed := by
    intro w hw f hf
    obtain ⟨hby, own, r, heq, hr⟩ := h.passed w hw f hf
    exact ⟨hby, own, r, heq, hr.mono (List.Subset.refl _) (List.Subset.refl _)⟩

theorem Relaying.write_relay (h : s.Relaying) {reply : Reply} {relay : Relay}
    (hid : s.relay.request = some reply.requestId) (hreq : relay.request = none)
    (hrec : ∀ r, relay ≠ .received r)
    (hreply : ∀ f, reply = .result f → ∃ own r, f = r.relayed own ∧ s.Ready own r) :
    Relaying { s.write true reply with relay := relay } where
  order := by
    have horder := h.order
    rw [hid] at horder
    simpa [relayAnswers, write, hreq] using horder
  received := fun r hr => absurd hr (hrec r)
  ready := by
    intro own r hr
    have hr' : relay = .relaying own r := hr
    rw [hr'] at hreq
    cases hreq
  passed := by
    intro w hw f hf
    have hold : w.byRelay = true ∧ ∃ own r, f = r.relayed own ∧ s.Ready own r := by
      rcases List.mem_append.mp hw with hw | hw
      · exact h.passed w hw f hf
      · rw [List.mem_singleton] at hw
        rw [hw] at hf ⊢
        exact ⟨rfl, hreply f hf⟩
    obtain ⟨hby, own, r, heq, hr⟩ := hold
    exact ⟨hby, own, r, heq, hr.mono (List.Subset.refl _) (List.Subset.refl _)⟩

theorem Relaying.pop (h : s.Relaying) {request : PendingRequest} (hpop : s.pop = some (request, s'))
    {relay : Relay} (hnone : s.relay.request = none) (hreq : relay.request = some request.requestId)
    (hrec : ∀ r, relay ≠ .received r) (hready : ∀ own r, relay = .relaying own r → s.Ready own r) :
    Relaying { s' with relay := relay } := by
  obtain ⟨live, queue, count, rfl⟩ := pop_eq hpop
  have horder := h.order
  rw [hnone, Option.toList_none, List.append_nil] at horder
  constructor
  · simp only [hreq, Option.toList_some]
    exact horder.append_right _
  · exact fun r hr => absurd hr (hrec r)
  · exact fun own r hr => (hready own r hr).mono (List.Subset.refl _) (List.Subset.refl _)
  · intro w hw f hf
    obtain ⟨hby, own, r, heq, hr⟩ := h.passed w hw f hf
    exact ⟨hby, own, r, heq, hr.mono (List.Subset.refl _) (List.Subset.refl _)⟩

theorem removeRequest_frame (s : Forwarder) (id : UInt64) : ∃ live queue count,
    s.removeRequest id = { s with live := live, queue := queue, pendingCount := count } := by
  unfold Forwarder.removeRequest
  cases s.find id with
  | none => exact ⟨_, _, _, rfl⟩
  | some found => exact ⟨_, _, _, rfl⟩

theorem noteSendDone_frame (s : Forwarder) (id : UInt64) (usec : UInt32) :
    ∃ node, s.noteSendDone id usec = { s with node := node } := by
  unfold Forwarder.noteSendDone
  cases s.find id with
  | none => exact ⟨_, rfl⟩
  | some found => exact ⟨_, rfl⟩

theorem Relaying.step (h : s.Relaying) (hq : Queued depth s l) (hstep : Step s s') : s'.Relaying := by
  cases hstep with
  | refuse | start | enqueueFails | send | failed | finish | clear =>
    exact h.frame rfl rfl rfl rfl (List.Subset.refl _)
  | enqueue => exact h.frame rfl rfl rfl rfl (List.subset_append_left _ _)
  | note hs =>
    obtain ⟨node, heq⟩ := noteSendDone_frame s _ _
    rw [heq]
    exact h.frame rfl rfl rfl rfl (List.Subset.refl _)
  | remove hs =>
    obtain ⟨live, queue, count, heq⟩ := removeRequest_frame s _
    rw [heq]
    exact h.frame rfl rfl rfl rfl (List.Subset.refl _)
  | refused hs hreply | fail hs hreply =>
    rcases hreply.frame with rfl | ⟨reply, rfl, -, hres⟩
    · exact h.frame rfl rfl rfl rfl (List.Subset.refl _)
    · exact (h.write_sender hres).frame rfl rfl rfl rfl (List.Subset.refl _)
  | begin | noBuffer | readEnd | readInvalid | readShort | readMismatch | popNone | passNone | closeQueue | shut =>
    exact h.turn _ _ rfl nofun
  | read hr r hsize hfits =>
    have hsub : s.arrived ⊆ s.arrived ++ [r] := List.subset_append_left _ _
    have horder := h.order
    rw [hr] at horder
    constructor
    · exact horder
    · intro r' hr'
      obtain rfl := Relay.received.inj hr'
      exact ⟨by simp, ResultFrame.fits_of_not_mismatch hfits⟩
    · exact fun own r' hr' => by cases hr'
    · intro w hw f hf
      obtain ⟨hby, own, r', heq, hready⟩ := h.passed w hw f hf
      exact ⟨hby, own, r', heq, hready.mono hsub (List.Subset.refl _)⟩
  | popError hr hpop => exact h.pop hpop (by rw [hr]; rfl) rfl nofun nofun
  | @popResult s' r request hr hpop usec =>
    obtain ⟨p, rest, rfl, rfl, -, -⟩ := hq.pop hpop
    obtain ⟨harrived, hfits⟩ := h.received r hr
    have hsent := hq.records p (List.mem_cons_self ..)
    refine h.pop hpop (by rw [hr]; rfl) (afterPop_request _ _ _) ?_ ?_
    · intro r' hr'
      have hreq := afterPop_request r (s.node p) usec
      rw [hr'] at hreq
      cases hreq
    · exact fun own r' hr' => afterPop_ready hr' harrived hfits hsent
  | answer hr hreply =>
    rcases hreply.frame with rfl | ⟨reply, rfl, rfl, hres⟩
    · exact h.turn _ _ rfl nofun
    · exact h.write_relay (by rw [hr]; rfl) rfl nofun fun f hf => absurd hf (hres f)
  | pass hr hopen =>
    refine h.write_relay (by rw [hr]; rfl) rfl nofun fun f hf => ?_
    obtain rfl := Reply.result.inj hf
    exact ⟨_, _, rfl, h.ready _ _ hr⟩
  | passTorn hr hopen => exact h.write_relay (by rw [hr]; rfl) rfl nofun nofun

/-! ## One answer -/

/-- The requests that were answered or still may be. -/
def pool (s : Forwarder) (l : List Nat) : Multiset UInt64 :=
  s.answers + (s.relay.request.toList + (s.sender.request.toList + (s.ids l : Multiset UInt64)))

/-- No request is answered that was answered before, now or later. -/
structure Once (s : Forwarder) (l : List Nat) : Prop where
  nodup : (s.pool l).Nodup
  started : ∀ id ∈ s.pool l, id ∈ s.started

variable {l' : List Nat}

theorem Once.le (h : s.Once l) (hle : s'.pool l' ≤ s.pool l) (hst : s'.started = s.started) : s'.Once l' where
  nodup := Multiset.nodup_of_le hle h.nodup
  started := fun id hid => hst ▸ h.started id (Multiset.mem_of_le hle hid)

theorem Once.fresh (h : s.Once l) {id : UInt64} (hnew : id ∉ s.started) (hpool : s'.pool l = id ::ₘ s.pool l)
    (hst : s'.started = s.started ++ [id]) : s'.Once l where
  nodup := by
    rw [hpool, Multiset.nodup_cons]
    exact ⟨fun hmem => hnew (h.started id hmem), h.nodup⟩
  started := by
    intro x hx
    rw [hpool, Multiset.mem_cons] at hx
    rw [hst]
    rcases hx with rfl | hx
    · simp
    · exact List.mem_append_left _ (h.started x hx)

theorem pool_replies_sender {id : UInt64} {text : String} (hreply : Replies s false id text s')
    (hreq : s.sender.request = some id) {sender : Sender} (hsender : sender.request = none) :
    pool { s' with sender := sender } l ≤ s.pool l := by
  rcases hreply.frame with rfl | ⟨reply, rfl, rfl, -⟩
  · simp only [pool, hsender, hreq, answers, ids]
    gcongr
    simp
  · apply le_of_eq
    simp only [pool, hsender, hreq, answers, ids, write, List.map_append, List.map_cons, List.map_nil,
      Option.toList_some, Option.toList_none, ← Multiset.coe_add, Multiset.coe_nil]
    abel

theorem pool_turn {closing upstreamOpen : Bool} {relay : Relay} {arrived : List ResultFrame}
    (hrelay : relay.request = none) :
    pool { s with closing := closing, upstreamOpen := upstreamOpen, relay := relay, arrived := arrived } l ≤
      s.pool l := by
  simp only [pool, hrelay, answers, ids]
  gcongr
  simp

theorem pool_write_relay {reply : Reply} (hreq : s.relay.request = some reply.requestId) {relay : Relay}
    (hrelay : relay.request = none) : pool { s.write true reply with relay := relay } l = s.pool l := by
  simp only [pool, hrelay, hreq, answers, ids, write, List.map_append, List.map_cons, List.map_nil,
    Option.toList_some, Option.toList_none, ← Multiset.coe_add, Multiset.coe_nil]
  abel

theorem pool_replies_relay {id : UInt64} {text : String} (hreply : Replies s true id text s')
    (hreq : s.relay.request = some id) {relay : Relay} (hrelay : relay.request = none) :
    pool { s' with relay := relay } l ≤ s.pool l := by
  rcases hreply.frame with rfl | ⟨reply, rfl, rfl, -⟩
  · simp only [pool, hrelay, hreq, answers, ids]
    gcongr
    simp
  · exact (pool_write_relay hreq hrelay).le

theorem pool_pop {request : PendingRequest} (h : Queued depth s l) (hpop : s.pop = some (request, s'))
    (hreq : s.relay.request = none) {relay : Relay} (hrelay : relay.request = some request.requestId) :
    ∃ l', Queued depth s' l' ∧ pool { s' with relay := relay } l' = s.pool l := by
  obtain ⟨p, rest, rfl, rfl, hq, -⟩ := h.pop hpop
  obtain ⟨live, queue, count, rfl⟩ := pop_eq hpop
  refine ⟨rest, hq, ?_⟩
  simp only [pool, hrelay, hreq, answers, ids, List.map_cons, Option.toList_some, Option.toList_none,
    Multiset.coe_nil, ← Multiset.cons_coe, ← Multiset.singleton_add]
  abel

/-- The evaluation thread finds the request that it removes in the queue. -/
def RemovesPending (s s' : Forwarder) : Prop :=
  ∀ id, s.sender = .removing id → s'.sender = .failing id → (s.find id).isSome = true

/-- A request that the evaluation thread is about to queue is a new one. -/
def Fresh (s : Forwarder) : Prop :=
  ∀ id t, s.sender = .enqueueing id t → id ∉ s.sentIds ∧ id ∈ s.started

/-- What a step does to the queue, and that it answers nothing twice when a request to remove is there. -/
def Moves (depth : Nat) (s s' : Forwarder) (l : List Nat) : Prop :=
  ∃ l', Queued depth s' l' ∧ s'.Fresh ∧ (RemovesPending s s' → s.Once l → s'.Once l')

theorem Queued.stays (h : Queued depth s l) (closing upstreamOpen : Bool) (sender : Sender) (relay : Relay)
    (upstream : List Written) (arrived : List ResultFrame)
    (hpool : pool { s with sender := sender, relay := relay, upstream := upstream } l ≤ s.pool l)
    (hfresh : ∀ id t, sender = .enqueueing id t → id ∉ s.sentIds ∧ id ∈ s.started) :
    Moves depth s { s with
      closing := closing
      upstreamOpen := upstreamOpen
      sender := sender
      relay := relay
      upstream := upstream
      arrived := arrived } l :=
  ⟨l, h.quiet _ _ _ _ _ _ (List.Subset.refl _), hfresh, fun _ honce => honce.le hpool rfl⟩

theorem Queued.takes (h : Queued depth s l) {id : UInt64} (hs : s.sender = .idle) (hnew : id ∉ s.started)
    {sender : Sender} (hreq : sender.request = some id) (hkind : ∀ id' t, sender = .enqueueing id' t → id' = id) :
    Moves depth s { s with sender := sender, started := s.started ++ [id] } l := by
  refine ⟨l, h.quiet _ _ _ _ _ _ (List.subset_append_left _ _), ?_, fun _ honce => honce.fresh hnew ?_ rfl⟩
  · intro id' t hsender
    obtain rfl := hkind id' t hsender
    exact ⟨fun hmem => hnew (h.started id' hmem), by simp⟩
  · have hidle : s.sender.request = none := by
      rw [hs]
      rfl
    simp only [pool, hidle, hreq, answers, ids, Option.toList_some, Option.toList_none, Multiset.coe_nil,
      ← Multiset.singleton_add, Multiset.coe_singleton]
    abel

theorem Queued.queues (h : Queued depth s l) (hdepth : 0 < depth) {id : UInt64} {t : Telemetry} {p : Nat}
    (hs : s.sender = .enqueueing id t) (hroom : ¬(s.pendingDepth ≠ 0 ∧ s.pendingDepth ≤ s.pendingCount))
    (hp : p ∉ s.live) (hfresh : s.Fresh) :
    Moves depth s { s.enqueue p ⟨id, t⟩ with sender := .sending id } l := by
  obtain ⟨hnew, hstarted⟩ := hfresh id t hs
  have hpl : p ∉ l := fun hmem => hp ((h.live p).mpr hmem)
  have hids := @ids_enqueue s l p hpl id t
  have hqueued : Queued depth (s.enqueue p ⟨id, t⟩) (l ++ [p]) := h.enqueue hdepth hroom hp hnew hstarted
  refine ⟨l ++ [p], hqueued.quiet _ _ _ _ _ _ (List.Subset.refl _), nofun, fun _ honce => honce.le ?_ rfl⟩
  apply le_of_eq
  have hpool : pool { s.enqueue p ⟨id, t⟩ with sender := .sending id } (l ++ [p]) =
      s.answers + (s.relay.request.toList + ((s.ids l ++ [id] : List UInt64) : Multiset UInt64)) := by
    rw [← hids]
    simp [pool, Sender.request, answers, Forwarder.enqueue, ids]
  rw [hpool]
  simp only [pool, hs, Sender.request, Option.toList_some, ← Multiset.coe_add]
  abel

theorem Queued.removes (h : Queued depth s l) {id : UInt64} (hs : s.sender = .removing id) :
    Moves depth s { s.removeRequest id with sender := .failing id } l := by
  obtain ⟨live, queue, count, hframe⟩ := removeRequest_frame s id
  rcases h.removeRequest id with ⟨hnone, heq⟩ | ⟨a, p, b, rfl, rfl, -, hqueued⟩
  · rw [heq]
    refine ⟨l, h.quiet _ _ _ _ _ _ (List.Subset.refl _), nofun, fun hmeets _ => ?_⟩
    have hsome := hmeets id hs rfl
    rw [hnone] at hsome
    cases hsome
  · refine ⟨a ++ b, hqueued.quiet _ _ _ _ _ _ (List.Subset.refl _), nofun, fun _ honce => honce.le ?_ ?_⟩
    · rw [hframe]
      apply le_of_eq
      simp only [pool, hs, answers, ids, Sender.request, List.map_append, List.map_cons, Option.toList_some,
        Option.toList_none, Multiset.coe_nil, ← Multiset.coe_add, ← Multiset.cons_coe, ← Multiset.singleton_add]
      abel
    · rw [hframe]

/-- **A step of either thread** keeps the queue well formed, and answers nothing twice when the request of a
failed send is in the queue. -/
theorem Queued.step (h : Queued depth s l) (hdepth : 0 < depth) (hfresh : s.Fresh) (hstep : Step s s') :
    Moves depth s s' l := by
  cases hstep with
  | refuse hs hnew => exact h.takes hs hnew rfl nofun
  | start hs hnew => exact h.takes hs hnew rfl fun id' t heq => (Sender.enqueueing.inj heq).1.symm
  | enqueue hs hclosing hroom hp => exact h.queues hdepth hs hroom hp hfresh
  | enqueueFails hs hfails =>
    exact h.stays _ _ _ _ _ _ (by simp [pool, hs, Sender.request, answers, ids]) nofun
  | refused hs hreply | fail hs hreply =>
    have hle := @pool_replies_sender _ _ l _ _ hreply (by rw [hs]; rfl) .idle rfl
    rcases hreply.frame with rfl | ⟨reply, rfl, -, -⟩
    · exact h.stays _ _ _ _ _ _ hle nofun
    · exact h.stays _ _ _ _ _ _ hle nofun
  | send hs sent usec | failed hs | finish hs =>
    exact h.stays _ _ _ _ _ _ (by simp [pool, hs, Sender.request, answers, ids]) nofun
  | @note id sent usec hs =>
    obtain ⟨hqueued, hids⟩ := h.noteSendDone id usec
    obtain ⟨node, hframe⟩ := noteSendDone_frame s id usec
    have hreq : (if sent then Sender.idle else .removing id).request = none := by
      cases sent <;> rfl
    refine ⟨l, hqueued.quiet _ _ _ _ _ _ (List.Subset.refl _), ?_, fun _ honce => honce.le ?_ (by rw [hframe])⟩
    · intro id' t heq
      have heq' : (if sent then Sender.idle else .removing id) = .enqueueing id' t := heq
      rw [heq'] at hreq
      cases hreq
    · have hpool : pool { s.noteSendDone id usec with sender := if sent then .idle else .removing id } l =
          s.answers + (s.relay.request.toList + ((if sent then Sender.idle else .removing id).request.toList +
            ((s.noteSendDone id usec).ids l : Multiset UInt64))) := by
        rw [hframe]
        rfl
      rw [hpool, hreq, hids]
      simp [pool, hs, Sender.request]
  | remove hs => exact h.removes hs
  | clear hs hr =>
    refine ⟨[], h.clearRequests, ?_, fun _ honce => honce.le ?_ rfl⟩
    · intro id t heq
      rw [Forwarder.clearRequests] at heq
      exact absurd (heq.symm.trans hs) nofun
    · simp only [pool, Forwarder.clearRequests, answers, ids]
      gcongr
      simp
  | begin hr | noBuffer hr | readEnd hr | readInvalid hr | readShort hr | readMismatch hr | read hr | passNone hr
  | closeQueue hr | shut hr | popNone hr =>
    exact h.stays _ _ _ _ _ _ (pool_turn rfl) hfresh
  | popError hr hpop =>
    obtain ⟨l', hqueued, hpool⟩ := @pool_pop _ _ _ _ _ h hpop (by rw [hr]; rfl) (.answering _ _) rfl
    obtain ⟨live, queue, count, rfl⟩ := pop_eq hpop
    exact ⟨l', hqueued.quiet _ _ _ _ _ _ (List.Subset.refl _), hfresh, fun _ honce => honce.le hpool.le rfl⟩
  | popResult hr hpop usec =>
    obtain ⟨l', hqueued, hpool⟩ := pool_pop h hpop (by rw [hr]; rfl) (afterPop_request _ _ usec)
    obtain ⟨live, queue, count, rfl⟩ := pop_eq hpop
    exact ⟨l', hqueued.quiet _ _ _ _ _ _ (List.Subset.refl _), hfresh, fun _ honce => honce.le hpool.le rfl⟩
  | answer hr hreply =>
    have hle := @pool_replies_relay _ _ l _ _ hreply (by rw [hr]; rfl) .leaving rfl
    rcases hreply.frame with rfl | ⟨reply, rfl, -, -⟩
    · exact h.stays _ _ _ _ _ _ hle hfresh
    · exact h.stays _ _ _ _ _ _ hle hfresh
  | pass hr hopen => exact h.stays _ _ _ _ _ _ (pool_write_relay (by rw [hr]; rfl) rfl).le hfresh
  | passTorn hr hopen => exact h.stays _ _ _ _ _ _ (pool_write_relay (by rw [hr]; rfl) rfl).le hfresh

/-! ## Runs -/

theorem forwardWindow_pos (env : Option Int) : 0 < forwardWindow env := by
  unfold forwardWindow
  split
  · split_ifs <;> omega
  · decide

theorem Run.queued {meets : Forwarder → Forwarder → Prop} (hdepth : 0 < depth) (h : Run meets depth s) :
    (∃ l, Queued depth s l) ∧ s.Fresh ∧ s.Relaying := by
  induction h with
  | init =>
    refine ⟨⟨[], ?_⟩, nofun, ?_⟩
    · exact ⟨Fifo.holds_empty, by simp [Forwarder.init], rfl, rfl, Nat.zero_le _, List.Sublist.refl _,
        List.nodup_nil, nofun, nofun⟩
    · exact ⟨List.Sublist.refl _, nofun, nofun, nofun⟩
  | step h hstep hmeets ih =>
    obtain ⟨⟨l, hq⟩, hfresh, hrelaying⟩ := ih
    obtain ⟨l', hq', hfresh', -⟩ := hq.step hdepth hfresh hstep
    exact ⟨⟨l', hq'⟩, hfresh', hrelaying.step hq hstep⟩

/-- No run answers a request twice in which a request to remove is always there. -/
theorem Run.once (hdepth : 0 < depth) (h : Run RemovesPending depth s) :
    ∃ l, Queued depth s l ∧ s.Fresh ∧ s.Once l := by
  induction h with
  | init =>
    refine ⟨[], ?_, nofun, ?_⟩
    · exact ⟨Fifo.holds_empty, by simp [Forwarder.init], rfl, rfl, Nat.zero_le _, List.Sublist.refl _,
        List.nodup_nil, nofun, nofun⟩
    · exact ⟨Multiset.nodup_zero, nofun⟩
  | step h hstep hmeets ih =>
    obtain ⟨l, hq, hfresh, honce⟩ := ih
    obtain ⟨l', hq', hfresh', hmove⟩ := hq.step hdepth hfresh hstep
    exact ⟨l', hq', hfresh', hmove hmeets honce⟩

/-- What a forwarder is to do: its queue is well formed and not longer than its depth, the answers of its
relay thread are in the order in which the requests went downstream, every result that it passed on carries
the telemetry from downstream and the record of the request behind it, and no request has two answers. -/
structure Answers (s : Forwarder) : Prop where
  pending : ∃ l, s.queue.Holds l ∧ s.pendingCount = l.length ∧ l.length ≤ s.pendingDepth
  order : s.relayAnswers.Sublist s.sentIds ∧ s.sentIds.Nodup
  passed : ∀ w ∈ s.upstream, ∀ f, w.reply = .result f → w.byRelay = true ∧ ∃ r ∈ s.arrived, ∃ own t,
    (r.requestId, t) ∈ s.forwarded ∧ own.SameRecord t ∧ f.requestId = r.requestId ∧
      f.telemetry = r.telemetry ++ [own] ∧ f.payload = r.payload
  once : s.answers.Nodup

/-- **Forwarding.** A forwarder does what it is to do in every state of every run in which the evaluation
thread, when a send has failed, finds the request that it removes in the queue. -/
theorem answers_of_removesPending (env : Option Int) (h : Run RemovesPending (forwardWindow env) s) :
    s.Answers := by
  have hdepth := forwardWindow_pos env
  obtain ⟨-, -, hrelaying⟩ := h.queued hdepth
  obtain ⟨l, hq, -, honce⟩ := h.once hdepth
  constructor
  · exact ⟨l, hq.holds, hq.count, hq.depth_eq ▸ hq.length_le⟩
  · refine ⟨?_, hq.sent⟩
    have hanswered : s.relayAnswers.Sublist s.popped :=
      (List.sublist_append_left _ _).trans hrelaying.order
    exact hanswered.trans ((List.sublist_append_left _ _).trans hq.order)
  · intro w hw f hf
    obtain ⟨hby, own, r, rfl, hready⟩ := hrelaying.passed w hw f hf
    obtain ⟨t, ht, hsame⟩ := hready.sent
    exact ⟨hby, r, hready.arrived, own, t, ht, hsame, rfl, r.relayed_telemetry hready.fits hready.room own,
      r.relayed_payload hready.fits hready.room own⟩
  · have hle : (s.answers : Multiset UInt64) ≤ s.pool l := Multiset.le_add_right _ _
    exact Multiset.coe_nodup.mp (Multiset.nodup_of_le hle honce.nodup)

/-- Two requests are queued. The result of the first one is passed on, the send of the second one fails, and it
is removed and answered. -/
theorem answers_of_removesPending_relayed :
    ∃ s, Run RemovesPending (forwardWindow none) s ∧ s.relayAnswers = [1] ∧ s.answers = [1, 2] ∧ s.Answers := by
  have hquiet : ∀ {s s' : Forwarder}, Run RemovesPending (forwardWindow none) s → Step s s' →
      (∀ id, s'.sender ≠ .failing id) → Run RemovesPending (forwardWindow none) s' :=
    fun h hstep hs => h.step hstep fun id _ hfailing => absurd hfailing (hs id)
  have hbegun := hquiet .init (.begin rfl) fun _ => Sender.noConfusion
  have hstart := hquiet hbegun (@Step.start _ 1 ⟨0, 9, 0, 0, 1, 0, 0, 0, 0, 0⟩ rfl List.not_mem_nil)
    fun _ => Sender.noConfusion
  have hfirst := hquiet hstart
    (@Step.enqueue _ 1 ⟨0, 9, 0, 0, 1, 0, 0, 0, 0, 0⟩ 0 rfl rfl (by decide) (by decide))
    fun _ => Sender.noConfusion
  have hsent := hquiet hfirst (.send rfl true 5) fun _ => Sender.noConfusion
  have hnoted := hquiet hsent (.note rfl) fun _ => Sender.noConfusion
  have hnext := hquiet hnoted (@Step.start _ 2 ⟨0, 9, 0, 1, 1, 0, 0, 0, 0, 0⟩ rfl (by decide))
    fun _ => Sender.noConfusion
  have hsecond := hquiet hnext
    (@Step.enqueue _ 2 ⟨0, 9, 0, 1, 1, 0, 0, 0, 0, 0⟩ 1 rfl rfl (by decide) (by decide))
    fun _ => Sender.noConfusion
  have hread := hquiet hsecond (.read rfl ⟨1, 0, 0, 0, 0, 0, 1, 32, [7]⟩ (by decide)
    (by unfold ResultFrame.Mismatch; decide)) fun _ => Sender.noConfusion
  have hpopped := hquiet hread (@Step.popResult _ _ _ ⟨1, ⟨0, 9, 0, 0, 1, 0, 0, 5, 0, 0⟩⟩ rfl rfl 3)
    fun _ => Sender.noConfusion
  have hpassed := hquiet hpopped (.pass rfl rfl) fun _ => Sender.noConfusion
  have htorn := hquiet hpassed (.send rfl false 5) fun _ => Sender.noConfusion
  have hsecond : ∃ s, Run RemovesPending (forwardWindow none) s ∧ s.queue.head = some 1 ∧
      s.pendingCount = 1 ∧ (s.node 1).requestId = 2 ∧ s.sender = .noting 2 false 5 ∧ s.upstreamOpen = true ∧
      s.relayAnswers = [1] ∧ s.answers = [1] :=
    ⟨_, htorn, rfl, rfl, rfl, rfl, rfl, rfl, rfl⟩
  obtain ⟨s, hrun, hhead, hcount, hnode, hsender, hopen, hrelayed, hanswers⟩ := hsecond
  have hfind : (s.noteSendDone 2 5).find 2 = some (none, 1) := by
    simp [noteSendDone, Forwarder.find, hhead, hcount, Fifo.find, hnode]
  have hremoved := (hquiet hrun (.note hsender) fun _ => Sender.noConfusion).step (.remove rfl) fun id hs _ => by
    obtain rfl := Sender.removing.inj hs
    exact Option.isSome_of_eq_some hfind
  obtain ⟨node, hnode'⟩ := s.noteSendDone_frame 2 5
  obtain ⟨live, queue, count, hremove⟩ :=
    removeRequest_frame { s.noteSendDone 2 5 with sender := .removing 2 } 2
  rw [if_neg (by decide), hremove, hnode'] at hremoved
  have hfailed := hquiet hremoved (.fail rfl (.whole hopen)) fun _ => Sender.noConfusion
  refine ⟨_, hfailed, ?_, ?_, answers_of_removesPending none hfailed⟩
  · simpa [relayAnswers, write] using hrelayed
  · rw [answers, write, List.map_append]
    exact congrArg (· ++ [2]) hanswers

/-- The next worker closes the connection while a request is sent to it: the relay thread takes the request
and answers it, then the send fails, and the evaluation thread answers it too. -/
theorem answered_twice :
    ∃ s, Run (fun _ _ => True) (forwardWindow none) s ∧ s.answers = [1, 1] ∧ ¬s.Answers := by
  have hinit : Run (fun _ _ => True) (forwardWindow none) _ := .init
  have hstart := hinit.step (@Step.start _ 1 ⟨0, 0, 0, 0, 0, 0, 0, 0, 0, 0⟩ rfl nofun) trivial
  have hqueued := hstart.step
    (@Step.enqueue _ 1 ⟨0, 0, 0, 0, 0, 0, 0, 0, 0, 0⟩ 0 rfl rfl (by decide) (by decide)) trivial
  have hclosed := (hqueued.step (.begin rfl) trivial).step (.readEnd rfl) trivial
  have hpopped := hclosed.step (@Step.popError _ _ _ ⟨1, ⟨0, 0, 0, 0, 0, 0, 0, 0, 0, 0⟩⟩ rfl rfl) trivial
  have hanswered := hpopped.step (.answer rfl (.whole rfl)) trivial
  have hnoted := (hanswered.step (.send rfl false 5) trivial).step (.note rfl) trivial
  have hfailed := (hnoted.step (.remove rfl) trivial).step (.fail rfl (.whole rfl)) trivial
  have hanswers : ∃ s, Run (fun _ _ => True) (forwardWindow none) s ∧ s.answers = [1, 1] := ⟨_, hfailed, rfl⟩
  obtain ⟨s, hrun, htwice⟩ := hanswers
  refine ⟨s, hrun, htwice, fun h => ?_⟩
  have hnodup := h.once
  rw [htwice] at hnodup
  exact absurd hnodup (by decide)

end Forwarder

end Ds4.Dist
