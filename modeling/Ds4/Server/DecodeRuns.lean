import Ds4.Lib.Tally
import Ds4.Server.Decode

/-!
# Every token is evaluated once, by one holder of the model

The state is described slot by slot (`Stage`): the worker is away, its token is pending, in flight,
withdrawn or evaluated. The history says of each call which batch took it and what it returned
(`Ledger`), and two counts say how many tokens are pending and who holds the model (`Counts`). Each
step keeps the three. A batch that succeeds while the server shuts down is answered as interrupted.
-/

namespace Ds4.Server

open Ds4.Lib

/-! ## Results of a batch -/

namespace DecodeBatch

variable {c : DecodeConfig} {blockSlot i w : Nat} {b : DecodeBatch} {e : EngineAnswers}

theorem block_cycle (h : b.block c blockSlot e = some (i, w)) :
    ∃ m, b.members[i]? = some m ∧ m.cycle.isSome := by
  unfold block at h
  split_ifs at h with hmix hone
  · obtain ⟨n, -, hn⟩ := List.exists_of_findSome?_eq_some h
    obtain ⟨j, hj, hjw⟩ := Option.map_eq_some_iff.mp hn
    obtain ⟨rfl, -⟩ := Prod.mk.inj hjw
    obtain ⟨hlt, hp, -⟩ := List.findIdx?_eq_some_iff_getElem.mp hj
    simp only [Bool.and_eq_true] at hp
    exact ⟨_, List.getElem?_eq_getElem hlt, hp.1.2⟩
  · obtain ⟨cycle, hcycle, hiw⟩ := Option.map_eq_some_iff.mp h
    obtain ⟨rfl, -⟩ := Prod.mk.inj hiw
    obtain ⟨m, hm, hmc⟩ := Option.bind_eq_some_iff.mp hcycle
    exact ⟨m, by rw [← List.head?_eq_getElem?, hm], by simp [hmc]⟩

/-- **A member gets no more tokens than its caller has room for.** -/
theorem accepted_le {m : DecodeMember} (hm : b.members[i]? = some m) :
    (b.accepted c blockSlot e i).length ≤ if m.cycle.isSome then 17 else 2 := by
  unfold accepted
  split_ifs with hown hplain
  · exact e.cycleTokens_le
  · obtain ⟨⟨j, w⟩, hblock, rfl⟩ := Option.map_eq_some_iff.mp hown
    obtain ⟨m', hm', hcycle⟩ := block_cycle hblock
    obtain rfl := Option.some.inj (hm.symm.trans hm')
    contradiction
  all_goals first
    | simp [hm]
    | exact (e.speculativeAccepted_le i).trans (by omega)

end DecodeBatch

namespace FinishedBatch

variable (f : FinishedBatch) (c : DecodeConfig)

/-- The result code of the batch. -/
def rc : Int := f.batch.rc c f.blockSlot f.answers

/-- The tokens accepted for member `i`. -/
def accepted (i : Nat) : List Int := f.batch.accepted c f.blockSlot f.answers i

/-- The carry for member `i`. -/
def carry (i : Nat) : Int := f.batch.carry c f.blockSlot f.answers i

end FinishedBatch

/-- The answers of an engine without cycles whose evaluations all have one result code. -/
def EngineAnswers.plain (rc : Int) : EngineAnswers where
  mixedStep := false
  cycleReady := fun _ => false
  mixedRc := rc
  cycleTokens := []
  cycleCarry := -1
  batchRc := rc
  speculativeRc := rc
  speculativeAccepted := fun _ => []
  batchErr := ""
  cycleTokens_le := by simp
  speculativeAccepted_le := by simp

/-! ## What a call returns -/

/-- The member that a call is of the batch that takes its token. -/
def DecodeCall.member (call : DecodeCall) (k : Nat) : DecodeMember :=
  ⟨call.slot, k, call.token, call.cycle⟩

namespace DecodeReturn

/-- The return of a call whose token was not taken: it was interrupted, and the server was stopped or
the client gone. -/
structure Interrupted (r : DecodeReturn) (call : DecodeCall) : Prop where
  rc : r.rc = sessionSyncInterrupted
  accepted : r.accepted = []
  carry : r.carry = call.cycle.map fun _ => -1
  cause : r.stopped = true ∨ r.cancelled = true

/-- The return of a call that was member `i` of a batch: its result code, and when that is a success
its own tokens and carry. When the server was stopped a success is an interruption. -/
structure From (r : DecodeReturn) (c : DecodeConfig) (f : FinishedBatch) (i : Nat)
    (call : DecodeCall) : Prop where
  member : f.batch.members[i]? = some (call.member r.call)
  rc : r.rc = if r.stopped = true ∧ f.rc c = 0 then sessionSyncInterrupted else f.rc c
  accepted : r.accepted = if r.rc = 0 then f.accepted c i else []
  carry : r.carry = call.cycle.map fun _ => if f.rc c = 0 then f.carry c i else -1

theorem From.accepted_le {r : DecodeReturn} {c : DecodeConfig} {f : FinishedBatch} {i : Nat}
    {call : DecodeCall} (h : r.From c f i call) : r.accepted.length ≤ call.room := by
  rw [h.accepted]
  split_ifs
  · exact DecodeBatch.accepted_le h.member
  · exact Nat.zero_le _

end DecodeReturn

namespace Coordinator

variable {c : DecodeConfig} {s s' : Coordinator} {i k : Nat} {call : DecodeCall}

/-- The members of the batch that is evaluated. -/
def running (s : Coordinator) : List DecodeMember :=
  match s.phase with
  | .batch b => b.members
  | _ => []

/-- The members of all batches. -/
def taken (s : Coordinator) : List DecodeMember :=
  (s.finished.map fun f => f.batch.members).flatten ++ s.running

/-- What call `k` returned. -/
def returnsOf (s : Coordinator) (k : Nat) : List DecodeReturn :=
  s.returns.filter fun r => r.call = k

/-- Call `k` has not returned: the worker of its slot is in it. -/
def Waiting (s : Coordinator) (k : Nat) (call : DecodeCall) : Prop :=
  (s.slots call.slot).worker = .decoding ∧ (s.slots call.slot).decodeCall = k

/-- A return is right: no batch took the token, and the call was interrupted, or it has the result
of a batch. -/
def Right (s : Coordinator) (c : DecodeConfig) (k : Nat) (call : DecodeCall) (r : DecodeReturn) :
    Prop :=
  ((∀ m ∈ s.taken, m.call ≠ k) ∧ r.Interrupted call) ∨
    ∃ f ∈ s.finished, ∃ i, r.From c f i call

/-- Where a slot is. -/
inductive Stage (s : Coordinator) (c : DecodeConfig) (i : Nat) (slot : DecodeSlot) : Prop
  | away (hw : slot.worker ≠ .decoding) (hp : slot.decodePending = false)
      (hf : slot.decodeInFlight = false) (hc : slot.decodeCycle = none)
  | pending (hw : slot.worker = .decoding) (hp : slot.decodePending = true)
      (hf : slot.decodeInFlight = false) (hd : slot.decodeDone = false)
      (hc : slot.decodeCycle.isSome → slot.decodeCarry = -1)
      (ht : ∀ m ∈ s.taken, m.call ≠ slot.decodeCall)
  | inFlight (hw : slot.worker = .decoding) (hp : slot.decodePending = false)
      (hf : slot.decodeInFlight = true) (hd : slot.decodeDone = false)
      (hc : slot.decodeCycle.isSome → slot.decodeCarry = -1)
      (hm : slot.member i ∈ s.running)
  | withdrawn (hw : slot.worker = .decoding) (hp : slot.decodePending = false)
      (hf : slot.decodeInFlight = false) (hd : slot.decodeDone = true)
      (hc : slot.decodeCycle.isSome → slot.decodeCarry = -1)
      (hrc : slot.decodeRc = sessionSyncInterrupted)
      (hcause : s.stopRequested = true ∨ slot.cancelled = true)
      (ht : ∀ m ∈ s.taken, m.call ≠ slot.decodeCall)
  | evaluated (hw : slot.worker = .decoding) (hp : slot.decodePending = false)
      (hf : slot.decodeInFlight = false) (hd : slot.decodeDone = true)
      (f : FinishedBatch) (hfin : f ∈ s.finished) (m : Nat)
      (hm : f.batch.members[m]? = some (slot.member i)) (hrc : slot.decodeRc = f.rc c)
      (ha : f.rc c = 0 → slot.decodeAccepted = f.accepted c m)
      (hc : slot.decodeCycle.isSome →
        slot.decodeCarry = if f.rc c = 0 then f.carry c m else -1)

/-- What the history says: every slot is in a stage, a worker in a call has its own call and nothing
was returned for it, the batch that is evaluated has its members in flight, a token is taken once and
as it was submitted, and every other call has returned once and right. -/
structure Ledger (s : Coordinator) (c : DecodeConfig) : Prop where
  stage : ∀ i, s.Stage c i (s.slots i)
  current : ∀ i, (s.slots i).worker = .decoding →
    s.calls[(s.slots i).decodeCall]? = some ((s.slots i).asCall i) ∧
      s.returnsOf (s.slots i).decodeCall = []
  running : ∀ m ∈ s.running, (s.slots m.slot).worker = .decoding ∧
    (s.slots m.slot).decodeInFlight = true ∧ (s.slots m.slot).member m.slot = m
  once : (s.taken.map DecodeMember.call).Nodup
  own : ∀ m ∈ s.taken, ∃ call, s.calls[m.call]? = some call ∧ call.member m.call = m
  closed : ∀ k call, s.calls[k]? = some call → ¬ s.Waiting k call →
    ∃ r, s.returnsOf k = [r] ∧ s.Right c k call r
  fresh : ∀ r ∈ s.returns, r.call < s.calls.length

/-- Whether the worker of a slot holds the model. -/
def holds (slot : DecodeSlot) : Bool := decide (slot.worker = .prefilling)

/-- Whether the coordinator holds the model. -/
def evaluating (s : Coordinator) : Bool :=
  match s.phase with
  | .batch _ => true
  | _ => false

/-- What the counts say: the pending tokens, and the holders of the model. -/
structure Counts (s : Coordinator) (c : DecodeConfig) : Prop where
  pending : s.decodePending = tally DecodeSlot.decodePending c.decodeSlots s.slots
  holders : tally holds c.decodeSlots s.slots + s.evaluating.toNat = s.modelBusy.toNat
  bound : ∀ i, (s.slots i).worker ≠ .idle → i < c.decodeSlots

/-! ## Stages -/

theorem Stage.mono {slot : DecodeSlot} (h : s.Stage c i slot) (htaken : s'.taken = s.taken)
    (hrunning : s'.running = s.running) (hfinished : s.finished ⊆ s'.finished)
    (hstop : s.stopRequested = true → s'.stopRequested = true) : s'.Stage c i slot := by
  cases h with
  | away hw hp hf hc => exact .away hw hp hf hc
  | pending hw hp hf hd hc ht => exact .pending hw hp hf hd hc (htaken ▸ ht)
  | inFlight hw hp hf hd hc hm => exact .inFlight hw hp hf hd hc (hrunning ▸ hm)
  | withdrawn hw hp hf hd hc hrc hcause ht =>
    exact .withdrawn hw hp hf hd hc hrc (hcause.imp_left hstop) (htaken ▸ ht)
  | evaluated hw hp hf hd f hfin m hm hrc ha hc =>
    exact .evaluated hw hp hf hd f (hfinished hfin) m hm hrc ha hc

/-- A slot with the same decode flags and results as another. -/
structure Kept (slot slot' : DecodeSlot) : Prop where
  worker : slot'.worker = .decoding ↔ slot.worker = .decoding
  pending : slot'.decodePending = slot.decodePending
  inFlight : slot'.decodeInFlight = slot.decodeInFlight
  done : slot'.decodeDone = slot.decodeDone
  cycle : slot'.decodeCycle = slot.decodeCycle
  carry : slot'.decodeCarry = slot.decodeCarry
  rc : slot'.decodeRc = slot.decodeRc
  accepted : slot'.decodeAccepted = slot.decodeAccepted
  asCall : ∀ i, slot'.asCall i = slot.asCall i
  call : slot'.decodeCall = slot.decodeCall
  cancelled : slot.worker = .decoding → slot.cancelled = true → slot'.cancelled = true

theorem Kept.refl (slot : DecodeSlot) : Kept slot slot :=
  ⟨.rfl, rfl, rfl, rfl, rfl, rfl, rfl, rfl, fun _ => rfl, rfl, fun _ => id⟩

theorem Kept.member {slot slot' : DecodeSlot} (h : Kept slot slot') (i : Nat) :
    slot'.member i = slot.member i := by
  have htoken : slot'.decodeToken = slot.decodeToken := congrArg DecodeCall.token (h.asCall i)
  simp only [DecodeSlot.member, h.call, htoken, h.cycle]

theorem Stage.kept {slot slot' : DecodeSlot} (h : s.Stage c i slot) (hk : Kept slot slot') :
    s.Stage c i slot' := by
  have hmember := hk.member i
  obtain ⟨hw', hp', hf', hd', hcy', hca', hrc', hac', -, hcall', hcan'⟩ := hk
  cases h with
  | away hw hp hf hc => exact .away (mt hw'.mp hw) (hp' ▸ hp) (hf' ▸ hf) (hcy' ▸ hc)
  | pending hw hp hf hd hc ht =>
    exact .pending (hw'.mpr hw) (hp' ▸ hp) (hf' ▸ hf) (hd' ▸ hd) (hcy' ▸ hca' ▸ hc) (hcall' ▸ ht)
  | inFlight hw hp hf hd hc hm =>
    exact .inFlight (hw'.mpr hw) (hp' ▸ hp) (hf' ▸ hf) (hd' ▸ hd) (hcy' ▸ hca' ▸ hc) (hmember ▸ hm)
  | withdrawn hw hp hf hd hc hrc hcause ht =>
    exact .withdrawn (hw'.mpr hw) (hp' ▸ hp) (hf' ▸ hf) (hd' ▸ hd) (hcy' ▸ hca' ▸ hc) (hrc' ▸ hrc)
      (hcause.imp_right (hcan' hw)) (hcall' ▸ ht)
  | evaluated hw hp hf hd f hfin m hm hrc ha hc =>
    exact .evaluated (hw'.mpr hw) (hp' ▸ hp) (hf' ▸ hf) (hd' ▸ hd) f hfin m (hmember ▸ hm)
      (hrc' ▸ hrc) (hac' ▸ ha) (hcy' ▸ hca' ▸ hc)

/-! ## The history -/

theorem Ledger.eq_of_call (h : s.Ledger c) {i j : Nat} (hi : (s.slots i).worker = .decoding)
    (hj : (s.slots j).worker = .decoding)
    (hcall : (s.slots i).decodeCall = (s.slots j).decodeCall) : i = j := by
  have hci := (h.current i hi).1
  rw [hcall, (h.current j hj).1] at hci
  exact (congrArg DecodeCall.slot (Option.some.inj hci)).symm

theorem Ledger.waiting (h : s.Ledger c) (hi : (s.slots i).worker = .decoding)
    (hk : s.calls[(s.slots i).decodeCall]? = some call) : s.Waiting (s.slots i).decodeCall call := by
  obtain rfl := Option.some.inj ((h.current i hi).1.symm.trans hk)
  exact ⟨hi, rfl⟩

theorem Ledger.returnsOf_length (h : s.Ledger c) : s.returnsOf s.calls.length = [] := by
  refine List.filter_eq_nil_iff.mpr fun r hr => ?_
  simpa using (h.fresh r hr).ne

theorem returnsOf_push {r : DecodeReturn} (hs : s'.returns = s.returns ++ [r]) (k : Nat) :
    s'.returnsOf k = if r.call = k then s.returnsOf k ++ [r] else s.returnsOf k := by
  rw [returnsOf, returnsOf, hs, List.filter_append, List.filter_singleton]
  split_ifs <;> simp_all

/-- **A step that leaves the calls alone.** -/
theorem Ledger.kept (h : s.Ledger c) (hslots : ∀ i, Kept (s.slots i) (s'.slots i))
    (hrunning : s'.running = s.running) (hfinished : s'.finished = s.finished)
    (hcalls : s'.calls = s.calls) (hreturns : s'.returns = s.returns)
    (hstop : s.stopRequested = true → s'.stopRequested = true) : s'.Ledger c := by
  have htaken : s'.taken = s.taken := by rw [taken, taken, hrunning, hfinished]
  have hret : s'.returnsOf = s.returnsOf := by
    funext k
    rw [returnsOf, returnsOf, hreturns]
  refine ⟨?_, ?_, ?_, htaken ▸ h.once, ?_, ?_, ?_⟩
  · intro i
    exact ((h.stage i).kept (hslots i)).mono htaken hrunning (hfinished ▸ List.Subset.refl _) hstop
  · intro i hi
    rw [hcalls, hret, (hslots i).call, (hslots i).asCall]
    exact h.current i ((hslots i).worker.mp hi)
  · intro m hm
    rw [hrunning] at hm
    obtain ⟨hw, hf, hmem⟩ := h.running m hm
    exact ⟨(hslots _).worker.mpr hw, (hslots _).inFlight.trans hf,
      ((hslots _).member _).trans hmem⟩
  · rw [htaken, hcalls]
    exact h.own
  · intro k call hk hwait
    rw [hcalls] at hk
    rw [hret]
    have hwait' : ¬ s.Waiting k call := by
      rintro ⟨hw, hc⟩
      exact hwait ⟨(hslots _).worker.mpr hw, (hslots _).call.trans hc⟩
    simpa only [Right, htaken, hfinished] using h.closed k call hk hwait'
  · rw [hcalls, hreturns]
    exact h.fresh

theorem Ledger.taken_lt (h : s.Ledger c) {m : DecodeMember} (hm : m ∈ s.taken) :
    m.call < s.calls.length := by
  obtain ⟨call, hcall, -⟩ := h.own m hm
  exact (List.getElem?_eq_some_iff.mp hcall).1

/-- **A call that is refused.** -/
theorem Ledger.refuse (h : s.Ledger c) {err : String}
    (hcause : s.stopRequested = true ∨ (s.slots call.slot).cancelled = true) :
    (s.refuse call sessionSyncInterrupted err).Ledger c := by
  set s' := s.refuse call sessionSyncInterrupted err
  have hret : ∀ k, k ≠ s.calls.length → s'.returnsOf k = s.returnsOf k := by
    intro k hk
    exact (returnsOf_push rfl k).trans (if_neg hk.symm)
  have hlt : ∀ k call, s.calls[k]? = some call → k ≠ s.calls.length ∧ s'.calls[k]? = some call := by
    intro k call hk
    have hlt := (List.getElem?_eq_some_iff.mp hk).1
    exact ⟨hlt.ne, (List.getElem?_append_left hlt).trans hk⟩
  refine ⟨fun i => (h.stage i).mono rfl rfl (List.Subset.refl _) id, ?_, h.running, h.once, ?_, ?_,
    ?_⟩
  · intro i hi
    obtain ⟨hcall, hnil⟩ := h.current i hi
    obtain ⟨hne, hcall'⟩ := hlt _ _ hcall
    exact ⟨hcall', (hret _ hne).trans hnil⟩
  · intro m hm
    obtain ⟨call', hcall, hmem⟩ := h.own m hm
    exact ⟨call', (hlt _ _ hcall).2, hmem⟩
  · intro k call' hk hwait
    rcases eq_or_ne k s.calls.length with rfl | hne
    · obtain rfl : call = call' := by simpa [s', Coordinator.refuse] using hk
      refine ⟨_, (returnsOf_push rfl _).trans (by rw [if_pos rfl, h.returnsOf_length]; rfl), ?_⟩
      exact .inl ⟨fun m hm => (h.taken_lt hm).ne, rfl, rfl, rfl, hcause⟩
    · rw [hret k hne]
      have hlt : k < s.calls.length := by
        have := (List.getElem?_eq_some_iff.mp hk).1
        simp only [s', Coordinator.refuse, List.length_append, List.length_singleton] at this
        omega
      exact h.closed k call' ((List.getElem?_append_left hlt).symm.trans hk) hwait
  · intro r hr
    simp only [s', Coordinator.refuse, List.mem_append, List.mem_singleton, List.length_append,
      List.length_singleton] at hr ⊢
    rcases hr with hr | rfl
    · exact (h.fresh r hr).trans (Nat.lt_succ_self _)
    · exact Nat.lt_succ_self _

/-- **A token that is submitted.** -/
theorem Ledger.submit (h : s.Ledger c) (hw : (s.slots call.slot).worker ≠ .decoding)
    (hs' : s' = { s with
      slots := Function.update s.slots call.slot ((s.slots call.slot).submit call s.calls.length)
      decodePending := s.decodePending + 1
      calls := s.calls ++ [call] }) : s'.Ledger c := by
  subst hs'
  set slot' := (s.slots call.slot).submit call s.calls.length with hslot'
  have hcycle : (s.slots call.slot).decodeCycle = none := by
    cases h.stage call.slot <;> first | contradiction | assumption
  have hcall : slot'.asCall call.slot = call := by
    simp [hslot', DecodeSlot.submit, DecodeSlot.asCall, hcycle]
  have hlt : ∀ (k : Nat) call', s.calls[k]? = some call' → (s.calls ++ [call])[k]? = some call' := by
    intro k call' hk
    exact (List.getElem?_append_left (List.getElem?_eq_some_iff.mp hk).1).trans hk
  refine ⟨?_, ?_, ?_, h.once, ?_, ?_, ?_⟩
  · intro i
    rcases eq_or_ne i call.slot with rfl | hne
    · simp only [Function.update_self]
      refine .pending rfl rfl ?_ rfl ?_ fun m hm => (h.taken_lt hm).ne
      · cases h.stage call.slot <;> first | contradiction | assumption
      · intro hsome
        have hsome : call.cycle.isSome := by simpa [hslot', DecodeSlot.submit, hcycle] using hsome
        simp [hslot', DecodeSlot.submit, hsome]
    · simp only [Function.update_of_ne hne]
      exact (h.stage i).mono rfl rfl (List.Subset.refl _) id
  · intro i hi
    rcases eq_or_ne i call.slot with rfl | hne
    · simp only [Function.update_self]
      refine ⟨?_, h.returnsOf_length⟩
      rw [hcall]
      exact List.getElem?_concat_length
    · simp only [Function.update_of_ne hne] at hi ⊢
      obtain ⟨hcall', hnil⟩ := h.current i hi
      exact ⟨hlt _ _ hcall', hnil⟩
  · intro m hm
    have hrun := h.running m hm
    have hne : m.slot ≠ call.slot := by
      intro heq
      rw [heq] at hrun
      exact hw hrun.1
    simp only [Function.update_of_ne hne]
    exact hrun
  · intro m hm
    obtain ⟨call', hcall', hmem⟩ := h.own m hm
    exact ⟨call', hlt _ _ hcall', hmem⟩
  · intro k call' hk hwait
    rcases eq_or_ne k s.calls.length with rfl | hne
    · obtain rfl : call = call' := by simpa using hk
      exact absurd ⟨by simp [hslot', DecodeSlot.submit], by simp [hslot', DecodeSlot.submit]⟩ hwait
    · have hk' : s.calls[k]? = some call' := by
        rw [← hk, List.getElem?_append_left]
        have := (List.getElem?_eq_some_iff.mp hk).1
        simp only [List.length_append, List.length_singleton] at this
        omega
      refine h.closed k call' hk' fun hold => hwait ?_
      have hslot : call'.slot ≠ call.slot := by
        intro heq
        rw [Waiting, heq] at hold
        exact hw hold.1
      simpa [Waiting, Function.update_of_ne hslot] using hold
  · intro r hr
    exact (h.fresh r hr).trans (by simp)

/-- **A token that is withdrawn.** -/
theorem Ledger.withdrawn (h : s.Ledger c) {err : String}
    (hp : (s.slots i).decodePending = true)
    (hcause : s.stopRequested = true ∨ (s.slots i).cancelled = true)
    (hs' : s' = { s with
      slots := Function.update s.slots i ((s.slots i).withdraw err)
      decodePending := s.decodePending - 1 }) : s'.Ledger c := by
  subst hs'
  obtain ⟨hw, hf, hc, ht⟩ : (s.slots i).worker = .decoding ∧ (s.slots i).decodeInFlight = false ∧
      ((s.slots i).decodeCycle.isSome → (s.slots i).decodeCarry = -1) ∧
      ∀ m ∈ s.taken, m.call ≠ (s.slots i).decodeCall := by
    cases h.stage i with
    | pending hw _ hf _ hc ht => exact ⟨hw, hf, hc, ht⟩
    | away _ hp' => simp [hp'] at hp
    | inFlight _ hp' => simp [hp'] at hp
    | withdrawn _ hp' => simp [hp'] at hp
    | evaluated _ hp' => simp [hp'] at hp
  refine ⟨?_, ?_, ?_, h.once, h.own, ?_, h.fresh⟩
  · intro j
    rcases eq_or_ne j i with rfl | hne
    · simp only [Function.update_self]
      exact .withdrawn hw rfl hf rfl hc rfl hcause ht
    · simp only [Function.update_of_ne hne]
      exact (h.stage j).mono rfl rfl (List.Subset.refl _) id
  · intro j hj
    rcases eq_or_ne j i with rfl | hne
    · simp only [Function.update_self]
      exact h.current j hw
    · simp only [Function.update_of_ne hne] at hj ⊢
      exact h.current j hj
  · intro m hm
    have hrun := h.running m hm
    have hne : m.slot ≠ i := by
      rintro rfl
      simp [hf] at hrun
    simp only [Function.update_of_ne hne]
    exact hrun
  · intro k call hk hwait
    refine h.closed k call hk fun hold => hwait ?_
    rcases eq_or_ne call.slot i with heq | hne
    · rw [Waiting, heq] at hold
      simpa [Waiting, heq, DecodeSlot.withdraw] using hold
    · simpa [Waiting, Function.update_of_ne hne] using hold

theorem Ledger.result_right (h : s.Ledger c) (hw : (s.slots i).worker = .decoding)
    (hd : (s.slots i).decodeDone = true) :
    s.Right c (s.slots i).decodeCall ((s.slots i).asCall i) (s.result (s.slots i)) := by
  have hcarry : ∀ carry, ((s.slots i).decodeCycle.isSome → (s.slots i).decodeCarry = carry) →
      ((s.slots i).decodeCycle.map fun _ => (s.slots i).decodeCarry) =
        (s.slots i).decodeCycle.map fun _ => carry := by
    intro carry hc
    cases hcy : (s.slots i).decodeCycle with
    | none => rfl
    | some cycle => simp [hc (by simp [hcy])]
  cases h.stage i with
  | away hw' => contradiction
  | pending _ _ _ hd' => simp [hd'] at hd
  | inFlight _ _ _ hd' => simp [hd'] at hd
  | withdrawn hw hp hf hd hc hrc hcause ht =>
    refine .inl ⟨ht, ?_, ?_, hcarry _ hc, hcause⟩
    · simp [Coordinator.result, hrc, sessionSyncInterrupted]
    · simp [Coordinator.result, hrc, sessionSyncInterrupted]
  | evaluated hw hp hf hd f hfin m hm hrc ha hc =>
    refine .inr ⟨f, hfin, m, hm, ?_, ?_, hcarry _ hc⟩
    · simp [Coordinator.result, hrc]
    · simp only [Coordinator.result, hrc, Bool.and_eq_true, beq_iff_eq]
      split_ifs with hstop hzero hzero
      · simp [sessionSyncInterrupted] at hzero
      · rfl
      · exact ha hzero
      · rfl

/-- **A call that returns its result.** -/
theorem Ledger.answer (h : s.Ledger c) (hw : (s.slots i).worker = .decoding)
    (hd : (s.slots i).decodeDone = true) : (s.answer i (s.slots i)).Ledger c := by
  set s' := s.answer i (s.slots i)
  obtain ⟨hcall, hnil⟩ := h.current i hw
  have hslot : s'.slots i = (s.slots i).answer := by simp [s', Coordinator.answer]
  have hother : ∀ j, j ≠ i → s'.slots j = s.slots j := by
    intro j hj
    simp [s', Coordinator.answer, Function.update_of_ne hj]
  have hret := @returnsOf_push s s' (s.result (s.slots i)) rfl
  have hresult : (s.result (s.slots i)).call = (s.slots i).decodeCall := rfl
  refine ⟨?_, ?_, ?_, h.once, h.own, ?_, ?_⟩
  · intro j
    rcases eq_or_ne j i with rfl | hne
    · rw [hslot]
      cases h.stage j with
      | away _ hp hf => exact .away (by simp [DecodeSlot.answer]) hp hf rfl
      | pending _ _ _ hd' => simp [hd'] at hd
      | inFlight _ _ _ hd' => simp [hd'] at hd
      | withdrawn _ hp hf => exact .away (by simp [DecodeSlot.answer]) hp hf rfl
      | evaluated _ hp hf => exact .away (by simp [DecodeSlot.answer]) hp hf rfl
    · rw [hother j hne]
      exact (h.stage j).mono rfl rfl (List.Subset.refl _) id
  · intro j hj
    have hne : j ≠ i := by
      rintro rfl
      simp [hslot, DecodeSlot.answer] at hj
    rw [hother j hne] at hj ⊢
    obtain ⟨hcall', hnil'⟩ := h.current j hj
    refine ⟨hcall', ?_⟩
    rw [hret, hresult, if_neg fun heq => hne (h.eq_of_call hj hw heq.symm)]
    exact hnil'
  · intro m hm
    have hrun := h.running m hm
    have hne : m.slot ≠ i := by
      intro heq
      rw [heq] at hrun
      cases h.stage i <;> simp_all
    rw [hother _ hne]
    exact hrun
  · intro k call hk hwait
    rw [hret, hresult]
    split_ifs with hkc
    · subst hkc
      obtain rfl := Option.some.inj (hcall.symm.trans hk)
      exact ⟨_, by rw [hnil]; rfl, h.result_right hw hd⟩
    · refine h.closed k call hk fun hold => hwait ?_
      have hne : call.slot ≠ i := by
        intro heq
        rw [Waiting, heq] at hold
        exact hkc hold.2
      rw [Waiting, hother _ hne]
      exact hold
  · intro r hr
    rcases List.mem_append.mp hr with hr | hr
    · exact h.fresh r hr
    · obtain rfl := List.mem_singleton.mp hr
      exact (List.getElem?_eq_some_iff.mp hcall).1

/-! ## Batches -/

theorem mem_nextBatch {m : DecodeMember} :
    m ∈ (s.nextBatch c).members ↔
      ∃ i < c.decodeSlots, (s.slots i).decodePending = true ∧ (s.slots i).member i = m := by
  have hgroup : ∀ speculative, m ∈ s.group c speculative ↔ ∃ i < c.decodeSlots,
      ((s.slots i).decodePending = true ∧ (s.slots i).decodeSpeculative = speculative) ∧
        (s.slots i).member i = m := by
    intro speculative
    simp [group, and_assoc]
  simp only [nextBatch, List.mem_append, hgroup]
  constructor
  · rintro (⟨i, hi, ⟨hp, -⟩, hm⟩ | ⟨i, hi, ⟨hp, -⟩, hm⟩) <;> exact ⟨i, hi, hp, hm⟩
  · rintro ⟨i, hi, hp, hm⟩
    cases hspec : (s.slots i).decodeSpeculative with
    | false => exact .inl ⟨i, hi, ⟨hp, hspec⟩, hm⟩
    | true => exact .inr ⟨i, hi, ⟨hp, hspec⟩, hm⟩

theorem nextBatch_length :
    (s.nextBatch c).members.length = tally DecodeSlot.decodePending c.decodeSlots s.slots := by
  rw [nextBatch, List.length_append, ← tally_split (q := DecodeSlot.decodeSpeculative)]
  simp only [group, List.length_map, ← List.countP_eq_length_filter, tally]
  congr 1 <;>
  · refine List.countP_congr fun i _ => ?_
    cases (s.slots i).decodeSpeculative <;> simp

theorem nextBatch_slots_nodup : ((s.nextBatch c).members.map DecodeMember.slot).Nodup := by
  have hslots : ∀ speculative, (s.group c speculative).map DecodeMember.slot =
      (List.range c.decodeSlots).filter fun i =>
        (s.slots i).decodePending && (s.slots i).decodeSpeculative == speculative := by
    intro speculative
    simp [group, Function.comp_def, DecodeSlot.member]
  rw [nextBatch, List.map_append, hslots, hslots]
  refine List.nodup_append.mpr ⟨List.nodup_range.filter _, List.nodup_range.filter _, ?_⟩
  intro i hi j hj
  simp only [List.mem_filter, Bool.and_eq_true, beq_iff_eq] at hi hj
  rintro rfl
  simp [hi.2.2] at hj

theorem Ledger.pending (h : s.Ledger c) (hp : (s.slots i).decodePending = true) :
    (s.slots i).worker = .decoding ∧ (s.slots i).decodeInFlight = false ∧
      (s.slots i).decodeDone = false ∧
      ((s.slots i).decodeCycle.isSome → (s.slots i).decodeCarry = -1) ∧
      ∀ m ∈ s.taken, m.call ≠ (s.slots i).decodeCall := by
  cases h.stage i with
  | pending hw _ hf hd hc ht => exact ⟨hw, hf, hd, hc, ht⟩
  | away _ hp' => simp [hp'] at hp
  | inFlight _ hp' => simp [hp'] at hp
  | withdrawn _ hp' => simp [hp'] at hp
  | evaluated _ hp' => simp [hp'] at hp

theorem Ledger.nextBatch_nodup (h : s.Ledger c) :
    ((s.nextBatch c).members.map DecodeMember.call).Nodup := by
  have hslots := nextBatch_slots_nodup (s := s) (c := c)
  rw [List.Nodup, List.pairwise_map] at hslots ⊢
  refine hslots.imp_of_mem fun {a b} ha hb hne hcall => hne ?_
  obtain ⟨i, -, hi, rfl⟩ := mem_nextBatch.1 ha
  obtain ⟨j, -, hj, rfl⟩ := mem_nextBatch.1 hb
  exact h.eq_of_call (h.pending hi).1 (h.pending hj).1 hcall

/-- **A batch takes the pending tokens.** -/
theorem Ledger.form (h : s.Ledger c) (hphase : s.phase = .ready) : (s.form c).Ledger c := by
  have hidle : s.running = [] := by rw [Coordinator.running, hphase]
  unfold Coordinator.form
  split_ifs with hnone
  · exact h.kept (fun i => .refl _) hidle.symm rfl rfl rfl id
  set members := (s.nextBatch c).members with hmembers
  generalize hs' : ({ s with
    slots := fun i =>
      if i < c.decodeSlots ∧ (s.slots i).decodePending then (s.slots i).take else s.slots i
    decodePending := s.decodePending - (s.nextBatch c).members.length
    modelBusy := true
    phase := .batch (s.nextBatch c) } : Coordinator) = s'
  have hslots : ∀ i, s'.slots i =
      if i < c.decodeSlots ∧ (s.slots i).decodePending then (s.slots i).take else s.slots i := by
    intro i
    rw [← hs']
  have hrunning : s'.running = members := by rw [← hs', hmembers]; rfl
  have hfinished : s'.finished = s.finished := by rw [← hs']
  have hcalls : s'.calls = s.calls := by rw [← hs']
  have hreturns : s'.returns = s.returns := by rw [← hs']
  have hstop : s'.stopRequested = s.stopRequested := by rw [← hs']
  have hret : ∀ k, s'.returnsOf k = s.returnsOf k := fun k => by rw [returnsOf, returnsOf, hreturns]
  have htaken : s'.taken = s.taken ++ members := by
    rw [taken, taken, hrunning, hfinished, hidle, List.append_nil]
  have hworker : ∀ i, (s'.slots i).worker = (s.slots i).worker ∧
      (s'.slots i).decodeCall = (s.slots i).decodeCall ∧
      (s'.slots i).asCall i = (s.slots i).asCall i ∧
      (s'.slots i).member i = (s.slots i).member i := by
    intro i
    rw [hslots]
    split_ifs <;> exact ⟨rfl, rfl, rfl, rfl⟩
  -- a call that is not pending is not in the new batch
  have hnew : ∀ i, (s.slots i).worker = .decoding → (s.slots i).decodePending = false →
      ∀ m ∈ members, m.call ≠ (s.slots i).decodeCall := by
    intro i hw hp m hm hcall
    obtain ⟨j, -, hj, rfl⟩ := mem_nextBatch.1 hm
    obtain rfl := h.eq_of_call (h.pending hj).1 hw hcall
    simp [hp] at hj
  refine ⟨?_, ?_, ?_, ?_, ?_, ?_, ?_⟩
  · intro i
    rw [hslots]
    split_ifs with htake
    · obtain ⟨hw, hf, hd, hc, -⟩ := h.pending htake.2
      refine .inFlight hw rfl rfl hd hc ?_
      rw [hrunning]
      exact mem_nextBatch.2 ⟨i, htake.1, htake.2, rfl⟩
    · cases h.stage i with
      | away hw hp hf hc => exact .away hw hp hf hc
      | pending hw hp hf hd hc ht =>
        refine .pending hw hp hf hd hc ?_
        rw [htaken]
        intro m hm
        rcases List.mem_append.mp hm with hm | hm
        · exact ht m hm
        · obtain ⟨j, hj, hpj, rfl⟩ := mem_nextBatch.1 hm
          intro hcall
          obtain rfl := h.eq_of_call (h.pending hpj).1 hw hcall
          exact htake ⟨hj, hpj⟩
      | inFlight hw hp hf hd hc hm => simp [hidle] at hm
      | withdrawn hw hp hf hd hc hrc hcause ht =>
        refine .withdrawn hw hp hf hd hc hrc (hstop.symm ▸ hcause) ?_
        rw [htaken]
        intro m hm
        rcases List.mem_append.mp hm with hm | hm
        · exact ht m hm
        · exact hnew i hw hp m hm
      | evaluated hw hp hf hd f hfin m hm hrc ha hc =>
        exact .evaluated hw hp hf hd f (hfinished.symm ▸ hfin) m hm hrc ha hc
  · intro i hi
    obtain ⟨hw, hcall, hasCall, -⟩ := hworker i
    rw [hcalls, hcall, hasCall, hret]
    exact h.current i (hw ▸ hi)
  · intro m hm
    rw [hrunning] at hm
    obtain ⟨i, hi, hp, rfl⟩ := mem_nextBatch.1 hm
    show (s'.slots i).worker = _ ∧ (s'.slots i).decodeInFlight = _ ∧ (s'.slots i).member i = _
    rw [(hworker i).1, (hworker i).2.2.2]
    refine ⟨(h.pending hp).1, ?_, rfl⟩
    rw [hslots, if_pos ⟨hi, hp⟩]
    rfl
  · rw [htaken, List.map_append]
    refine List.nodup_append.mpr ⟨h.once, h.nextBatch_nodup, ?_⟩
    intro k hk k' hk'
    obtain ⟨m, hm, rfl⟩ := List.mem_map.mp hk
    obtain ⟨m', hm', rfl⟩ := List.mem_map.mp hk'
    obtain ⟨i, -, hp, rfl⟩ := mem_nextBatch.1 hm'
    exact (h.pending hp).2.2.2.2 m hm
  · rw [htaken, hcalls]
    intro m hm
    rcases List.mem_append.mp hm with hm | hm
    · exact h.own m hm
    · obtain ⟨i, -, hp, rfl⟩ := mem_nextBatch.1 hm
      exact ⟨_, (h.current i (h.pending hp).1).1, rfl⟩
  · intro k call hk hwait
    rw [hcalls] at hk
    rw [hret]
    have hwait' : ¬ s.Waiting k call := by
      rintro ⟨hw, hcall⟩
      exact hwait ⟨(hworker _).1.trans hw, (hworker _).2.1.trans hcall⟩
    obtain ⟨r, hr, hright⟩ := h.closed k call hk hwait'
    refine ⟨r, hr, ?_⟩
    rw [Right, htaken, hfinished]
    refine hright.imp_left fun ⟨hnot, hint⟩ => ⟨fun m hm => ?_, hint⟩
    rcases List.mem_append.mp hm with hm | hm
    · exact hnot m hm
    · rintro rfl
      obtain ⟨i, -, hp, rfl⟩ := mem_nextBatch.1 hm
      exact hwait' (h.waiting (h.pending hp).1 hk)
  · rw [hcalls, hreturns]
    exact h.fresh

/-- **A batch gives each member its result.** -/
theorem Ledger.finish {b : DecodeBatch} (h : s.Ledger c) (hphase : s.phase = .batch b)
    (e : EngineAnswers) : (s.finish c b e).Ledger c := by
  have hbatch : s.running = b.members := by rw [Coordinator.running, hphase]
  set s' := s.finish c b e with hs'
  set f : FinishedBatch := ⟨b, s.blockSlot, e⟩ with hf
  have htaken : s'.taken = s.taken := by
    rw [taken, taken, hbatch, hs', Coordinator.finish, Coordinator.running]
    simp
  have hfinished : s'.finished = s.finished ++ [f] := rfl
  have hmem : f ∈ s'.finished := by simp [hfinished]
  have hret : ∀ k, s'.returnsOf k = s.returnsOf k := fun k => rfl
  have hslots : ∀ i, s'.slots i = s.slots i ∧ (∀ m ∈ b.members, m.slot ≠ i) ∨
      ∃ m, b.members[m]? = some ((s.slots i).member i) ∧ s'.slots i =
        (s.slots i).finish (f.rc c) (f.accepted c m) (f.carry c m) e.batchErr := by
    intro i
    cases hfind : b.members.findIdx? fun m => m.slot == i with
    | none =>
      refine .inl ⟨by simp [hs', Coordinator.finish, hfind], fun m hm => ?_⟩
      simpa using List.findIdx?_eq_none_iff.mp hfind m hm
    | some m =>
      obtain ⟨hlt, hslot, -⟩ := List.findIdx?_eq_some_iff_getElem.mp hfind
      have hslot : b.members[m].slot = i := by simpa using hslot
      obtain ⟨-, -, hmember⟩ := h.running b.members[m] (by rw [hbatch]; exact List.getElem_mem hlt)
      rw [hslot] at hmember
      refine .inr ⟨m, ?_, by simp [hs', Coordinator.finish, hfind, hf, FinishedBatch.rc,
        FinishedBatch.accepted, FinishedBatch.carry]⟩
      rw [hmember]
      exact List.getElem?_eq_getElem hlt
  have hworker : ∀ i, (s'.slots i).worker = (s.slots i).worker ∧
      (s'.slots i).decodeCall = (s.slots i).decodeCall ∧
      (s'.slots i).asCall i = (s.slots i).asCall i ∧
      (s'.slots i).member i = (s.slots i).member i := by
    intro i
    rcases hslots i with ⟨heq, -⟩ | ⟨m, -, heq⟩
    · simp [heq]
    · rw [heq]
      exact ⟨rfl, rfl, rfl, rfl⟩
  refine ⟨?_, ?_, ?_, by rw [htaken]; exact h.once, by rw [htaken]; exact h.own, ?_, h.fresh⟩
  · intro i
    rcases hslots i with ⟨heq, hnot⟩ | ⟨m, hm, heq⟩
    · rw [heq]
      cases h.stage i with
      | away hw hp hf hc => exact .away hw hp hf hc
      | pending hw hp hf hd hc ht => exact .pending hw hp hf hd hc (by rwa [htaken])
      | inFlight hw hp hf hd hc hm => exact absurd rfl (hnot _ (hbatch ▸ hm))
      | withdrawn hw hp hf hd hc hrc hcause ht =>
        exact .withdrawn hw hp hf hd hc hrc hcause (by rwa [htaken])
      | evaluated hw hp hf hd f' hfin m hm hrc ha hc =>
        exact .evaluated hw hp hf hd f' (List.mem_append_left _ hfin) m hm hrc ha hc
    · have hrun := h.running _ (hbatch ▸ List.mem_of_getElem? hm)
      change (s.slots i).worker = _ ∧ (s.slots i).decodeInFlight = _ ∧ _ at hrun
      obtain ⟨hp, hc⟩ : (s.slots i).decodePending = false ∧
          ((s.slots i).decodeCycle.isSome → (s.slots i).decodeCarry = -1) := by
        cases h.stage i <;> simp_all
      rw [heq]
      refine .evaluated hrun.1 hp rfl rfl f hmem m hm rfl ?_ ?_
      · intro hrc
        simp [DecodeSlot.finish, hrc]
      · intro hcycle
        simp only [DecodeSlot.finish]
        split_ifs
        · rfl
        · exact hc hcycle
  · intro i hi
    obtain ⟨hw, hcall, hasCall, -⟩ := hworker i
    rw [hcall, hasCall, hret]
    exact h.current i (hw ▸ hi)
  · intro m hm
    simp [hs', Coordinator.finish, Coordinator.running] at hm
  · intro k call hk hwait
    have hwait' : ¬ s.Waiting k call := by
      rintro ⟨hw, hcall⟩
      exact hwait ⟨(hworker _).1.trans hw, (hworker _).2.1.trans hcall⟩
    obtain ⟨r, hr, hright⟩ := h.closed k call hk hwait'
    refine ⟨r, hr, ?_⟩
    rw [Right, htaken]
    exact hright.imp_right fun ⟨f', hf', hfrom⟩ => ⟨f', List.mem_append_left _ hf', hfrom⟩

/-! ## The counts -/

/-- **A step that changes one slot.** -/
theorem Counts.slot (h : s.Counts c) {slot' : DecodeSlot} (hi : i < c.decodeSlots)
    (hslots : s'.slots = Function.update s.slots i slot')
    (hpending : s'.decodePending + (s.slots i).decodePending.toNat =
      s.decodePending + slot'.decodePending.toNat)
    (hbusy : s'.modelBusy.toNat + (holds (s.slots i)).toNat = s.modelBusy.toNat + (holds slot').toNat)
    (heval : s'.evaluating = s.evaluating) : s'.Counts c := by
  refine ⟨?_, ?_, ?_⟩
  · have htally := tally_update (p := DecodeSlot.decodePending) (f := s.slots) (x := slot') hi
    have hcount := h.pending
    rw [hslots]
    omega
  · have htally := tally_update (p := holds) (f := s.slots) (x := slot') hi
    have hcount := h.holders
    rw [hslots, heval]
    omega
  · intro j hj
    rcases eq_or_ne j i with rfl | hne
    · exact hi
    · rw [hslots, Function.update_of_ne hne] at hj
      exact h.bound j hj

theorem Counts.same (h : s.Counts c) (hslots : s'.slots = s.slots)
    (hpending : s'.decodePending = s.decodePending) (hbusy : s'.modelBusy = s.modelBusy)
    (heval : s'.evaluating = s.evaluating) : s'.Counts c := by
  refine ⟨?_, ?_, ?_⟩
  · rw [hslots, hpending]
    exact h.pending
  · rw [hslots, heval, hbusy]
    exact h.holders
  · rw [hslots]
    exact h.bound

theorem Counts.form (h : s.Counts c) (hphase : s.phase = .ready) (hbusy : s.modelBusy = false) :
    (s.form c).Counts c := by
  have heval : s.evaluating = false := by rw [evaluating, hphase]
  unfold Coordinator.form
  split_ifs with hnone
  · exact h.same rfl rfl rfl heval.symm
  refine ⟨?_, ?_, ?_⟩
  · have hzero : tally DecodeSlot.decodePending c.decodeSlots (fun i =>
        if i < c.decodeSlots ∧ (s.slots i).decodePending then (s.slots i).take else s.slots i) = 0 := by
      refine tally_eq_zero.2 fun i hi => ?_
      split_ifs with htake
      · rfl
      · simpa [hi] using htake
    show s.decodePending - ((s.nextBatch c).members.length : Int) = _
    rw [hzero, h.pending, nextBatch_length]
    omega
  · have hsame : tally holds c.decodeSlots (fun i =>
        if i < c.decodeSlots ∧ (s.slots i).decodePending then (s.slots i).take else s.slots i) =
        tally holds c.decodeSlots s.slots := by
      refine tally_congr fun i _ => ?_
      split_ifs <;> rfl
    have hcount := h.holders
    rw [hbusy, heval] at hcount
    show tally holds c.decodeSlots _ + 1 = 1
    rw [hsame]
    simpa using hcount
  · intro i hi
    refine h.bound i ?_
    dsimp only at hi
    split_ifs at hi <;> exact hi

theorem Counts.finish {b : DecodeBatch} (h : s.Counts c) (hphase : s.phase = .batch b)
    (e : EngineAnswers) : (s.finish c b e).Counts c := by
  have hslots : ∀ i, ((s.finish c b e).slots i).worker = (s.slots i).worker ∧
      ((s.finish c b e).slots i).decodePending = (s.slots i).decodePending := by
    intro i
    dsimp only [Coordinator.finish]
    split <;> exact ⟨rfl, rfl⟩
  refine ⟨?_, ?_, ?_⟩
  · rw [tally_congr fun i _ => (hslots i).2]
    exact h.pending
  · have hsame : tally holds c.decodeSlots (s.finish c b e).slots =
        tally holds c.decodeSlots s.slots :=
      tally_congr fun i _ => by rw [holds, holds, (hslots i).1]
    have hcount := h.holders
    have hle := Bool.toNat_le s.modelBusy
    rw [hsame]
    simp only [evaluating, hphase, Bool.toNat_true] at hcount
    show tally holds c.decodeSlots s.slots + 0 = 0
    omega
  · intro i hi
    exact h.bound i ((hslots i).1 ▸ hi)

/-! ## The steps -/

/-- The workers end before the coordinator is stopped. -/
structure Ordered (s : Coordinator) (c : DecodeConfig) : Prop where
  stopping : s.modelStopping = true → ∀ i < c.decodeSlots, (s.slots i).worker = .exited
  exited : s.phase = .exited → s.modelStopping = true

/-- The invariant. -/
structure Inv (s : Coordinator) (c : DecodeConfig) : Prop where
  ledger : s.Ledger c
  counts : s.Counts c
  ordered : s.Ordered c

theorem inv_init (c : DecodeConfig) : (init c).Inv c := by
  refine ⟨⟨?_, ?_, ?_, List.nodup_nil, ?_, ?_, ?_⟩, ⟨?_, ?_, ?_⟩, ⟨?_, ?_⟩⟩
  · intro i
    exact .away (by simp [init, DecodeSlot.init]) rfl rfl rfl
  · intro i hi
    simp [init, DecodeSlot.init] at hi
  · intro m hm
    simp [init, running] at hm
  · intro m hm
    simp [init, taken, running] at hm
  · intro k call hk
    simp [init] at hk
  · intro r hr
    simp [init] at hr
  · have hzero : tally DecodeSlot.decodePending c.decodeSlots (init c).slots = 0 :=
      tally_eq_zero.2 fun i _ => rfl
    rw [hzero]
    rfl
  · have hzero : tally holds c.decodeSlots (init c).slots = 0 := tally_eq_zero.2 fun i _ => rfl
    rw [hzero]
    rfl
  · intro i hi
    simp [init, DecodeSlot.init] at hi
  · intro h
    simp [init] at h
  · intro h
    simp [init] at h

theorem Kept.away {slot : DecodeSlot} (hw : slot.worker ≠ .decoding) {w : Worker}
    (hw' : w ≠ .decoding) (waiting cancelled : Bool) :
    Kept slot { slot with prefillWaiting := waiting, cancelled := cancelled, worker := w } :=
  ⟨iff_of_false hw' hw, rfl, rfl, rfl, rfl, rfl, rfl, rfl, fun _ => rfl, rfl,
    fun h => absurd h hw⟩

theorem Kept.cancel (slot : DecodeSlot) : Kept slot { slot with cancelled := true } :=
  ⟨.rfl, rfl, rfl, rfl, rfl, rfl, rfl, rfl, fun _ => rfl, rfl, fun _ _ => rfl⟩

theorem kept_update {slot' : DecodeSlot} (hk : Kept (s.slots i) slot') (j : Nat) :
    Kept (s.slots j) (Function.update s.slots i slot' j) := by
  rcases eq_or_ne j i with rfl | hne
  · rwa [Function.update_self]
  · rw [Function.update_of_ne hne]
    exact .refl _

theorem Ordered.slot (h : s.Ordered c) {slot' : DecodeSlot}
    (hslots : s'.slots = Function.update s.slots i slot')
    (hexit : (s.slots i).worker = .exited → slot'.worker = .exited)
    (hstop : s'.modelStopping = s.modelStopping) (hphase : s'.phase = s.phase) : s'.Ordered c := by
  refine ⟨fun hs j hj => ?_, fun hp => hstop.trans (h.exited (hphase ▸ hp))⟩
  have hold := h.stopping (hstop ▸ hs) j hj
  rw [hslots]
  rcases eq_or_ne j i with rfl | hne
  · rw [Function.update_self]
    exact hexit hold
  · rwa [Function.update_of_ne hne]

/-- **A step of a worker that is in no call, or of its client.** -/
theorem Inv.other (h : s.Inv c) (hi : i < c.decodeSlots) {slot' : DecodeSlot}
    (hk : Kept (s.slots i) slot') (hexit : (s.slots i).worker = .exited → slot'.worker = .exited)
    (busy : Bool) (last : Nat)
    (hbusy : busy.toNat + (holds (s.slots i)).toNat = s.modelBusy.toNat + (holds slot').toNat)
    (hs' : s' = { s with
      slots := Function.update s.slots i slot'
      modelBusy := busy
      lastPrefillSlot := last }) : s'.Inv c := by
  subst hs'
  refine ⟨h.ledger.kept (kept_update hk) rfl rfl rfl rfl id, ?_, h.ordered.slot rfl hexit rfl rfl⟩
  exact h.counts.slot hi rfl (by simp [hk.pending]) hbusy rfl

/-- **A call of a worker.** -/
theorem Inv.evalTokens (h : s.Inv c) (hi : call.slot < c.decodeSlots)
    (hw : (s.slots call.slot).worker = .idle) : (s.evalTokens call).Inv c := by
  have hdec : (s.slots call.slot).worker ≠ .decoding := by simp [hw]
  obtain ⟨hp, hf⟩ : (s.slots call.slot).decodePending = false ∧
      (s.slots call.slot).decodeInFlight = false := by
    cases h.ledger.stage call.slot <;> first | contradiction | exact ⟨‹_›, ‹_›⟩
  unfold Coordinator.evalTokens
  simp only [hp, hf, Bool.or_self, Bool.false_eq_true, if_false]
  split_ifs with hcause
  · simp only [Bool.or_eq_true] at hcause
    exact ⟨h.ledger.refuse hcause, h.counts.same rfl rfl rfl rfl, h.ordered.stopping,
      h.ordered.exited⟩
  · refine ⟨h.ledger.submit hdec rfl, ?_, h.ordered.slot rfl (by simp [hw]) rfl rfl⟩
    refine h.counts.slot hi rfl ?_ ?_ rfl
    · simp [hp, DecodeSlot.submit]
    · simp [holds, hw, DecodeSlot.submit]

/-- **A token that is withdrawn.** -/
theorem Inv.withdrawn (h : s.Inv c) {err : String} (hp : (s.slots i).decodePending = true)
    (hcause : s.stopRequested = true ∨ (s.slots i).cancelled = true)
    (hs' : s' = { s with
      slots := Function.update s.slots i ((s.slots i).withdraw err)
      decodePending := s.decodePending - 1 }) : s'.Inv c := by
  have hw := (h.ledger.pending hp).1
  have hi : i < c.decodeSlots := h.counts.bound i (by simp [hw])
  refine ⟨h.ledger.withdrawn hp hcause hs', ?_, ?_⟩
  · subst hs'
    refine h.counts.slot hi rfl ?_ ?_ rfl
    · simp [hp, DecodeSlot.withdraw]
    · rfl
  · subst hs'
    exact h.ordered.slot rfl id rfl rfl

/-- **A call that returns its result.** -/
theorem Inv.answer (h : s.Inv c) (hw : (s.slots i).worker = .decoding)
    (hd : (s.slots i).decodeDone = true) : (s.answer i (s.slots i)).Inv c := by
  have hi : i < c.decodeSlots := h.counts.bound i (by simp [hw])
  refine ⟨h.ledger.answer hw hd, ?_, h.ordered.slot rfl (by simp [hw]) rfl rfl⟩
  refine h.counts.slot hi rfl ?_ ?_ rfl
  · simp [Coordinator.answer, DecodeSlot.answer]
  · simp [holds, hw, Coordinator.answer, DecodeSlot.answer]

theorem Inv.withdraw (h : s.Inv c) (hp : (s.slots i).decodePending = true)
    (hcause : s.stopRequested = true ∨ (s.slots i).cancelled = true) : (s.withdraw i).Inv c := by
  have hw := (h.ledger.pending hp).1
  let err := if (s.slots i).cancelled then "client disconnected" else "shutdown requested"
  have hwithdrawn := @Inv.withdrawn _ _ _ _ h err hp hcause rfl
  have hanswer := @Inv.answer _ _ i hwithdrawn (by simpa [DecodeSlot.withdraw] using hw) (by simp [DecodeSlot.withdraw])
  simpa [Coordinator.withdraw, Coordinator.answer, Coordinator.result] using hanswer

theorem Inv.form (h : s.Inv c) (hphase : s.phase = .ready) (hbusy : s.modelBusy = false) :
    (s.form c).Inv c := by
  refine ⟨h.ledger.form hphase, h.counts.form hphase hbusy, ?_⟩
  unfold Coordinator.form
  split_ifs
  · exact ⟨h.ordered.stopping, fun hp => by cases hp⟩
  · refine ⟨fun hs j hj => ?_, fun hp => by cases hp⟩
    have hold := h.ordered.stopping hs j hj
    dsimp only
    split_ifs <;> exact hold

theorem Inv.finish {b : DecodeBatch} (h : s.Inv c) (hphase : s.phase = .batch b)
    (e : EngineAnswers) : (s.finish c b e).Inv c := by
  refine ⟨h.ledger.finish hphase e, h.counts.finish hphase e, fun hs j hj => ?_,
    fun hp => by cases hp⟩
  have hold := h.ordered.stopping hs j hj
  dsimp only [Coordinator.finish]
  split <;> exact hold

/-- **Each step keeps the invariant.** -/
theorem Inv.step (h : s.Inv c) {e : Step} (hs : s.step c e = some s') : s'.Inv c := by
  cases e with
  | evalTokens i token speculative =>
    simp only [Coordinator.step, Option.ite_none_right_eq_some, Option.some.injEq] at hs
    obtain ⟨⟨hi, hw⟩, rfl⟩ := hs
    exact h.evalTokens hi hw
  | evalCycle i token cycle =>
    simp only [Coordinator.step, Option.ite_none_right_eq_some, Option.some.injEq] at hs
    obtain ⟨⟨hi, hw⟩, rfl⟩ := hs
    exact h.evalTokens hi hw
  | withdraw i =>
    simp only [Coordinator.step, Option.ite_none_right_eq_some, Option.some.injEq] at hs
    obtain ⟨⟨-, -, hcause, hp, -⟩, rfl⟩ := hs
    exact h.withdraw hp hcause.symm
  | answer i =>
    simp only [Coordinator.step, Option.ite_none_right_eq_some, Option.some.injEq] at hs
    obtain ⟨⟨hw, hd⟩, rfl⟩ := hs
    exact h.answer hw hd
  | cancel i =>
    simp only [Coordinator.step, Option.ite_none_right_eq_some, Option.some.injEq] at hs
    obtain ⟨hi, rfl⟩ := hs
    exact h.other hi (.cancel _) id _ _ rfl rfl
  | disconnect i =>
    simp only [Coordinator.step, Option.ite_none_right_eq_some, Option.some.injEq] at hs
    obtain ⟨hcancelled, rfl⟩ := hs
    simp only [Coordinator.disconnect]
    split_ifs with hp
    · simp only [Bool.and_eq_true] at hp
      exact h.withdrawn hp.1 (.inr hcancelled) rfl
    · exact h
  | nextJob i =>
    simp only [Coordinator.step, Option.ite_none_right_eq_some, Option.some.injEq] at hs
    obtain ⟨⟨hi, hw⟩, rfl⟩ := hs
    refine h.other hi (.away (w := (s.slots i).worker) ?_ ?_ (s.slots i).prefillWaiting false) id
      s.modelBusy s.lastPrefillSlot rfl rfl <;> simp [hw]
  | workerExit i =>
    simp only [Coordinator.step, Option.ite_none_right_eq_some, Option.some.injEq] at hs
    obtain ⟨⟨hi, hw⟩, rfl⟩ := hs
    refine h.other hi (.away (by simp [hw]) (by simp) _ _) (fun _ => rfl) _ _ ?_ rfl
    simp [holds, hw]
  | gather =>
    simp only [Coordinator.step, Option.ite_none_right_eq_some, Option.some.injEq] at hs
    obtain ⟨⟨hphase, -⟩, rfl⟩ := hs
    refine ⟨h.ledger.kept (fun i => .refl _) ?_ rfl rfl rfl id, h.counts.same rfl rfl rfl ?_,
      h.ordered.stopping, fun hp => by cases hp⟩
    · simp [running, hphase]
    · simp [evaluating, hphase]
  | coordinatorExit =>
    simp only [Coordinator.step, Option.ite_none_right_eq_some, Option.some.injEq] at hs
    obtain ⟨⟨hphase, -, hstop⟩, rfl⟩ := hs
    refine ⟨h.ledger.kept (fun i => .refl _) ?_ rfl rfl rfl id, h.counts.same rfl rfl rfl ?_,
      h.ordered.stopping, fun _ => hstop⟩
    · rcases hphase with hphase | hphase <;> simp [running, hphase]
    · rcases hphase with hphase | hphase <;> simp [evaluating, hphase]
  | form =>
    simp only [Coordinator.step, Option.ite_none_right_eq_some, Option.some.injEq] at hs
    obtain ⟨⟨hphase, hbusy⟩, rfl⟩ := hs
    exact h.form hphase hbusy
  | finish e =>
    simp only [Coordinator.step] at hs
    split at hs
    · next b hphase =>
      obtain rfl := Option.some.inj hs
      exact h.finish hphase e
    · cases hs
  | prefillEnter i =>
    simp only [Coordinator.step, Option.ite_none_right_eq_some, Option.some.injEq] at hs
    obtain ⟨⟨hi, hw, -⟩, rfl⟩ := hs
    refine h.other hi (.away (by simp [hw]) (by simp) _ _) (by simp [hw]) _ _ ?_ rfl
    simp [holds, hw]
  | prefillGiveUp i =>
    simp only [Coordinator.step, Option.ite_none_right_eq_some, Option.some.injEq] at hs
    obtain ⟨⟨hw, -⟩, rfl⟩ := hs
    refine h.other (h.counts.bound i (by simp [hw])) (.away (by simp [hw]) (by simp) _ _)
      (by simp [hw]) _ _ ?_ rfl
    simp [holds, hw]
  | prefillTake i yielding =>
    simp only [Coordinator.step, Option.ite_none_right_eq_some, Option.some.injEq] at hs
    obtain ⟨⟨hw, -, -, hbusy, -⟩, rfl⟩ := hs
    refine h.other (h.counts.bound i (by simp [hw])) (.away (by simp [hw]) (by simp) _ _)
      (by simp [hw]) _ _ ?_ rfl
    simp [holds, hw, hbusy]
  | prefillLeave i park =>
    simp only [Coordinator.step, Option.ite_none_right_eq_some, Option.some.injEq] at hs
    obtain ⟨hw, rfl⟩ := hs
    have hi := h.counts.bound i (by simp [hw])
    have hbusy : s.modelBusy = true := by
      have hcount := h.counts.holders
      have hpos : 0 < tally holds c.decodeSlots s.slots := tally_pos.2 ⟨i, hi, by simp [holds, hw]⟩
      have hle := Bool.toNat_le s.modelBusy
      cases hb : s.modelBusy
      · rw [hb] at hcount
        simp only [Bool.toNat_false] at hcount
        omega
      · rfl
    refine h.other hi (.away (w := if park then .parked else .idle) (by simp [hw]) ?_ _ _)
      (by simp [hw]) _ _ ?_ rfl
    · cases park <;> simp
    · cases park <;> simp [holds, hw, hbusy]
  | prefillResume i =>
    simp only [Coordinator.step, Option.ite_none_right_eq_some, Option.some.injEq] at hs
    obtain ⟨hw, rfl⟩ := hs
    refine h.other (h.counts.bound i (by simp [hw])) (.away (by simp [hw]) (by simp) _ _)
      (by simp [hw]) _ _ ?_ rfl
    simp [holds, hw]
  | prefillBack i yielding =>
    simp only [Coordinator.step, Option.ite_none_right_eq_some, Option.some.injEq] at hs
    obtain ⟨⟨hw, hbusy, -⟩, rfl⟩ := hs
    refine h.other (h.counts.bound i (by simp [hw])) (.away (by simp [hw]) (by simp) _ _)
      (by simp [hw]) _ _ ?_ rfl
    simp [holds, hw, hbusy]
  | stop =>
    obtain rfl := Option.some.inj hs
    exact ⟨h.ledger.kept (fun i => .refl _) rfl rfl rfl rfl fun _ => rfl,
      h.counts.same rfl rfl rfl rfl, h.ordered.stopping, h.ordered.exited⟩
  | decodeStop =>
    simp only [Coordinator.step, Option.ite_none_right_eq_some, Option.some.injEq] at hs
    obtain ⟨hall, rfl⟩ := hs
    exact ⟨h.ledger.kept (fun i => .refl _) rfl rfl rfl rfl id, h.counts.same rfl rfl rfl rfl,
      fun _ => hall, fun _ => rfl⟩

theorem Run.inv {kind : Step → Prop} (h : Run c kind s s') (hs : s.Inv c) : s'.Inv c := by
  induction h with
  | refl => exact hs
  | step _ _ hstep ih => exact ih.step hstep

theorem Reachable.inv (h : Reachable c s) : s.Inv c :=
  Run.inv h (inv_init c)

/-! ## Every call can return -/

theorem Run.trans {kind : Step → Prop} {s₁ s₂ s₃ : Coordinator} (h : Run c kind s₁ s₂)
    (h' : Run c kind s₂ s₃) : Run c kind s₁ s₃ := by
  induction h' with
  | refl => exact h
  | step _ he hs ih => exact .step ih he hs

/-- Call `k` of slot `i` has returned at the end of a run of steps that serve. -/
def CanReturn (s : Coordinator) (c : DecodeConfig) (k : Nat) : Prop :=
  ∃ s', Run c Step.Serves s s' ∧ ∃ r, s'.returnsOf k = [r]

theorem CanReturn.of_step {e : Step} (h : s'.CanReturn c k) (he : e.Serves)
    (hs : s.step c e = some s') : s.CanReturn c k := by
  obtain ⟨s'', hrun, hr⟩ := h
  exact ⟨s'', (Run.step (.refl s) he hs).trans hrun, hr⟩

theorem Inv.canReturn_of_done (h : s.Inv c) (hw : (s.slots i).worker = .decoding)
    (hd : (s.slots i).decodeDone = true) : s.CanReturn c (s.slots i).decodeCall := by
  refine ⟨_, .step (e := .answer i) (.refl s) trivial (if_pos ⟨hw, hd⟩), s.result (s.slots i), ?_⟩
  rw [returnsOf_push (r := s.result (s.slots i)) rfl, (h.ledger.current i hw).2]
  exact if_pos rfl

theorem finish_frame {b : DecodeBatch} {e : EngineAnswers} (i : Nat) :
    ((s.finish c b e).slots i).worker = (s.slots i).worker ∧
      ((s.finish c b e).slots i).decodePending = (s.slots i).decodePending ∧
      ((s.finish c b e).slots i).decodeCall = (s.slots i).decodeCall := by
  dsimp only [Coordinator.finish]
  split <;> exact ⟨rfl, rfl, rfl⟩

theorem Inv.canReturn_of_inFlight {b : DecodeBatch} (h : s.Inv c) (hphase : s.phase = .batch b)
    (hw : (s.slots i).worker = .decoding) (hp : (s.slots i).decodePending = false) :
    s.CanReturn c (s.slots i).decodeCall := by
  let e := EngineAnswers.plain 1
  obtain ⟨hw', hp', hcall⟩ := finish_frame (s := s) (c := c) (b := b) (e := e) i
  have h' := h.finish hphase e
  have hdone : ((s.finish c b e).slots i).decodeDone = true := by
    cases h'.ledger.stage i with
    | away hw'' => exact absurd (hw'.trans hw) hw''
    | pending _ hp'' => simp [hp', hp] at hp''
    | inFlight _ _ _ _ _ hm => simp [Coordinator.finish, running] at hm
    | withdrawn _ _ _ hd => exact hd
    | evaluated _ _ _ hd => exact hd
  rw [← hcall]
  refine (h'.canReturn_of_done (hw'.trans hw) hdone).of_step (e := .finish e) trivial ?_
  simp [Coordinator.step, hphase]

theorem Inv.canReturn_of_ready (h : s.Inv c) (hphase : s.phase = .ready)
    (hbusy : s.modelBusy = false) (hp : (s.slots i).decodePending = true) :
    s.CanReturn c (s.slots i).decodeCall := by
  have hw := (h.ledger.pending hp).1
  have hi : i < c.decodeSlots := h.counts.bound i (by simp [hw])
  have hlength : (s.nextBatch c).members.length ≠ 0 := by
    have hpos : 0 < tally DecodeSlot.decodePending c.decodeSlots s.slots := tally_pos.2 ⟨i, hi, hp⟩
    rw [nextBatch_length]
    omega
  have hslot : (s.form c).slots i = (s.slots i).take := by
    rw [Coordinator.form, if_neg hlength]
    exact if_pos ⟨hi, hp⟩
  have hphase' : (s.form c).phase = .batch (s.nextBatch c) := by
    rw [Coordinator.form, if_neg hlength]
  have hreturn := (h.form hphase hbusy).canReturn_of_inFlight (i := i) hphase'
    (by rw [hslot]; exact hw) (by rw [hslot]; rfl)
  rw [hslot] at hreturn
  exact hreturn.of_step (e := .form) trivial (if_pos ⟨hphase, hbusy⟩)

theorem Inv.canReturn_of_phase (h : s.Inv c) (hphase : s.phase = .ready)
    (hp : (s.slots i).decodePending = true) : s.CanReturn c (s.slots i).decodeCall := by
  cases hbusy : s.modelBusy with
  | false => exact h.canReturn_of_ready hphase hbusy hp
  | true =>
    have hcount := h.counts.holders
    rw [hbusy, evaluating, hphase] at hcount
    have hpos : 0 < tally holds c.decodeSlots s.slots := by
      simp only [Bool.toNat_false, Bool.toNat_true] at hcount
      omega
    obtain ⟨j, -, hj⟩ := tally_pos.1 hpos
    have hj : (s.slots j).worker = .prefilling := by simpa [holds] using hj
    have hne : i ≠ j := by
      rintro rfl
      simp [(h.ledger.pending hp).1] at hj
    have hstep : s.step c (.prefillLeave j false) = some (s.prefillLeave j .idle) := if_pos hj
    have hslot : (s.prefillLeave j .idle).slots i = s.slots i := Function.update_of_ne hne _ _
    have hreturn := (h.step hstep).canReturn_of_ready (i := i) hphase rfl (by rw [hslot]; exact hp)
    rw [hslot] at hreturn
    exact hreturn.of_step (e := .prefillLeave j false) trivial hstep

theorem Inv.canReturn_of_pending (h : s.Inv c) (hp : (s.slots i).decodePending = true)
    (hbatch : s.evaluating = false) : s.CanReturn c (s.slots i).decodeCall := by
  have hw := (h.ledger.pending hp).1
  have hi : i < c.decodeSlots := h.counts.bound i (by simp [hw])
  cases hphase : s.phase with
  | ready => exact h.canReturn_of_phase hphase hp
  | batch b => simp [evaluating, hphase] at hbatch
  | exited =>
    have hexit := h.ordered.stopping (h.ordered.exited hphase) i hi
    simp [hw] at hexit
  | idle =>
    have hpos : 0 < tally DecodeSlot.decodePending c.decodeSlots s.slots := tally_pos.2 ⟨i, hi, hp⟩
    have hcount := h.counts.pending
    have hstep : s.step c .gather = some { s with phase := .ready } :=
      if_pos ⟨hphase, by omega⟩
    exact ((h.step hstep).canReturn_of_phase rfl hp).of_step (e := .gather) trivial hstep

/-- **A call that has not returned can return.** -/
theorem Inv.canReturn (h : s.Inv c) (hw : (s.slots i).worker = .decoding) :
    s.CanReturn c (s.slots i).decodeCall := by
  cases hstage : h.ledger.stage i with
  | away hw' => exact absurd hw hw'
  | withdrawn _ _ _ hd => exact h.canReturn_of_done hw hd
  | evaluated _ _ _ hd => exact h.canReturn_of_done hw hd
  | inFlight _ hp _ _ _ hm =>
    cases hphase : s.phase with
    | batch b => exact h.canReturn_of_inFlight hphase hw hp
    | idle => simp [running, hphase] at hm
    | ready => simp [running, hphase] at hm
    | exited => simp [running, hphase] at hm
  | pending _ hp =>
    cases hphase : s.phase with
    | batch b =>
      -- the batch before it has to end
      let e := EngineAnswers.plain 1
      obtain ⟨hw', hp', hcall⟩ := finish_frame (s := s) (c := c) (b := b) (e := e) i
      have hreturn := (h.finish hphase e).canReturn_of_pending (hp'.trans hp) rfl
      rw [hcall] at hreturn
      exact hreturn.of_step (e := .finish e) trivial (by simp [Coordinator.step, hphase])
    | idle => exact h.canReturn_of_pending hp (by simp [evaluating, hphase])
    | ready => exact h.canReturn_of_pending hp (by simp [evaluating, hphase])
    | exited => exact h.canReturn_of_pending hp (by simp [evaluating, hphase])

/-! ## Main result -/

/-- Who holds the model. -/
inductive Holder
  | batch
  | prefill (i : Nat)

/-- The holders of the model. -/
def holders (s : Coordinator) (c : DecodeConfig) : List Holder :=
  (if s.evaluating then [.batch] else []) ++
    ((List.range c.decodeSlots).filter fun i => (s.slots i).worker = .prefilling).map .prefill

theorem holders_length :
    (s.holders c).length = tally holds c.decodeSlots s.slots + s.evaluating.toNat := by
  rw [Coordinator.holders, List.length_append, List.length_map, ← List.countP_eq_length_filter,
    Nat.add_comm]
  congr 1
  cases s.evaluating <;> rfl

/-- What becomes of call `k`: no batch takes its token and it returns interrupted, or one batch takes
it, once and as it was submitted, and it returns with the result of that batch, with no more tokens
than it has room for. It has returned once, or has not returned and can. -/
def Fate (s : Coordinator) (c : DecodeConfig) (k : Nat) (call : DecodeCall) : Prop :=
  (s.taken.filter (fun m => m.call = k) = [] ∨
    s.taken.filter (fun m => m.call = k) = [call.member k]) ∧
  ((s.Waiting k call ∧ s.returnsOf k = [] ∧ s.CanReturn c k) ∨
    ¬ s.Waiting k call ∧ ∃ r, s.returnsOf k = [r] ∧
      ((s.taken.filter (fun m => m.call = k) = [] ∧ r.Interrupted call) ∨
        (s.taken.filter (fun m => m.call = k) = [call.member k] ∧
          r.accepted.length ≤ call.room ∧ ∃ f ∈ s.finished, ∃ i, r.From c f i call)))

/-- What holds of every state. -/
structure Sound (s : Coordinator) (c : DecodeConfig) : Prop where
  pending : s.decodePending =
    ((List.range c.decodeSlots).filter fun i => (s.slots i).decodePending).length
  exclusive : ∀ i, ¬ ((s.slots i).decodePending = true ∧ (s.slots i).decodeInFlight = true)
  busy : s.modelBusy = true ↔ (s.holders c).length = 1
  single : (s.holders c).length ≤ 1
  fate : ∀ k call, s.calls[k]? = some call → s.Fate c k call

theorem Ledger.taken_filter (h : s.Ledger c) (hk : s.calls[k]? = some call) :
    s.taken.filter (fun m => m.call = k) = [] ∨
      s.taken.filter (fun m => m.call = k) = [call.member k] := by
  refine (filter_key h.once k).imp id ?_
  rintro ⟨m, hm, rfl, hfilter⟩
  obtain ⟨call', hcall, hmember⟩ := h.own m hm
  obtain rfl := Option.some.inj (hcall.symm.trans hk)
  rw [hfilter, hmember]

theorem Inv.fate (h : s.Inv c) (hk : s.calls[k]? = some call) : s.Fate c k call := by
  refine ⟨h.ledger.taken_filter hk, ?_⟩
  by_cases hwait : s.Waiting k call
  · obtain ⟨hw, rfl⟩ := id hwait
    exact .inl ⟨hwait, (h.ledger.current _ hw).2, h.canReturn hw⟩
  · obtain ⟨r, hr, hright⟩ := h.ledger.closed k call hk hwait
    have hrk : r.call = k := by
      have hmem : r ∈ s.returnsOf k := by simp [hr]
      simpa [returnsOf] using (List.mem_filter.mp hmem).2
    refine .inr ⟨hwait, r, hr, hright.imp ?_ ?_⟩
    · rintro ⟨hnot, hint⟩
      exact ⟨List.filter_eq_nil_iff.mpr fun m hm => by simpa using hnot m hm, hint⟩
    · rintro ⟨f, hf, i, hfrom⟩
      refine ⟨(h.ledger.taken_filter hk).resolve_left fun hnil => ?_, hfrom.accepted_le, f, hf, i,
        hfrom⟩
      have hmem : call.member r.call ∈ s.taken := by
        refine List.mem_append_left _ (List.mem_flatten.mpr ⟨_, List.mem_map_of_mem hf, ?_⟩)
        exact List.mem_of_getElem? hfrom.member
      simpa [DecodeCall.member, hrk] using List.filter_eq_nil_iff.mp hnil _ hmem

theorem Inv.sound (h : s.Inv c) : s.Sound c := by
  have hcount := h.counts.holders
  have hle := Bool.toNat_le s.modelBusy
  refine ⟨?_, ?_, ?_, ?_, fun k call => h.fate⟩
  · rw [h.counts.pending, tally, List.countP_eq_length_filter]
  · rintro i ⟨hp, hf⟩
    exact absurd hf (by simp [(h.ledger.pending hp).2.1])
  · rw [holders_length, hcount]
    cases s.modelBusy <;> simp
  · rw [holders_length, hcount]
    exact hle

/-- **Every token is evaluated at most once, and every call returns once.** In every reachable state
the counter is the number of the pending tokens, no slot is both pending and in flight, the model is
busy when one party holds it and never held by two, and every call has its fate. -/
theorem decode_reachable_sound (h : Reachable c s) : s.Sound c := h.inv.sound

/-! ## A run -/

/-- The state after some steps. -/
def after (c : DecodeConfig) (s : Coordinator) : List Step → Option Coordinator
  | [] => some s
  | e :: es => (s.step c e).bind fun s => s.after c es

theorem run_of_after {es : List Step} (h : s.after c es = some s') :
    Run c (fun _ => True) s s' := by
  induction es generalizing s with
  | nil =>
    obtain rfl := Option.some.inj h
    exact .refl s
  | cons e es ih =>
    obtain ⟨s₁, hs₁, hrest⟩ := Option.bind_eq_some_iff.mp h
    exact (Run.step (.refl s) trivial hs₁).trans (ih hrest)

/-- One slot. -/
def oneSlot : DecodeConfig := ⟨1, false, 3⟩

/-- A token is evaluated while the server is asked to stop or not. -/
def oneToken (stop : Bool) : List Step :=
  [.evalTokens 0 7 false, .gather, .form, .finish (.plain 0)] ++ (if stop then [.stop] else []) ++ [.answer 0]

/-- Two slots whose sessions take mixed steps. -/
def twoSlots : DecodeConfig := ⟨2, false, 3⟩

/-- The answers to a mixed step whose block accepts three tokens. -/
def mixedAnswers : EngineAnswers where
  mixedStep := true
  cycleReady _ := true
  mixedRc := 0
  cycleTokens := [8, 9, 10]
  cycleCarry := 4
  batchRc := 1
  speculativeRc := 1
  speculativeAccepted _ := []
  batchErr := ""
  cycleTokens_le := by decide
  speculativeAccepted_le := by simp

/-- A token is withdrawn during the prefill turn of the other slot; then a cycle and a plain row are
evaluated in one step. -/
def mixedSteps : List Step :=
  [.prefillEnter 0, .prefillTake 0 false, .evalTokens 1 5 false, .gather, .cancel 1, .withdraw 1,
    .nextJob 1, .prefillLeave 0 false, .evalTokens 1 7 false, .evalCycle 0 8 ⟨16, 1, false⟩, .form,
    .finish mixedAnswers, .answer 0, .answer 1]

/-- A run: each call returns once, with its own tokens and carry. -/
theorem decode_reachable_sound_mixed : ∃ s, Reachable twoSlots s ∧ s.Sound twoSlots ∧
    s.returns = [⟨0, 2, [], none, "client disconnected", false, true⟩,
      ⟨2, 0, [8, 9, 10], some 4, "", false, false⟩, ⟨1, 0, [7], none, "", false, false⟩] := by
  have hreturns : ((init twoSlots).after twoSlots mixedSteps).map returns =
      some [⟨0, 2, [], none, "client disconnected", false, true⟩,
        ⟨2, 0, [8, 9, 10], some 4, "", false, false⟩, ⟨1, 0, [7], none, "", false, false⟩] := by
    decide
  obtain ⟨s, hs, hreturns⟩ := Option.map_eq_some_iff.mp hreturns
  have hreach : Reachable twoSlots s := run_of_after hs
  exact ⟨s, hreach, decode_reachable_sound hreach, hreturns⟩

/-- **The result of a batch is not always what its members return.** When the server was asked to stop
before the worker is back, the call is interrupted although the batch has evaluated its token. -/
theorem not_returns_rc : ¬ ∀ (c : DecodeConfig) (s : Coordinator), Reachable c s →
    ∀ r ∈ s.returns, ∀ f ∈ s.finished, (∃ m ∈ f.batch.members, m.call = r.call) → r.rc = f.rc c := by
  intro hall
  obtain ⟨s, hs⟩ : ∃ s, (init oneSlot).after oneSlot (oneToken true) = some s := ⟨_, rfl⟩
  have hreach : Reachable oneSlot s := run_of_after hs
  have hlog : ((init oneSlot).after oneSlot (oneToken true)).map
      (fun s => (s.returns.map fun r => (r.rc, r.call),
        s.finished.map fun f => (f.rc oneSlot, f.batch.members.map DecodeMember.call))) =
      some ([(2, 0)], [(0, [0])]) := by decide
  rw [hs, Option.map_some, Option.some.injEq, Prod.mk.injEq] at hlog
  obtain ⟨r, hr, hrc⟩ := List.map_eq_singleton_iff.mp hlog.1
  obtain ⟨f, hf, hfrc⟩ := List.map_eq_singleton_iff.mp hlog.2
  obtain ⟨hrc, hcall⟩ := Prod.mk.inj hrc
  obtain ⟨hfrc, hmembers⟩ := Prod.mk.inj hfrc
  obtain ⟨m, hm, hmcall⟩ := List.map_eq_singleton_iff.mp hmembers
  have heq := hall oneSlot s hreach r (by simp [hr]) f (by simp [hf])
    ⟨m, by simp [hm], hmcall.trans hcall.symm⟩
  rw [hrc, hfrc] at heq
  exact absurd heq (by decide)

end Coordinator

end Ds4.Server
