import Ds4.Dist.Prefill

/-!
# Runs of a pipelined prefill

Whatever the three threads do, the frames that go out are those of the loop over the chunks, in order and not
more than a window ahead of the answers, nobody waits for another thread for ever, and a prefill that returns
zero has done what the loop does.
-/

namespace Ds4.Dist

open Ds4.Lib

namespace PrefillJob

variable {σ η : Type} (j : PrefillJob σ η)

/-! ## Chunks -/

/-- Where a chunk starts. -/
def chunkPos (i : Nat) : Nat := j.spanStart + min (i * j.chunkCap) j.nTokens

variable {j}

theorem lt_chunkCount {i : Nat} : i < j.chunkCount ↔ i * j.chunkCap < j.nTokens := by
  have hcap := j.chunkCap_pos
  rw [chunkCount, Nat.lt_iff_add_one_le, Nat.le_div_iff_mul_le hcap, Nat.succ_mul]
  omega

theorem chunkCount_pos : 0 < j.chunkCount := by
  rw [lt_chunkCount, Nat.zero_mul]
  exact j.nTokens_pos

theorem chunkPos_zero : j.chunkPos 0 = j.spanStart := by simp [chunkPos]

theorem chunkPos_lt {i : Nat} : j.chunkPos i < j.spanEnd ↔ i < j.chunkCount := by
  rw [lt_chunkCount, chunkPos, spanEnd]
  omega

theorem chunkAt_chunkPos {i : Nat} (h : i < j.chunkCount) : j.chunkAt (j.chunkPos i) =
    if j.nTokens - i * j.chunkCap < j.chunkCap then j.nTokens - i * j.chunkCap else j.chunkCap := by
  have hlt := lt_chunkCount.1 h
  have hleft : j.spanEnd - j.chunkPos i = j.nTokens - i * j.chunkCap := by
    rw [chunkPos, spanEnd]
    omega
  rw [chunkAt, hleft]

theorem chunkPos_succ {i : Nat} (h : i < j.chunkCount) :
    j.chunkPos i + j.chunkAt (j.chunkPos i) = j.chunkPos (i + 1) := by
  have hlt := lt_chunkCount.1 h
  rw [chunkAt_chunkPos h, chunkPos, chunkPos, Nat.succ_mul]
  split_ifs <;> omega

theorem last_chunk : j.nTokens - (j.chunkCount - 1) * j.chunkCap = j.chunkAt (j.chunkPos (j.chunkCount - 1)) := by
  have hpos := @chunkCount_pos _ _ j
  have hlast : ¬j.chunkCount < j.chunkCount := Nat.lt_irrefl _
  rw [lt_chunkCount] at hlast
  have hsucc : j.chunkCount * j.chunkCap = (j.chunkCount - 1) * j.chunkCap + j.chunkCap := by
    rw [← Nat.succ_mul, show (j.chunkCount - 1).succ = j.chunkCount by omega]
  rw [chunkAt_chunkPos (by omega)]
  split_ifs <;> omega

theorem tokenHashPrefix_take (p n : Nat) : tokenHashUpdateSpan (tokenHashPrefix (j.prompt.take p))
    ((j.prompt.drop p).take n) = tokenHashPrefix (j.prompt.take (p + n)) := by
  rw [tokenHashPrefix, tokenHashPrefix, tokenHashUpdateSpan, tokenHashUpdateSpan, tokenHashUpdateSpan,
    ← List.foldl_append, List.take_add]

theorem expectedHashesFrom_getD (n i k : Nat) (hk : k < n) (hn : i + n ≤ j.chunkCount) :
    (j.expectedHashesFrom n (j.chunkPos i) (tokenHashPrefix (j.prompt.take (j.chunkPos i)))).getD k 0 =
      tokenHashPrefix (j.prompt.take (j.chunkPos (i + k + 1))) := by
  induction n generalizing i k with
  | zero => exact absurd hk (Nat.not_lt_zero k)
  | succ n ih =>
    have hnext := @chunkPos_succ _ _ j i (by omega)
    rw [expectedHashesFrom, tokensAt, tokenHashPrefix_take, hnext]
    cases k with
    | zero => rfl
    | succ k =>
      have hrest := ih (i + 1) k (by omega) (by omega)
      rw [show i + 1 + k + 1 = i + (k + 1) + 1 by omega] at hrest
      exact hrest

theorem expectedHashes_getD {i : Nat} (h : i < j.chunkCount) :
    j.expectedHashes.getD i 0 = tokenHashPrefix (j.prompt.take (j.chunkPos (i + 1))) := by
  have hall := @expectedHashesFrom_getD _ _ j j.chunkCount 0 i h (by omega)
  rw [chunkPos_zero, Nat.zero_add] at hall
  exact hall

/-! ## What the loop does -/

variable (j)

/-- The session behind some chunks. -/
def sessionAt (session : σ) : Nat → σ
  | 0 => session
  | i + 1 => (j.evalChunk (sessionAt session i) (j.chunkPos i)).1

/-- The hidden rows of a chunk. -/
def rowsAt (session : σ) (i : Nat) : η := (j.evalChunk (j.sessionAt session i) (j.chunkPos i)).2

/-- The slot of a chunk. -/
def chunkSlot (session : σ) (i : Nat) : SendSlot η where
  pos := j.chunkPos i
  nTokens := j.chunkAt (j.chunkPos i)
  hiddenBytes := j.chunkAt (j.chunkPos i) * j.hcValues * 4
  requestId := j.requestId + UInt64.ofNat i
  prefixHash := tokenHashPrefix (j.prompt.take (j.chunkPos i))
  resultHash := tokenHashPrefix (j.prompt.take (j.chunkPos (i + 1)))
  resetSession := j.resetFirstChunk && decide (j.chunkPos i = j.spanStart)
  ackOnly := j.ackOnly && decide (j.chunkPos (i + 1) < j.spanEnd)
  hidden := j.rowsAt session i

/-- The frame of a chunk. -/
def chunkFrame (session : σ) (i : Nat) : WorkFrame η := Pipeline.frameOf j (j.chunkSlot session i)

variable {j}

theorem ofNat_succ (id : UInt64) (i : Nat) : id + UInt64.ofNat i + 1 = id + UInt64.ofNat (i + 1) := by
  rw [UInt64.ofNat_add, UInt64.add_assoc]
  rfl

theorem evalSpan_eq (session : σ) {i : Nat} (h : i < j.chunkCount) :
    j.evalSpan (j.sessionAt session i) (j.chunkPos i) (j.requestId + UInt64.ofNat i) =
      (j.sessionAt session (i + 1), { j.chunkFrame session i with ackOnly := false }) := by
  simp only [evalSpan, chunkFrame, Pipeline.frameOf, chunkSlot, sessionAt, rowsAt, tokensAt, tokenHashPrefix_take,
    chunkPos_succ h, Bool.and_comm (decide _) j.resetFirstChunk]

theorem sequentialFrom_eq (session : σ) (n i : Nat) (hn : j.chunkCount ≤ i + n) (hi : i ≤ j.chunkCount) :
    j.sequentialFrom n (j.chunkPos i) (j.sessionAt session i) (j.requestId + UInt64.ofNat i) =
      (j.sessionAt session j.chunkCount, j.requestId + UInt64.ofNat j.chunkCount,
        (List.range' i (j.chunkCount - i)).map fun k => { j.chunkFrame session k with ackOnly := false }) := by
  induction n generalizing i with
  | zero =>
    obtain rfl : i = j.chunkCount := by omega
    simp [sequentialFrom]
  | succ n ih =>
    rw [sequentialFrom]
    by_cases hlt : i < j.chunkCount
    · have hrest := ih (i + 1) (by omega) (by omega)
      have hrange : j.chunkCount - i = j.chunkCount - (i + 1) + 1 := by omega
      rw [if_pos (chunkPos_lt.2 hlt), evalSpan_eq session hlt]
      simp only [chunkPos_succ hlt, ofNat_succ, hrest]
      rw [hrange, List.range'_succ, List.map_cons]
    · obtain rfl : i = j.chunkCount := by omega
      rw [if_neg (fun h => hlt (chunkPos_lt.1 h))]
      simp

/-- **Chunk by chunk**, the loop goes over the chunks of the span. -/
theorem sequential_eq (session : σ) : j.sequential session =
    (j.sessionAt session j.chunkCount, j.requestId + UInt64.ofNat j.chunkCount,
      (List.range j.chunkCount).map fun k => { j.chunkFrame session k with ackOnly := false }) := by
  have hle : j.chunkCount ≤ j.nTokens := by
    by_contra hgt
    have hlt := lt_chunkCount.1 (Nat.lt_of_not_le hgt)
    exact absurd (Nat.le_mul_of_pos_right j.nTokens j.chunkCap_pos) (by omega)
  have hall := @sequentialFrom_eq _ _ j session j.nTokens 0 (by omega) (Nat.zero_le _)
  rw [chunkPos_zero, Nat.sub_zero, ← List.range_eq_range'] at hall
  simpa [sequential, sessionAt] using hall

end PrefillJob

namespace Pipeline

variable {σ η : Type} {j : PrefillJob σ η} {session : σ} {s s' : Pipeline σ η}

/-! ## The ring -/

/-- The slots that are queued hold their chunks, the frames of the chunks before went out, and no chunk is
queued that is a window ahead of the answers. -/
structure Ring (j : PrefillJob σ η) (session : σ) (s : Pipeline σ η) : Prop where
  head : s.head = s.taken % j.slotCount
  tail : s.tail = s.put % j.slotCount
  queued : s.taken + s.queued = s.put
  queued_le : s.queued ≤ j.slotCount
  put_le : s.put ≤ j.chunkCount
  slots : ∀ k, s.taken ≤ k → k < s.put → s.slots (k % j.slotCount) = j.chunkSlot session k
  sent : s.sent = (List.range s.sent.length).map (j.chunkFrame session)
  window : s.put ≤ s.progressCompleted + j.flowWindow

theorem Ring.same (h : Ring j session s)
    (hsame : (s'.slots, s'.head, s'.tail, s'.queued, s'.put, s'.taken, s'.sent) =
      (s.slots, s.head, s.tail, s.queued, s.put, s.taken, s.sent))
    (hcompleted : s.progressCompleted ≤ s'.progressCompleted) : Ring j session s' := by
  simp only [Prod.mk.injEq] at hsame
  obtain ⟨hslots, hhead, htail, hqueued, hput, htaken, hsent⟩ := hsame
  constructor
  · rw [hhead, htaken, h.head]
  · rw [htail, hput, h.tail]
  · rw [htaken, hqueued, hput, h.queued]
  · rw [hqueued]
    exact h.queued_le
  · rw [hput]
    exact h.put_le
  · rw [hslots, htaken, hput]
    exact h.slots
  · rw [hsent]
    exact h.sent
  · rw [hput]
    exact h.window.trans (Nat.add_le_add_right hcompleted _)

theorem mod_ne {n k m : Nat} (hk : k < m) (hm : m < k + n) : k % n ≠ m % n := by
  intro heq
  have hdvd : n ∣ m - k := (Nat.modEq_iff_dvd' hk.le).mp heq
  have hle := Nat.le_of_dvd (by omega) hdvd
  omega

theorem Ring.write (h : Ring j session s) (hroom : s.queued < j.slotCount) {i : Nat} (hi : i = s.tail)
    (slot : SendSlot η) : Ring j session { s with slots := Function.update s.slots i slot } := by
  refine ⟨h.head, h.tail, h.queued, h.queued_le, h.put_le, ?_, h.sent, h.window⟩
  intro k (hle : s.taken ≤ k) (hlt : k < s.put)
  have hqueued := h.queued
  have hne : k % j.slotCount ≠ i := by
    rw [hi, h.tail]
    exact mod_ne hlt (by omega)
  dsimp only
  rw [Function.update_of_ne hne]
  exact h.slots k hle hlt

theorem mod_succ (n k : Nat) : (k % n + 1) % n = (k + 1) % n := Nat.mod_add_mod k n 1

theorem Ring.enqueue (h : Ring j session s) (hroom : s.queued < j.slotCount) (hcount : s.put < j.chunkCount)
    (hwindow : s.put < s.progressCompleted + j.flowWindow) (hslot : s.slots s.tail = j.chunkSlot session s.put) :
    Ring j session { s with
      tail := (s.tail + 1) % j.slotCount
      queued := s.queued + 1
      put := s.put + 1 } := by
  have hqueued := h.queued
  refine ⟨h.head, ?_, ?_, hroom, hcount, ?_, h.sent, hwindow⟩
  · dsimp only
    rw [h.tail, mod_succ]
  · dsimp only
    omega
  · intro k hle hlt
    rcases Nat.lt_succ_iff_lt_or_eq.mp hlt with hlt | rfl
    · exact h.slots k hle hlt
    · rw [← h.tail]
      exact hslot

theorem Ring.send (h : Ring j session s) (hqueued : 0 < s.queued) (hsent : s.sent.length = s.taken) :
    Ring j session { s with sent := s.sent ++ [frameOf j (s.slots s.head)] } := by
  have hput := h.queued
  refine ⟨h.head, h.tail, h.queued, h.queued_le, h.put_le, h.slots, ?_, h.window⟩
  have hslot := h.slots s.taken (Nat.le_refl _) (by omega)
  rw [← h.head] at hslot
  dsimp only
  rw [List.length_append, List.length_singleton, List.range_succ, List.map_append, ← h.sent, hslot, hsent]
  rfl

theorem Ring.dequeue (h : Ring j session s) (hqueued : 0 < s.queued) :
    Ring j session { s with
      head := (s.head + 1) % j.slotCount
      queued := s.queued - 1
      taken := s.taken + 1 } := by
  have hput := h.queued
  have hle := h.queued_le
  refine ⟨?_, h.tail, ?_, ?_, h.put_le, ?_, h.sent, h.window⟩
  · dsimp only
    rw [h.head, mod_succ]
  · dsimp only
    omega
  · dsimp only
    omega
  · intro k hk hlt
    exact h.slots k (Nat.le_of_succ_le hk) hlt

/-! ## The calling thread -/

/-- The counters of the loop over the chunks. -/
structure Counters (j : PrefillJob σ η) (s : Pipeline σ η) : Prop where
  submitted_le : s.submittedChunks ≤ j.chunkCount
  pos : s.pos = j.chunkPos s.submittedChunks
  requestId : s.requestId = j.requestId + UInt64.ofNat s.submittedChunks
  nextPrefixHash : s.nextPrefixHash = tokenHashPrefix (j.prompt.take s.pos)

/-- The loop is done. -/
structure Complete (j : PrefillJob σ η) (session : σ) (s : Pipeline σ η) : Prop where
  session : s.session = j.sessionAt session j.chunkCount
  requestId : s.requestId = j.requestId + UInt64.ofNat j.chunkCount
  put : s.put = j.chunkCount

/-- Nobody but the sender has stopped the sender. -/
def Uncancelled (s : Pipeline σ η) : Prop := s.stop = true → s.senderFailed = true

/-- The loop goes on: `k` steps of the chunk at hand changed the session, and `n` queued it. -/
structure Looping (j : PrefillJob σ η) (session : σ) (k n : Nat) (s : Pipeline σ η) : Prop where
  counters : Counters j s
  producing : s.producerDone = false
  uncancelled : s.Uncancelled
  put : s.put = s.submittedChunks + n
  session : s.session = j.sessionAt session (s.submittedChunks + k)

/-- There is a chunk to submit, and the window has room for it. -/
structure Room (j : PrefillJob σ η) (s : Pipeline σ η) : Prop where
  lt : s.submittedChunks < j.chunkCount
  window : s.submittedChunks < s.progressCompleted + j.flowWindow

/-- The slot behind the queued ones is at hand. -/
structure AtHand (j : PrefillJob σ η) (s : Pipeline σ η) : Prop where
  slot : s.slot = s.tail
  room : s.queued < j.slotCount

/-- Everything was submitted, and the sender is not to be stopped. -/
structure Submitted (j : PrefillJob σ η) (session : σ) (s : Pipeline σ η) : Prop where
  complete : Complete j session s
  producerDone : s.producerDone = true
  uncancelled : s.Uncancelled

/-- The sender has sent everything. -/
structure SentAll (j : PrefillJob σ η) (session : σ) (s : Pipeline σ η) : Prop where
  submitted : Submitted j session s
  sender : s.sender = .exited
  senderFailed : s.senderFailed = false

/-- What is returned with zero. -/
structure Delivered (j : PrefillJob σ η) (session : σ) (logits : Option Bytes) (s : Pipeline σ η) : Prop where
  sentAll : SentAll j session s
  readerRc : s.readerRc = 0
  logits : ∃ r, s.final = some r ∧
    (r.kind = .logits ∧ r.payload.length = j.logitsBytes ∧ logits = some r.payload ∨
      r.kind = .hiddenState ∧
        logits = some (j.evalOutputHead s.session r.payload (j.nTokens - (j.chunkCount - 1) * j.chunkCap)))

/-- What the calling thread has done where it is. -/
def ProducerInv (j : PrefillJob σ η) (session : σ) (s : Pipeline σ η) : Prop :=
  match s.producer with
  | .checking | .sleepingFlow | .wokenFlow => Looping j session 0 0 s
  | .reporting room => Looping j session 0 0 s ∧ (room = true → Room j s)
  | .acquiring | .sleepingSlot => Looping j session 0 0 s ∧ Room j s
  | .evaluating => Looping j session 0 0 s ∧ Room j s ∧ AtHand j s
  | .filling => Looping j session 1 0 s ∧ Room j s ∧ AtHand j s ∧
      (s.slots s.slot).hidden = j.rowsAt session s.submittedChunks
  | .enqueuing => Looping j session 1 0 s ∧ Room j s ∧ AtHand j s ∧
      s.slots s.slot = j.chunkSlot session s.submittedChunks
  | .advancing => Looping j session 1 1 s ∧ Room j s ∧ s.slots s.slot = j.chunkSlot session s.submittedChunks
  | .finishing failed => (failed = false → Complete j session s) ∧ s.producerDone = false ∧ s.Uncancelled
  | .shuttingSender => s.producerDone = true ∧ s.stop = true
  | .joiningSender failed => s.producerDone = true ∧ (failed = false → Submitted j session s) ∧
      (failed = true → s.shut = true)
  | .closing => s.producerDone = true ∧ s.sender = .exited
  | .waitingProgress | .sleepingProgress => SentAll j session s
  | .emitting done => SentAll j session s ∧ (done = true → s.progressDone = true) ∧
      (done = false → s.reportedChunks < s.progressCompleted)
  | .concluding done => SentAll j session s ∧
      (done = true → s.progressDone = true ∧ s.progressCompleted ≤ s.reportedChunks)
  | .joiningReader failed => s.producerDone = true ∧ s.sender = .exited ∧ (failed = false → SentAll j session s) ∧
      (failed = true → s.shut = true)
  | .returned rc logits => s.producerDone = true ∧ s.sender = .exited ∧ s.reader = .exited ∧
      (rc = 0 → Delivered j session logits s)

theorem Looping.same {k n : Nat} (h : Looping j session k n s)
    (hsame : (s'.submittedChunks, s'.pos, s'.requestId, s'.nextPrefixHash, s'.producerDone, s'.put, s'.session) =
      (s.submittedChunks, s.pos, s.requestId, s.nextPrefixHash, s.producerDone, s.put, s.session))
    (hu : s'.Uncancelled) : Looping j session k n s' := by
  simp only [Prod.mk.injEq] at hsame
  obtain ⟨hsub, hpos, hid, hhash, hdone, hput, hsession⟩ := hsame
  obtain ⟨⟨hle, hp, hi, hn⟩, hd, -, hq, hs⟩ := h
  exact ⟨⟨by rw [hsub]; exact hle, by rw [hpos, hsub]; exact hp, by rw [hid, hsub]; exact hi,
    by rw [hhash, hpos]; exact hn⟩, by rw [hdone]; exact hd, hu, by rw [hput, hsub]; exact hq,
    by rw [hsession, hsub]; exact hs⟩

theorem Room.same (h : Room j s) (hsub : s'.submittedChunks = s.submittedChunks)
    (hcompleted : s.progressCompleted ≤ s'.progressCompleted) : Room j s' := by
  obtain ⟨hlt, hw⟩ := h
  exact ⟨by rw [hsub]; exact hlt, by rw [hsub]; exact hw.trans_le (Nat.add_le_add_right hcompleted _)⟩

theorem Submitted.same (h : Submitted j session s)
    (hsame : (s'.session, s'.requestId, s'.put, s'.producerDone) = (s.session, s.requestId, s.put, s.producerDone))
    (hu : s'.Uncancelled) : Submitted j session s' := by
  simp only [Prod.mk.injEq] at hsame
  obtain ⟨hsession, hid, hput, hdone⟩ := hsame
  obtain ⟨⟨hs, hi, hp⟩, hd, -⟩ := h
  exact ⟨⟨by rw [hsession]; exact hs, by rw [hid]; exact hi, by rw [hput]; exact hp⟩, by rw [hdone]; exact hd, hu⟩

theorem SentAll.same (h : SentAll j session s)
    (hsame : (s'.session, s'.requestId, s'.put, s'.producerDone) = (s.session, s.requestId, s.put, s.producerDone))
    (hu : s'.Uncancelled) (hsender : s'.sender = .exited ∧ s'.senderFailed = s.senderFailed) :
    SentAll j session s' :=
  ⟨h.submitted.same hsame hu, hsender.1, hsender.2.trans h.senderFailed⟩

/-- What the other threads may do. -/
structure Others (s s' : Pipeline σ η) : Prop where
  same : (s'.producer, s'.session, s'.pos, s'.requestId, s'.nextPrefixHash, s'.submittedChunks, s'.reportedChunks,
      s'.put, s'.tail, s'.slot, s'.slots, s'.producerDone) =
    (s.producer, s.session, s.pos, s.requestId, s.nextPrefixHash, s.submittedChunks, s.reportedChunks, s.put,
      s.tail, s.slot, s.slots, s.producerDone)
  completed : s.progressCompleted ≤ s'.progressCompleted
  done : s.progressDone = true → s'.progressDone = true ∧ s'.progressCompleted = s.progressCompleted
  queued : s'.queued ≤ s.queued
  stop : s'.stop = true → s.stop = true ∨ s'.senderFailed = true
  stopped : s.stop = true → s'.stop = true
  failed : s.senderFailed = true → s'.senderFailed = true
  shut : s.shut = true → s'.shut = true
  sender : s.sender = .exited → s'.sender = .exited ∧ s'.senderFailed = s.senderFailed
  reader : s.reader = .exited → s'.reader = .exited ∧ s'.readerRc = s.readerRc ∧ s'.final = s.final

theorem ProducerInv.others (h : ProducerInv j session s) (ho : Others s s') : ProducerInv j session s' := by
  have hsame := ho.same
  simp only [Prod.mk.injEq] at hsame
  obtain ⟨hproducer, hsession, hpos, hid, hhash, hsub, hrep, hput, htail, hslot, hslots, hdone⟩ := hsame
  have hcancel : s.Uncancelled → s'.Uncancelled := by
    intro hu hstop
    rcases ho.stop hstop with hstop | hfailed
    · exact ho.failed (hu hstop)
    · exact hfailed
  have hlooping : ∀ {k n : Nat}, Looping j session k n s → Looping j session k n s' := by
    intro k n hl
    exact hl.same (by rw [hsub, hpos, hid, hhash, hdone, hput, hsession]) (hcancel hl.uncancelled)
  have hroom : Room j s → Room j s' := fun hr => hr.same hsub ho.completed
  have hhand : AtHand j s → AtHand j s' := by
    rintro ⟨hs, hq⟩
    exact ⟨by rw [hslot, htail]; exact hs, ho.queued.trans_lt hq⟩
  have hcomplete : Complete j session s → Complete j session s' := by
    rintro ⟨hs, hi, hp⟩
    exact ⟨by rw [hsession]; exact hs, by rw [hid]; exact hi, by rw [hput]; exact hp⟩
  have hsubmitted : Submitted j session s → Submitted j session s' := fun hs =>
    hs.same (by rw [hsession, hid, hput, hdone]) (hcancel hs.uncancelled)
  have hall : SentAll j session s → SentAll j session s' := fun hs =>
    hs.same (by rw [hsession, hid, hput, hdone]) (hcancel hs.submitted.uncancelled) (ho.sender hs.sender)
  cases hp : s.producer with simp only [ProducerInv, hproducer, hp] at h ⊢
  | checking | sleepingFlow | wokenFlow => exact hlooping h
  | reporting room => exact ⟨hlooping h.1, fun hr => hroom (h.2 hr)⟩
  | acquiring | sleepingSlot => exact ⟨hlooping h.1, hroom h.2⟩
  | evaluating => exact ⟨hlooping h.1, hroom h.2.1, hhand h.2.2⟩
  | filling | enqueuing =>
    obtain ⟨hl, hr, hh, hs⟩ := h
    exact ⟨hlooping hl, hroom hr, hhand hh, by rw [hslots, hslot, hsub]; exact hs⟩
  | advancing => exact ⟨hlooping h.1, hroom h.2.1, by rw [hslots, hslot, hsub]; exact h.2.2⟩
  | finishing failed => exact ⟨fun hf => hcomplete (h.1 hf), by rw [hdone]; exact h.2.1, hcancel h.2.2⟩
  | shuttingSender => exact ⟨by rw [hdone]; exact h.1, ho.stopped h.2⟩
  | joiningSender failed =>
    exact ⟨by rw [hdone]; exact h.1, fun hf => hsubmitted (h.2.1 hf), fun hf => ho.shut (h.2.2 hf)⟩
  | closing => exact ⟨by rw [hdone]; exact h.1, (ho.sender h.2).1⟩
  | waitingProgress | sleepingProgress => exact hall h
  | emitting done =>
    obtain ⟨hs, hd, hr⟩ := h
    refine ⟨hall hs, fun he => (ho.done (hd he)).1, fun he => ?_⟩
    rw [hrep]
    exact (hr he).trans_le ho.completed
  | concluding done =>
    obtain ⟨hs, hd⟩ := h
    refine ⟨hall hs, fun he => ⟨(ho.done (hd he).1).1, ?_⟩⟩
    rw [hrep, (ho.done (hd he).1).2]
    exact (hd he).2
  | joiningReader failed =>
    obtain ⟨hd, he, hs, hf⟩ := h
    exact ⟨by rw [hdone]; exact hd, (ho.sender he).1, fun hk => hall (hs hk), fun hk => ho.shut (hf hk)⟩
  | returned rc logits =>
    obtain ⟨hd, he, hr, hz⟩ := h
    refine ⟨by rw [hdone]; exact hd, (ho.sender he).1, (ho.reader hr).1, ?_⟩
    intro hrc
    obtain ⟨hs, hreader, r, hfinal, hl⟩ := hz hrc
    refine ⟨hall hs, (ho.reader hr).2.1.trans hreader, r, (ho.reader hr).2.2.trans hfinal, ?_⟩
    rw [hsession]
    exact hl

/-! ## The sender and the reader -/

/-- What the sender has done where it is. -/
def SenderInv (s : Pipeline σ η) : Prop :=
  match s.sender with
  | .waiting | .sleeping => s.sent.length = s.taken ∧ s.senderFailed = false
  | .sending => s.sent.length = s.taken ∧ 0 < s.queued ∧ s.senderFailed = false
  | .sendDone => s.sent.length = s.taken + 1 ∧ 0 < s.queued ∧ s.senderFailed = false
  | .sendFailed => s.sent.length = s.taken ∧ s.senderFailed = false
  | .stopping => s.sent.length = s.taken ∧ s.senderFailed = true ∧ s.stop = true
  | .exited => s.sent.length = s.taken ∧ (s.senderFailed = true → s.shut = true ∧ s.stop = true) ∧
      (s.stop = true ∨ s.queued = 0 ∧ s.producerDone = true)

/-- The reader has accepted `n` answers and told the others of `told` of them. -/
structure Reading (j : PrefillJob σ η) (n told : Nat) (s : Pipeline σ η) : Prop where
  accepted : ∀ i r, s.answered[i]? = some r → Accepts j i r
  answered : s.answered.length = n
  completed : s.progressCompleted = told
  final : n = j.chunkCount → s.final = s.answered.getLast?

/-- What the reader has done where it is. -/
def ReaderInv (j : PrefillJob σ η) (s : Pipeline σ η) : Prop :=
  match s.reader with
  | .receiving i => Reading j i i s ∧ i < j.chunkCount ∧ s.progressDone = false ∧ s.readerRc = 0
  | .failing i => Reading j i i s ∧ i < j.chunkCount ∧ s.progressDone = false ∧ s.readerRc ≠ 0
  | .givingUp i => Reading j i i s ∧ i < j.chunkCount ∧ s.progressDone = false ∧ s.readerRc ≠ 0 ∧ s.shut = true
  | .signalling completed final => Reading j completed (completed - 1) s ∧ completed ≤ j.chunkCount ∧
      final = decide (completed = j.chunkCount) ∧ s.progressDone = false ∧ s.readerRc = 0
  | .closing => Reading j j.chunkCount j.chunkCount s ∧ s.progressDone = true ∧ s.readerRc = 0
  | .exited => ∃ n, Reading j n n s ∧ n ≤ j.chunkCount ∧ s.progressDone = true ∧
      (s.readerRc = 0 ∧ n = j.chunkCount ∨ s.readerRc ≠ 0 ∧ s.shut = true)

/-- What the others do to the sender. -/
structure BesidesSender (s s' : Pipeline σ η) : Prop where
  same : (s'.sender, s'.sent, s'.taken, s'.senderFailed) = (s.sender, s.sent, s.taken, s.senderFailed)
  queued : s.queued ≤ s'.queued
  idle : s.producerDone = true → s'.producerDone = true ∧ s'.queued = s.queued
  stopped : s.stop = true → s'.stop = true
  shut : s.shut = true → s'.shut = true

theorem SenderInv.besides (h : SenderInv s) (hb : BesidesSender s s') : SenderInv s' := by
  have hsame := hb.same
  simp only [Prod.mk.injEq] at hsame
  obtain ⟨hsender, hsent, htaken, hfailed⟩ := hsame
  cases hp : s.sender with simp only [SenderInv, hsender, hp, hsent, htaken, hfailed] at h ⊢
  | waiting | sleeping | sendFailed => exact h
  | sending | sendDone => exact ⟨h.1, h.2.1.trans_le hb.queued, h.2.2⟩
  | stopping => exact ⟨h.1, h.2.1, hb.stopped h.2.2⟩
  | exited =>
    obtain ⟨hs, hf, hend⟩ := h
    refine ⟨hs, fun he => ⟨hb.shut (hf he).1, hb.stopped (hf he).2⟩, ?_⟩
    rcases hend with hstop | ⟨hq, hd⟩
    · exact .inl (hb.stopped hstop)
    · exact .inr ⟨(hb.idle hd).2.trans hq, (hb.idle hd).1⟩

theorem ReaderInv.besides (h : ReaderInv j s)
    (hsame : (s'.reader, s'.answered, s'.progressCompleted, s'.progressDone, s'.readerRc, s'.final) =
      (s.reader, s.answered, s.progressCompleted, s.progressDone, s.readerRc, s.final))
    (hshut : s.shut = true → s'.shut = true) : ReaderInv j s' := by
  simp only [Prod.mk.injEq] at hsame
  obtain ⟨hreader, hanswered, hcompleted, hdone, hrc, hfinal⟩ := hsame
  have hreading : ∀ n told, Reading j n told s → Reading j n told s' := by
    rintro n told ⟨ha, hn, ht, hf⟩
    exact ⟨by rw [hanswered]; exact ha, by rw [hanswered]; exact hn, by rw [hcompleted]; exact ht,
      by rw [hfinal, hanswered]; exact hf⟩
  cases hp : s.reader with simp only [ReaderInv, hreader, hp, hdone, hrc] at h ⊢
  | receiving i | failing i => exact ⟨hreading i i h.1, h.2⟩
  | givingUp i => exact ⟨hreading i i h.1, h.2.1, h.2.2.1, h.2.2.2.1, hshut h.2.2.2.2⟩
  | signalling completed final => exact ⟨hreading _ _ h.1, h.2⟩
  | closing => exact ⟨hreading _ _ h.1, h.2⟩
  | exited =>
    obtain ⟨n, hr, hle, hd, hend⟩ := h
    exact ⟨n, hreading n n hr, hle, hd, hend.imp_right fun hf => ⟨hf.1, hshut hf.2⟩⟩

/-! ## Steps -/

/-- What holds of every state. -/
structure Inv (j : PrefillJob σ η) (session : σ) (s : Pipeline σ η) : Prop where
  ring : Ring j session s
  producer : ProducerInv j session s
  sender : SenderInv s
  reader : ReaderInv j s

theorem inv_init (slots : Nat → SendSlot η) (session : σ) : Inv j session (init j slots session) := by
  refine ⟨⟨?_, ?_, rfl, Nat.zero_le _, Nat.zero_le _, ?_, rfl, Nat.zero_le _⟩, ⟨?_, rfl, ?_, rfl, rfl⟩, ⟨rfl, rfl⟩,
    ⟨?_, PrefillJob.chunkCount_pos, rfl, rfl⟩⟩
  · exact (Nat.zero_mod _).symm
  · exact (Nat.zero_mod _).symm
  · intro k _ hlt
    exact absurd hlt (Nat.not_lt_zero k)
  · exact ⟨Nat.zero_le _, PrefillJob.chunkPos_zero.symm, (UInt64.add_zero _).symm, rfl⟩
  · intro hstop
    exact absurd hstop Bool.false_ne_true
  · refine ⟨?_, rfl, rfl, ?_⟩
    · intro i r hr
      exact absurd hr (by simp [init])
    · intro hcount
      exact absurd hcount PrefillJob.chunkCount_pos.ne

theorem Inv.producer_step (h : Inv j session s) (hring : Ring j session s') (hproducer : ProducerInv j session s')
    (hsame : (s'.sender, s'.sent, s'.taken, s'.senderFailed, s'.reader, s'.answered, s'.progressCompleted,
        s'.progressDone, s'.readerRc, s'.final) =
      (s.sender, s.sent, s.taken, s.senderFailed, s.reader, s.answered, s.progressCompleted, s.progressDone,
        s.readerRc, s.final))
    (hqueued : s.queued ≤ s'.queued) (hidle : s.producerDone = true → s'.producerDone = true ∧ s'.queued = s.queued)
    (hstopped : s.stop = true → s'.stop = true) (hshut : s.shut = true → s'.shut = true) : Inv j session s' := by
  simp only [Prod.mk.injEq] at hsame
  obtain ⟨hsender, hsent, htaken, hfailed, hreader, hanswered, hcompleted, hdone, hrc, hfinal⟩ := hsame
  refine ⟨hring, hproducer, h.sender.besides ⟨?_, hqueued, hidle, hstopped, hshut⟩, h.reader.besides ?_ hshut⟩
  · rw [hsender, hsent, htaken, hfailed]
  · rw [hreader, hanswered, hcompleted, hdone, hrc, hfinal]

theorem Inv.producer_moves (h : Inv j session s) (p : ProducerAt)
    (hproducer : ProducerInv j session { s with producer := p }) : Inv j session { s with producer := p } :=
  h.producer_step (h.ring.same rfl (Nat.le_refl _)) hproducer rfl (Nat.le_refl _) (fun hd => ⟨hd, rfl⟩) id id

theorem Inv.producer_emits (h : Inv j session s) (p : ProducerAt)
    (hproducer : ProducerInv j session { s.emitProgress with producer := p }) :
    Inv j session { s.emitProgress with producer := p } :=
  h.producer_step (h.ring.same rfl (Nat.le_refl _)) hproducer rfl (Nat.le_refl _) (fun hd => ⟨hd, rfl⟩) id id

theorem Inv.flow (h : Inv j session s) (hs : s.producer = .checking) (hpos : s.pos < j.spanEnd) :
    Inv j session { s with
      producer := .reporting
        (!s.progressDone && decide (s.submittedChunks < s.progressCompleted + j.flowWindow)) } := by
  have hp := h.producer
  simp only [ProducerInv, hs] at hp
  apply h.producer_moves
  refine ⟨hp.same rfl hp.uncancelled, ?_⟩
  intro hroom
  rw [Bool.and_eq_true, decide_eq_true_eq] at hroom
  rw [hp.counters.pos, PrefillJob.chunkPos_lt] at hpos
  exact ⟨hpos, hroom.2⟩

theorem Inv.sleepFlow (h : Inv j session s) (hs : s.producer = .checking) :
    Inv j session { s with producer := .sleepingFlow } := by
  have hp := h.producer
  simp only [ProducerInv, hs] at hp
  apply h.producer_moves
  exact hp.same rfl hp.uncancelled

theorem Inv.wokenFlow (h : Inv j session s) (hs : s.producer = .wokenFlow) :
    Inv j session { s.emitProgress with producer := .checking } := by
  have hp := h.producer
  simp only [ProducerInv, hs] at hp
  apply h.producer_emits
  exact hp.same rfl hp.uncancelled

theorem Inv.report (h : Inv j session s) {room : Bool} (hs : s.producer = .reporting room) :
    Inv j session { s.emitProgress with producer := if room = true then .acquiring else .finishing true } := by
  have hp := h.producer
  simp only [ProducerInv, hs] at hp
  apply h.producer_emits
  cases room with
  | true => exact ⟨hp.1.same rfl hp.1.uncancelled, (hp.2 rfl).same rfl (Nat.le_refl _)⟩
  | false => exact ⟨fun hf => absurd hf Bool.false_ne_true.symm, hp.1.producing, hp.1.uncancelled⟩

theorem Inv.loopEnd (h : Inv j session s) (hs : s.producer = .checking) (hpos : ¬s.pos < j.spanEnd) :
    Inv j session { s with producer := .finishing false } := by
  have hp := h.producer
  simp only [ProducerInv, hs] at hp
  rw [hp.counters.pos, PrefillJob.chunkPos_lt] at hpos
  have hall : s.submittedChunks = j.chunkCount := Nat.le_antisymm hp.counters.submitted_le (Nat.le_of_not_lt hpos)
  apply h.producer_moves
  refine ⟨fun _ => ⟨?_, ?_, ?_⟩, hp.producing, hp.uncancelled⟩
  · rw [← hall]
    exact hp.session
  · rw [← hall]
    exact hp.counters.requestId
  · rw [← hall]
    exact hp.put

theorem Inv.acquire (h : Inv j session s) (hs : s.producer = .acquiring) (hready : s.EnqueueReady j) :
    Inv j session { s with
      slot := s.tail
      producer := if s.stop = true ∨ s.senderFailed = true then .finishing true else .evaluating } := by
  have hp := h.producer
  simp only [ProducerInv, hs] at hp
  refine h.producer_step (h.ring.same rfl (Nat.le_refl _)) ?_ rfl (Nat.le_refl _) (fun hd => ⟨hd, rfl⟩) id id
  split_ifs with hstop
  · exact ⟨fun hf => absurd hf Bool.false_ne_true.symm, hp.1.producing, hp.1.uncancelled⟩
  · have hroom : s.queued < j.slotCount :=
      lt_of_le_of_ne h.ring.queued_le (hready.resolve_left fun hs => hstop (.inl hs))
    exact ⟨hp.1.same rfl hp.1.uncancelled, hp.2.same rfl (Nat.le_refl _), rfl, hroom⟩

theorem Inv.sleepSlot (h : Inv j session s) (hs : s.producer = .acquiring) :
    Inv j session { s with producer := .sleepingSlot } := by
  have hp := h.producer
  simp only [ProducerInv, hs] at hp
  apply h.producer_moves
  exact ⟨hp.1.same rfl hp.1.uncancelled, hp.2.same rfl (Nat.le_refl _)⟩

theorem Inv.evalFails (h : Inv j session s) (hs : s.producer = .evaluating) (session' : σ) (hidden : η) :
    Inv j session { s.putHidden hidden with session := session', producer := .finishing true } := by
  have hp := h.producer
  simp only [ProducerInv, hs] at hp
  have hring : Ring j session (s.putHidden hidden) := h.ring.write hp.2.2.room hp.2.2.slot _
  refine h.producer_step (hring.same rfl (Nat.le_refl _)) ?_ rfl (Nat.le_refl _) (fun hd => ⟨hd, rfl⟩) id id
  exact ⟨fun hf => absurd hf Bool.false_ne_true.symm, hp.1.producing, hp.1.uncancelled⟩

theorem Inv.eval (h : Inv j session s) (hs : s.producer = .evaluating) :
    Inv j session { s.putHidden (j.evalChunk s.session s.pos).2 with
      session := (j.evalChunk s.session s.pos).1
      producer := .filling } := by
  have hp := h.producer
  simp only [ProducerInv, hs] at hp
  obtain ⟨hl, hr, hh⟩ := hp
  have hring : Ring j session (s.putHidden (j.evalChunk s.session s.pos).2) := h.ring.write hh.room hh.slot _
  refine h.producer_step (hring.same rfl (Nat.le_refl _)) ?_ rfl (Nat.le_refl _) (fun hd => ⟨hd, rfl⟩) id id
  refine ⟨⟨⟨hl.counters.1, hl.counters.2, hl.counters.3, hl.counters.4⟩, hl.producing, hl.uncancelled, hl.put, ?_⟩,
    hr.same rfl (Nat.le_refl _), ⟨hh.slot, hh.room⟩, ?_⟩
  · change (j.evalChunk s.session s.pos).1 = j.sessionAt session (s.submittedChunks + 1)
    rw [hl.session, hl.counters.pos]
    rfl
  · change (Function.update s.slots s.slot _ s.slot).hidden = j.rowsAt session s.submittedChunks
    rw [Function.update_self, hl.session, hl.counters.pos]
    rfl

theorem Inv.fill (h : Inv j session s) (hs : s.producer = .filling) :
    Inv j session { s.fillSlot j with producer := .enqueuing } := by
  have hp := h.producer
  simp only [ProducerInv, hs] at hp
  obtain ⟨hl, hr, hh, hrows⟩ := hp
  have hring : Ring j session (s.fillSlot j) := h.ring.write hh.room hh.slot _
  refine h.producer_step (hring.same rfl (Nat.le_refl _)) ?_ rfl (Nat.le_refl _) (fun hd => ⟨hd, rfl⟩) id id
  refine ⟨hl.same rfl hl.uncancelled, hr.same rfl (Nat.le_refl _), ⟨hh.slot, hh.room⟩, ?_⟩
  change Function.update s.slots s.slot _ s.slot = j.chunkSlot session s.submittedChunks
  rw [Function.update_self, hrows, hl.counters.requestId, hl.counters.nextPrefixHash,
    PrefillJob.expectedHashes_getD hr.lt, hl.counters.pos, PrefillJob.chunkPos_succ hr.lt]
  rfl

theorem Inv.enqueue (h : Inv j session s) (hs : s.producer = .enqueuing) :
    Inv j session { s with
      tail := (s.tail + 1) % j.slotCount
      queued := s.queued + 1
      put := s.put + 1
      producer := .advancing } := by
  have hp := h.producer
  simp only [ProducerInv, hs] at hp
  obtain ⟨hl, hr, hh, hslot⟩ := hp
  have hput : s.put = s.submittedChunks := hl.put
  have hring := h.ring.enqueue hh.room (hput ▸ hr.lt) (hput ▸ hr.window) (by rw [← hh.slot, hput]; exact hslot)
  refine h.producer_step (hring.same rfl (Nat.le_refl _)) ?_ rfl (Nat.le_succ _) ?_ id id
  · exact ⟨⟨⟨hl.counters.1, hl.counters.2, hl.counters.3, hl.counters.4⟩, hl.producing, hl.uncancelled,
      congrArg (· + 1) hput, hl.session⟩, hr.same rfl (Nat.le_refl _), hslot⟩
  · intro hdone
    exact absurd (hdone.symm.trans hl.producing) Bool.false_ne_true.symm

theorem Inv.enqueueFails (h : Inv j session s) (hs : s.producer = .enqueuing) :
    Inv j session { s with producer := .finishing true } := by
  have hp := h.producer
  simp only [ProducerInv, hs] at hp
  apply h.producer_moves
  exact ⟨fun hf => absurd hf Bool.false_ne_true.symm, hp.1.producing, hp.1.uncancelled⟩

theorem Inv.advance (h : Inv j session s) (hs : s.producer = .advancing) :
    Inv j session { s.emitProgress.advance j with producer := .checking } := by
  have hp := h.producer
  simp only [ProducerInv, hs] at hp
  obtain ⟨hl, hr, hslot⟩ := hp
  refine h.producer_step (h.ring.same rfl (Nat.le_refl _)) ?_ rfl (Nat.le_refl _) (fun hd => ⟨hd, rfl⟩) id id
  refine ⟨⟨hr.lt, ?_, ?_, ?_⟩, hl.producing, hl.uncancelled, hl.put, hl.session⟩
  · change s.pos + j.chunkAt s.pos = j.chunkPos (s.submittedChunks + 1)
    rw [hl.counters.pos, PrefillJob.chunkPos_succ hr.lt]
  · change s.requestId + 1 = j.requestId + UInt64.ofNat (s.submittedChunks + 1)
    rw [hl.counters.requestId, PrefillJob.ofNat_succ]
  · change (s.slots s.slot).resultHash = tokenHashPrefix (j.prompt.take (s.pos + j.chunkAt s.pos))
    rw [hslot, hl.counters.pos, PrefillJob.chunkPos_succ hr.lt]
    rfl

theorem Inv.finish (h : Inv j session s) (hs : s.producer = .finishing false) :
    Inv j session { s with producerDone := true, producer := .joiningSender false } := by
  have hp := h.producer
  simp only [ProducerInv, hs] at hp
  obtain ⟨hc, -, hu⟩ := hp
  have hcomplete := hc trivial
  refine h.producer_step (h.ring.same rfl (Nat.le_refl _)) ?_ rfl (Nat.le_refl _) (fun _ => ⟨rfl, rfl⟩) id id
  exact ⟨rfl, fun _ => ⟨⟨hcomplete.1, hcomplete.2, hcomplete.3⟩, rfl, hu⟩, fun hf => absurd hf Bool.false_ne_true⟩

theorem Inv.cancel (h : Inv j session s) :
    Inv j session { s with producerDone := true, stop := true, producer := .shuttingSender } :=
  h.producer_step (h.ring.same rfl (Nat.le_refl _)) ⟨rfl, rfl⟩ rfl (Nat.le_refl _) (fun _ => ⟨rfl, rfl⟩)
    (fun _ => rfl) id

theorem Inv.cancelShut (h : Inv j session s) (hs : s.producer = .shuttingSender) :
    Inv j session { s with shut := true, producer := .joiningSender true } := by
  have hp := h.producer
  simp only [ProducerInv, hs] at hp
  refine h.producer_step (h.ring.same rfl (Nat.le_refl _)) ?_ rfl (Nat.le_refl _) (fun hd => ⟨hd, rfl⟩) id
    (fun _ => rfl)
  exact ⟨hp.1, fun hf => absurd hf Bool.false_ne_true.symm, fun _ => rfl⟩

theorem Inv.joinSender (h : Inv j session s) {failed : Bool} (hs : s.producer = .joiningSender failed)
    (hexit : s.sender = .exited) :
    Inv j session { s with
      producer := if failed = true ∨ s.senderFailed = true then .closing else .waitingProgress } := by
  have hp := h.producer
  simp only [ProducerInv, hs] at hp
  obtain ⟨hd, hsub, -⟩ := hp
  apply h.producer_moves
  split_ifs with hfailed
  · exact ⟨hd, hexit⟩
  · rw [not_or, Bool.not_eq_true, Bool.not_eq_true] at hfailed
    have hsubmitted := hsub hfailed.1
    exact ⟨hsubmitted.same rfl hsubmitted.uncancelled, hexit, hfailed.2⟩

theorem Inv.close (h : Inv j session s) (hs : s.producer = .closing) :
    Inv j session { s with shut := true, producer := .joiningReader true } := by
  have hp := h.producer
  simp only [ProducerInv, hs] at hp
  refine h.producer_step (h.ring.same rfl (Nat.le_refl _)) ?_ rfl (Nat.le_refl _) (fun hd => ⟨hd, rfl⟩) id
    (fun _ => rfl)
  exact ⟨hp.1, hp.2, fun hf => absurd hf Bool.false_ne_true.symm, fun _ => rfl⟩

theorem SentAll.moves (h : SentAll j session s)
    (hsame : (s'.session, s'.requestId, s'.put, s'.producerDone, s'.stop, s'.senderFailed, s'.sender) =
      (s.session, s.requestId, s.put, s.producerDone, s.stop, s.senderFailed, s.sender)) :
    SentAll j session s' := by
  simp only [Prod.mk.injEq] at hsame
  obtain ⟨hsession, hid, hput, hdone, hstop, hfailed, hsender⟩ := hsame
  refine h.same (by rw [hsession, hid, hput, hdone]) ?_ ⟨hsender.trans h.sender, hfailed⟩
  intro hs
  rw [hfailed]
  exact h.submitted.uncancelled (hstop ▸ hs)

theorem Inv.progress (h : Inv j session s) (hs : s.producer = .waitingProgress)
    (hready : s.ProgressReady) : Inv j session { s with producer := .emitting s.progressDone } := by
  have hp := h.producer
  simp only [ProducerInv, hs] at hp
  apply h.producer_moves
  refine ⟨hp.moves rfl, id, ?_⟩
  intro hdone
  exact hready.resolve_right fun ht => absurd (hdone.symm.trans ht) Bool.false_ne_true

theorem Inv.sleepProgress (h : Inv j session s) (hs : s.producer = .waitingProgress) :
    Inv j session { s with producer := .sleepingProgress } := by
  have hp := h.producer
  simp only [ProducerInv, hs] at hp
  apply h.producer_moves
  exact hp.moves rfl

theorem Inv.emit (h : Inv j session s) {done : Bool} (hs : s.producer = .emitting done) :
    Inv j session { s.emitProgress with producer := .concluding done } := by
  have hp := h.producer
  simp only [ProducerInv, hs] at hp
  apply h.producer_emits
  exact ⟨hp.1.moves rfl, fun ht => ⟨hp.2.1 ht, Nat.le_max_right _ _⟩⟩

theorem Inv.conclude (h : Inv j session s) {done : Bool} (hs : s.producer = .concluding done) :
    Inv j session { s with
      producer :=
        if done = true ∧ s.progressCompleted ≤ s.reportedChunks then .joiningReader false
        else .waitingProgress } := by
  have hp := h.producer
  simp only [ProducerInv, hs] at hp
  have hall := hp.1
  apply h.producer_moves
  split_ifs
  · exact ⟨hall.submitted.producerDone, hall.sender, fun _ => hall.moves rfl, fun hf => absurd hf Bool.false_ne_true⟩
  · exact hall.moves rfl

theorem result_zero {failed : Bool} {headRc : Int} (h : (s.result j failed headRc).1 = 0) :
    s.readerRc = 0 ∧ failed = false ∧ ∃ r, s.final = some r ∧
      (r.kind = .logits ∧ r.payload.length = j.logitsBytes ∧ (s.result j failed headRc).2 = some r.payload ∨
        r.kind = .hiddenState ∧ (s.result j failed headRc).2 =
          some (j.evalOutputHead s.session r.payload (j.nTokens - (j.chunkCount - 1) * j.chunkCap))) := by
  rw [result] at h ⊢
  by_cases hrc : s.readerRc ≠ 0
  · rw [if_pos hrc] at h
    exact absurd h hrc
  rw [if_neg hrc] at h ⊢
  by_cases hfailed : failed = true
  · rw [if_pos hfailed] at h
    exact absurd h Int.one_ne_zero
  rw [if_neg hfailed] at h ⊢
  refine ⟨not_not.mp hrc, Bool.not_eq_true _ ▸ hfailed, ?_⟩
  cases hfinal : s.final with
  | none =>
    rw [hfinal] at h
    exact absurd h Int.one_ne_zero
  | some r =>
    rw [hfinal] at h
    refine ⟨r, rfl, ?_⟩
    dsimp only at h ⊢
    split_ifs at h ⊢ with hlogits hhidden hhead
    · exact .inl ⟨hlogits.1, hlogits.2, rfl⟩
    · exact absurd h hhead
    · exact .inr ⟨hhidden.1, rfl⟩
    · exact absurd h Int.one_ne_zero

theorem Inv.joinReader (h : Inv j session s) {failed : Bool} (hs : s.producer = .joiningReader failed)
    (hexit : s.reader = .exited) (headRc : Int) :
    Inv j session { s with
      producer := .returned (s.result j failed headRc).1 (s.result j failed headRc).2 } := by
  have hp := h.producer
  simp only [ProducerInv, hs] at hp
  obtain ⟨hd, he, hall, -⟩ := hp
  apply h.producer_moves
  refine ⟨hd, he, hexit, ?_⟩
  intro hzero
  obtain ⟨hrc, hfailed, hlogits⟩ := result_zero hzero
  exact ⟨(hall hfailed).moves rfl, hrc, hlogits⟩

theorem Inv.sender_step (h : Inv j session s) (hring : Ring j session s') (hsender : SenderInv s') (ho : Others s s')
    (hsame : (s'.reader, s'.answered, s'.progressCompleted, s'.progressDone, s'.readerRc, s'.final) =
      (s.reader, s.answered, s.progressCompleted, s.progressDone, s.readerRc, s.final)) : Inv j session s' :=
  ⟨hring, h.producer.others ho, hsender, h.reader.besides hsame ho.shut⟩

theorem Inv.take (h : Inv j session s) (hs : s.sender = .waiting) (hready : s.DequeueReady) :
    Inv j session { s with
      sender := if s.stop = true ∨ s.queued = 0 ∧ s.producerDone = true then .exited else .sending } := by
  have hp := h.sender
  simp only [SenderInv, hs] at hp
  refine h.sender_step (h.ring.same rfl (Nat.le_refl _)) ?_
    ⟨rfl, Nat.le_refl _, fun hd => ⟨hd, rfl⟩, Nat.le_refl _, .inl, id, id, id,
      fun he => (nomatch hs.symm.trans he), fun he => ⟨he, rfl, rfl⟩⟩ rfl
  split_ifs with hend
  · exact ⟨hp.1, fun hf => absurd (hf.symm.trans hp.2) Bool.false_ne_true.symm, hend⟩
  · rw [not_or, not_and] at hend
    have hqueued : s.queued ≠ 0 := by
      intro hzero
      rcases hready with hstop | hq | hd
      · exact hend.1 hstop
      · exact hq hzero
      · exact hend.2 hzero hd
    exact ⟨hp.1, Nat.pos_of_ne_zero hqueued, hp.2⟩

theorem Inv.sleepSender (h : Inv j session s) (hs : s.sender = .waiting) :
    Inv j session { s with sender := .sleeping } := by
  have hp := h.sender
  simp only [SenderInv, hs] at hp
  exact h.sender_step (h.ring.same rfl (Nat.le_refl _)) hp
    ⟨rfl, Nat.le_refl _, fun hd => ⟨hd, rfl⟩, Nat.le_refl _, .inl, id, id, id,
      fun he => (nomatch hs.symm.trans he), fun he => ⟨he, rfl, rfl⟩⟩ rfl

theorem Inv.send (h : Inv j session s) (hs : s.sender = .sending) :
    Inv j session { s with sent := s.sent ++ [frameOf j (s.slots s.head)], sender := .sendDone } := by
  have hp := h.sender
  simp only [SenderInv, hs] at hp
  obtain ⟨hsent, hqueued, hfailed⟩ := hp
  refine h.sender_step ((h.ring.send hqueued hsent).same rfl (Nat.le_refl _)) ?_
    ⟨rfl, Nat.le_refl _, fun hd => ⟨hd, rfl⟩, Nat.le_refl _, .inl, id, id, id,
      fun he => (nomatch hs.symm.trans he), fun he => ⟨he, rfl, rfl⟩⟩ rfl
  refine ⟨?_, hqueued, hfailed⟩
  change (s.sent ++ [_]).length = s.taken + 1
  rw [List.length_append, hsent]
  rfl

theorem Inv.sendBreaks (h : Inv j session s) (hs : s.sender = .sending) :
    Inv j session { s with sender := .sendFailed } := by
  have hp := h.sender
  simp only [SenderInv, hs] at hp
  exact h.sender_step (h.ring.same rfl (Nat.le_refl _)) ⟨hp.1, hp.2.2⟩
    ⟨rfl, Nat.le_refl _, fun hd => ⟨hd, rfl⟩, Nat.le_refl _, .inl, id, id, id,
      fun he => (nomatch hs.symm.trans he), fun he => ⟨he, rfl, rfl⟩⟩ rfl

theorem Inv.sent (h : Inv j session s) (hs : s.sender = .sendDone) :
    Inv j session { s with
      head := (s.head + 1) % j.slotCount
      queued := s.queued - 1
      taken := s.taken + 1
      sender := .waiting } := by
  have hp := h.sender
  simp only [SenderInv, hs] at hp
  obtain ⟨hsent, hqueued, hfailed⟩ := hp
  exact h.sender_step ((h.ring.dequeue hqueued).same rfl (Nat.le_refl _)) ⟨hsent, hfailed⟩
    ⟨rfl, Nat.le_refl _, fun hd => ⟨hd, rfl⟩, Nat.sub_le _ _, .inl, id, id, id,
      fun he => (nomatch hs.symm.trans he), fun he => ⟨he, rfl, rfl⟩⟩ rfl

theorem Inv.failSender (h : Inv j session s) (hs : s.sender = .sendFailed) :
    Inv j session { s with senderFailed := true, stop := true, sender := .stopping } := by
  have hp := h.sender
  simp only [SenderInv, hs] at hp
  exact h.sender_step (h.ring.same rfl (Nat.le_refl _)) ⟨hp.1, rfl, rfl⟩
    ⟨rfl, Nat.le_refl _, fun hd => ⟨hd, rfl⟩, Nat.le_refl _, fun _ => .inr rfl, fun _ => rfl, fun _ => rfl, id,
      fun he => (nomatch hs.symm.trans he), fun he => ⟨he, rfl, rfl⟩⟩ rfl

theorem Inv.stopSender (h : Inv j session s) (hs : s.sender = .stopping) :
    Inv j session { s with shut := true, sender := .exited } := by
  have hp := h.sender
  simp only [SenderInv, hs] at hp
  obtain ⟨hsent, hfailed, hstop⟩ := hp
  exact h.sender_step (h.ring.same rfl (Nat.le_refl _)) ⟨hsent, fun _ => ⟨rfl, hstop⟩, .inl hstop⟩
    ⟨rfl, Nat.le_refl _, fun hd => ⟨hd, rfl⟩, Nat.le_refl _, .inl, id, id, fun _ => rfl,
      fun he => (nomatch hs.symm.trans he), fun he => ⟨he, rfl, rfl⟩⟩ rfl

theorem Inv.reader_step (h : Inv j session s) (hreader : ReaderInv j s') (ho : Others s s')
    (hring : (s'.slots, s'.head, s'.tail, s'.queued, s'.put, s'.taken, s'.sent) =
      (s.slots, s.head, s.tail, s.queued, s.put, s.taken, s.sent))
    (hb : BesidesSender s s') : Inv j session s' :=
  ⟨h.ring.same hring ho.completed, h.producer.others ho, h.sender.besides hb, hreader⟩

theorem Reading.accept {i : Nat} (h : Reading j i i s) {r : SpanResult} (hr : Accepts j i r)
    (hsame : (s'.answered, s'.progressCompleted) = (s.answered ++ [r], s.progressCompleted))
    (hfinal : s'.final = if i + 1 = j.chunkCount then some r else s.final) : Reading j (i + 1) i s' := by
  simp only [Prod.mk.injEq] at hsame
  obtain ⟨hanswered, hcompleted⟩ := hsame
  constructor
  · intro k q hq
    rw [hanswered] at hq
    rcases Nat.lt_or_ge k s.answered.length with hk | hk
    · rw [List.getElem?_append_left hk] at hq
      exact h.accepted k q hq
    · rw [List.getElem?_append_right hk, List.getElem?_singleton] at hq
      split_ifs at hq with hzero
      have hki : k = i := by
        have := h.answered
        omega
      cases hq
      rw [hki]
      exact hr
  · rw [hanswered, List.length_append, h.answered]
    rfl
  · rw [hcompleted]
    exact h.completed
  · intro hcount
    rw [hfinal, if_pos hcount, hanswered, List.getLast?_append]
    rfl

theorem Reading.signal {n told : Nat} (h : Reading j n told s) (htold : told ≤ n) {done : Bool} :
    Reading j n n (s.signalProgress n done) := by
  refine ⟨h.accepted, h.answered, ?_, h.final⟩
  change max s.progressCompleted n = n
  rw [h.completed]
  exact Nat.max_eq_right htold

theorem Inv.receive (h : Inv j session s) {i : Nat} (hs : s.reader = .receiving i) {r : SpanResult}
    (hr : Accepts j i r) :
    Inv j session { s with
      answered := s.answered ++ [r]
      final := if i + 1 = j.chunkCount then some r else s.final
      reader := .signalling (i + 1) (i + 1 = j.chunkCount) } := by
  have hp := h.reader
  simp only [ReaderInv, hs] at hp
  obtain ⟨hreading, hi, hdone, hrc⟩ := hp
  refine h.reader_step ?_
    ⟨rfl, Nat.le_refl _, fun hd => ⟨hd, rfl⟩, Nat.le_refl _, .inl, id, id, id, fun he => ⟨he, rfl⟩,
      fun he => (nomatch hs.symm.trans he)⟩ rfl ⟨rfl, Nat.le_refl _, fun hd => ⟨hd, rfl⟩, id, id⟩
  exact ⟨hreading.accept hr rfl rfl, hi, rfl, hdone, hrc⟩

theorem Inv.receiveFails (h : Inv j session s) {i : Nat} (hs : s.reader = .receiving i) {rc : Int} (hrc : rc ≠ 0) :
    Inv j session { s with readerRc := rc, reader := .failing i } := by
  have hp := h.reader
  simp only [ReaderInv, hs] at hp
  obtain ⟨⟨ha, hn, hc, hf⟩, hi, hdone, -⟩ := hp
  refine h.reader_step ?_
    ⟨rfl, Nat.le_refl _, fun hd => ⟨hd, rfl⟩, Nat.le_refl _, .inl, id, id, id, fun he => ⟨he, rfl⟩,
      fun he => (nomatch hs.symm.trans he)⟩ rfl ⟨rfl, Nat.le_refl _, fun hd => ⟨hd, rfl⟩, id, id⟩
  exact ⟨⟨ha, hn, hc, hf⟩, hi, hdone, hrc⟩

theorem Inv.failReader (h : Inv j session s) {i : Nat} (hs : s.reader = .failing i) :
    Inv j session { s with shut := true, reader := .givingUp i } := by
  have hp := h.reader
  simp only [ReaderInv, hs] at hp
  obtain ⟨⟨ha, hn, hc, hf⟩, hi, hdone, hrc⟩ := hp
  refine h.reader_step ?_
    ⟨rfl, Nat.le_refl _, fun hd => ⟨hd, rfl⟩, Nat.le_refl _, .inl, id, id, fun _ => rfl, fun he => ⟨he, rfl⟩,
      fun he => (nomatch hs.symm.trans he)⟩ rfl ⟨rfl, Nat.le_refl _, fun hd => ⟨hd, rfl⟩, id, fun _ => rfl⟩
  exact ⟨⟨ha, hn, hc, hf⟩, hi, hdone, hrc, rfl⟩

theorem Inv.giveUp (h : Inv j session s) {i : Nat} (hs : s.reader = .givingUp i) :
    Inv j session { s.signalProgress i true with reader := .exited } := by
  have hp := h.reader
  simp only [ReaderInv, hs] at hp
  obtain ⟨hreading, hi, hdone, hrc, hshut⟩ := hp
  have hsignal := @Reading.signal _ _ _ _ _ _ hreading (Nat.le_refl _) true
  refine h.reader_step ?_
    ⟨rfl, Nat.le_max_left _ _, fun hd => absurd (hd.symm.trans hdone) Bool.false_ne_true.symm, Nat.le_refl _,
      .inl, id, id, id, fun he => ⟨he, rfl⟩, fun he => (nomatch hs.symm.trans he)⟩ rfl
    ⟨rfl, Nat.le_refl _, fun hd => ⟨hd, rfl⟩, id, id⟩
  exact ⟨i, ⟨hsignal.1, hsignal.2, hsignal.3, hsignal.4⟩, hi.le, Bool.or_true _, .inr ⟨hrc, hshut⟩⟩

theorem Inv.signal (h : Inv j session s) {completed : Nat} {final : Bool}
    (hs : s.reader = .signalling completed final) :
    Inv j session { s.signalProgress completed final with
      reader := if completed = j.chunkCount then .closing else .receiving completed } := by
  have hp := h.reader
  simp only [ReaderInv, hs] at hp
  obtain ⟨hreading, hle, hfinal, hdone, hrc⟩ := hp
  have hsignal := @Reading.signal _ _ _ _ _ _ hreading (Nat.sub_le _ _) final
  refine h.reader_step ?_
    ⟨rfl, Nat.le_max_left _ _, fun hd => absurd (hd.symm.trans hdone) Bool.false_ne_true.symm, Nat.le_refl _,
      .inl, id, id, id, fun he => ⟨he, rfl⟩, fun he => (nomatch hs.symm.trans he)⟩ rfl
    ⟨rfl, Nat.le_refl _, fun hd => ⟨hd, rfl⟩, id, id⟩
  have hdone' : (s.progressDone || final) = final := by rw [hdone, Bool.false_or]
  split_ifs with hcount
  · rw [hcount] at hsignal
    rw [decide_eq_true hcount] at hfinal
    refine ⟨⟨hsignal.1, hsignal.2, ?_, hsignal.4⟩, hdone'.trans hfinal, hrc⟩
    rw [hcount]
    exact hsignal.3
  · rw [decide_eq_false hcount] at hfinal
    exact ⟨⟨hsignal.1, hsignal.2, hsignal.3, hsignal.4⟩, lt_of_le_of_ne hle hcount, hdone'.trans hfinal, hrc⟩

theorem Inv.closeReader (h : Inv j session s) (hs : s.reader = .closing) :
    Inv j session { s.signalProgress j.chunkCount true with reader := .exited } := by
  have hp := h.reader
  simp only [ReaderInv, hs] at hp
  obtain ⟨hreading, -, hrc⟩ := hp
  have hsignal := @Reading.signal _ _ _ _ _ _ hreading (Nat.le_refl _) true
  refine h.reader_step ?_
    ⟨rfl, Nat.le_max_left _ _, fun hd => ⟨Bool.or_true _, hsignal.completed.trans hreading.completed.symm⟩,
      Nat.le_refl _, .inl, id, id, id, fun he => ⟨he, rfl⟩, fun he => (nomatch hs.symm.trans he)⟩ rfl
    ⟨rfl, Nat.le_refl _, fun hd => ⟨hd, rfl⟩, id, id⟩
  exact ⟨j.chunkCount, ⟨hsignal.1, hsignal.2, hsignal.3, hsignal.4⟩, Nat.le_refl _, Bool.or_true _, .inl ⟨hrc, rfl⟩⟩

/-! ### Signals -/

theorem signalCanEnqueue_cases (s : Pipeline σ η) :
    s.producer ≠ .sleepingSlot ∧ s.signalCanEnqueue = s ∨
      s.producer = .sleepingSlot ∧ s.signalCanEnqueue = { s with producer := .acquiring } := by
  rw [signalCanEnqueue]
  split
  next hp => exact .inr ⟨hp, rfl⟩
  next hp => exact .inl ⟨hp, rfl⟩

theorem signalCanDequeue_cases (s : Pipeline σ η) :
    s.sender ≠ .sleeping ∧ s.signalCanDequeue = s ∨
      s.sender = .sleeping ∧ s.signalCanDequeue = { s with sender := .waiting } := by
  rw [signalCanDequeue]
  split
  next hp => exact .inr ⟨hp, rfl⟩
  next hp => exact .inl ⟨hp, rfl⟩

theorem signalProgressCv_cases (s : Pipeline σ η) :
    (s.producer ≠ .sleepingFlow ∧ s.producer ≠ .sleepingProgress) ∧ s.signalProgressCv = s ∨
      s.producer = .sleepingFlow ∧ s.signalProgressCv = { s with producer := .wokenFlow } ∨
      s.producer = .sleepingProgress ∧ s.signalProgressCv = { s with producer := .waitingProgress } := by
  rw [signalProgressCv]
  split
  next hp => exact .inr (.inl ⟨hp, rfl⟩)
  next hp => exact .inr (.inr ⟨hp, rfl⟩)
  next hf hp => exact .inl ⟨⟨hf, hp⟩, rfl⟩

theorem Inv.signalCanEnqueue (h : Inv j session s) : Inv j session s.signalCanEnqueue := by
  rcases signalCanEnqueue_cases s with ⟨-, heq⟩ | ⟨hs, heq⟩
  · rw [heq]
    exact h
  · have hp := h.producer
    simp only [ProducerInv, hs] at hp
    rw [heq]
    apply h.producer_moves
    exact ⟨hp.1.same rfl hp.1.uncancelled, hp.2.same rfl (Nat.le_refl _)⟩

theorem Inv.signalCanDequeue (h : Inv j session s) : Inv j session s.signalCanDequeue := by
  rcases signalCanDequeue_cases s with ⟨-, heq⟩ | ⟨hs, heq⟩
  · rw [heq]
    exact h
  · have hp := h.sender
    simp only [SenderInv, hs] at hp
    rw [heq]
    exact h.sender_step (h.ring.same rfl (Nat.le_refl _)) hp
      ⟨rfl, Nat.le_refl _, fun hd => ⟨hd, rfl⟩, Nat.le_refl _, .inl, id, id, id,
        fun he => (nomatch hs.symm.trans he), fun he => ⟨he, rfl, rfl⟩⟩ rfl

theorem Inv.signalProgressCv (h : Inv j session s) : Inv j session s.signalProgressCv := by
  rcases signalProgressCv_cases s with ⟨-, heq⟩ | ⟨hs, heq⟩ | ⟨hs, heq⟩
  · rw [heq]
    exact h
  · have hp := h.producer
    simp only [ProducerInv, hs] at hp
    rw [heq]
    apply h.producer_moves
    exact hp.same rfl hp.uncancelled
  · have hp := h.producer
    simp only [ProducerInv, hs] at hp
    rw [heq]
    apply h.producer_moves
    exact hp.moves rfl

/-- **A step keeps the invariant.** -/
theorem Inv.step {cause : Cause} (h : Inv j session s) (hstep : Step j cause s s') : Inv j session s' := by
  cases hstep with
  | flow hs hpos _ => exact h.flow hs hpos
  | sleepFlow hs _ _ => exact h.sleepFlow hs
  | wokenFlow hs => exact h.wokenFlow hs
  | report hs => exact h.report hs
  | loopEnd hs hpos => exact h.loopEnd hs hpos
  | acquire hs hready => exact h.acquire hs hready
  | sleepSlot hs _ => exact h.sleepSlot hs
  | evalFails hs session' hidden => exact h.evalFails hs session' hidden
  | eval hs => exact h.eval hs
  | fill hs => exact h.fill hs
  | enqueue hs _ => exact (h.enqueue hs).signalCanDequeue
  | enqueueFails hs _ => exact h.enqueueFails hs
  | advance hs => exact h.advance hs
  | finish hs => exact (h.finish hs).signalCanDequeue
  | cancel _ => exact h.cancel.signalCanEnqueue.signalCanDequeue
  | cancelShut hs => exact h.cancelShut hs
  | joinSender hs hexit => exact h.joinSender hs hexit
  | close hs => exact h.close hs
  | progress hs hready => exact h.progress hs hready
  | sleepProgress hs _ => exact h.sleepProgress hs
  | emit hs => exact h.emit hs
  | conclude hs => exact h.conclude hs
  | joinReader hs hexit headRc => exact h.joinReader hs hexit headRc
  | take hs hready => exact h.take hs hready
  | sleepSender hs _ => exact h.sleepSender hs
  | send hs _ => exact h.send hs
  | sendBreaks hs => exact h.sendBreaks hs
  | sendShut hs _ => exact h.sendBreaks hs
  | sent hs => exact (h.sent hs).signalCanEnqueue
  | failSender hs => exact (h.failSender hs).signalCanEnqueue.signalCanDequeue
  | stopSender hs => exact h.stopSender hs
  | receive hs r hr => exact h.receive hs hr
  | receiveFails hs rc hrc => exact h.receiveFails hs hrc
  | receiveShut hs _ => exact h.receiveFails hs Int.one_ne_zero
  | failReader hs => exact h.failReader hs
  | giveUp hs => exact (h.giveUp hs).signalProgressCv
  | signal hs => exact (h.signal hs).signalProgressCv
  | closeReader hs => exact (h.closeReader hs).signalProgressCv
  | wakeSlot _ => exact h.signalCanEnqueue
  | wakeProgress _ => exact h.signalProgressCv
  | wakeSender _ => exact h.signalCanDequeue

theorem Reach.inv {slots : Nat → SendSlot η} (h : Reach j slots session s) : Inv j session s := by
  induction h with
  | init => exact inv_init slots session
  | step _ hstep ih => exact ih.step hstep

end Pipeline

end Ds4.Dist
