import Ds4.Dist.PrefillRuns

/-!
# How a pipelined prefill ends

Every step leaves less to do, and where no thread can go on by itself all of them have ended, or nothing has
failed and the network is waited for. A prefill that returns zero has done what the loop over the chunks does.
-/

namespace Ds4.Dist

open Ds4.Lib

/-! ## What is left to do -/

/-- The steps that the calling thread has left, besides those of the chunks behind this one. A step that signals
pays for the thread that it wakes. -/
def ProducerAt.left : ProducerAt → Nat
  | .wokenFlow => 42
  | .checking => 41
  | .sleepingFlow => 40
  | .reporting _ => 39
  | .acquiring => 38
  | .sleepingSlot => 37
  | .evaluating => 36
  | .filling => 35
  | .enqueuing => 34
  | .advancing => 31
  | .finishing _ => 30
  | .shuttingSender => 27
  | .joiningSender _ => 25
  | .concluding false => 22
  | .closing => 21
  | .waitingProgress => 20
  | .sleepingProgress => 19
  | .emitting _ => 18
  | .concluding true => 15
  | .joiningReader _ => 10
  | .returned _ _ => 0

/-- The steps that the sender has left, besides those of the slots behind this one. -/
def SenderAt.left : SenderAt → Nat
  | .waiting => 20
  | .sleeping => 19
  | .sending => 18
  | .sendDone => 17
  | .sendFailed => 16
  | .stopping => 10
  | .exited => 0

/-- Whether the calling thread sleeps. -/
def ProducerAt.Sleeps : ProducerAt → Prop
  | .sleepingFlow | .sleepingSlot | .sleepingProgress => True
  | _ => False

namespace Pipeline

variable {σ η : Type} (j : PrefillJob σ η) {session : σ} {s s' : Pipeline σ η}

/-- The steps that the reader has left. -/
def readerLeft : ReaderAt → Nat
  | .receiving i => 6 * (j.chunkCount - i) + 20
  | .failing _ => 12
  | .givingUp _ => 11
  | .signalling completed _ => 6 * (j.chunkCount - completed) + 25
  | .closing => 10
  | .exited => 0

/-- A bound on the steps that are left. -/
def left (s : Pipeline σ η) : Nat :=
  (12 * (j.chunkCount - s.submittedChunks) + 5 * (j.chunkCount - s.reportedChunks) + s.producer.left) +
    (5 * (j.chunkCount - s.taken) + s.sender.left) + readerLeft j s.reader

variable {j}

theorem Reading.completed_le {n told : Nat} (h : Reading j n told s) (htold : told ≤ j.chunkCount) :
    s.progressCompleted ≤ j.chunkCount := h.completed.trans_le htold

theorem Inv.completed_le (h : Inv j session s) : s.progressCompleted ≤ j.chunkCount := by
  have hr := h.reader
  cases hp : s.reader with simp only [ReaderInv, hp] at hr
  | receiving i | failing i | givingUp i => exact hr.1.completed_le hr.2.1.le
  | signalling completed final => exact hr.1.completed_le ((Nat.sub_le _ _).trans hr.2.1)
  | closing => exact hr.1.completed_le (Nat.le_refl _)
  | exited =>
    obtain ⟨n, hreading, hle, -⟩ := hr
    exact hreading.completed_le hle

theorem emit_left (s : Pipeline σ η) : j.chunkCount - s.emitProgress.reportedChunks ≤ j.chunkCount - s.reportedChunks :=
  Nat.sub_le_sub_left (Nat.le_max_left _ _) _

theorem emit_left_lt (h : Inv j session s) (hnews : s.reportedChunks < s.progressCompleted) :
    j.chunkCount - s.emitProgress.reportedChunks < j.chunkCount - s.reportedChunks := by
  have hle := h.completed_le
  change j.chunkCount - max s.reportedChunks s.progressCompleted < j.chunkCount - s.reportedChunks
  rw [Nat.max_eq_right hnews.le]
  omega

theorem left_producer {k : Nat} (hsame : (s'.taken, s'.sender, s'.reader) = (s.taken, s.sender, s.reader))
    (hlt : 12 * (j.chunkCount - s'.submittedChunks) + 5 * (j.chunkCount - s'.reportedChunks) + s'.producer.left + k <
      12 * (j.chunkCount - s.submittedChunks) + 5 * (j.chunkCount - s.reportedChunks) + s.producer.left) :
    s'.left j + k < s.left j := by
  simp only [Prod.mk.injEq] at hsame
  obtain ⟨htaken, hsender, hreader⟩ := hsame
  rw [left, left, htaken, hsender, hreader]
  omega

theorem left_moves {k : Nat} (hsame : (s'.taken, s'.sender, s'.reader, s'.submittedChunks) =
      (s.taken, s.sender, s.reader, s.submittedChunks))
    (hreported : j.chunkCount - s'.reportedChunks ≤ j.chunkCount - s.reportedChunks)
    (hlt : s'.producer.left + k < s.producer.left) : s'.left j + k < s.left j := by
  simp only [Prod.mk.injEq] at hsame
  obtain ⟨htaken, hsender, hreader, hsub⟩ := hsame
  apply left_producer
  · rw [htaken, hsender, hreader]
  · rw [hsub]
    omega

theorem left_sender {k : Nat} (hsame : (s'.submittedChunks, s'.reportedChunks, s'.producer, s'.reader) =
      (s.submittedChunks, s.reportedChunks, s.producer, s.reader))
    (hlt : 5 * (j.chunkCount - s'.taken) + s'.sender.left + k < 5 * (j.chunkCount - s.taken) + s.sender.left) :
    s'.left j + k < s.left j := by
  simp only [Prod.mk.injEq] at hsame
  obtain ⟨hsub, hrep, hproducer, hreader⟩ := hsame
  rw [left, left, hsub, hrep, hproducer, hreader]
  omega

theorem left_reader {k : Nat} (hsame : (s'.submittedChunks, s'.reportedChunks, s'.producer, s'.taken, s'.sender) =
      (s.submittedChunks, s.reportedChunks, s.producer, s.taken, s.sender))
    (hlt : readerLeft j s'.reader + k < readerLeft j s.reader) : s'.left j + k < s.left j := by
  simp only [Prod.mk.injEq] at hsame
  obtain ⟨hsub, hrep, hproducer, htaken, hsender⟩ := hsame
  rw [left, left, hsub, hrep, hproducer, htaken, hsender]
  omega

theorem left_signalCanEnqueue (s : Pipeline σ η) : s.signalCanEnqueue.left j ≤ s.left j + 1 := by
  rcases signalCanEnqueue_cases s with ⟨-, heq⟩ | ⟨hs, heq⟩
  · rw [heq]
    exact Nat.le_succ _
  · rw [heq, left, left, hs]
    simp only [ProducerAt.left]
    omega

theorem left_signalCanDequeue (s : Pipeline σ η) : s.signalCanDequeue.left j ≤ s.left j + 1 := by
  rcases signalCanDequeue_cases s with ⟨-, heq⟩ | ⟨hs, heq⟩
  · rw [heq]
    exact Nat.le_succ _
  · rw [heq, left, left, hs]
    simp only [SenderAt.left]
    omega

theorem left_signalProgressCv (s : Pipeline σ η) : s.signalProgressCv.left j ≤ s.left j + 2 := by
  rcases signalProgressCv_cases s with ⟨-, heq⟩ | ⟨hs, heq⟩ | ⟨hs, heq⟩
  · rw [heq]
    exact Nat.le_add_right _ _
  · rw [heq, left, left, hs]
    simp only [ProducerAt.left]
    omega
  · rw [heq, left, left, hs]
    simp only [ProducerAt.left]
    omega

/-- **Every step leaves less to do**, but for a spurious wake-up. -/
theorem Inv.step_left {cause : Cause} (h : Inv j session s) (hstep : Step j cause s s')
    (hcause : cause ≠ .spurious) : s'.left j < s.left j := by
  have hp := h.producer
  have hsend := h.sender
  have hread := h.reader
  cases hstep with
  | wakeSlot | wakeProgress | wakeSender => exact absurd rfl hcause
  | flow hs _ _ | sleepFlow hs _ _ | loopEnd hs _ | sleepSlot hs _ | evalFails hs _ _ | eval hs | fill hs
  | enqueueFails hs _ | cancelShut hs | close hs | sleepProgress hs _ | joinReader hs _ _ =>
    refine @left_moves _ _ _ _ _ 0 rfl (Nat.le_refl _) ?_
    rw [hs]
    simp [ProducerAt.left]
  | progress hs _ =>
    refine @left_moves _ _ _ _ _ 0 rfl (Nat.le_refl _) ?_
    rw [hs]
    exact Nat.lt_add_of_pos_right Nat.two_pos
  | wokenFlow hs =>
    refine @left_moves _ _ _ _ _ 0 rfl (emit_left s) ?_
    rw [hs]
    exact Nat.lt_succ_self 41
  | enqueue hs _ | finish hs =>
    refine (left_signalCanDequeue _).trans_lt (left_moves rfl (Nat.le_refl _) ?_)
    rw [hs]
    simp [ProducerAt.left]
  | cancel hs =>
    refine (left_signalCanDequeue _).trans_lt ((Nat.succ_le_succ (left_signalCanEnqueue _)).trans_lt ?_)
    refine @left_moves _ _ _ _ _ 2 rfl (Nat.le_refl _) ?_
    rw [hs]
    simp [ProducerAt.left]
  | report hs =>
    refine @left_moves _ _ _ _ _ 0 rfl (emit_left s) ?_
    rw [hs]
    dsimp only
    split_ifs <;> simp [ProducerAt.left]
  | acquire hs _ =>
    refine @left_moves _ _ _ _ _ 0 rfl (Nat.le_refl _) ?_
    rw [hs]
    dsimp only
    split_ifs <;> simp [ProducerAt.left]
  | advance hs =>
    simp only [ProducerInv, hs] at hp
    have hlt := hp.2.1.lt
    have hle := @emit_left _ _ j s
    refine @left_producer _ _ _ _ _ 0 rfl ?_
    rw [hs]
    change 12 * (j.chunkCount - (s.submittedChunks + 1)) + 5 * (j.chunkCount - s.emitProgress.reportedChunks) + 41 <
      12 * (j.chunkCount - s.submittedChunks) + 5 * (j.chunkCount - s.reportedChunks) + 31
    omega
  | joinSender hs _ =>
    refine @left_moves _ _ _ _ _ 0 rfl (Nat.le_refl _) ?_
    rw [hs]
    dsimp only
    split_ifs <;> simp [ProducerAt.left]
  | @emit _ done hs =>
    simp only [ProducerInv, hs] at hp
    cases done with
    | true =>
      refine @left_moves _ _ _ _ _ 0 rfl (emit_left s) ?_
      rw [hs]
      simp [ProducerAt.left]
    | false =>
      -- The reader had completed more than was reported.
      have hlt := emit_left_lt h (hp.2.2 rfl)
      refine @left_producer _ _ _ _ _ 0 rfl ?_
      rw [hs]
      change 12 * (j.chunkCount - s.submittedChunks) + 5 * (j.chunkCount - s.emitProgress.reportedChunks) + 22 <
        12 * (j.chunkCount - s.submittedChunks) + 5 * (j.chunkCount - s.reportedChunks) + 18
      omega
  | @conclude _ done hs =>
    simp only [ProducerInv, hs] at hp
    refine @left_moves _ _ _ _ _ 0 rfl (Nat.le_refl _) ?_
    rw [hs]
    cases done with
    | true =>
      rw [if_pos ⟨rfl, (hp.2 rfl).2⟩]
      simp [ProducerAt.left]
    | false =>
      rw [if_neg (fun hd => absurd hd.1 Bool.false_ne_true)]
      simp [ProducerAt.left]
  | take hs _ =>
    refine @left_sender _ _ _ _ _ 0 rfl ?_
    rw [hs]
    dsimp only
    apply Nat.add_lt_add_left
    split_ifs <;> decide
  | sleepSender hs _ | send hs _ | sendBreaks hs | sendShut hs _ | stopSender hs =>
    refine @left_sender _ _ _ _ _ 0 rfl ?_
    rw [hs]
    apply Nat.add_lt_add_left
    simp [SenderAt.left]
  | failSender hs =>
    refine (left_signalCanDequeue _).trans_lt ((Nat.succ_le_succ (left_signalCanEnqueue _)).trans_lt ?_)
    refine @left_sender _ _ _ _ _ 2 rfl ?_
    rw [hs]
    change 5 * (j.chunkCount - s.taken) + 10 + 2 < 5 * (j.chunkCount - s.taken) + 16
    omega
  | sent hs =>
    simp only [SenderInv, hs] at hsend
    have hput := h.ring.queued
    have hle := h.ring.put_le
    refine (left_signalCanEnqueue _).trans_lt (left_sender rfl ?_)
    rw [hs]
    change 5 * (j.chunkCount - (s.taken + 1)) + 20 + 1 < 5 * (j.chunkCount - s.taken) + 17
    omega
  | @receive _ i hs r _ =>
    simp only [ReaderInv, hs] at hread
    have hlt := hread.2.1
    refine @left_reader _ _ _ _ _ 0 rfl ?_
    rw [hs]
    change 6 * (j.chunkCount - (i + 1)) + 25 < 6 * (j.chunkCount - i) + 20
    omega
  | receiveFails hs _ _ | receiveShut hs _ =>
    refine @left_reader _ _ _ _ _ 0 rfl ?_
    rw [hs]
    change 12 < 6 * _ + 20
    omega
  | failReader hs =>
    refine @left_reader _ _ _ _ _ 0 rfl ?_
    rw [hs]
    simp [readerLeft]
  | giveUp hs | closeReader hs =>
    refine (left_signalProgressCv _).trans_lt (left_reader rfl ?_)
    rw [hs]
    simp [readerLeft]
  | @signal _ completed final hs =>
    refine (left_signalProgressCv _).trans_lt (left_reader rfl ?_)
    rw [hs]
    change readerLeft j (if completed = j.chunkCount then .closing else .receiving completed) + 2 <
      6 * (j.chunkCount - completed) + 25
    split_ifs
    · change 10 + 2 < _
      omega
    · change 6 * (j.chunkCount - completed) + 20 + 2 < _
      omega

/-- A spurious wake-up is looked into in two steps. -/
theorem wake_left (hstep : Step j .spurious s s') : s'.left j ≤ s.left j + 2 := by
  cases hstep with
  | wakeSlot _ => exact (left_signalCanEnqueue s).trans (Nat.le_succ _)
  | wakeProgress _ => exact left_signalProgressCv s
  | wakeSender _ => exact (left_signalCanDequeue s).trans (Nat.le_succ _)

/-! ## Sleeping -/

/-- **No wake-up is lost**: whoever sleeps still has nothing to do. -/
structure Asleep (j : PrefillJob σ η) (s : Pipeline σ η) : Prop where
  sender : s.sender = .sleeping → ¬s.DequeueReady
  slot : s.producer = .sleepingSlot → ¬s.EnqueueReady j
  flow : s.producer = .sleepingFlow → ¬s.FlowReady j
  progress : s.producer = .sleepingProgress → ¬s.ProgressReady

theorem asleep_awake (hp : ¬s.producer.Sleeps) (hsender : s.sender = .sleeping → ¬s.DequeueReady) : Asleep j s := by
  refine ⟨hsender, ?_, ?_, ?_⟩ <;> intro hs <;> rw [hs] at hp <;> exact absurd trivial hp

theorem Asleep.besides (h : Asleep j s) (hsender : s'.sender = .sleeping → ¬s'.DequeueReady)
    (hsame : (s'.producer, s'.stop, s'.queued, s'.progressDone, s'.progressCompleted, s'.submittedChunks,
        s'.reportedChunks) =
      (s.producer, s.stop, s.queued, s.progressDone, s.progressCompleted, s.submittedChunks, s.reportedChunks)) :
    Asleep j s' := by
  simp only [Prod.mk.injEq] at hsame
  obtain ⟨hproducer, hstop, hqueued, hdone, hcompleted, hsub, hrep⟩ := hsame
  refine ⟨hsender, ?_, ?_, ?_⟩
  · rw [hproducer, EnqueueReady, hstop, hqueued]
    exact h.slot
  · rw [hproducer, FlowReady, hdone, hsub, hcompleted]
    exact h.flow
  · rw [hproducer, ProgressReady, hrep, hcompleted, hdone]
    exact h.progress

theorem asleep_signalCanEnqueue (hsender : s.sender = .sleeping → ¬s.DequeueReady)
    (hflow : s.producer = .sleepingFlow → ¬s.FlowReady j)
    (hprogress : s.producer = .sleepingProgress → ¬s.ProgressReady) : Asleep j s.signalCanEnqueue := by
  rcases signalCanEnqueue_cases s with ⟨hnot, heq⟩ | ⟨-, heq⟩
  · rw [heq]
    exact ⟨hsender, fun hs => absurd hs hnot, hflow, hprogress⟩
  · rw [heq]
    exact asleep_awake id hsender

theorem asleep_signalCanDequeue (hslot : s.producer = .sleepingSlot → ¬s.EnqueueReady j)
    (hflow : s.producer = .sleepingFlow → ¬s.FlowReady j)
    (hprogress : s.producer = .sleepingProgress → ¬s.ProgressReady) : Asleep j s.signalCanDequeue := by
  rcases signalCanDequeue_cases s with ⟨hnot, heq⟩ | ⟨-, heq⟩
  · rw [heq]
    exact ⟨fun hs => absurd hs hnot, hslot, hflow, hprogress⟩
  · rw [heq]
    exact ⟨SenderAt.noConfusion, hslot, hflow, hprogress⟩

theorem asleep_signalProgressCv (hsender : s.sender = .sleeping → ¬s.DequeueReady)
    (hslot : s.producer = .sleepingSlot → ¬s.EnqueueReady j) : Asleep j s.signalProgressCv := by
  rcases signalProgressCv_cases s with ⟨hnot, heq⟩ | ⟨-, heq⟩ | ⟨-, heq⟩
  · rw [heq]
    exact ⟨hsender, hslot, fun hs => absurd hs hnot.1, fun hs => absurd hs hnot.2⟩
  · rw [heq]
    exact asleep_awake id hsender
  · rw [heq]
    exact asleep_awake id hsender

/-- **A step wakes whom it gives something to do.** -/
theorem Asleep.step {cause : Cause} (h : Asleep j s) (hstep : Step j cause s s') : Asleep j s' := by
  cases hstep with
  | flow | wokenFlow | loopEnd | evalFails | eval | fill | enqueueFails | advance | cancelShut | close
  | progress | emit | joinReader => exact asleep_awake id h.sender
  | report | acquire | joinSender | conclude =>
    refine asleep_awake ?_ h.sender
    dsimp only
    split_ifs <;> exact id
  | sleepFlow _ _ hnot => exact ⟨h.sender, nofun, fun _ => hnot, nofun⟩
  | sleepSlot _ hnot => exact ⟨h.sender, fun _ => hnot, nofun, nofun⟩
  | sleepProgress _ hnot => exact ⟨h.sender, nofun, nofun, fun _ => hnot⟩
  | enqueue | finish => exact asleep_signalCanDequeue nofun nofun nofun
  | cancel => exact asleep_signalCanDequeue nofun nofun nofun
  | take =>
    refine h.besides ?_ rfl
    dsimp only
    split_ifs <;> exact nofun
  | sleepSender _ hnot => exact h.besides (fun _ => hnot) rfl
  | send | sendBreaks | sendShut | stopSender => exact h.besides nofun rfl
  | sent => exact asleep_signalCanEnqueue nofun h.flow h.progress
  | @failSender s hs =>
    -- The slot that the calling thread sleeps for is not what it wakes up to: the sender has stopped.
    have hawake : Asleep j (signalCanEnqueue { s with senderFailed := true, stop := true, sender := .stopping }) :=
      asleep_signalCanEnqueue nofun h.flow h.progress
    exact asleep_signalCanDequeue hawake.slot hawake.flow hawake.progress
  | receive | receiveFails | receiveShut | failReader => exact h.besides h.sender rfl
  | giveUp | signal | closeReader => exact asleep_signalProgressCv h.sender h.slot
  | wakeSlot => exact asleep_signalCanEnqueue h.sender h.flow h.progress
  | wakeProgress => exact asleep_signalProgressCv h.sender h.slot
  | wakeSender => exact asleep_signalCanDequeue h.slot h.flow h.progress

theorem Reach.asleep {slots : Nat → SendSlot η} (h : Reach j slots session s) : Asleep j s := by
  induction h with
  | init => exact asleep_awake id nofun
  | step _ hstep ih => exact ih.step hstep

/-! ## Waiting -/

variable (j)

/-- No thread can go on by itself, or by a signal that was sent to it. -/
def Stuck (s : Pipeline σ η) : Prop := ∀ s', ¬Step j .thread s s'

variable {j}

/-- Every thread has ended. -/
def Ended (s : Pipeline σ η) : Prop :=
  (∃ rc logits, s.producer = .returned rc logits) ∧ s.sender = .exited ∧ s.reader = .exited

/-- The network is waited for: a send, or an answer. -/
def Networking (s : Pipeline σ η) : Prop := s.sender = .sending ∨ ∃ i, s.reader = .receiving i

/-- Something has failed. -/
def Failed (s : Pipeline σ η) : Prop :=
  s.shut = true ∨ s.stop = true ∨ s.senderFailed = true ∨ s.readerRc ≠ 0 ∨ s.producer = .reporting false ∨
    s.producer = .finishing true ∨ s.sender = .sendFailed

/-- A sender that cannot go on sleeps, sends on an open connection, or has ended. -/
theorem Stuck.sender (h : Stuck j s) (ha : Asleep j s) :
    s.sender = .sleeping ∧ s.stop = false ∧ s.queued = 0 ∧ s.producerDone = false ∨
      s.sender = .sending ∧ s.shut = false ∨ s.sender = .exited := by
  cases hs : s.sender with
  | waiting =>
    by_cases hready : s.DequeueReady
    · exact absurd (.take hs hready) (h _)
    · exact absurd (.sleepSender hs hready) (h _)
  | sleeping =>
    left
    have hnot := ha.sender hs
    rw [DequeueReady, not_or, not_or, Bool.not_eq_true, Bool.not_eq_true, not_not] at hnot
    exact ⟨rfl, hnot⟩
  | sending =>
    right; left
    refine ⟨rfl, Bool.eq_false_iff.mpr ?_⟩
    intro hshut
    exact h _ (.sendShut hs hshut)
  | sendDone => exact absurd (.sent hs) (h _)
  | sendFailed => exact absurd (.failSender hs) (h _)
  | stopping => exact absurd (.stopSender hs) (h _)
  | exited => exact .inr (.inr rfl)

/-- A reader that cannot go on receives on an open connection, or has ended. -/
theorem Stuck.reader (h : Stuck j s) : (∃ i, s.reader = .receiving i) ∧ s.shut = false ∨ s.reader = .exited := by
  cases hs : s.reader with
  | receiving i =>
    left
    refine ⟨⟨i, rfl⟩, Bool.eq_false_iff.mpr ?_⟩
    intro hshut
    exact h _ (.receiveShut hs hshut)
  | failing i => exact absurd (.failReader hs) (h _)
  | givingUp i => exact absurd (.giveUp hs) (h _)
  | signalling completed final => exact absurd (.signal hs) (h _)
  | closing => exact absurd (.closeReader hs) (h _)
  | exited => exact .inr rfl

/-- Where the connection is open, only the sender's own failure and a cancelled prefill would stop it. -/
theorem Inv.unfailed (h : Inv j session s) (ha : Asleep j s) (hstuck : Stuck j s) (hshut : s.shut = false) :
    s.senderFailed = false ∧ s.readerRc = 0 := by
  have hsend := h.sender
  have hread := h.reader
  constructor
  · rcases hstuck.sender ha with ⟨hs, -⟩ | ⟨hs, -⟩ | hs <;> simp only [SenderInv, hs] at hsend
    · exact hsend.2
    · exact hsend.2.2
    · rw [Bool.eq_false_iff]
      intro hfailed
      exact absurd ((hsend.2.1 hfailed).1.symm.trans hshut) Bool.false_ne_true.symm
  · rcases hstuck.reader with ⟨⟨i, hs⟩, -⟩ | hs <;> simp only [ReaderInv, hs] at hread
    · exact hread.2.2.2
    · obtain ⟨n, -, -, -, hend⟩ := hread
      rcases hend with hok | hfailed
      · exact hok.1
      · exact absurd (hfailed.2.symm.trans hshut) Bool.false_ne_true.symm

theorem Inv.networking (h : Inv j session s) (ha : Asleep j s) (hstuck : Stuck j s) (hshut : s.shut = false)
    (hu : s.Uncancelled) (hwaits : Networking s)
    (hproducer : s.producer ≠ .reporting false ∧ s.producer ≠ .finishing true) :
    Networking s ∧ ¬Failed s := by
  obtain ⟨hfailed, hrc⟩ := h.unfailed ha hstuck hshut
  refine ⟨hwaits, ?_⟩
  rintro (hf | hf | hf | hf | hf | hf | hf)
  · exact absurd (hf.symm.trans hshut) Bool.false_ne_true.symm
  · exact absurd ((hu hf).symm.trans hfailed) Bool.false_ne_true.symm
  · exact absurd (hf.symm.trans hfailed) Bool.false_ne_true.symm
  · exact hf hrc
  · exact hproducer.1 hf
  · exact hproducer.2 hf
  · exact hstuck _ (.failSender hf)

/-- **Nobody waits for another thread for ever.** Where no thread can go on by itself, all of them have ended, or
nothing has failed and the network is waited for. -/
theorem Inv.stuck (h : Inv j session s) (ha : Asleep j s) (hstuck : Stuck j s) : Ended s ∨ Networking s ∧ ¬Failed s := by
  have hp := h.producer
  have hsend := h.sender
  cases hs : s.producer with simp only [ProducerInv, hs] at hp
  | reporting room => exact absurd (.report hs) (hstuck _)
  | evaluating => exact absurd (.eval hs) (hstuck _)
  | filling => exact absurd (.fill hs) (hstuck _)
  | advancing => exact absurd (.advance hs) (hstuck _)
  | shuttingSender => exact absurd (.cancelShut hs) (hstuck _)
  | closing => exact absurd (.close hs) (hstuck _)
  | emitting done => exact absurd (.emit hs) (hstuck _)
  | concluding done => exact absurd (.conclude hs) (hstuck _)
  | enqueuing =>
    by_cases hok : s.stop = false ∧ s.senderFailed = false
    · exact absurd (.enqueue hs hok) (hstuck _)
    · rw [not_and_or, Bool.not_eq_false, Bool.not_eq_false] at hok
      exact absurd (.enqueueFails hs hok) (hstuck _)
  | finishing failed =>
    cases failed with
    | false => exact absurd (.finish hs) (hstuck _)
    | true => exact absurd (.cancel hs) (hstuck _)
  | wokenFlow => exact absurd (.wokenFlow hs) (hstuck _)
  | checking =>
    by_cases hpos : s.pos < j.spanEnd
    · by_cases hready : s.FlowReady j
      · exact absurd (.flow hs hpos hready) (hstuck _)
      · exact absurd (.sleepFlow hs hpos hready) (hstuck _)
    · exact absurd (.loopEnd hs hpos) (hstuck _)
  | sleepingFlow =>
    -- The window is full: the reader has not stopped.
    right
    have hnot := ha.flow hs
    rw [FlowReady, not_or] at hnot
    rcases hstuck.reader with ⟨hread, hshut⟩ | hexit
    · apply h.networking ha hstuck hshut hp.uncancelled (.inr hread)
      rw [hs]
      exact ⟨ProducerAt.noConfusion, ProducerAt.noConfusion⟩
    · have hread := h.reader
      simp only [ReaderInv, hexit] at hread
      obtain ⟨n, -, -, hd, -⟩ := hread
      exact absurd hd hnot.1
  | acquiring =>
    by_cases hready : s.EnqueueReady j
    · exact absurd (.acquire hs hready) (hstuck _)
    · exact absurd (.sleepSlot hs hready) (hstuck _)
  | sleepingSlot =>
    -- The ring is full: there is a slot to send.
    right
    have hnot := ha.slot hs
    rw [EnqueueReady, not_or, Bool.not_eq_true, not_not] at hnot
    have hqueued : s.queued ≠ 0 := by
      rw [hnot.2]
      exact j.slotCount_pos.ne'
    rcases hstuck.sender ha with ⟨-, -, hzero, -⟩ | ⟨hsending, hshut⟩ | hexit
    · exact absurd hzero hqueued
    · apply h.networking ha hstuck hshut hp.1.uncancelled (.inl hsending)
      rw [hs]
      exact ⟨ProducerAt.noConfusion, ProducerAt.noConfusion⟩
    · simp only [SenderInv, hexit] at hsend
      rcases hsend.2.2 with hstop | ⟨hzero, -⟩
      · exact absurd (hstop.symm.trans hnot.1) Bool.false_ne_true.symm
      · exact absurd hzero hqueued
  | joiningSender failed =>
    right
    rcases hstuck.sender ha with ⟨-, -, -, hnot⟩ | ⟨hsending, hshut⟩ | hexit
    · exact absurd (hp.1.symm.trans hnot) Bool.false_ne_true.symm
    · cases failed with
      | false =>
        apply h.networking ha hstuck hshut (hp.2.1 rfl).uncancelled (.inl hsending)
        rw [hs]
        exact ⟨ProducerAt.noConfusion, ProducerAt.noConfusion⟩
      | true => exact absurd ((hp.2.2 rfl).symm.trans hshut) Bool.false_ne_true.symm
    · exact absurd (.joinSender hs hexit) (hstuck _)
  | waitingProgress =>
    by_cases hready : s.ProgressReady
    · exact absurd (.progress hs hready) (hstuck _)
    · exact absurd (.sleepProgress hs hready) (hstuck _)
  | sleepingProgress =>
    right
    have hnot := ha.progress hs
    rw [ProgressReady, not_or] at hnot
    rcases hstuck.reader with ⟨hread, hshut⟩ | hexit
    · apply h.networking ha hstuck hshut hp.submitted.uncancelled (.inr hread)
      rw [hs]
      exact ⟨ProducerAt.noConfusion, ProducerAt.noConfusion⟩
    · have hread := h.reader
      simp only [ReaderInv, hexit] at hread
      obtain ⟨n, -, -, hd, -⟩ := hread
      exact absurd hd hnot.2
  | joiningReader failed =>
    right
    rcases hstuck.reader with ⟨hread, hshut⟩ | hexit
    · cases failed with
      | false =>
        apply h.networking ha hstuck hshut (hp.2.2.1 rfl).submitted.uncancelled (.inr hread)
        rw [hs]
        exact ⟨ProducerAt.noConfusion, ProducerAt.noConfusion⟩
      | true => exact absurd ((hp.2.2.2 rfl).symm.trans hshut) Bool.false_ne_true.symm
    · exact absurd (.joinReader hs hexit 0) (hstuck _)
  | returned rc logits => exact .inl ⟨⟨rc, logits, hs⟩, hp.2.1, hp.2.2.1⟩

theorem step_flags {cause : Cause} (hstep : Step j cause s s') :
    (s.shut = true → s'.shut = true) ∧ (s.stop = true → s'.stop = true) ∧
      (s.senderFailed = true → s'.senderFailed = true) ∧ (s.readerRc ≠ 0 → s'.readerRc ≠ 0) := by
  cases hstep with
  | cancel => exact ⟨id, fun _ => rfl, id, id⟩
  | failSender => exact ⟨id, fun _ => rfl, fun _ => rfl, id⟩
  | cancelShut | close | stopSender | failReader => exact ⟨fun _ => rfl, id, id, id⟩
  | receiveFails _ rc hrc => exact ⟨id, id, id, fun _ => hrc⟩
  | receiveShut => exact ⟨id, id, id, fun _ => Int.one_ne_zero⟩
  | _ => exact ⟨id, id, id, id⟩

theorem signal_producer {p : ProducerAt} (h : s.producer = p) (hp : ¬p.Sleeps) :
    s.signalCanEnqueue.producer = p ∧ s.signalProgressCv.producer = p := by
  subst h
  constructor
  · rcases signalCanEnqueue_cases s with ⟨-, heq⟩ | ⟨hs, -⟩
    · rw [heq]
    · rw [hs] at hp
      exact absurd trivial hp
  · rcases signalProgressCv_cases s with ⟨-, heq⟩ | ⟨hs, -⟩ | ⟨hs, -⟩
    · rw [heq]
    all_goals
      rw [hs] at hp
      exact absurd trivial hp

theorem step_producer {cause : Cause} (hstep : Step j cause s s') (p : ProducerAt) (h : s.producer = p)
    (hp : p = .reporting false ∨ p = .finishing true) :
    s'.producer = p ∨ p = .reporting false ∧ s'.producer = .finishing true ∨ p = .finishing true ∧ s'.stop = true := by
  have hawake : ¬p.Sleeps := by rcases hp with rfl | rfl <;> exact id
  cases hstep with
  | take | sleepSender | send | sendBreaks | sendShut | stopSender | receive | receiveFails | receiveShut
  | failReader | wakeSender => exact .inl h
  | sent | failSender | wakeSlot => exact .inl (signal_producer h hawake).1
  | giveUp | signal | closeReader | wakeProgress => exact .inl (signal_producer h hawake).2
  | report hs =>
    obtain rfl := h.symm.trans hs
    rcases hp with hp | hp <;> cases hp
    exact .inr (.inl ⟨rfl, rfl⟩)
  | cancel hs =>
    obtain rfl := h.symm.trans hs
    exact .inr (.inr ⟨rfl, rfl⟩)
  | flow hs | sleepFlow hs | wokenFlow hs | loopEnd hs | acquire hs | sleepSlot hs | evalFails hs | eval hs | fill hs
  | enqueue hs | enqueueFails hs | advance hs | finish hs | cancelShut hs | joinSender hs | close hs | progress hs
  | sleepProgress hs | emit hs | conclude hs | joinReader hs =>
    obtain rfl := h.symm.trans hs
    rcases hp with hp | hp <;> cases hp

theorem signal_sender (h : s.sender ≠ .sleeping) : s.signalCanDequeue.sender = s.sender := by
  rcases signalCanDequeue_cases s with ⟨-, heq⟩ | ⟨hs, -⟩
  · rw [heq]
  · exact absurd hs h

theorem step_sender {cause : Cause} (hstep : Step j cause s s') (h : s.sender = .sendFailed) :
    s'.sender = .sendFailed ∨ s'.stop = true := by
  have hawake : s.sender ≠ .sleeping := by
    rw [h]
    exact SenderAt.noConfusion
  cases hstep with
  | failSender => exact .inr rfl
  | take hs | sleepSender hs | send hs | sendBreaks hs | sendShut hs | sent hs | stopSender hs =>
    cases h.symm.trans hs
  | enqueue | finish | cancel | wakeSender => exact .inl ((signal_sender hawake).trans h)
  | _ => exact .inl h

theorem Failed.step {cause : Cause} (h : Failed s) (hstep : Step j cause s s') : Failed s' := by
  obtain ⟨hshut, hstop, hfailed, hrc⟩ := step_flags hstep
  rw [Failed] at h ⊢
  rcases h with h | h | h | h | h | h | h
  · exact .inl (hshut h)
  · exact .inr (.inl (hstop h))
  · exact .inr (.inr (.inl (hfailed h)))
  · exact .inr (.inr (.inr (.inl (hrc h))))
  · rcases step_producer hstep _ h (.inl rfl) with hp | ⟨-, hp⟩ | ⟨hp, -⟩
    · exact .inr (.inr (.inr (.inr (.inl hp))))
    · exact .inr (.inr (.inr (.inr (.inr (.inl hp)))))
    · exact nomatch hp
  · rcases step_producer hstep _ h (.inr rfl) with hp | ⟨hp, -⟩ | ⟨-, hp⟩
    · exact .inr (.inr (.inr (.inr (.inr (.inl hp)))))
    · exact nomatch hp
    · exact .inr (.inl hp)
  · rcases step_sender hstep h with hp | hp
    · exact .inr (.inr (.inr (.inr (.inr (.inr hp)))))
    · exact .inr (.inl hp)

/-- **Behind a failure every thread ends**, whether the network answers or not. -/
theorem Inv.failed_ends (h : Inv j session s) (ha : Asleep j s) (hfailed : Failed s)
    (hrun : Relation.ReflTransGen (fun s s' => ∃ cause, Step j cause s s') s s') (hstuck : Stuck j s') : Ended s' := by
  have hinv : Inv j session s' ∧ Asleep j s' ∧ Failed s' := by
    clear hstuck
    induction hrun with
    | refl => exact ⟨h, ha, hfailed⟩
    | tail _ hstep ih =>
      obtain ⟨cause, hstep⟩ := hstep
      exact ⟨ih.1.step hstep, ih.2.1.step hstep, ih.2.2.step hstep⟩
  rcases hinv.1.stuck hinv.2.1 hstuck with hended | ⟨-, hnot⟩
  · exact hended
  · exact absurd hinv.2.2 hnot

/-! ## What is returned with zero -/

/-- **Zero is returned for what the loop over the chunks does.** -/
theorem Inv.returned (h : Inv j session s) {logits : Option Bytes} (hs : s.producer = .returned 0 logits) :
    s.sent.map (fun f => { f with ackOnly := false }) = (j.sequential session).2.2 ∧
      s.session = (j.sequential session).1 ∧ s.requestId = (j.sequential session).2.1 ∧
      s.answered.length = j.chunkCount ∧
      ∃ r, s.answered.getLast? = some r ∧ logits = j.spanLogits s.session (j.chunkPos (j.chunkCount - 1)) r ∧
        logits.isSome = true := by
  have hp := h.producer
  have hsend := h.sender
  have hread := h.reader
  simp only [ProducerInv, hs] at hp
  obtain ⟨hd, hexit, hended, hz⟩ := hp
  obtain ⟨⟨⟨⟨hsession, hid, hput⟩, -, hu⟩, -, hfailed⟩, hrc, r, hfinal, hlogits⟩ := hz trivial
  simp only [SenderInv, hexit] at hsend
  simp only [ReaderInv, hended] at hread
  obtain ⟨n, hreading, hle, -, hend⟩ := hread
  obtain rfl : n = j.chunkCount := hend.elim And.right fun hf => absurd hrc hf.1
  have hlength : s.sent.length = j.chunkCount := by
    have hqueued := h.ring.queued
    rcases hsend.2.2 with hstop | ⟨hzero, -⟩
    · exact absurd ((hu hstop).symm.trans hfailed) Bool.false_ne_true.symm
    · omega
  rw [PrefillJob.sequential_eq]
  refine ⟨?_, hsession, hid, hreading.answered, r, ?_, ?_⟩
  · rw [h.ring.sent, hlength, List.map_map]
    rfl
  · rw [← hreading.final rfl]
    exact hfinal
  · have hpos := @PrefillJob.chunkCount_pos _ _ j
    have hlast : s.answered[j.chunkCount - 1]? = some r := by
      rw [← hfinal, hreading.final rfl, List.getLast?_eq_getElem?, hreading.answered]
    have haccepts := hreading.accepted _ r hlast
    have hcount : j.chunkCount - 1 + 1 = j.chunkCount := by omega
    rw [PrefillJob.spanLogits]
    rw [PrefillJob.last_chunk] at hlogits
    rcases hlogits with ⟨hkind, hbytes, rfl⟩ | ⟨hkind, rfl⟩
    · rw [if_pos ⟨hkind, hbytes⟩]
      exact ⟨rfl, rfl⟩
    · have hbytes : r.payload.length = j.chunkAt (j.chunkPos (j.chunkCount - 1)) * j.hcValues * 4 := by
        rw [PrefillJob.chunkAt_chunkPos (by omega)]
        rcases haccepts.2 with ⟨hnot, -⟩ | ⟨hk, -⟩ | ⟨-, -, hb⟩
        · exact absurd hcount hnot
        · cases hkind.symm.trans hk
        · exact hb
      have hnot : ¬(r.kind = .logits ∧ r.payload.length = j.logitsBytes) := by
        rintro ⟨hk, -⟩
        cases hkind.symm.trans hk
      rw [if_neg hnot, if_pos ⟨hkind, hbytes⟩]
      exact ⟨rfl, rfl⟩

/-! ## Every state of every run -/

/-- What holds of a pipelined prefill at any time. -/
structure Pipelined (j : PrefillJob σ η) (session : σ) (s : Pipeline σ η) : Prop where
  /-- The frames are those of the first chunks, in order, as the loop over the chunks sends them. -/
  sent : s.sent = (List.range s.sent.length).map (j.chunkFrame session)
  sequential : s.sent.map (fun f => { f with ackOnly := false }) <+: (j.sequential session).2.2
  /-- A slot that is queued or being sent holds its chunk. -/
  slots : ∀ k, s.taken ≤ k → k < s.put → s.slots (k % j.slotCount) = j.chunkSlot session k
  sending : s.sender = .sending → s.taken < s.put
  /-- No more than a window of chunks are not answered. -/
  window : s.put ≤ s.answered.length + j.flowWindow
  sent_le : s.sent.length ≤ s.put
  /-- Threads that cannot go on have ended, or nothing failed and they wait for the network. -/
  stuck : Stuck j s → Ended s ∨ Networking s ∧ ¬Failed s
  failed : Failed s → ∀ s', Relation.ReflTransGen (fun s s' => ∃ cause, Step j cause s s') s s' → Stuck j s' → Ended s'
  /-- No run goes on for ever, but for spurious wake-ups without end. -/
  decreases : ∀ cause s', Step j cause s s' → cause ≠ .spurious → s'.left j < s.left j
  wakes : ∀ s', Step j .spurious s s' → s'.left j ≤ s.left j + 2
  /-- Zero is returned when everything was sent and answered. -/
  returned : ∀ logits, s.producer = .returned 0 logits →
    s.sent.length = j.chunkCount ∧ s.answered.length = j.chunkCount ∧
      (∀ i r, s.answered[i]? = some r → Accepts j i r) ∧
      s.session = (j.sequential session).1 ∧
      s.requestId = (j.sequential session).2.1 ∧ s.requestId = j.requestId + UInt64.ofNat j.chunkCount ∧
      ∃ r, s.answered.getLast? = some r ∧ logits = j.spanLogits s.session (j.chunkPos (j.chunkCount - 1)) r ∧
        logits.isSome = true

theorem Inv.answered (h : Inv j session s) :
    (∀ i r, s.answered[i]? = some r → Accepts j i r) ∧ s.progressCompleted ≤ s.answered.length := by
  have hr := h.reader
  have hreading : ∃ n told, Reading j n told s ∧ told ≤ n := by
    cases hp : s.reader with simp only [ReaderInv, hp] at hr
    | receiving i | failing i | givingUp i => exact ⟨i, i, hr.1, Nat.le_refl _⟩
    | signalling completed final => exact ⟨_, _, hr.1, Nat.sub_le _ _⟩
    | closing => exact ⟨_, _, hr.1, Nat.le_refl _⟩
    | exited =>
      obtain ⟨n, hreading, -⟩ := hr
      exact ⟨n, n, hreading, Nat.le_refl _⟩
  obtain ⟨n, told, hreading, hle⟩ := hreading
  refine ⟨hreading.accepted, ?_⟩
  rw [hreading.completed, hreading.answered]
  exact hle

theorem Inv.sent_length (h : Inv j session s) :
    s.sent.length ≤ s.put ∧ (s.sender = .sending → s.taken < s.put) := by
  have hsend := h.sender
  have hqueued := h.ring.queued
  cases hp : s.sender with simp only [SenderInv, hp] at hsend
  | waiting | sleeping | sendFailed | stopping | exited | sendDone =>
    refine ⟨by omega, fun he => ?_⟩
    cases he
  | sending => exact ⟨by omega, fun _ => by omega⟩

/-- **A pipelined prefill does what the loop over the chunks does**, in every run of its three threads: whatever
fails and whenever, the frames go out in order and a window ahead at most, no thread waits for another for ever,
and zero is returned for the logits of the loop. -/
theorem pipelined {slots : Nat → SendSlot η} (h : Reach j slots session s) : Pipelined j session s := by
  have hinv := h.inv
  have hasleep := h.asleep
  obtain ⟨haccepted, hcompleted⟩ := hinv.answered
  obtain ⟨hsent, hsending⟩ := hinv.sent_length
  refine ⟨hinv.ring.sent, ?_, hinv.ring.slots, hsending, ?_, hsent, hinv.stuck hasleep, ?_, ?_, ?_, ?_⟩
  · have hrange : List.range s.sent.length <+: List.range j.chunkCount := by
      rw [List.prefix_iff_eq_take, List.length_range, List.take_range,
        Nat.min_eq_left (hsent.trans hinv.ring.put_le)]
    rw [PrefillJob.sequential_eq, hinv.ring.sent, List.map_map]
    exact hrange.map _
  · exact hinv.ring.window.trans (Nat.add_le_add_right hcompleted _)
  · intro hfailed s' hrun hstuck
    exact hinv.failed_ends hasleep hfailed hrun hstuck
  · intro cause s' hstep hcause
    exact hinv.step_left hstep hcause
  · intro s' hstep
    exact wake_left hstep
  · intro logits hs
    obtain ⟨hframes, hsession, hid, hanswered, hlast⟩ := hinv.returned hs
    refine ⟨?_, hanswered, haccepted, hsession, hid, ?_, hlast⟩
    · have hlength := congrArg List.length hframes
      rw [PrefillJob.sequential_eq, List.length_map, List.length_map, List.length_range] at hlength
      exact hlength
    · rw [hid, PrefillJob.sequential_eq]

/-- Five tokens in chunks of two, through one slot; the session counts tokens, and a hidden row is what it counts. -/
def fiveTokens : PrefillJob Nat Nat where
  prompt := [7, 8, 9, 10, 11]
  spanStart := 0
  nTokens := 5
  chunkCap := 2
  resetFirstChunk := true
  slotCount := 1
  flowWindow := 2
  requestId := 5
  hcValues := 1
  logitsBytes := 1
  allowHidden := false
  ackOnly := true
  layerSliceReset := fun _ => 0
  evalLayerSlice := fun session tokens _ => (session + tokens.length, session + tokens.length)
  evalOutputHead := fun _ _ _ => []
  span_le := by decide
  nTokens_pos := by decide
  chunkCap_pos := by decide
  slotCount_pos := by decide
  flowWindow_pos := by decide

/-- The answers to its chunks. -/
def fiveAnswer (i : Nat) : SpanResult where
  kind := if i = 2 then .logits else .ack
  resultHash := tokenHashPrefix ([7, 8, 9, 10, 11].take (2 * (i + 1)))
  payload := if i = 2 then [9] else []

theorem fiveAnswer_hash : ∀ i < 3, (fiveAnswer i).resultHash = fiveTokens.expectedHashes.getD i 0 := by decide

/-- The ring of one slot. -/
def oneSlot : Nat → SendSlot Nat := fun _ => ⟨0, 0, 0, 0, 0, 0, false, false, 0⟩

/-- Its chunks are out and the first is answered: the sender has slept for a chunk, and the calling thread for the
slot and for the window. -/
theorem fiveTokens_sent : ∃ slots hash sent, Reach fiveTokens oneSlot 3
    { init fiveTokens slots 3 with
      producerDone := true
      progressCompleted := 1
      session := 5
      pos := 5
      requestId := 8
      nextPrefixHash := hash
      submittedChunks := 3
      reportedChunks := 1
      producer := .waitingProgress
      sender := .exited
      reader := .receiving 1
      put := 3
      taken := 3
      sent := sent
      answered := [fiveAnswer 0] } := by
  have hinit : Reach fiveTokens oneSlot 3 (init fiveTokens oneSlot 3) := .init
  have hasleep := hinit.step (.sleepSender rfl (by unfold DequeueReady; decide))
  -- The first chunk wakes the sender; the second waits until the first has been sent.
  have hroom := (hasleep.step (.flow rfl (by decide) (.inr (by decide)))).step (.report rfl)
  have heval := (hroom.step (.acquire rfl (.inr (by decide)))).step (.eval rfl)
  have hput := ((heval.step (.fill rfl)).step (.enqueue rfl ⟨rfl, rfl⟩)).step (.advance rfl)
  have hfull := (hput.step (.flow rfl (by decide) (.inr (by decide)))).step (.report rfl)
  have hslot := hfull.step (.sleepSlot rfl (by unfold EnqueueReady; decide))
  have hsent := ((hslot.step (.take rfl (.inr (.inl (by decide))))).step (.send rfl rfl)).step (.sent rfl)
  have heval := (hsent.step (.acquire rfl (.inr (by decide)))).step (.eval rfl)
  have hput := ((heval.step (.fill rfl)).step (.enqueue rfl ⟨rfl, rfl⟩)).step (.advance rfl)
  -- The third waits until the first has been answered.
  have hwindow := hput.step (.sleepFlow rfl (by decide) (by unfold FlowReady; decide))
  have hsent := ((hwindow.step (.take rfl (.inr (.inl (by decide))))).step (.send rfl rfl)).step (.sent rfl)
  have hread := (hsent.step (.receive rfl (fiveAnswer 0)
    ⟨fiveAnswer_hash 0 (by decide), .inl ⟨by decide, rfl, rfl⟩⟩)).step (.signal rfl)
  have hwoken := (hread.step (.wokenFlow rfl)).step (.flow rfl (by decide) (.inr (by decide)))
  have heval := ((hwoken.step (.report rfl)).step (.acquire rfl (.inr (by decide)))).step (.eval rfl)
  have hput := ((heval.step (.fill rfl)).step (.enqueue rfl ⟨rfl, rfl⟩)).step (.advance rfl)
  have hdone := (hput.step (.loopEnd rfl (by decide))).step (.finish rfl)
  have hsent := ((hdone.step (.take rfl (.inr (.inl (by decide))))).step (.send rfl rfl)).step (.sent rfl)
  have hjoined := (hsent.step (.take rfl (.inr (.inr rfl)))).step (.joinSender rfl rfl)
  exact ⟨_, _, _, hjoined⟩

/-- The calling thread sleeps for the other answers, and the logits of the last are returned. -/
theorem pipelined_fiveTokens : ∃ s, Reach fiveTokens oneSlot 3 s ∧ s.producer = .returned 0 (some [9]) ∧
    Pipelined fiveTokens 3 s := by
  obtain ⟨slots, hash, sent, hsent⟩ := fiveTokens_sent
  have hwait := hsent.step (.sleepProgress rfl fun h => h.elim (Nat.lt_irrefl 1) Bool.false_ne_true)
  have hread := (hwait.step (.receive rfl (fiveAnswer 1)
    ⟨fiveAnswer_hash 1 (by decide), .inl ⟨by decide, rfl, rfl⟩⟩)).step (.signal rfl)
  have htold := ((hread.step (.progress rfl (.inl Nat.one_lt_two))).step (.emit rfl)).step (.conclude rfl)
  have hwait := htold.step (.sleepProgress rfl fun h => h.elim (Nat.lt_irrefl 2) Bool.false_ne_true)
  have hread := (hwait.step (.receive rfl (fiveAnswer 2)
    ⟨fiveAnswer_hash 2 (by decide), .inr (.inl ⟨rfl, rfl⟩)⟩)).step (.signal rfl)
  have htold := ((hread.step (.progress rfl (.inr rfl))).step (.emit rfl)).step (.conclude rfl)
  have hreturned := (htold.step (.closeReader rfl)).step (.joinReader rfl rfl 0)
  exact ⟨_, hreturned, rfl, pipelined hreturned⟩

end Pipeline

end Ds4.Dist
