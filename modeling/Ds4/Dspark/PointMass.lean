import Ds4.Dspark.Stochastic
import Ds4.Dspark.Exact

/-!
# Point-mass speculation

A block that is verified leaves the session at the tokens it returns. It is distributed as plain
decoding, as long as no coins are given up: when a step fails behind a kept draft, the drafts that were
kept are drawn again.
-/

namespace Ds4.Dspark

open Ds4.Lib Ds4.Sampler
open scoped ENNReal

variable {n : Nat} {c : StochasticCall n} {d : Device}

/-- The steps whose failure ends the call with -1 succeed. -/
structure Device.Answers (d : Device) : Prop where
  restore : d.restore = true
  replay : ∀ i, d.replay i = true
  evaluate : d.evaluate = true
  sendVerify : ∀ l ∈ d.link, l.sendVerify = true
  sendCommit : ∀ l ∈ d.link, l.sendCommit = true
  recvHalf : ∀ l ∈ d.link, l.vocabSplit = true → l.recvHalf = true

namespace StochasticCall

/-- The function is called on a valid session, at a row of its checkpoint. -/
structure Ready (c : StochasticCall n) : Prop where
  vocab : 0 < n
  temperature : 0 < c.temperature
  valid : c.session.valid = true
  graph : c.session.graph = c.session.checkpoint
  logits : c.session.logits = c.target c.session.checkpoint

/-! ## The block -/

/-- What holds of a block to be verified. -/
structure Fits (c : StochasticCall n) (drafts : List Nat) : Prop where
  vocab : ∀ t ∈ drafts, t < n
  room : c.session.checkpoint.length + drafts.length < c.ctxSize
  cap : c.accepted.length + drafts.length ≤ c.acceptedCap
  proposed : drafts.length ≤ c.session.draftTokens.length
  eos : ∀ (xs : List Nat) (t : Nat) (ys : List Nat), drafts = xs ++ t :: ys → ys ≠ [] → (t : Int) ≠ c.eos

theorem throughEos_length (eos : Int) (drafts : List Nat) :
    (throughEos eos drafts).length ≤ drafts.length := by
  induction drafts with
  | nil => exact le_rfl
  | cons t rest ih =>
    rw [throughEos]
    split_ifs
    · simp
    · simpa using ih

theorem throughEos_eos {eos : Int} {drafts : List Nat} {xs : List Nat} {t : Nat} {ys : List Nat}
    (h : throughEos eos drafts = xs ++ t :: ys) (hne : ys ≠ []) : (t : Int) ≠ eos := by
  induction drafts generalizing xs with
  | nil => cases xs <;> cases h
  | cons a rest ih =>
    rw [throughEos] at h
    split_ifs at h with heos
    · cases xs with
      | nil =>
        obtain ⟨-, hys⟩ := List.cons_eq_cons.mp h
        exact absurd hys.symm hne
      | cons x xs =>
        obtain ⟨-, hys⟩ := List.cons_eq_cons.mp h
        exact absurd hys.symm (by simp)
    · cases xs with
      | nil =>
        obtain ⟨rfl, -⟩ := List.cons_eq_cons.mp h
        exact heos
      | cons x xs => exact ih (List.cons_eq_cons.mp h).2

theorem mem_throughEos {eos : Int} {drafts : List Nat} {t : Nat} (h : t ∈ throughEos eos drafts) :
    t ∈ drafts := by
  induction drafts with
  | nil => exact h
  | cons a rest ih =>
    rw [throughEos] at h
    split_ifs at h
    · rw [List.mem_singleton] at h
      simp [h]
    · rcases List.mem_cons.mp h with rfl | hrest
      · simp
      · exact List.mem_cons_of_mem _ (ih hrest)

theorem block_fits {drafts : List Nat} (h : c.block = some drafts) : c.Fits drafts := by
  unfold block at h
  simp only [] at h
  split_ifs at h with hnone
  obtain rfl := Option.some.inj h
  rw [not_or] at hnone
  have hlen := throughEos_length c.eos ((c.session.draftTokens.take (min (min (min
    c.session.draftTokens.length (c.maxTokens - c.accepted.length))
    (c.acceptedCap - c.accepted.length))
    (c.ctxSize - c.session.checkpoint.length - 1))).map Int.toNat)
  rw [List.length_map, List.length_take] at hlen
  have hroom := hnone.1
  refine ⟨fun t ht => ?_, by omega, by omega, by omega, fun _ _ _ => throughEos_eos⟩
  obtain ⟨token, htoken, rfl⟩ := List.mem_map.mp (mem_throughEos ht)
  have hrange : ¬(token < 0 ∨ (n : Int) ≤ token) := fun hbad => hnone.2 ⟨token, htoken, hbad⟩
  omega

theorem emit_eq {eos : Int} {cap : Nat} {drafts : List Nat} (accepted : List Nat)
    (hcap : accepted.length + drafts.length ≤ cap)
    (heos : ∀ (xs : List Nat) (t : Nat) (ys : List Nat), drafts = xs ++ t :: ys → ys ≠ [] → (t : Int) ≠ eos) :
    emit eos cap accepted drafts = accepted ++ drafts := by
  induction drafts generalizing accepted with
  | nil => rw [emit, List.append_nil]
  | cons t rest ih =>
    rw [List.length_cons] at hcap
    have hroom : ¬cap ≤ accepted.length := by omega
    rw [emit, if_neg hroom]
    split_ifs with hend
    · have hrest : rest = [] := by
        by_contra hne
        exact heos [] t rest rfl hne hend
      rw [hrest]
    · rw [ih (accepted ++ [t]) (by rw [List.length_append, List.length_singleton]; omega)
        fun xs t' ys h => heos (t :: xs) t' ys (by rw [h]; rfl)]
      rw [List.append_assoc]
      rfl

/-! ## The session -/

/-- The session that some tokens lead to. -/
structure At (c : StochasticCall n) (s : Session n) (new : List Nat) : Prop where
  checkpoint : s.checkpoint = c.session.checkpoint ++ new
  graph : s.graph = c.session.checkpoint ++ new
  logits : s.logits = c.target (c.session.checkpoint ++ new)

/-- A call that returns -1, which a failing step explains, or some new tokens and their session. -/
def Gives (c : StochasticCall n) (d : Device) (new : List Nat) (r : StochasticResult n) : Prop :=
  (r = .failed ∧ ¬d.Answers) ∨ ∃ s, r = .returned (c.accepted ++ new) s ∧ c.At s new

theorem Ready.at_start (h : c.Ready) : c.At c.session.clearDraft [] :=
  ⟨(List.append_nil _).symm, h.graph.trans (List.append_nil _).symm, by
    rw [List.append_nil]
    exact h.logits⟩

/-- Tokens whose rows are in the graph, behind the checkpoint of the call. -/
structure Holds (c : StochasticCall n) (s : Session n) (new : List Nat) : Prop where
  checkpoint : s.checkpoint = c.session.checkpoint ++ new
  graph : s.graph = c.session.checkpoint ++ new
  valid : s.valid = true

theorem evalToken_spec {s : Session n} {new : List Nat} (h : c.Holds s new)
    (hroom : c.session.checkpoint.length + new.length < c.ctxSize) (token : Nat) :
    (c.evalToken d s token = none ∧ ¬d.Answers) ∨
      ∃ s', c.evalToken d s token = some s' ∧ c.At s' (new ++ [token]) := by
  unfold evalToken
  rw [h.checkpoint, List.length_append]
  split_ifs with hfail
  · refine Or.inl ⟨rfl, fun ha => ?_⟩
    rcases hfail with hvalid | hfull | hevaluate
    · rw [h.valid] at hvalid
      cases hvalid
    · omega
    · rw [ha.evaluate] at hevaluate
      cases hevaluate
  · refine Or.inr ⟨_, rfl, ?_, ?_, ?_⟩
    · exact List.append_assoc _ _ _
    · dsimp only
      rw [h.graph, List.append_assoc]
    · dsimp only
      rw [h.graph, List.append_assoc]

theorem replayTokens_spec {s : Session n} {new : List Nat} (h : c.Holds s new) (i : Nat)
    (kept : List Nat) : (replayTokens d i s kept = none ∧ ¬d.Answers) ∨
      ∃ s', replayTokens d i s kept = some s' ∧ c.Holds s' (new ++ kept) := by
  induction kept generalizing i s new with
  | nil => exact Or.inr ⟨s, rfl, by rwa [List.append_nil]⟩
  | cons t rest ih =>
    rw [replayTokens]
    split_ifs with hfail
    · refine Or.inl ⟨rfl, fun ha => ?_⟩
      rw [ha.replay] at hfail
      cases hfail
    · have hnext : c.Holds { s with checkpoint := s.checkpoint ++ [t], graph := s.graph ++ [t] }
          (new ++ [t]) := by
        refine ⟨?_, ?_, h.valid⟩
        · dsimp only
          rw [h.checkpoint, List.append_assoc]
        · dsimp only
          rw [h.graph, List.append_assoc]
      have hrest := ih hnext (i + 1)
      rwa [List.append_assoc] at hrest

theorem not_answers_of_commitSent (h : d.commitSent = false) : ¬d.Answers := by
  intro ha
  unfold Device.commitSent at h
  cases hlink : d.link with
  | none =>
    rw [hlink] at h
    cases h
  | some l =>
    rw [hlink] at h
    have hsent := ha.sendCommit l hlink
    exact absurd (hsent.symm.trans h) (by decide)

theorem not_answers_of_rollback (h : d.restore = false ∨ d.commitSent = false) : ¬d.Answers := by
  rcases h with hrestore | hcommit
  · intro ha
    rw [ha.restore] at hrestore
    cases hrestore
  · exact not_answers_of_commitSent hcommit

theorem Ready.firstRejected_gives (h : c.Ready) {drafts : List Nat} (hfits : c.Fits drafts)
    (y : Nat) : c.Gives d [y] (c.firstRejected d y) := by
  have hstart : c.Holds c.session.clearDraft [] :=
    ⟨h.at_start.checkpoint, h.at_start.graph, h.valid⟩
  have hroom := hfits.room
  unfold firstRejected
  rcases evalToken_spec (d := d) hstart (by rw [List.length_nil]; omega) y with ⟨hnone, hfail⟩ | ⟨s, hs, hat⟩
  · rw [hnone]
    exact Or.inl ⟨rfl, hfail⟩
  · rw [hs]
    exact Or.inr ⟨s, rfl, hat⟩

theorem Ready.rollBack_gives (h : c.Ready) (drafts : List Nat) :
    c.Gives d [] (c.rollBack d (c.verifying d drafts)) := by
  unfold rollBack
  split_ifs with hfail
  · exact Or.inl ⟨rfl, not_answers_of_rollback hfail⟩
  · refine Or.inr ⟨_, by rw [List.append_nil], ?_, ?_, ?_⟩
    · simp [Session.rollback, verifying, Session.clearDraft]
    · exact h.graph.trans (List.append_nil _).symm
    · rw [List.append_nil]
      exact h.logits

theorem Ready.commitFull_gives (h : c.Ready) {drafts : List Nat} (hfits : c.Fits drafts)
    (hverify : d.verify = true) :
    c.Gives d (if d.readRow (drafts.length - 1) = true then drafts else []) (c.commitFull d drafts) := by
  unfold commitFull
  simp only []
  cases hread : d.readRow (drafts.length - 1) with
  | false =>
    rw [if_pos rfl, if_neg (by decide)]
    exact h.rollBack_gives drafts
  | true =>
    rw [if_pos rfl, if_neg (by decide)]
    split_ifs with hcommit
    · exact Or.inl ⟨rfl, not_answers_of_commitSent hcommit⟩
    · refine Or.inr ⟨_, by rw [emit_eq _ hfits.cap hfits.eos], rfl, ?_, ?_⟩
      · simp only [verifying, hverify, if_true]
        rw [← h.graph]
        rfl
      · dsimp only
        rw [h.graph]

theorem Ready.keepDrafts_spec (h : c.Ready) (drafts kept : List Nat) :
    (c.keepDrafts d drafts kept = none ∧ ¬d.Answers) ∨
      ∃ s, c.keepDrafts d drafts kept = some s ∧ c.Holds s kept := by
  unfold keepDrafts
  simp only []
  by_cases hpre : d.link = none ∧ kept.length ≤ c.prefixSlots ∧ d.prefixCommit = true
  · rw [if_pos hpre]
    refine Or.inr ⟨_, rfl, ?_, ?_, rfl⟩
    · simp [verifying, Session.clearDraft]
    · dsimp only
      rw [h.graph]
  rw [if_neg hpre]
  by_cases hfail : d.restore = false ∨ d.commitSent = false
  · rw [if_pos hfail]
    exact Or.inl ⟨rfl, not_answers_of_rollback hfail⟩
  · rw [if_neg hfail]
    have hstart : c.Holds ((c.verifying d drafts).rollback c.session.checkpoint.length c.session.graph)
        [] := by
      refine ⟨?_, h.graph.trans (List.append_nil _).symm, h.valid⟩
      simp [Session.rollback, verifying, Session.clearDraft]
    rcases replayTokens_spec (d := d) hstart 0 kept with ⟨hnone, hanswers⟩ | ⟨s, hs, hholds⟩
    · rw [hnone]
      exact Or.inl ⟨rfl, hanswers⟩
    · rw [hs]
      dsimp only
      split_ifs with hhalf
      · refine Or.inl ⟨rfl, fun ha => ?_⟩
        cases hlink : d.link with
        | none =>
          rw [hlink] at hhalf
          cases hhalf
        | some l =>
          rw [hlink] at hhalf
          have hpair : l.vocabSplit = true ∧ (!l.recvHalf) = true := (Bool.and_eq_true _ _).mp hhalf
          have hrecv := ha.recvHalf l hlink hpair.1
          rw [hrecv] at hpair
          cases hpair.2
      · exact Or.inr ⟨_, rfl, hholds.checkpoint, hholds.graph, rfl⟩

theorem Ready.commitPartial_gives (h : c.Ready) {drafts kept : List Nat} (hfits : c.Fits drafts)
    (hkept : kept.length < drafts.length) (y : Nat) :
    c.Gives d (kept ++ [y]) (c.commitPartial d drafts kept y) := by
  have hroom := hfits.room
  have hcap := hfits.cap
  unfold commitPartial
  rcases h.keepDrafts_spec drafts kept with ⟨hnone, hfail⟩ | ⟨s, hs, hholds⟩
  · rw [hnone]
    exact Or.inl ⟨rfl, hfail⟩
  · rw [hs, Option.bind_some]
    rcases evalToken_spec (d := d) hholds (by omega) y with ⟨hnone, hfail⟩ | ⟨s', hs', hat⟩
    · rw [hnone]
      exact Or.inl ⟨rfl, hfail⟩
    · rw [hs']
      have htake : kept.take (c.acceptedCap - c.accepted.length) = kept :=
        List.take_of_length_le (by omega)
      refine Or.inr ⟨s', ?_, hat⟩
      dsimp only
      rw [htake, if_pos (by rw [List.length_append]; omega), List.append_assoc]

/-- The new tokens of a verdict. -/
def newTokens (d : Device) (drafts : List Nat) : Verdict → List Nat
  | .unavailable => []
  | .all => if d.readRow (drafts.length - 1) = true then drafts else []
  | .rejected kept replacement => kept ++ [replacement]

/-- A verdict on some drafts. -/
def VerdictOf (drafts : List Nat) : Verdict → Prop
  | .unavailable | .all => True
  | .rejected kept _ => kept.length < drafts.length

theorem Ready.settle_gives (h : c.Ready) {drafts : List Nat} (hfits : c.Fits drafts)
    (hverify : d.verify = true) {v : Verdict} (hv : VerdictOf drafts v) :
    c.Gives d (newTokens d drafts v) (c.settle d drafts v) := by
  cases v with
  | unavailable => exact h.rollBack_gives drafts
  | all => exact h.commitFull_gives hfits hverify
  | rejected kept y => exact h.commitPartial_gives hfits hv y

theorem verdict_all (c : StochasticCall n) (d : Device) (kept rest : List Nat) :
    (c.verdict d kept rest).All (VerdictOf (kept ++ rest)) := by
  induction rest generalizing kept with
  | nil => exact trivial
  | cons t rest ih =>
    rw [verdict]
    split_ifs
    · exact trivial
    · cases c.probs (c.target (c.session.graph ++ kept)) with
      | none => exact trivial
      | some p =>
        refine RandProg.all_bind (RandProg.all_true _ (P := fun _ => True) fun _ => trivial) ?_
        intro accept _
        cases accept with
        | true =>
          have hnext := ih (kept ++ [t])
          rwa [List.append_assoc] at hnext
        | false =>
          refine RandProg.all_bind (RandProg.all_true _ (P := fun _ => True) fun _ => trivial) ?_
          intro y _
          simp [RandProg.All, VerdictOf]

/-- The pending draft is a stochastic one. -/
def Pending (c : StochasticCall n) : Prop :=
  ¬(c.session.draftValid = false ∨ c.session.stochasticDraft = false ∨ c.session.draftTokens = [])

/-- What is known of a call on its own: -1, or the session at the new tokens. -/
def Kept (c : StochasticCall n) : StochasticResult n → Prop
  | .failed => True
  | .returned accepted s => ∃ new, accepted = c.accepted ++ new ∧ c.At s new

theorem Gives.ne_failed {new : List Nat} {r : StochasticResult n} (h : c.Gives d new r) (ha : d.Answers) :
    r ≠ .failed := by
  rcases h with ⟨-, hnot⟩ | ⟨s, rfl, -⟩
  · exact absurd ha hnot
  · simp

theorem Gives.kept {new : List Nat} {r : StochasticResult n} (h : c.Gives d new r) : c.Kept r := by
  rcases h with ⟨rfl, -⟩ | ⟨s, rfl, hat⟩
  · exact trivial
  · exact ⟨new, rfl, hat⟩

theorem Ready.unchanged_gives (h : c.Ready) :
    c.Gives d [] (.returned c.accepted c.session.clearDraft) :=
  Or.inr ⟨_, by rw [List.append_nil], h.at_start⟩

theorem Ready.firstKept_gives (h : c.Ready) {first : Nat} {rest : List Nat}
    (hfits : c.Fits (first :: rest)) :
    (c.firstKept d first rest).All fun r => ∃ new, c.Gives d new r := by
  unfold firstKept
  split_ifs with hsnapshot hsend hverify
  · exact ⟨[], h.unchanged_gives⟩
  · refine ⟨[], Or.inl ⟨rfl, fun ha => ?_⟩⟩
    cases hlink : d.link with
    | none =>
      rw [hlink] at hsend
      cases hsend
    | some l =>
      rw [hlink] at hsend
      simp [ha.sendVerify l hlink] at hsend
  · exact ⟨[], h.rollBack_gives _⟩
  · refine RandProg.all_bind (verdict_all c d [first] rest) fun v hv => ?_
    exact ⟨_, h.settle_gives hfits (by simpa using hverify) hv⟩

theorem Ready.evalStochastic_gives (h : c.Ready) (d : Device) :
    (c.evalStochastic d).All fun r => ∃ new, c.Gives d new r := by
  unfold evalStochastic
  split_ifs with hpending
  · refine ⟨[], Or.inr ⟨_, by rw [List.append_nil], ?_⟩⟩
    exact ⟨h.at_start.checkpoint, h.at_start.graph, h.at_start.logits⟩
  cases hblock : c.block with
  | none => exact ⟨[], h.unchanged_gives⟩
  | some drafts =>
    cases drafts with
    | nil => exact ⟨[], h.unchanged_gives⟩
    | cons first rest =>
      have hfits := block_fits hblock
      cases hprobs : c.probs c.session.logits with
      | none => exact ⟨[], h.unchanged_gives⟩
      | some p =>
        refine RandProg.all_bind (RandProg.all_true _ (P := fun _ => True) fun _ => trivial) ?_
        intro accept _
        cases accept with
        | true => exact h.firstKept_gives hfits
        | false =>
          refine RandProg.all_bind (RandProg.all_true _ (P := fun _ => True) fun _ => trivial) ?_
          intro y _
          exact ⟨[y], h.firstRejected_gives hfits y⟩

/-- **The state**: at every exit with a result the checkpoint is the old one with the new tokens, and the
logits are its row. -/
theorem Ready.evalStochastic_all (h : c.Ready) (d : Device) : (c.evalStochastic d).All c.Kept :=
  (h.evalStochastic_gives d).imp fun _ hgives => hgives.elim fun _ hr => hr.kept

/-- No outcome of the call is -1. -/
def NeverFails (c : StochasticCall n) (d : Device) : Prop := (c.evalStochastic d).All (· ≠ .failed)

/-- A device on which no step fails that the exits with -1 check. -/
theorem Ready.neverFails_of_answers (h : c.Ready) (ha : d.Answers) : c.NeverFails d :=
  (h.evalStochastic_gives d).imp fun _ hgives => hgives.elim fun _ hr => hr.ne_failed ha

/-! ## The coins -/

/-- The rows of probabilities of the model. -/
noncomputable def rows (c : StochasticCall n) : Rows := fun tokens => c.probs (c.target tokens)

/-- The target probabilities after some tokens. -/
noncomputable def p (c : StochasticCall n) : List Nat → Nat → ℝ := rowAt c.rows

theorem Ready.p_spec (h : c.Ready) (tokens : List Nat) :
    c.probs (c.target tokens) = some (c.p tokens) ∧ Distr n (c.p tokens) := by
  have hne : (c.target tokens).val ≠ [] := by
    rw [← List.length_pos_iff, (c.target tokens).property]
    exact h.vocab
  obtain ⟨probs, hprobs, hdistr⟩ := sampleBuildProbabilities_distr Real.exp_pos hne h.temperature
    c.fullProbs c.topK c.topP c.minP
  rw [(c.target tokens).property] at hdistr
  have hrow : c.probs (c.target tokens) = some probs := hprobs
  rw [p, rowAt, rows, hrow]
  exact ⟨rfl, hdistr⟩

theorem Ready.rowsOk (h : c.Ready) : RowsOk n c.rows :=
  ⟨h.vocab, fun tokens => (h.p_spec tokens).1, fun tokens => (h.p_spec tokens).2⟩

theorem speculativePointAccept_expect {w : ℝ} (hw : 0 ≤ w) (g : Bool → ℝ≥0∞) :
    (speculativePointAccept w 1).expect g =
      (1 - ENNReal.ofReal w) * g false + min 1 (ENNReal.ofReal w) * g true := by
  have htest := RandProg.lintegral_test hw zero_le_one (g false) (g true)
  rw [ENNReal.ofReal_one, one_mul] at htest
  rw [← htest, speculativePointAccept, if_neg one_pos.not_ge]
  have hall : ∀ a : ℝ≥0∞, ∫⁻ _ in Set.Ico (0 : ℝ) 1, a = a := by
    intro a
    rw [MeasureTheory.setLIntegral_const, Real.volume_Ico, sub_zero, ENNReal.ofReal_one, mul_one]
  split_ifs with hone hzero
  · rw [RandProg.expect_ret]
    refine ((hall (g true)).symm.trans ?_)
    refine MeasureTheory.setLIntegral_congr_fun measurableSet_Ico fun u hu => ?_
    rw [if_neg]
    rw [mul_one, not_lt]
    exact hu.2.le.trans hone
  · obtain rfl := le_antisymm hzero hw
    rw [RandProg.expect_ret, htest, ENNReal.ofReal_zero]
    simp
  · rw [RandProg.expect_draw]
    refine MeasureTheory.setLIntegral_congr_fun measurableSet_Ico fun u _ => ?_
    by_cases hu : w < u * 1
    · rw [if_pos hu, RandProg.expect_ret, decide_eq_false (not_le.mpr hu)]
    · rw [if_neg hu, RandProg.expect_ret, decide_eq_true (not_lt.mp hu)]

theorem replacement_expect {w : Nat → ℝ} (hw : Distr n w) (hn : 0 < n) {t : Nat} (ht : t < n)
    (f : Nat → ℝ≥0∞) :
    (1 - ENNReal.ofReal (w t)) * (speculativePointReplacement w t n).expect f =
      ∑ y ∈ (Finset.range n).erase t, ENNReal.ofReal (w y) * f y := by
  have hmem : t ∈ Finset.range n := Finset.mem_range.mpr ht
  have hnonneg : ∀ i, 0 ≤ Function.update w t 0 i := by
    intro i
    rw [Function.update_apply]
    split_ifs
    · exact le_rfl
    · exact hw.nonneg i
  have hother : ∀ g : Nat → ℝ≥0∞, ∑ y ∈ Finset.range n, ENNReal.ofReal (Function.update w t 0 y) * g y =
      ∑ y ∈ (Finset.range n).erase t, ENNReal.ofReal (w y) * g y := by
    intro g
    rw [← Finset.add_sum_erase _ _ hmem, Function.update_self, ENNReal.ofReal_zero, zero_mul, zero_add]
    refine Finset.sum_congr rfl fun y hy => ?_
    rw [Function.update_of_ne (Finset.ne_of_mem_erase hy)]
  have hsum : ∑ i ∈ Finset.range n, Function.update w t 0 i = 1 - w t := by
    rw [← hw.sum, ← Finset.add_sum_erase _ w hmem, ← Finset.add_sum_erase _ _ hmem, Function.update_self,
      zero_add, add_sub_cancel_left]
    exact Finset.sum_congr rfl fun y hy => Function.update_of_ne (Finset.ne_of_mem_erase hy) _ _
  have hmass : 1 - ENNReal.ofReal (w t) = ENNReal.ofReal (1 - w t) := by
    rw [ENNReal.ofReal_sub _ (hw.nonneg t), ENNReal.ofReal_one]
  rw [hmass, ← hother f]
  by_cases hzero : 1 - w t ≤ 0
  · rw [ENNReal.ofReal_of_nonpos hzero, zero_mul]
    have hnone : ∀ i ∈ Finset.range n, Function.update w t 0 i = 0 := by
      refine (Finset.sum_eq_zero_iff_of_nonneg fun i _ => hnonneg i).mp (le_antisymm ?_ ?_)
      · exact hsum.le.trans hzero
      · exact Finset.sum_nonneg fun i _ => hnonneg i
    refine (Finset.sum_eq_zero fun i hi => ?_).symm
    rw [hnone i hi, ENNReal.ofReal_zero, zero_mul]
  · have hpos := not_le.mp hzero
    rw [speculativePointReplacement, sampleProbabilities_hasLaw hnonneg hn (hsum ▸ hpos) f, hsum,
      Finset.mul_sum]
    refine Finset.sum_congr rfl fun i _ => ?_
    rw [← mul_assoc, ← ENNReal.ofReal_mul hpos.le, mul_div_cancel₀ _ hpos.ne']

/-! ## The expectation -/

section After

variable (c) (d)

/-- The expectation of a test after plain decoding up to as many tokens as `ys` behind the checkpoint. -/
noncomputable def after (ys tokens : List Nat) : ℝ≥0∞ :=
  Sampler.after n c.rows (RandProg.only (c.session.checkpoint ++ ys)) (c.session.checkpoint.length + ys.length)
    (c.session.checkpoint ++ tokens)

/-- The expectation behind a result. -/
noncomputable def resultAfter (ys : List Nat) : StochasticResult n → ℝ≥0∞
  | .failed => RandProg.only (c.accepted ++ ys) []
  | .returned accepted s =>
    (c.plainDraws (c.accepted.length + ys.length - accepted.length) s accepted).expect
      (RandProg.only (c.accepted ++ ys))

/-- The expectation behind a verdict. -/
noncomputable def verdictAfter (ys drafts kept rest : List Nat) : ℝ≥0∞ :=
  (c.verdict d kept rest).expect fun v => c.after ys (newTokens d drafts v)

variable {c d} {ys : List Nat}

/-- **One coin**: a draft that is kept with its chance, or replaced. -/
theorem Ready.coin_eq (h : c.Ready) {kept : List Nat} (hlen : kept.length < ys.length) {t : Nat}
    (ht : t < n) (kind : Nat → ℝ) (hkind : kind = c.p (c.session.checkpoint ++ kept)) :
    (1 - ENNReal.ofReal (kind t)) *
        (speculativePointReplacement kind t n).expect (fun y => c.after ys (kept ++ [y])) +
      min 1 (ENNReal.ofReal (kind t)) * c.after ys (kept ++ [t]) = c.after ys kept := by
  subst hkind
  have hdistr := (h.p_spec (c.session.checkpoint ++ kept)).2
  have hmem : t ∈ Finset.range n := Finset.mem_range.mpr ht
  have hle := hdistr.ofReal_le_one ht
  rw [replacement_expect hdistr h.vocab ht, min_eq_right hle, add_comm]
  rw [Finset.add_sum_erase _ (fun y => ENNReal.ofReal (c.p (c.session.checkpoint ++ kept) y) *
    c.after ys (kept ++ [y])) hmem]
  have hshort : (c.session.checkpoint ++ kept).length < c.session.checkpoint.length + ys.length := by
    rw [List.length_append]
    omega
  have hstep := @RowsOk.after_eq _ _ (RandProg.only (c.session.checkpoint ++ ys)) _ h.rowsOk _ hshort
  rw [after, hstep]
  refine Finset.sum_congr rfl fun y _ => ?_
  rw [after, List.append_assoc]
  rfl

theorem verdict_cons {kept rest : List Nat} {t : Nat} (h : c.Ready)
    (hread : d.readRow (kept.length - 1) = true) (f : Verdict → ℝ≥0∞) :
    (c.verdict d kept (t :: rest)).expect f =
      (1 - ENNReal.ofReal (c.p (c.session.checkpoint ++ kept) t)) *
          (speculativePointReplacement (c.p (c.session.checkpoint ++ kept)) t n).expect
            (fun y => f (.rejected kept y)) +
        min 1 (ENNReal.ofReal (c.p (c.session.checkpoint ++ kept) t)) *
          (c.verdict d (kept ++ [t]) rest).expect f := by
  obtain ⟨hp, hdistr⟩ := h.p_spec (c.session.checkpoint ++ kept)
  rw [verdict, if_neg (by rw [hread]; decide), h.graph, hp]
  simp only [RandProg.expect_bind]
  rw [speculativePointAccept_expect (hdistr.nonneg t)]
  simp

/-- The drafts that were kept when a row cannot be read. -/
def lost (d : Device) : List Nat → List Nat → Option (List Nat)
  | kept, [] => if d.readRow (kept.length - 1) = true then none else some kept
  | kept, t :: rest => if d.readRow (kept.length - 1) = true then lost d (kept ++ [t]) rest else some kept

theorem lost_prefix {kept rest given : List Nat} (h : lost d kept rest = some given) : kept <+: given := by
  induction rest generalizing kept with
  | nil =>
    rw [lost] at h
    split_ifs at h
    exact (Option.some.inj h) ▸ List.prefix_rfl
  | cons t rest ih =>
    rw [lost] at h
    split_ifs at h
    · exact (List.prefix_append kept [t]).trans (ih h)
    · exact (Option.some.inj h) ▸ List.prefix_rfl

/-- All rows are read: the verdict is plain decoding. -/
theorem Ready.verdictAfter_of_none (h : c.Ready) {drafts kept rest : List Nat}
    (hlost : lost d kept rest = none) (hdrafts : drafts = kept ++ rest)
    (hlen : drafts.length ≤ ys.length) (hvocab : ∀ t ∈ drafts, t < n) :
    c.verdictAfter d ys drafts kept rest = c.after ys kept := by
  induction rest generalizing kept with
  | nil =>
    rw [lost] at hlost
    split_ifs at hlost with hread
    rw [List.append_nil] at hdrafts
    subst hdrafts
    rw [verdictAfter, verdict, RandProg.expect_ret, newTokens, if_pos hread]
  | cons t rest ih =>
    rw [lost] at hlost
    split_ifs at hlost with hread
    have hnext := ih hlost (by rw [hdrafts, List.append_assoc]; rfl)
    have hlength := congrArg List.length hdrafts
    rw [List.length_append, List.length_cons] at hlength
    rw [verdictAfter, verdict_cons h hread]
    rw [verdictAfter] at hnext
    rw [hnext]
    exact h.coin_eq (by omega) (hvocab t (by rw [hdrafts]; simp)) _ rfl

/-- A row is lost: the drafts that were kept are drawn again. -/
theorem Ready.verdictAfter_of_some (h : c.Ready) {drafts kept rest more : List Nat}
    (hlost : lost d kept rest = some (kept ++ more)) (hdrafts : drafts = kept ++ rest)
    (hlen : drafts.length ≤ ys.length) (hvocab : ∀ t ∈ drafts, t < n) :
    c.verdictAfter d ys drafts kept rest +
        chance c.p (c.session.checkpoint ++ kept) more * c.after ys (kept ++ more) =
      c.after ys kept + chance c.p (c.session.checkpoint ++ kept) more * c.after ys [] := by
  induction rest generalizing kept more with
  | nil =>
    rw [lost] at hlost
    split_ifs at hlost with hread
    have hmore : more = [] := by simpa using Option.some.inj hlost
    rw [List.append_nil] at hdrafts
    subst hdrafts hmore
    rw [verdictAfter, verdict, RandProg.expect_ret, newTokens, if_neg hread, chance, one_mul, one_mul,
      List.append_nil, add_comm]
  | cons t rest ih =>
    rw [lost] at hlost
    split_ifs at hlost with hread
    · obtain ⟨more, rfl⟩ : ∃ more', more = t :: more' := by
        have hpre := lost_prefix hlost
        rw [List.prefix_append_right_inj] at hpre
        obtain ⟨more', hmore⟩ := hpre
        exact ⟨more', hmore.symm⟩
      have happend : kept ++ t :: more = kept ++ [t] ++ more := by
        rw [List.append_assoc]
        rfl
      rw [happend] at hlost ⊢
      have hnext := ih hlost (by rw [hdrafts, List.append_assoc]; rfl)
      have hlength := congrArg List.length hdrafts
      rw [List.length_append, List.length_cons] at hlength
      have ht : t < n := hvocab t (by rw [hdrafts]; simp)
      have hcoin := @Ready.coin_eq _ c ys h kept (by omega) t ht _ rfl
      have hdistr := (h.p_spec (c.session.checkpoint ++ kept)).2
      have hle := hdistr.ofReal_le_one ht
      rw [verdictAfter] at hnext ⊢
      rw [verdict_cons h hread]
      rw [min_eq_right hle] at hcoin ⊢
      rw [chance, ← List.append_assoc] at *
      rw [← hcoin, mul_assoc, mul_assoc, add_assoc, add_assoc, ← mul_add, ← mul_add, hnext]
      rfl
    · have hmore : more = [] := by simpa using Option.some.inj hlost
      subst hmore
      rw [verdictAfter, verdict, if_pos (by simpa using hread), RandProg.expect_ret, newTokens, chance, one_mul,
        one_mul, List.append_nil, add_comm]

end After

/-! ## The call -/

/-- The drafts that are given up: a step fails behind them, and they are drawn again. -/
def givenUp (c : StochasticCall n) (d : Device) : Option (List Nat) :=
  if c.session.draftValid = false ∨ c.session.stochasticDraft = false ∨ c.session.draftTokens = [] then none
  else
    match c.block with
    | none | some [] => none
    | some (first :: rest) =>
      if d.snapshot = false ∨ d.rowBuffer = false ∨ d.verify = false then some [first]
      else lost d [first] rest

/-- The call is exact: behind what the caller had, any long enough sequence of tokens comes with the
chance that autoregressive sampling gives it. -/
def Exact (c : StochasticCall n) (d : Device) : Prop :=
  ∀ ys : List Nat, c.session.draftTokens.length ≤ ys.length →
    (c.sequence d ys.length).prob (c.accepted ++ ys) = chance c.p c.session.checkpoint ys

section Call

variable {ys : List Nat}

theorem Ready.plainDraws_prob (h : c.Ready) {s : Session n} {new : List Nat} (hat : c.At s new) (k : Nat) :
    (c.plainDraws k s (c.accepted ++ new)).prob (c.accepted ++ ys) =
      (decode n c.rows k (c.session.checkpoint ++ new)).prob (c.session.checkpoint ++ ys) := by
  induction k generalizing s new with
  | zero =>
    rw [plainDraws, decode, RandProg.prob, RandProg.prob, RandProg.expect_ret, RandProg.expect_ret, RandProg.only,
      RandProg.only,
      List.append_right_inj, List.append_right_inj]
  | succ k ih =>
    have hrow : c.probs s.logits = c.rows (c.session.checkpoint ++ new) := by
      rw [hat.logits]
      rfl
    obtain ⟨hp, -⟩ := h.p_spec (c.session.checkpoint ++ new)
    have hsome : c.rows (c.session.checkpoint ++ new) = some (c.p (c.session.checkpoint ++ new)) := hp
    rw [plainDraws, decode, hrow, hsome, RandProg.prob, RandProg.prob]
    simp only [RandProg.expect_bind]
    congr 1
    funext t
    have hnext : c.At { s with
        checkpoint := s.checkpoint ++ [t]
        graph := s.graph ++ [t]
        logits := c.target (s.graph ++ [t]) } (new ++ [t]) := by
      refine ⟨?_, ?_, ?_⟩
      · dsimp only
        rw [hat.checkpoint, List.append_assoc]
      · dsimp only
        rw [hat.graph, List.append_assoc]
      · dsimp only
        rw [hat.graph, List.append_assoc]
    have hind := ih hnext
    rw [List.append_assoc, List.append_assoc]
    exact hind

theorem Ready.resultAfter_eq (h : c.Ready) {new : List Nat} {r : StochasticResult n} (hne : r ≠ .failed)
    (hr : c.Gives d new r) : c.resultAfter ys r = c.after ys new := by
  rcases hr with ⟨hfailed, -⟩ | ⟨s, rfl, hat⟩
  · exact absurd hfailed hne
  · have hprob := @Ready.plainDraws_prob _ c ys h _ _ hat
      (c.accepted.length + ys.length - (c.accepted ++ new).length)
    rw [resultAfter, after, Sampler.after]
    rw [RandProg.prob, RandProg.prob] at hprob
    rw [hprob, List.length_append, List.length_append]
    congr 2
    omega

theorem Ready.sequence_prob (c : StochasticCall n) (d : Device) :
    (c.sequence d ys.length).prob (c.accepted ++ ys) = (c.evalStochastic d).expect (c.resultAfter ys) := by
  rw [sequence, RandProg.prob, RandProg.expect_bind]
  congr 1
  funext r
  cases r <;> rfl

theorem Ready.firstKept_verdict (h : c.Ready) {first : Nat} {rest : List Nat}
    (hne : (c.firstKept d first rest).All (· ≠ .failed)) (hfits : c.Fits (first :: rest))
    (hready : ¬(d.snapshot = false ∨ d.rowBuffer = false ∨ d.verify = false)) :
    (c.firstKept d first rest).expect (c.resultAfter ys) =
      c.verdictAfter d ys (first :: rest) [first] rest := by
  simp only [not_or] at hready
  unfold firstKept at hne ⊢
  rw [if_neg (by rw [not_or]; exact ⟨hready.1, hready.2.1⟩)] at hne ⊢
  by_cases hsend : d.link.any (fun l => !l.sendVerify) = true
  · rw [if_pos hsend] at hne
    exact absurd rfl hne
  · rw [if_neg hsend, if_neg hready.2.2] at hne ⊢
    rw [RandProg.expect_bind, verdictAfter]
    refine (hne.of_bind.and (verdict_all c d [first] rest)).expect_congr fun v hv => ?_
    exact h.resultAfter_eq hv.1 (h.settle_gives hfits (by simpa using hready.2.2) hv.2)

theorem Ready.firstKept_unverified (h : c.Ready) {first : Nat} {rest : List Nat}
    (hne : (c.firstKept d first rest).All (· ≠ .failed))
    (hnot : d.snapshot = false ∨ d.rowBuffer = false ∨ d.verify = false) :
    (c.firstKept d first rest).expect (c.resultAfter ys) = c.after ys [] := by
  unfold firstKept at hne ⊢
  by_cases hsnapshot : d.snapshot = false ∨ d.rowBuffer = false
  · rw [if_pos hsnapshot] at hne ⊢
    exact h.resultAfter_eq hne (@Ready.unchanged_gives _ c d h)
  · rw [← or_assoc] at hnot
    rw [if_neg hsnapshot] at hne ⊢
    by_cases hsend : d.link.any (fun l => !l.sendVerify) = true
    · rw [if_pos hsend] at hne
      exact absurd rfl hne
    · rw [if_neg hsend, if_pos (hnot.resolve_left hsnapshot)] at hne ⊢
      exact h.resultAfter_eq hne (h.rollBack_gives _)

theorem Ready.evalStochastic_expect (h : c.Ready) (hne : c.NeverFails d) (hpending : c.Pending) {first : Nat}
    {rest : List Nat} (hblock : c.block = some (first :: rest)) {value : ℝ≥0∞}
    (hkept : (c.firstKept d first rest).All (· ≠ .failed) →
      (c.firstKept d first rest).expect (c.resultAfter ys) = value) :
    (c.evalStochastic d).expect (c.resultAfter ys) =
      (1 - ENNReal.ofReal (c.p c.session.checkpoint first)) *
          (speculativePointReplacement (c.p c.session.checkpoint) first n).expect
            (fun y => c.after ys ([] ++ [y])) +
        min 1 (ENNReal.ofReal (c.p c.session.checkpoint first)) * value := by
  obtain ⟨hp, hdistr⟩ := h.p_spec c.session.checkpoint
  unfold NeverFails at hne
  unfold evalStochastic at hne ⊢
  rw [if_neg hpending, hblock] at hne ⊢
  dsimp only at hne ⊢
  rw [h.logits, hp] at hne ⊢
  dsimp only at hne ⊢
  -- no outcome of the coin leads to a failure, so each one counts with the value that it leads to
  rw [RandProg.expect_bind, hne.of_bind.expect_congr (g := fun accept => if accept = true then value
    else (speculativePointReplacement (c.p c.session.checkpoint) first n).expect
      fun y => c.after ys ([] ++ [y])), speculativePointAccept_expect (hdistr.nonneg first)]
  · rfl
  · intro accept haccept
    cases accept with
    | true => exact hkept haccept
    | false =>
      rw [if_neg Bool.false_ne_true] at haccept ⊢
      rw [RandProg.expect_bind]
      refine haccept.of_bind.expect_congr fun y hy => ?_
      exact h.resultAfter_eq hy (h.firstRejected_gives (block_fits hblock) y)

/-- **Nothing is given up**: the call is plain decoding. -/
theorem Ready.evalStochastic_of_none (h : c.Ready) (hne : c.NeverFails d) (hgiven : c.givenUp d = none)
    (hlen : c.session.draftTokens.length ≤ ys.length) :
    (c.evalStochastic d).expect (c.resultAfter ys) = c.after ys [] := by
  have hunchanged : c.resultAfter ys (.returned c.accepted c.session.clearDraft) = c.after ys [] :=
    h.resultAfter_eq (by simp) (@Ready.unchanged_gives _ c d h)
  unfold givenUp at hgiven
  by_cases hpending : c.Pending
  · rw [if_neg hpending] at hgiven
    cases hblock : c.block with
    | none =>
      rw [evalStochastic, if_neg hpending, hblock]
      exact hunchanged
    | some drafts =>
      cases drafts with
      | nil =>
        rw [evalStochastic, if_neg hpending, hblock]
        exact hunchanged
      | cons first rest =>
        rw [hblock] at hgiven
        dsimp only at hgiven
        split_ifs at hgiven with hnot
        have hfits := block_fits hblock
        have hproposed := hfits.proposed
        have hdrafts : first :: rest = [first] ++ rest := rfl
        have hverdict := h.verdictAfter_of_none hgiven hdrafts (hproposed.trans hlen) hfits.vocab
        have hcoin := @Ready.coin_eq _ c ys h [] (by rw [List.length_cons] at hproposed; simp; omega)
          first (hfits.vocab first (by simp)) _ rfl
        rw [List.append_nil] at hcoin
        rw [h.evalStochastic_expect hne hpending hblock fun hkept =>
          (h.firstKept_verdict hkept hfits hnot).trans hverdict, ← hcoin]
        rfl
  · rw [Pending, not_not] at hpending
    rw [evalStochastic, if_pos hpending]
    refine h.resultAfter_eq (d := d) (by simp) (Or.inr ⟨_, by rw [List.append_nil], ?_⟩)
    exact ⟨h.at_start.checkpoint, h.at_start.graph, h.at_start.logits⟩

/-- **Drafts that are given up** are drawn again. -/
theorem Ready.evalStochastic_of_some (h : c.Ready) (hne : c.NeverFails d) {given : List Nat}
    (hgiven : c.givenUp d = some given) (hlen : c.session.draftTokens.length ≤ ys.length) :
    (c.evalStochastic d).expect (c.resultAfter ys) +
        chance c.p c.session.checkpoint given * c.after ys given =
      c.after ys [] + chance c.p c.session.checkpoint given * c.after ys [] := by
  unfold givenUp at hgiven
  have hpending : c.Pending := by
    intro hnone
    rw [if_pos hnone] at hgiven
    cases hgiven
  rw [if_neg hpending] at hgiven
  cases hblock : c.block with
  | none =>
    rw [hblock] at hgiven
    cases hgiven
  | some drafts =>
    cases drafts with
    | nil =>
      rw [hblock] at hgiven
      cases hgiven
    | cons first rest =>
      rw [hblock] at hgiven
      dsimp only at hgiven
      have hfits := block_fits hblock
      have hproposed := hfits.proposed
      have hfirst := hfits.vocab first (by simp)
      have hle := (h.p_spec c.session.checkpoint).2.ofReal_le_one hfirst
      have hcoin := @Ready.coin_eq _ c ys h [] (by rw [List.length_cons] at hproposed; simp; omega)
        first hfirst _ rfl
      rw [List.append_nil, min_eq_right hle] at hcoin
      split_ifs at hgiven with hnot
      · obtain rfl := Option.some.inj hgiven
        rw [h.evalStochastic_expect hne hpending hblock fun hkept => h.firstKept_unverified hkept hnot,
          min_eq_right hle, chance, chance, mul_one]
        nth_rewrite 2 [← hcoin]
        rw [add_right_comm]
        rfl
      · obtain ⟨more, rfl⟩ := lost_prefix hgiven
        have hdrafts : first :: rest = [first] ++ rest := rfl
        have hverdict := h.verdictAfter_of_some hgiven hdrafts (hproposed.trans hlen) hfits.vocab
        rw [h.evalStochastic_expect hne hpending hblock fun hkept => h.firstKept_verdict hkept hfits hnot,
          min_eq_right hle, List.singleton_append, chance, mul_assoc, mul_assoc, add_assoc, ← mul_add]
        rw [List.singleton_append] at hverdict
        rw [hverdict, mul_add, ← add_assoc, ← hcoin]
        rfl

end Call

/-! ## What is given up -/

/-- The coins that are given up were no coins: the drafts behind which a step fails are certain, or
cannot come. -/
def CoinsKept (c : StochasticCall n) (d : Device) : Prop :=
  ∀ given, c.givenUp d = some given →
    chance c.p c.session.checkpoint given = 0 ∨ chance c.p c.session.checkpoint given = 1

/-- The call preserves the target distribution, unless it can return -1, and its state. -/
def Preserves (c : StochasticCall n) (d : Device) : Prop :=
  (c.NeverFails d → c.Exact d) ∧ (c.evalStochastic d).All c.Kept

theorem Ready.after_chance (h : c.Ready) (xs zs : List Nat) :
    c.after (xs ++ zs) xs = chance c.p (c.session.checkpoint ++ xs) zs := by
  have honly := h.rowsOk.after_only (c.session.checkpoint ++ xs) zs
  rw [List.append_assoc, List.length_append, Nat.add_assoc, ← List.length_append] at honly
  exact honly

theorem Ready.exact_iff (h : c.Ready) : c.Exact d ↔ ∀ ys : List Nat,
    c.session.draftTokens.length ≤ ys.length →
      (c.evalStochastic d).expect (c.resultAfter ys) = c.after ys [] := by
  refine forall_congr' fun ys => imp_congr Iff.rfl ?_
  have hafter := h.after_chance [] ys
  rw [List.nil_append, List.append_nil] at hafter
  rw [hafter, ← Ready.sequence_prob]

theorem lost_length {kept rest given : List Nat} (h : lost d kept rest = some given) :
    given.length ≤ kept.length + rest.length := by
  induction rest generalizing kept with
  | nil =>
    rw [lost] at h
    split_ifs at h
    exact (Option.some.inj h) ▸ le_rfl
  | cons t rest ih =>
    rw [lost] at h
    split_ifs at h
    · have hnext := ih h
      rw [List.length_append, List.length_singleton] at hnext
      rw [List.length_cons]
      omega
    · exact (Option.some.inj h) ▸ Nat.le_add_right _ _

theorem givenUp_le {given : List Nat} (hgiven : c.givenUp d = some given) :
    given.length ≤ c.session.draftTokens.length := by
  unfold givenUp at hgiven
  split at hgiven
  · cases hgiven
  · split at hgiven
    · cases hgiven
    · cases hgiven
    · rename_i first rest hblock
      have hproposed := (block_fits hblock).proposed
      rw [List.length_cons] at hproposed
      split at hgiven
      · obtain rfl := Option.some.inj hgiven
        rw [List.length_singleton]
        omega
      · have hlost := lost_length hgiven
        rw [List.length_singleton] at hlost
        omega

/-- What is given up by an exact call is certain, or cannot come. -/
theorem givenUp_certain {given : List Nat} (hgiven : c.givenUp d = some given) (h : c.Exact d)
    (hr : c.Ready) (hne : c.NeverFails d) :
    chance c.p c.session.checkpoint given = 0 ∨ chance c.p c.session.checkpoint given = 1 := by
  obtain ⟨zs, hlen, hzs⟩ := hr.rowsOk.exists_chance (c.session.checkpoint ++ given) c.session.draftTokens.length
  have hlong : c.session.draftTokens.length ≤ (given ++ zs).length := by
    rw [List.length_append]
    omega
  have hsame := hr.exact_iff.mp h (given ++ zs) hlong
  have hsome := hr.evalStochastic_of_some hne hgiven hlong
  have hall := hr.after_chance [] (given ++ zs)
  rw [List.nil_append, List.append_nil, chance_append] at hall
  rw [hsame, hr.after_chance, hall] at hsome
  have hpos : chance c.p (c.session.checkpoint ++ given) zs ≠ 0 := hzs
  generalize hC : chance c.p c.session.checkpoint given = C at hsome ⊢
  generalize hc' : chance c.p (c.session.checkpoint ++ given) zs = c' at hsome hpos
  have hCtop : C ≠ ∞ := hC ▸ chance_ne_top _ _ _
  have hctop : c' ≠ ∞ := hc' ▸ chance_ne_top _ _ _
  have hcancel := (ENNReal.add_right_inj (ENNReal.mul_ne_top hCtop hctop)).mp hsome
  by_cases hzero : C = 0
  · exact Or.inl hzero
  · right
    have hmul := (ENNReal.mul_right_inj hzero hCtop).mp hcancel
    have hone : 1 * c' = C * c' := by rwa [one_mul]
    exact ((ENNReal.mul_left_inj hpos hctop).mp hone).symm

theorem Ready.exact_of_coinsKept (h : c.Ready) (hne : c.NeverFails d) (hkept : c.CoinsKept d) : c.Exact d := by
  rw [h.exact_iff]
  intro ys hlen
  cases hgiven : c.givenUp d with
  | none => exact h.evalStochastic_of_none hne hgiven hlen
  | some given =>
    have hsome := h.evalStochastic_of_some hne hgiven hlen
    rcases hkept given hgiven with hzero | hone
    · simpa [hzero] using hsome
    · have hafter : c.after ys [] ≠ ∞ := by
        have hchance := h.after_chance [] ys
        rw [List.nil_append] at hchance
        rw [hchance]
        exact chance_ne_top _ _ _
      have hskip : c.after ys [] = c.after ys given := by
        rw [after, List.append_nil]
        exact h.rowsOk.after_certain hone (Nat.add_le_add_left ((givenUp_le hgiven).trans hlen) _)
      rw [hone, one_mul, one_mul, ← hskip] at hsome
      exact (ENNReal.add_left_inj hafter).mp hsome

/-- **Point-mass speculation** preserves the distribution and the state, if and only if the drafts that
are given up when a step fails were certain. -/
theorem preserves_iff_coinsKept (h : c.Ready) : c.Preserves d ↔ (c.NeverFails d → c.CoinsKept d) := by
  constructor
  · intro hpreserves hne given hgiven
    exact givenUp_certain hgiven (hpreserves.1 hne) h hne
  · intro hkept
    exact ⟨fun hne => h.exact_of_coinsKept hne (hkept hne), h.evalStochastic_all d⟩

/-! ## A verifier that fails -/

theorem twoLogits : [Logit.fin (0 : ℝ), .fin 0].length = 2 := rfl

/-- One draft of two tokens of equal chance. -/
noncomputable def evenCall : StochasticCall 2 where
  session := {
    checkpoint := [0]
    valid := true
    graph := [0]
    logits := ⟨[.fin 0, .fin 0], twoLogits⟩
    draftValid := true
    stochasticDraft := true
    draftTokens := [0] }
  ctxSize := 100
  accepted := [0]
  maxTokens := 10
  acceptedCap := 10
  eos := -1
  temperature := 1
  topK := 0
  topP := 1
  minP := 0
  fullProbs := true
  prefixSlots := 5
  target := fun _ => ⟨[.fin 0, .fin 0], twoLogits⟩

/-- A device on which only the verifier fails. -/
def failingVerifier : Device where
  snapshot := true
  rowBuffer := true
  verify := false
  readRow := fun _ => true
  prefixCommit := true
  restore := true
  replay := fun _ => true
  evaluate := true
  broken := []
  link := none

theorem evenCall_ready : evenCall.Ready := ⟨by decide, one_pos, rfl, rfl, rfl⟩

theorem evenCall_neverFails : evenCall.NeverFails failingVerifier :=
  evenCall_ready.neverFails_of_answers ⟨rfl, fun _ => rfl, rfl, nofun, nofun, nofun⟩

theorem preserves_iff_coinsKept_even : evenCall.Ready ∧ evenCall.NeverFails failingVerifier ∧
    (evenCall.Preserves failingVerifier ↔
      (evenCall.NeverFails failingVerifier → evenCall.CoinsKept failingVerifier)) :=
  ⟨evenCall_ready, evenCall_neverFails, preserves_iff_coinsKept evenCall_ready⟩

/-- The draft was kept by a coin, and the caller draws again. -/
theorem evenCall_not_preserves : ¬evenCall.Preserves failingVerifier := by
  intro hpreserves
  have hgiven : evenCall.givenUp failingVerifier = some [0] := rfl
  have hp : ∀ tokens, evenCall.p tokens = Cycle.evenCycle.q tokens := fun _ => rfl
  have h0 := Cycle.evenCycle_q [0] (show 0 < 2 by decide)
  have h1 := Cycle.evenCycle_q [0] (show 1 < 2 by decide)
  have hsum := (evenCall_ready.p_spec [0]).2.sum
  rw [hp, Finset.sum_range_succ, Finset.sum_range_one] at hsum
  have hchance : chance evenCall.p evenCall.session.checkpoint [0] =
      ENNReal.ofReal (Cycle.evenCycle.q [0] 0) := by
    rw [chance, chance, mul_one, hp]
    rfl
  rcases givenUp_certain hgiven (hpreserves.1 evenCall_neverFails) evenCall_ready evenCall_neverFails with hzero | hone
  · rw [hchance, ENNReal.ofReal_eq_zero] at hzero
    linarith
  · rw [hchance, ENNReal.ofReal_eq_one] at hone
    linarith

end StochasticCall

end Ds4.Dspark
