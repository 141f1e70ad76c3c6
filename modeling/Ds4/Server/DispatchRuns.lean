import Ds4.Server.Dispatch

/-!
# No job is lost, duplicated or misrouted

The queue is at any time the list of the jobs that were enqueued and not assigned, in order
(`Linked`), and every assignment that was made is right (`Assignment.Right`): the first waiting job
that a free slot can serve, on the first free slot of the highest rank. Idle times count up to the
cap of the score, and a utility job goes to the utility slot whatever its live tool state is bound
to.
-/

namespace Ds4.Server

open Ds4.Lib

/-! ## Ranks -/

/-- How good a slot is for a job that is not bound to a slot. -/
inductive SlotRank
  | reuse (tokens : Int)
  | empty
  | stale (idle : Int)
  | guarded (live : Nat)

/-- The tier of a rank, the highest for reuse. -/
def SlotRank.tier : SlotRank → Nat
  | .reuse _ => 3
  | .empty => 2
  | .stale _ => 1
  | .guarded _ => 0

/-- The order within a tier: more tokens, the longer idle, the shorter. -/
def SlotRank.key : SlotRank → Int
  | .reuse tokens => tokens
  | .empty => 0
  | .stale idle => min idle slotIdleScoreCap
  | .guarded live => -live

/-- A rank that is not higher than another. -/
def SlotRank.le (a b : SlotRank) : Prop := a.tier < b.tier ∨ (a.tier = b.tier ∧ a.key ≤ b.key)

/-- A rank that is lower than another. -/
def SlotRank.lt (a b : SlotRank) : Prop := a.tier < b.tier ∨ (a.tier = b.tier ∧ a.key < b.key)

/-- The rank of a slot. -/
def SlotView.rank (view : SlotView) (req : JobRequest) (now : Int) : SlotRank :=
  if 0 < view.reuse req then .reuse (view.reuse req)
  else if view.live = 0 then .empty
  else if slotStaleAfterSec ≤ view.idle now then .stale (view.idle now)
  else .guarded view.live

/-- The score of a rank. -/
def SlotRank.score : SlotRank → Int
  | .reuse tokens => tokens
  | .empty => 0
  | .stale idle => -1 - slotIdleScoreCap + min idle slotIdleScoreCap
  | .guarded live => slotProtectedScoreBase - live

/-- A rank that a slot can have. -/
def SlotRank.Valid : SlotRank → Prop
  | .reuse tokens => 0 < tokens
  | .empty => True
  | .stale idle => slotStaleAfterSec ≤ idle
  | .guarded _ => True

theorem rank_valid (view : SlotView) (req : JobRequest) (now : Int) :
    (view.rank req now).Valid := by
  unfold SlotView.rank
  split_ifs with h1 h2 h3
  · exact h1
  · trivial
  · exact h3
  · trivial

/-- **The tiers do not overlap.** The scores are in the order of the ranks. -/
theorem score_le_iff {a b : SlotRank} (ha : a.Valid) (hb : b.Valid) :
    a.score ≤ b.score ↔ a.le b := by
  cases a <;> cases b <;>
    simp [SlotRank.Valid, SlotRank.score, SlotRank.le, SlotRank.tier, SlotRank.key,
      slotProtectedScoreBase, slotIdleScoreCap, slotStaleAfterSec] at * <;> omega

theorem score_lt_iff {a b : SlotRank} (ha : a.Valid) (hb : b.Valid) :
    a.score < b.score ↔ a.lt b := by
  rw [← not_le, score_le_iff hb ha, SlotRank.le, SlotRank.lt]
  omega

/-- The scores of sessions with at most `2 ^ 20` tokens are no overflow of an `int`. -/
theorem score_fits {a : SlotRank} (ha : a.Valid) (hreuse : ∀ n, a = .reuse n → n ≤ 2 ^ 20)
    (hlive : ∀ n, a = .guarded n → n ≤ 2 ^ 20) : -2 ^ 31 < a.score ∧ a.score < 2 ^ 31 - 1 := by
  cases a <;>
    simp [SlotRank.Valid, SlotRank.score, slotProtectedScoreBase, slotIdleScoreCap,
      slotStaleAfterSec] at * <;> omega

theorem jobSlotScore_eq {slot : Slot} (hfree : slot.free = true) (i : Nat) (view : SlotView)
    (req : JobRequest) (now : Int) :
    jobSlotScore slot i view req none now = some (view.rank req now).score := by
  have hbusy : (slot.busy || slot.assigned.isSome) = false := by
    simp only [Slot.free, Bool.and_eq_true, Bool.not_eq_true', Option.isNone_iff_eq_none] at hfree
    simp [hfree.1, hfree.2]
  rw [jobSlotScore, hbusy, SlotView.rank]
  simp only [Bool.false_eq_true, if_false, ne_eq, not_true_eq_false, false_and, reduceCtorEq]
  split_ifs with h1 h2 h3
  · rfl
  · rfl
  · simp [SlotRank.score, min_eq_right (le_of_lt ‹_›)]
  · simp [SlotRank.score, min_eq_left (not_lt.mp ‹_›)]
  · rfl

/-! ## The choice of a slot -/

/-- A free slot that may serve a job: the utility slot for a utility job, the slot that it is bound
to for a bound one. -/
def Fleet.Servable (c : Fleet) (free : Nat → Bool) (probe : Probe) (j i : Nat) : Prop :=
  free i = true ∧
    if c.isUtility j then i = c.slotCount
    else i < c.slotCount ∧ ∀ q, c.requiredSlot probe j = some q → i = q

/-- An assignment is right: the slot can serve the job and none in front of it can be served, and
no slot that could serve it has a higher rank, nor the same rank in front of it. -/
structure Assignment.Right (c : Fleet) (a : Assignment) : Prop where
  servable : c.Servable a.free a.probe a.job a.slot
  first : ∃ earlier later, a.waiting = earlier ++ a.job :: later ∧
    ∀ j ∈ earlier, ∀ i, ¬ c.Servable a.free a.probe j i
  best : c.isUtility a.job = false → ∀ i, c.Servable a.free a.probe a.job i →
    ((a.probe i).rank (c.req a.job) a.now).le ((a.probe a.slot).rank (c.req a.job) a.now)
  first_best : c.isUtility a.job = false → ∀ i < a.slot, c.Servable a.free a.probe a.job i →
    ((a.probe i).rank (c.req a.job) a.now).lt ((a.probe a.slot).rank (c.req a.job) a.now)

theorem SlotRank.le_refl (a : SlotRank) : a.le a := .inr ⟨rfl, le_rfl⟩

namespace Dispatcher

variable {c : Fleet} {s s' : Dispatcher} {probe : Probe} {now : Int} {i j : Nat}

/-- The slots that are free. -/
abbrev free (s : Dispatcher) : Nat → Bool := fun i => (s.slots i).free

theorem score_ne_none (s : Dispatcher) (c : Fleet) (probe : Probe) (now : Int) (j i : Nat) :
    s.score c probe now j i ≠ none ↔
      s.free i = true ∧ ∀ q, c.requiredSlot probe j = some q → i = q := by
  have hfree : ((s.slots i).busy || (s.slots i).assigned.isSome) = true ↔ ¬ s.free i = true := by
    cases hb : (s.slots i).busy <;> simp [free, Slot.free, hb, Option.isSome_iff_ne_none]
  unfold score jobSlotScore
  split_ifs with h1 h2 h3 h4 h5 h6
  · simp [hfree.mp h1]
  · refine ⟨fun h => absurd rfl h, fun ⟨_, h⟩ => ?_⟩
    obtain ⟨q, hq⟩ := Option.ne_none_iff_exists'.mp h2.1
    exact absurd (hq.trans (congrArg some (h q hq).symm)) h2.2
  all_goals
    have hf : s.free i = true := not_not.mp fun hn => h1 (hfree.mpr hn)
    refine ⟨fun _ => ⟨hf, fun q hq => ?_⟩, fun _ => by simp⟩
    by_contra hne
    exact h2 ⟨by simp [hq], fun hs => hne (Option.some.inj (hs.symm.trans hq))⟩

theorem bestSlot_isBest (s : Dispatcher) (c : Fleet) (probe : Probe) (now : Int) (j : Nat)
    (hu : c.isUtility j = false) :
    IsBest (fun i => s.score c probe now j i ≠ none) (fun i => (s.score c probe now j i).getD 0)
      (List.range c.slotCount) (s.bestSlot c probe now j) := by
  rw [bestSlot, if_neg (by simp [hu])]
  exact foldl_bestStep _ _ _

theorem servable_iff (hu : c.isUtility j = false) :
    c.Servable s.free probe j i ↔
      i ∈ List.range c.slotCount ∧ s.score c probe now j i ≠ none := by
  rw [score_ne_none, Fleet.Servable, if_neg (by simp [hu]), List.mem_range]
  tauto

theorem servable_utility (hu : c.isUtility j = true) :
    c.Servable s.free probe j i ↔ s.free i = true ∧ i = c.slotCount := by
  rw [Fleet.Servable, if_pos hu]

theorem servable_bestSlot (h : s.bestSlot c probe now j = some i) :
    c.Servable s.free probe j i := by
  cases hu : c.isUtility j with
  | true =>
    rw [bestSlot, if_pos hu] at h
    split_ifs at h with hf
    obtain rfl := Option.some.inj h
    exact (servable_utility hu).mpr ⟨hf, rfl⟩
  | false =>
    exact (@servable_iff c s probe now _ j hu).mpr ((bestSlot_isBest s c probe now j hu).sound i h)

theorem not_servable_of_bestSlot (h : s.bestSlot c probe now j = none) (i : Nat) :
    ¬ c.Servable s.free probe j i := by
  intro hs
  cases hu : c.isUtility j with
  | true =>
    obtain ⟨hf, rfl⟩ := (servable_utility hu).mp hs
    rw [bestSlot, if_pos hu, if_pos hf] at h
    cases h
  | false =>
    obtain ⟨hmem, hok⟩ := (@servable_iff c s probe now _ j hu).mp hs
    exact (bestSlot_isBest s c probe now j hu).eq_none_iff.mp h i hmem hok

theorem score_of_servable (hreq : c.requiredSlot probe j = none) (h : c.Servable s.free probe j i) :
    s.score c probe now j i = some ((probe i).rank (c.req j) now).score := by
  rw [score, hreq]
  exact jobSlotScore_eq h.1 i (probe i) (c.req j) now

theorem eq_of_bound (hu : c.isUtility j = false) {q : Nat} (hreq : c.requiredSlot probe j = some q)
    (h : c.Servable s.free probe j i) : i = q := by
  simp only [Fleet.Servable, hu, Bool.false_eq_true, if_false] at h
  exact h.2.2 q hreq

/-- **The slot that is chosen has the highest rank.** -/
theorem rank_bestSlot (h : s.bestSlot c probe now j = some i) (hu : c.isUtility j = false)
    {k : Nat} (hk : c.Servable s.free probe j k) :
    ((probe k).rank (c.req j) now).le ((probe i).rank (c.req j) now) := by
  have hi := servable_bestSlot h
  obtain ⟨hmem, hok⟩ := (@servable_iff c s probe now _ j hu).mp hk
  obtain ⟨b, hb, hle⟩ := (bestSlot_isBest s c probe now j hu).max k hmem hok
  obtain rfl : b = i := Option.some.inj (hb.symm.trans h)
  cases hreq : c.requiredSlot probe j with
  | some q =>
    rw [eq_of_bound hu hreq hk, eq_of_bound hu hreq hi]
    exact SlotRank.le_refl _
  | none =>
    simp only [score_of_servable hreq hk, score_of_servable hreq hi, Option.getD_some] at hle
    exact (score_le_iff (rank_valid _ _ _) (rank_valid _ _ _)).mp hle

/-- **It is the first of them.** -/
theorem rank_lt_bestSlot (h : s.bestSlot c probe now j = some i) (hu : c.isUtility j = false)
    {k : Nat} (hki : k < i) (hk : c.Servable s.free probe j k) :
    ((probe k).rank (c.req j) now).lt ((probe i).rank (c.req j) now) := by
  have hi := servable_bestSlot h
  rw [bestSlot, if_neg (by simp [hu])] at h
  obtain ⟨front, back, hrange, hfront⟩ := foldl_bestStep_first _ _ h
  obtain ⟨hmem, hok⟩ := (@servable_iff c s probe now _ j hu).mp hk
  have hkfront : k ∈ front := by
    have hsorted := hrange ▸ List.pairwise_lt_range (n := c.slotCount)
    rw [hrange] at hmem
    rcases List.mem_append.mp hmem with hmem | hmem
    · exact hmem
    · rcases List.mem_cons.mp hmem with rfl | hmem
      · omega
      · have := List.rel_of_pairwise_cons (List.pairwise_append.mp hsorted).2.1 hmem
        omega
  have hlt := hfront k hkfront hok
  cases hreq : c.requiredSlot probe j with
  | some q =>
    have := eq_of_bound hu hreq hk
    have := eq_of_bound hu hreq hi
    omega
  | none =>
    simp only [score_of_servable hreq hk, score_of_servable hreq hi, Option.getD_some] at hlt
    exact (score_lt_iff (rank_valid _ _ _) (rank_valid _ _ _)).mp hlt

/-! ## The queue -/

/-- The queue holds the waiting jobs in order, and its tail is the last of them. -/
structure Linked (s : Dispatcher) : Prop where
  nodup : s.enqueued.Nodup
  chain : Chain s.next s.head s.waiting
  tail : s.tail = s.waiting.getLast?
  unlinked : ∀ j, j ∉ s.waiting → s.next j = none

theorem mem_waiting : j ∈ s.waiting ↔ j ∈ s.enqueued ∧ j ∉ s.log.map Assignment.job := by
  simp [waiting]

theorem Linked.waiting_nodup (h : s.Linked) : s.waiting.Nodup := h.nodup.filter _

theorem chooseFrom_spec (s : Dispatcher) (c : Fleet) (probe : Probe) (now : Int) {n : Nat}
    (prev : Option Nat) {start : Option Nat} {l : List Nat} (hl : Chain s.next start l)
    (hn : l.length < n) :
    match s.chooseFrom c probe now n prev start with
    | none => ∀ j ∈ l, s.bestSlot c probe now j = none
    | some (p, j, i) => ∃ earlier later, l = earlier ++ j :: later ∧
        p = (earlier.getLast?).or prev ∧ s.bestSlot c probe now j = some i ∧
        ∀ k ∈ earlier, s.bestSlot c probe now k = none := by
  induction n generalizing prev start l with
  | zero => omega
  | succ n ih =>
    cases l with
    | nil =>
      obtain rfl : start = none := hl
      simp [chooseFrom]
    | cons j l =>
      obtain ⟨rfl, hrest⟩ := hl
      rw [chooseFrom]
      cases hbest : s.bestSlot c probe now j with
      | some i => exact ⟨[], l, rfl, rfl, hbest, by simp⟩
      | none =>
        have := ih (some j) hrest (by simpa using hn)
        dsimp only
        split
        · next hnone =>
          rw [hnone] at this
          simpa [hbest] using this
        · next p k i hsome =>
          rw [hsome] at this
          obtain ⟨earlier, later, rfl, hp, hk, hearlier⟩ := this
          refine ⟨j :: earlier, later, rfl, ?_, hk, ?_⟩
          · rw [hp, List.getLast?_cons]
            cases earlier.getLast? <;> rfl
          · simpa [hbest] using hearlier

theorem waiting_assign {earlier later : List Nat} (h : s.Linked)
    (hw : s.waiting = earlier ++ j :: later) (prev : Option Nat) :
    (s.assign probe now prev j i).waiting = earlier ++ later := by
  have hfilter : (s.assign probe now prev j i).waiting = s.waiting.filter fun k => k ≠ j := by
    rw [waiting, waiting, List.filter_filter]
    refine List.filter_congr fun k _ => ?_
    rw [Bool.eq_iff_iff]
    simp [assign]
    tauto
  have hnd := h.waiting_nodup
  rw [hw] at hnd
  obtain ⟨hnot, -⟩ := List.nodup_cons.mp (List.nodup_middle.mp hnd)
  rw [hfilter, hw, List.filter_append, List.filter_cons_of_neg (by simp), ← List.filter_append]
  refine List.filter_eq_self.mpr fun k hk => ?_
  simpa using ne_of_mem_of_not_mem hk hnot

/-- **Taking a job out of the queue keeps it linked.** -/
theorem Linked.assign {earlier later : List Nat} (h : s.Linked)
    (hw : s.waiting = earlier ++ j :: later) :
    (s.assign probe now earlier.getLast? j i).Linked := by
  have hwait : (s.assign probe now earlier.getLast? j i).waiting = earlier ++ later :=
    waiting_assign h hw earlier.getLast?
  have hnd := h.waiting_nodup
  rw [hw] at hnd
  obtain ⟨hnot, hnd'⟩ := List.nodup_cons.mp (List.nodup_middle.mp hnd)
  refine ⟨h.nodup, ?_, ?_, ?_⟩
  · rw [hwait]
    have hchain := h.chain
    rw [hw] at hchain
    have haround := hchain.around hnd
    cases hlast : earlier.getLast? with
    | none =>
      rw [hlast] at haround
      exact haround.update hnot none
    | some p =>
      rw [hlast] at haround
      exact haround.update hnot none
  · rw [hwait]
    dsimp only [Dispatcher.assign]
    have htail := h.tail
    rw [hw] at htail
    cases hlater : later.getLast? with
    | none =>
      obtain rfl := List.getLast?_eq_none_iff.mp hlater
      rw [if_pos (by simpa using htail), List.append_nil]
    | some k =>
      have hk : k ∈ later := List.mem_of_getLast? hlater
      have hne : k ≠ j := by
        rintro rfl
        exact hnot (List.mem_append_right _ hk)
      have htail' : s.tail = some k := by
        rw [htail, List.getLast?_append, List.getLast?_cons, hlater]
        rfl
      rw [htail', if_neg (by simpa using hne), List.getLast?_append, hlater]
      rfl
  · intro k hk
    rw [hwait] at hk
    dsimp only [Dispatcher.assign]
    by_cases hkj : k = j
    · subst hkj
      cases earlier.getLast? <;> simp
    · have hnone : s.next k = none := by
        refine h.unlinked k ?_
        rw [hw]
        simp only [List.mem_append, List.mem_cons, not_or] at hk ⊢
        exact ⟨hk.1, hkj, hk.2⟩
      cases hlast : earlier.getLast? with
      | none => simpa [Function.update_of_ne hkj] using hnone
      | some p =>
        have hkp : k ≠ p := by
          rintro rfl
          exact hk (List.mem_append_left _ (List.mem_of_getLast? hlast))
        simpa [Function.update_of_ne hkj, Function.update_of_ne hkp] using hnone

/-- **A new job at the end of the queue.** -/
theorem Linked.link (h : s.Linked) (hj : j ∉ s.enqueued)
    (hlog : j ∉ s.log.map Assignment.job) :
    (s.link j).Linked ∧ (s.link j).waiting = s.waiting ++ [j] := by
  have hwait : (s.link j).waiting = s.waiting ++ [j] := by
    rw [waiting, waiting, Dispatcher.link, List.filter_append]
    congr 1
    simpa using hlog
  have hnot : j ∉ s.waiting := fun hm => hj (mem_waiting.1 hm).1
  have hnext := h.unlinked j hnot
  refine ⟨⟨?_, ?_, ?_, ?_⟩, hwait⟩
  · exact List.nodup_append.mpr ⟨h.nodup, by simp, by
      intro a ha b hb
      obtain rfl := List.mem_singleton.mp hb
      exact ne_of_mem_of_not_mem ha hj⟩
  · rw [hwait]
    have hchain := h.chain
    have htail := h.tail
    rcases List.eq_nil_or_concat' s.waiting with hnil | ⟨l, t, hl⟩
    · rw [hnil] at htail ⊢
      simp only [Dispatcher.link, htail]
      exact ⟨rfl, hnext⟩
    · have hnd := h.waiting_nodup
      rw [hl] at htail hchain hnd hnot ⊢
      have hlast : s.tail = some t := by simpa using htail
      have ht : t ∉ l := by
        intro hm
        exact (List.nodup_append.mp hnd).2.2 t hm t (List.mem_singleton_self t) rfl
      have hjt : j ≠ t := by
        rintro rfl
        exact hnot (by simp)
      simp only [Dispatcher.link, hlast]
      refine Segment.append_iff.mpr ⟨some j, hchain.retarget ht (some j), rfl, ?_⟩
      simpa [Function.update_of_ne hjt] using hnext
  · rw [hwait]
    simp [Dispatcher.link]
  · intro k hk
    rw [hwait] at hk
    simp only [List.mem_append, List.mem_singleton, not_or] at hk
    have hnone := h.unlinked k hk.1
    cases htail : s.tail with
    | none => simpa [Dispatcher.link, htail] using hnone
    | some t =>
      have hkt : k ≠ t := by
        rintro rfl
        exact hk.1 (List.mem_of_getLast? (h.tail.symm.trans htail))
      simpa [Dispatcher.link, htail, Function.update_of_ne hkt] using hnone

/-! ## The invariant -/

/-- What holds of every state: the queue is linked, a job is assigned once and a slot holds one job,
every assignment was right, and it saw the jobs that were enqueued before it and not assigned. -/
structure Sound (c : Fleet) (s : Dispatcher) : Prop where
  linked : s.Linked
  once : (s.log.map Assignment.job).Nodup
  enqueued : ∀ a ∈ s.log, a.job ∈ s.enqueued
  busy : ∀ i, (s.slots i).busy = ((s.slots i).assigned.isSome || (s.slots i).running.isSome)
  single : ∀ i, (s.slots i).assigned = none ∨ (s.slots i).running = none
  held : ∀ i j, (s.slots i).assigned = some j ∨ (s.slots i).running = some j →
    ∃ a ∈ s.log, a.job = j ∧ a.slot = i
  right : ∀ a ∈ s.log, a.Right c
  seen : ∀ before a after, s.log = before ++ a :: after → ∃ seen, seen <+: s.enqueued ∧
    a.waiting = seen.filter fun j => !(before.map Assignment.job).contains j

theorem sound_init (c : Fleet) (canaryPending : Bool) : Sound c (init canaryPending) := by
  refine ⟨⟨List.nodup_nil, rfl, rfl, fun _ _ => rfl⟩, List.nodup_nil, ?_, fun _ => rfl,
    fun _ => .inl rfl, ?_, ?_, ?_⟩
  · intro a ha
    cases ha
  · rintro i j (h | h) <;> cases h
  · intro a ha
    cases ha
  · intro before a after h
    simp [init] at h

/-- **A round of the dispatch.** -/
theorem Sound.assign (h : s.Sound c) {earlier later : List Nat}
    (hw : s.waiting = earlier ++ j :: later) (hi : s.bestSlot c probe now j = some i)
    (hearlier : ∀ k ∈ earlier, s.bestSlot c probe now k = none) :
    (s.assign probe now earlier.getLast? j i).Sound c := by
  have hserve := servable_bestSlot hi
  have hfree : (s.slots i).busy = false ∧ (s.slots i).assigned = none := by
    simpa [free, Slot.free] using hserve.1
  have hrun : (s.slots i).running = none := by
    have := h.busy i
    simpa [hfree.1, hfree.2] using this
  have hj : j ∈ s.waiting := by simp [hw]
  obtain ⟨hjenq, hjlog⟩ := mem_waiting.1 hj
  refine ⟨h.linked.assign hw, ?_, ?_, ?_, ?_, ?_, ?_, ?_⟩
  · dsimp only [Dispatcher.assign]
    rw [List.map_append]
    refine List.nodup_append.mpr ⟨h.once, by simp, ?_⟩
    intro a ha b hb
    obtain rfl := List.mem_singleton.mp hb
    exact ne_of_mem_of_not_mem ha hjlog
  · intro a ha
    rcases List.mem_append.mp ha with ha | ha
    · exact h.enqueued a ha
    · obtain rfl := List.mem_singleton.mp ha
      exact hjenq
  · intro k
    dsimp only [Dispatcher.assign]
    by_cases hk : k = i
    · subst hk
      simp
    · simpa [Function.update_of_ne hk] using h.busy k
  · intro k
    dsimp only [Dispatcher.assign]
    by_cases hk : k = i
    · subst hk
      exact .inr (by simpa using hrun)
    · simpa [Function.update_of_ne hk] using h.single k
  · intro k m hkm
    dsimp only [Dispatcher.assign] at hkm ⊢
    by_cases hk : k = i
    · subst hk
      have hm : j = m := by simpa [hrun] using hkm
      exact ⟨_, List.mem_append_right _ (List.mem_singleton_self _), hm, rfl⟩
    · rw [Function.update_of_ne hk] at hkm
      obtain ⟨a, ha, haj⟩ := h.held k m hkm
      exact ⟨a, List.mem_append_left _ ha, haj⟩
  · intro a ha
    rcases List.mem_append.mp ha with ha | ha
    · exact h.right a ha
    · obtain rfl := List.mem_singleton.mp ha
      refine ⟨hserve, ⟨earlier, later, hw, fun k hk => not_servable_of_bestSlot (hearlier k hk)⟩, ?_, ?_⟩
      · intro hu k hk
        exact rank_bestSlot hi hu hk
      · intro hu k hki hk
        exact rank_lt_bestSlot hi hu hki hk
  · intro before a after hlog
    dsimp only [Dispatcher.assign] at hlog
    rcases List.eq_nil_or_concat' after with rfl | ⟨after', b, rfl⟩
    · obtain ⟨rfl, hlast⟩ := List.append_inj' hlog rfl
      obtain rfl := (List.singleton_inj.mp hlast)
      exact ⟨s.enqueued, List.prefix_rfl, rfl⟩
    · have hsplit := hlog.trans (show _ = (before ++ a :: after') ++ [b] by simp)
      exact h.seen before a after' (List.append_inj' hsplit rfl).1

theorem dispatchOne_cases (h : s.Sound c) (probe : Probe) (now : Int) :
    (s.dispatchOne c probe now = none ∧ ∀ j ∈ s.waiting, ∀ i, ¬ c.Servable s.free probe j i) ∨
      ∃ s', s.dispatchOne c probe now = some s' ∧ s'.Sound c ∧
        s'.waiting.length + 1 = s.waiting.length := by
  have hlen : s.waiting.length < s.enqueued.length + 1 :=
    Nat.lt_succ_of_le (List.length_filter_le _ _)
  have hspec := chooseFrom_spec s c probe now none h.linked.chain hlen
  unfold dispatchOne
  cases hchoose : s.chooseFrom c probe now (s.enqueued.length + 1) none s.head with
  | none =>
    rw [hchoose] at hspec
    exact .inl ⟨rfl, fun j hj => not_servable_of_bestSlot (hspec j hj)⟩
  | some r =>
    obtain ⟨prev, j, i⟩ := r
    rw [hchoose] at hspec
    obtain ⟨earlier, later, hw, rfl, hi, hearlier⟩ := hspec
    rw [Option.or_none]
    refine .inr ⟨_, rfl, h.assign hw hi hearlier, ?_⟩
    rw [waiting_assign h.linked hw, hw, List.length_append, List.length_append, List.length_cons]
    omega

/-- **The rounds of the dispatch.** They end when no waiting job can be served. -/
theorem Sound.dispatchLoop (h : s.Sound c) (probes : Nat → Probe) (now : Int) {n : Nat}
    (hn : s.waiting.length < n) :
    (dispatchLoop c probes now n s).Sound c ∧ ∃ k, ∀ j ∈ (dispatchLoop c probes now n s).waiting,
      ∀ i, ¬ c.Servable (dispatchLoop c probes now n s).free (probes k) j i := by
  induction n generalizing s with
  | zero => omega
  | succ n ih =>
    rw [Dispatcher.dispatchLoop]
    rcases dispatchOne_cases h (probes n) now with
      ⟨hnone, hidle⟩ | ⟨s', hsome, hs', hlen⟩
    · rw [hnone]
      exact ⟨h, n, hidle⟩
    · rw [hsome]
      exact ih hs' (by omega)

theorem Sound.dispatchJobs (h : s.Sound c) (probes : Nat → Probe) (now : Int) :
    (s.dispatchJobs c probes now).Sound c := by
  unfold Dispatcher.dispatchJobs
  split_ifs
  · exact h
  · exact (h.dispatchLoop probes now (Nat.lt_succ_self _)).1

theorem Sound.link (h : s.Sound c) (hj : j ∉ s.enqueued) : (s.link j).Sound c := by
  have hjlog : j ∉ s.log.map Assignment.job := by
    intro hm
    obtain ⟨a, ha, rfl⟩ := List.mem_map.mp hm
    exact hj (h.enqueued a ha)
  refine ⟨(h.linked.link hj hjlog).1, h.once, ?_, h.busy, h.single, h.held, h.right, ?_⟩
  · intro a ha
    exact List.mem_append_left _ (h.enqueued a ha)
  · intro before a after hlog
    obtain ⟨seen, hseen, hwait⟩ := h.seen before a after hlog
    exact ⟨seen, hseen.trans (List.prefix_append _ _), hwait⟩

/-! ## Steps and runs -/

/-- **A step keeps the invariant.** -/
theorem Sound.step (h : s.Sound c) {e : Step} (hs : s.step c e = some s') : s'.Sound c := by
  cases e with
  | enqueue j probes now =>
    simp only [Dispatcher.step] at hs
    split_ifs at hs with hj hstop
    · obtain rfl := Option.some.inj hs
      exact h
    · obtain rfl := Option.some.inj hs
      exact (h.link hj).dispatchJobs probes now
  | dispatch probes now =>
    obtain rfl := Option.some.inj hs
    exact h.dispatchJobs probes now
  | take i =>
    simp only [Dispatcher.step] at hs
    split at hs
    · next j hj hrun =>
      obtain rfl := Option.some.inj hs
      have hbusy := h.busy i
      refine ⟨⟨h.linked.nodup, h.linked.chain, h.linked.tail, h.linked.unlinked⟩, h.once, h.enqueued,
        fun k => ?_, fun k => ?_, fun k m hkm => ?_, h.right, h.seen⟩
      · by_cases hk : k = i
        · subst hk
          simpa [hj] using hbusy
        · simpa [Function.update_of_ne hk] using h.busy k
      · by_cases hk : k = i
        · subst hk
          simp
        · simpa [Function.update_of_ne hk] using h.single k
      · by_cases hk : k = i
        · subst hk
          have hm : j = m := by simpa using hkm
          exact hm ▸ h.held k j (.inl hj)
        · exact h.held k m (by simpa [Function.update_of_ne hk] using hkm)
    · cases hs
  | complete i probes now =>
    simp only [Dispatcher.step] at hs
    split at hs
    · next j hrun =>
      obtain rfl := Option.some.inj hs
      have hassigned : (s.slots i).assigned = none := by simpa [hrun] using h.single i
      refine Sound.dispatchJobs ?_ probes now
      refine ⟨⟨h.linked.nodup, h.linked.chain, h.linked.tail, h.linked.unlinked⟩, h.once, h.enqueued,
        fun k => ?_, fun k => ?_, fun k m hkm => ?_, h.right, h.seen⟩
      · by_cases hk : k = i
        · subst hk
          simp [hassigned]
        · simpa [Function.update_of_ne hk] using h.busy k
      · by_cases hk : k = i
        · subst hk
          simp
        · simpa [Function.update_of_ne hk] using h.single k
      · by_cases hk : k = i
        · subst hk
          exact absurd hkm (by simp [hassigned])
        · exact h.held k m (by simpa [Function.update_of_ne hk] using hkm)
    · cases hs
  | canaryFinish probes now =>
    obtain rfl := Option.some.inj hs
    refine Sound.dispatchJobs ?_ probes now
    exact ⟨⟨h.linked.nodup, h.linked.chain, h.linked.tail, h.linked.unlinked⟩, h.once, h.enqueued,
      h.busy, h.single, h.held, h.right, h.seen⟩
  | stop =>
    obtain rfl := Option.some.inj hs
    exact ⟨⟨h.linked.nodup, h.linked.chain, h.linked.tail, h.linked.unlinked⟩, h.once, h.enqueued,
      h.busy, h.single, h.held, h.right, h.seen⟩

/-- **Every reachable state is sound, and a dispatch leaves no job that could be served.** -/
theorem reachable_sound (h : Reachable c s) :
    s.Sound c ∧ ∀ (probes : Nat → Probe) (now : Int), s.canaryPending = false →
      ∃ k, ∀ j ∈ (s.dispatchJobs c probes now).waiting,
        ∀ i, ¬ c.Servable (s.dispatchJobs c probes now).free (probes k) j i := by
  have hsound : s.Sound c := by
    induction h with
    | init canaryPending => exact sound_init c canaryPending
    | step _ hs ih => exact ih.step hs
  refine ⟨hsound, fun probes now hcanary => ?_⟩
  unfold Dispatcher.dispatchJobs
  rw [if_neg (by simp [hcanary])]
  exact (hsound.dispatchLoop probes now (Nat.lt_succ_self _)).2

/-- A job that is bound to no slot. -/
def plainJob (utility : Bool) : JobRequest := ⟨utility, false, [], false, []⟩

/-- A slot with a checkpoint of one token that was last used at a time. -/
def residentView (lastUsed : Int) : SlotView := ⟨⟨false, []⟩, ⟨false, []⟩, 1, lastUsed, fun _ => 0⟩

/-- The state behind some steps. -/
def run (c : Fleet) (s : Dispatcher) (es : List Step) : Option Dispatcher := es.foldlM (step c) s

theorem Reachable.run {es : List Step} (h : Reachable c s) (hr : run c s es = some s') :
    Reachable c s' := by
  induction es generalizing s with
  | nil => exact Option.some.inj hr ▸ h
  | cons e es ih =>
    rw [Dispatcher.run, List.foldlM_cons, Option.bind_eq_bind, Option.bind_eq_some_iff] at hr
    obtain ⟨t, ht, hr⟩ := hr
    exact ih (h.step ht) hr

/-- Two slots and a utility slot; job 8 is bound to a tool call, and job 9 is a utility job. -/
def pairFleet : Fleet where
  slotCount := 2
  hasUtility := true
  req j :=
    if j = 8 then ⟨false, true, [lit "call"], false, []⟩ else plainJob (j = 9)

/-- Slot 1 waits for that call; both slots were idle for longer than the cap. -/
def pairProbe : Probe := fun i =>
  ⟨⟨i = 1, [lit "call"]⟩, ⟨false, []⟩, 1, -(i : Int), fun _ => 0⟩

/-- Five jobs arrive, and both slots complete one. -/
def pairSteps : List Step :=
  [.enqueue 7 (fun _ => pairProbe) (2 ^ 21), .enqueue 9 (fun _ => pairProbe) (2 ^ 21),
    .enqueue 8 (fun _ => pairProbe) (2 ^ 21), .enqueue 10 (fun _ => pairProbe) (2 ^ 21),
    .enqueue 11 (fun _ => pairProbe) (2 ^ 21), .take 0, .take 1,
    .complete 1 (fun _ => pairProbe) (2 ^ 21), .complete 0 (fun _ => pairProbe) (2 ^ 21)]

/-- Among two slots that are idle for longer than the cap the first is taken, and the next free slot
serves the jobs in the order of their arrival. -/
theorem reachable_sound_pair : ∃ s, run pairFleet (init false) pairSteps = some s ∧
    s.log.map (fun a => (a.job, a.slot)) = [(7, 0), (9, 2), (8, 1), (10, 1), (11, 0)] ∧
      s.Sound pairFleet := by
  have hlog : (run pairFleet (init false) pairSteps).map
      (fun s => s.log.map fun a => (a.job, a.slot)) =
        some [(7, 0), (9, 2), (8, 1), (10, 1), (11, 0)] := by decide
  obtain ⟨s, hs, hlog⟩ := Option.map_eq_some_iff.mp hlog
  exact ⟨s, hs, hlog, (reachable_sound (Reachable.run (.init false) hs)).1⟩

/-- A slot that was idle for more than the cap is not preferred, and a utility job goes to the
utility slot although its live tool state is bound to another one. -/
theorem not_reachable_sound :
    (¬ ∀ (c : Fleet) (s : Dispatcher), Reachable c s → ∀ a ∈ s.log, c.isUtility a.job = false →
      ∀ i, c.Servable a.free a.probe a.job i → ∀ m n,
        (a.probe i).rank (c.req a.job) a.now = .stale m →
        (a.probe a.slot).rank (c.req a.job) a.now = .stale n → m ≤ n) ∧
    ¬ ∀ (c : Fleet) (s : Dispatcher), Reachable c s → ∀ a ∈ s.log, ∀ q,
      c.requiredSlot a.probe a.job = some q → a.slot = q := by
  constructor
  · intro h
    have := h ⟨2, false, fun _ => plainJob false⟩ _ (.step (.init false)
      (e := .enqueue 7 (fun _ i => residentView (-i)) (2 ^ 20)) rfl)
      ⟨7, 0, [7], fun _ => true, fun i => residentView (-i), 2 ^ 20⟩ (.head _) rfl 1
      ⟨rfl, ⟨by decide, by intro q hq; cases hq⟩⟩ (2 ^ 20 + 1) (2 ^ 20) rfl rfl
    revert this
    decide
  · intro h
    have := h ⟨1, true, fun _ => ⟨true, false, [], true, [lit "t"]⟩⟩ _ (.step (.init false)
      (e := .enqueue 7 (fun _ _ => ⟨⟨false, []⟩, ⟨true, [lit "t"]⟩, 1, 0, fun _ => 0⟩) 0) rfl)
      ⟨7, 1, [7], fun _ => true, fun _ => ⟨⟨false, []⟩, ⟨true, [lit "t"]⟩, 1, 0, fun _ => 0⟩, 0⟩
      (.head _) 0 rfl
    cases this

end Dispatcher

end Ds4.Server
