import Ds4.Lib.Median

/-!
# Admission of drafts

When drafting is tried, by measured cost. Three attempts are judged together against the price of a
serial token, the median of the last nine that were timed; losses carry over until they exceed half a
token, and then drafting backs off for 16, 32, 64 and 128 serial tokens. The milliseconds are doubles,
of which nothing is used but that they are ordered (`Millis`), so what is proved does not depend on
rounding.
-/

namespace Ds4.Dspark

open Lib

/-- What the controller computes with: ordered values, a number of rows times a price, and half a price. -/
class Millis (K : Type) extends LinearOrder K, Zero K, Add K, Sub K where
  rows : UInt32 → K → K
  half : K → K

/-- `DS41_ADMIT_FIRST_SERIAL`. -/
def admitFirstSerial : UInt64 := 16

/-- `DS41_ADMIT_WINDOW`. -/
def admitWindow : Nat := 3

/-- `DS41_ADMIT_BACKOFF`. -/
def admitBackoff : Nat := 16

/-- `DS41_ADMIT_BACKOFF_STEPS`. -/
def admitBackoffSteps : Nat := 4

/-- `ds41_admission`. -/
structure Ds41Admission (K : Type) where
  backoffs : Nat
  skip : Nat
  windowCalls : Nat
  sampleCount : Nat
  sampleNext : Nat
  serialTokens : UInt64
  attempts : UInt64
  windowMs : K
  debtMs : K
  serialMs : K
  samples : Ring 9 K

section Controller

variable {K : Type} [Millis K]

/-- `ds41_admit_begin`. -/
def admitBegin : Ds41Admission K := ⟨0, 0, 0, 0, 0, 0, 0, 0, 0, 0, fun _ => 0⟩

/-- `ds41_admit_draft`. -/
def admitDraft (a : Ds41Admission K) : Bool :=
  a.skip == 0 && (a.attempts != 0 || admitFirstSerial ≤ a.serialTokens)

/-- `ds41_admit_serial`. -/
def admitSerial (a : Ds41Admission K) (ms : K) : Ds41Admission K :=
  let samples := Function.update a.samples (Ring.slot 9 a.sampleNext) ms
  let sampleCount := if a.sampleCount < 9 then a.sampleCount + 1 else a.sampleCount
  let sorted := (Ring.readAll samples 0 sampleCount).foldl insertShift []
  { a with
    serialTokens := a.serialTokens + 1, skip := a.skip - 1, samples := samples,
    sampleNext := (a.sampleNext + 1) % 9, sampleCount := sampleCount, serialMs := middle Millis.half sorted }

/-- `ds41_admit_row`. -/
def admitRow (a : Ds41Admission K) : Ds41Admission K :=
  { a with serialTokens := a.serialTokens + 1, skip := a.skip - 1 }

/-- The debt with the window on top: wins repay, never bank. -/
def carriedDebt (a : Ds41Admission K) : K := if 0 < a.debtMs + a.windowMs then a.debtMs + a.windowMs else 0

/-- The back-off after another losing window. -/
def nextBackoffs (a : Ds41Admission K) : Nat :=
  if a.backoffs < admitBackoffSteps then a.backoffs + 1 else a.backoffs

/-- The verdict on a complete window. -/
def admitVerdict (a : Ds41Admission K) : Ds41Admission K :=
  let a := { a with debtMs := carriedDebt a }
  let a :=
    if a.windowMs < 0 then { a with backoffs := 0, skip := 0 }
    else if Millis.half a.serialMs < a.debtMs then
      { a with backoffs := nextBackoffs a, skip := admitBackoff <<< (nextBackoffs a - 1), debtMs := 0 }
    else a
  { a with windowCalls := 0, windowMs := 0 }

/-- What a cycle counts before its window is looked at. -/
def countCycle (a : Ds41Admission K) (rows : UInt32) (verified : Bool) : Ds41Admission K :=
  if verified then { a with attempts := a.attempts + 1 }
  else { a with serialTokens := a.serialTokens + rows.toUInt64 }

/-- A cycle's excess joins the window. -/
def addExcess (a : Ds41Admission K) (ms : K) (rows : UInt32) : Ds41Admission K :=
  { a with windowMs := a.windowMs + (ms - Millis.rows rows a.serialMs), windowCalls := a.windowCalls + 1 }

/-- `ds41_admit_cycle`. -/
def admitCycle (a : Ds41Admission K) (ms : K) (rows : UInt32) (verified : Bool) : Ds41Admission K :=
  let a := countCycle a rows verified
  if a.serialMs ≤ 0 then a
  else
    let a := addExcess a ms rows
    if a.windowCalls < admitWindow then a else admitVerdict a

/-- What the controller is told: a timed serial token, one without a price, or a drafted cycle. -/
inductive Account (K : Type)
  | serial (ms : K)
  | row
  | cycle (ms : K) (rows : UInt32) (verified : Bool)

/-- The controller's entry points. -/
def admitAccount (a : Ds41Admission K) : Account K → Ds41Admission K
  | .serial ms => admitSerial a ms
  | .row => admitRow a
  | .cycle ms rows verified => admitCycle a ms rows verified

/-- The controller after the accounts of a request. -/
def admitAll (accounts : List (Account K)) : Ds41Admission K := accounts.foldl admitAccount admitBegin

end Controller

/-! ## What was accounted -/

/-- What the accounts of a request come to: the timed tokens, the counted ones, the verified blocks and the excess
of each cycle since the last verdict; and of the verdicts, the serial tokens left to wait, the losses in a row
and the loss carried on. -/
structure Ledger (K : Type) where
  timed : List K
  counted : Nat
  verified : Nat
  window : List K
  skip : Nat
  backoffs : Nat
  debt : K

section Accounts

variable {K : Type} [Millis K]

/-- The price of a serial token: the median of the last nine that were timed, zero before the first. -/
def Ledger.price (l : Ledger K) : K :=
  if l.timed = [] then 0 else median Millis.half (l.timed.drop (l.timed.length - 9))

/-- A cycle's cost beyond that of as many serial tokens. -/
def Ledger.excess (l : Ledger K) (ms : K) (rows : UInt32) : K := ms - Millis.rows rows l.price

/-- The sum of some excesses, in their order. -/
def loss (window : List K) : K := window.foldl (· + ·) 0

/-- The debt with a window's loss on top, and none below zero. -/
def Ledger.debtAfter (l : Ledger K) (lost : K) : K := max (l.debt + lost) 0

/-- The verdict on three cycles that lost so much: a win clears the back-off, a debt of more than half a token
is paid by waiting twice as long as the last time, and a smaller one is carried on. -/
def Ledger.judge (l : Ledger K) (lost : K) : Ledger K :=
  if lost < 0 then { l with window := [], skip := 0, backoffs := 0, debt := l.debtAfter lost }
  else if Millis.half l.price < l.debtAfter lost then
    { l with window := [], skip := 16 * 2 ^ min l.backoffs 3, backoffs := min (l.backoffs + 1) 4, debt := 0 }
  else { l with window := [], debt := l.debtAfter lost }

/-- A cycle counts as a verified block or as serial tokens. -/
def Ledger.count (l : Ledger K) (rows : UInt32) (verified : Bool) : Ledger K :=
  { l with
    counted := if verified then l.counted else l.counted + rows.toNat
    verified := if verified then l.verified + 1 else l.verified }

def Ledger.account (l : Ledger K) : Account K → Ledger K
  | .serial ms => { l with timed := l.timed ++ [ms], counted := l.counted + 1, skip := l.skip - 1 }
  | .row => { l with counted := l.counted + 1, skip := l.skip - 1 }
  | .cycle ms rows verified =>
    let window := l.window ++ [l.excess ms rows]
    if l.price ≤ 0 then l.count rows verified
    else if window.length < 3 then { l.count rows verified with window := window }
    else (l.count rows verified).judge (loss window)

/-- The accounts of a request. -/
def ledger (accounts : List (Account K)) : Ledger K := accounts.foldl Ledger.account ⟨[], 0, 0, [], 0, 0, 0⟩

theorem Ledger.account_open {l : Ledger K} {ms : K} {rows : UInt32} {verified : Bool} (hprice : ¬ l.price ≤ 0)
    (hwindow : l.window.length + 1 < 3) :
    l.account (.cycle ms rows verified) =
      { l.count rows verified with window := l.window ++ [l.excess ms rows] } := by
  have hlen : (l.window ++ [l.excess ms rows]).length < 3 := by
    rwa [List.length_append, List.length_singleton]
  simp only [Ledger.account, if_neg hprice, if_pos hlen]

theorem Ledger.account_complete {l : Ledger K} {ms : K} {rows : UInt32} {verified : Bool} (hprice : ¬ l.price ≤ 0)
    (hwindow : ¬ l.window.length + 1 < 3) :
    l.account (.cycle ms rows verified) =
      (l.count rows verified).judge (loss (l.window ++ [l.excess ms rows])) := by
  have hlen : ¬ (l.window ++ [l.excess ms rows]).length < 3 := by
    rwa [List.length_append, List.length_singleton]
  simp only [Ledger.account, if_neg hprice, if_neg hlen]

theorem Ledger.judge_cases (l : Ledger K) (lost : K) :
    (lost < 0 ∧ l.judge lost = { l with window := [], skip := 0, backoffs := 0, debt := l.debtAfter lost }) ∨
    (¬ lost < 0 ∧ Millis.half l.price < l.debtAfter lost ∧ l.judge lost =
      { l with window := [], skip := 16 * 2 ^ min l.backoffs 3, backoffs := min (l.backoffs + 1) 4, debt := 0 }) ∨
    (¬ lost < 0 ∧ ¬ Millis.half l.price < l.debtAfter lost ∧
      l.judge lost = { l with window := [], debt := l.debtAfter lost }) := by
  unfold Ledger.judge
  by_cases hwin : lost < 0
  · exact .inl ⟨hwin, if_pos hwin⟩
  · by_cases hover : Millis.half l.price < l.debtAfter lost
    · exact .inr (.inl ⟨hwin, hover, by rw [if_neg hwin, if_pos hover]⟩)
    · exact .inr (.inr ⟨hwin, hover, by rw [if_neg hwin, if_neg hover]⟩)

end Accounts

/-! ## The controller follows its accounts -/

section Follows

variable {K : Type} [Millis K]

/-- A controller in step with what it was told, whose back-off and debt are in their bounds. -/
structure Follows (a : Ds41Admission K) (l : Ledger K) : Prop where
  next : a.sampleNext = l.timed.length % 9
  count : a.sampleCount = min l.timed.length 9
  samples : a.samples = Ring.writeAll (fun _ => 0) 0 l.timed
  serialMs : a.serialMs = l.price
  windowCalls : a.windowCalls = l.window.length
  windowMs : a.windowMs = loss l.window
  window : l.window.length < admitWindow
  serialTokens : a.serialTokens = .ofNat l.counted
  attempts : a.attempts = .ofNat l.verified
  skip : a.skip = l.skip
  backoffs : a.backoffs = l.backoffs
  debt : a.debtMs = l.debt
  skip_le : l.skip ≤ 128
  backoffs_le : l.backoffs ≤ admitBackoffSteps
  debt_nonneg : 0 ≤ l.debt

theorem follows_begin : Follows (admitBegin : Ds41Admission K) ⟨[], 0, 0, [], 0, 0, 0⟩ where
  next := rfl
  count := rfl
  samples := rfl
  serialMs := rfl
  windowCalls := rfl
  windowMs := rfl
  window := Nat.zero_lt_succ 2
  serialTokens := rfl
  attempts := rfl
  skip := rfl
  backoffs := rfl
  debt := rfl
  skip_le := Nat.zero_le _
  backoffs_le := Nat.zero_le _
  debt_nonneg := le_rfl

theorem loss_concat (window : List K) (x : K) : loss (window ++ [x]) = loss window + x := by
  rw [loss, List.foldl_append]
  rfl

theorem follows_serial {a : Ds41Admission K} {l : Ledger K} (h : Follows a l) (ms : K) :
    Follows (admitSerial a ms) (l.account (.serial ms)) := by
  have hsamples : Function.update a.samples (Ring.slot 9 a.sampleNext) ms =
      Ring.writeAll (fun _ => 0) 0 (l.timed ++ [ms]) := by
    rw [h.samples, Ring.writeAll_append, h.next, Nat.zero_add]
    have hslot : Ring.slot 9 (l.timed.length % 9) = Ring.slot 9 l.timed.length := by
      rw [Ring.slot_eq_iff, Nat.mod_mod]
    rw [hslot]
    rfl
  have hcount : (if a.sampleCount < 9 then a.sampleCount + 1 else a.sampleCount) =
      min (l.timed ++ [ms]).length 9 := by
    rw [h.count, List.length_append, List.length_singleton]
    split <;> omega
  constructor
  case next =>
    change (a.sampleNext + 1) % 9 = (l.timed ++ [ms]).length % 9
    rw [h.next, List.length_append, List.length_singleton, Nat.mod_add_mod]
  case count => exact hcount
  case samples => exact hsamples
  case serialMs =>
    change middle Millis.half ((Ring.readAll (Function.update a.samples (Ring.slot 9 a.sampleNext) ms) 0
      (if a.sampleCount < 9 then a.sampleCount + 1 else a.sampleCount)).foldl insertShift []) = _
    rw [hsamples, hcount, median_recent, Ledger.price, if_neg (by simp [Ledger.account])]
    rfl
  case windowCalls => exact h.windowCalls
  case windowMs => exact h.windowMs
  case window => exact h.window
  case serialTokens =>
    change a.serialTokens + 1 = .ofNat (l.counted + 1)
    rw [h.serialTokens, UInt64.ofNat_add]
    rfl
  case attempts => exact h.attempts
  case skip => exact congrArg (· - 1) h.skip
  case backoffs => exact h.backoffs
  case debt => exact h.debt
  case skip_le => exact (Nat.sub_le _ _).trans h.skip_le
  case backoffs_le => exact h.backoffs_le
  case debt_nonneg => exact h.debt_nonneg

theorem follows_row {a : Ds41Admission K} {l : Ledger K} (h : Follows a l) :
    Follows (admitRow a) (l.account .row) :=
  { h with
    serialTokens := by
      change a.serialTokens + 1 = .ofNat (l.counted + 1)
      rw [h.serialTokens, UInt64.ofNat_add]
      rfl
    skip := congrArg (· - 1) h.skip
    skip_le := (Nat.sub_le _ _).trans h.skip_le }

/-- What a verdict does: a winning window clears the back-off, a losing one whose debt exceeds half a token
backs off, and any other carries its debt on. -/
theorem admitVerdict_cases (a : Ds41Admission K) :
    (a.windowMs < 0 ∧ admitVerdict a =
      { a with debtMs := carriedDebt a, backoffs := 0, skip := 0, windowCalls := 0, windowMs := 0 }) ∨
    (¬ a.windowMs < 0 ∧ Millis.half a.serialMs < carriedDebt a ∧ admitVerdict a =
      { a with
        debtMs := 0, backoffs := nextBackoffs a, skip := admitBackoff <<< (nextBackoffs a - 1), windowCalls := 0,
        windowMs := 0 }) ∨
    (¬ a.windowMs < 0 ∧ ¬ Millis.half a.serialMs < carriedDebt a ∧ admitVerdict a =
      { a with debtMs := carriedDebt a, windowCalls := 0, windowMs := 0 }) := by
  unfold admitVerdict
  by_cases hwin : a.windowMs < 0
  · exact .inl ⟨hwin, by simp only [if_pos hwin]⟩
  · by_cases hdebt : Millis.half a.serialMs < carriedDebt a
    · exact .inr (.inl ⟨hwin, hdebt, by simp only [if_neg hwin, if_pos hdebt]; rfl⟩)
    · exact .inr (.inr ⟨hwin, hdebt, by simp only [if_neg hwin, if_neg hdebt]⟩)

theorem carriedDebt_eq (a : Ds41Admission K) : carriedDebt a = max (a.debtMs + a.windowMs) 0 := by
  unfold carriedDebt
  split
  · exact (max_eq_left (le_of_lt ‹_›)).symm
  · exact (max_eq_right (not_lt.1 ‹_›)).symm

omit [Millis K] in
/-- One back-off more, up to four of them: 16, 32, 64 and 128 serial tokens. -/
theorem nextBackoffs_eq {a : Ds41Admission K} (h : a.backoffs ≤ admitBackoffSteps) :
    nextBackoffs a = min (a.backoffs + 1) 4 ∧ admitBackoff <<< (nextBackoffs a - 1) = 16 * 2 ^ min a.backoffs 3 := by
  unfold nextBackoffs admitBackoffSteps at *
  generalize a.backoffs = n at h ⊢
  interval_cases n <;> exact ⟨rfl, rfl⟩

theorem waits_le (backoffs : Nat) : 16 * 2 ^ min backoffs 3 ≤ 128 :=
  Nat.mul_le_mul_left 16 (Nat.pow_le_pow_right Nat.two_pos (min_le_right backoffs 3))

theorem follows_count {a : Ds41Admission K} {l : Ledger K} (h : Follows a l) (rows : UInt32) (verified : Bool) :
    Follows (countCycle a rows verified) (l.count rows verified) := by
  cases verified with
  | true =>
    exact { h with
      attempts := by
        change a.attempts + 1 = .ofNat (l.verified + 1)
        rw [h.attempts, UInt64.ofNat_add]
        rfl }
  | false =>
    exact { h with
      serialTokens := by
        change a.serialTokens + rows.toUInt64 = .ofNat (l.counted + rows.toNat)
        rw [h.serialTokens, UInt64.ofNat_add]
        congr 1
        exact UInt64.toNat_inj.1 (by simp) }

theorem addExcess_windowMs {a : Ds41Admission K} {l : Ledger K} (h : Follows a l) (ms : K) (rows : UInt32) :
    (addExcess a ms rows).windowMs = loss (l.window ++ [l.excess ms rows]) := by
  change a.windowMs + (ms - Millis.rows rows a.serialMs) = _
  rw [loss_concat, h.windowMs, h.serialMs]
  rfl

theorem follows_verdict {a : Ds41Admission K} {l : Ledger K} (h : Follows a l) (ms : K) (rows : UInt32) :
    Follows (admitVerdict (addExcess a ms rows)) (l.judge (loss (l.window ++ [l.excess ms rows]))) := by
  set b := addExcess a ms rows with hb
  set lost := loss (l.window ++ [l.excess ms rows]) with hlost
  have hwin : b.windowMs = lost := addExcess_windowMs h ms rows
  have hdebt : carriedDebt b = l.debtAfter lost := by
    rw [carriedDebt_eq, hwin]
    exact congrArg (fun debt => max (debt + lost) 0) h.debt
  have hprice : b.serialMs = l.price := h.serialMs
  have hbackoffs : b.backoffs = l.backoffs := h.backoffs
  obtain ⟨hnext, hwait⟩ := nextBackoffs_eq (hbackoffs.trans_le h.backoffs_le)
  have hnonneg : 0 ≤ l.debtAfter lost := le_max_right _ _
  unfold Ledger.judge
  rcases admitVerdict_cases b with ⟨hw, heq⟩ | ⟨hw, hover, heq⟩ | ⟨hw, hover, heq⟩
  · rw [hwin] at hw
    rw [heq, if_pos hw, hdebt]
    exact { h with
      windowCalls := rfl
      windowMs := rfl
      window := Nat.zero_lt_succ 2
      skip := rfl
      backoffs := rfl
      debt := rfl
      skip_le := Nat.zero_le _
      backoffs_le := Nat.zero_le _
      debt_nonneg := hnonneg }
  · rw [hwin] at hw
    rw [hdebt, hprice] at hover
    rw [heq, if_neg hw, if_pos hover]
    exact { h with
      windowCalls := rfl
      windowMs := rfl
      window := Nat.zero_lt_succ 2
      skip := hbackoffs ▸ hwait
      backoffs := hbackoffs ▸ hnext
      debt := rfl
      skip_le := waits_le l.backoffs
      backoffs_le := min_le_right _ _
      debt_nonneg := le_rfl }
  · rw [hwin] at hw
    rw [hdebt, hprice] at hover
    rw [heq, if_neg hw, if_neg hover, hdebt]
    exact { h with
      windowCalls := rfl
      windowMs := rfl
      window := Nat.zero_lt_succ 2
      debt := rfl
      debt_nonneg := hnonneg }

theorem follows_cycle {a : Ds41Admission K} {l : Ledger K} (h : Follows a l) (ms : K) (rows : UInt32)
    (verified : Bool) : Follows (admitCycle a ms rows verified) (l.account (.cycle ms rows verified)) := by
  have hcount := follows_count h rows verified
  have hprice : (countCycle a rows verified).serialMs = l.price := hcount.serialMs
  rw [admitCycle]
  by_cases hzero : l.price ≤ 0
  · simp only [hprice, if_pos hzero, Ledger.account]
    exact hcount
  · have hcalls : (addExcess (countCycle a rows verified) ms rows).windowCalls = l.window.length + 1 :=
      congrArg (· + 1) hcount.windowCalls
    simp only [hprice, if_neg hzero, hcalls]
    by_cases hwindow : l.window.length + 1 < admitWindow
    · rw [if_pos hwindow, Ledger.account_open hzero hwindow]
      exact { hcount with
        windowCalls := by rw [hcalls, List.length_append, List.length_singleton]
        windowMs := addExcess_windowMs hcount ms rows
        window := by rwa [List.length_append, List.length_singleton] }
    · rw [if_neg hwindow, Ledger.account_complete hzero hwindow]
      exact follows_verdict hcount ms rows

theorem follows_account {a : Ds41Admission K} {l : Ledger K} (h : Follows a l) (e : Account K) :
    Follows (admitAccount a e) (l.account e) := by
  cases e with
  | serial ms => exact follows_serial h ms
  | row => exact follows_row h
  | cycle ms rows verified => exact follows_cycle h ms rows verified

/-- **The controller follows its accounts** from the start of a request. -/
theorem follows_admitAll (accounts : List (Account K)) : Follows (admitAll accounts) (ledger accounts) := by
  have hgeneral : ∀ {a : Ds41Admission K} {l : Ledger K}, Follows a l →
      Follows (accounts.foldl admitAccount a) (accounts.foldl Ledger.account l) := by
    induction accounts with
    | nil => exact fun h => h
    | cons e accounts ih => exact fun h => ih (follows_account h e)
  exact hgeneral follows_begin

end Follows

/-! ## Laws -/

section Laws

variable {K : Type} [Millis K]

/-- A serial token, timed or not. -/
def Account.isSerial : Account K → Bool
  | .cycle .. => false
  | _ => true

omit [Millis K] in
theorem ofNat_ne_zero {n : Nat} (h : UInt64.ofNat n ≠ 0) : 0 < n := by
  rcases Nat.eq_zero_or_pos n with rfl | hpos
  · exact absurd rfl h
  · exact hpos

/-- A draft is admitted after a verified block or sixteen counted tokens only. -/
theorem Follows.draft {a : Ds41Admission K} {l : Ledger K} (h : Follows a l) (hdraft : admitDraft a = true) :
    l.skip = 0 ∧ (0 < l.verified ∨ 16 ≤ l.counted) := by
  simp only [admitDraft, Bool.and_eq_true, Bool.or_eq_true, beq_iff_eq, bne_iff_ne, decide_eq_true_eq] at hdraft
  refine ⟨h.skip ▸ hdraft.1, ?_⟩
  rcases hdraft.2 with hattempts | hserial
  · exact .inl (ofNat_ne_zero (h.attempts ▸ hattempts))
  · right
    rw [h.serialTokens, admitFirstSerial, UInt64.le_iff_toNat_le, UInt64.toNat_ofNat'] at hserial
    exact le_trans hserial (Nat.mod_le _ _)

theorem admit_serial_fields {e : Account K} (he : e.isSerial = true) (a : Ds41Admission K) :
    (admitAccount a e).skip = a.skip - 1 ∧ (admitAccount a e).serialTokens = a.serialTokens + 1 ∧
      (admitAccount a e).attempts = a.attempts := by
  cases e with
  | serial ms => exact ⟨rfl, rfl, rfl⟩
  | row => exact ⟨rfl, rfl, rfl⟩
  | cycle => cases he

theorem foldl_serial_fields {rows : List (Account K)} (hrows : ∀ e ∈ rows, e.isSerial = true)
    (a : Ds41Admission K) :
    (rows.foldl admitAccount a).skip = a.skip - rows.length ∧
      (rows.foldl admitAccount a).serialTokens = a.serialTokens + .ofNat rows.length ∧
      (rows.foldl admitAccount a).attempts = a.attempts := by
  induction rows generalizing a with
  | nil => exact ⟨rfl, (UInt64.add_zero _).symm, rfl⟩
  | cons e rows ih =>
    obtain ⟨he, hrows⟩ := List.forall_mem_cons.1 hrows
    obtain ⟨hskip, hserial, hattempts⟩ := admit_serial_fields he a
    obtain ⟨hskip', hserial', hattempts'⟩ := ih hrows (admitAccount a e)
    rw [List.foldl_cons, hskip', hskip, hserial', hserial, hattempts', hattempts, List.length_cons]
    refine ⟨by omega, ?_, rfl⟩
    rw [UInt64.add_assoc, UInt64.ofNat_add, UInt64.add_comm (UInt64.ofNat rows.length)]
    rfl

/-- Within sixteen serial tokens behind the back-off, drafting is admitted. -/
theorem readmitted (a : Ds41Admission K) {rows : List (Account K)} (hrows : ∀ e ∈ rows, e.isSerial = true)
    (hlen : a.skip + 16 ≤ rows.length) :
    ∃ n ≤ a.skip + 16, admitDraft ((rows.take n).foldl admitAccount a) = true := by
  have hfields : ∀ n ≤ rows.length, _ := fun n hn => by
    have hprefix : ∀ e ∈ rows.take n, e.isSerial = true := fun e he => hrows e (List.mem_of_mem_take he)
    have := foldl_serial_fields hprefix a
    rw [List.length_take, Nat.min_eq_left hn] at this
    exact this
  have hdraft : ∀ n ≤ rows.length, a.skip ≤ n →
      (a.attempts ≠ 0 ∨ 16 ≤ (a.serialTokens + .ofNat n).toNat) →
      admitDraft ((rows.take n).foldl admitAccount a) = true := by
    intro n hn hskip hready
    obtain ⟨hs, ht, ha⟩ := hfields n hn
    simp only [admitDraft, hs, ht, ha, Bool.and_eq_true, Bool.or_eq_true, bne_iff_ne, decide_eq_true_eq,
      beq_iff_eq]
    exact ⟨by omega, hready.imp id fun h => UInt64.le_iff_toNat_le.2 h⟩
  by_cases hready : a.attempts ≠ 0 ∨ 16 ≤ (a.serialTokens + .ofNat a.skip).toNat
  · exact ⟨a.skip, by omega, hdraft _ (by omega) le_rfl hready⟩
  · have hfew : (a.serialTokens + .ofNat a.skip).toNat < 16 := by
      rw [not_or, not_le] at hready
      exact hready.2
    set x := a.serialTokens + .ofNat a.skip with hx
    refine ⟨a.skip + (16 - x.toNat), by omega, hdraft _ (by omega) (by omega) (.inr ?_)⟩
    have hsmall : (UInt64.ofNat (16 - x.toNat)).toNat = 16 - x.toNat :=
      UInt64.toNat_ofNat_of_lt' (Nat.lt_of_le_of_lt (Nat.sub_le _ _) (by decide))
    rw [UInt64.ofNat_add, ← UInt64.add_assoc, ← hx, UInt64.toNat_add, hsmall]
    omega

/-- The wait grows only with the verdict on a window whose losses, with the debt, exceed half a token. -/
theorem Ledger.skip_grows {l : Ledger K} (hlen : l.window.length < 3) {e : Account K}
    (hgrows : l.skip < (l.account e).skip) : ∃ ms rows verified, e = .cycle ms rows verified ∧
      ¬ l.price ≤ 0 ∧ l.window.length + 1 = 3 ∧ ¬ loss (l.window ++ [l.excess ms rows]) < 0 ∧
      Millis.half l.price < l.debtAfter (loss (l.window ++ [l.excess ms rows])) ∧
      (l.account e).skip = 16 * 2 ^ min l.backoffs 3 := by
  cases e with
  | serial ms => exact absurd hgrows (Nat.not_lt.2 (Nat.sub_le _ _))
  | row => exact absurd hgrows (Nat.not_lt.2 (Nat.sub_le _ _))
  | cycle ms rows verified =>
    by_cases hprice : l.price ≤ 0
    · rw [Ledger.account, if_pos hprice] at hgrows
      exact absurd hgrows (lt_irrefl l.skip)
    · by_cases hwindow : l.window.length + 1 < 3
      · rw [Ledger.account_open hprice hwindow] at hgrows
        exact absurd hgrows (lt_irrefl l.skip)
      · rw [Ledger.account_complete hprice hwindow] at hgrows ⊢
        rcases (l.count rows verified).judge_cases (loss (l.window ++ [l.excess ms rows])) with
          ⟨-, heq⟩ | ⟨hlose, hover, heq⟩ | ⟨-, -, heq⟩ <;> rw [heq] at hgrows
        · exact absurd hgrows (Nat.not_lt_zero _)
        · exact ⟨ms, rows, verified, rfl, hprice, by omega, hlose, hover, by rw [heq]; rfl⟩
        · exact absurd hgrows (lt_irrefl l.skip)

/-- **Admission laws.** After any accounts: the wait, the back-offs and the debt are those of the ledger, within
their bounds; a draft is admitted only with no token left to wait and after a verified block or sixteen counted
tokens, and is admitted again within sixteen tokens behind the wait; the wait grows only with a window that lost
more than half a token with the debt carried so far; and priced cycles are judged in windows of three against the
median of the last nine timed tokens, and change nothing but the window until it is complete. -/
theorem admission_laws (accounts : List (Account K)) :
    let a := admitAll accounts
    let l := ledger accounts
    (a.skip = l.skip ∧ a.backoffs = l.backoffs ∧ a.debtMs = l.debt) ∧ l.skip ≤ 128 ∧ 0 ≤ l.debt ∧
    (admitDraft a = true → l.skip = 0 ∧ (0 < l.verified ∨ 16 ≤ l.counted)) ∧
    (∀ rows : List (Account K), (∀ e ∈ rows, e.isSerial = true) → l.skip + 16 ≤ rows.length →
      ∃ n ≤ l.skip + 16, admitDraft (admitAll (accounts ++ rows.take n)) = true) ∧
    (∀ e : Account K, l.skip < (admitAccount a e).skip → ∃ ms rows verified, e = .cycle ms rows verified ∧
      ¬ l.price ≤ 0 ∧ l.window.length + 1 = 3 ∧ ¬ loss (l.window ++ [l.excess ms rows]) < 0 ∧
      Millis.half l.price < l.debtAfter (loss (l.window ++ [l.excess ms rows])) ∧
      (admitAccount a e).skip = 16 * 2 ^ min l.backoffs 3) ∧
    ∀ (ms : K) (rows : UInt32) (verified : Bool), ¬ l.price ≤ 0 →
      let lost := loss (l.window ++ [l.excess ms rows])
      let a' := admitAccount a (.cycle ms rows verified)
      (l.window.length + 1 < 3 → a'.skip = l.skip ∧ a'.backoffs = l.backoffs ∧ a'.debtMs = l.debt) ∧
      (l.window.length + 1 = 3 →
        (lost < 0 ∧ a'.skip = 0 ∧ a'.backoffs = 0 ∧ a'.debtMs = l.debtAfter lost) ∨
        (¬ lost < 0 ∧ Millis.half l.price < l.debtAfter lost ∧ a'.skip = 16 * 2 ^ min l.backoffs 3 ∧
          a'.backoffs = min (l.backoffs + 1) 4 ∧ a'.debtMs = 0) ∨
        (¬ lost < 0 ∧ ¬ Millis.half l.price < l.debtAfter lost ∧ a'.skip = l.skip ∧ a'.backoffs = l.backoffs ∧
          a'.debtMs = l.debtAfter lost)) := by
  intro a l
  have h : Follows a l := follows_admitAll accounts
  have hnext : ∀ e, Follows (admitAccount a e) (l.account e) := follows_account h
  refine ⟨⟨h.skip, h.backoffs, h.debt⟩, h.skip_le, h.debt_nonneg, h.draft, fun rows hrows hlen => ?_, fun e he => ?_,
    fun ms rows verified hprice => ⟨fun hopen => ?_, fun hcomplete => ?_⟩⟩
  · rw [← h.skip] at hlen ⊢
    obtain ⟨n, hn, hdraft⟩ := readmitted a hrows hlen
    exact ⟨n, hn, by rw [admitAll, List.foldl_append]; exact hdraft⟩
  · rw [(hnext e).skip] at he ⊢
    exact Ledger.skip_grows h.window he
  · have hafter := hnext (.cycle ms rows verified)
    rw [Ledger.account_open hprice hopen] at hafter
    exact ⟨hafter.skip, hafter.backoffs, hafter.debt⟩
  · have hafter := hnext (.cycle ms rows verified)
    rw [Ledger.account_complete hprice hcomplete.not_lt] at hafter
    rcases (l.count rows verified).judge_cases (loss (l.window ++ [l.excess ms rows])) with
      ⟨hwin, heq⟩ | ⟨hlose, hover, heq⟩ | ⟨hlose, hwithin, heq⟩ <;> rw [heq] at hafter
    · exact .inl ⟨hwin, hafter.skip, hafter.backoffs, hafter.debt⟩
    · exact .inr (.inl ⟨hlose, hover, hafter.skip, hafter.backoffs, hafter.debt⟩)
    · exact .inr (.inr ⟨hlose, hwithin, hafter.skip, hafter.backoffs, hafter.debt⟩)

end Laws

/-! ## Windows judged, unjudged and forgiven -/

/-- Whole milliseconds, for prices that are even. -/
instance : Millis Int where
  rows n x := n.toNat * x
  half x := x / 2

/-- Sixteen timed tokens, a window that loses 9 ms and is forgiven, one that loses 6 ms on top and backs off, and
sixteen tokens later a third one, which waits twice as long. -/
theorem admission_laws_twoBackoffs :
    let accounts : List (Account Int) := List.replicate 16 (.serial 26) ++
      List.replicate 3 (.cycle 29 1 true) ++ List.replicate 3 (.cycle 28 1 true) ++ List.replicate 16 .row ++
      List.replicate 2 (.cycle 80 2 true)
    let a := admitAll accounts
    let a' := admitAccount a (.cycle 80 2 true)
    a.skip = 0 ∧ a.backoffs = 1 ∧ a'.skip = 32 ∧ a'.backoffs = 2 ∧ a'.debtMs = 0 := by
  intro accounts a a'
  obtain ⟨⟨hskip, hbackoffs, -⟩, -, -, -, -, -, hjudged⟩ := admission_laws accounts
  have hledger : (ledger accounts).skip = 0 ∧ (ledger accounts).backoffs = 1 := by decide
  have hlost : ¬ loss ((ledger accounts).window ++ [(ledger accounts).excess 80 2]) < 0 := by decide
  have hover : Millis.half (ledger accounts).price <
      (ledger accounts).debtAfter (loss ((ledger accounts).window ++ [(ledger accounts).excess 80 2])) := by decide
  refine ⟨hskip.trans hledger.1, hbackoffs.trans hledger.2, ?_⟩
  rcases (hjudged 80 2 true (by decide)).2 (by decide) with ⟨hwin, -⟩ | ⟨-, -, hbacked⟩ | ⟨-, hwithin, -⟩
  · exact absurd hwin hlost
  · rwa [hledger.2] at hbacked
  · exact absurd hover hwithin

/-- Sixteen tokens without a price admitAccount drafts, whose slow window is then not judged; and a window three
milliseconds slower than its serial tokens is forgiven. -/
theorem admission_unpriced :
    (let rows : List (Account Int) := List.replicate 16 .row
     let slow : List (Account Int) := List.replicate 3 (.cycle 1000 1 true)
     admitDraft (admitAll rows) = true ∧ (ledger rows).timed = [] ∧ admitDraft (admitAll (rows ++ slow)) = true) ∧
    (let timed : List (Account Int) := List.replicate 16 (.serial 26)
     let slow : List (Account Int) := List.replicate 3 (.cycle 53 2 true)
     (ledger timed).price = 26 ∧ admitDraft (admitAll (timed ++ slow)) = true) := by
  refine ⟨⟨by decide, by decide, by decide⟩, by decide, by decide⟩

end Ds4.Dspark
