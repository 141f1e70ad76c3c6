import Ds4.Engram.Read
import Mathlib.Data.List.GetD
import Mathlib.Data.List.Sort

/-!
# Runs of a batch

A row that can be read is the same wherever it is read to (`gives_or_fails`), the parts of a batch have requests
of their own, and their outputs are apart. So whatever the threads do, a batch leaves the rows that were asked for
or fails because one of them cannot be read.
-/

namespace Ds4.Engram

open Ds4.Lib

namespace Table

variable {t : Table}

/-! ## One row -/

theorem decodeRow_ok {raw : Bytes} {js : List (Fin dim)} (h : ∀ j ∈ js, t.value raw j ≠ 0xffff) (dst : Row) :
    t.decodeRow raw js dst = (fun j => if j ∈ js then (t.value raw j).toUInt32 <<< 16 else dst j, none) := by
  induction js generalizing dst with
  | nil => simp [decodeRow]
  | cons j js ih =>
    rw [decodeRow, if_neg (h j List.mem_cons_self), ih fun k hk => h k (List.mem_cons_of_mem _ hk)]
    refine Prod.ext ?_ rfl
    funext k
    dsimp only
    by_cases hk : k ∈ js
    · rw [if_pos hk, if_pos (List.mem_cons_of_mem _ hk)]
    · by_cases hj : k = j
      · rw [if_neg hk, hj, Function.update_self, if_pos List.mem_cons_self]
      · rw [if_neg hk, Function.update_of_ne hj, if_neg fun hmem => (List.mem_cons.mp hmem).elim hj hk]

theorem decodeRow_fails {raw : Bytes} {js : List (Fin dim)} (h : ∃ j ∈ js, t.value raw j = 0xffff) (dst : Row) :
    (t.decodeRow raw js dst).2 ≠ none := by
  induction js generalizing dst with
  | nil => exact absurd h (by simp)
  | cons j js ih =>
    rw [decodeRow]
    split_ifs with hj
    · exact Option.some_ne_none _
    · obtain ⟨k, hk, hv⟩ := h
      rcases List.mem_cons.mp hk with rfl | hk
      · exact absurd hv hj
      · exact ih ⟨k, hk, hv⟩ _

variable (t)

/-- A row that can be read, wherever to. -/
def Gives (row : UInt32) (r : Row) : Prop := ∀ dst, t.readOne row dst = (r, none)

/-- A row that cannot be read. -/
def Fails (row : UInt32) : Prop := ∀ dst, (t.readOne row dst).2 ≠ none

variable {t}

theorem readOne_refused {row : UInt32} (h : t.fd < 0 ∨ row ≥ t.rows) (dst : Row) :
    t.readOne row dst = (dst, some einval) := by
  rw [readOne, read]
  split_ifs with hfd hrow
  · rfl
  · rfl
  · refine absurd h ?_
    rw [List.any_cons, List.any_nil, Bool.or_false, decide_eq_true_eq] at hrow
    exact fun hor => hor.elim (fun hf => hfd (.inl hf)) hrow

theorem readOne_inRange {row : UInt32} (h : ¬(t.fd < 0 ∨ row ≥ t.rows)) (dst : Row) : t.readOne row dst =
    match t.readRow (t.offset + row.toUInt64 * rowBytes) with
    | .error e => (dst, some e)
    | .ok raw => t.decodeRow raw (List.finRange dim) dst := by
  have hfd : ¬(t.fd < 0 ∨ [row].length > sizeMax / (dim * 4)) := by
    rintro (hf | hf)
    · exact h (.inl hf)
    · change 1 > sizeMax / (dim * 4) at hf
      exact absurd hf (by decide)
  have hrow : ¬([row].any fun row => decide (row ≥ t.rows)) = true := by
    rw [List.any_cons, List.any_nil, Bool.or_false, decide_eq_true_eq]
    exact fun hr => h (.inr hr)
  rw [readOne, read, if_neg hfd, if_neg hrow, readRows]
  cases t.readRow (t.offset + row.toUInt64 * rowBytes) with
  | error e => rfl
  | ok raw =>
    dsimp only
    rcases t.decodeRow raw (List.finRange dim) dst with ⟨r, _ | e⟩
    · simp [readRows]
    · simp

/-- **A row is read or not**, whatever was where it goes. -/
theorem gives_or_fails (row : UInt32) : (∃ r, t.Gives row r) ∨ t.Fails row := by
  by_cases hrange : t.fd < 0 ∨ row ≥ t.rows
  · right
    intro dst
    rw [readOne_refused hrange]
    exact Option.some_ne_none _
  · cases hraw : t.readRow (t.offset + row.toUInt64 * rowBytes) with
    | error e =>
      right
      intro dst
      rw [readOne_inRange hrange, hraw]
      exact Option.some_ne_none _
    | ok raw =>
      by_cases hall : ∀ j ∈ List.finRange dim, t.value raw j ≠ 0xffff
      · left
        refine ⟨fun j => (t.value raw j).toUInt32 <<< 16, fun dst => ?_⟩
        rw [readOne_inRange hrange, hraw]
        dsimp only
        rw [decodeRow_ok hall]
        refine Prod.ext ?_ rfl
        funext j
        exact if_pos (List.mem_finRange j)
      · right
        intro dst
        push Not at hall
        rw [readOne_inRange hrange, hraw]
        exact decodeRow_fails hall dst

theorem not_fails_of_gives {row : UInt32} {r : Row} (h : t.Gives row r) : ¬t.Fails row := by
  intro hf
  exact hf r (congrArg Prod.snd (h r))

theorem read_one (row : UInt32) (out : Nat → Row) : (t.read [row] out).2 = (t.readOne row (out 0)).2 ∧
    (t.read [row] out).1 0 = (t.readOne row (out 0)).1 := by
  rw [readOne, read, read]
  split_ifs
  · exact ⟨rfl, rfl⟩
  · exact ⟨rfl, rfl⟩
  · rw [readRows, readRows]
    cases t.readRow (t.offset + row.toUInt64 * rowBytes) with
    | error e => exact ⟨rfl, rfl⟩
    | ok raw =>
      dsimp only
      rcases t.decodeRow raw (List.finRange dim) (out 0) with ⟨r, _ | e⟩
      · simp [readRows]
      · simp

theorem read_none_iff (row : UInt32) (out : Nat → Row) : (t.read [row] out).2 = none ↔ ∃ r, t.Gives row r := by
  rw [(read_one row out).1]
  constructor
  · intro h
    rcases @gives_or_fails t row with hgives | hfails
    · exact hgives
    · exact absurd h (hfails _)
  · rintro ⟨r, hr⟩
    rw [hr]

theorem read_gives {row : UInt32} {r : Row} (h : t.Gives row r) (out : Nat → Row) : (t.read [row] out).1 0 = r := by
  rw [(read_one row out).2, h]

end Table

/-! ## The parts -/

namespace Batch

variable {b : Batch} {s s' : Readers} {part : Nat}

theorem first_succ (part : Nat) : b.first (part + 1) = b.last part := rfl

theorem first_le_last : b.first part ≤ b.last part := by
  rw [first, last]
  exact Nat.div_le_div_right (Nat.mul_le_mul_left _ (Nat.le_succ part))

theorem first_mono {p q : Nat} (h : p ≤ q) : b.first p ≤ b.first q := by
  rw [first, first]
  exact Nat.div_le_div_right (Nat.mul_le_mul_left _ h)

theorem last_le (h : part < b.readers) : b.last part ≤ b.request.length := by
  rw [last]
  apply Nat.div_le_of_le_mul
  rw [Nat.mul_comm]
  exact Nat.mul_le_mul_right _ h

theorem first_readers (h : 0 < b.readers) : b.first b.readers = b.request.length := by
  rw [first, Nat.mul_div_cancel _ h]

/-- **Every request is in one part.** -/
theorem part_of {k : Nat} (hr : 0 < b.readers) (hk : k < b.request.length) :
    ∃ part < b.readers, b.first part ≤ k ∧ k < b.last part := by
  have hall : k < b.first b.readers := by rwa [first_readers hr]
  have hzero : b.first 0 ≤ k := by
    rw [first, Nat.mul_zero, Nat.zero_div]
    exact Nat.zero_le k
  have hex : ∃ n, k < b.first n := ⟨b.readers, hall⟩
  obtain ⟨part, hpart⟩ : ∃ part, Nat.find hex = part + 1 :=
    Nat.exists_eq_succ_of_ne_zero fun h => absurd (h ▸ Nat.find_spec hex) (Nat.not_lt.mpr hzero)
  have hfind := Nat.find_spec hex
  rw [hpart] at hfind
  refine ⟨part, ?_, ?_, hfind⟩
  · have hle := Nat.find_min' hex hall
    omega
  · exact Nat.not_lt.mp (Nat.find_min hex (by omega))

theorem part_unique {k p q : Nat} (hp : b.first p ≤ k ∧ k < b.last p) (hq : b.first q ≤ k ∧ k < b.last q) :
    p = q := by
  rcases Nat.lt_trichotomy p q with h | h | h
  · have hmono := @first_mono b (p + 1) q h
    rw [first_succ] at hmono
    omega
  · exact h
  · have hmono := @first_mono b (q + 1) p h
    rw [first_succ] at hmono
    omega

/-- An output is a part's own. -/
def Owns (b : Batch) (part o : Nat) : Prop := ∃ k, b.first part ≤ k ∧ k < b.last part ∧ b.dst k = o

/-- The outputs of the requests are apart. -/
def Apart (b : Batch) : Prop :=
  ∀ i k, i < b.request.length → k < b.request.length → b.dst i = b.dst k → i = k

/-- What a part has done: the rows up to its position are there, `previous` points to the row before, and it
stopped at a row that cannot be read. -/
structure Ok (b : Batch) (out : Nat → Row) (part : Nat) (p : Part) : Prop where
  first_le : b.first part ≤ p.i
  le_last : p.i ≤ b.last part
  written : ∀ k, b.first part ≤ k → k < p.i → b.table.Gives (b.requestAt k).row (out (b.dst k))
  previous : b.first part < p.i → ∃ k, b.first part ≤ k ∧ k < p.i ∧ p.previous = some (b.dst k) ∧
    (b.requestAt k).row = (b.requestAt (p.i - 1)).row
  error : p.error ≠ 0 → p.i < b.last part ∧ b.table.Fails (b.requestAt p.i).row

theorem ok_start (out : Nat → Row) : Ok b out part ⟨b.first part, none, 0⟩ := by
  refine ⟨Nat.le_refl _, first_le_last, ?_, ?_, ?_⟩
  · intro k hle hlt
    exact absurd hle (Nat.not_le.mpr hlt)
  · exact fun hlt => absurd hlt (Nat.lt_irrefl _)
  · exact fun herror => absurd rfl herror

/-- What is written for a request of another part, or behind the position, does not matter to a part. -/
theorem Ok.write {out : Nat → Row} {p : Part} (h : Ok b out part p) (hpart : part < b.readers) (hb : b.Apart)
    {i : Nat} (hi : i < b.request.length) (hout : i < b.first part ∨ p.i ≤ i) (r : Row) :
    Ok b (Function.update out (b.dst i) r) part p := by
  refine ⟨h.first_le, h.le_last, ?_, h.previous, h.error⟩
  intro k hle hlt
  have hk : k < b.request.length := (hlt.trans_le h.le_last).trans_le (last_le hpart)
  have hne : b.dst k ≠ b.dst i := by
    intro heq
    have hki := hb k i hk hi heq
    omega
  rw [Function.update_of_ne hne]
  exact h.written k hle hlt

/-- **A step of a part** keeps every part as it should be, and writes an output of its own. -/
theorem ok_partStep (hb : b.Apart) (hpart : part < b.readers) (hdone : ¬b.Done part (s.part part))
    (h : ∀ q < b.readers, Ok b s.out q (s.part q)) :
    ∀ q < b.readers, Ok b (b.partStep part s).out q ((b.partStep part s).part q) := by
  rw [Done, not_or, not_not, Nat.not_le] at hdone
  obtain ⟨herror, hlast⟩ := hdone
  have hp := h part hpart
  have hlen : (s.part part).i < b.request.length := hlast.trans_le (last_le hpart)
  -- The other parts.
  have hothers : ∀ (r : Row) (p : Part), ∀ q < b.readers, q ≠ part →
      Ok b (Function.update s.out (b.dst (s.part part).i) r) q (Function.update s.part part p q) := by
    intro r p q hq hne
    rw [Function.update_of_ne hne]
    refine (h q hq).write hq hb hlen ?_ r
    by_contra hnot
    push Not at hnot
    have hin : (s.part part).i < b.last q := hnot.2.trans_le (h q hq).le_last
    exact hne (part_unique ⟨hnot.1, hin⟩ ⟨hp.first_le, hlast⟩)
  -- The part goes on behind a row that was written.
  have hnext : ∀ (r : Row) (prev : Option Nat), b.table.Gives (b.requestAt (s.part part).i).row r →
      (∃ k, b.first part ≤ k ∧ k < (s.part part).i + 1 ∧ prev = some (b.dst k) ∧
        (b.requestAt k).row = (b.requestAt (s.part part).i).row) →
      Ok b (Function.update s.out (b.dst (s.part part).i) r) part ⟨(s.part part).i + 1, prev, (s.part part).error⟩ := by
    intro r prev hr hprev
    have hkept := hp.write hpart hb hlen (.inr (Nat.le_refl _)) r
    refine ⟨hp.first_le.trans (Nat.le_succ _), hlast, ?_, fun _ => hprev, fun he => absurd herror he⟩
    intro k hle hlt
    rcases Nat.lt_succ_iff_lt_or_eq.mp hlt with hlt | rfl
    · exact hkept.written k hle hlt
    · rw [Function.update_self]
      exact hr
  intro q hq
  rw [partStep]
  split_ifs with hsame
  · -- The row of the request before is copied.
    dsimp only
    by_cases hqp : q = part
    · rw [hqp, Function.update_self]
      obtain ⟨k, hk, hlt, hprev, hrow⟩ := hp.previous hsame.1
      have hgives := hp.written k hk hlt
      rw [hrow, ← hsame.2] at hgives
      rw [hprev, Option.getD_some]
      exact hnext _ _ hgives ⟨k, hk, hlt.trans (Nat.lt_succ_self _), rfl, hrow.trans hsame.2.symm⟩
    · exact hothers _ _ q hq hqp
  · rcases @Table.gives_or_fails b.table (b.requestAt (s.part part).i).row with ⟨r, hr⟩ | hfails
    · rw [hr]
      dsimp only
      by_cases hqp : q = part
      · rw [hqp, Function.update_self]
        exact hnext _ _ hr ⟨_, hp.first_le, Nat.lt_succ_self _, rfl, rfl⟩
      · exact hothers _ _ q hq hqp
    · have hf := hfails (s.out (b.dst (s.part part).i))
      rcases hone : b.table.readOne (b.requestAt (s.part part).i).row (s.out (b.dst (s.part part).i)) with ⟨r, _ | e⟩
      · rw [hone] at hf
        exact absurd rfl hf
      · dsimp only
        by_cases hqp : q = part
        · rw [hqp, Function.update_self]
          have hkept := hp.write hpart hb hlen (.inr (Nat.le_refl _)) r
          exact ⟨hkept.first_le, hkept.le_last, hkept.written, hkept.previous, fun _ => ⟨hlast, hfails⟩⟩
        · exact hothers _ _ q hq hqp

theorem partStep_work : (b.partStep part s).work = s.work := by
  rw [partStep]
  split_ifs
  · rfl
  · rcases b.table.readOne (b.requestAt (s.part part).i).row (s.out (b.dst (s.part part).i)) with ⟨r, _ | e⟩ <;> rfl

theorem partStep_part {q : Nat} (hq : q ≠ part) : (b.partStep part s).part q = s.part q := by
  rw [partStep]
  split_ifs
  · exact Function.update_of_ne hq _ _
  · rcases b.table.readOne (b.requestAt (s.part part).i).row (s.out (b.dst (s.part part).i)) with ⟨r, _ | e⟩ <;>
      exact Function.update_of_ne hq _ _

theorem partStep_out {o : Nat} (ho : o ≠ b.dst (s.part part).i) : (b.partStep part s).out o = s.out o := by
  rw [partStep]
  split_ifs
  · exact Function.update_of_ne ho _ _
  · rcases b.table.readOne (b.requestAt (s.part part).i).row (s.out (b.dst (s.part part).i)) with ⟨r, _ | e⟩ <;>
      exact Function.update_of_ne ho _ _

/-! ## The threads -/

/-- The parts that threads have yet to run are parts, and the others have returned. -/
structure Inv (b : Batch) (s : Readers) : Prop where
  ok : ∀ q < b.readers, Ok b s.out q (s.part q)
  parts : ∀ parts ∈ s.work, ∀ q ∈ parts, q < b.readers
  pending : ∀ q < b.readers, b.Done q (s.part q) ∨ ∃ parts ∈ s.work, q ∈ parts

/-- What the threads are given: parts, and every one. -/
def Covers (b : Batch) (work : List (List Nat)) : Prop :=
  (∀ parts ∈ work, ∀ q ∈ parts, q < b.readers) ∧ ∀ q < b.readers, ∃ parts ∈ work, q ∈ parts

theorem inv_start {work : List (List Nat)} (h : b.Covers work) (out : Nat → Row) : b.Inv (b.start work out) :=
  ⟨fun _ _ => ok_start out, h.1, fun q hq => .inr (h.2 q hq)⟩

theorem getD_mem {k : Nat} {rest : List Nat} (h : s.work.getD k [] = part :: rest) :
    k < s.work.length ∧ s.work[k]? = some (part :: rest) := by
  rw [List.getD_eq_getElem?_getD] at h
  cases hk : s.work[k]? with
  | none =>
    rw [hk] at h
    exact nomatch h
  | some parts =>
    rw [hk] at h
    exact ⟨(List.getElem?_eq_some_iff.mp hk).1, congrArg some h⟩

/-- **A step of a thread keeps the invariant.** -/
theorem Inv.step (h : b.Inv s) (hb : b.Apart) (hstep : b.Step s s') : b.Inv s' := by
  obtain ⟨k, hstep⟩ := hstep
  rw [threadStep] at hstep
  cases hwork : s.work.getD k [] with
  | nil =>
    rw [hwork] at hstep
    exact nomatch hstep
  | cons part rest =>
    obtain ⟨hk, hget⟩ := getD_mem hwork
    have hmem := List.mem_of_getElem? hget
    rw [hwork] at hstep
    dsimp only at hstep
    split_ifs at hstep with hdone
    · obtain rfl := Option.some.inj hstep
      refine ⟨h.ok, ?_, ?_⟩
      · intro parts hparts q hq
        rcases List.mem_or_eq_of_mem_set hparts with hparts | rfl
        · exact h.parts parts hparts q hq
        · exact h.parts _ hmem q (List.mem_cons_of_mem _ hq)
      · intro q hq
        rcases h.pending q hq with hq | ⟨parts, hparts, hqp⟩
        · exact .inl hq
        · obtain ⟨i, hi⟩ := List.mem_iff_getElem?.mp hparts
          by_cases hik : i = k
          · -- The part that was left has returned.
            rw [hik, hget] at hi
            obtain rfl := Option.some.inj hi
            rcases List.mem_cons.mp hqp with rfl | hqp
            · exact .inl hdone
            · exact .inr ⟨rest, List.mem_set hk rest, hqp⟩
          · refine .inr ⟨parts, ?_, hqp⟩
            apply List.mem_of_getElem?
            rw [List.getElem?_set_ne (Ne.symm hik), hi]
    · obtain rfl := Option.some.inj hstep
      have hpart := h.parts _ hmem part List.mem_cons_self
      refine ⟨ok_partStep hb hpart hdone h.ok, ?_, ?_⟩
      · rw [partStep_work]
        exact h.parts
      · intro q hq
        rw [partStep_work]
        by_cases hqp : q = part
        · exact .inr ⟨_, hmem, hqp ▸ List.mem_cons_self⟩
        · have hsame : (b.partStep part s).part q = s.part q := by
            rw [partStep]
            split_ifs
            · exact Function.update_of_ne hqp _ _
            · rcases b.table.readOne (b.requestAt (s.part part).i).row (s.out (b.dst (s.part part).i)) with
                ⟨r, _ | e⟩ <;> exact Function.update_of_ne hqp _ _
          rw [hsame]
          exact h.pending q hq

theorem Inv.run (h : b.Inv s) (hb : b.Apart) (hrun : Relation.ReflTransGen b.Step s s') : b.Inv s' := by
  induction hrun with
  | refl => exact h
  | tail _ hstep ih => exact ih.step hb hstep

theorem Inv.finished (h : b.Inv s) (hfinished : s.Finished) {q : Nat} (hq : q < b.readers) : b.Done q (s.part q) := by
  rcases h.pending q hq with hdone | ⟨parts, hparts, hmem⟩
  · exact hdone
  · rw [hfinished parts hparts] at hmem
    exact absurd hmem List.not_mem_nil

/-- The requests that are left to a part. -/
def leftOf (b : Batch) (part : Nat) (p : Part) : Nat := if p.error ≠ 0 then 0 else b.last part - p.i

/-- The steps that are left to the threads. -/
def left (b : Batch) (s : Readers) : Nat :=
  (s.work.map List.length).sum + ∑ q ∈ Finset.range b.readers, b.leftOf q (s.part q)

theorem partStep_left (hdone : ¬b.Done part (s.part part)) :
    b.leftOf part ((b.partStep part s).part part) < b.leftOf part (s.part part) := by
  rw [Done, not_or, not_not, Nat.not_le] at hdone
  obtain ⟨herror, hlast⟩ := hdone
  have hold : b.leftOf part (s.part part) = b.last part - (s.part part).i := if_neg (not_not.mpr herror)
  rw [hold, partStep]
  split_ifs
  · dsimp only
    rw [Function.update_self, leftOf, if_neg (not_not.mpr herror)]
    exact Nat.sub_succ_lt_self _ _ hlast
  · rcases b.table.readOne (b.requestAt (s.part part).i).row (s.out (b.dst (s.part part).i)) with ⟨r, _ | e⟩
    · dsimp only
      rw [Function.update_self, leftOf, if_neg (not_not.mpr herror)]
      exact Nat.sub_succ_lt_self _ _ hlast
    · dsimp only
      rw [Function.update_self, leftOf, if_pos]
      · omega
      · dsimp only
        split_ifs with he
        · exact he
        · decide

theorem sum_set_lt {work : List (List Nat)} {k : Nat} {rest : List Nat} (h : work[k]? = some (part :: rest)) :
    ((work.set k rest).map List.length).sum < (work.map List.length).sum := by
  induction work generalizing k with
  | nil => exact nomatch h
  | cons parts work ih =>
    cases k with
    | zero =>
      obtain rfl := Option.some.inj h
      exact Nat.add_lt_add_right (Nat.lt_succ_self _) _
    | succ k => exact Nat.add_lt_add_left (ih h) _

/-- **Every step leaves less to do.** -/
theorem Inv.step_left (h : b.Inv s) (hstep : b.Step s s') : b.left s' < b.left s := by
  obtain ⟨k, hstep⟩ := hstep
  rw [threadStep] at hstep
  cases hwork : s.work.getD k [] with
  | nil =>
    rw [hwork] at hstep
    exact nomatch hstep
  | cons part rest =>
    obtain ⟨hk, hget⟩ := getD_mem hwork
    rw [hwork] at hstep
    dsimp only at hstep
    split_ifs at hstep with hdone
    · obtain rfl := Option.some.inj hstep
      rw [left, left]
      exact Nat.add_lt_add_right (sum_set_lt hget) _
    · obtain rfl := Option.some.inj hstep
      have hpart := h.parts _ (List.mem_of_getElem? hget) part List.mem_cons_self
      rw [left, left, partStep_work]
      apply Nat.add_lt_add_left
      apply Finset.sum_lt_sum
      · intro q hq
        by_cases hqp : q = part
        · rw [hqp]
          exact (partStep_left hdone).le
        · rw [partStep_part hqp]
      · exact ⟨part, Finset.mem_range.mpr hpart, partStep_left hdone⟩

/-- **Threads that are not done can go on.** -/
theorem exists_step (h : ¬s.Finished) : ∃ s', b.Step s s' := by
  rw [Readers.Finished] at h
  push Not at h
  obtain ⟨parts, hparts, hne⟩ := h
  obtain ⟨k, hk⟩ := List.mem_iff_getElem?.mp hparts
  obtain ⟨part, rest, rfl⟩ := List.exists_cons_of_ne_nil hne
  by_cases hdone : b.Done part (s.part part)
  · refine ⟨{ s with work := s.work.set k rest }, k, ?_⟩
    rw [threadStep, List.getD_eq_getElem?_getD, hk]
    exact if_pos hdone
  · refine ⟨b.partStep part s, k, ?_⟩
    rw [threadStep, List.getD_eq_getElem?_getD, hk]
    exact if_neg hdone

theorem run_out {o : Nat} (h : b.Inv s) (hb : b.Apart) (hrun : Relation.ReflTransGen b.Step s s')
    (ho : ∀ k < b.request.length, o ≠ b.dst k) : s'.out o = s.out o := by
  induction hrun with
  | refl => rfl
  | @tail s₁ s₂ hrun hstep ih =>
    have hinv := h.run hb hrun
    rw [← ih]
    obtain ⟨k, hstep⟩ := hstep
    rw [threadStep] at hstep
    cases hwork : s₁.work.getD k [] with
    | nil =>
      rw [hwork] at hstep
      exact nomatch hstep
    | cons part rest =>
      rw [hwork] at hstep
      dsimp only at hstep
      split_ifs at hstep with hdone
      · obtain rfl := Option.some.inj hstep
        rfl
      · obtain rfl := Option.some.inj hstep
        have hpart := hinv.parts _ (List.mem_of_getElem? (getD_mem hwork).2) part List.mem_cons_self
        rw [Done, not_or, Nat.not_le] at hdone
        exact partStep_out (ho _ (hdone.2.trans_le (last_le hpart)))

/-- **Some run of the threads ends.** -/
theorem exists_finished (h : b.Inv s) (hb : b.Apart) :
    ∃ s', Relation.ReflTransGen b.Step s s' ∧ s'.Finished := by
  generalize hn : b.left s = n
  induction n using Nat.strong_induction_on generalizing s with
  | _ n ih =>
    by_cases hfinished : s.Finished
    · exact ⟨s, .refl, hfinished⟩
    · obtain ⟨s₁, hstep⟩ := @exists_step b s hfinished
      obtain ⟨s', hrun, hend⟩ := ih _ (hn ▸ h.step_left hstep) (h.step hb hstep) rfl
      exact ⟨s', .head hstep hrun, hend⟩

end Batch

/-! ## All batches -/

theorem covers_threadParts {b : Batch} {started : Nat} (h : started < b.readers) :
    b.Covers (threadParts b.readers started) := by
  constructor
  · intro parts hparts q hq
    rcases List.mem_cons.mp hparts with rfl | hparts
    · rcases List.mem_cons.mp hq with rfl | hq
      · omega
      · rw [List.mem_range'_1] at hq
        omega
    · obtain ⟨p, hp, rfl⟩ := List.mem_map.mp hparts
      rw [List.mem_range'_1] at hp
      rw [List.mem_singleton] at hq
      omega
  · intro q hq
    by_cases hcaller : q = 0 ∨ started < q
    · refine ⟨_, List.mem_cons_self, List.mem_cons.mpr ?_⟩
      rcases hcaller with rfl | hlt
      · exact .inl rfl
      · refine .inr (List.mem_range'_1.mpr ?_)
        omega
    · refine ⟨[q], List.mem_cons_of_mem _ (List.mem_map.mpr ⟨q, List.mem_range'_1.mpr ?_, rfl⟩), List.mem_singleton_self q⟩
      omega

theorem covers_single {b : Batch} (h : b.readers = 1) : b.Covers [[0]] := by
  constructor
  · intro parts hparts q hq
    rw [List.mem_singleton.mp hparts, List.mem_singleton] at hq
    omega
  · intro q hq
    exact ⟨[0], List.mem_singleton_self _, List.mem_singleton.mpr (by omega)⟩

namespace BatchRead

variable {r : BatchRead}

/-- The row that is asked for at a place of the output. -/
def rowAt (r : BatchRead) (o : Nat) : UInt32 := r.rows (o / cols * r.stride + o % cols)

theorem requests_eq (start : Nat) : r.requests start =
    (List.range (r.count start)).map fun i => ⟨r.rowAt (start * cols + i), UInt32.ofNat i⟩ := by
  rw [requests]
  apply List.map_congr_left
  intro i _
  have hdiv : (start * cols + i) / cols = start + i / cols := by
    rw [Nat.mul_comm, Nat.mul_add_div (by decide)]
  have hmod : (start * cols + i) % cols = i % cols := by
    rw [Nat.mul_comm, Nat.mul_add_mod]
  rw [rowAt, hdiv, hmod]

theorem count_lt (start : Nat) : r.count start < 2 ^ 32 := by
  have hcap : r.cap ≤ 2048 := by
    rw [cap, batchTokens]
    split_ifs <;> omega
  rw [count]
  change _ * 24 < _
  split_ifs <;> omega

/-- The batch of some requests in some order. -/
def batch (r : BatchRead) (request : List Request) (start readers : Nat) : Batch :=
  ⟨r.table, request, start * cols, readers⟩

variable {request : List Request} {start readers : Nat}

theorem request_of (h : request.Perm (r.requests start)) {k : Nat} (hk : k < request.length) :
    ∃ i < r.count start, request.getD k default = ⟨r.rowAt (start * cols + i), UInt32.ofNat i⟩ ∧
      (r.batch request start readers).dst k = start * cols + i := by
  have hmem : request.getD k default ∈ request := by
    rw [List.getD_eq_getElem _ _ hk]
    exact List.getElem_mem hk
  rw [h.mem_iff, requests_eq, List.mem_map] at hmem
  obtain ⟨i, hi, heq⟩ := hmem
  rw [List.mem_range] at hi
  refine ⟨i, hi, heq.symm, ?_⟩
  rw [Batch.dst, Batch.requestAt]
  change start * cols + (request.getD k default).output.toNat = _
  rw [← heq]
  dsimp only
  rw [UInt32.toNat_ofNat_of_lt' (hi.trans (count_lt start))]

theorem request_at (h : request.Perm (r.requests start)) {i : Nat} (hi : i < r.count start) :
    ∃ k < request.length, request.getD k default = ⟨r.rowAt (start * cols + i), UInt32.ofNat i⟩ := by
  have hmem : (⟨r.rowAt (start * cols + i), UInt32.ofNat i⟩ : Request) ∈ request := by
    rw [h.mem_iff, requests_eq]
    exact List.mem_map.mpr ⟨i, List.mem_range.mpr hi, rfl⟩
  obtain ⟨k, hk, heq⟩ := List.mem_iff_getElem.mp hmem
  exact ⟨k, hk, by rw [List.getD_eq_getElem _ _ hk, heq]⟩

theorem apart_batch (h : request.Perm (r.requests start)) : (r.batch request start readers).Apart := by
  have hnodup : request.Nodup := by
    rw [h.nodup_iff, requests_eq]
    refine List.Nodup.map_on ?_ List.nodup_range
    intro i hi k hk heq
    have houtput := congrArg (fun q : Request => q.output.toNat) heq
    dsimp only at houtput
    rw [List.mem_range] at hi hk
    rwa [UInt32.toNat_ofNat_of_lt' (hi.trans (count_lt start)),
      UInt32.toNat_ofNat_of_lt' (hk.trans (count_lt start))] at houtput
  intro k k' hk hk' heq
  obtain ⟨i, hi, hreq, hdst⟩ := @request_of r request start readers h k hk
  obtain ⟨i', hi', hreq', hdst'⟩ := @request_of r request start readers h k' hk'
  have hii : i = i' := by
    rw [hdst, hdst'] at heq
    omega
  rw [hii, ← hreq'] at hreq
  change k < request.length at hk
  change k' < request.length at hk'
  rw [List.getD_eq_getElem _ _ hk, List.getD_eq_getElem _ _ hk'] at hreq
  exact (hnodup.getElem_inj_iff).mp hreq

theorem firstError_eq_none {part : Nat → Part} :
    firstError readers part = none ↔ ∀ q < readers, (part q).error = 0 := by
  rw [firstError, List.find?_eq_none]
  constructor
  · intro h q hq
    have herror := h _ (List.mem_map.mpr ⟨q, List.mem_range.mpr hq, rfl⟩)
    simpa using herror
  · intro h e he
    obtain ⟨q, hq, rfl⟩ := List.mem_map.mp he
    simpa using h q (List.mem_range.mp hq)

/-- **What a batch leaves**, or why it fails. -/
theorem RunsBatch.spec {out out' : Nat → Row} {err : Option Int} (hr : 0 < r.readers)
    (h : r.RunsBatch start out out' err) :
    (err = none → ∀ i < r.count start, r.table.Gives (r.rowAt (start * cols + i)) (out' (start * cols + i))) ∧
      (err ≠ none → ∃ i < r.count start, r.table.Fails (r.rowAt (start * cols + i))) ∧
      ∀ o < start * cols, out' o = out o := by
  obtain ⟨request, readers, work, s, hperm, -, hthreads, hrun, hfinished, rfl, rfl⟩ := h
  have hcovers : 0 < readers ∧ (r.batch request start readers).Covers work := by
    rcases hthreads with ⟨-, rfl, started, hstarted, rfl⟩ | ⟨-, rfl, rfl⟩
    · exact ⟨hr, @covers_threadParts (r.batch request start r.readers) started hstarted⟩
    · exact ⟨Nat.one_pos, covers_single rfl⟩
  have hapart := @apart_batch r request start readers hperm
  have hinv := (Batch.inv_start hcovers.2 out).run hapart hrun
  refine ⟨?_, ?_, ?_⟩
  · intro hnone i hi
    obtain ⟨k, hk, hreq⟩ := request_at hperm hi
    obtain ⟨i', hi', hreq', hdst⟩ := @request_of r request start readers hperm k hk
    obtain ⟨q, hq, hfirst, hlast⟩ := @Batch.part_of (r.batch request start readers) k hcovers.1 hk
    have herror := firstError_eq_none.1 hnone q hq
    have hdone := hinv.finished hfinished hq
    have hend : (r.batch request start readers).last q ≤ (s.part q).i :=
      hdone.resolve_left (not_not.mpr herror)
    have hgives := (hinv.ok q hq).written k hfirst (hlast.trans_le hend)
    have hii : i = i' := by
      have houtput := congrArg (fun q : Request => q.output.toNat) (hreq.symm.trans hreq')
      dsimp only at houtput
      rwa [UInt32.toNat_ofNat_of_lt' (hi.trans (count_lt start)),
        UInt32.toNat_ofNat_of_lt' (hi'.trans (count_lt start))] at houtput
    rw [hdst, ← hii, Batch.requestAt] at hgives
    change r.table.Gives (request.getD k default).row _ at hgives
    rwa [hreq] at hgives
  · intro hsome
    have hex : ∃ q < readers, (s.part q).error ≠ 0 := by
      by_contra hnot
      push Not at hnot
      exact hsome (firstError_eq_none.2 hnot)
    obtain ⟨q, hq, herror⟩ := hex
    obtain ⟨hlt, hfails⟩ := (hinv.ok q hq).error herror
    have hk := hlt.trans_le (Batch.last_le hq)
    obtain ⟨i, hi, hreq, -⟩ := @request_of r request start readers hperm _ hk
    refine ⟨i, hi, ?_⟩
    rw [Batch.requestAt] at hfails
    change r.table.Fails (request.getD (s.part q).i default).row at hfails
    rwa [hreq] at hfails
  · intro o ho
    refine (Batch.run_out (Batch.inv_start hcovers.2 out) hapart hrun ?_)
    intro k hk
    obtain ⟨i, -, -, hdst⟩ := @request_of r request start readers hperm k hk
    omega

theorem exists_runsBatch (hr : 0 < r.readers) (start : Nat) (out : Nat → Row) :
    ∃ out' err, r.RunsBatch start out out' err := by
  classical
  have hperm := List.perm_insertionSort (fun x y : Request => x.row ≤ y.row) (r.requests start)
  have hsorted : (List.insertionSort (fun x y : Request => x.row ≤ y.row) (r.requests start)).Pairwise
      (fun x y => x.row ≤ y.row) := by
    have htotal : Std.Total (fun x y : Request => x.row ≤ y.row) := ⟨fun x y => UInt32.le_total x.row y.row⟩
    have htrans : IsTrans Request (fun x y => x.row ≤ y.row) := ⟨fun _ _ _ => UInt32.le_trans⟩
    exact List.pairwise_insertionSort _ _
  by_cases hparallel : r.count start ≥ r.parallelMinRows
  · obtain ⟨s, hrun, hfinished⟩ := Batch.exists_finished
      (Batch.inv_start (@covers_threadParts (r.batch _ start r.readers) 0 hr) out) (apart_batch hperm)
    exact ⟨_, _, _, _, _, s, hperm, hsorted, .inl ⟨hparallel, rfl, 0, hr, rfl⟩, hrun, hfinished, rfl, rfl⟩
  · obtain ⟨s, hrun, hfinished⟩ := Batch.exists_finished
      (Batch.inv_start (@covers_single (r.batch _ start 1) rfl) out) (apart_batch hperm)
    exact ⟨_, _, _, _, _, s, hperm, hsorted, .inr ⟨Nat.lt_of_not_le hparallel, rfl, rfl⟩, hrun, hfinished, rfl, rfl⟩

theorem start_add_count {start : Nat} (h : start < r.tokens) :
    start * cols + r.count start = min (start + r.cap) r.tokens * cols := by
  rw [count, ← Nat.add_mul]
  congr 1
  split_ifs <;> omega

/-- **What all batches leave**, or why they fail. -/
theorem RunsFrom.spec {out : Nat → Row} {res : (Nat → Row) × Option Int} (hr : 0 < r.readers)
    (h : r.RunsFrom start out res) :
    (res.2 = none → (∀ o, start * cols ≤ o → o < r.tokens * cols → r.table.Gives (r.rowAt o) (res.1 o)) ∧
      ∀ o < start * cols, res.1 o = out o) ∧
    (res.2 ≠ none → ∃ o < r.tokens * cols, r.table.Fails (r.rowAt o)) := by
  induction h with
  | @done start out h =>
    refine ⟨fun _ => ⟨?_, fun _ _ => rfl⟩, fun hsome => absurd rfl hsome⟩
    intro o hle hlt
    have hmul : r.tokens * cols ≤ start * cols := Nat.mul_le_mul_right _ (Nat.le_of_not_lt h)
    omega
  | @next start out out' res hlt hbatch hrest ih =>
    obtain ⟨hrows, -, hkept⟩ := hbatch.spec hr
    have hcount := start_add_count hlt
    refine ⟨?_, ih.2⟩
    intro hnone
    obtain ⟨hbehind, hbefore⟩ := ih.1 hnone
    constructor
    · intro o hle ho
      by_cases hnext : (start + r.cap) * cols ≤ o
      · exact hbehind o hnext ho
      · obtain ⟨i, rfl⟩ := Nat.exists_eq_add_of_le hle
        rw [hbefore _ (Nat.lt_of_not_le hnext)]
        apply hrows rfl
        rcases Nat.le_total (start + r.cap) r.tokens with hmin | hmin
        · rw [Nat.min_eq_left hmin] at hcount
          omega
        · rw [Nat.min_eq_right hmin] at hcount
          omega
    · intro o ho
      have hmul : start * cols ≤ (start + r.cap) * cols := Nat.mul_le_mul_right _ (Nat.le_add_right _ _)
      rw [hbefore o (ho.trans_le hmul), hkept o ho]
  | @fails start out out' e hlt hbatch =>
    obtain ⟨-, hfails, -⟩ := hbatch.spec hr
    refine ⟨fun hnone => (nomatch hnone), fun _ => ?_⟩
    obtain ⟨i, hi, hrow⟩ := hfails (Option.some_ne_none e)
    refine ⟨start * cols + i, ?_, hrow⟩
    have hcount := start_add_count hlt
    have hmul : min (start + r.cap) r.tokens * cols ≤ r.tokens * cols := Nat.mul_le_mul_right _ (Nat.min_le_right _ _)
    omega

theorem cap_pos (h : 0 < r.tokens) : 0 < r.cap := by
  rw [cap, batchTokens]
  split_ifs <;> omega

theorem exists_runsFrom (hr : 0 < r.readers) (start : Nat) (out : Nat → Row) : ∃ res, r.RunsFrom start out res := by
  generalize hn : r.tokens - start = n
  induction n using Nat.strong_induction_on generalizing start out with
  | _ n ih =>
    by_cases hlt : start < r.tokens
    · obtain ⟨out', err, hbatch⟩ := exists_runsBatch hr start out
      cases err with
      | some e => exact ⟨_, .fails hlt hbatch⟩
      | none =>
        have hcap := @cap_pos r (by omega)
        obtain ⟨res, hrest⟩ := ih _ (by omega) (start + r.cap) out' rfl
        exact ⟨res, .next hlt hbatch hrest⟩
    · exact ⟨_, .done hlt⟩

/-- The arguments fit: the arrays of row ids and rows are in memory. -/
structure Fits (r : BatchRead) : Prop where
  fd : 0 ≤ r.table.fd
  readers_pos : 1 ≤ r.readers
  readers_le : r.readers ≤ 32
  stride : cols ≤ r.stride
  out : r.tokens * (cols * dim * 4) ≤ sizeMax
  rows : r.tokens ≠ 0 → ((r.tokens - 1) * r.stride + cols) * 4 ≤ sizeMax

theorem not_refused (h : r.Fits) : ¬r.Refused := by
  have hcols : cols = 24 := rfl
  rintro (hf | hf | hf | ⟨-, hf⟩ | hf | ⟨hne, hf⟩)
  · exact absurd h.fd (not_le.mpr hf)
  · exact absurd h.readers_pos (Nat.not_le.mpr hf)
  · exact absurd h.readers_le (Nat.not_le.mpr hf)
  · exact absurd h.stride (Nat.not_le.mpr hf)
  · exact absurd ((Nat.le_div_iff_mul_le (by decide)).mpr h.out) (Nat.not_le.mpr hf)
  · have hstride : 0 < r.stride := lt_of_lt_of_le (by decide) h.stride
    have hrows := h.rows hne
    have hle : (r.tokens - 1) * r.stride + cols ≤ sizeMax / 4 := (Nat.le_div_iff_mul_le (by decide)).mpr hrows
    exact absurd ((Nat.le_div_iff_mul_le hstride).mpr (by omega)) (Nat.not_le.mpr hf)

theorem rowAt_column (i : Nat) {c : Nat} (hc : c < cols) : r.rowAt (i * cols + c) = r.rows (i * r.stride + c) := by
  have hdiv : (i * cols + c) / cols = i := by
    rw [Nat.mul_comm, Nat.mul_add_div (by decide), Nat.div_eq_of_lt hc, Nat.add_zero]
  have hmod : (i * cols + c) % cols = c := by
    rw [Nat.mul_comm, Nat.mul_add_mod, Nat.mod_eq_of_lt hc]
  rw [rowAt, hdiv, hmod]

theorem column_lt {i c : Nat} (hi : i < r.tokens) (hc : c < cols) : i * cols + c < r.tokens * cols := by
  have hmul : (i + 1) * cols ≤ r.tokens * cols := Nat.mul_le_mul_right _ hi
  rw [Nat.succ_mul] at hmul
  omega

theorem of_column {o : Nat} (ho : o < r.tokens * cols) : o / cols < r.tokens ∧ o % cols < cols :=
  ⟨(Nat.div_lt_iff_lt_mul (by decide)).mpr ho, Nat.mod_lt _ (by decide)⟩

/-- **A parallel read is a read of every row.** Whatever threads start and however they interleave, it comes to an
end, succeeds if and only if every row that is asked for can be read, and then leaves those rows. In each batch an
output is one part's own, and no other part writes it. -/
theorem runs_eq_read (h : r.Fits) (out scratch : Nat → Row) :
    (∃ res, r.Runs out res) ∧
    (∀ res, r.Runs out res →
      (res.2 = none ↔ ∀ i < r.tokens, ∀ c < cols, (r.table.read [r.rows (i * r.stride + c)] scratch).2 = none) ∧
      (res.2 = none → ∀ i < r.tokens, ∀ c < cols,
        res.1 (i * cols + c) = (r.table.read [r.rows (i * r.stride + c)] scratch).1 0)) ∧
    ∀ start request readers work, request.Perm (r.requests start) → 0 < readers →
      (r.batch request start readers).Covers work →
      (∀ o < r.count start, ∃! part, part < readers ∧ (r.batch request start readers).Owns part (start * cols + o)) ∧
      ∀ s, Relation.ReflTransGen (r.batch request start readers).Step
          ((r.batch request start readers).start work out) s →
        (¬s.Finished → ∃ s', (r.batch request start readers).Step s s') ∧
        (∀ s', (r.batch request start readers).Step s s' →
          (r.batch request start readers).left s' < (r.batch request start readers).left s) ∧
        ∀ part < readers, ¬(r.batch request start readers).Done part (s.part part) →
          ∀ o, ¬(r.batch request start readers).Owns part o →
            ((r.batch request start readers).partStep part s).out o = s.out o := by
  have hr : 0 < r.readers := h.readers_pos
  have hrefused := not_refused h
  refine ⟨?_, ?_, ?_⟩
  · by_cases hrange : r.OutOfRange
    · exact ⟨_, .inl ⟨.inr hrange, rfl⟩⟩
    · obtain ⟨res, hres⟩ := exists_runsFrom hr 0 out
      exact ⟨res, .inr ⟨hrefused, hrange, hres⟩⟩
  · rintro res (⟨hbad, rfl⟩ | ⟨-, -, hrun⟩)
    · -- A row that the table does not have is refused by either read.
      obtain ⟨i, hi, c, hc, hrow⟩ := hbad.resolve_left hrefused
      refine ⟨⟨fun hnone => (nomatch hnone), fun hall => ?_⟩, fun hnone => (nomatch hnone)⟩
      obtain ⟨row, hgives⟩ := (Table.read_none_iff _ _).mp (hall i hi c hc)
      have hone := hgives (scratch 0)
      rw [Table.readOne_refused (.inr hrow)] at hone
      exact nomatch congrArg Prod.snd hone
    · obtain ⟨hok, hfails⟩ := hrun.spec hr
      refine ⟨⟨?_, ?_⟩, ?_⟩
      · intro hnone i hi c hc
        have hgives := (hok hnone).1 (i * cols + c) (by omega) (column_lt hi hc)
        rw [rowAt_column i hc] at hgives
        exact (Table.read_none_iff _ _).mpr ⟨_, hgives⟩
      · intro hall
        by_contra hsome
        obtain ⟨o, ho, hrow⟩ := hfails hsome
        obtain ⟨hi, hc⟩ := of_column ho
        obtain ⟨row, hgives⟩ := (Table.read_none_iff _ _).mp (hall _ hi _ hc)
        exact Table.not_fails_of_gives hgives hrow
      · intro hnone i hi c hc
        have hgives := (hok hnone).1 (i * cols + c) (by omega) (column_lt hi hc)
        rw [rowAt_column i hc] at hgives
        exact (Table.read_gives hgives scratch).symm
  · intro start request readers work hperm hreaders hcovers
    constructor
    · intro o ho
      obtain ⟨k, hk, hreq⟩ := request_at hperm ho
      obtain ⟨i, hi, hreq', hdst⟩ := @request_of r request start readers hperm k hk
      have hio : i = o := by
        have houtput := congrArg (fun q : Request => q.output.toNat) (hreq'.symm.trans hreq)
        dsimp only at houtput
        rwa [UInt32.toNat_ofNat_of_lt' (hi.trans (count_lt start)),
          UInt32.toNat_ofNat_of_lt' (ho.trans (count_lt start))] at houtput
      obtain ⟨part, hpart, hfirst, hlast⟩ := @Batch.part_of (r.batch request start readers) k hreaders hk
      refine ⟨part, ⟨hpart, k, hfirst, hlast, hio ▸ hdst⟩, ?_⟩
      rintro q ⟨hq, k', hfirst', hlast', hdst'⟩
      have hk' := hlast'.trans_le (Batch.last_le hq)
      have hkk := apart_batch hperm k k' hk hk' (by rw [hdst, hdst', hio])
      exact Batch.part_unique ⟨hkk ▸ hfirst', hkk ▸ hlast'⟩ ⟨hfirst, hlast⟩
    · intro s hrun
      have hinv := (Batch.inv_start hcovers out).run (apart_batch hperm) hrun
      refine ⟨Batch.exists_step, fun s' hstep => hinv.step_left hstep, ?_⟩
      intro part hpart hdone o ho
      rw [Batch.Done, not_or, Nat.not_le] at hdone
      apply Batch.partStep_out
      intro heq
      exact ho ⟨_, (hinv.ok part hpart).first_le, hdone.2, heq.symm⟩

/-- One token of a table of one row of zeros. -/
def zeroRow : BatchRead where
  table := ⟨3, 0, 1, fun _ => .ok (List.replicate 264 0), fun _ _ => 0⟩
  rows := fun _ => 0
  tokens := 1
  stride := 24
  readers := 2
  parallelMinRows := 8

theorem runs_eq_read_zeroRow : ∃ res, zeroRow.Runs (fun _ _ => 7) res ∧ res.2 = none := by
  have hfits : zeroRow.Fits := ⟨by decide, by decide, by decide, by decide, by decide, fun _ => by decide⟩
  obtain ⟨⟨res, hruns⟩, hall, -⟩ := runs_eq_read hfits (fun _ _ => 7) fun _ _ => 7
  refine ⟨res, hruns, (hall res hruns).1.mpr ?_⟩
  intro i _ c _
  have hrange : ¬(zeroRow.table.fd < 0 ∨ (0 : UInt32) ≥ zeroRow.table.rows) := by decide
  refine (Table.read_none_iff _ _).mpr ⟨fun _ => 0, fun dst => ?_⟩
  change zeroRow.table.readOne 0 dst = _
  rw [Table.readOne_inRange hrange]
  have hvalue : ∀ j ∈ List.finRange dim, zeroRow.table.value (List.replicate 264 0) j ≠ 0xffff := by
    intro j _
    change (0 : UInt16) ≠ 0xffff
    decide
  refine (Table.decodeRow_ok hvalue dst).trans (Prod.ext ?_ rfl)
  funext j
  exact if_pos (List.mem_finRange j)

end BatchRead

end Ds4.Engram
