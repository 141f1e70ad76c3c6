import Mathlib.Data.List.Nodup
import Mathlib.Logic.Function.Basic
import Mathlib.Tactic

/-!
# Linked lists

The links of a doubly linked list are two partial maps of addresses with the two ends of the list.
`Dll L l` says that `L` links exactly the addresses `l`, in order and in both directions;
`pushFront` and `unlink` keep it (`Dll.pushFront`, `Dll.unlink`). A singly linked list is a
`Chain`, which loses a member by `Chain.erase`.
-/

namespace Ds4.Lib

/-! ## Chains -/

/-- `next` leads from `start` through `l` to `stop`. -/
def Segment (next : Nat → Option Nat) : Option Nat → List Nat → Option Nat → Prop
  | start, [], stop => start = stop
  | start, p :: l, stop => start = some p ∧ Segment next (next p) l stop

/-- `next` leads from `start` through `l` to the null pointer. -/
abbrev Chain (next : Nat → Option Nat) (start : Option Nat) (l : List Nat) : Prop :=
  Segment next start l none

namespace Segment

variable {next next' : Nat → Option Nat} {start stop : Option Nat} {a b l : List Nat} {p : Nat}

@[simp] theorem nil_iff : Segment next start [] stop ↔ start = stop := Iff.rfl

@[simp] theorem cons_iff :
    Segment next start (p :: l) stop ↔ start = some p ∧ Segment next (next p) l stop := Iff.rfl

theorem append_iff :
    Segment next start (a ++ b) stop ↔ ∃ mid, Segment next start a mid ∧ Segment next mid b stop := by
  induction a generalizing start with
  | nil => simp
  | cons p a ih => simp [ih, and_assoc]

theorem congr (h : ∀ p ∈ l, next p = next' p) (hs : Segment next start l stop) :
    Segment next' start l stop := by
  induction l generalizing start with
  | nil => exact hs
  | cons p l ih =>
    refine ⟨hs.1, ?_⟩
    rw [← h p List.mem_cons_self]
    exact ih (fun q hq => h q (List.mem_cons_of_mem p hq)) hs.2

theorem update (hp : p ∉ l) (v : Option Nat) (hs : Segment next start l stop) :
    Segment (Function.update next p v) start l stop := by
  refine hs.congr fun q hq => ?_
  rw [Function.update_of_ne]
  rintro rfl
  exact hp hq

theorem start_eq (h : Chain next start l) : start = l.head? := by
  cases l with
  | nil => exact h
  | cons p l => exact h.1

theorem retarget (hs : Segment next start (l ++ [p]) stop) (hp : p ∉ l)
    (v : Option Nat) : Segment (Function.update next p v) start (l ++ [p]) v := by
  rw [append_iff] at hs ⊢
  obtain ⟨mid, hl, rfl, -⟩ := hs
  exact ⟨some p, hl.update hp v, rfl, by simp⟩

theorem around (hnd : (a ++ p :: b).Nodup) (hs : Segment next start (a ++ p :: b) stop) :
    match a.getLast? with
    | some q => Segment (Function.update next q (next p)) start (a ++ b) stop
    | none => Segment next (next p) (a ++ b) stop := by
  obtain ⟨mid, ha, hp, hb⟩ := append_iff.1 hs
  rw [List.nodup_append] at hnd
  obtain ⟨hand, hbnd, hdisj⟩ := hnd
  rcases List.eq_nil_or_concat' a with rfl | ⟨a', q, rfl⟩
  · exact hb
  · simp only [List.getLast?_append, List.getLast?_singleton, Option.some_or]
    have hqa : q ∉ a' := by
      rw [List.nodup_append] at hand
      exact fun h => hand.2.2 q h q (List.mem_singleton_self q) rfl
    have hqb : q ∉ b := fun h =>
      hdisj q (by simp) q (List.mem_cons_of_mem p h) rfl
    exact append_iff.2 ⟨next p, ha.retarget hqa _,
      hb.update hqb _⟩

end Segment

theorem Chain.push {next : Nat → Option Nat} {start : Option Nat} {l : List Nat} {p : Nat}
    (hp : p ∉ l) (h : Chain next start l) :
    Chain (Function.update next p start) (some p) (p :: l) := by
  refine ⟨rfl, ?_⟩
  rw [Function.update_self]
  exact h.update hp start

/-! ## Doubly linked lists -/

/-- The links of a list and its two ends. -/
structure Links where
  prev : Nat → Option Nat
  next : Nat → Option Nat
  head : Option Nat
  tail : Option Nat

namespace Links

/-- The links hold exactly the addresses of `l`, each once, in both directions. -/
structure Dll (L : Links) (l : List Nat) : Prop where
  nodup : l.Nodup
  forward : Chain L.next L.head l
  backward : Chain L.prev L.tail l.reverse

/-- The successor of `q`, or the head, becomes `v`. -/
def setNext (L : Links) : Option Nat → Option Nat → Links
  | some q, v => { L with next := Function.update L.next q v }
  | none, v => { L with head := v }

/-- The predecessor of `q`, or the tail, becomes `v`. -/
def setPrev (L : Links) : Option Nat → Option Nat → Links
  | some q, v => { L with prev := Function.update L.prev q v }
  | none, v => { L with tail := v }

/-- Puts `p` in front. -/
def pushFront (L : Links) (p : Nat) : Links where
  prev := match L.head with
    | some q => Function.update (Function.update L.prev p none) q (some p)
    | none => Function.update L.prev p none
  next := Function.update L.next p L.head
  head := some p
  tail := match L.head with
    | some _ => L.tail
    | none => some p

/-- Leads the links around `p`. -/
def unlink (L : Links) (p : Nat) : Links where
  prev := match L.next p with
    | some q => Function.update (Function.update L.prev q (L.prev p)) p none
    | none => Function.update L.prev p none
  next := match L.prev p with
    | some q => Function.update (Function.update L.next q (L.next p)) p none
    | none => Function.update L.next p none
  head := match L.prev p with
    | some _ => L.head
    | none => L.next p
  tail := match L.next p with
    | some _ => L.tail
    | none => L.prev p

variable {L : Links} {a b l : List Nat} {p : Nat}

theorem Dll.head_eq (h : L.Dll l) : L.head = l.head? := h.forward.start_eq

theorem Dll.tail_eq (h : L.Dll l) : L.tail = l.getLast? := by
  rw [h.backward.start_eq, List.head?_reverse]

theorem Dll.next_eq (h : L.Dll (a ++ p :: b)) : L.next p = b.head? := by
  obtain ⟨mid, -, -, hb⟩ := Segment.append_iff.mp h.forward
  exact Segment.start_eq hb

theorem Dll.prev_eq (h : L.Dll (a ++ p :: b)) : L.prev p = a.getLast? := by
  have hback := h.backward
  rw [List.reverse_append, List.reverse_cons, List.append_assoc] at hback
  obtain ⟨mid, -, -, ha⟩ := Segment.append_iff.mp hback
  exact (Segment.start_eq ha).trans List.head?_reverse

theorem Dll.pushFront (h : L.Dll l) (hp : p ∉ l) : (L.pushFront p).Dll (p :: l) where
  nodup := List.nodup_cons.mpr ⟨hp, h.nodup⟩
  forward := h.forward.push hp
  backward := by
    have hback := h.backward
    rw [List.reverse_cons]
    cases l with
    | nil =>
      have hhead : L.head = none := h.head_eq
      simp [Links.pushFront, hhead]
    | cons q l =>
      have hhead : L.head = some q := h.head_eq
      have hqp : q ≠ p := fun hq => hp (hq ▸ List.mem_cons_self)
      rw [List.reverse_cons] at hback ⊢
      simp only [Links.pushFront, hhead]
      have hql : q ∉ l.reverse := by
        rw [List.mem_reverse]
        exact (List.nodup_cons.mp h.nodup).1
      refine Segment.append_iff.mpr ⟨some p, ?_, rfl, ?_⟩
      · have hpl : p ∉ l.reverse ++ [q] := by simpa [eq_comm, and_comm] using hp
        exact (hback.update hpl none).retarget hql (some p)
      · simp [Function.update_of_ne hqp.symm]

theorem Dll.unlink (h : L.Dll (a ++ p :: b)) : (L.unlink p).Dll (a ++ b) := by
  have hprev := h.prev_eq
  have hnext := h.next_eq
  have hnd := h.nodup
  have hp : p ∉ a ++ b := (List.nodup_middle.mp hnd |> List.nodup_cons.mp).1
  have hrev : (a ++ p :: b).reverse = b.reverse ++ p :: a.reverse := by simp
  refine ⟨(List.nodup_middle.mp hnd |> List.nodup_cons.mp).2, ?_, ?_⟩
  · have hforward := h.forward.around hnd
    simp only [Links.unlink, hprev]
    cases hq : a.getLast? with
    | none =>
      rw [hq] at hforward
      exact hforward.update hp none
    | some q =>
      rw [hq] at hforward
      exact hforward.update hp none
  · have hback : Chain L.prev L.tail (b.reverse ++ p :: a.reverse) := hrev ▸ h.backward
    have hback := hback.around (hrev ▸ List.nodup_reverse.mpr hnd)
    rw [List.getLast?_reverse, ← List.reverse_append] at hback
    have hp' : p ∉ (a ++ b).reverse := by rwa [List.mem_reverse]
    simp only [Links.unlink, hnext]
    cases hq : b.head? with
    | none =>
      rw [hq] at hback
      exact hback.update hp' none
    | some q =>
      rw [hq] at hback
      exact hback.update hp' none

end Links

end Ds4.Lib
