import Ds4.Lib.Links

/-!
# Queues of nodes

A queue is a singly linked list with a pointer to its first and to its last node. `Holds q l` says that it
links exactly the addresses `l`, in order. Pushing appends a node, popping takes the first one, and any node
can be taken out once the loop over the links has found it with its predecessor.
-/

namespace Ds4.Lib

/-- The links of a queue. -/
structure Fifo where
  next : Nat → Option Nat
  head : Option Nat
  tail : Option Nat

namespace Fifo

def empty : Fifo := ⟨fun _ => none, none, none⟩

/-- A fresh node is put behind the last one. -/
def push (q : Fifo) (p : Nat) : Fifo where
  next := match q.tail with
    | some t => Function.update (Function.update q.next p none) t (some p)
    | none => Function.update q.next p none
  head := match q.tail with
    | some _ => q.head
    | none => some p
  tail := some p

/-- The first node is taken out. -/
def pop (q : Fifo) (p : Nat) : Fifo where
  next := q.next
  head := q.next p
  tail := match q.next p with
    | some _ => q.tail
    | none => none

/-- A node behind another one, or behind none, is taken out. -/
def remove (q : Fifo) (prev : Option Nat) (p : Nat) : Fifo where
  next := match prev with
    | some r => Function.update q.next r (q.next p)
    | none => q.next
  head := match prev with
    | some _ => q.head
    | none => q.next p
  tail := if q.tail = some p then prev else q.tail

/-- The loop that looks for a node, `fuel` links at most, with the node in front of it. -/
def find (q : Fifo) (test : Nat → Bool) : Nat → Option Nat → Option Nat → Option (Option Nat × Nat)
  | 0, _, _ => none
  | _ + 1, _, none => none
  | fuel + 1, prev, some p => if test p then some (prev, p) else find q test fuel (some p) (q.next p)

/-- The queue holds exactly the addresses of `l`. -/
structure Holds (q : Fifo) (l : List Nat) : Prop where
  nodup : l.Nodup
  forward : Chain q.next q.head l
  last : q.tail = l.getLast?

variable {q : Fifo} {l a b : List Nat} {p : Nat}

theorem holds_empty : empty.Holds [] := ⟨List.nodup_nil, rfl, rfl⟩

theorem Holds.head_eq (h : q.Holds l) : q.head = l.head? := h.forward.start_eq

theorem Holds.push (h : q.Holds l) (hp : p ∉ l) : (q.push p).Holds (l ++ [p]) where
  nodup := by
    rw [List.nodup_append]
    refine ⟨h.nodup, List.nodup_singleton p, fun x hx y hy heq => ?_⟩
    rw [List.mem_singleton] at hy
    exact hp (hy ▸ heq ▸ hx)
  forward := by
    have hlast := h.last
    rcases List.eq_nil_or_concat' l with rfl | ⟨l, t, rfl⟩
    · have htail : q.tail = none := hlast
      simp [Fifo.push, htail]
    · have htail : q.tail = some t := by simpa using hlast
      have hnd := h.nodup
      rw [List.nodup_append] at hnd
      have htl : t ∉ l := fun ht => hnd.2.2 t ht t (by simp) rfl
      have hpt : p ≠ t := fun heq => hp (by simp [heq])
      simp only [Fifo.push, htail]
      refine Segment.append_iff.mpr ⟨some p, (h.forward.update hp none).retarget htl (some p), rfl, ?_⟩
      simp [Function.update_of_ne hpt]
  last := by simp [Fifo.push]

theorem Holds.pop (h : q.Holds (p :: l)) : (q.pop p).Holds l where
  nodup := (List.nodup_cons.mp h.nodup).2
  forward := h.forward.2
  last := by
    have hnext : q.next p = l.head? := Segment.start_eq h.forward.2
    have hlast := h.last
    cases l with
    | nil => simp [Fifo.pop, show q.next p = none from hnext]
    | cons r l => simp [Fifo.pop, show q.next p = some r from hnext, hlast]

theorem Holds.remove (h : q.Holds (a ++ p :: b)) : (q.remove a.getLast? p).Holds (a ++ b) where
  nodup := (List.nodup_cons.mp (List.nodup_middle.mp h.nodup)).2
  forward := by
    have haround := Segment.around h.nodup h.forward
    rcases List.eq_nil_or_concat' a with rfl | ⟨a, r, rfl⟩
    · simpa [Fifo.remove] using haround
    · simpa [Fifo.remove] using haround
  last := by
    have hlast := h.last
    have hp : p ∉ a ++ b := (List.nodup_cons.mp (List.nodup_middle.mp h.nodup)).1
    rcases List.eq_nil_or_concat' b with rfl | ⟨b, r, rfl⟩
    · have htail : q.tail = some p := by simpa using hlast
      simp [Fifo.remove, htail]
    · have htail : q.tail = some r := by
        rw [hlast]
        simp [List.getLast?_append, List.getLast?_cons]
      have hne : r ≠ p := fun heq => hp (by simp [heq])
      simp [Fifo.remove, htail, hne]

theorem find_segment {test : Nat → Bool} {start : Option Nat} {fuel : Nat} (hchain : Chain q.next start l)
    (hfuel : l.length ≤ fuel) (prev : Option Nat) :
    (q.find test fuel prev start = none ∧ ∀ p ∈ l, test p = false) ∨
      ∃ a p b, l = a ++ p :: b ∧ test p = true ∧ (∀ r ∈ a, test r = false) ∧
        q.find test fuel prev start = some (a.getLast?.or prev, p) := by
  induction l generalizing start fuel prev with
  | nil =>
    left
    obtain rfl : start = none := hchain
    cases fuel <;> exact ⟨rfl, nofun⟩
  | cons x l ih =>
    obtain ⟨rfl, hrest⟩ := hchain
    cases fuel with
    | zero => exact absurd hfuel (by simp)
    | succ fuel =>
      rw [find]
      cases hx : test x with
      | true =>
        right
        exact ⟨[], x, l, rfl, hx, nofun, by simp⟩
      | false =>
        rw [if_neg Bool.false_ne_true]
        rcases ih hrest (by simpa using hfuel) (some x) with ⟨hnone, hall⟩ | ⟨a, p, b, rfl, hp, ha, hfind⟩
        · left
          refine ⟨hnone, fun r hr => ?_⟩
          rcases List.mem_cons.mp hr with rfl | hr
          · exact hx
          · exact hall r hr
        · right
          refine ⟨x :: a, p, b, rfl, hp, fun r hr => ?_, ?_⟩
          · rcases List.mem_cons.mp hr with rfl | hr
            · exact hx
            · exact ha r hr
          · rw [hfind, List.getLast?_cons]
            cases a.getLast? <;> rfl

theorem Holds.find (h : q.Holds l) {fuel : Nat} (hfuel : l.length ≤ fuel) (test : Nat → Bool) :
    (q.find test fuel none q.head = none ∧ ∀ p ∈ l, test p = false) ∨
      ∃ a p b, l = a ++ p :: b ∧ test p = true ∧ (∀ r ∈ a, test r = false) ∧
        q.find test fuel none q.head = some (a.getLast?, p) := by
  have hfind := @find_segment q l test q.head fuel h.forward hfuel none
  simpa only [Option.or_none] using hfind

end Fifo

end Ds4.Lib
