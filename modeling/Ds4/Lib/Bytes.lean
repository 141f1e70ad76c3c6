import Mathlib.Data.UInt
import Mathlib.Data.List.Infix
import Mathlib.Data.List.TakeWhile
import Mathlib.Tactic

/-!
# Byte strings

Texts are lists of bytes; `lit` is a source literal as its UTF-8 bytes, and `isSpace` is `isspace`
in the C locale.
-/

namespace Ds4.Lib

/-- A byte string. -/
abbrev Bytes := List UInt8

/-- What is said of the bytes of a text is decided on the text, not on all bytes. -/
instance (priority := high) decidableForallMem (b : Bytes) (p : UInt8 → Prop) [DecidablePred p] :
    Decidable (∀ c ∈ b, p c) := List.decidableBAll p b

theorem forall_byte {P : UInt8 → Prop} (h : ∀ n : Fin 256, P (.ofNat n)) (c : UInt8) : P c := by
  have := h ⟨c.toNat, c.toNat_lt⟩
  simpa using this

/-- The bytes of a literal. -/
def lit (s : String) : Bytes := s.toUTF8.data.toList

/-- `isspace` in the C locale. -/
def isSpace (c : UInt8) : Bool := c == 32 || (9 ≤ c && c ≤ 13)

section TakeDrop

variable {α : Type*} {p : α → Bool}

theorem takeWhile_append_stop {l r : List α} (hl : ∀ a ∈ l, p a = true)
    (hr : ∀ a, r.head? = some a → p a = false) : (l ++ r).takeWhile p = l := by
  induction l with
  | nil =>
    cases r with
    | nil => rfl
    | cons a r => exact List.takeWhile_cons_of_neg (by simp [hr a rfl])
  | cons a l ih =>
    rw [List.cons_append, List.takeWhile_cons_of_pos (hl a (by simp)),
      ih fun b hb => hl b (by simp [hb])]

theorem dropWhile_append_stop {l r : List α} (hl : ∀ a ∈ l, p a = true)
    (hr : ∀ a, r.head? = some a → p a = false) : (l ++ r).dropWhile p = r := by
  have h := List.takeWhile_append_dropWhile (p := p) (l := l ++ r)
  rw [takeWhile_append_stop hl hr] at h
  exact List.append_cancel_left h

theorem dropWhile_append_all {l r : List α} (hl : ∀ a ∈ l, p a = true) :
    (l ++ r).dropWhile p = r.dropWhile p := by
  induction l with
  | nil => rfl
  | cons a l ih =>
    rw [List.cons_append, List.dropWhile_cons_of_pos (hl a (by simp)),
      ih fun b hb => hl b (by simp [hb])]

theorem head_of_dropWhile {l r : List α} {a : α} (h : l.dropWhile p = a :: r) : p a = false := by
  have hne : l.dropWhile p ≠ [] := by simp [h]
  simpa [h] using List.head_dropWhile_not p hne

theorem dropWhile_append_of_ne_nil {l : List α} (h : l.dropWhile p ≠ []) (r : List α) :
    (l ++ r).dropWhile p = l.dropWhile p ++ r := by
  induction l with
  | nil => exact absurd rfl h
  | cons a l ih =>
    rw [List.cons_append]
    by_cases ha : p a = true
    · rw [List.dropWhile_cons_of_pos ha] at h ⊢
      rw [List.dropWhile_cons_of_pos ha, ih h]
    · rw [List.dropWhile_cons_of_neg ha, List.dropWhile_cons_of_neg ha, List.cons_append]

end TakeDrop

theorem append_cons_inj_left {α : Type*} {a b a' b' : List α} {c : α} (ha : c ∉ a) (ha' : c ∉ a')
    (h : a ++ c :: b = a' ++ c :: b') : a = a' ∧ b = b' := by
  induction a generalizing a' with
  | nil =>
    cases a' with
    | nil => exact ⟨rfl, (List.cons.inj h).2⟩
    | cons d a' => exact absurd ((List.cons.inj h).1 ▸ List.mem_cons_self) ha'
  | cons d a ih =>
    cases a' with
    | nil => exact absurd ((List.cons.inj h).1 ▸ List.mem_cons_self) ha
    | cons d' a' =>
      obtain ⟨hd, ht⟩ := List.cons.inj h
      obtain ⟨hl, hr⟩ :=
        ih (fun hc => ha (List.mem_cons_of_mem d hc)) (fun hc => ha' (List.mem_cons_of_mem d' hc)) ht
      exact ⟨by rw [hd, hl], hr⟩

theorem append_cons_inj_right {α : Type*} {a b a' b' : List α} {c : α} (hb : c ∉ b) (hb' : c ∉ b')
    (h : a ++ c :: b = a' ++ c :: b') : a = a' ∧ b = b' := by
  have hrev : b.reverse ++ c :: a.reverse = b'.reverse ++ c :: a'.reverse := by
    simpa using congrArg List.reverse h
  have := append_cons_inj_left (by simpa) (by simpa) hrev
  exact ⟨List.reverse_inj.mp this.2, List.reverse_inj.mp this.1⟩

theorem infix_append_cons_iff {α : Type*} {u a b : List α} {c : α} (hc : c ∉ u) :
    u <:+: a ++ c :: b ↔ u <:+: a ∨ u <:+: b := by
  constructor
  · rintro ⟨s, t, h⟩
    rcases List.append_eq_append_iff.mp h with ⟨a', ha, -⟩ | ⟨c', hsu, hbt⟩
    · exact .inl ⟨s, a', ha.symm⟩
    · cases c' with
      | nil => exact .inl ⟨s, [], by simpa using hsu⟩
      | cons d c' =>
        obtain ⟨rfl, rfl⟩ : c = d ∧ b = c' ++ t := by simpa using hbt
        rcases List.append_eq_append_iff.mp hsu with ⟨a', -, hu'⟩ | ⟨s', hs, hcc⟩
        · exact absurd (hu' ▸ by simp) hc
        · cases s' with
          | nil =>
            rw [List.nil_append] at hcc
            exact absurd (hcc ▸ by simp) hc
          | cons d s' =>
            obtain ⟨rfl, rfl⟩ : c = d ∧ c' = s' ++ u := by simpa using hcc
            exact .inr ⟨s', t, rfl⟩
  · rintro (h | h)
    · exact h.trans (List.prefix_append _ _).isInfix
    · exact h.trans ((List.suffix_cons c b).trans (List.suffix_append a _)).isInfix

/-! ## Steps that may fail -/

theorem bind_ok {ε α β : Type} {x : Except ε α} {f : α → Except ε β} {b : β} :
    (x >>= f) = .ok b ↔ ∃ a, x = .ok a ∧ f a = .ok b := by
  cases x with
  | error e => simp [bind, Except.bind]
  | ok a => simp [bind, Except.bind]

end Ds4.Lib
