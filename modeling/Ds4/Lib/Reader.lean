import Ds4.Lib.Search

/-!
# Readers

A reader takes a value off the front of a text. `readAll stop item` reads items until `stop` takes
the text over; `Many` is the relation it computes, by which proofs go. `ReadsAs` says that a reader
takes exactly `x` whatever acceptable text follows.
-/

namespace Ds4.Lib

/-- A reader of values: the value and the text behind it. -/
abbrev Reader (α : Type*) := Bytes → Option (α × Bytes)

variable {α β : Type*}

/-- Every value takes at least a byte off the front. -/
def Consumes (f : Reader α) : Prop := ∀ p a r, f p = some (a, r) → ∃ x, x ≠ [] ∧ p = x ++ r

/-- `f` takes exactly `x` and reads `a` there, whatever text of `ok` follows. -/
def ReadsAs (ok : Bytes → Prop) (f : Reader α) (x : Bytes) (a : α) : Prop :=
  ∀ r, ok r → f (x ++ r) = some (a, r)

theorem Consumes.comp {f : Reader α} (hf : Consumes f) {skip : Bytes → Bytes}
    (hskip : ∀ p, skip p <:+ p) : Consumes fun p => f (skip p) := by
  intro p a r h
  obtain ⟨x, hx, hp⟩ := hf _ _ _ h
  obtain ⟨w, hw⟩ := hskip p
  exact ⟨w ++ x, by simp [hx], by rw [← hw, hp, List.append_assoc]⟩

/-- From a text with `P`, the reader takes values with `Q` and leaves a text with `P`. -/
def Preserves (P : Bytes → Prop) (f : Reader α) (Q : α → Prop) : Prop :=
  ∀ p a r, P p → f p = some (a, r) → Q a ∧ P r

/-! ## Repetition -/

/-- Items until `stop` takes over, at most `n` of them. -/
def readMany (stop : Bytes → Option Bytes) (item : Reader α) : Nat → Reader (List α)
  | 0, _ => none
  | n + 1, p =>
    match stop p with
    | some r => some ([], r)
    | none =>
      match item p with
      | some (a, q) => (readMany stop item n q).map fun (as, r) => (a :: as, r)
      | none => none

/-- Items until `stop` takes over. -/
def readAll (stop : Bytes → Option Bytes) (item : Reader α) : Reader (List α) := fun p =>
  readMany stop item (p.length + 1) p

/-- The items in front of the place where `stop` takes over. -/
inductive Many (stop : Bytes → Option Bytes) (item : Reader α) : Bytes → List α → Bytes → Prop
  | nil {p r : Bytes} : stop p = some r → Many stop item p [] r
  | cons {p q r : Bytes} {a : α} {as : List α} : stop p = none → item p = some (a, q) →
      Many stop item q as r → Many stop item p (a :: as) r

section Many

variable {stop : Bytes → Option Bytes} {item : Reader α}

theorem many_of_readMany {n : Nat} {p r : Bytes} {as : List α}
    (h : readMany stop item n p = some (as, r)) : Many stop item p as r := by
  induction n generalizing p as with
  | zero => simp [readMany] at h
  | succ n ih =>
    rw [readMany] at h
    split at h
    · next hs =>
      obtain ⟨rfl, rfl⟩ : [] = as ∧ _ = r := by simpa using h
      exact .nil hs
    · next hs =>
      split at h
      · next a q hi =>
        obtain ⟨⟨as', r'⟩, hm, he⟩ := Option.map_eq_some_iff.mp h
        obtain ⟨rfl, rfl⟩ : a :: as' = as ∧ r' = r := by simpa using he
        exact .cons hs hi (ih hm)
      · simp at h

theorem readMany_of_many (hc : Consumes item) {n : Nat} {p r : Bytes} {as : List α}
    (h : Many stop item p as r) (hn : p.length < n) :
    readMany stop item n p = some (as, r) := by
  induction h generalizing n with
  | nil hs =>
    cases n with
    | zero => omega
    | succ n => simp [readMany, hs]
  | cons hs hi _ ih =>
    cases n with
    | zero => omega
    | succ n =>
      obtain ⟨x, hx, rfl⟩ := hc _ _ _ hi
      have hpos : 0 < x.length := List.length_pos_of_ne_nil hx
      rw [List.length_append] at hn
      simp [readMany, hs, hi, ih (n := n) (by omega)]

theorem readAll_eq_some (hc : Consumes item) {p r : Bytes} {as : List α} :
    readAll stop item p = some (as, r) ↔ Many stop item p as r :=
  ⟨many_of_readMany, fun h => readMany_of_many hc h (by omega)⟩

theorem readAll_mono {item' : Reader α} (hc : Consumes item')
    (hi : ∀ p x, item p = some x → item' p = some x) {p : Bytes} {x : List α × Bytes}
    (h : readAll stop item p = some x) : readAll stop item' p = some x := by
  obtain ⟨as, r⟩ := x
  have hm := many_of_readMany h
  refine (readAll_eq_some hc).mpr ?_
  clear h
  induction hm with
  | nil hs => exact .nil hs
  | cons hs h _ ih => exact .cons hs (hi _ _ h) ih

theorem preserves_readAll {P : Bytes → Prop} {Q : α → Prop}
    (hs : ∀ p r, P p → stop p = some r → P r) (hi : Preserves P item Q) :
    Preserves P (readAll stop item) fun as => ∀ a ∈ as, Q a := by
  intro p as r hp h
  have hm := many_of_readMany h
  clear h
  induction hm with
  | nil h => exact ⟨by simp, hs _ _ hp h⟩
  | cons _ h _ ih =>
    obtain ⟨ha, hq⟩ := hi _ _ _ hp h
    obtain ⟨has, hr⟩ := ih hq
    refine ⟨fun b hb => ?_, hr⟩
    rcases List.mem_cons.mp hb with rfl | hb
    · exact ha
    · exact has b hb

theorem suffix_of_many (hc : Consumes item) (hs : ∀ p r, stop p = some r → r <:+ p)
    {p r : Bytes} {as : List α} (h : Many stop item p as r) : r <:+ p := by
  induction h with
  | nil h => exact hs _ _ h
  | cons _ hi _ ih =>
    obtain ⟨x, -, rfl⟩ := hc _ _ _ hi
    exact ih.trans (List.suffix_append _ _)

end Many

end Ds4.Lib
