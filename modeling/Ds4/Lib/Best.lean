import Mathlib.Order.Defs.LinearOrder
import Mathlib.Data.List.Basic
import Mathlib.Tactic

/-!
# The best element of a scan

A scan keeps the best candidate so far and skips an element that does not beat it before it looks at
the element any closer. `bestStep` is one step of such a scan; the result is a candidate with the
largest key, and there is none only when no element is a candidate (`foldl_bestStep`).
-/

namespace Ds4.Lib

variable {α κ : Type*} [LinearOrder κ] (ok : α → Prop) [DecidablePred ok] (key : α → κ)

/-- One element: it replaces the best one when it beats it and is a candidate. -/
def bestStep (best : Option α) (a : α) : Option α :=
  match best with
  | none => if ok a then some a else none
  | some b => if key a ≤ key b then some b else if ok a then some a else some b

theorem bestStep_of_not {ok : α → Prop} [DecidablePred ok] {key : α → κ} {a : α} (h : ¬ ok a)
    (best : Option α) : bestStep ok key best a = best := by
  cases best with
  | none => exact if_neg h
  | some b => simp [bestStep, h]

/-- What a best candidate of the elements seen is. -/
structure IsBest (seen : List α) (best : Option α) : Prop where
  sound : ∀ b, best = some b → b ∈ seen ∧ ok b
  max : ∀ a ∈ seen, ok a → ∃ b, best = some b ∧ key a ≤ key b

variable {ok key}

theorem IsBest.step {seen : List α} {best : Option α} (h : IsBest ok key seen best) (a : α) :
    IsBest ok key (seen ++ [a]) (bestStep ok key best a) := by
  have hmem : ∀ b, best = some b → b ∈ seen ++ [a] ∧ ok b := fun b hb =>
    ⟨List.mem_append_left _ (h.sound b hb).1, (h.sound b hb).2⟩
  cases best with
  | none =>
    have hseen : ∀ x ∈ seen, ¬ ok x := fun x hx hok => by
      obtain ⟨b, hb, -⟩ := h.max x hx hok
      cases hb
    by_cases ha : ok a
    · simp only [bestStep, if_pos ha]
      refine ⟨by rintro b ⟨⟩; exact ⟨by simp, ha⟩, fun x hx hok => ⟨a, rfl, ?_⟩⟩
      rcases List.mem_append.mp hx with hx | hx
      · exact absurd hok (hseen x hx)
      · rw [List.mem_singleton.mp hx]
    · simp only [bestStep, if_neg ha]
      refine ⟨by simp, fun x hx hok => ?_⟩
      rcases List.mem_append.mp hx with hx | hx
      · exact absurd hok (hseen x hx)
      · exact absurd (List.mem_singleton.mp hx ▸ hok) ha
  | some b =>
    have hmax : ∀ x ∈ seen, ok x → key x ≤ key b := fun x hx hok => by
      obtain ⟨_, hb, hle⟩ := h.max x hx hok
      cases hb
      exact hle
    by_cases hle : key a ≤ key b
    · simp only [bestStep, if_pos hle]
      refine ⟨hmem, fun x hx hok => ⟨b, rfl, ?_⟩⟩
      rcases List.mem_append.mp hx with hx | hx
      · exact hmax x hx hok
      · rwa [List.mem_singleton.mp hx]
    · by_cases ha : ok a
      · simp only [bestStep, if_neg hle, if_pos ha]
        refine ⟨by rintro b ⟨⟩; exact ⟨by simp, ha⟩, fun x hx hok => ⟨a, rfl, ?_⟩⟩
        rcases List.mem_append.mp hx with hx | hx
        · exact (hmax x hx hok).trans (not_le.mp hle).le
        · rw [List.mem_singleton.mp hx]
      · simp only [bestStep, if_neg hle, if_neg ha]
        refine ⟨hmem, fun x hx hok => ⟨b, rfl, ?_⟩⟩
        rcases List.mem_append.mp hx with hx | hx
        · exact hmax x hx hok
        · exact absurd (List.mem_singleton.mp hx ▸ hok) ha

/-- **The scan.** It ends with a best candidate of all elements. -/
theorem foldl_bestStep (ok : α → Prop) [DecidablePred ok] (key : α → κ) (l : List α) :
    IsBest ok key l (l.foldl (bestStep ok key) none) := by
  have hrun : ∀ (l seen : List α) (best : Option α), IsBest ok key seen best →
      IsBest ok key (seen ++ l) (l.foldl (bestStep ok key) best) := by
    intro l
    induction l with
    | nil =>
      intro seen best h
      simpa using h
    | cons a l ih =>
      intro seen best h
      simpa using ih _ _ (h.step a)
  exact hrun l [] none ⟨by simp, by simp⟩

omit [DecidablePred ok] in
theorem IsBest.eq_none_iff {seen : List α} {best : Option α} (h : IsBest ok key seen best) :
    best = none ↔ ∀ a ∈ seen, ¬ ok a := by
  constructor
  · rintro rfl a ha hok
    obtain ⟨b, hb, -⟩ := h.max a ha hok
    cases hb
  · intro hall
    cases best with
    | none => rfl
    | some b => exact absurd (h.sound b rfl).2 (hall b (h.sound b rfl).1)

/-- **The first of the best.** A candidate in front of the result has a smaller key. -/
theorem foldl_bestStep_first (ok : α → Prop) [DecidablePred ok] (key : α → κ) {l : List α} {b : α}
    (h : l.foldl (bestStep ok key) none = some b) :
    ∃ front back, l = front ++ b :: back ∧ ∀ a ∈ front, ok a → key a < key b := by
  induction l using List.reverseRecOn with
  | nil => cases h
  | append_singleton l x ih =>
    rw [List.foldl_append, List.foldl_cons, List.foldl_nil] at h
    have hbest := foldl_bestStep ok key l
    cases hl : l.foldl (bestStep ok key) none with
    | none =>
      rw [hl] at h hbest
      simp only [bestStep, Option.ite_none_right_eq_some, Option.some.injEq] at h
      obtain ⟨-, rfl⟩ := h
      exact ⟨l, [], rfl, fun a ha hok => absurd hok (hbest.eq_none_iff.mp rfl a ha)⟩
    | some c =>
      have hkept : c = b → ∃ front back, l ++ [x] = front ++ b :: back ∧
          ∀ a ∈ front, ok a → key a < key b := by
        rintro rfl
        obtain ⟨front, back, rfl, hfront⟩ := ih hl
        exact ⟨front, back ++ [x], by simp, hfront⟩
      rw [hl] at h hbest
      simp only [bestStep] at h
      split_ifs at h with hle hok
      · exact hkept (Option.some.inj h)
      · obtain rfl := Option.some.inj h
        refine ⟨l, [], rfl, fun a ha haok => ?_⟩
        obtain ⟨_, hc, hac⟩ := hbest.max a ha haok
        obtain rfl := Option.some.inj hc
        exact hac.trans_lt (not_le.mp hle)
      · exact hkept (Option.some.inj h)

/-! ## The element that nothing beats -/

/-- **A scan that changes to what beats its choice** ends with an element that no other beats. -/
theorem foldl_unbeaten {β : Type*} (beats : β → β → Prop) [DecidableRel beats]
    (irrefl : ∀ a, ¬ beats a a) (trans : ∀ a b c, beats a b → beats b c → beats a c) (s : β) (l : List β) :
    let r := l.foldl (fun best a => if beats a best then a else best) s
    r ∈ s :: l ∧ (r = s ∨ beats r s) ∧ ∀ a ∈ l, ¬ beats a r := by
  induction l generalizing s with
  | nil => exact ⟨List.mem_cons_self, .inl rfl, by simp⟩
  | cons x l ih =>
    obtain ⟨hmem, hbetter, hrest⟩ := ih (if beats x s then x else s)
    rw [List.foldl_cons]
    generalize l.foldl _ _ = r at hmem hbetter hrest ⊢
    dsimp only at hmem hbetter hrest ⊢
    have htail : ¬ beats x r → ∀ a ∈ x :: l, ¬ beats a r := fun hx a ha =>
      (List.mem_cons.mp ha).elim (fun h => h ▸ hx) (hrest a)
    split_ifs at hmem hbetter with hx
    · refine ⟨List.mem_cons_of_mem s hmem, .inr ?_, htail ?_⟩
      · rcases hbetter with rfl | hb
        · exact hx
        · exact trans _ _ _ hb hx
      · rcases hbetter with rfl | hb
        · exact irrefl r
        · exact fun hxr => irrefl x (trans _ _ _ hxr hb)
    · refine ⟨?_, hbetter, htail ?_⟩
      · rcases List.mem_cons.mp hmem with rfl | hmem
        · exact List.mem_cons_self
        · exact List.mem_cons_of_mem s (List.mem_cons_of_mem x hmem)
      · rcases hbetter with rfl | hb
        · exact hx
        · exact fun hxr => hx (trans _ _ _ hxr hb)

end Ds4.Lib
