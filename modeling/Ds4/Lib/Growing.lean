import Mathlib.Data.List.Chain
import Mathlib.Tactic

/-!
# Readers of a growing text

A reader sees a text that grows at its end, and remembers where it stands. Each turn either goes on
to a place further behind or stops, and the reader stops where only more text can help. When a turn
that goes on is the same in every longer text, and a reader that stopped takes the turn that it
would have taken from where it stood (`Reader`), then a reader that was shown a text in pieces stands
where it stands after the whole text (`Reader.follow`).
-/

namespace Ds4.Lib.Growing

variable {α σ δ : Type*} (turn : List α → σ → σ ⊕ (σ × δ))

/-- The turns of a reader, at most `n` of them. -/
def read : Nat → List α → σ → Option (σ × δ)
  | 0, _, _ => none
  | n + 1, t, s =>
    match turn t s with
    | .inl s' => read n t s'
    | .inr r => some r

/-- The turns of a reader up to its stop. A turn for each byte and one to stop are enough. -/
def readAll (t : List α) (s : σ) : Option (σ × δ) := read turn (t.length + 1) t s

/-- A reader that is shown one text after the other. -/
def follow (texts : List (List α)) (r : σ × δ) : σ × δ :=
  texts.foldl (fun r t => (readAll turn t r.1).getD r) r

/-- What makes a reader independent of the pieces. `Ok t s` says that the reader may stand at `s` in
the text `t`, at the position `pos s` of it. -/
structure Reader (pos : σ → Nat) (Ok : List α → σ → Prop) : Prop where
  pos_le : ∀ {t s}, Ok t s → pos s ≤ t.length
  ok_append : ∀ {t s} (u), Ok t s → Ok (t ++ u) s
  go : ∀ {t s s'}, Ok t s → turn t s = .inl s' → Ok t s' ∧ pos s < pos s'
  go_append : ∀ {t s s'} (u), Ok t s → turn t s = .inl s' → turn (t ++ u) s = .inl s'
  stop : ∀ {t s s' d}, Ok t s → turn t s = .inr (s', d) → Ok t s'
  stop_append : ∀ {t s s' d} (u), Ok t s → turn t s = .inr (s', d) → turn (t ++ u) s' = turn (t ++ u) s

variable {turn}

theorem read_mono {n m : Nat} {t : List α} {s : σ} {r : σ × δ} (h : read turn n t s = some r)
    (hnm : n ≤ m) : read turn m t s = some r := by
  induction n generalizing m s with
  | zero => cases h
  | succ n ih =>
    obtain ⟨m, rfl⟩ := Nat.exists_eq_add_of_le' (Nat.one_le_of_lt hnm)
    rw [read] at h ⊢
    cases ht : turn t s with
    | inl s' =>
      rw [ht] at h
      exact ih h (by omega)
    | inr r' =>
      rw [ht] at h
      exact h

namespace Reader

variable {pos : σ → Nat} {Ok : List α → σ → Prop}

theorem exists_read (h : Reader turn pos Ok) {n : Nat} {t : List α} {s : σ} (hs : Ok t s)
    (hn : t.length - pos s < n) : ∃ r, read turn n t s = some r ∧ Ok t r.1 := by
  induction n generalizing s with
  | zero => omega
  | succ n ih =>
    rw [read]
    cases ht : turn t s with
    | inl s' =>
      obtain ⟨hs', hlt⟩ := h.go hs ht
      have := h.pos_le hs'
      exact ih hs' (by omega)
    | inr r => exact ⟨r, rfl, h.stop hs ht⟩

theorem exists_readAll (h : Reader turn pos Ok) {t : List α} {s : σ} (hs : Ok t s) :
    ∃ r, readAll turn t s = some r ∧ Ok t r.1 :=
  h.exists_read hs (by omega)

/-- **Resuming.** From where the reader stopped in a text it reads every longer text as from where
it began. -/
theorem readAll_append (h : Reader turn pos Ok) {t : List α} {s : σ} {r : σ × δ} (hs : Ok t s)
    (hr : readAll turn t s = some r) (u : List α) :
    readAll turn (t ++ u) r.1 = readAll turn (t ++ u) s := by
  -- the induction is on the turns that were taken in the shorter text
  have key : ∀ n s, Ok t s → read turn n t s = some r →
      ∃ k, ∀ m, read turn m (t ++ u) r.1 = read turn (m + k) (t ++ u) s := by
    intro n
    induction n with
    | zero => intro s _ hn; cases hn
    | succ n ih =>
      intro s hs hn
      rw [read] at hn
      cases ht : turn t s with
      | inl s' =>
        rw [ht] at hn
        obtain ⟨k, hk⟩ := ih s' (h.go hs ht).1 hn
        refine ⟨k + 1, fun m => ?_⟩
        rw [hk, ← Nat.add_assoc, read, h.go_append u hs ht]
      | inr r' =>
        rw [ht] at hn
        obtain rfl := Option.some.inj hn
        refine ⟨0, fun m => ?_⟩
        cases m with
        | zero => rfl
        | succ m => rw [Nat.add_zero, read, read, h.stop_append u hs ht]
  obtain ⟨k, hk⟩ := key _ s hs hr
  obtain ⟨r', hr', -⟩ := h.exists_readAll (h.ok_append u hs)
  obtain ⟨r0, hr0, hok⟩ := h.exists_readAll hs
  obtain rfl : r0 = r := Option.some.inj (hr0.symm.trans hr)
  obtain ⟨r'', hr'', -⟩ := h.exists_readAll (h.ok_append u hok)
  have h1 : read turn ((t ++ u).length + 1 + k) (t ++ u) s = some r'' := by
    rw [← hk]
    exact hr''
  have h2 := read_mono hr' (Nat.le_add_right ((t ++ u).length + 1) k)
  rw [hr'', hr', ← Option.some.inj (h1.symm.trans h2)]

/-- **Pieces.** A reader that is shown growing texts stands where it stands after the last one. -/
theorem follow (h : Reader turn pos Ok) {texts : List (List α)} {last : List α} {r : σ × δ}
    (hchain : (texts ++ [last]).IsChain (· <+: ·)) (hs : ∀ t ∈ texts ++ [last], Ok t r.1) :
    follow turn (texts ++ [last]) r = follow turn [last] r := by
  induction texts generalizing r with
  | nil => rfl
  | cons t texts ih =>
    have hpre : ∀ t' ∈ texts ++ [last], t <+: t' := by
      intro t' ht'
      exact List.rel_of_pairwise_cons hchain.pairwise ht'
    obtain ⟨r', hr', hok⟩ := h.exists_readAll (hs t (by simp))
    have hstep : Growing.follow turn (t :: texts ++ [last]) r =
        Growing.follow turn (texts ++ [last]) r' := by
      rw [Growing.follow, Growing.follow, List.cons_append, List.foldl_cons, hr']
      rfl
    rw [hstep, ih hchain.of_cons fun t' ht' => ?_]
    · obtain ⟨u, rfl⟩ := hpre last (by simp)
      obtain ⟨r'', hr'', -⟩ := h.exists_readAll (hs (t ++ u) (by simp))
      have hres := h.readAll_append (hs t (by simp)) hr' u
      rw [hr''] at hres
      simp only [Growing.follow, List.foldl_cons, List.foldl_nil, hr'', hres, Option.getD_some]
    · obtain ⟨u, rfl⟩ := hpre t' ht'
      exact h.ok_append u hok

end Reader

end Ds4.Lib.Growing
