import Ds4.Lib.Bytes

/-!
# Word conversions

`scanWord n` is the conversion `%ns` of `sscanf`: it skips white space and reads a non-empty run of
at most `n` other bytes. `scanWords` is a format of such conversions up to the first that fails.
A format reads a text in front of a space on its own, and goes on with what is behind the space
(`scanWords_append`).
-/

namespace Ds4.Lib

/-- `%ns`: the word and what is left. -/
def scanWord (n : Nat) (s : Bytes) : Option (Bytes × Bytes) :=
  let t := s.dropWhile isSpace
  let w := (t.takeWhile (fun c => !isSpace c)).take n
  if w = [] then none else some (w, t.drop w.length)

/-- The words that a format of `%ns` conversions reads. -/
def scanWords : List Nat → Bytes → List Bytes
  | [], _ => []
  | n :: ns, s =>
    match scanWord n s with
    | none => []
    | some (w, rest) => w :: scanWords ns rest

/-- A word of a file: not empty and without white space. -/
structure Word (w : Bytes) : Prop where
  ne_nil : w ≠ []
  no_space : ∀ c ∈ w, isSpace c = false

theorem scanWord_word {n : Nat} {w rest : Bytes} (hw : Word w) (hn : w.length ≤ n)
    (hrest : ∀ c, rest.head? = some c → isSpace c = true) :
    scanWord n (w ++ rest) = some (w, rest) := by
  have hdrop : (w ++ rest).dropWhile isSpace = w ++ rest := by
    obtain ⟨c, w', rfl⟩ := List.exists_cons_of_ne_nil hw.ne_nil
    rw [List.cons_append]
    exact List.dropWhile_cons_of_neg (by simp [hw.no_space c (by simp)])
  have htake : (w ++ rest).takeWhile (fun c => !isSpace c) = w :=
    takeWhile_append_stop (fun c hc => by simp [hw.no_space c hc])
      fun c hc => by simp [hrest c hc]
  unfold scanWord
  rw [hdrop]
  simp only [htake, List.take_of_length_le hn, if_neg hw.ne_nil, List.drop_left]

theorem scanWord_skip {n : Nat} {g s : Bytes} (hg : ∀ c ∈ g, isSpace c = true) :
    scanWord n (g ++ s) = scanWord n s := by
  unfold scanWord
  rw [dropWhile_append_all hg]

@[simp] theorem scanWord_space (n : Nat) (s : Bytes) : scanWord n (32 :: s) = scanWord n s :=
  scanWord_skip (g := [32]) (by simp [isSpace])

theorem scanWord_word_space {n : Nat} {w : Bytes} (hw : Word w) (hn : w.length ≤ n) (rest : Bytes) :
    scanWord n (w ++ 32 :: rest) = some (w, 32 :: rest) := by
  refine scanWord_word hw hn fun c hc => ?_
  obtain rfl : 32 = c := by simpa using hc
  rfl

theorem scanWord_append {n : Nat} (hn : 0 < n) (s rest : Bytes) :
    (scanWord n s = none ∧ scanWord n (s ++ 32 :: rest) = scanWord n rest) ∨
      ∃ w s', scanWord n s = some (w, s') ∧
        scanWord n (s ++ 32 :: rest) = some (w, s' ++ 32 :: rest) := by
  by_cases hs : s.dropWhile isSpace = []
  · have hall : ∀ c ∈ s, isSpace c = true := List.dropWhile_eq_nil_iff.mp hs
    refine .inl ⟨by simp [scanWord, hs], ?_⟩
    rw [scanWord_skip hall, scanWord_space]
  · obtain ⟨c, t, hct⟩ := List.exists_cons_of_ne_nil hs
    have hc : isSpace c = false := head_of_dropWhile hct
    have htake : (s.dropWhile isSpace ++ 32 :: rest).takeWhile (fun c => !isSpace c) =
        (s.dropWhile isSpace).takeWhile (fun c => !isSpace c) := by
      conv_lhs => rw [← List.takeWhile_append_dropWhile (p := fun c => !isSpace c)
        (l := s.dropWhile isSpace), List.append_assoc]
      refine takeWhile_append_stop
        (fun a ha => List.mem_takeWhile_imp (p := fun c => !isSpace c) ha) fun a ha => ?_
      cases hd : (s.dropWhile isSpace).dropWhile (fun c => !isSpace c) with
      | nil =>
        rw [hd] at ha
        simp only [List.nil_append, List.head?_cons, Option.some.injEq] at ha
        subst ha
        rfl
      | cons b u =>
        rw [hd] at ha
        simp only [List.cons_append, List.head?_cons, Option.some.injEq] at ha
        subst ha
        exact head_of_dropWhile (p := fun c => !isSpace c) hd
    have hw : ((s.dropWhile isSpace).takeWhile (fun c => !isSpace c)).take n ≠ [] := by
      rw [hct, List.takeWhile_cons_of_pos (by simp [hc])]
      obtain ⟨m, rfl⟩ := Nat.exists_eq_succ_of_ne_zero hn.ne'
      simp
    have hle : (((s.dropWhile isSpace).takeWhile (fun c => !isSpace c)).take n).length ≤
        (s.dropWhile isSpace).length :=
      le_trans (List.length_take_le' _ _) (List.takeWhile_prefix _).length_le
    refine .inr ⟨_, _, by simp only [scanWord, if_neg hw]; rfl, ?_⟩
    unfold scanWord
    rw [dropWhile_append_of_ne_nil hs]
    simp only [htake, if_neg hw]
    rw [List.drop_append_of_le_length hle]

theorem scanWords_append {ns : List Nat} (hns : ∀ n ∈ ns, 0 < n) (s rest : Bytes) :
    scanWords ns (s ++ 32 :: rest) =
      scanWords ns s ++ scanWords (ns.drop (scanWords ns s).length) rest := by
  induction ns generalizing s with
  | nil => rfl
  | cons n ns ih =>
    rcases scanWord_append (hns n (by simp)) s rest with ⟨hnone, heq⟩ | ⟨w, s', hsome, heq⟩
    · simp only [scanWords, hnone, heq, List.nil_append, List.length_nil, List.drop_zero]
    · simp only [scanWords, hsome, heq, List.length_cons, List.drop_succ_cons, List.cons_append]
      rw [ih fun m hm => hns m (by simp [hm])]

theorem word_of_scanWord {n : Nat} {s w r : Bytes} (h : scanWord n s = some (w, r)) :
    Word w ∧ w.length ≤ n := by
  unfold scanWord at h
  simp only at h
  split at h
  · cases h
  next hne =>
    obtain ⟨rfl, rfl⟩ : _ = w ∧ _ = r := by simpa using h
    refine ⟨⟨hne, fun c hc => ?_⟩, by simp⟩
    simpa using List.mem_takeWhile_imp (p := fun c => !isSpace c) (List.mem_of_mem_take hc)

theorem scanWords_forall₂ (ns : List Nat) (s : Bytes) :
    List.Forall₂ (fun w n => Word w ∧ w.length ≤ n) (scanWords ns s)
      (ns.take (scanWords ns s).length) := by
  induction ns generalizing s with
  | nil => simp [scanWords]
  | cons n ns ih =>
    cases h : scanWord n s with
    | none => simp [scanWords, h]
    | some x =>
      obtain ⟨w, r⟩ := x
      simp only [scanWords, h, List.length_cons, List.take_succ_cons]
      exact .cons (word_of_scanWord h) (ih r)

theorem scanWords_length_le (ns : List Nat) (s : Bytes) : (scanWords ns s).length ≤ ns.length := by
  induction ns generalizing s with
  | nil => simp [scanWords]
  | cons n ns ih =>
    simp only [scanWords]
    split
    · simp
    · simpa using ih _

end Ds4.Lib
