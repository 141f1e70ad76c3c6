import Mathlib.Order.Defs.LinearOrder
import Mathlib.Data.List.Pairwise
import Mathlib.Tactic

/-!
# The first maximum of a scan

A scan over numbered elements replaces the best one when an element is above it: `firstMax`. Elements
are compared by a key that some of them lack, and an element without a key is neither above nor below
any other. The result is the first of the largest elements above the start (`firstMax_spec`), which is
one element (`IsFirstMax.unique`); so the scan can be split into lanes that are merged by value and by
number (`IsFirstMax.merge`, `firstMax_lanes`).
-/

namespace Ds4.Lib

variable {α κ ι : Type*} [LinearOrder κ] [LinearOrder ι] (key : α → Option κ)

/-- `a` is above `b`. -/
def above (a b : α) : Bool :=
  match key a, key b with
  | some x, some y => decide (y < x)
  | _, _ => false

/-- `a` and `b` are equal. -/
def level (a b : α) : Bool :=
  match key a, key b with
  | some x, some y => decide (x = y)
  | _, _ => false

theorem above_iff {a b : α} : above key a b = true ↔ ∃ x ∈ key a, ∃ y ∈ key b, y < x := by
  unfold above
  cases key a <;> cases key b <;> simp

theorem level_iff {a b : α} : level key a b = true ↔ ∃ x ∈ key a, ∃ y ∈ key b, x = y := by
  unfold level
  cases key a <;> cases key b <;> simp [eq_comm]

/-- One element of the scan. -/
def maxStep (best x : ι × α) : ι × α := if above key x.2 best.2 then x else best

/-- The scan from a start. -/
def firstMax (s : ι × α) (l : List (ι × α)) : ι × α := l.foldl (maxStep key) s

/-- One lane merged into the best element. -/
def mergeLane (best lane : ι × α) : ι × α :=
  if above key lane.2 best.2 || (level key lane.2 best.2 && decide (lane.1 < best.1)) then lane
  else best

/-- The first of the largest elements above the start, or the start when no element is above it. -/
inductive IsFirstMax (s : ι × α) (l : List (ι × α)) : ι × α → Prop
  | start (h : ∀ x ∈ l, ¬ above key x.2 s.2) : IsFirstMax s l s
  | found {r : ι × α} (mem : r ∈ l) (gt : above key r.2 s.2) (max : ∀ x ∈ l, ¬ above key x.2 r.2)
      (first : ∀ x ∈ l, level key x.2 r.2 → r.1 ≤ x.1) : IsFirstMax s l r

variable {key}

/-! ## The order -/

theorem above_irrefl (a : α) : ¬ above key a a := by
  rw [above_iff]
  rintro ⟨x, hx, y, hy, h⟩
  obtain rfl := Option.mem_unique hx hy
  exact lt_irrefl x h

theorem above_trans {a b c : α} (hab : above key a b) (hbc : above key b c) : above key a c := by
  rw [above_iff] at *
  obtain ⟨x, hx, y, hy, hxy⟩ := hab
  obtain ⟨y', hy', z, hz, hyz⟩ := hbc
  obtain rfl := Option.mem_unique hy hy'
  exact ⟨x, hx, z, hz, hyz.trans hxy⟩

theorem above_of_level {a b c : α} (hab : level key a b) (hbc : above key b c) : above key a c := by
  rw [level_iff] at hab
  rw [above_iff] at *
  obtain ⟨x, hx, y, hy, rfl⟩ := hab
  obtain ⟨y', hy', z, hz, hyz⟩ := hbc
  obtain rfl := Option.mem_unique hy hy'
  exact ⟨_, hx, z, hz, hyz⟩

theorem level_symm {a b : α} (h : level key a b) : level key b a := by
  rw [level_iff] at *
  obtain ⟨x, hx, y, hy, rfl⟩ := h
  exact ⟨_, hy, _, hx, rfl⟩

theorem level_trans {a b c : α} (hab : level key a b) (hbc : level key b c) : level key a c := by
  rw [level_iff] at *
  obtain ⟨x, hx, y, hy, rfl⟩ := hab
  obtain ⟨y', hy', z, hz, rfl⟩ := hbc
  obtain rfl := Option.mem_unique hy hy'
  exact ⟨_, hx, _, hz, rfl⟩

theorem above_of_above_level {a b c : α} (hab : above key a b) (hbc : level key b c) :
    above key a c := by
  rw [level_iff] at hbc
  rw [above_iff] at *
  obtain ⟨x, hx, y, hy, hxy⟩ := hab
  obtain ⟨y', hy', z, hz, rfl⟩ := hbc
  obtain rfl := Option.mem_unique hy hy'
  exact ⟨x, hx, _, hz, hxy⟩

theorem above_or_level {a b c d : α} (ha : above key a c) (hb : above key b d) :
    above key a b ∨ level key a b ∨ above key b a := by
  rw [above_iff] at ha hb
  obtain ⟨x, hx, -⟩ := ha
  obtain ⟨y, hy, -⟩ := hb
  rcases lt_trichotomy x y with h | h | h
  · exact .inr (.inr ((above_iff key).mpr ⟨y, hy, x, hx, h⟩))
  · exact .inr (.inl ((level_iff key).mpr ⟨x, hx, y, hy, h⟩))
  · exact .inl ((above_iff key).mpr ⟨x, hx, y, hy, h⟩)

/-! ## One result -/

namespace IsFirstMax

variable {s r r' best : ι × α} {l l' : List (ι × α)}

theorem congr (h : IsFirstMax key s l r) (hl : ∀ x, x ∈ l ↔ x ∈ l') : IsFirstMax key s l' r := by
  cases h with
  | start h => exact .start fun x hx => h x ((hl x).mpr hx)
  | found mem gt max first =>
    exact .found ((hl r).mp mem) gt (fun x hx => max x ((hl x).mpr hx))
      fun x hx => first x ((hl x).mpr hx)

/-- **There is one first maximum** when no number occurs twice. -/
theorem unique (hl : ∀ x ∈ l, ∀ y ∈ l, x.1 = y.1 → x = y) (h : IsFirstMax key s l r)
    (h' : IsFirstMax key s l r') : r = r' := by
  cases h with
  | start h =>
    cases h' with
    | start => rfl
    | found mem gt => exact absurd gt (h _ mem)
  | found mem gt max first =>
    cases h' with
    | start h' => exact absurd gt (h' _ mem)
    | found mem' gt' max' first' =>
      rcases above_or_level gt gt' with h | h | h
      · exact absurd h (max' _ mem)
      · exact hl _ mem _ mem' (le_antisymm (first _ mem' (level_symm h)) (first' _ mem h))
      · exact absurd h (max _ mem')

theorem step (h : IsFirstMax key s l best) {x : ι × α} (hx : ∀ y ∈ l, y.1 < x.1) :
    IsFirstMax key s (l ++ [x]) (maxStep key best x) := by
  have hmem : ∀ {P : ι × α → Prop}, (∀ y ∈ l, P y) → P x → ∀ y ∈ l ++ [x], P y := by
    intro P hl hx y hy
    rcases List.mem_append.mp hy with hy | hy
    · exact hl y hy
    · rwa [List.mem_singleton.mp hy]
  unfold maxStep
  split_ifs with hgt
  · refine .found (by simp) ?_ (hmem ?_ (above_irrefl _)) (hmem ?_ fun _ => le_rfl)
    · cases h with
      | start => exact hgt
      | found _ gt => exact above_trans hgt gt
    · intro y hy hyx
      cases h with
      | start h => exact h y hy (above_trans hyx hgt)
      | found _ _ max => exact max y hy (above_trans hyx hgt)
    · intro y hy hyx
      have hys := above_of_level hyx hgt
      cases h with
      | start h => exact absurd hys (h y hy)
      | found _ _ max => exact absurd hys (max y hy)
  · cases h with
    | start h => exact .start (hmem h hgt)
    | found mem gt max first =>
      exact .found (by simp [mem]) gt (hmem max hgt) (hmem first fun _ => (hx _ mem).le)

/-- **One lane.** The best element of what is seen, merged with that of a lane. -/
theorem merge (h : IsFirstMax key s l best) (hr : IsFirstMax key s l' r) :
    IsFirstMax key s (l ++ l') (mergeLane key best r) := by
  have hall : ∀ {P : ι × α → Prop}, (∀ y ∈ l, P y) → (∀ y ∈ l', P y) → ∀ y ∈ l ++ l', P y :=
    fun hl hl' y hy => (List.mem_append.mp hy).elim (hl y) (hl' y)
  cases hr with
  | start hs =>
    -- a lane that holds the start changes nothing
    have hkeep : mergeLane key best s = best := by
      cases h with
      | start => simp [mergeLane, above_irrefl]
      | found mem gt =>
        refine if_neg fun hc => ?_
        rcases Bool.or_eq_true_iff.mp hc with hc | hc
        · exact above_irrefl _ (above_trans hc gt)
        · exact above_irrefl _ (above_of_level (Bool.and_eq_true_iff.mp hc).1 gt)
    rw [hkeep]
    cases h with
    | start h => exact .start (hall h hs)
    | found mem gt max first =>
      exact .found (by simp [mem]) gt (hall max fun x hx hxb => hs x hx (above_trans hxb gt))
        (hall first fun x hx hxb => absurd (above_of_level hxb gt) (hs x hx))
  | found mem gt max first =>
    cases h with
    | start h =>
      have htake : mergeLane key s r = r := by simp [mergeLane, gt]
      rw [htake]
      exact .found (by simp [mem]) gt (hall (fun x hx hxr => h x hx (above_trans hxr gt)) max)
        (hall (fun x hx hxr => absurd (above_of_level hxr gt) (h x hx)) first)
    | found memb gtb maxb firstb =>
      rcases above_or_level gt gtb with hrb | hrb | hbr
      · have htake : mergeLane key best r = r := by simp [mergeLane, hrb]
        rw [htake]
        refine .found (by simp [mem]) gt (hall (fun x hx hxr => ?_) max)
          (hall (fun x hx hxr => ?_) first)
        · exact maxb x hx (above_trans hxr hrb)
        · exact absurd (above_of_level hxr hrb) (maxb x hx)
      · have hnot : ¬ above key r.2 best.2 := fun hc =>
          above_irrefl _ (above_of_level (level_symm hrb) hc)
        by_cases hlt : r.1 < best.1
        · have htake : mergeLane key best r = r := by simp [mergeLane, hrb, hlt]
          rw [htake]
          refine .found (by simp [mem]) gt (hall (fun x hx hxr => ?_) max)
            (hall (fun x hx hxr => ?_) first)
          · exact maxb x hx (above_of_above_level hxr hrb)
          · exact hlt.le.trans (firstb x hx (level_trans hxr hrb))
        · have hkeep : mergeLane key best r = best := by simp [mergeLane, hnot, hlt]
          rw [hkeep]
          refine .found (by simp [memb]) gtb (hall maxb fun x hx hxb => ?_)
            (hall firstb fun x hx hxb => ?_)
          · exact max x hx (above_of_above_level hxb (level_symm hrb))
          · exact (not_lt.mp hlt).trans (first x hx (level_trans hxb (level_symm hrb)))
      · have hkeep : mergeLane key best r = best := by
          refine if_neg fun hc => ?_
          rcases Bool.or_eq_true_iff.mp hc with hc | hc
          · exact above_irrefl _ (above_trans hc hbr)
          · exact above_irrefl _ (above_of_level (Bool.and_eq_true_iff.mp hc).1 hbr)
        rw [hkeep]
        refine .found (by simp [memb]) gtb (hall maxb fun x hx hxb => ?_)
          (hall firstb fun x hx hxb => ?_)
        · exact max x hx (above_trans hxb hbr)
        · exact absurd (above_of_level hxb hbr) (max x hx)

end IsFirstMax

/-! ## Scans -/

variable {s : ι × α} {l : List (ι × α)}

/-- **The scan.** -/
theorem firstMax_spec (hl : l.Pairwise fun x y => x.1 < y.1) :
    IsFirstMax key s l (firstMax key s l) := by
  have hrun : ∀ (l seen : List (ι × α)) (best : ι × α), IsFirstMax key s seen best →
      (seen ++ l).Pairwise (fun x y => x.1 < y.1) →
        IsFirstMax key s (seen ++ l) (firstMax key best l) := by
    intro l
    induction l with
    | nil =>
      intro seen best h _
      simpa [firstMax] using h
    | cons x l ih =>
      intro seen best h hl
      have hx : ∀ y ∈ seen, y.1 < x.1 := fun y hy =>
        (List.pairwise_append.mp hl).2.2 y hy x List.mem_cons_self
      have := ih (seen ++ [x]) (maxStep key best x) (h.step hx) (by simpa using hl)
      simpa [firstMax] using this
  exact hrun l [] s (.start (by simp)) hl

/-- **Lanes.** Lanes that scan parts of a list and are merged find what the scan finds. -/
theorem firstMax_lanes {lanes : List (List (ι × α))} (hl : l.Pairwise fun x y => x.1 < y.1)
    (hlanes : ∀ lane ∈ lanes, lane.Pairwise fun x y => x.1 < y.1)
    (hmem : ∀ x, x ∈ lanes.flatten ↔ x ∈ l) :
    (lanes.map (firstMax key s)).foldl (mergeLane key) s = firstMax key s l := by
  have hrun : ∀ (lanes : List (List (ι × α))) (seen : List (ι × α)) (best : ι × α),
      IsFirstMax key s seen best → (∀ lane ∈ lanes, lane.Pairwise fun x y => x.1 < y.1) →
        IsFirstMax key s (seen ++ lanes.flatten)
          ((lanes.map (firstMax key s)).foldl (mergeLane key) best) := by
    intro lanes
    induction lanes with
    | nil =>
      intro seen best h _
      simpa using h
    | cons lane lanes ih =>
      intro seen best h hlanes
      have hlane : IsFirstMax key s lane (firstMax key s lane) := firstMax_spec (hlanes lane List.mem_cons_self)
      have := ih (seen ++ lane) _ (h.merge hlane) fun l hl => hlanes l (List.mem_cons_of_mem _ hl)
      simpa using this
  have hinj : ∀ x ∈ l, ∀ y ∈ l, x.1 = y.1 → x = y := fun x hx y hy hxy =>
    (List.pairwise_map.mpr hl : (l.map Prod.fst).Pairwise (· < ·)).nodup |>
      fun hn => List.inj_on_of_nodup_map hn hx hy hxy
  have hspec := hrun lanes [] s (.start (by simp)) hlanes
  exact IsFirstMax.unique hinj (hspec.congr (by simpa using hmem)) (firstMax_spec hl)

omit [LinearOrder ι] in
theorem firstMax_of_not_above (h : ∀ x ∈ l, ¬ above key x.2 s.2) : firstMax key s l = s := by
  induction l with
  | nil => rfl
  | cons x l ih =>
    rw [firstMax, List.foldl_cons, maxStep, if_neg (h x List.mem_cons_self)]
    exact ih fun y hy => h y (List.mem_cons_of_mem _ hy)

omit [LinearOrder ι] in
theorem firstMax_append {a b : List (ι × α)} {m : ι × α} (ha : ∀ x ∈ a, ¬ above key x.2 s.2)
    (hm : above key m.2 s.2) (hb : ∀ x ∈ b, ¬ above key x.2 m.2) :
    firstMax key s (a ++ m :: b) = m := by
  have hfront : a.foldl (maxStep key) s = s := firstMax_of_not_above ha
  rw [firstMax, List.foldl_append, List.foldl_cons, hfront, maxStep, if_pos hm]
  exact firstMax_of_not_above hb

end Ds4.Lib
