import Ds4.Server.Json

/-!
# What the JSON reader takes off a text

A value ends where it ends whatever delimiter follows (`jsonValue_spells`): the reader takes the same
bytes off any other text with the value in front, and it reads the same value from the minified
bytes. `jsonString_escape` is the round trip of `json_escape`.
-/

namespace Ds4.Server

open Ds4.Lib

/-! ## White space -/

theorem jsonWs_append_space {w p : Bytes} (hw : ∀ c ∈ w, isSpace c = true) :
    jsonWs (w ++ p) = jsonWs p := dropWhile_append_all hw

theorem jsonWs_cons_of_not_space {c : UInt8} {p : Bytes} (hc : isSpace c = false) :
    jsonWs (c :: p) = c :: p := List.dropWhile_cons_of_neg (by simp [hc])

@[simp] theorem jsonWs_nil : jsonWs [] = [] := rfl

@[simp] theorem jsonWs_space (p : Bytes) : jsonWs (32 :: p) = jsonWs p :=
  jsonWs_append_space (w := [32]) (by decide)

theorem exists_jsonWs (p : Bytes) :
    ∃ w, (∀ c ∈ w, isSpace c = true) ∧ p = w ++ jsonWs p :=
  ⟨p.takeWhile isSpace, fun _ hc => List.mem_takeWhile_imp hc, List.takeWhile_append_dropWhile.symm⟩

theorem not_space_of_jsonWs {p r : Bytes} {c : UInt8} (h : jsonWs p = c :: r) :
    isSpace c = false := head_of_dropWhile h

@[simp] theorem jsonWs_jsonWs (p : Bytes) : jsonWs (jsonWs p) = jsonWs p := by
  cases h : jsonWs p with
  | nil => rfl
  | cons c r => exact jsonWs_cons_of_not_space (not_space_of_jsonWs h)

theorem suffix_jsonWs (p : Bytes) : jsonWs p <:+ p := List.dropWhile_suffix _

/-! ## The text behind a value -/

/-- The end of the text or a delimiter. -/
def Follow (r : Bytes) : Prop :=
  ∀ c, r.head? = some c → c = 44 ∨ c = 93 ∨ c = 125 ∨ isSpace c = true

@[simp] theorem follow_nil : Follow [] := by
  intro c hc
  simp at hc

theorem follow_cons {c : UInt8} {r : Bytes}
    (hc : c = 44 ∨ c = 93 ∨ c = 125 ∨ isSpace c = true) : Follow (c :: r) := by
  intro d hd
  obtain rfl : c = d := by simpa using hd
  exact hc

theorem follow_append {w r : Bytes} (hw : ∀ c ∈ w, isSpace c = true) (hr : Follow r) :
    Follow (w ++ r) := by
  cases w with
  | nil => exact hr
  | cons c w => exact follow_cons (.inr (.inr (.inr (hw c List.mem_cons_self))))

/-! ## Copying without white space -/

/-- The minified text. -/
def compact (x : Bytes) : Bytes := minifyCopy false false x

/-- A text that leaves the copying loop outside of strings. -/
def Balanced (x : Bytes) : Prop :=
  ∀ r, minifyCopy false false (x ++ r) = compact x ++ minifyCopy false false r

@[simp] theorem compact_nil : compact [] = [] := rfl

theorem balanced_nil : Balanced [] := fun _ => rfl

theorem Balanced.compact_append {x : Bytes} (hx : Balanced x) (y : Bytes) :
    compact (x ++ y) = compact x ++ compact y := hx y

theorem Balanced.append {x y : Bytes} (hx : Balanced x) (hy : Balanced y) : Balanced (x ++ y) := by
  intro r
  rw [List.append_assoc, hx, hy, hx.compact_append, List.append_assoc]

theorem compact_space {w : Bytes} (hw : ∀ c ∈ w, isSpace c = true) : compact w = [] := by
  induction w with
  | nil => rfl
  | cons c w ih =>
    have hc : isSpace c = true := hw c List.mem_cons_self
    have hne : c ≠ 34 := by
      rintro rfl
      exact absurd hc (by decide)
    rw [compact, minifyCopy, if_neg hne, if_neg (by simp [hc])]
    exact ih fun d hd => hw d (List.mem_cons_of_mem c hd)

theorem balanced_space {w : Bytes} (hw : ∀ c ∈ w, isSpace c = true) : Balanced w := by
  intro r
  induction w with
  | nil => rfl
  | cons c w ih =>
    have hc : isSpace c = true := hw c List.mem_cons_self
    have hne : c ≠ 34 := by
      rintro rfl
      exact absurd hc (by decide)
    have hw' : ∀ d ∈ w, isSpace d = true := fun d hd => hw d (List.mem_cons_of_mem c hd)
    rw [List.cons_append, minifyCopy, if_neg hne, if_neg (by simp [hc]), ih hw', compact_space hw,
      compact_space hw']

/-- A byte that the copying loop keeps outside of strings. -/
def isPlain (c : UInt8) : Bool := c != 34 && !isSpace c

theorem minifyCopy_plain {c : UInt8} (hc : isPlain c = true) (r : Bytes) :
    minifyCopy false false (c :: r) = c :: minifyCopy false false r := by
  obtain ⟨hq, hs⟩ : c ≠ 34 ∧ isSpace c = false := by simpa [isPlain] using hc
  rw [minifyCopy, if_neg hq, if_pos (by simp [hs])]

theorem compact_plain {x : Bytes} (hx : ∀ c ∈ x, isPlain c = true) : compact x = x := by
  induction x with
  | nil => rfl
  | cons c x ih =>
    rw [compact, minifyCopy_plain (hx c List.mem_cons_self)]
    exact congrArg (c :: ·) (ih fun d hd => hx d (List.mem_cons_of_mem c hd))

theorem balanced_plain {x : Bytes} (hx : ∀ c ∈ x, isPlain c = true) : Balanced x := by
  intro r
  rw [compact_plain hx]
  induction x with
  | nil => rfl
  | cons c x ih =>
    rw [List.cons_append, minifyCopy_plain (hx c List.mem_cons_self),
      ih fun d hd => hx d (List.mem_cons_of_mem c hd)]
    rfl

theorem minifyCopy_idem (q e : Bool) (x : Bytes) :
    minifyCopy q e (minifyCopy q e x) = minifyCopy q e x := by
  induction x generalizing q e with
  | nil => cases q <;> rfl
  | cons c x ih =>
    cases q with
    | true =>
      rw [minifyCopy, minifyCopy]
      split_ifs with h1 h2 h3 <;> rw [ih]
    | false =>
      rw [minifyCopy]
      split_ifs with h1 h2
      · rw [minifyCopy, if_pos h1, ih]
      · rw [minifyCopy, if_neg h1, if_pos h2, ih]
      · exact ih _ _

@[simp] theorem compact_compact (x : Bytes) : compact (compact x) = compact x :=
  minifyCopy_idem false false x

/-! ## Strings -/

theorem jsonU16_eq_some {p q : Bytes} {n : Nat} (h : jsonU16 p = some (n, q)) :
    ∃ a b c d, p = 92 :: 117 :: a :: b :: c :: d :: q ∧
      isHexDigit a ∧ isHexDigit b ∧ isHexDigit c ∧ isHexDigit d := by
  unfold jsonU16 at h
  split at h
  · next a b c d r =>
    split at h
    · next ha hb hc hd =>
      obtain ⟨-, rfl⟩ : _ ∧ r = q := by simpa using h
      exact ⟨a, b, c, d, rfl, by simp [isHexDigit, ha], by simp [isHexDigit, hb],
        by simp [isHexDigit, hc], by simp [isHexDigit, hd]⟩
    · simp at h
  · simp at h

theorem jsonU16_append {p q : Bytes} {n : Nat} (h : jsonU16 p = some (n, q)) :
    ∃ x, p = x ++ q ∧ [92, 117] <+: x ∧ 34 ∉ x ∧ (∀ r, jsonU16 (x ++ r) = some (n, r)) ∧
      ∀ r, minifyCopy true false (x ++ r) = x ++ minifyCopy true false r := by
  obtain ⟨a, b, c, d, rfl, ha, hb, hc, hd⟩ := jsonU16_eq_some h
  have hhex : ∀ e, isHexDigit e = true → e ≠ 34 ∧ e ≠ 92 := by
    intro e he
    constructor <;> (rintro rfl; exact absurd he (by decide))
  obtain ⟨va, hva⟩ := Option.isSome_iff_exists.mp ha
  obtain ⟨vb, hvb⟩ := Option.isSome_iff_exists.mp hb
  obtain ⟨vc, hvc⟩ := Option.isSome_iff_exists.mp hc
  obtain ⟨vd, hvd⟩ := Option.isSome_iff_exists.mp hd
  simp only [jsonU16, hva, hvb, hvc, hvd] at h
  refine ⟨[92, 117, a, b, c, d], rfl, by simp, ?_, fun r => ?_, fun r => ?_⟩
  · simpa [eq_comm] using ⟨(hhex a ha).1, (hhex b hb).1, (hhex c hc).1, (hhex d hd).1⟩
  · simp only [List.cons_append, List.nil_append, jsonU16, hva, hvb, hvc, hvd]
    simpa using h
  · simp [minifyCopy, hhex a ha, hhex b hb, hhex c hc, hhex d hd]

theorem prefix_of_prefix_cons {x y r : Bytes} {c : UInt8} (hx : c ∉ x) (h : x <+: y ++ c :: r) :
    x <+: y := by
  rcases le_or_gt x.length y.length with hlen | hlen
  · exact List.prefix_of_prefix_length_le h (List.prefix_append _ _) hlen
  · obtain ⟨z, rfl⟩ := List.prefix_of_prefix_length_le (List.prefix_append y _) h hlen.le
    have hz : z <+: c :: r := (List.prefix_append_right_inj y).mp h
    cases z with
    | nil => simp at hlen
    | cons d z =>
      obtain ⟨rfl, -⟩ := List.cons_prefix_cons.mp hz
      simp at hx

theorem jsonU16_quote {y r q : Bytes} {n : Nat} (h : jsonU16 (y ++ 34 :: r) = some (n, q)) :
    ∃ z, q = z ++ 34 :: r ∧ ∀ r', jsonU16 (y ++ 34 :: r') = some (n, z ++ 34 :: r') := by
  obtain ⟨x, hp, -, hx, hread, -⟩ := jsonU16_append h
  obtain ⟨z, rfl⟩ := prefix_of_prefix_cons hx (hp ▸ List.prefix_append x q)
  have hq : z ++ 34 :: r = q := by simpa using hp
  exact ⟨z, hq.symm, fun r' => by rw [List.append_assoc, hread]⟩

/-- What a round of the string loop can take: a byte, an escape of one letter, or `\u` escapes. -/
theorem jsonChar_eq_some {p q b : Bytes} (h : jsonChar p = some (b, q)) :
    (∃ c, c ≠ 92 ∧ b = [c] ∧ p = c :: q) ∨
    (∃ e v, e ≠ 117 ∧ jsonUnescape e = some v ∧ b = [v] ∧ p = 92 :: e :: q) ∨
    ∃ r, p = 92 :: 117 :: r ∧ jsonUnicode p = some (b, q) := by
  unfold jsonChar at h
  split at h
  · simp at h
  · next c r =>
    split_ifs at h with hc
    · subst hc
      split at h
      · simp at h
      · next e r' =>
        split_ifs at h with he
        · subst he
          exact .inr (.inr ⟨r', rfl, h⟩)
        · obtain ⟨v, hv, hb⟩ := Option.map_eq_some_iff.mp h
          obtain ⟨rfl, rfl⟩ : [v] = b ∧ r' = q := by simpa using hb
          exact .inr (.inl ⟨e, v, he, hv, rfl, rfl⟩)
    · obtain ⟨rfl, rfl⟩ : [c] = b ∧ r = q := by simpa using h
      exact .inl ⟨c, hc, rfl, rfl⟩

theorem jsonUnicode_eq_some {p q b : Bytes} (h : jsonUnicode p = some (b, q)) :
    ∃ x, p = x ++ q ∧ [92, 117] <+: x ∧ 34 ∉ x ∧
      (∀ r, minifyCopy true false (x ++ r) = x ++ minifyCopy true false r) ∧
      ∀ y r, q = y ++ 34 :: r → ∀ r', jsonUnicode (x ++ y ++ 34 :: r') = some (b, y ++ 34 :: r') := by
  unfold jsonUnicode at h
  split at h
  · simp at h
  · next cp r hcp =>
    obtain ⟨x, rfl, hne, hx, hread, hcopy⟩ := jsonU16_append hcp
    split_ifs at h with hhi
    · split at h
      · next lo r' hlo =>
        split_ifs at h with hlow
        · obtain ⟨hb, rfl⟩ : _ = b ∧ r' = q := by simpa using h
          obtain ⟨x', rfl, -, hx', hread', hcopy'⟩ := jsonU16_append hlo
          refine ⟨x ++ x', by simp, hne.trans (List.prefix_append _ _), by simp [hx, hx'], fun s => ?_, ?_⟩
          · rw [List.append_assoc, hcopy, hcopy', List.append_assoc]
          · intro y s hy s'
            rw [List.append_assoc, List.append_assoc]
            simp [jsonUnicode, hread, hread', hhi, hlow, ← hb]
        · obtain ⟨hb, rfl⟩ : _ = b ∧ r = q := by simpa using h
          refine ⟨x, rfl, hne, hx, hcopy, ?_⟩
          rintro y s rfl s'
          obtain ⟨z, -, hz⟩ := jsonU16_quote hlo
          rw [List.append_assoc]
          simp [jsonUnicode, hread, hz, hhi, hlow, ← hb]
      · next hlo =>
        obtain ⟨hb, rfl⟩ : _ = b ∧ r = q := by simpa using h
        refine ⟨x, rfl, hne, hx, hcopy, ?_⟩
        rintro y s rfl s'
        have hlo' : jsonU16 (y ++ 34 :: s') = none := by
          by_contra hsome
          obtain ⟨⟨n, q⟩, hn⟩ := Option.ne_none_iff_exists'.mp hsome
          obtain ⟨z, -, hz⟩ := jsonU16_quote hn
          simp [hz] at hlo
        rw [List.append_assoc]
        simp [jsonUnicode, hread, hlo', hhi, ← hb]
    · obtain ⟨hb, rfl⟩ : _ = b ∧ r = q := by simpa using h
      refine ⟨x, rfl, hne, hx, hcopy, ?_⟩
      intro y s hy s'
      rw [List.append_assoc]
      simp [jsonUnicode, hread, hhi, ← hb]

theorem consumes_jsonChar : Consumes jsonChar := by
  intro p b q h
  rcases jsonChar_eq_some h with ⟨c, -, -, rfl⟩ | ⟨e, v, -, -, -, rfl⟩ | ⟨r, -, hu⟩
  · exact ⟨[c], by simp, rfl⟩
  · exact ⟨[92, e], by simp, rfl⟩
  · obtain ⟨x, rfl, ⟨t, rfl⟩, -⟩ := jsonUnicode_eq_some hu
    exact ⟨_, by simp, rfl⟩

theorem many_jsonChar {p r : Bytes} {chunks : List Bytes}
    (h : Many (fun q => strip q [34]) jsonChar p chunks r) :
    ∃ y, p = y ++ 34 :: r ∧ (∀ r', Many (fun q => strip q [34]) jsonChar (y ++ 34 :: r') chunks r') ∧
      ∀ r', minifyCopy true false (y ++ 34 :: r') = y ++ 34 :: minifyCopy false false r' := by
  induction h with
  | @nil p r hs =>
    obtain rfl : p = 34 :: r := by simpa using strip_eq_some.1 hs
    exact ⟨[], rfl, fun r' => .nil (strip_eq_some.2 rfl), fun r' => by simp [minifyCopy]⟩
  | @cons p q r b chunks hs hc _ ih =>
    obtain ⟨y, rfl, hmany, hcopy⟩ := ih
    have hstop : ∀ x : Bytes, x ≠ [] → 34 ∉ x → ∀ t, strip (x ++ t) [34] = none := by
      intro x hx hq t
      obtain ⟨c, x, rfl⟩ := List.exists_cons_of_ne_nil hx
      refine strip_eq_none.2 fun hp => hq ?_
      obtain ⟨rfl, -⟩ := List.cons_prefix_cons.mp hp
      exact List.mem_cons_self
    rcases jsonChar_eq_some hc with ⟨c, hne, rfl, rfl⟩ | ⟨e, v, hne, hv, rfl, rfl⟩ | ⟨t, hp, hu⟩
    · have hq : c ≠ 34 := by
        rintro rfl
        simp [strip] at hs
      refine ⟨c :: y, rfl, fun r' => .cons ?_ ?_ (hmany r'), fun r' => ?_⟩
      · exact hstop [c] (by simp) (by simpa using hq.symm) _
      · simp [jsonChar, hne]
      · simp [minifyCopy, hne, hq, hcopy]
    · refine ⟨92 :: e :: y, rfl, fun r' => .cons ?_ ?_ (hmany r'), fun r' => ?_⟩
      · exact hstop [92] (by simp) (by decide) _
      · simp [jsonChar, hne, hv]
      · simp [minifyCopy, hcopy]
    · obtain ⟨x, rfl, ⟨t', rfl⟩, hq, hxcopy, hread⟩ := jsonUnicode_eq_some hu
      refine ⟨[92, 117] ++ t' ++ y, by simp, fun r' => .cons ?_ ?_ (hmany r'), fun r' => ?_⟩
      · rw [List.append_assoc]
        exact hstop _ (by simp) hq _
      · simpa [jsonChar] using hread y r rfl r'
      · rw [List.append_assoc, hxcopy, hcopy]
        simp

/-- A quoted literal with the content `s`. -/
structure Literal (x s : Bytes) : Prop where
  head : ∃ t, x = 34 :: t
  reads : ∀ r, jsonString (x ++ r) = some (s, r)
  balanced : Balanced x
  compact : compact x = x

theorem jsonString_of_many {p q r : Bytes} {chunks : List Bytes} (hp : jsonWs p = 34 :: q)
    (h : Many (fun q => strip q [34]) jsonChar q chunks r) :
    jsonString p = some (cString chunks.flatten, r) := by
  simp [jsonString, hp, (readAll_eq_some consumes_jsonChar).mpr h]

theorem jsonString_eq_some {p s r : Bytes} (h : jsonString p = some (s, r)) :
    ∃ x, jsonWs p = x ++ r ∧ Literal x s := by
  unfold jsonString at h
  split at h
  · next q hq =>
    obtain ⟨⟨chunks, r'⟩, hread, he⟩ := Option.map_eq_some_iff.mp h
    obtain ⟨hs, rfl⟩ : cString chunks.flatten = s ∧ r' = r := by simpa using he
    obtain ⟨y, rfl, hmany, hcopy⟩ := many_jsonChar ((readAll_eq_some consumes_jsonChar).mp hread)
    have hbal : ∀ t, minifyCopy false false (34 :: y ++ [34] ++ t) =
        34 :: y ++ [34] ++ minifyCopy false false t := by
      intro t
      simp [minifyCopy, hcopy]
    have hcompact : compact (34 :: y ++ [34]) = 34 :: y ++ [34] := by
      simpa [compact, minifyCopy] using hbal []
    refine ⟨34 :: y ++ [34], by simp [hq], ⟨_, rfl⟩, fun t => ?_, fun t => ?_, hcompact⟩
    · have hws : jsonWs (34 :: y ++ [34] ++ t) = 34 :: (y ++ 34 :: t) := by
        simp [jsonWs_cons_of_not_space (show isSpace 34 = false by decide)]
      rw [jsonString_of_many hws (hmany t), hs]
    · rw [hbal, hcompact]
  · simp at h

/-! ## Escaping -/

set_option maxRecDepth 10000 in
theorem jsonChar_escape (c : UInt8) (r : Bytes) :
    jsonChar (jsonEscapeByte c ++ r) = some ([c], r) := by
  unfold jsonEscapeByte
  split_ifs with h1 h2 h3 h4 h5
  · rcases h1 with rfl | rfl <;> rfl
  · subst h2; rfl
  · subst h3; rfl
  · subst h4; rfl
  · have hu : ∀ c : UInt8, c < 32 → jsonU16 [92, 117, 48, 48,
        if c / 16 < 10 then 48 + c / 16 else 87 + c / 16,
        if c % 16 < 10 then 48 + c % 16 else 87 + c % 16] = some (c.toNat, []) ∧
        utf8Put c.toNat = [c] := by
      refine forall_byte ?_
      decide
    obtain ⟨hn16, hput⟩ := hu c h5
    obtain ⟨x, hx, -, -, hread, -⟩ := jsonU16_append hn16
    rw [List.append_nil] at hx
    rw [← hx] at hread
    have hlow : ¬ (0xd800 ≤ c.toNat ∧ c.toNat ≤ 0xdbff) := by
      have : c.toNat < 32 := UInt8.lt_iff_toNat_lt.mp h5
      omega
    have : jsonUnicode ([92, 117, 48, 48, if c / 16 < 10 then 48 + c / 16 else 87 + c / 16,
        if c % 16 < 10 then 48 + c % 16 else 87 + c % 16] ++ r) = some ([c], r) := by
      simp only [jsonUnicode, hread, if_neg hlow, hput]
    simpa [jsonChar] using this
  · have : c ≠ 92 := fun h => h1 (.inr h)
    simp [jsonChar, this]

theorem many_jsonEscape (s r : Bytes) :
    Many (fun q => strip q [34]) jsonChar (jsonEscapeFragment s ++ 34 :: r) (s.map fun c => [c]) r := by
  induction s with
  | nil => exact .nil (strip_eq_some.2 rfl)
  | cons c s ih =>
    have hne : ∀ t, strip (jsonEscapeByte c ++ t) [34] = none := by
      intro t
      refine strip_eq_none.2 fun hp => ?_
      unfold jsonEscapeByte at hp
      split_ifs at hp with h1 h2 h3 h4 h5
      all_goals simp at hp
      exact h1 (.inl hp.symm)
    rw [jsonEscapeFragment, List.flatMap_cons, List.append_assoc]
    exact .cons (hne _) (jsonChar_escape c _) ih

/-- **A string without NUL is read back from its escaped form.** -/
theorem jsonString_escape {s : Bytes} (hs : 0 ∉ s) (r : Bytes) :
    jsonString (jsonEscape s ++ r) = some (s, r) := by
  have hws : jsonWs (jsonEscape s ++ r) = 34 :: (jsonEscapeFragment s ++ 34 :: r) := by
    rw [jsonEscape, jsonEscapeLoop_eq, cString_eq_self hs, List.cons_append, List.cons_append,
      jsonWs_cons_of_not_space (by decide), List.append_assoc]
    rfl
  have hflat : ∀ s : Bytes, (s.map fun c => [c]).flatten = s := by
    intro s
    induction s with
    | nil => rfl
    | cons c s ih => exact congrArg (c :: ·) ih
  rw [jsonString_of_many hws (many_jsonEscape s r), hflat, cString_eq_self hs]

/-! ## Numbers -/

/-- A byte that can stand in a subject of `strtod`. -/
def isSubjectChar (c : UInt8) : Bool :=
  isNanChar c || c == 43 || c == 45 || c == 46 || c == 40 || c == 41

theorem subjectChar_of_toLower {c e : UInt8} (h : toLower c = e)
    (he : isDigit e = true ∨ 97 ≤ e ∧ e ≤ 122) : isSubjectChar c = true := by
  subst h
  rcases he with hd | hl
  · have hc : isDigit c = true := by
      unfold toLower at hd
      split_ifs at hd with hup
      · simp only [isDigit, Bool.and_eq_true, decide_eq_true_eq, UInt8.le_iff_toNat_le] at hd hup
        simp at hd hup
        omega
      · exact hd
    simp [isSubjectChar, isNanChar, hc]
  · simp [isSubjectChar, isNanChar, hl.1, hl.2]

theorem subjectChar_of_digit {c : UInt8} (h : isDigit c = true) : isSubjectChar c = true := by
  simp [isSubjectChar, isNanChar, h]

set_option maxRecDepth 10000 in
theorem subjectChar_of_hexDigit : ∀ c, isHexDigit c = true → isSubjectChar c = true := by
  refine forall_byte ?_
  decide

set_option maxRecDepth 10000 in
theorem subjectChar_plain :
    ∀ c, isSubjectChar c = true → isPlain c = true ∧ c ≠ 44 ∧ c ≠ 93 ∧ c ≠ 125 := by
  refine forall_byte ?_
  decide

theorem mantissa_chars {digit : UInt8 → Bool} {x : Bytes} (h : isMantissa digit x = true) :
    ∀ c ∈ x, digit c = true ∨ c = 46 := by
  have hall : ∀ c ∈ x.dropWhile digit, digit c = true ∨ c = 46 := by
    intro c hc
    simp only [isMantissa, Bool.and_eq_true] at h
    obtain ⟨hfrac, -⟩ := h
    split at hfrac
    · next f hf =>
      rw [hf] at hc
      rcases List.mem_cons.mp hc with rfl | hc
      · exact .inr rfl
      · exact .inl (List.all_eq_true.mp hfrac c hc)
    · exact .inl (List.all_eq_true.mp hfrac c hc)
  intro c hc
  rw [← List.takeWhile_append_dropWhile (p := digit) (l := x)] at hc
  rcases List.mem_append.mp hc with hc | hc
  · exact .inl (List.mem_takeWhile_imp hc)
  · exact hall c hc

theorem exponent_chars {x : Bytes} (h : isExponent x = true) :
    ∀ c ∈ x, isSubjectChar c = true := by
  intro c hc
  unfold isExponent at h
  simp only [Bool.and_eq_true] at h
  obtain ⟨-, hall⟩ := h
  split at hall
  · rcases List.mem_cons.mp hc with rfl | hc
    · decide
    · exact subjectChar_of_digit (List.all_eq_true.mp hall c hc)
  · rcases List.mem_cons.mp hc with rfl | hc
    · decide
    · exact subjectChar_of_digit (List.all_eq_true.mp hall c hc)
  · exact subjectChar_of_digit (List.all_eq_true.mp hall c hc)

theorem scaled_chars {digit : UInt8 → Bool} {e : UInt8} {x : Bytes}
    (hdigit : ∀ c, digit c = true → isSubjectChar c = true) (he : 97 ≤ e ∧ e ≤ 122)
    (h : isScaled digit e x = true) : ∀ c ∈ x, isSubjectChar c = true := by
  intro c hc
  simp only [isScaled, Bool.and_eq_true] at h
  obtain ⟨hm, hx⟩ := h
  rw [← List.takeWhile_append_dropWhile (p := fun c => decide (toLower c ≠ e)) (l := x)] at hc
  rcases List.mem_append.mp hc with hc | hc
  · rcases mantissa_chars hm c hc with hd | rfl
    · exact hdigit c hd
    · decide
  · split at hx
    · next hnil =>
      rw [hnil] at hc
      simp at hc
    · next d y hy =>
      rw [hy] at hc
      rcases List.mem_cons.mp hc with rfl | hc
      · have hd := head_of_dropWhile hy
        exact subjectChar_of_toLower (by simpa using hd) (.inr he)
      · exact exponent_chars hx c hc

theorem word_chars {x w : Bytes} (hw : ∀ c ∈ w, isDigit c = true ∨ 97 ≤ c ∧ c ≤ 122)
    (h : x.map toLower = w) : ∀ c ∈ x, isSubjectChar c = true := fun _ hc =>
  subjectChar_of_toLower rfl (hw _ (h ▸ List.mem_map_of_mem hc))

theorem nan_chars {x : Bytes} (h : isNan x = true) : ∀ c ∈ x, isSubjectChar c = true := by
  intro c hc
  simp only [isNan, Bool.and_eq_true, beq_iff_eq] at h
  obtain ⟨hword, htail⟩ := h
  rw [← List.take_append_drop 3 x] at hc
  rcases List.mem_append.mp hc with hc | hc
  · exact word_chars (by decide) hword c hc
  · split at htail
    · next hnil =>
      rw [hnil] at hc
      simp at hc
    · next d y hy =>
      rw [hy] at hc
      obtain ⟨⟨hd, hlast⟩, hall⟩ : (d = 40 ∧ y.getLast? = some 41) ∧ y.dropLast.all isNanChar := by
        simpa using htail
      rcases List.mem_cons.mp hc with rfl | hc
      · exact hd ▸ rfl
      · have hy' : y.dropLast ++ [41] = y := List.dropLast_append_getLast? 41 hlast
        rw [← hy'] at hc
        rcases List.mem_append.mp hc with hc | hc
        · simp [isSubjectChar, List.all_eq_true.mp hall c hc]
        · obtain rfl : c = 41 := by simpa using hc
          decide

theorem unsignedSubject_chars {x : Bytes} (h : isUnsignedSubject x = true) :
    ∀ c ∈ x, isSubjectChar c = true := by
  simp only [isUnsignedSubject, Bool.or_eq_true, Bool.and_eq_true, beq_iff_eq] at h
  rcases h with (((h | ⟨h0, h⟩) | h) | h) | h
  · exact scaled_chars (fun _ => subjectChar_of_digit) (by decide) h
  · intro c hc
    rw [← List.take_append_drop 2 x] at hc
    rcases List.mem_append.mp hc with hc | hc
    · exact word_chars (by decide) h0 c hc
    · exact scaled_chars subjectChar_of_hexDigit (by decide) h c hc
  · exact word_chars (by decide) h
  · exact word_chars (by decide) h
  · exact nan_chars h

theorem subject_chars {x : Bytes} (h : isSubject x = true) : ∀ c ∈ x, isSubjectChar c = true := by
  intro c hc
  unfold isSubject at h
  split at h
  · rcases List.mem_cons.mp hc with rfl | hc
    · decide
    · exact unsignedSubject_chars h c hc
  · rcases List.mem_cons.mp hc with rfl | hc
    · decide
    · exact unsignedSubject_chars h c hc
  · exact unsignedSubject_chars h c hc

theorem strtodSubject_append {x r : Bytes} (hx : isSubject x = true) (hr : Follow r) :
    strtodSubject (x ++ r) = x := by
  have hpre := Recent.prune_prefix isSubject (x ++ r)
  rcases lt_trichotomy (strtodSubject (x ++ r)).length x.length with hlt | heq | hgt
  · have := Recent.prune_maximal isSubject (List.prefix_append x r) hlt
    simp [hx] at this
  · exact (List.prefix_of_prefix_length_le hpre (List.prefix_append x r) heq.le).eq_of_length heq
  · obtain ⟨y, hy⟩ := List.prefix_of_prefix_length_le (List.prefix_append x r) hpre hgt.le
    have hyr : y <+: r := by
      rw [← hy] at hpre
      exact (List.prefix_append_right_inj x).mp hpre
    cases y with
    | nil =>
      rw [List.append_nil] at hy
      exact hy.symm
    | cons c y =>
      have hfits : isSubject (strtodSubject (x ++ r)) = true := by
        rcases Recent.prune_eq_nil_or_fits isSubject (x ++ r) with hnil | hfits
        · rw [strtodSubject, hnil] at hgt
          simp at hgt
        · exact hfits
      have hc : isSubjectChar c = true := by
        refine subject_chars hfits c ?_
        rw [strtodSubject, ← hy]
        simp
      obtain ⟨hplain, h44, h93, h125⟩ := subjectChar_plain c hc
      obtain ⟨t, rfl⟩ := hyr
      rcases hr c rfl with h | h | h | h
      · exact absurd h h44
      · exact absurd h h93
      · exact absurd h h125
      · simp [isPlain, h] at hplain

/-! ## Values -/

/-- The text `x` spells `a` for the reader `f`, and so does its minified form. -/
structure Spells {α : Type} (f : Reader α) (x : Bytes) (a : α) : Prop where
  head : ∃ c t, x = c :: t ∧ isSpace c = false
  balanced : Balanced x
  reads : ReadsAs Follow f x a
  readsCompact : ReadsAs Follow f (compact x) a

/-- `f` skips white space and reads what a text spells. -/
structure Reads {α : Type} (f : Reader α) : Prop where
  skip : ∀ p, f (jsonWs p) = f p
  spells : ∀ p a r, f p = some (a, r) → ∃ x, jsonWs p = x ++ r ∧ Spells f x a

theorem Spells.readsSpace {α : Type} {f : Reader α} {x : Bytes} {a : α} (h : Spells f x a)
    (hf : Reads f) {w r : Bytes} (hw : ∀ c ∈ w, isSpace c = true) (hr : Follow r) :
    f (w ++ (x ++ r)) = some (a, r) := by
  rw [← hf.skip, jsonWs_append_space hw, hf.skip, h.reads r hr]

theorem Reads.consumes {α : Type} {f : Reader α} (hf : Reads f) : Consumes f := by
  intro p a r h
  obtain ⟨x, hx, ⟨⟨c, t, rfl, -⟩, -⟩⟩ := hf.spells p a r h
  obtain ⟨w, -, hp⟩ := exists_jsonWs p
  exact ⟨w ++ c :: t, by simp, by rw [List.append_assoc, ← hx, ← hp]⟩

theorem Literal.spells {f : Reader Json} {x s : Bytes} {a : Json} (h : Literal x s)
    (hf : ∀ r, f (x ++ r) = some (a, r)) : Spells f x a := by
  obtain ⟨t, rfl⟩ := h.head
  exact ⟨⟨34, t, rfl, by decide⟩, h.balanced, fun r _ => hf r, fun r _ => by rw [h.compact, hf]⟩

theorem spells_plain {f : Reader Json} {x : Bytes} {a : Json} (hne : x ≠ [])
    (hx : ∀ c ∈ x, isPlain c = true) (hf : ReadsAs Follow f x a) : Spells f x a := by
  obtain ⟨c, t, rfl⟩ := List.exists_cons_of_ne_nil hne
  refine ⟨⟨c, t, rfl, ?_⟩, balanced_plain hx, hf, ?_⟩
  · have := hx c List.mem_cons_self
    simp only [isPlain, Bool.and_eq_true] at this
    simpa using this.2
  · rw [compact_plain hx]
    exact hf

/-- The first byte of a value that is a word or a number. -/
def isScalarHead (c : UInt8) : Prop := c ≠ 34 ∧ c ≠ 123 ∧ c ≠ 91 ∧ isSpace c = false

theorem jsonValueWith_scalar {deeper : Option (Reader Json)} {c : UInt8} {t : Bytes}
    (hc : isScalarHead c) : jsonValueWith deeper (c :: t) = jsonScalar (c :: t) := by
  obtain ⟨h34, h123, h91, hs⟩ := hc
  rw [jsonValueWith, jsonWs_cons_of_not_space hs]
  split
  · next h => exact absurd (List.cons.inj h).1 h34
  · next h => exact absurd (List.cons.inj h).1 h123
  · next h => exact absurd (List.cons.inj h).1 h91
  · rfl

theorem not_prefix_of_head {u w r : Bytes} (hw : w ≠ []) (hu : u ≠ []) (h : u.head? ≠ w.head?) :
    ¬ u <+: w ++ r := by
  obtain ⟨c, u, rfl⟩ := List.exists_cons_of_ne_nil hu
  obtain ⟨d, w, rfl⟩ := List.exists_cons_of_ne_nil hw
  intro hp
  exact h (by rw [(List.cons_prefix_cons.mp hp).1]; rfl)

theorem jsonScalar_word {w r : Bytes} (hw : w = lit "true" ∨ w = lit "false" ∨ w = lit "null") :
    jsonScalar (w ++ r) = some (.word w, r) := by
  rcases hw with rfl | rfl | rfl
  · rw [jsonScalar, if_pos (List.prefix_append _ _)]
    rfl
  · rw [jsonScalar, if_neg (not_prefix_of_head (by decide) (by decide) (by decide)),
      if_pos (List.prefix_append _ _)]
    rfl
  · rw [jsonScalar, if_neg (not_prefix_of_head (by decide) (by decide) (by decide)),
      if_neg (not_prefix_of_head (by decide) (by decide) (by decide)),
      if_pos (List.prefix_append _ _)]
    rfl

theorem prefix_of_follow {w x r : Bytes} (hw : ∀ c ∈ w, isSubjectChar c = true) (hr : Follow r)
    (h : w <+: x ++ r) : w <+: x := by
  cases r with
  | nil => simpa using h
  | cons c r =>
    refine prefix_of_prefix_cons (fun hc => ?_) h
    obtain ⟨hplain, h44, h93, h125⟩ := subjectChar_plain c (hw c hc)
    rcases hr c rfl with h | h | h | h
    · exact h44 h
    · exact h93 h
    · exact h125 h
    · simp [isPlain, h] at hplain

theorem jsonScalar_number {x r : Bytes} (hx : isSubject x = true) (hr : Follow r)
    (ht : ¬ lit "true" <+: x) (hf : ¬ lit "false" <+: x) (hn : ¬ lit "null" <+: x) :
    jsonScalar (x ++ r) = some (.number x, r) := by
  have hne : x ≠ [] := by
    rintro rfl
    exact absurd hx (by decide)
  have hword : ∀ w, (∀ c ∈ w, isSubjectChar c = true) → ¬ w <+: x → ¬ w <+: x ++ r :=
    fun w hw h hp => h (prefix_of_follow hw hr hp)
  rw [jsonScalar, if_neg (hword _ (by decide) ht), if_neg (hword _ (by decide) hf),
    if_neg (hword _ (by decide) hn)]
  simp [strtodSubject_append hx hr, hne]

theorem jsonScalar_eq_some {p r : Bytes} {v : Json} (h : jsonScalar p = some (v, r)) :
    ∃ x, p = x ++ r ∧ x ≠ [] ∧ (∀ c ∈ x, isSubjectChar c = true) ∧ ReadsAs Follow jsonScalar x v := by
  have hword : ∀ w, (w = lit "true" ∨ w = lit "false" ∨ w = lit "null") → w <+: p →
      p.drop w.length = r → v = .word w → ∃ x, p = x ++ r ∧ x ≠ [] ∧
        (∀ c ∈ x, isSubjectChar c = true) ∧ ReadsAs Follow jsonScalar x v := by
    rintro w hw ⟨t, rfl⟩ hr rfl
    refine ⟨w, by simpa using hr, ?_, ?_, fun r' _ => jsonScalar_word hw⟩
    · rcases hw with rfl | rfl | rfl <;> decide
    · rcases hw with rfl | rfl | rfl <;> decide
  unfold jsonScalar at h
  split_ifs at h with ht hf hn
  · obtain ⟨rfl, hr⟩ : Json.word (lit "true") = v ∧ p.drop 4 = r := by simpa using h
    exact hword _ (by simp) ht hr rfl
  · obtain ⟨rfl, hr⟩ : Json.word (lit "false") = v ∧ p.drop 5 = r := by simpa using h
    exact hword _ (by simp) hf hr rfl
  · obtain ⟨rfl, hr⟩ : Json.word (lit "null") = v ∧ p.drop 4 = r := by simpa using h
    exact hword _ (by simp) hn hr rfl
  · dsimp only at h
    split_ifs at h with hx
    obtain ⟨rfl, hr⟩ : Json.number (strtodSubject p) = v ∧ p.drop (strtodSubject p).length = r := by
      simpa using h
    obtain ⟨t, hp⟩ := Recent.prune_prefix isSubject p
    have hsub : isSubject (strtodSubject p) = true :=
      (Recent.prune_eq_nil_or_fits isSubject p).resolve_left hx
    have hno : ∀ w, ¬ w <+: p → ¬ w <+: strtodSubject p := fun w hw h =>
      hw (h.trans ⟨t, hp⟩)
    refine ⟨strtodSubject p, ?_, hx, subject_chars hsub, fun r' hr' => ?_⟩
    · rw [← hr]
      exact (List.prefix_iff_eq_append.mp ⟨t, hp⟩).symm
    · exact jsonScalar_number hsub hr' (hno _ ht) (hno _ hf) (hno _ hn)

set_option maxRecDepth 10000 in
theorem scalarHead_of_subjectChar : ∀ c, isSubjectChar c = true →
    c ≠ 34 ∧ c ≠ 123 ∧ c ≠ 91 ∧ isSpace c = false := by
  refine forall_byte ?_
  decide

theorem compact_cons {c : UInt8} {t : Bytes} (hc : isSpace c = false) :
    ∃ t', compact (c :: t) = c :: t' := by
  rw [compact, minifyCopy]
  split_ifs with h1 h2
  · exact ⟨_, rfl⟩
  · exact ⟨_, rfl⟩
  · simp [hc] at h2

/-- A bracket that closes an array or an object. -/
def isClose (c : UInt8) : Prop := c = 93 ∨ c = 125

theorem isClose.follow {c : UInt8} (hc : isClose c) (r : Bytes) : Follow (c :: r) := by
  rcases hc with rfl | rfl
  · exact follow_cons (by simp)
  · exact follow_cons (by simp)

theorem isClose.plain {c : UInt8} (hc : isClose c) : isPlain c = true ∧ isSpace c = false ∧ c ≠ 44 := by
  rcases hc with rfl | rfl <;> decide

theorem compact_space_cons {w : Bytes} {c : UInt8} (hw : ∀ d ∈ w, isSpace d = true)
    (hc : isPlain c = true) (x : Bytes) : compact (w ++ c :: x) = c :: compact x := by
  rw [(balanced_space hw).compact_append, compact_space hw, List.nil_append, compact,
    minifyCopy_plain hc]
  rfl

theorem balanced_space_cons {w x : Bytes} {c : UInt8} (hw : ∀ d ∈ w, isSpace d = true)
    (hc : isPlain c = true) (hx : Balanced x) : Balanced (w ++ c :: x) :=
  (balanced_space hw).append ((balanced_plain (x := [c]) (by simpa using hc)).append hx)

theorem strip_jsonWs {p r : Bytes} {c : UInt8} (h : strip (jsonWs p) [c] = some r) :
    isSpace c = false ∧ ∃ w, (∀ d ∈ w, isSpace d = true) ∧ p = w ++ c :: r := by
  have hp : jsonWs p = c :: r := by simpa using strip_eq_some.1 h
  obtain ⟨w, hw, he⟩ := exists_jsonWs p
  exact ⟨not_space_of_jsonWs hp, w, hw, by rw [← hp, ← he]⟩

theorem strip_jsonWs_append {w r : Bytes} {c : UInt8} (hw : ∀ d ∈ w, isSpace d = true)
    (hc : isSpace c = false) : strip (jsonWs (w ++ c :: r)) [c] = some r := by
  rw [jsonWs_append_space hw, jsonWs_cons_of_not_space hc]
  exact strip_append [c] r

theorem strip_jsonWs_ne {w r : Bytes} {c d : UInt8} (hw : ∀ d ∈ w, isSpace d = true)
    (hc : isSpace c = false) (hne : d ≠ c) : strip (jsonWs (w ++ c :: r)) [d] = none := by
  rw [jsonWs_append_space hw, jsonWs_cons_of_not_space hc]
  exact strip_eq_none.2 fun h => hne (List.cons_prefix_cons.mp h).1

section Sequence

variable {α : Type} {f : Reader α} {close : UInt8}

theorem consumes_jsonNext (hf : Reads f) : Consumes (jsonNext f) := by
  intro p a r h
  unfold jsonNext at h
  split at h
  · simp at h
  · next q hq =>
    obtain ⟨-, w, -, rfl⟩ := strip_jsonWs hq
    obtain ⟨x, -, rfl⟩ := hf.consumes q a r h
    exact ⟨w ++ 44 :: x, by simp, by simp⟩

theorem many_jsonNext (hf : Reads f) (hclose : isClose close) {p r : Bytes} {as : List α}
    (h : Many (fun p => strip (jsonWs p) [close]) (jsonNext f) p as r) :
    ∃ x, p = x ++ r ∧ Balanced x ∧ ∀ y, y = x ∨ y = compact x → ∀ r', Follow (y ++ r') ∧
      Many (fun p => strip (jsonWs p) [close]) (jsonNext f) (y ++ r') as r' := by
  obtain ⟨hplain, hspace, hcomma⟩ := hclose.plain
  have hnil : ∀ w : Bytes, (∀ c ∈ w, isSpace c = true) → ∀ r' : Bytes,
      Follow (w ++ close :: r') ∧
        Many (fun p => strip (jsonWs p) [close]) (jsonNext f) (w ++ close :: r') [] r' :=
    fun w hw r' => ⟨follow_append hw (hclose.follow r'), .nil (strip_jsonWs_append hw hspace)⟩
  have hcons : ∀ w w' x y : Bytes, ∀ a as r', (∀ c ∈ w, isSpace c = true) →
      (∀ c ∈ w', isSpace c = true) → f (w' ++ (x ++ (y ++ r'))) = some (a, y ++ r') →
      Many (fun p => strip (jsonWs p) [close]) (jsonNext f) (y ++ r') as r' →
      Follow (w ++ 44 :: (w' ++ (x ++ y)) ++ r') ∧
        Many (fun p => strip (jsonWs p) [close]) (jsonNext f)
          (w ++ 44 :: (w' ++ (x ++ y)) ++ r') (a :: as) r' := by
    intro w w' x y a as r' hw hw' hread hm
    rw [List.append_assoc, List.cons_append, List.append_assoc, List.append_assoc]
    refine ⟨follow_append hw (follow_cons (.inl rfl)), .cons ?_ ?_ hm⟩
    · exact strip_jsonWs_ne hw (by decide) hcomma
    · simp only [jsonNext, strip_jsonWs_append hw (show isSpace 44 = false by decide), hread]
  induction h with
  | @nil p r hs =>
    obtain ⟨-, w, hw, rfl⟩ := strip_jsonWs hs
    refine ⟨w ++ [close], by simp, balanced_space_cons hw hplain balanced_nil, ?_⟩
    rintro y (rfl | rfl) r'
    · simpa using hnil w hw r'
    · rw [compact_space_cons hw hplain]
      exact hnil [] (by simp) r'
  | @cons p q r a as _ hi _ ih =>
    obtain ⟨xq, rfl, hbal, hmany⟩ := ih
    unfold jsonNext at hi
    split at hi
    · simp at hi
    · next p' hp' =>
      obtain ⟨-, w, hw, rfl⟩ := strip_jsonWs hp'
      obtain ⟨x, hx, hsp⟩ := hf.spells p' a _ hi
      obtain ⟨w', hw', he⟩ := exists_jsonWs p'
      have h44 : isPlain 44 = true := by decide
      refine ⟨w ++ 44 :: (w' ++ (x ++ xq)), by rw [he, hx]; simp,
        balanced_space_cons hw h44 ((balanced_space hw').append (hsp.balanced.append hbal)), ?_⟩
      rintro y (rfl | rfl) r'
      · obtain ⟨hfol, hm⟩ := hmany xq (.inl rfl) r'
        exact hcons w w' x xq a as r' hw hw' (hsp.readsSpace hf hw' hfol) hm
      · obtain ⟨hfol, hm⟩ := hmany _ (.inr rfl) r'
        rw [compact_space_cons hw h44, (balanced_space hw').compact_append, compact_space hw',
          hsp.balanced.compact_append]
        exact hcons [] [] _ _ a as r' (by simp) (by simp) (hsp.readsCompact _ hfol) hm

theorem jsonSequence_eq_some (hf : Reads f) (hclose : isClose close) {p r : Bytes} {as : List α}
    (h : jsonSequence f close p = some (as, r)) :
    ∃ x, p = x ++ r ∧ Balanced x ∧ ∀ y, y = x ∨ y = compact x → ∀ r',
      jsonSequence f close (y ++ r') = some (as, r') := by
  obtain ⟨hplain, hspace, -⟩ := hclose.plain
  unfold jsonSequence at h
  split at h
  · next q hq =>
    obtain ⟨rfl, rfl⟩ : [] = as ∧ q = r := by simpa using h
    obtain ⟨-, w, hw, rfl⟩ := strip_jsonWs hq
    refine ⟨w ++ [close], by simp, balanced_space_cons hw hplain balanced_nil, ?_⟩
    rintro y (rfl | rfl) r'
    · rw [List.append_assoc, List.singleton_append, jsonSequence, strip_jsonWs_append hw hspace]
    · have hread := strip_jsonWs_append (w := []) (r := r') (by simp) hspace
      rw [List.nil_append] at hread
      rw [compact_space_cons hw hplain, compact_nil, List.singleton_append, jsonSequence, hread]
  · next hs =>
    unfold jsonItems at h
    split at h
    · simp at h
    · next a q ha =>
      obtain ⟨⟨as', r'⟩, hread, he⟩ := Option.map_eq_some_iff.mp h
      obtain ⟨rfl, rfl⟩ : a :: as' = as ∧ r' = r := by simpa using he
      obtain ⟨xq, rfl, hbal, hmany⟩ := many_jsonNext hf hclose
        ((readAll_eq_some (consumes_jsonNext hf)).mp hread)
      obtain ⟨x, hx, hsp⟩ := hf.spells p a _ ha
      obtain ⟨w, hw, hp⟩ := exists_jsonWs p
      obtain ⟨c, t, rfl, hc⟩ := hsp.head
      have hne : close ≠ c := by
        rintro rfl
        rw [hx] at hs
        exact strip_eq_none.1 hs ⟨_, rfl⟩
      have hgo : ∀ w t y : Bytes, (∀ c ∈ w, isSpace c = true) → ∀ r'',
          f (w ++ (c :: t ++ (y ++ r''))) = some (a, y ++ r'') →
          Many (fun p => strip (jsonWs p) [close]) (jsonNext f) (y ++ r'') as' r'' →
          jsonSequence f close (w ++ (c :: t ++ y) ++ r'') = some (a :: as', r'') := by
        intro w t y hw r'' hread hm
        rw [List.append_assoc, List.append_assoc, jsonSequence, List.cons_append,
          strip_jsonWs_ne hw hc hne]
        simp only [jsonItems, ← List.cons_append, hread,
          (readAll_eq_some (consumes_jsonNext hf)).mpr hm, Option.map_some]
      refine ⟨w ++ (c :: t ++ xq), by rw [hp, hx]; simp,
        (balanced_space hw).append (hsp.balanced.append hbal), ?_⟩
      rintro y (rfl | rfl) r''
      · obtain ⟨hfol, hm⟩ := hmany xq (.inl rfl) r''
        exact hgo w t xq hw r'' (hsp.readsSpace hf hw hfol) hm
      · obtain ⟨hfol, hm⟩ := hmany _ (.inr rfl) r''
        rw [(balanced_space hw).compact_append, compact_space hw, hsp.balanced.compact_append]
        obtain ⟨t', ht'⟩ := compact_cons (t := t) hc
        have hcomp := hsp.readsCompact _ hfol
        rw [ht'] at hcomp ⊢
        exact hgo [] t' _ (by simp) r'' hcomp hm

end Sequence

theorem jsonString_jsonWs (p : Bytes) : jsonString (jsonWs p) = jsonString p := by
  rw [jsonString, jsonString, jsonWs_jsonWs]

theorem reads_jsonMember {value : Reader Json} (hv : Reads value) : Reads (jsonMember value) := by
  refine ⟨fun p => by rw [jsonMember, jsonMember, jsonString_jsonWs], ?_⟩
  intro p a r h
  unfold jsonMember at h
  split at h
  · simp at h
  · next key q hkey =>
    split at h
    · simp at h
    · next q' hq' =>
      obtain ⟨⟨v, r'⟩, hval, he⟩ := Option.map_eq_some_iff.mp h
      obtain ⟨rfl, rfl⟩ : (key, v) = a ∧ r' = r := by simpa using he
      obtain ⟨x, hx, hlit⟩ := jsonString_eq_some hkey
      obtain ⟨-, w, hw, rfl⟩ := strip_jsonWs hq'
      obtain ⟨y, hy, hsp⟩ := hv.spells q' v _ hval
      obtain ⟨w', hw', hq⟩ := exists_jsonWs q'
      obtain ⟨t, rfl⟩ := hlit.head
      have h58 : isPlain 58 = true ∧ isSpace 58 = false := by decide
      have hgo : ∀ w w' y : Bytes, (∀ c ∈ w, isSpace c = true) → ∀ s, value (w' ++ (y ++ s)) = some (v, s) →
          jsonMember value (34 :: t ++ (w ++ 58 :: (w' ++ y)) ++ s) = some ((key, v), s) := by
        intro w w' y hw s hread
        have hs : 34 :: t ++ (w ++ 58 :: (w' ++ y)) ++ s =
            34 :: t ++ (w ++ 58 :: (w' ++ (y ++ s))) := by simp
        simp only [hs, jsonMember, hlit.reads, strip_jsonWs_append hw h58.2, hread, Option.map_some]
      refine ⟨34 :: t ++ (w ++ 58 :: (w' ++ y)), ?_, ⟨⟨34, _, rfl, by decide⟩, ?_, ?_, ?_⟩⟩
      · rw [hx, hq, hy]
        simp
      · exact hlit.balanced.append (balanced_space_cons hw h58.1
          ((balanced_space hw').append hsp.balanced))
      · exact fun s hs => hgo w w' y hw s (hsp.readsSpace hv hw' hs)
      · intro s hs
        rw [hlit.balanced.compact_append, hlit.compact, compact_space_cons hw h58.1,
          (balanced_space hw').compact_append, compact_space hw']
        exact hgo [] [] _ (by simp) s (hsp.readsCompact s hs)

theorem reads_jsonValueWith {deeper : Option (Reader Json)}
    (hd : ∀ value, deeper = some value → Reads value) : Reads (jsonValueWith deeper) := by
  refine ⟨fun p => by rw [jsonValueWith, jsonValueWith, jsonWs_jsonWs], ?_⟩
  -- an array or an object, given what is read behind its bracket
  have hseq : ∀ (α : Type) (f : Reader α) (make : List α → Json) (o close : UInt8), Reads f →
      isClose close → isPlain o = true →
      (∀ p, jsonValueWith deeper (o :: p) =
        (jsonSequence f close p).map fun read => (make read.1, read.2)) → ∀ p as r,
      jsonSequence f close p = some (as, r) →
      ∃ x, o :: p = x ++ r ∧ Spells (jsonValueWith deeper) x (make as) := by
    intro α f make o close hf hclose ho hmake p as r h
    obtain ⟨x, rfl, hbal, hread⟩ := jsonSequence_eq_some hf hclose h
    have hspace : isSpace o = false := by
      simp only [isPlain, Bool.and_eq_true] at ho
      simpa using ho.2
    refine ⟨o :: x, rfl, ⟨o, x, rfl, hspace⟩, ?_, fun s _ => ?_, fun s _ => ?_⟩
    · exact balanced_space_cons (w := []) (by simp) ho hbal
    · rw [List.cons_append, hmake, hread x (.inl rfl)]
      rfl
    · have := compact_space_cons (w := []) (by simp) ho x
      rw [List.nil_append] at this
      rw [this, List.cons_append, hmake, hread _ (.inr rfl)]
      rfl
  intro p a r h
  have hp := h
  rw [jsonValueWith] at hp
  split at hp
  · next q hq =>
    obtain ⟨⟨s, r'⟩, hs, he⟩ := Option.map_eq_some_iff.mp hp
    obtain ⟨rfl, rfl⟩ : Json.string s = a ∧ r' = r := by simpa using he
    obtain ⟨x, hx, hlit⟩ := jsonString_eq_some hs
    rw [jsonWs_cons_of_not_space (by decide)] at hx
    obtain ⟨t, rfl⟩ := hlit.head
    refine ⟨34 :: t, by rw [hq, hx], hlit.spells fun r => ?_⟩
    have := hlit.reads r
    rw [List.cons_append] at this ⊢
    rw [jsonValueWith, jsonWs_cons_of_not_space (by decide)]
    simp [this]
  · next q hq =>
    obtain ⟨value, rfl, hv⟩ := Option.bind_eq_some_iff.mp hp
    obtain ⟨⟨ms, r'⟩, hms, he⟩ := Option.map_eq_some_iff.mp hv
    obtain ⟨rfl, rfl⟩ : Json.object ms = a ∧ r' = r := by simpa using he
    rw [hq]
    refine hseq _ _ Json.object 123 125 (reads_jsonMember (hd _ rfl)) (.inr rfl) (by decide) ?_ q ms _ hms
    intro p
    rw [jsonValueWith, jsonWs_cons_of_not_space (by decide)]
    rfl
  · next q hq =>
    obtain ⟨value, rfl, hv⟩ := Option.bind_eq_some_iff.mp hp
    obtain ⟨⟨vs, r'⟩, hvs, he⟩ := Option.map_eq_some_iff.mp hv
    obtain ⟨rfl, rfl⟩ : Json.array vs = a ∧ r' = r := by simpa using he
    rw [hq]
    refine hseq _ _ Json.array 91 93 (hd _ rfl) (.inl rfl) (by decide) ?_ q vs _ hvs
    intro p
    rw [jsonValueWith, jsonWs_cons_of_not_space (by decide)]
    rfl
  · next h34 h123 h91 =>
    obtain ⟨x, hx, hne, hchars, hread⟩ := jsonScalar_eq_some hp
    refine ⟨x, hx, spells_plain hne (fun c hc => (subjectChar_plain c (hchars c hc)).1) ?_⟩
    intro s hs
    obtain ⟨c, t, rfl⟩ := List.exists_cons_of_ne_nil hne
    rw [List.cons_append, jsonValueWith_scalar (scalarHead_of_subjectChar c (hchars c (by simp))),
      ← List.cons_append, hread s hs]

/-- **A JSON value ends at the same byte whatever delimiter follows, also when it is minified.** -/
theorem reads_jsonValue (levels : Nat) : Reads (jsonValue levels) := by
  induction levels with
  | zero => exact reads_jsonValueWith (by simp)
  | succ levels ih =>
    refine reads_jsonValueWith fun value hvalue => ?_
    obtain rfl : jsonValue levels = value := by simpa using hvalue
    exact ih

/-! ## Depth -/

section Mono

variable {α : Type} {f g : Reader α}

theorem jsonNext_mono (h : ∀ p x, f p = some x → g p = some x) {p : Bytes} {x : α × Bytes}
    (hx : jsonNext f p = some x) : jsonNext g p = some x := by
  unfold jsonNext at hx ⊢
  split at hx
  · simp at hx
  · exact h _ _ hx

theorem jsonSequence_mono (hg : Reads g) (h : ∀ p x, f p = some x → g p = some x) {close : UInt8}
    {p : Bytes} {x : List α × Bytes} (hx : jsonSequence f close p = some x) :
    jsonSequence g close p = some x := by
  unfold jsonSequence at hx ⊢
  split at hx
  · exact hx
  · unfold jsonItems at hx ⊢
    split at hx
    · simp at hx
    · next a q ha =>
      obtain ⟨y, hy, rfl⟩ := Option.map_eq_some_iff.mp hx
      simp only [h _ _ ha, readAll_mono (consumes_jsonNext hg) (fun _ _ => jsonNext_mono h) hy,
        Option.map_some]

end Mono

theorem jsonValue_succ {levels : Nat} {p : Bytes} {x : Json × Bytes}
    (h : jsonValue levels p = some x) : jsonValue (levels + 1) p = some x := by
  have hwith : ∀ (deeper : Option (Reader Json)) (value : Reader Json), Reads value →
      (∀ f, deeper = some f → ∀ p x, f p = some x → value p = some x) →
      ∀ p x, jsonValueWith deeper p = some x → jsonValueWith (some value) p = some x := by
    intro deeper value hvalue hle p x h
    unfold jsonValueWith at h ⊢
    split at h
    · exact h
    · obtain ⟨f, hf, hx⟩ := Option.bind_eq_some_iff.mp h
      obtain ⟨y, hy, rfl⟩ := Option.map_eq_some_iff.mp hx
      have hmember : ∀ p x, jsonMember f p = some x → jsonMember value p = some x := by
        intro p x hx
        unfold jsonMember at hx ⊢
        split at hx
        · simp at hx
        · split at hx
          · simp at hx
          · obtain ⟨z, hz, rfl⟩ := Option.map_eq_some_iff.mp hx
            simp only [hle f hf _ _ hz, Option.map_some]
      simp only [Option.bind_some, jsonSequence_mono (reads_jsonMember hvalue) hmember hy,
        Option.map_some]
    · obtain ⟨f, hf, hx⟩ := Option.bind_eq_some_iff.mp h
      obtain ⟨y, hy, rfl⟩ := Option.map_eq_some_iff.mp hx
      simp only [Option.bind_some, jsonSequence_mono hvalue (hle f hf) hy, Option.map_some]
    · exact h
  induction levels generalizing p x with
  | zero => exact hwith none _ (reads_jsonValue 0) (by simp) p x h
  | succ levels ih =>
    refine hwith _ _ (reads_jsonValue (levels + 1)) (fun f hf p x hx => ?_) p x h
    obtain rfl := Option.some.inj hf
    exact ih hx

end Ds4.Server
