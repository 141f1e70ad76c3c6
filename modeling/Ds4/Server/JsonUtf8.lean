import Ds4.Server.JsonRead
import Ds4.Server.Utf8Hold

/-!
# The characters of a JSON string

What `json_string` puts out for an escape is always one whole character (`jsonUnicode_spec`): the two
halves of a surrogate pair become the character they stand for, and a half alone becomes U+FFFD. The
escapes are ASCII, so that a text of whole characters between the quotes is decoded to one
(`jsonString_valid`).
-/

namespace Ds4.Server

open Ds4.Lib Ds4.Tokenizer

/-! ## Code points -/

/-- The character of a code point, U+FFFD for a number that is none. -/
def scalarChar (cp : Nat) : Char :=
  if h : cp.isValidChar then Char.ofNatAux cp h else '\ufffd'

theorem toNat_scalarChar {cp : Nat} (h : cp.isValidChar) : (scalarChar cp).val.toNat = cp := by
  rw [scalarChar, dif_pos h]
  exact UInt32.toNat_ofNatLT ..

/-- **`utf8_put` writes the encoding of a character.** -/
theorem utf8Put_eq (cp : Nat) : utf8Put cp = String.utf8EncodeChar (scalarChar cp) := by
  have hreplace : utf8Put cp = utf8Put (scalarChar cp).val.toNat := by
    by_cases h : cp.isValidChar
    · rw [toNat_scalarChar h]
    · have hbad : cp > 0x10ffff ∨ (0xd800 ≤ cp ∧ cp ≤ 0xdfff) := by
        simp only [Nat.isValidChar] at h
        omega
      rw [scalarChar, dif_neg h, utf8Put, if_pos hbad]
      rfl
  have hok : ¬ ((scalarChar cp).val.toNat > 0x10ffff ∨
      (0xd800 ≤ (scalarChar cp).val.toNat ∧ (scalarChar cp).val.toNat ≤ 0xdfff)) := by
    have := (scalarChar cp).valid
    simp only [UInt32.isValidChar, Nat.isValidChar] at this
    omega
  rw [hreplace, utf8Put, if_neg hok, String.utf8EncodeChar]
  have hlt : (scalarChar cp).val.toNat < 0x110000 := by omega
  generalize (scalarChar cp).val.toNat = v at hlt
  dsimp only
  split_ifs with h1 h2 h3
  · rfl
  · rw [Nat.mod_eq_of_lt (by omega : v / 64 < 32), Nat.add_comm 0xc0, Nat.add_comm 0x80]
  · rw [Nat.mod_eq_of_lt (by omega : v / 4096 < 16), Nat.add_comm 0xe0, Nat.add_comm 0x80,
      Nat.add_comm 0x80]
  · rw [Nat.mod_eq_of_lt (by omega : v / 262144 < 8), Nat.add_comm 0xf0, Nat.add_comm 0x80,
      Nat.add_comm 0x80, Nat.add_comm 0x80]

/-! ## Escapes -/

/-- The first half of a surrogate pair. -/
def HighSurrogate (cp : Nat) : Prop := 0xd800 ≤ cp ∧ cp ≤ 0xdbff

/-- The second half of a surrogate pair. -/
def LowSurrogate (cp : Nat) : Prop := 0xdc00 ≤ cp ∧ cp ≤ 0xdfff

/-- The code point of a surrogate pair. -/
def pairCodePoint (hi lo : Nat) : Nat := 0x10000 + (hi - 0xd800) * 1024 + (lo - 0xdc00)

set_option maxRecDepth 10000 in
theorem hexDigit_ascii : ∀ c, isHexDigit c = true → c < 0x80 := by
  refine forall_byte ?_
  decide

theorem jsonU16_ascii {p q : Bytes} {n : Nat} (h : jsonU16 p = some (n, q)) :
    ∃ x, p = 92 :: x ++ q ∧ ∀ c ∈ x, c < 0x80 := by
  obtain ⟨a, b, c, d, rfl, ha, hb, hc, hd⟩ := jsonU16_eq_some h
  refine ⟨[117, a, b, c, d], rfl, ?_⟩
  simp [hexDigit_ascii a ha, hexDigit_ascii b hb, hexDigit_ascii c hc, hexDigit_ascii d hd]

/-- **The two escapes of a surrogate pair are read as the character of the pair.** -/
theorem jsonUnicode_pair {p q r : Bytes} {hi lo : Nat} (h : jsonU16 p = some (hi, q))
    (hhi : HighSurrogate hi) (hlo : jsonU16 q = some (lo, r)) (hlow : LowSurrogate lo) :
    jsonUnicode p = some (String.utf8EncodeChar (scalarChar (pairCodePoint hi lo)), r) := by
  have hhi' : 0xd800 ≤ hi ∧ hi ≤ 0xdbff := hhi
  have hlow' : 0xdc00 ≤ lo ∧ lo ≤ 0xdfff := hlow
  rw [← utf8Put_eq]
  unfold jsonUnicode
  rw [h]
  dsimp only
  rw [if_pos hhi', hlo]
  dsimp only
  rw [if_pos hlow']
  unfold pairCodePoint
  with_reducible rfl

/-- **Any other escape is read as its own character, a surrogate as U+FFFD.** -/
theorem jsonUnicode_single {p q : Bytes} {cp : Nat} (h : jsonU16 p = some (cp, q))
    (hlone : HighSurrogate cp → ∀ lo r, jsonU16 q = some (lo, r) → ¬ LowSurrogate lo) :
    jsonUnicode p = some (String.utf8EncodeChar (scalarChar cp), q) := by
  rw [jsonUnicode, h]
  dsimp only
  by_cases hhi : HighSurrogate cp
  · have hhi' : 0xd800 ≤ cp ∧ cp ≤ 0xdbff := hhi
    have hbad : utf8Put cp = utf8Put 0xfffd := by
      have hcp : cp > 0x10ffff ∨ 0xd800 ≤ cp ∧ cp ≤ 0xdfff := by omega
      simp only [utf8Put, hcp, if_true]
      rfl
    rw [if_pos hhi', ← utf8Put_eq, hbad]
    split
    · next lo r hlo =>
      have hlow : ¬ (0xdc00 ≤ lo ∧ lo ≤ 0xdfff) := hlone hhi lo r hlo
      rw [if_neg hlow]
    · rfl
  · have hhi' : ¬ (0xd800 ≤ cp ∧ cp ≤ 0xdbff) := hhi
    rw [if_neg hhi', utf8Put_eq]

theorem jsonUnicode_ascii {p q b : Bytes} (h : jsonUnicode p = some (b, q)) :
    ∃ x c, p = 92 :: x ++ q ∧ (∀ d ∈ x, d < 0x80) ∧ b = String.utf8EncodeChar c := by
  obtain ⟨⟨cp, r⟩, hcp⟩ : ∃ y, jsonU16 p = some y := by
    refine Option.ne_none_iff_exists'.mp fun hnone => ?_
    rw [jsonUnicode, hnone] at h
    cases h
  obtain ⟨x, hx, hascii⟩ := jsonU16_ascii hcp
  by_cases hpair : HighSurrogate cp ∧ ∃ lo r', jsonU16 r = some (lo, r') ∧ LowSurrogate lo
  · obtain ⟨hhi, lo, r', hlo, hlow⟩ := hpair
    obtain ⟨rfl, rfl⟩ : _ = b ∧ r' = q := by simpa [jsonUnicode_pair hcp hhi hlo hlow] using h
    obtain ⟨x', rfl, hascii'⟩ := jsonU16_ascii hlo
    refine ⟨x ++ 92 :: x', _, by simp [hx], ?_, rfl⟩
    intro d hd
    rcases List.mem_append.mp hd with hd | hd
    · exact hascii d hd
    · rcases List.mem_cons.mp hd with rfl | hd
      · decide
      · exact hascii' d hd
  · have hlone : HighSurrogate cp → ∀ lo r', jsonU16 r = some (lo, r') → ¬ LowSurrogate lo :=
      fun hhi lo r' hlo hlow => hpair ⟨hhi, lo, r', hlo, hlow⟩
    obtain ⟨rfl, rfl⟩ : _ = b ∧ r = q := by simpa [jsonUnicode_single hcp hlone] using h
    exact ⟨x, _, hx, hascii, rfl⟩

/-! ## Validity -/

theorem ValidUtf8.of_ascii {x s : Bytes} (hx : ∀ d ∈ x, d < 0x80) (h : ValidUtf8 (x ++ s)) :
    ValidUtf8 s := by
  induction x with
  | nil => exact h
  | cons d x ih =>
    refine ih (fun e he => hx e (List.mem_cons_of_mem d he)) ?_
    have hd : d < 0x80 := hx d List.mem_cons_self
    refine (ValidUtf8.of_append (a := [d]) h ?_).2
    rintro ⟨i, hi, -, hlen⟩
    obtain rfl : i = 0 := by simpa using hi
    have hge := (of_expectedLen (c := d) (by simpa using hlen)).2
    exact absurd hd (UInt8.not_lt.mpr hge)

theorem ValidUtf8.replace {a x s : Bytes} (c : Char) (hx : ∀ d ∈ x, d < 0x80)
    (h : ValidUtf8 (a ++ (92 :: x ++ s))) : ValidUtf8 (a ++ String.utf8EncodeChar c) ∧ ValidUtf8 s := by
  have hne : ∀ d, (92 :: x ++ s).head? = some d → isContinuation d = false := by
    intro d hd
    obtain rfl : 92 = d := by simpa using hd
    decide
  obtain ⟨ha, hrest⟩ := h.split hne
  have hone : ValidUtf8 (String.utf8EncodeChar c) := ⟨[c], by simp [encode]⟩
  refine ⟨hone.append_left ha, hrest.of_ascii ?_⟩
  intro d hd
  rcases List.mem_cons.mp hd with rfl | hd
  · decide
  · exact hx d hd

set_option maxRecDepth 10000 in
theorem jsonUnescape_ascii : ∀ e v, jsonUnescape e = some v → e < 0x80 ∧ v < 0x80 := by
  have hall : ∀ e, (jsonUnescape e).all (fun v => e < 0x80 && v < 0x80) = true := by
    refine forall_byte ?_
    decide
  intro e v hv
  have := hall e
  rw [hv] at this
  simpa using this

theorem exists_char_ascii {v : UInt8} (hv : v < 0x80) : ∃ c, [v] = String.utf8EncodeChar c := by
  have hlt : v.toNat < 0x80 := UInt8.lt_iff_toNat_lt.mp hv
  have hok : ¬ (v.toNat > 0x10ffff ∨ (0xd800 ≤ v.toNat ∧ v.toNat ≤ 0xdfff)) := by omega
  refine ⟨scalarChar v.toNat, ?_⟩
  rw [← utf8Put_eq, utf8Put, if_neg hok]
  dsimp only
  rw [if_pos (by omega), UInt8.ofNat_toNat]

theorem jsonChar_takes {p q b : Bytes} (h : jsonChar p = some (b, q)) :
    (∃ c, b = [c] ∧ p = c :: q) ∨
    ∃ x c, p = 92 :: x ++ q ∧ (∀ d ∈ x, d < 0x80) ∧ b = String.utf8EncodeChar c := by
  rcases jsonChar_eq_some h with ⟨c, -, rfl, rfl⟩ | ⟨e, v, -, hv, rfl, rfl⟩ | ⟨r, rfl, hu⟩
  · exact .inl ⟨c, rfl, rfl⟩
  · obtain ⟨he, hv⟩ := jsonUnescape_ascii e v hv
    obtain ⟨c, hc⟩ := exists_char_ascii hv
    exact .inr ⟨[e], c, rfl, by simpa using he, hc⟩
  · exact .inr (jsonUnicode_ascii hu)

/-- The loop puts out whole characters when it reads a text of whole characters. The induction is on
its rounds, with what it has put out so far in `a`, which can end inside a character. -/
theorem many_valid {p r : Bytes} {chunks : List Bytes}
    (h : Many (fun q => strip q [34]) jsonChar p chunks r) :
    ∃ y, p = y ++ 34 :: r ∧ ∀ a, ValidUtf8 (a ++ y) → ValidUtf8 (a ++ chunks.flatten) := by
  induction h with
  | @nil p r hs =>
    obtain rfl : p = 34 :: r := by simpa using strip_eq_some.1 hs
    exact ⟨[], rfl, fun a ha => by simpa using ha⟩
  | @cons p q r b chunks _ hc _ ih =>
    obtain ⟨y, rfl, ih⟩ := ih
    rcases jsonChar_takes hc with ⟨c, rfl, rfl⟩ | ⟨x, c, rfl, hx, rfl⟩
    · refine ⟨c :: y, rfl, fun a ha => ?_⟩
      have := ih (a ++ [c]) (by simpa using ha)
      simpa using this
    · refine ⟨92 :: x ++ y, by simp, fun a ha => ?_⟩
      obtain ⟨hfront, hrest⟩ := ha.replace c hx
      have := (ih [] hrest).append_left hfront
      simpa using this

theorem ValidUtf8.cString {s : Bytes} (h : ValidUtf8 s) : ValidUtf8 (cString s) := by
  have hs : s = Server.cString s ++ s.dropWhile fun c => c ≠ 0 :=
    List.takeWhile_append_dropWhile.symm
  rw [hs] at h
  refine (h.split fun d hd => ?_).1
  obtain ⟨t, ht⟩ : ∃ t, (s.dropWhile fun c => c ≠ 0) = d :: t := List.head?_eq_some_iff.mp hd
  have hzero : d = 0 := by simpa using head_of_dropWhile ht
  rw [hzero]
  decide

/-- **The decoded string is of whole characters when the text between the quotes is.** -/
theorem jsonString_valid {p s r : Bytes} (h : jsonString p = some (s, r)) :
    ∃ raw, jsonWs p = 34 :: raw ++ 34 :: r ∧ (ValidUtf8 raw → ValidUtf8 s) := by
  unfold jsonString at h
  split at h
  · next q hq =>
    obtain ⟨⟨chunks, r'⟩, hread, he⟩ := Option.map_eq_some_iff.mp h
    obtain ⟨rfl, rfl⟩ : cString chunks.flatten = s ∧ r' = r := by simpa using he
    obtain ⟨y, rfl, hvalid⟩ := many_valid ((readAll_eq_some consumes_jsonChar).mp hread)
    exact ⟨y, hq, fun hy => (hvalid [] hy).cString⟩
  · simp at h

/-! ## The codec -/

theorem jsonEscape_pieces {pieces : List Bytes} (h : 0 ∉ pieces.flatten) :
    34 :: (pieces.map jsonEscapeFragment).flatten ++ [34] = jsonEscape pieces.flatten := by
  have hflat : (pieces.map jsonEscapeFragment).flatten = jsonEscapeFragment pieces.flatten := by
    clear h
    induction pieces with
    | nil => rfl
    | cons s pieces ih =>
      rw [List.map_cons, List.flatten_cons, List.flatten_cons, ih, jsonEscapeFragment,
        jsonEscapeFragment, jsonEscapeFragment, List.flatMap_append]
  rw [jsonEscape, jsonEscapeLoop_eq, cString_eq_self h, hflat]

/-- **The string codec.** An escaped string is read back, escaping goes piece by piece, and decoding
keeps whole characters: a surrogate pair is one character and a half alone is U+FFFD. -/
theorem json_codec :
    (∀ s r : Bytes, 0 ∉ s → jsonString (jsonEscape s ++ r) = some (s, r)) ∧
    (∀ pieces : List Bytes, 0 ∉ pieces.flatten →
      34 :: (pieces.map jsonEscapeFragment).flatten ++ [34] = jsonEscape pieces.flatten) ∧
    (∀ p s r : Bytes, jsonString p = some (s, r) →
      ∃ raw, jsonWs p = 34 :: raw ++ 34 :: r ∧ (ValidUtf8 raw → ValidUtf8 s)) ∧
    (∀ (p q r : Bytes) (hi lo : Nat), jsonU16 p = some (hi, q) → HighSurrogate hi →
      jsonU16 q = some (lo, r) → LowSurrogate lo →
      jsonChar p = some (String.utf8EncodeChar (scalarChar (pairCodePoint hi lo)), r)) ∧
    (∀ (p q : Bytes) (cp : Nat), jsonU16 p = some (cp, q) →
      (HighSurrogate cp → ∀ lo r, jsonU16 q = some (lo, r) → ¬ LowSurrogate lo) →
      jsonChar p = some (String.utf8EncodeChar (scalarChar cp), q)) := by
  have hchar : ∀ {p q : Bytes} {n : Nat}, jsonU16 p = some (n, q) → jsonChar p = jsonUnicode p := by
    intro p q n h
    obtain ⟨a, b, c, d, rfl, -⟩ := jsonU16_eq_some h
    simp only [jsonChar, if_true]
  refine ⟨fun s r hs => jsonString_escape hs r, fun _ => jsonEscape_pieces, fun p s r => jsonString_valid, ?_, ?_⟩
  · intro p q r hi lo hp hhi hlo hlow
    rw [hchar hp, jsonUnicode_pair hp hhi hlo hlow]
  · intro p q cp hp hlone
    rw [hchar hp, jsonUnicode_single hp hlone]

/-- A string in two pieces, a pair, and a half alone in front of a letter. -/
theorem json_codec_pair :
    jsonString (34 :: (jsonEscapeFragment (lit "é\n") ++ jsonEscapeFragment (lit "\"")) ++ [34] ++ lit ",") =
        some (lit "é\n\"", lit ",") ∧
      jsonChar (lit "\\ud83d\\ude00") = some (String.utf8EncodeChar '😀', []) ∧
      jsonChar (lit "\\ud83dx") = some (String.utf8EncodeChar '\ufffd', lit "x") := by
  obtain ⟨hread, hpieces, -, hpair, hsingle⟩ := json_codec
  refine ⟨?_, ?_, ?_⟩
  · have htext := hpieces [lit "é\n", lit "\""] (by decide)
    rw [List.map_cons, List.map_cons, List.map_nil, List.flatten_cons, List.flatten_cons, List.flatten_nil,
      List.append_nil] at htext
    rw [htext]
    exact hread _ _ (by decide)
  · exact hpair _ (lit "\\ude00") _ 0xd83d 0xde00 (by decide) (by unfold HighSurrogate; omega) (by decide)
      (by unfold LowSurrogate; omega)
  · have hnone : jsonU16 (lit "x") = none := by decide
    refine hsingle _ (lit "x") 0xd83d (by decide) fun _ lo r h => ?_
    rw [hnone] at h
    cases h

end Ds4.Server
