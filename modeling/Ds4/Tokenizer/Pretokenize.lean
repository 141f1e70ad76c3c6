import Ds4.Tokenizer.Unicode
import Ds4.Tokenizer.Utf8

/-!
# The DeepSeek pre-tokenizer

`deepseek_match`, the three splits and `bpe_tokenize_text` as DeepSeek V4 and V4.1 take it. A place in
a text is what is left of the text from there to its end; a function returns the pieces that the
source hands to `bpe_emit_piece`, in order.
-/

namespace Ds4.Tokenizer

open Ds4.Lib

/-! ## Characters -/

/-- `deepseek_char`. -/
structure DeepseekChar where
  cp : Nat
  cls : Nat
  next : Bytes

/-- `deepseek_char_at`. -/
def deepseekCharAt (l : Bytes) : DeepseekChar :=
  ⟨utf8PeekOne l, deepseekUclass (utf8PeekOne l), utf8Next l⟩

/-- Whether a class has a bit of a mask. -/
def hasClass (cls mask : Nat) : Bool := cls &&& mask != 0

/-- `ascii_alpha`. -/
def asciiAlpha (c : UInt8) : Bool := (65 ≤ c && c ≤ 90) || (97 ≤ c && c ≤ 122)

/-- `ascii_newline`. -/
def asciiNewline (c : UInt8) : Bool := c == 10 || c == 13

/-- `joyai_ascii_punct_symbol`. -/
def joyaiAsciiPunctSymbol (c : UInt8) : Bool :=
  (33 ≤ c && c ≤ 47) || (58 ≤ c && c ≤ 64) || (91 ≤ c && c ≤ 96) || (123 ≤ c && c ≤ 126)

/-- `utf8_is_cjk_hira_kata`. -/
def utf8IsCjkHiraKata (cp : Nat) : Bool :=
  (decide (0x4e00 ≤ cp) && decide (cp ≤ 0x9fa5)) || (decide (0x3040 ≤ cp) && decide (cp ≤ 0x309f)) ||
    (decide (0x30a0 ≤ cp) && decide (cp ≤ 0x30ff))

/-! ## Matches -/

/-- A loop that goes on over the characters with a property, `n` of them at most. -/
def skipChars (p : DeepseekChar → Bool) : Nat → Bytes → Bytes
  | 0, l => l
  | n + 1, l =>
    if l = [] then l
    else if p (deepseekCharAt l) then skipChars p n (deepseekCharAt l).next
    else l

/-- `deepseek_run`; a text has no more characters than bytes. -/
def deepseekRun (mask : Nat) (l : Bytes) : Bytes :=
  skipChars (fun c => hasClass c.cls mask) l.length l

/-- `deepseek_run_newlines`. -/
def deepseekRunNewlines (l : Bytes) : Bytes := l.dropWhile asciiNewline

/-- The state of the loop over white space in `deepseek_match`. -/
structure SpaceScan where
  p : Bytes
  last : Bytes
  newlineEnd : Option Bytes
  count : Nat

/-- The loop over white space in `deepseek_match`, over `n` characters at most. -/
def scanSpace : Nat → SpaceScan → SpaceScan
  | 0, st => st
  | n + 1, st =>
    if st.p = [] then st
    else
      let w := deepseekCharAt st.p
      if !hasClass w.cls uclassWS then st
      else
        scanSpace n
          { p := w.next
            last := st.p
            newlineEnd := if w.cp = 13 ∨ w.cp = 10 then some w.next else st.newlineEnd
            count := st.count + 1 }

/-- The end of `deepseek_match`, on white space. -/
def matchSpace (l : Bytes) : Bytes :=
  let st := scanSpace l.length ⟨l, l, none, 0⟩
  match st.newlineEnd with
  | some e => e
  | none => if !st.p.isEmpty && decide (1 < st.count) then st.last else st.p

/-- `deepseek_match`: where the match at the front of a text ends. -/
def deepseekMatch (l : Bytes) : Bytes :=
  let c := deepseekCharAt l
  let more := !c.next.isEmpty
  let n := if more then deepseekCharAt c.next else ⟨0, 0, []⟩
  if c.cp < 128 && joyaiAsciiPunctSymbol (UInt8.ofNat c.cp) && more && n.cp < 128 &&
      asciiAlpha (UInt8.ofNat n.cp) then
    n.next.dropWhile asciiAlpha
  else if c.cp != 13 && c.cp != 10 && !hasClass c.cls (uclassL ||| (uclassP ||| uclassS)) && more &&
      hasClass n.cls (uclassL ||| uclassM) then
    deepseekRun (uclassL ||| uclassM) n.next
  else if hasClass c.cls (uclassL ||| uclassM) then deepseekRun (uclassL ||| uclassM) c.next
  else if c.cp == 32 && more && hasClass n.cls (uclassP ||| uclassS) then
    deepseekRunNewlines (deepseekRun (uclassP ||| uclassS) n.next)
  else if hasClass c.cls (uclassP ||| uclassS) then
    deepseekRunNewlines (deepseekRun (uclassP ||| uclassS) c.next)
  else if !hasClass c.cls uclassWS then l
  else matchSpace l

/-! ## Splits -/

/-- The text from one place to a later one. -/
def between (g l : Bytes) : Bytes := g.take (g.length - l.length)

/-- The piece from one place to a later one, when there is one. -/
def pieceBetween (g l : Bytes) : List Bytes := if l.length < g.length then [between g l] else []

/-- The loop of `deepseek_split_regex`, with the gap at `g` and the place `l`; a round moves the place
on, so there are no more of them than bytes. -/
def splitRegexLoop : Nat → Bytes → Bytes → List Bytes
  | 0, g, _ => pieceBetween g []
  | n + 1, g, l =>
    if l = [] then pieceBetween g []
    else
      let m := deepseekMatch l
      if m.length = l.length then splitRegexLoop n g (deepseekCharAt l).next
      else pieceBetween g l ++ between l m :: splitRegexLoop n m m

/-- `deepseek_split_regex`. -/
def deepseekSplitRegex (l : Bytes) : List Bytes := splitRegexLoop l.length l l

/-- The loop that `deepseek_split_cjk` and `bpe_tokenize_text` share: a run of characters that hit, no
longer than `most` says, and the gap before it are handed on. -/
def isolateLoop (hit : DeepseekChar → Bool) (most : Bytes → Nat) (emit : Bytes → List Bytes) :
    Nat → Bytes → Bytes → List Bytes
  | 0, g, _ => emit g
  | n + 1, g, l =>
    if l = [] then emit g
    else if !hit (deepseekCharAt l) then isolateLoop hit most emit n g (deepseekCharAt l).next
    else
      let e := skipChars hit (most l) l
      emit (between g l) ++ emit (between l e) ++ isolateLoop hit most emit n e e

/-- `deepseek_split_cjk`. -/
def deepseekSplitCjk (l : Bytes) : List Bytes :=
  isolateLoop (fun c => utf8IsCjkHiraKata c.cp) List.length deepseekSplitRegex l.length l l

/-- `bpe_tokenize_text` of a C string, for the DeepSeek family. -/
def bpeTokenizeText (text : Bytes) : List Bytes :=
  let l := text.takeWhile fun b => b != 0
  isolateLoop (fun c => hasClass c.cls uclassN) (fun _ => 3) deepseekSplitCjk l.length l l

/-! ## Nothing is lost

On any bytes, a text or not, a match ends inside the text and the pieces are the text. -/

theorem skipChars_suffix (p : DeepseekChar → Bool) (n : Nat) (l : Bytes) : skipChars p n l <:+ l := by
  induction n generalizing l with
  | zero => exact List.suffix_rfl
  | succ n ih =>
    rw [skipChars]
    split_ifs
    · exact List.suffix_rfl
    · exact (ih _).trans (utf8Next_suffix l)
    · exact List.suffix_rfl

/-- The places of a scan lie in a text. -/
structure SpaceScan.Inside (st : SpaceScan) (l : Bytes) : Prop where
  p : st.p <:+ l
  last : st.last <:+ l
  newlineEnd : ∀ e, st.newlineEnd = some e → e <:+ l

theorem SpaceScan.Inside.scanSpace {st : SpaceScan} {l : Bytes} (h : st.Inside l) (n : Nat) :
    (scanSpace n st).Inside l := by
  induction n generalizing st with
  | zero => exact h
  | succ n ih =>
    have hnext := (utf8Next_suffix st.p).trans h.p
    simp only [Ds4.Tokenizer.scanSpace]
    split_ifs
    · exact h
    · exact h
    · exact ih ⟨hnext, h.p, fun e he => Option.some.inj he ▸ hnext⟩
    · exact ih ⟨hnext, h.p, h.newlineEnd⟩

theorem matchSpace_suffix (l : Bytes) : matchSpace l <:+ l := by
  have h : (scanSpace l.length ⟨l, l, none, 0⟩).Inside l :=
    SpaceScan.Inside.scanSpace ⟨List.suffix_rfl, List.suffix_rfl, by simp⟩ _
  simp only [matchSpace]
  split
  · exact h.newlineEnd _ ‹_›
  · split_ifs
    · exact h.last
    · exact h.p

theorem deepseekMatch_suffix (l : Bytes) : deepseekMatch l <:+ l := by
  have hc : (deepseekCharAt l).next <:+ l := utf8Next_suffix l
  have hn := (utf8Next_suffix (deepseekCharAt l).next).trans hc
  have hrun : ∀ mask m, deepseekRun mask m <:+ m := fun mask m => skipChars_suffix _ _ _
  have hlines : ∀ m, deepseekRunNewlines m <:+ m := fun m => List.dropWhile_suffix _
  simp only [deepseekMatch]
  cases hmore : (deepseekCharAt l).next.isEmpty
  · simp only [Bool.not_false, if_true]
    split_ifs
    · exact (List.dropWhile_suffix _).trans hn
    · exact (hrun _ _).trans hn
    · exact (hrun _ _).trans hc
    · exact (hlines _).trans ((hrun _ _).trans hn)
    · exact (hlines _).trans ((hrun _ _).trans hc)
    · exact List.suffix_rfl
    · exact matchSpace_suffix l
  · simp only [Bool.not_true, Bool.and_false, Bool.false_and, Bool.false_eq_true, if_false]
    split_ifs
    · exact (hrun _ _).trans hc
    · exact (hlines _).trans ((hrun _ _).trans hc)
    · exact List.suffix_rfl
    · exact matchSpace_suffix l

theorem between_append {g l : Bytes} (h : l <:+ g) : between g l ++ l = g := by
  obtain ⟨front, rfl⟩ := h
  rw [between, List.length_append, Nat.add_sub_cancel, List.take_left]

theorem pieceBetween_flatten (g l : Bytes) : (pieceBetween g l).flatten = between g l := by
  rw [pieceBetween]
  split_ifs with h
  · simp
  · rw [between, Nat.sub_eq_zero_of_le (Nat.not_lt.mp h)]
    rfl

theorem splitRegexLoop_flatten {n : Nat} {g l : Bytes} (h : l <:+ g) :
    (splitRegexLoop n g l).flatten = g := by
  induction n generalizing g l with
  | zero => rw [splitRegexLoop, pieceBetween_flatten, ← List.append_nil (between g []),
      between_append List.nil_suffix]
  | succ n ih =>
    rw [splitRegexLoop]
    split_ifs
    · rw [pieceBetween_flatten, ← List.append_nil (between g []), between_append List.nil_suffix]
    · simp only
      split_ifs
      · exact ih ((utf8Next_suffix l).trans h)
      · rw [List.flatten_append, List.flatten_cons, ih List.suffix_rfl, pieceBetween_flatten,
          between_append (deepseekMatch_suffix l), between_append h]

theorem isolateLoop_flatten {hit : DeepseekChar → Bool} {most : Bytes → Nat}
    {emit : Bytes → List Bytes} (hemit : ∀ l, (emit l).flatten = l) {n : Nat} {g l : Bytes}
    (h : l <:+ g) : (isolateLoop hit most emit n g l).flatten = g := by
  induction n generalizing g l with
  | zero => exact hemit g
  | succ n ih =>
    rw [isolateLoop]
    split_ifs
    · exact hemit g
    · exact ih ((utf8Next_suffix l).trans h)
    · simp only [List.flatten_append, hemit, ih List.suffix_rfl]
      rw [List.append_assoc, between_append (skipChars_suffix _ _ _), between_append h]

/-- **The pieces of a C string are the string.** -/
theorem bpeTokenizeText_flatten (text : Bytes) :
    (bpeTokenizeText text).flatten = text.takeWhile fun b => b != 0 :=
  isolateLoop_flatten
    (fun _ => isolateLoop_flatten (fun _ => splitRegexLoop_flatten List.suffix_rfl) List.suffix_rfl)
    List.suffix_rfl

end Ds4.Tokenizer
