import Ds4.Lib.Regex
import Ds4.Tokenizer.Pretokenize

/-!
# Three isolating splits

The expressions of the DeepSeek pre-tokenizer over characters, and that `bpe_tokenize_text` is the
split by the first, then the second, then the third. Each loop of the scanner is a split: its pieces
are encoded pieces, and `deepseek_match` is the leftmost-first match of the alternation.
-/

namespace Ds4.Tokenizer

open Ds4.Lib

/-! ## Expressions -/

/-- Whether the class of a character, as the table has it, meets a mask. -/
def charHas (mask : Nat) (c : Char) : Bool := hasClass (maskOf deepseekUranges c.toNat) mask

/-- The class `[!"#$%&'()*+,\-./:;<=>?@\[\\\]^_\x60\x7b|\x7d~]`. -/
def punctuation (c : Char) : Bool :=
  "!\"#$%&'()*+,-./:;<=>?@[\\]^_\x60\x7b|\x7d~".toList.contains c

/-- The class `[A-Za-z]`. -/
def letter (c : Char) : Bool :=
  (decide ('A' ≤ c) && decide (c ≤ 'Z')) || (decide ('a' ≤ c) && decide (c ≤ 'z'))

/-- The class `[\r\n]`. -/
def newline (c : Char) : Bool := c == '\r' || c == '\n'

/-- The class of Chinese, Hiragana and Katakana characters. -/
def cjk (c : Char) : Bool :=
  (decide ('一' ≤ c) && decide (c ≤ '龥')) || (decide ('\u3040' ≤ c) && decide (c ≤ 'ゟ')) ||
    (decide ('゠' ≤ c) && decide (c ≤ 'ヿ'))

open Regex in
/-- The expression for numbers, `\p\x7bN\x7d\x7b1,3\x7d`. -/
def numberRegex : Regex Char :=
  let number := set (charHas uclassN)
  seq number (opt (seq number (opt number)))

/-- The expression for runs of `cjk`. -/
def cjkRegex : Regex Char := Regex.plus (.set cjk)

open Regex in
/-- The alternation above `deepseek_match`. -/
def wordRegex : Regex Char :=
  let space := charHas uclassWS
  alt (seq (set punctuation) (plus (set letter))) <|
  alt (seq (opt (set fun c => !newline c && !charHas (uclassL ||| (uclassP ||| uclassS)) c))
    (plus (set (charHas (uclassL ||| uclassM))))) <|
  alt (seq (opt (set (· == ' '))) (seq (plus (set (charHas (uclassP ||| uclassS)))) (star (set newline)))) <|
  alt (seq (star (set space)) (plus (set newline))) <|
  alt (seq (plus (set space)) (notAhead (set fun c => !space c)))
    (plus (set space))

/-! ## Characters -/

@[simp] theorem deepseekCharAt_encode (c : Char) (cs : List Char) :
    deepseekCharAt (encode (c :: cs)) =
      ⟨c.toNat, maskOf deepseekUranges c.toNat, encode cs⟩ := by
  rw [deepseekCharAt, utf8PeekOne_cons, utf8Next_cons, deepseekUclass_eq]

theorem ascii_class {p : Char → Bool} {q : UInt8 → Bool} (hhigh : ∀ c, p c = true → c.toNat < 0x80)
    (hlow : ∀ n < 0x80, p (Char.ofNat n) = q (UInt8.ofNat n)) (c : Char) :
    p c = (decide (c.toNat < 0x80) && q (UInt8.ofNat c.toNat)) := by
  by_cases h : c.toNat < 0x80
  · rw [decide_eq_true h, Bool.true_and, ← hlow _ h, Char.ofNat_toNat]
  · rw [decide_eq_false h, Bool.false_and, Bool.eq_false_iff]
    exact fun hp => h (hhigh c hp)

set_option maxRecDepth 10000 in
theorem punctuation_eq (c : Char) : punctuation c =
    (decide (c.toNat < 0x80) && joyaiAsciiPunctSymbol (UInt8.ofNat c.toNat)) := by
  refine ascii_class (fun c hc => ?_) (by decide) c
  have hall : ∀ d ∈ "!\"#$%&'()*+,-./:;<=>?@[\\]^_\x60\x7b|\x7d~".toList, d.toNat < 0x80 := by
    simp
  exact hall c (List.contains_iff_mem.mp hc)

theorem letter_eq (c : Char) : letter c =
    (decide (c.toNat < 0x80) && asciiAlpha (UInt8.ofNat c.toNat)) := by
  refine ascii_class (fun c hc => ?_) (by decide) c
  simp only [letter, Bool.or_eq_true, Bool.and_eq_true, decide_eq_true_eq, Char.le_def,
    UInt32.le_iff_toNat_le] at hc
  rcases hc with ⟨-, hc⟩ | ⟨-, hc⟩
  · change c.toNat ≤ 90 at hc
    omega
  · change c.toNat ≤ 122 at hc
    omega

theorem newline_eq (c : Char) : newline c =
    (decide (c.toNat < 0x80) && asciiNewline (UInt8.ofNat c.toNat)) := by
  refine ascii_class (fun c hc => ?_) (by decide) c
  simp only [newline, Bool.or_eq_true, beq_iff_eq] at hc
  rcases hc with rfl | rfl <;> decide

theorem cjk_eq (c : Char) : cjk c = utf8IsCjkHiraKata c.toNat := by
  simp only [cjk, utf8IsCjkHiraKata, Char.le_def, UInt32.le_iff_toNat_le]
  rfl

theorem newline_eq_toNat (c : Char) :
    newline c = (decide (c.toNat = 13) || decide (c.toNat = 10)) := by
  have heq : ∀ d : Char, c = d ↔ c.toNat = d.toNat := fun d =>
    ⟨congrArg _, fun h => by rw [← Char.ofNat_toNat c, h, Char.ofNat_toNat]⟩
  rw [Bool.eq_iff_iff]
  simp only [newline, Bool.or_eq_true, beq_iff_eq, decide_eq_true_eq, heq]
  rfl

theorem space_of_newline (c : Char) (h : newline c = true) : charHas uclassWS c = true := by
  rw [newline_eq_toNat, Bool.or_eq_true, decide_eq_true_eq, decide_eq_true_eq] at h
  rw [charHas, ← deepseekUclass_eq, deepseekUclass_newline h.symm]
  rfl

theorem space_eq_toNat (c : Char) : (c == ' ') = (c.toNat == 32) := by
  rw [Bool.eq_iff_iff, beq_iff_eq, beq_iff_eq]
  exact ⟨fun h => h ▸ rfl, fun h => by rw [← Char.ofNat_toNat c, h]⟩

set_option maxRecDepth 10000 in
theorem dropWhile_alpha (cs : List Char) :
    (encode cs).dropWhile asciiAlpha = encode (cs.dropWhile letter) := by
  rw [encode_dropWhile, funext letter_eq]
  exact forall_byte (by decide)

set_option maxRecDepth 10000 in
@[simp] theorem deepseekRunNewlines_encode (cs : List Char) :
    deepseekRunNewlines (encode cs) = encode (cs.dropWhile newline) := by
  rw [deepseekRunNewlines, encode_dropWhile, funext newline_eq]
  exact forall_byte (by decide)

/-! ## Runs -/

/-- A loop over characters, `n` of them at most. -/
def dropUpTo (q : Char → Bool) : Nat → List Char → List Char
  | 0, cs => cs
  | _ + 1, [] => []
  | n + 1, c :: cs => if q c then dropUpTo q n cs else c :: cs

theorem dropUpTo_eq_dropWhile {q : Char → Bool} {n : Nat} {cs : List Char} (h : cs.length ≤ n) :
    dropUpTo q n cs = cs.dropWhile q := by
  induction cs generalizing n with
  | nil => cases n <;> rfl
  | cons c cs ih =>
    obtain ⟨n, rfl⟩ := Nat.exists_eq_add_of_le' (Nat.le_trans (Nat.succ_pos _) h)
    rw [dropUpTo, List.dropWhile_cons, ih (Nat.le_of_succ_le_succ h)]

theorem skipChars_encode {p : DeepseekChar → Bool} {q : Char → Bool}
    (hpq : ∀ c cs, p (deepseekCharAt (encode (c :: cs))) = q c) (n : Nat) (cs : List Char) :
    skipChars p n (encode cs) = encode (dropUpTo q n cs) := by
  induction n generalizing cs with
  | zero => rfl
  | succ n ih =>
    cases cs with
    | nil => rfl
    | cons c cs =>
      rw [skipChars, if_neg (by simp), hpq, deepseekCharAt_encode, ih, dropUpTo, apply_ite encode]

@[simp] theorem deepseekRun_encode (mask : Nat) (cs : List Char) :
    deepseekRun mask (encode cs) = encode (cs.dropWhile (charHas mask)) := by
  rw [deepseekRun, skipChars_encode (q := charHas mask), dropUpTo_eq_dropWhile (length_le_encode cs)]
  intro c cs
  rw [deepseekCharAt_encode]
  rfl

theorem scanSpace_encode {n : Nat} {cs : List Char} (hn : cs.length ≤ n) (last : Bytes)
    (newlineEnd : Option Bytes) (count : Nat) :
    scanSpace n ⟨encode cs, last, newlineEnd, count⟩ =
      { p := encode (cs.dropWhile (charHas uclassWS))
        last := ((Regex.lastStart (charHas uclassWS) cs).map encode).getD last
        newlineEnd := ((Regex.lastEnd (charHas uclassWS) newline cs).map encode).or newlineEnd
        count := count + (cs.takeWhile (charHas uclassWS)).length } := by
  induction cs generalizing n last newlineEnd count with
  | nil => cases n <;> simp [scanSpace, Regex.lastStart, Regex.lastEnd]
  | cons c cs ih =>
    obtain ⟨n, rfl⟩ := Nat.exists_eq_add_of_le' (Nat.le_trans (Nat.succ_pos _) hn)
    have hcls : hasClass (maskOf deepseekUranges c.toNat) uclassWS = charHas uclassWS c := rfl
    rw [scanSpace, if_neg (by simp)]
    simp only [deepseekCharAt_encode, hcls, List.dropWhile_cons, List.takeWhile_cons,
      Regex.lastStart, Regex.lastEnd]
    cases charHas uclassWS c
    · simp
    · rw [if_neg (by simp), ih (Nat.le_of_succ_le_succ hn)]
      have hnl : (if c.toNat = 13 ∨ c.toNat = 10 then some (encode cs) else newlineEnd) =
          ((if newline c then some cs else none).map encode).or newlineEnd := by
        rw [newline_eq_toNat]
        by_cases h13 : c.toNat = 13 <;> by_cases h10 : c.toNat = 10 <;> simp [h13, h10]
      rw [hnl]
      cases Regex.lastStart (charHas uclassWS) cs <;>
        cases Regex.lastEnd (charHas uclassWS) newline cs <;> simp <;> omega

/-! ## Matches -/

/-- What the last three alternatives leave: the text behind the last newline of the white space, else
the white space less its last character when a word follows, else what follows it. -/
def spaceRest (c : Char) (cs : List Char) : Option (List Char) :=
  if charHas uclassWS c then
    (Regex.lastEnd (charHas uclassWS) newline (c :: cs)).or
      (if cs.dropWhile (charHas uclassWS) ≠ [] ∧ cs.takeWhile (charHas uclassWS) ≠ [] then
        Regex.lastStart (charHas uclassWS) cs
      else some (cs.dropWhile (charHas uclassWS)))
  else none

theorem first_space (c : Char) (cs : List Char) :
    ((Regex.seq (.star (.set (charHas uclassWS))) (.plus (.set newline))).first (c :: cs)).or
      (((Regex.seq (.plus (.set (charHas uclassWS)))
          (.notAhead (.set fun c => !charHas uclassWS c))).first (c :: cs)).or
        ((Regex.plus (.set (charHas uclassWS))).first (c :: cs))) = spaceRest c cs := by
  rw [Regex.first_star_plus space_of_newline, Regex.first_plus_seq_cons, Regex.first_plus_cons,
    Regex.first_star_notAhead, spaceRest]
  by_cases hc : charHas uclassWS c = true
  · rw [if_pos hc, if_pos hc, if_pos hc]
    congr 1
    have hrun := List.takeWhile_append_dropWhile (p := charHas uclassWS) (l := cs)
    by_cases hend : cs.dropWhile (charHas uclassWS) = []
    · rw [if_pos hend, if_neg (by simp [hend]), Option.some_or, hend]
    · rw [if_neg hend]
      by_cases hnone : cs.takeWhile (charHas uclassWS) = []
      · rw [hnone] at hrun
        rw [if_neg (by simp [hnone]), Regex.lastStart_eq_none.mpr hrun, Option.none_or]
      · rw [if_pos ⟨hend, hnone⟩]
        cases hlast : Regex.lastStart (charHas uclassWS) cs with
        | some e => rfl
        | none =>
          rw [Regex.lastStart_eq_none.mp hlast, List.append_left_eq_self] at hrun
          exact absurd hrun hnone
  · rw [if_neg hc, if_neg hc, if_neg hc, Regex.lastEnd, if_neg hc]
    rfl

theorem matchSpace_encode (c : Char) (cs : List Char) :
    (if (!charHas uclassWS c) = true then encode (c :: cs) else matchSpace (encode (c :: cs))) =
      encode ((spaceRest c cs).getD (c :: cs)) := by
  rw [spaceRest]
  cases hc : charHas uclassWS c
  · rfl
  · rw [if_neg (by simp), if_pos rfl, matchSpace, scanSpace_encode (length_le_encode _)]
    simp only [List.dropWhile_cons, List.takeWhile_cons, hc, if_true, List.length_cons,
      Option.or_none, Regex.lastStart]
    cases Regex.lastEnd (charHas uclassWS) newline (c :: cs) with
    | some e => rfl
    | none =>
      simp only [Option.map_none, Option.none_or]
      by_cases hmany : cs.dropWhile (charHas uclassWS) ≠ [] ∧ cs.takeWhile (charHas uclassWS) ≠ []
      · have hcount := List.length_pos_iff.mpr hmany.2
        rw [if_pos hmany, if_pos (by simp [hmany.1]; omega)]
        cases Regex.lastStart (charHas uclassWS) cs <;> rfl
      · rw [if_neg hmany, if_neg]
        · rfl
        · simp only [not_and_or, not_not] at hmany
          rcases hmany with h | h <;> simp [h]

theorem ite_or {α : Type} {b : Bool} {x y r : Option α} :
    (if b = true then x else y).or r = if b = true then x.or r else y.or r := by
  cases b <;> rfl

theorem ite_ite_none {α : Type} {a b : Bool} {x : Option α} :
    (if a = true then (if b = true then x else none) else none) =
      if (a && b) = true then x else none := by
  cases a <;> rfl

theorem first_wordRegex_cons (c d : Char) (ds : List Char) :
    wordRegex.first (c :: d :: ds) =
      if punctuation c && letter d then some (ds.dropWhile letter)
      else if !newline c && !charHas (uclassL ||| (uclassP ||| uclassS)) c &&
          charHas (uclassL ||| uclassM) d then
        some (ds.dropWhile (charHas (uclassL ||| uclassM)))
      else if charHas (uclassL ||| uclassM) c then
        some ((d :: ds).dropWhile (charHas (uclassL ||| uclassM)))
      else if c == ' ' && charHas (uclassP ||| uclassS) d then
        some ((ds.dropWhile (charHas (uclassP ||| uclassS))).dropWhile newline)
      else if charHas (uclassP ||| uclassS) c then
        some (((d :: ds).dropWhile (charHas (uclassP ||| uclassS))).dropWhile newline)
      else spaceRest c (d :: ds) := by
  rw [← first_space, wordRegex]
  simp only [Regex.first_alt, Regex.first_set_seq, Regex.first_opt_seq, Regex.first_plus_cons,
    Regex.first_plus_star_cons, ite_ite_none, ite_or, Option.some_or,
    Option.none_or]

theorem first_wordRegex_singleton (c : Char) :
    wordRegex.first [c] =
      if charHas (uclassL ||| uclassM) c then some []
      else if charHas (uclassP ||| uclassS) c then some []
      else spaceRest c [] := by
  rw [← first_space, wordRegex]
  simp only [Regex.first_alt, Regex.first_set_seq, Regex.first_opt_seq, Regex.first_plus_cons,
    Regex.first_plus_star_cons, Regex.first_plus_nil, Regex.first_plus_seq_nil, ite_self,
    List.dropWhile_nil, ite_or, Option.some_or, Option.none_or]

/-- **`deepseek_match` is the leftmost-first match.** -/
theorem deepseekMatch_encode (c : Char) (cs : List Char) :
    deepseekMatch (encode (c :: cs)) = encode ((wordRegex.first (c :: cs)).getD (c :: cs)) := by
  have hcls : ∀ (d : Char) m, hasClass (maskOf deepseekUranges d.toNat) m = charHas m d :=
    fun _ _ => rfl
  have hencode : ∀ (b : Bool) (x : List Char) (r : Option (List Char)),
      encode ((if b = true then some x else r).getD (c :: cs)) =
        if b = true then encode x else encode (r.getD (c :: cs)) := by
    intro b x r
    cases b <;> rfl
  cases cs with
  | nil =>
    rw [first_wordRegex_singleton]
    simp only [deepseekMatch, deepseekCharAt_encode, hcls, hencode, matchSpace_encode, encode_nil,
      List.isEmpty_nil, Bool.not_true, Bool.and_false, Bool.false_and, Bool.false_eq_true, if_false]
    rfl
  | cons d ds =>
    have hmore : (encode (d :: ds)).isEmpty = false := by simp
    have hpunct : (decide (c.toNat < 0x80) && joyaiAsciiPunctSymbol (UInt8.ofNat c.toNat) &&
        decide (d.toNat < 0x80) && asciiAlpha (UInt8.ofNat d.toNat)) = (punctuation c && letter d) := by
      rw [punctuation_eq, letter_eq, Bool.and_assoc]
    have hnl : (c.toNat != 13 && c.toNat != 10) = !newline c := by
      rw [newline_eq_toNat]
      by_cases h13 : c.toNat = 13 <;> by_cases h10 : c.toNat = 10 <;> simp [h13, h10]
    rw [first_wordRegex_cons]
    simp only [deepseekMatch, deepseekCharAt_encode, hcls, hencode, hmore, Bool.not_false, if_true,
      Bool.and_true, hpunct, hnl, ← space_eq_toNat, dropWhile_alpha, deepseekRun_encode,
      deepseekRunNewlines_encode, matchSpace_encode]

/-! ## Splits -/

@[simp] theorem between_encode (gap cs : List Char) :
    between (encode (gap ++ cs)) (encode cs) = encode gap := by
  rw [between, encode_append, List.length_append, Nat.add_sub_cancel, List.take_left]

theorem pieceBetween_encode (gap cs : List Char) :
    pieceBetween (encode (gap ++ cs)) (encode cs) =
      (if gap.isEmpty then [] else [gap]).map encode := by
  rw [pieceBetween, between_encode, encode_append, List.length_append]
  cases gap with
  | nil => simp
  | cons c gap =>
    have hpos : 0 < (encode (c :: gap)).length := List.length_pos_iff.mpr (by simp)
    rw [if_pos (by omega)]
    rfl

theorem take_of_suffix {α : Type} {l m : List α} (h : m <:+ l) : l.take (l.length - m.length) ++ m = l := by
  obtain ⟨front, rfl⟩ := h
  rw [List.length_append, Nat.add_sub_cancel, List.take_left]

theorem between_encode_suffix {cs rest : List Char} (h : rest <:+ cs) :
    between (encode cs) (encode rest) = encode (cs.take (cs.length - rest.length)) := by
  conv_lhs => rw [← take_of_suffix h]
  exact between_encode _ _

theorem encode_length_lt {cs rest : List Char} (h : rest <:+ cs) (hlt : rest.length < cs.length) :
    (encode rest).length < (encode cs).length := by
  obtain ⟨front, rfl⟩ := h
  cases front with
  | nil => exact absurd hlt (lt_irrefl _)
  | cons c front =>
    have hpos : 0 < (encode (c :: front)).length := List.length_pos_iff.mpr (by simp)
    rw [encode_append, List.length_append]
    omega

theorem splitRegexLoop_gap {n : Nat} {gap cs : List Char} {c : Char}
    (h : deepseekMatch (encode (c :: cs)) = encode (c :: cs)) :
    splitRegexLoop (n + 1) (encode (gap ++ c :: cs)) (encode (c :: cs)) =
      splitRegexLoop n (encode ((gap ++ [c]) ++ cs)) (encode cs) := by
  rw [splitRegexLoop, if_neg (by simp)]
  simp only [h, if_true, deepseekCharAt_encode]
  rw [List.append_assoc, List.singleton_append]

/-- **`deepseek_split_regex` is the split by the alternation.** -/
theorem splitRegexLoop_encode {n : Nat} {gap cs : List Char} (hn : cs.length ≤ n) :
    splitRegexLoop n (encode (gap ++ cs)) (encode cs) =
      (Regex.isolate wordRegex.first gap cs).map encode := by
  fun_induction Regex.isolate wordRegex.first gap cs generalizing n with
  | case1 gap h =>
    rw [List.isEmpty_iff.mp h]
    cases n <;> rfl
  | case2 gap h =>
    have hgap := pieceBetween_encode gap []
    rw [if_neg h] at hgap
    cases n <;> exact hgap
  | case3 gap c cs hnone ih =>
    obtain ⟨n, rfl⟩ := Nat.exists_eq_add_of_le' (Nat.le_trans (Nat.succ_pos _) hn)
    rw [splitRegexLoop_gap, ih (Nat.le_of_succ_le_succ hn)]
    rw [deepseekMatch_encode, hnone, Option.getD_none]
  | case4 gap c cs rest hsome hlt ih =>
    obtain ⟨n, rfl⟩ := Nat.exists_eq_add_of_le' (Nat.le_trans (Nat.succ_pos _) hn)
    have hsuffix := Regex.suffix_of_first hsome
    have hmatch : deepseekMatch (encode (c :: cs)) = encode rest := by
      rw [deepseekMatch_encode, hsome, Option.getD_some]
    have hrest : rest.length ≤ n := by
      rw [List.length_cons] at hlt hn
      omega
    rw [splitRegexLoop, if_neg (by simp)]
    simp only [hmatch]
    rw [if_neg (encode_length_lt hsuffix hlt).ne, pieceBetween_encode, between_encode_suffix hsuffix,
      List.map_append, List.map_cons, ← ih hrest, List.nil_append]
  | case5 gap c cs rest hsome hlt ih =>
    obtain ⟨n, rfl⟩ := Nat.exists_eq_add_of_le' (Nat.le_trans (Nat.succ_pos _) hn)
    have hrest : rest = c :: cs := (Regex.suffix_of_first hsome).eq_of_length_le (Nat.not_lt.mp hlt)
    rw [splitRegexLoop_gap, ih (Nat.le_of_succ_le_succ hn)]
    rw [deepseekMatch_encode, hsome, Option.getD_some, hrest]

theorem deepseekSplitRegex_encode (cs : List Char) :
    deepseekSplitRegex (encode cs) = (Regex.split wordRegex cs).map encode :=
  @splitRegexLoop_encode _ [] cs (length_le_encode cs)

section Loop

variable {hit : DeepseekChar → Bool} {most : Bytes → Nat} {emit : Bytes → List Bytes}
variable {q : Char → Bool} {r : Regex Char} {f : List Char → List Bytes}

theorem dropUpTo_suffix (q : Char → Bool) (n : Nat) (cs : List Char) : dropUpTo q n cs <:+ cs := by
  induction n generalizing cs with
  | zero => exact List.suffix_rfl
  | succ n ih =>
    cases cs with
    | nil => exact List.suffix_rfl
    | cons c cs =>
      rw [dropUpTo]
      split_ifs
      · exact (ih cs).trans (List.suffix_cons c cs)
      · exact List.suffix_rfl

/-- **The loop is the split by the runs it looks for.** -/
theorem isolateLoop_encode (hhit : ∀ c cs, hit (deepseekCharAt (encode (c :: cs))) = q c)
    (hmatch : ∀ c cs, r.first (c :: cs) =
      if q c then some (dropUpTo q (most (encode (c :: cs))) (c :: cs)) else none)
    (hmost : ∀ c cs, 0 < most (encode (c :: cs))) (hemit : ∀ cs, emit (encode cs) = f cs)
    (hnil : f [] = []) {n : Nat} {gap cs : List Char} (hn : cs.length ≤ n) :
    isolateLoop hit most emit n (encode (gap ++ cs)) (encode cs) =
      (Regex.isolate r.first gap cs).flatMap f := by
  have hgap : ∀ gap : List Char, (if gap.isEmpty then [] else [gap]).flatMap f = f gap := by
    intro gap
    cases gap <;> simp [hnil]
  fun_induction Regex.isolate r.first gap cs generalizing n with
  | case1 gap h =>
    rw [List.isEmpty_iff.mp h]
    cases n <;> simp [isolateLoop, ← encode_nil, hemit, hnil]
  | case2 gap h => cases n <;> simp [isolateLoop, hemit]
  | case3 gap c cs hnone ih =>
    obtain ⟨n, rfl⟩ := Nat.exists_eq_add_of_le' (Nat.le_trans (Nat.succ_pos _) hn)
    have hq : q c = false := by
      rw [hmatch] at hnone
      cases h : q c
      · rfl
      · simp [h] at hnone
    rw [isolateLoop, if_neg (by simp), hhit, hq, if_pos (by rfl), ← ih (Nat.le_of_succ_le_succ hn),
      deepseekCharAt_encode, List.append_assoc, List.singleton_append]
  | case4 gap c cs rest hsome hlt ih =>
    obtain ⟨n, rfl⟩ := Nat.exists_eq_add_of_le' (Nat.le_trans (Nat.succ_pos _) hn)
    have hsuffix := Regex.suffix_of_first hsome
    have hq : q c = true := by
      rw [hmatch] at hsome
      cases h : q c
      · simp [h] at hsome
      · rfl
    rw [hmatch, if_pos hq, Option.some.injEq] at hsome
    have hrest : rest.length ≤ n := by
      rw [List.length_cons] at hlt hn
      omega
    rw [isolateLoop, if_neg (by simp), hhit, hq, if_neg (by simp), skipChars_encode hhit]
    simp only [hsome]
    rw [between_encode, between_encode_suffix hsuffix, hemit, hemit, List.flatMap_append, hgap,
      List.flatMap_cons, ← ih hrest, List.nil_append, List.append_assoc]
  | case5 gap c cs rest hsome hlt ih =>
    obtain ⟨n, rfl⟩ := Nat.exists_eq_add_of_le' (Nat.le_trans (Nat.succ_pos _) hn)
    rw [hmatch] at hsome
    -- a run takes at least the character that hits
    split_ifs at hsome with hq
    obtain ⟨k, hk⟩ := Nat.exists_eq_add_of_le' (hmost c cs)
    rw [Option.some.injEq, hk, dropUpTo, if_pos hq] at hsome
    have := (dropUpTo_suffix q k cs).length_le
    rw [hsome] at this
    exact absurd (Nat.lt_succ_of_le this) hlt

end Loop

theorem first_numberRegex (c : Char) (cs : List Char) :
    numberRegex.first (c :: cs) =
      if charHas uclassN c then some (dropUpTo (charHas uclassN) 3 (c :: cs)) else none := by
  rw [numberRegex, Regex.first_set_seq, dropUpTo]
  split_ifs
  · match cs with
    | [] => rfl
    | [d] =>
      rw [Regex.opt, Regex.first_alt, Regex.first_set_seq, dropUpTo]
      split_ifs <;> rfl
    | d :: e :: es =>
      rw [Regex.opt, Regex.first_alt, Regex.first_set_seq, Regex.opt, Regex.first_alt,
        Regex.first_set_cons, dropUpTo, dropUpTo, dropUpTo]
      split_ifs <;> rfl
  · rfl

theorem first_cjkRegex (c : Char) (cs : List Char) :
    cjkRegex.first (c :: cs) =
      if cjk c then some (dropUpTo cjk (encode (c :: cs)).length (c :: cs)) else none := by
  rw [cjkRegex, Regex.first_plus_cons, dropUpTo_eq_dropWhile (length_le_encode _), List.dropWhile_cons]
  split_ifs <;> rfl

theorem deepseekSplitCjk_encode (cs : List Char) :
    deepseekSplitCjk (encode cs) =
      (Regex.split cjkRegex cs).flatMap fun piece => (Regex.split wordRegex piece).map encode := by
  refine @isolateLoop_encode _ _ _ cjk cjkRegex _ ?_ first_cjkRegex (fun c cs => ?_)
    deepseekSplitRegex_encode (by simp) _ [] cs (length_le_encode cs)
  · intro c cs
    rw [deepseekCharAt_encode, cjk_eq]
  · exact List.length_pos_iff.mpr (by simp)

/-- The pieces of the three splits, each applied to the pieces of the one before. -/
def isolatingSplits (text : List Char) : List (List Char) :=
  ((Regex.split numberRegex text).flatMap (Regex.split cjkRegex)).flatMap (Regex.split wordRegex)

theorem isolatingSplits_ne_nil {text : List Char} : ∀ piece ∈ isolatingSplits text, piece ≠ [] := by
  intro piece hpiece
  obtain ⟨outer, -, h⟩ := List.mem_flatMap.mp hpiece
  exact Regex.split_ne_nil piece h

theorem flatten_flatMap_split {r : Regex Char} (pieces : List (List Char)) :
    (pieces.flatMap (Regex.split r)).flatten = pieces.flatten := by
  induction pieces with
  | nil => rfl
  | cons piece pieces ih =>
    rw [List.flatMap_cons, List.flatten_append, Regex.split_flatten, ih, List.flatten_cons]

theorem isolatingSplits_flatten (text : List Char) : (isolatingSplits text).flatten = text := by
  rw [isolatingSplits, flatten_flatMap_split, flatten_flatMap_split, Regex.split_flatten]

theorem flatten_map_encode (pieces : List (List Char)) :
    (pieces.map encode).flatten = encode pieces.flatten := by
  induction pieces with
  | nil => rfl
  | cons piece pieces ih => rw [List.map_cons, List.flatten_cons, ih, List.flatten_cons, encode_append]

/-- **The pre-tokenizer is three isolating splits.** On a text without NUL the pieces handed to
`bpe_emit_piece` are those of the splits; none is empty, and together they are the text. -/
theorem bpeTokenizeText_eq_splits (text : List Char) (hnul : (0 : UInt8) ∉ encode text) :
    bpeTokenizeText (encode text) = (isolatingSplits text).map encode ∧
      (∀ piece ∈ bpeTokenizeText (encode text), piece ≠ []) ∧
      (bpeTokenizeText (encode text)).flatten = encode text := by
  have hstring : (encode text).takeWhile (fun b => b != 0) = encode text := by
    rw [List.takeWhile_eq_self_iff]
    intro b hb
    exact bne_iff_ne.mpr fun h => hnul (h ▸ hb)
  have hpieces : bpeTokenizeText (encode text) = (isolatingSplits text).map encode := by
    rw [bpeTokenizeText, hstring, isolatingSplits, List.flatMap_assoc, List.map_flatMap]
    refine @isolateLoop_encode _ _ _ (charHas uclassN) numberRegex _ ?_ first_numberRegex
      (fun _ _ => Nat.succ_pos _) (fun cs => ?_) (by simp) _ [] text (length_le_encode text)
    · intro c cs
      rw [deepseekCharAt_encode]
      rfl
    · rw [deepseekSplitCjk_encode, List.map_flatMap]
  refine ⟨hpieces, ?_, ?_⟩
  · rw [hpieces]
    intro piece hpiece
    obtain ⟨chars, hchars, rfl⟩ := List.mem_map.mp hpiece
    exact encode_eq_nil.not.mpr (isolatingSplits_ne_nil chars hchars)
  · rw [hpieces, flatten_map_encode, isolatingSplits_flatten]

/-- The text `a 1234 b`, whose digits are cut after three. -/
theorem bpeTokenizeText_eq_splits_digits :
    (0 : UInt8) ∉ encode "a 1234 b".toList ∧
      bpeTokenizeText (encode "a 1234 b".toList) = (isolatingSplits "a 1234 b".toList).map encode ∧
      (∀ piece ∈ bpeTokenizeText (encode "a 1234 b".toList), piece ≠ []) ∧
      (bpeTokenizeText (encode "a 1234 b".toList)).flatten = encode "a 1234 b".toList :=
  ⟨by decide, bpeTokenizeText_eq_splits "a 1234 b".toList (by decide)⟩

end Ds4.Tokenizer
