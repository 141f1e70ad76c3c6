import Ds4.Tokenizer.Utf8

/-!
# Byte-level merging

`vocab_load` for the DeepSeek family, `byte_encode`, `bpe_emit_piece` and `ds4_token_text`. A hash
table is the map it stores. Every symbol of a piece is the encoding of bytes of the piece, at every
stage of the merging, so the tokens of a piece read back as the piece.
-/

namespace Ds4.Tokenizer

open Ds4.Lib

/-! ## Bytes and code points -/

/-- The bytes that GPT-2 keeps as they are. -/
def printable (b : Nat) : Bool :=
  (decide (33 ≤ b) && decide (b ≤ 126)) || (decide (161 ≤ b) && decide (b ≤ 172)) ||
    (decide (174 ≤ b) && decide (b ≤ 255))

/-- `utf8_put`, what it writes. -/
def utf8Put (cp : Nat) : Bytes :=
  if cp ≤ 0x7f then [UInt8.ofNat cp]
  else if cp ≤ 0x7ff then [UInt8.ofNat (0xc0 ||| cp >>> 6), UInt8.ofNat (0x80 ||| cp &&& 0x3f)]
  else if cp ≤ 0xffff then
    [UInt8.ofNat (0xe0 ||| cp >>> 12), UInt8.ofNat (0x80 ||| cp >>> 6 &&& 0x3f),
      UInt8.ofNat (0x80 ||| cp &&& 0x3f)]
  else
    [UInt8.ofNat (0xf0 ||| cp >>> 18), UInt8.ofNat (0x80 ||| cp >>> 12 &&& 0x3f),
      UInt8.ofNat (0x80 ||| cp >>> 6 &&& 0x3f), UInt8.ofNat (0x80 ||| cp &&& 0x3f)]

/-- The loop of `gpt2_byte_to_codepoint` over `x`, with `n` bytes passed over. -/
def byteToCodepointLoop (b : Nat) : List Nat → Nat → Nat
  | [], _ => b
  | x :: xs, n =>
    if printable x then byteToCodepointLoop b xs n
    else if x = b then 256 + n
    else byteToCodepointLoop b xs (n + 1)

/-- `gpt2_byte_to_codepoint`. -/
def gpt2ByteToCodepoint (b : UInt8) : Nat :=
  if printable b.toNat then b.toNat else byteToCodepointLoop b.toNat (List.range 256) 0

/-- The symbol of a byte. -/
def gpt2Symbol (b : UInt8) : Bytes := utf8Put (gpt2ByteToCodepoint b)

/-- `byte_encode`. -/
def byteEncode (l : Bytes) : Bytes := l.flatMap gpt2Symbol

/-- The loop of `gpt2_codepoint_to_byte` over `b`. -/
def codepointToByteLoop (cp : Nat) : List Nat → Nat → Option Nat
  | [], _ => none
  | b :: bs, n =>
    if printable b then codepointToByteLoop cp bs n
    else if cp = 256 + n then some b
    else codepointToByteLoop cp bs (n + 1)

/-- `gpt2_codepoint_to_byte`, none for a negative result. -/
def gpt2CodepointToByte (cp : Nat) : Option Nat :=
  if printable cp then some cp else codepointToByteLoop cp (List.range 256) 0

/-- `utf8_decode_one`: the code point and what follows it. -/
def utf8DecodeOne : Bytes → Nat × Bytes
  | [] => (0, [])
  | c :: l =>
    if c < 0x80 ∨ l = [] then (c.toNat, l)
    else if c &&& 0xe0 = 0xc0 ∧ 1 ≤ l.length then
      (((c &&& 0x1f).toNat <<< 6) ||| tailBits l 0, l.drop 1)
    else if c &&& 0xf0 = 0xe0 ∧ 2 ≤ l.length then
      (((c &&& 0x0f).toNat <<< 12) ||| (tailBits l 0 <<< 6) ||| tailBits l 1, l.drop 2)
    else if c &&& 0xf8 = 0xf0 ∧ 3 ≤ l.length then
      (((c &&& 0x07).toNat <<< 18) ||| (tailBits l 0 <<< 12) ||| (tailBits l 1 <<< 6) ||| tailBits l 2,
        l.drop 3)
    else (c.toNat, l)

/-- The loop of `ds4_token_text`; a round reads at least a byte. -/
def decodeLoop : Nat → Bytes → Bytes
  | 0, _ => []
  | n + 1, l =>
    if l = [] then []
    else
      let d := utf8DecodeOne l
      ((gpt2CodepointToByte d.1).map UInt8.ofNat).toList ++ decodeLoop n d.2

/-- `vocab_token_is_literal_special`: whether the fullwidth bar occurs. -/
def vocabTokenIsLiteralSpecial (s : Bytes) : Bool :=
  s.tails.any fun t => [0xef, 0xbd, 0x9c].isPrefixOf t

/-- The text of a token that is spelled `s`. -/
def decodeToken (s : Bytes) : Bytes :=
  if vocabTokenIsLiteralSpecial s then s else decodeLoop s.length s

/-! ## The vocabulary -/

/-- `str_i32_table`, as the map it stores. -/
abbrev Table := Bytes → Option Int

/-- `table_put`. -/
def tablePut (t : Table) (key : Bytes) (value : Int) : Table := Function.update t key (some value)

/-- The families that `bpe_tokenize_text` splits as DeepSeek does. -/
inductive Family
  | deepseek4
  | deepseek41
  deriving DecidableEq

/-- `ds4_vocab`; a missing special token has the id `-1`. -/
structure Vocab where
  token : List Bytes
  tokenToId : Table
  mergeRank : Table
  bosId : Int
  eosId : Int
  systemId : Int
  userId : Int
  assistantId : Int
  observationId : Int
  sopId : Int
  thinkStartId : Int
  thinkEndId : Int
  toolCallStartId : Int
  toolCallEndId : Int
  toolResponseStartId : Int
  toolResponseEndId : Int
  argKeyStartId : Int
  argKeyEndId : Int
  argValueStartId : Int
  argValueEndId : Int
  dsmlId : Int
  imStartId : Int
  imEndId : Int
  endoftextId : Int

/-- The loop of `vocab_load` that puts strings into a table, each under its number as an `int`. -/
def loadTable : List Bytes → Nat → Table → Table
  | [], _, t => t
  | s :: rest, i, t => loadTable rest (i + 1) (tablePut t s ((i : Int).bmod (2 ^ 32)))

/-- `vocab_load` for the DeepSeek family; none when the process ends. -/
def vocabLoad (family : Family) (tokens merges : List Bytes) : Option Vocab :=
  if tokens.length > 2147483647 then none
  else do
    let tokenToId := loadTable tokens 0 fun _ => none
    let bosId ← tokenToId (lit "<｜begin▁of▁sentence｜>")
    let eosId ← tokenToId (lit "<｜end▁of▁sentence｜>")
    let systemId ← (if family = .deepseek41 then tokenToId (lit "<｜System｜>") else some (-1))
    let userId ← tokenToId (lit "<｜User｜>")
    let assistantId ← tokenToId (lit "<｜Assistant｜>")
    let thinkStartId ← tokenToId (lit "<think>")
    let thinkEndId ← tokenToId (lit "</think>")
    let dsmlId ← tokenToId (lit "｜DSML｜")
    return {
      token := tokens
      tokenToId := tokenToId
      mergeRank := loadTable merges 0 fun _ => none
      bosId := bosId
      eosId := eosId
      systemId := systemId
      userId := userId
      assistantId := assistantId
      observationId := -1
      sopId := -1
      thinkStartId := thinkStartId
      thinkEndId := thinkEndId
      toolCallStartId := -1
      toolCallEndId := -1
      toolResponseStartId := -1
      toolResponseEndId := -1
      argKeyStartId := -1
      argKeyEndId := -1
      argValueStartId := -1
      argValueEndId := -1
      dsmlId := dsmlId
      imStartId := -1
      imEndId := -1
      endoftextId := -1 }

/-- `ds4_token_text`. -/
def tokenText (vocab : Vocab) (token : Int) : Bytes :=
  if token < 0 ∨ (vocab.token.length : Int) ≤ token then []
  else decodeToken (vocab.token.getD token.toNat [])

/-! ## Merging -/

/-- The loop of `bpe_emit_piece` that cuts a text into characters; a round takes at least a byte. -/
def splitSymbols : Nat → Bytes → List Bytes
  | 0, _ => []
  | n + 1, l => if l = [] then [] else l.take (charLen l) :: splitSymbols n (utf8Next l)

/-- `bpe_rank`. -/
def bpeRank (vocab : Vocab) (a b : Bytes) : Int := (vocab.mergeRank (a ++ 0x20 :: b)).getD (-1)

/-- The loop over the pairs of neighbours, from number `i` on: the first pair of the lowest rank. -/
def bestPair (vocab : Vocab) : List Bytes → Nat → Option Nat → Int → Option Nat
  | a :: b :: rest, i, bestI, bestRank =>
    let rank := bpeRank vocab a b
    if 0 ≤ rank ∧ rank < bestRank then bestPair vocab (b :: rest) (i + 1) (some i) rank
    else bestPair vocab (b :: rest) (i + 1) bestI bestRank
  | _, _, bestI, _ => bestI

/-- The symbols with those at `i` and `i + 1` merged. -/
def mergeAt : Nat → List Bytes → List Bytes
  | 0, a :: b :: rest => (a ++ b) :: rest
  | i + 1, a :: rest => a :: mergeAt i rest
  | _, syms => syms

/-- The merge loop of `bpe_emit_piece`; a merge leaves one symbol less. -/
def mergeLoop (vocab : Vocab) : Nat → List Bytes → List Bytes
  | 0, syms => syms
  | n + 1, syms =>
    match bestPair vocab syms 0 none 2147483647 with
    | none => syms
    | some i => mergeLoop vocab n (mergeAt i syms)

/-- The tokens of one symbol. -/
def symbolTokens (vocab : Vocab) (sym : Bytes) : List Int :=
  match vocab.tokenToId sym with
  | some token => [token]
  | none => sym.filterMap fun b => vocab.tokenToId [b]

/-- `bpe_emit_piece`: the tokens that it pushes. -/
def bpeEmitPiece (vocab : Vocab) (rawPiece : Bytes) : List Int :=
  let encoded := byteEncode rawPiece
  let syms := splitSymbols encoded.length encoded
  (mergeLoop vocab syms.length syms).flatMap (symbolTokens vocab)

/-! ## Symbols of bytes -/

/-- A symbol is an ASCII character, or one of two bytes, and spells the code point of its byte. -/
def symbolSpelled (b : UInt8) : Bool :=
  match gpt2Symbol b with
  | [c] => decide (c < 0x80) && decide (c.toNat = gpt2ByteToCodepoint b)
  | [c, d] =>
    decide (¬c < 0x80) && decide (c &&& 0xe0 = 0xc0) &&
      decide (((c &&& 0x1f).toNat <<< 6) ||| (d &&& 0x3f).toNat = gpt2ByteToCodepoint b)
  | _ => false

set_option maxRecDepth 10000 in
theorem symbolSpelled_all : ∀ b, symbolSpelled b = true := forall_byte (by decide)

set_option maxRecDepth 10000 in
theorem gpt2Symbol_bytes : ∀ b, 0xef ∉ gpt2Symbol b ∧ 0x20 ∉ gpt2Symbol b :=
  forall_byte (by decide)

set_option maxRecDepth 10000 in
theorem gpt2CodepointToByte_symbol :
    ∀ b, gpt2CodepointToByte (gpt2ByteToCodepoint b) = some b.toNat := forall_byte (by decide)

theorem gpt2Symbol_cases (b : UInt8) :
    (∃ c, gpt2Symbol b = [c] ∧ c < 0x80 ∧ c.toNat = gpt2ByteToCodepoint b) ∨
      ∃ c d, gpt2Symbol b = [c, d] ∧ ¬c < 0x80 ∧ c &&& 0xe0 = 0xc0 ∧
        ((c &&& 0x1f).toNat <<< 6) ||| (d &&& 0x3f).toNat = gpt2ByteToCodepoint b := by
  have h := symbolSpelled_all b
  unfold symbolSpelled at h
  split at h
  · simp only [Bool.and_eq_true, decide_eq_true_eq] at h
    exact Or.inl ⟨_, ‹_›, h⟩
  · simp only [Bool.and_eq_true, decide_eq_true_eq, and_assoc] at h
    exact Or.inr ⟨_, _, ‹_›, h⟩
  · cases h

theorem charLen_symbol (b : UInt8) (l : Bytes) :
    charLen (gpt2Symbol b ++ l) = (gpt2Symbol b).length := by
  rcases gpt2Symbol_cases b with ⟨c, hb, hc, -⟩ | ⟨c, d, hb, hc, hlead, -⟩
  · simp [hb, charLen, utf8LenFromFirstByte, hc]
  · simp [hb, charLen, utf8LenFromFirstByte, hc, hlead]

theorem utf8DecodeOne_symbol (b : UInt8) (l : Bytes) :
    utf8DecodeOne (gpt2Symbol b ++ l) = (gpt2ByteToCodepoint b, l) := by
  rcases gpt2Symbol_cases b with ⟨c, hb, hc, hcp⟩ | ⟨c, d, hb, hc, hlead, hcp⟩
  · simp [hb, utf8DecodeOne, hc, hcp]
  · simp [hb, utf8DecodeOne, hc, hlead, tailBits, ← hcp]

theorem gpt2Symbol_ne_nil (b : UInt8) : gpt2Symbol b ≠ [] := by
  rcases gpt2Symbol_cases b with ⟨c, hb, -⟩ | ⟨c, d, hb, -⟩ <;> simp [hb]

theorem byteEncode_cons (b : UInt8) (l : Bytes) : byteEncode (b :: l) = gpt2Symbol b ++ byteEncode l :=
  rfl

theorem byteEncode_append (l m : Bytes) : byteEncode (l ++ m) = byteEncode l ++ byteEncode m :=
  List.flatMap_append

theorem length_le_byteEncode (l : Bytes) : l.length ≤ (byteEncode l).length := by
  induction l with
  | nil => exact le_rfl
  | cons b l ih =>
    have := List.length_pos_iff.mpr (gpt2Symbol_ne_nil b)
    rw [byteEncode_cons, List.length_append, List.length_cons]
    omega

theorem splitSymbols_byteEncode {n : Nat} {l : Bytes} (hn : l.length ≤ n) :
    splitSymbols n (byteEncode l) = l.map gpt2Symbol := by
  induction l generalizing n with
  | nil => cases n <;> rfl
  | cons b l ih =>
    obtain ⟨n, rfl⟩ := Nat.exists_eq_add_of_le' (Nat.le_trans (Nat.succ_pos _) hn)
    rw [byteEncode_cons, splitSymbols, if_neg (by simp [gpt2Symbol_ne_nil]), utf8Next, charLen_symbol,
      List.take_left, List.drop_left, ih (Nat.le_of_succ_le_succ hn), List.map_cons]

theorem decodeLoop_byteEncode {n : Nat} {l : Bytes} (hn : l.length ≤ n) :
    decodeLoop n (byteEncode l) = l := by
  induction l generalizing n with
  | nil => cases n <;> rfl
  | cons b l ih =>
    obtain ⟨n, rfl⟩ := Nat.exists_eq_add_of_le' (Nat.le_trans (Nat.succ_pos _) hn)
    rw [byteEncode_cons, decodeLoop, if_neg (by simp [gpt2Symbol_ne_nil]), utf8DecodeOne_symbol]
    simp only [gpt2CodepointToByte_symbol, ih (Nat.le_of_succ_le_succ hn)]
    simp

theorem not_mem_byteEncode {b : UInt8} (hb : ∀ c, b ∉ gpt2Symbol c) (l : Bytes) : b ∉ byteEncode l := by
  intro h
  obtain ⟨c, -, hc⟩ := List.mem_flatMap.mp h
  exact hb c hc

theorem not_literalSpecial_byteEncode (l : Bytes) :
    vocabTokenIsLiteralSpecial (byteEncode l) = false := by
  rw [vocabTokenIsLiteralSpecial, List.any_eq_false]
  intro t ht hbar
  have hpre := List.isPrefixOf_iff_prefix.mp hbar
  refine not_mem_byteEncode (fun c => (gpt2Symbol_bytes c).1) l ?_
  exact ((List.mem_tails t _).mp ht).subset (hpre.subset (by simp))

/-- **An encoded text reads back.** -/
@[simp] theorem decodeToken_byteEncode (l : Bytes) : decodeToken (byteEncode l) = l := by
  rw [decodeToken, not_literalSpecial_byteEncode, if_neg (by simp),
    decodeLoop_byteEncode (length_le_byteEncode l)]

/-! ## A loaded vocabulary -/

theorem loadTable_eq (l : List Bytes) (i : Nat) (t : Table) (s : Bytes) :
    (∃ k, l[k]? = some s ∧ loadTable l i t s = some (((i + k : Nat) : Int).bmod (2 ^ 32))) ∨
      (s ∉ l ∧ loadTable l i t s = t s) := by
  induction l generalizing i t with
  | nil => exact Or.inr ⟨by simp, rfl⟩
  | cons a l ih =>
    rw [loadTable]
    rcases ih (i + 1) (tablePut t a ((i : Int).bmod (2 ^ 32))) with ⟨k, hk, h⟩ | ⟨hnot, h⟩
    · exact Or.inl ⟨k + 1, hk, by rw [h]; congr 3; omega⟩
    · by_cases hs : s = a
      · subst hs
        exact Or.inl ⟨0, rfl, by rw [h, tablePut, Function.update_self]; rfl⟩
      · refine Or.inr ⟨by simp [hs, hnot], ?_⟩
        rw [h, tablePut, Function.update_of_ne hs]

theorem mem_of_loadTable {l : List Bytes} {s : Bytes} {id : Int}
    (h : loadTable l 0 (fun _ => none) s = some id) : s ∈ l := by
  rcases loadTable_eq l 0 (fun _ => none) s with ⟨k, hk, -⟩ | ⟨-, hnone⟩
  · exact List.mem_of_getElem? hk
  · rw [hnone] at h
    cases h

theorem loadTable_isSome {l : List Bytes} {s : Bytes} (h : s ∈ l) :
    ∃ id, loadTable l 0 (fun _ => none) s = some id := by
  rcases loadTable_eq l 0 (fun _ => none) s with ⟨k, -, hk⟩ | ⟨hnot, -⟩
  · exact ⟨_, hk⟩
  · exact absurd h hnot

/-- What the loader makes sure of. -/
structure Vocab.Loaded (vocab : Vocab) (merges : List Bytes) : Prop where
  small : vocab.token.length ≤ 2147483647
  ids : vocab.tokenToId = loadTable vocab.token 0 fun _ => none
  ranks : vocab.mergeRank = loadTable merges 0 fun _ => none

theorem Vocab.Loaded.tokenText_eq {vocab : Vocab} {merges : List Bytes} (hv : vocab.Loaded merges)
    {s : Bytes} {id : Int} (h : vocab.tokenToId s = some id) :
    0 ≤ id ∧ tokenText vocab id = decodeToken s := by
  rw [hv.ids] at h
  rcases loadTable_eq vocab.token 0 (fun _ => none) s with ⟨k, hk, hid⟩ | ⟨-, hnone⟩
  · rw [hid, Nat.zero_add, Option.some.injEq] at h
    obtain ⟨hlt, -⟩ := List.getElem?_eq_some_iff.mp hk
    have hsmall := hv.small
    -- a number of the list is an `int`
    have hmod : ((k : Nat) : Int).bmod (2 ^ 32) = k := by
      rw [Int.bmod_eq_of_le] <;> omega
    rw [hmod] at h
    subst h
    refine ⟨Int.natCast_nonneg k, ?_⟩
    rw [tokenText, if_neg (by omega), Int.toNat_natCast, List.getD_eq_getElem?_getD, hk,
      Option.getD_some]
  · rw [hnone] at h
    cases h

theorem vocabLoad_loaded {family : Family} {tokens merges : List Bytes} {vocab : Vocab}
    (h : vocabLoad family tokens merges = some vocab) :
    vocab.Loaded merges ∧ vocab.token = tokens := by
  by_cases hlarge : tokens.length > 2147483647
  · rw [vocabLoad, if_pos hlarge] at h
    cases h
  · rw [vocabLoad, if_neg hlarge] at h
    simp only [Option.bind_eq_bind, Option.bind_eq_some_iff, Option.pure_def, Option.some.injEq] at h
    obtain ⟨_, -, _, -, _, -, _, -, _, -, _, -, _, -, _, -, rfl⟩ := h
    exact ⟨⟨Nat.not_lt.mp hlarge, rfl, rfl⟩, rfl⟩

/-! ## The merging -/

/-- What a merging needs of a vocabulary: the symbols of the bytes, and with the two strings of a
merge their concatenation. -/
structure Vocab.Closed (vocab : Vocab) (merges : List Bytes) : Prop extends vocab.Loaded merges where
  bytes : ∀ b, gpt2Symbol b ∈ vocab.token
  merged : ∀ a b, 0x20 ∉ a → 0x20 ∉ b → a ++ 0x20 :: b ∈ merges → a ++ b ∈ vocab.token

/-- A symbol in the making: a token that encodes bytes. -/
def Vocab.Symbol (vocab : Vocab) (s : Bytes) : Prop := s ∈ vocab.token ∧ ∃ l, s = byteEncode l

theorem bestPair_eq_some {vocab : Vocab} {syms : List Bytes} {i k : Nat} {bestI : Option Nat}
    {bestRank : Int} (h : bestPair vocab syms i bestI bestRank = some k) :
    bestI = some k ∨ ∃ pre a b post, syms = pre ++ a :: b :: post ∧ k = i + pre.length ∧
      0 ≤ bpeRank vocab a b := by
  fun_induction bestPair vocab syms i bestI bestRank with
  | case1 a b rest i bestI bestRank rank hrank ih =>
    rcases ih h with hk | ⟨pre, c, d, post, hsyms, hk, hcd⟩
    · exact Or.inr ⟨[], a, b, rest, rfl, by simpa using hk.symm, hrank.1⟩
    · exact Or.inr ⟨a :: pre, c, d, post, by rw [hsyms]; rfl, by rw [hk, List.length_cons]; omega, hcd⟩
  | case2 a b rest i bestI bestRank rank hrank ih =>
    rcases ih h with hk | ⟨pre, c, d, post, hsyms, hk, hcd⟩
    · exact Or.inl hk
    · exact Or.inr ⟨a :: pre, c, d, post, by rw [hsyms]; rfl, by rw [hk, List.length_cons]; omega, hcd⟩
  | case3 => exact Or.inl h

theorem mergeAt_append (pre : List Bytes) (a b : Bytes) (post : List Bytes) :
    mergeAt pre.length (pre ++ a :: b :: post) = pre ++ (a ++ b) :: post := by
  induction pre with
  | nil => rfl
  | cons c pre ih => rw [List.cons_append, List.length_cons, mergeAt, ih, List.cons_append]

theorem mergeAt_bestPair {vocab : Vocab} {syms : List Bytes} {i : Nat}
    (h : bestPair vocab syms 0 none 2147483647 = some i) :
    ∃ pre a b post, syms = pre ++ a :: b :: post ∧ mergeAt i syms = pre ++ (a ++ b) :: post ∧
      0 ≤ bpeRank vocab a b := by
  rcases bestPair_eq_some h with h | ⟨pre, a, b, post, hsyms, hi, hab⟩
  · cases h
  · refine ⟨pre, a, b, post, hsyms, ?_, hab⟩
    rw [hi, Nat.zero_add, hsyms, mergeAt_append]

theorem mergeLoop_done {vocab : Vocab} {n : Nat} {syms : List Bytes} (hn : syms.length ≤ n) :
    bestPair vocab (mergeLoop vocab n syms) 0 none 2147483647 = none := by
  induction n generalizing syms with
  | zero =>
    obtain rfl := List.length_eq_zero_iff.mp (Nat.le_zero.mp hn)
    rfl
  | succ n ih =>
    rw [mergeLoop]
    split
    · assumption
    · rename_i i hi
      obtain ⟨pre, a, b, post, hsyms, hmerge, -⟩ := mergeAt_bestPair hi
      apply ih
      rw [hmerge]
      simp only [hsyms, List.length_append, List.length_cons] at hn ⊢
      omega

theorem Vocab.Closed.merge {vocab : Vocab} {merges : List Bytes} (hv : vocab.Closed merges) {a b : Bytes}
    (ha : vocab.Symbol a) (hb : vocab.Symbol b) (hrank : 0 ≤ bpeRank vocab a b) :
    vocab.Symbol (a ++ b) := by
  obtain ⟨-, l, rfl⟩ := ha
  obtain ⟨-, m, rfl⟩ := hb
  refine ⟨?_, l ++ m, (byteEncode_append l m).symm⟩
  rw [bpeRank, hv.ranks] at hrank
  cases hmerge : loadTable merges 0 (fun _ => none) (byteEncode l ++ 0x20 :: byteEncode m) with
  | none => simp [hmerge] at hrank
  | some rank =>
    have hspace := not_mem_byteEncode fun c => (gpt2Symbol_bytes c).2
    exact hv.merged _ _ (hspace l) (hspace m) (mem_of_loadTable hmerge)

/-- **Merging keeps the text.** Every symbol stays a token that encodes bytes. -/
theorem mergeLoop_symbols {vocab : Vocab} {merges : List Bytes} (hv : vocab.Closed merges) {n : Nat}
    {syms : List Bytes} (hsyms : ∀ s ∈ syms, vocab.Symbol s) :
    (∀ s ∈ mergeLoop vocab n syms, vocab.Symbol s) ∧
      (mergeLoop vocab n syms).flatten = syms.flatten := by
  induction n generalizing syms with
  | zero => exact ⟨hsyms, rfl⟩
  | succ n ih =>
    rw [mergeLoop]
    split
    · exact ⟨hsyms, rfl⟩
    · rename_i i hi
      obtain ⟨pre, a, b, post, rfl, hmerge, hrank⟩ := mergeAt_bestPair hi
      have hab := hv.merge (hsyms a (by simp)) (hsyms b (by simp)) hrank
      obtain ⟨hall, hflat⟩ := @ih (mergeAt i (pre ++ a :: b :: post)) (by
        rw [hmerge]
        intro s hs
        rcases List.mem_append.mp hs with h | h
        · exact hsyms s (by simp [h])
        · rcases List.mem_cons.mp h with rfl | h
          · exact hab
          · exact hsyms s (by simp [h]))
      refine ⟨hall, hflat.trans ?_⟩
      rw [hmerge]
      simp

theorem Vocab.Closed.symbolTokens_text {vocab : Vocab} {merges : List Bytes} (hv : vocab.Closed merges)
    {l : Bytes} (h : byteEncode l ∈ vocab.token) :
    (symbolTokens vocab (byteEncode l)).flatMap (tokenText vocab) = l := by
  obtain ⟨id, hid⟩ := loadTable_isSome h
  rw [← hv.ids] at hid
  rw [symbolTokens, hid, List.flatMap_singleton, (hv.tokenText_eq hid).2, decodeToken_byteEncode]

theorem Vocab.Closed.symbols_text {vocab : Vocab} {merges : List Bytes} (hv : vocab.Closed merges)
    {syms : List Bytes} (hsyms : ∀ s ∈ syms, vocab.Symbol s) :
    byteEncode ((syms.flatMap (symbolTokens vocab)).flatMap (tokenText vocab)) = syms.flatten := by
  induction syms with
  | nil => rfl
  | cons s syms ih =>
    obtain ⟨hmem, l, rfl⟩ := hsyms s (by simp)
    rw [List.flatMap_cons, List.flatMap_append, hv.symbolTokens_text hmem, byteEncode_append,
      ih fun t ht => hsyms t (by simp [ht]), List.flatten_cons]

theorem byteEncode_injective : Function.Injective byteEncode :=
  Function.LeftInverse.injective decodeToken_byteEncode

/-- **The tokens of a piece read back as the piece.** -/
theorem Vocab.Closed.bpeEmitPiece_text {vocab : Vocab} {merges : List Bytes} (hv : vocab.Closed merges)
    (rawPiece : Bytes) :
    (bpeEmitPiece vocab rawPiece).flatMap (tokenText vocab) = rawPiece := by
  have hstart : ∀ s ∈ rawPiece.map gpt2Symbol, vocab.Symbol s := by
    intro s hs
    obtain ⟨b, -, rfl⟩ := List.mem_map.mp hs
    exact ⟨hv.bytes b, [b], by simp [byteEncode]⟩
  apply byteEncode_injective
  simp only [bpeEmitPiece]
  rw [splitSymbols_byteEncode (length_le_byteEncode rawPiece)]
  obtain ⟨hall, hflat⟩ := mergeLoop_symbols hv (n := (rawPiece.map gpt2Symbol).length) hstart
  rw [hv.symbols_text hall, hflat, byteEncode, List.flatMap_def]

end Ds4.Tokenizer
