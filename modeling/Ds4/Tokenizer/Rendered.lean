import Ds4.Tokenizer.Bpe
import Ds4.Tokenizer.Pretokenize

/-!
# Rendered chats

`special_token_at` and `ds4_tokenize_rendered_chat`. The spans between markers go through the
pre-tokenizer and the merging; nothing is lost, and a marker cuts a text in two wherever it stands.
-/

namespace Ds4.Tokenizer

open Ds4.Lib

/-- The table of `special_token_at`, without the entries that another family names. -/
def specials (family : Family) (vocab : Vocab) : List (Bytes × Int) := [
  (lit "<｜begin▁of▁sentence｜>", vocab.bosId),
  (lit "<｜end▁of▁sentence｜>", vocab.eosId),
  (lit "[gMASK]", -1),
  (lit "<sop>", vocab.sopId),
  (lit "<|system|>", -1),
  (lit "<｜System｜>", if family = .deepseek41 then vocab.systemId else -1),
  (lit "<｜User｜>", vocab.userId),
  (lit "<｜Assistant｜>", vocab.assistantId),
  (lit "<|user|>", -1),
  (lit "<|assistant|>", -1),
  (lit "<|observation|>", -1),
  (lit "<think>", vocab.thinkStartId),
  (lit "</think>", vocab.thinkEndId),
  (lit "<tool_call>", vocab.toolCallStartId),
  (lit "</tool_call>", vocab.toolCallEndId),
  (lit "<tool_response>", vocab.toolResponseStartId),
  (lit "</tool_response>", vocab.toolResponseEndId),
  (lit "<arg_key>", vocab.argKeyStartId),
  (lit "</arg_key>", vocab.argKeyEndId),
  (lit "<arg_value>", vocab.argValueStartId),
  (lit "</arg_value>", vocab.argValueEndId),
  (lit "｜DSML｜", vocab.dsmlId),
  (lit "<|im_start|>", vocab.imStartId),
  (lit "<|im_end|>", vocab.imEndId),
  (lit "<|endoftext|>", vocab.endoftextId)]

/-- `special_token_at`: the first entry with an id whose text is at the front. -/
def specialTokenAt (family : Family) (vocab : Vocab) (p : Bytes) : Option (Bytes × Int) :=
  (specials family vocab).find? fun s => decide (0 ≤ s.2) && s.1.isPrefixOf p

/-- `tokenize_span`. -/
def tokenizeSpan (vocab : Vocab) (l : Bytes) : List Int :=
  if l = [] then [] else (bpeTokenizeText l).flatMap (bpeEmitPiece vocab)

/-- The loop of `tokenize_rendered_chat_vocab`, with the span from `g` and the place `l`. -/
def renderedLoop (family : Family) (vocab : Vocab) : Nat → Bytes → Bytes → List Int
  | 0, g, _ => tokenizeSpan vocab g
  | n + 1, g, l =>
    match l with
    | [] => tokenizeSpan vocab g
    | _ :: next =>
      match specialTokenAt family vocab l with
      | some (text, token) =>
        tokenizeSpan vocab (between g l) ++
          token :: renderedLoop family vocab n (l.drop text.length) (l.drop text.length)
      | none => renderedLoop family vocab n g next

/-- `ds4_tokenize_rendered_chat` of a C string. -/
def tokenizeRenderedChat (family : Family) (vocab : Vocab) (text : Bytes) : List Int :=
  let l := text.takeWhile fun b => b != 0
  renderedLoop family vocab l.length l l

/-! ## Markers -/

/-- The texts of the table. -/
def specialTexts : List Bytes := [
  lit "<｜begin▁of▁sentence｜>", lit "<｜end▁of▁sentence｜>", lit "[gMASK]", lit "<sop>",
  lit "<|system|>", lit "<｜System｜>", lit "<｜User｜>", lit "<｜Assistant｜>", lit "<|user|>",
  lit "<|assistant|>", lit "<|observation|>", lit "<think>", lit "</think>", lit "<tool_call>",
  lit "</tool_call>", lit "<tool_response>", lit "</tool_response>", lit "<arg_key>",
  lit "</arg_key>", lit "<arg_value>", lit "</arg_value>", lit "｜DSML｜", lit "<|im_start|>",
  lit "<|im_end|>", lit "<|endoftext|>"]

theorem specials_texts (family : Family) (vocab : Vocab) :
    (specials family vocab).map Prod.fst = specialTexts := rfl

theorem specialTexts_spelled : ∀ t ∈ specialTexts,
    t ≠ [] ∧ decodeToken t = t ∧ (0x3c : UInt8) ∉ t.tail := by decide

theorem specialTexts_prefix_free : ∀ s ∈ specialTexts, ∀ t ∈ specialTexts,
    s.isPrefixOf t = true → s = t := by decide

theorem specialTexts_nodup : specialTexts.Nodup := by decide

theorem mem_specialTexts {family : Family} {vocab : Vocab} {s : Bytes × Int}
    (h : s ∈ specials family vocab) : s.1 ∈ specialTexts := by
  rw [← specials_texts family vocab]
  exact List.mem_map_of_mem h

theorem vocabLoad_specials {family : Family} {tokens merges : List Bytes} {vocab : Vocab}
    (h : vocabLoad family tokens merges = some vocab) :
    ∀ s ∈ specials family vocab, 0 ≤ s.2 → vocab.tokenToId s.1 = some s.2 := by
  by_cases hlarge : tokens.length > 2147483647
  · rw [vocabLoad, if_pos hlarge] at h
    cases h
  · rw [vocabLoad, if_neg hlarge] at h
    simp only [Option.bind_eq_bind, Option.bind_eq_some_iff, Option.pure_def, Option.some.injEq] at h
    obtain ⟨_, hbos, _, heos, systemId, hsystem, _, huser, _, hassistant, _, hstart, _, hend, _, hdsml,
      rfl⟩ := h
    have hsystem' : 0 ≤ (if family = .deepseek41 then systemId else -1) →
        loadTable tokens 0 (fun _ => none) (lit "<｜System｜>") =
          some (if family = .deepseek41 then systemId else -1) := by
      intro hpos
      by_cases h41 : family = .deepseek41
      · rwa [if_pos h41] at hsystem ⊢
      · rw [if_neg h41] at hpos
        omega
    simp only [specials, List.forall_mem_cons]
    refine ⟨fun _ => hbos, fun _ => heos, ?_, ?_, ?_, hsystem', fun _ => huser, fun _ => hassistant, ?_, ?_,
      ?_, fun _ => hstart, fun _ => hend, ?_, ?_, ?_, ?_, ?_, ?_, ?_, ?_, fun _ => hdsml, ?_, ?_, ?_, ?_⟩ <;>
      simp

theorem specialTokenAt_eq_some {family : Family} {vocab : Vocab} {p : Bytes} {s : Bytes × Int}
    (h : specialTokenAt family vocab p = some s) :
    s ∈ specials family vocab ∧ 0 ≤ s.2 ∧ ∃ rest, p = s.1 ++ rest := by
  have hs := List.find?_some h
  rw [Bool.and_eq_true, decide_eq_true_eq, List.isPrefixOf_iff_prefix] at hs
  obtain ⟨hid, rest, hrest⟩ := hs
  exact ⟨List.mem_of_find?_eq_some h, hid, rest, hrest.symm⟩

/-- No marker reaches over a place where `<` stands. -/
theorem specialTokenAt_append {family : Family} {vocab : Vocab} {a x : Bytes} (ha : a ≠ [])
    (hx : x.head? = some 0x3c) :
    specialTokenAt family vocab (a ++ x) = specialTokenAt family vocab a := by
  apply List.find?_congr
  intro s hs
  obtain ⟨-, -, hlt⟩ := specialTexts_spelled s.1 (mem_specialTexts hs)
  congr 1
  rw [Bool.eq_iff_iff, List.isPrefixOf_iff_prefix, List.isPrefixOf_iff_prefix]
  constructor
  · intro h
    rcases List.prefix_or_prefix_of_prefix h (List.prefix_append a x) with hsa | ⟨y, hy⟩
    · exact hsa
    · rw [← hy, List.prefix_append_right_inj] at h
      cases y with
      | nil => rw [← hy, List.append_nil]
      | cons c y =>
        -- the text would hold `<` behind its front
        obtain ⟨z, rfl⟩ := h
        obtain rfl := Option.some.inj hx
        refine absurd ?_ hlt
        cases a with
        | nil => exact absurd rfl ha
        | cons d a => simp [← hy]
  · exact fun h => h.trans (List.prefix_append a x)

theorem specialTokenAt_marker {family : Family} {vocab : Vocab} {m : Bytes} {id : Int}
    (hm : (m, id) ∈ specials family vocab) (hid : 0 ≤ id) (rest : Bytes) :
    specialTokenAt family vocab (m ++ rest) = some (m, id) := by
  cases h : specialTokenAt family vocab (m ++ rest) with
  | none =>
    have hnot := List.find?_eq_none.mp h (m, id) hm
    simp [hid, List.isPrefixOf_iff_prefix] at hnot
  | some s =>
    obtain ⟨hs, -, rest', hrest⟩ := specialTokenAt_eq_some h
    have htext := mem_specialTexts hs
    have hmtext : m ∈ specialTexts := mem_specialTexts hm
    have heq : s.1 = m := by
      rcases List.prefix_or_prefix_of_prefix (hrest ▸ List.prefix_append s.1 rest')
        (List.prefix_append m rest) with hp | hp
      · exact specialTexts_prefix_free _ htext _ hmtext (List.isPrefixOf_iff_prefix.mpr hp)
      · exact (specialTexts_prefix_free _ hmtext _ htext (List.isPrefixOf_iff_prefix.mpr hp)).symm
    have hnodup : ((specials family vocab).map Prod.fst).Nodup := specialTexts_nodup
    rw [List.inj_on_of_nodup_map hnodup hs hm heq]

/-! ## Reading back -/

theorem Vocab.Closed.tokenizeSpan_text {vocab : Vocab} {merges : List Bytes} (hv : vocab.Closed merges)
    {l : Bytes} (hnul : (0 : UInt8) ∉ l) :
    (tokenizeSpan vocab l).flatMap (tokenText vocab) = l := by
  rw [tokenizeSpan]
  split_ifs with hl
  · exact hl.symm
  · have hall : l.takeWhile (fun b => b != 0) = l := by
      rw [List.takeWhile_eq_self_iff]
      exact fun b hb => bne_iff_ne.mpr fun h => hnul (h ▸ hb)
    rw [List.flatMap_assoc]
    simp only [hv.bpeEmitPiece_text]
    rw [List.flatMap_id', bpeTokenizeText_flatten, hall]

theorem renderedLoop_text {family : Family} {vocab : Vocab} {merges : List Bytes}
    (hv : vocab.Closed merges)
    (hids : ∀ s ∈ specials family vocab, 0 ≤ s.2 → vocab.tokenToId s.1 = some s.2) {n : Nat}
    {g l : Bytes} (hnul : (0 : UInt8) ∉ g) (h : l <:+ g) :
    (renderedLoop family vocab n g l).flatMap (tokenText vocab) = g := by
  fun_induction renderedLoop family vocab n g l with
  | case1 g l => exact hv.tokenizeSpan_text hnul
  | case2 n g => exact hv.tokenizeSpan_text hnul
  | case3 n g c next text token htoken ih =>
    obtain ⟨hs, hid, rest, hrest⟩ := specialTokenAt_eq_some htoken
    have htext := (hv.tokenText_eq (hids _ hs hid)).2
    rw [(specialTexts_spelled _ (mem_specialTexts hs)).2.1] at htext
    have hg := between_append h
    have hdrop : (c :: next).drop text.length = rest := by
      rw [hrest]
      exact List.drop_left
    have hleft : (0 : UInt8) ∉ between g (c :: next) := fun h0 =>
      hnul (hg ▸ List.mem_append_left _ h0)
    have hright : (0 : UInt8) ∉ rest := fun h0 =>
      hnul (hg ▸ List.mem_append_right _ (hrest ▸ List.mem_append_right _ h0))
    simp only [htoken]
    rw [hdrop] at ih ⊢
    rw [List.flatMap_append, List.flatMap_cons, hv.tokenizeSpan_text hleft, htext,
      ih hright List.suffix_rfl, ← hrest, hg]
  | case4 n g c next htoken ih =>
    simp only [htoken]
    exact ih hnul ((List.suffix_cons c next).trans h)

/-! ## Cutting at a marker -/

theorem between_left (g l : Bytes) : between (g ++ l) l = g := by
  rw [between, List.length_append, Nat.add_sub_cancel, List.take_left]

theorem renderedLoop_rounds {family : Family} {vocab : Vocab} {n k : Nat} {g l : Bytes}
    (hn : l.length ≤ n) (hk : l.length ≤ k) :
    renderedLoop family vocab n g l = renderedLoop family vocab k g l := by
  induction n generalizing k g l with
  | zero =>
    obtain rfl := List.length_eq_zero_iff.mp (Nat.le_zero.mp hn)
    cases k <;> rfl
  | succ n ih =>
    cases l with
    | nil => cases k <;> rfl
    | cons c next =>
      obtain ⟨k, rfl⟩ := Nat.exists_eq_add_of_le' (Nat.le_trans (Nat.succ_pos _) hk)
      rw [List.length_cons] at hn hk
      simp only [renderedLoop]
      cases htoken : specialTokenAt family vocab (c :: next) with
      | none => exact ih (by omega) (by omega)
      | some s =>
        have hpos := List.length_pos_iff.mpr
          (specialTexts_spelled _ (mem_specialTexts (specialTokenAt_eq_some htoken).1)).1
        have hlen : ((c :: next).drop s.1.length).length ≤ next.length := by
          rw [List.length_drop, List.length_cons]
          omega
        have hrounds : ∀ k', next.length ≤ k' → ((c :: next).drop s.1.length).length ≤ k' :=
          fun _ => hlen.trans
        exact congrArg (fun rest => tokenizeSpan vocab (between g (c :: next)) ++ s.2 :: rest)
          (ih (hrounds n (by omega)) (hrounds k (by omega)))

/-- **A marker cuts.** What is before it and what is behind it are tokenized on their own. -/
theorem renderedLoop_cut {family : Family} {vocab : Vocab} {m : Bytes} {id : Int}
    (hm : (m, id) ∈ specials family vocab) (hid : 0 ≤ id) (hlt : m.head? = some 0x3c) (rest : Bytes)
    {n j : Nat} (gap : Bytes) {a : Bytes} (hn : (a ++ (m ++ rest)).length ≤ n) (hj : a.length ≤ j) :
    renderedLoop family vocab n (gap ++ (a ++ (m ++ rest))) (a ++ (m ++ rest)) =
      renderedLoop family vocab j (gap ++ a) a ++
        id :: renderedLoop family vocab rest.length rest rest := by
  have hhead : (m ++ rest).head? = some 0x3c := by rw [List.head?_append, hlt, Option.some_or]
  obtain ⟨next', hnext⟩ : ∃ next', m ++ rest = 0x3c :: next' := List.head?_eq_some_iff.mp hhead
  induction n generalizing j gap a with
  | zero =>
    rw [List.length_append, hnext, List.length_cons] at hn
    omega
  | succ n ih =>
    cases a with
    | nil =>
      have hstop : renderedLoop family vocab j (gap ++ []) [] = tokenizeSpan vocab gap := by
        rw [List.append_nil]
        cases j <;> rfl
      have hpos := List.length_pos_iff.mpr (specialTexts_spelled m (mem_specialTexts hm)).1
      have hrest : rest.length ≤ n := by
        rw [List.nil_append, List.length_append] at hn
        omega
      have hfound := specialTokenAt_marker hm hid rest
      rw [hstop, List.nil_append]
      rw [hnext] at hfound ⊢
      simp only [renderedLoop, hfound]
      rw [between_left, ← hnext, List.drop_left, renderedLoop_rounds hrest le_rfl]
    | cons c a =>
      obtain ⟨j, rfl⟩ := Nat.exists_eq_add_of_le' (Nat.le_trans (Nat.succ_pos _) hj)
      have hsame := @specialTokenAt_append family vocab (c :: a) (m ++ rest) (by simp) hhead
      rw [List.cons_append] at hsame hn ⊢
      rw [List.length_cons] at hn hj
      simp only [renderedLoop, hsame]
      cases htoken : specialTokenAt family vocab (c :: a) with
      | none =>
        have hstep := @ih j (gap ++ [c]) a (by omega) (by omega)
        rw [List.append_assoc, List.append_assoc, List.singleton_append, List.singleton_append] at hstep
        exact hstep
      | some s =>
        obtain ⟨hs, -, b, hb⟩ := specialTokenAt_eq_some htoken
        have hpos := List.length_pos_iff.mpr (specialTexts_spelled _ (mem_specialTexts hs)).1
        have hlen := congrArg List.length hb
        rw [List.length_append, List.length_cons] at hlen
        rw [List.length_append] at hn
        have hstep := @ih j [] b (by rw [List.length_append]; omega) (by omega)
        rw [List.nil_append, List.nil_append] at hstep
        simp only
        rw [between_left, between_left, ← List.cons_append, hb, List.append_assoc, List.drop_left,
          List.drop_left, hstep, List.append_assoc, List.cons_append]

/-- **Tokenization is lossless.** The tokens of a rendered chat read back as the chat, and wherever a
marker in angle brackets stands they are those of what is before it, its id, and those of what is
behind it. -/
theorem tokenizeRenderedChat_lossless {family : Family} {tokens merges : List Bytes} {vocab : Vocab}
    (hload : vocabLoad family tokens merges = some vocab) (hbytes : ∀ b, gpt2Symbol b ∈ tokens)
    (hmerged : ∀ a b, 0x20 ∉ a → 0x20 ∉ b → a ++ 0x20 :: b ∈ merges → a ++ b ∈ tokens)
    {text : Bytes} (hnul : (0 : UInt8) ∉ text) :
    (tokenizeRenderedChat family vocab text).flatMap (tokenText vocab) = text ∧
      ∀ a m b id, text = a ++ m ++ b → (m, id) ∈ specials family vocab → 0 ≤ id →
        m.head? = some 0x3c →
        tokenizeRenderedChat family vocab text =
          tokenizeRenderedChat family vocab a ++ id :: tokenizeRenderedChat family vocab b := by
  have hstring : ∀ l : Bytes, (∀ b ∈ l, b ∈ text) →
      tokenizeRenderedChat family vocab l = renderedLoop family vocab l.length l l := by
    intro l hl
    have hall : l.takeWhile (fun b => b != 0) = l := by
      rw [List.takeWhile_eq_self_iff]
      exact fun b hb => bne_iff_ne.mpr fun h => hnul (h ▸ hl b hb)
    rw [tokenizeRenderedChat, hall]
  obtain ⟨hloaded, htokens⟩ := vocabLoad_loaded hload
  have hclosed : vocab.Closed merges := ⟨hloaded, htokens ▸ hbytes, htokens ▸ hmerged⟩
  constructor
  · rw [hstring text fun _ => id]
    exact renderedLoop_text hclosed (vocabLoad_specials hload) hnul List.suffix_rfl
  · intro a m b id htext hm hid hlt
    rw [hstring text fun _ hb => hb, hstring a fun c hc => by simp [htext, hc],
      hstring b fun c hc => by simp [htext, hc]]
    subst htext
    rw [List.append_assoc]
    exact renderedLoop_cut hm hid hlt b [] le_rfl le_rfl

/-- A vocabulary of the bytes, the markers and one merge. -/
def smallTokens : List Bytes :=
  (List.range 256).map (fun n => gpt2Symbol (UInt8.ofNat n)) ++
    [lit "<｜begin▁of▁sentence｜>", lit "<｜end▁of▁sentence｜>", lit "<｜System｜>", lit "<｜User｜>",
      lit "<｜Assistant｜>", lit "<think>", lit "</think>", lit "｜DSML｜", lit "ab"]

theorem gpt2Symbol_mem_smallTokens (b : UInt8) : gpt2Symbol b ∈ smallTokens := by
  refine List.mem_append_left _ (List.mem_map.mpr ⟨b.toNat, ?_, by rw [UInt8.ofNat_toNat]⟩)
  exact List.mem_range.mpr b.toNat_lt

set_option maxRecDepth 10000 in
/-- The text `ab<think>` and a byte that is no text. -/
theorem tokenizeRenderedChat_lossless_small :
    ∃ vocab, vocabLoad .deepseek41 smallTokens [lit "a b"] = some vocab ∧
      (∀ b, gpt2Symbol b ∈ smallTokens) ∧
      (∀ a b, 0x20 ∉ a → 0x20 ∉ b → a ++ 0x20 :: b ∈ [lit "a b"] → a ++ b ∈ smallTokens) ∧
      (0 : UInt8) ∉ lit "ab<think>" ++ [0xff] ∧
      ((tokenizeRenderedChat .deepseek41 vocab (lit "ab<think>" ++ [0xff])).flatMap (tokenText vocab) =
        lit "ab<think>" ++ [0xff]) := by
  have hsome : (vocabLoad .deepseek41 smallTokens [lit "a b"]).isSome = true := by decide
  obtain ⟨vocab, hvocab⟩ := Option.isSome_iff_exists.mp hsome
  have hmerged : ∀ a b : Bytes, 0x20 ∉ a → 0x20 ∉ b → a ++ 0x20 :: b ∈ [lit "a b"] →
      a ++ b ∈ smallTokens := by
    intro a b ha hb hab
    have hlit : a ++ 0x20 :: b = [0x61, 0x20, 0x62] := List.mem_singleton.mp hab
    match a with
    | [] => cases hlit
    | [c] =>
      obtain ⟨rfl, -, rfl⟩ : c = 0x61 ∧ (0x20 : UInt8) = 0x20 ∧ b = [0x62] := by simpa using hlit
      exact List.mem_append_right _ (by decide)
    | c :: d :: a =>
      obtain ⟨-, rfl, -⟩ : c = 0x61 ∧ d = 0x20 ∧ a ++ 0x20 :: b = [0x62] := by simpa using hlit
      exact absurd (by simp) ha
  have hnul : (0 : UInt8) ∉ lit "ab<think>" ++ [0xff] := by decide
  exact ⟨vocab, hvocab, gpt2Symbol_mem_smallTokens, hmerged, hnul,
    (tokenizeRenderedChat_lossless hvocab gpt2Symbol_mem_smallTokens hmerged hnul).1⟩

end Ds4.Tokenizer
