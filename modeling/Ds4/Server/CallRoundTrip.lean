import Ds4.Server.Arguments
import Ds4.Server.Render

/-!
# Rendered calls and their parsers

A block of calls that the server renders for a GLM or a Qwen model is read back by the parser of the
syntax: the same names, and arguments with the same members. GLM carries strings only. A Qwen
parameter is JSON where its text is JSON, so a string that looks like JSON does not come back as a
string, and neither keys nor JSON texts are unescaped there (`QwenArg`).
-/

namespace Ds4.Server

open Ds4.Lib

/-! ## The statement -/

/-- A text without white space at its ends. -/
structure Trimmed (s : Bytes) : Prop where
  head : ∀ c, s.head? = some c → isSpace c = false
  last : ∀ c, s.getLast? = some c → isSpace c = false

/-- The name of a call: not empty, without markup, and trimmed. -/
structure CallName (name : Bytes) : Prop where
  ne_nil : name ≠ []
  no_lt : 60 ∉ name
  no_gt : 62 ∉ name
  trimmed : Trimmed name

/-- A call with a name and an object of members with `ok` as its arguments. -/
structure CallWith (ok : JsonArg → Prop) (tc : ToolCall) : Prop where
  name : CallName tc.name
  noNul : 0 ∉ tc.arguments
  args : ∃ args, jsonArgsParse tc.arguments = some args ∧ ∀ a ∈ args, Trimmed a.key ∧ ok a

/-- A member that a Qwen call carries: a key that its tag leaves as it is, a string whose body is
not taken for JSON, or a JSON text in which nothing is escaped. -/
structure QwenArg (a : JsonArg) : Prop where
  no_lt : 60 ∉ a.key
  key : EscapeFree (lit ">") a.key
  text : a.isString = true →
    qwenParamValueIsJson (toolTextEscape (lit "</parameter>") a.value) = false
  json : a.isString = false → EscapeFree (lit "</parameter>") a.value

/-- The name and the members of a call. -/
def ToolCall.members (tc : ToolCall) : Bytes × Option (List JsonArg) :=
  (tc.name, jsonArgsParse tc.arguments)

/-! ## Trimming -/

theorem trimSpan_of_trimmed {s : Bytes} (h : Trimmed s) : trimSpan s = s := by
  have hhead : jsonWs s = s := by
    cases s with
    | nil => rfl
    | cons c s => exact jsonWs_cons_of_not_space (h.head c rfl)
  rw [trimSpan, hhead, trimEnd, List.rdropWhile_eq_self_iff]
  intro hne
  simp [h.last _ (List.getLast?_eq_some_getLast hne)]

theorem escape_ne_nil (fin : Bytes) (c : UInt8) (s : Bytes) : toolTextEscape fin (c :: s) ≠ [] := by
  have hlt : lit "&lt;" ≠ [] := by decide
  have hamp : lit "&amp;" ≠ [] := by decide
  rw [toolTextEscape]
  split_ifs <;> simp [hlt, hamp]

theorem getLast_escape {fin s : Bytes} {c : UInt8} (h : (toolTextEscape fin s).getLast? = some c) :
    c = 59 ∨ s.getLast? = some c := by
  induction s with
  | nil => simp [toolTextEscape] at h
  | cons d s ih =>
    cases hx : (toolTextEscape fin s).getLast? with
    | some e =>
      have hsame : (toolTextEscape fin (d :: s)).getLast? = some e := by
        rw [toolTextEscape]
        split_ifs <;> simp [List.getLast?_cons, List.getLast?_append, hx]
      obtain rfl : e = c := Option.some.inj (hsame.symm.trans h)
      refine (ih hx).imp_right fun hs => ?_
      rw [List.getLast?_cons, hs]
      rfl
    | none =>
      have hnil : toolTextEscape fin s = [] := List.getLast?_eq_none_iff.mp hx
      rw [toolTextEscape, hnil] at h
      split_ifs at h with h1 h2
      · exact .inl (Option.some.inj h).symm
      · exact .inl (Option.some.inj h).symm
      · cases s with
        | nil => exact .inr h
        | cons e s => exact absurd hnil (escape_ne_nil fin e s)

theorem trimmed_escape {fin s : Bytes} (h : Trimmed s) : Trimmed (toolTextEscape fin s) := by
  constructor
  · intro c hc
    cases s with
    | nil => simp [toolTextEscape] at hc
    | cons d s =>
      rw [toolTextEscape] at hc
      split_ifs at hc
      · obtain rfl : 38 = c := Option.some.inj hc
        decide
      · obtain rfl : 38 = c := Option.some.inj hc
        decide
      · exact h.head c hc
  · intro c hc
    rcases getLast_escape hc with rfl | hs
    · decide
    · exact h.last c hs

/-! ## GLM -/

theorem argKeyEnd_closeTag : CloseTag (lit "</arg_key>") := ⟨⟨rfl, by decide⟩, by decide⟩

theorem argValueEnd_closeTag : CloseTag (lit "</arg_value>") := ⟨⟨rfl, by decide⟩, by decide⟩

theorem callEnd_marker : Marker 60 callEnd := ⟨rfl, by decide⟩

theorem callStart_marker : Marker 60 callStart := ⟨rfl, by decide⟩

theorem glmArgText_append (a : JsonArg) (r : Bytes) :
    glmArgText a ++ r = lit "<arg_key>" ++ (glmArgKeyText a.key ++ (lit "</arg_key>" ++
      (lit "<arg_value>" ++ (glmArgValueText a.value ++ (lit "</arg_value>" ++ r))))) := by
  have : lit "</arg_key><arg_value>" = lit "</arg_key>" ++ lit "<arg_value>" := by decide
  simp [glmArgText, this]

theorem strstr_escape {fin : Bytes} (hfin : CloseTag fin) (s r : Bytes) :
    strstr (toolTextEscape fin s ++ (fin ++ r)) fin = some (fin ++ r) := by
  obtain ⟨h, hclear⟩ := cut_eq_some.1 (cut_escape hfin s r)
  rw [strstr_append hclear, strstr_isPrefix (List.prefix_append fin r)]

theorem skipWrapper_escape {o fin : Bytes} (hopen : 62 ∉ o) (hfin : CloseTag fin)
    (s r : Bytes) :
    skipWrapper (o ++ [62] ++ (toolTextEscape fin s ++ (fin ++ r))) fin = some r := by
  have hclear : Clear [62] o ([62] ++ (toolTextEscape fin s ++ (fin ++ r))) :=
    Marker.clear_of_not_mem ⟨rfl, by simp⟩ hopen _
  rw [skipWrapper, List.append_assoc, cut_append hclear]
  simp [cut_escape hfin]

theorem wrapperAt_argKey (r : Bytes) : wrapperAt (lit "<arg_key>" ++ r) = some (lit "</arg_key>") :=
  wrapperAt_open (w := (lit "<arg_key>", lit "</arg_key>"))
    (show wrappers = wrappers.take 4 ++ _ :: wrappers.drop 5 from rfl) (by decide) r

theorem wrapperAt_argValue (r : Bytes) :
    wrapperAt (lit "<arg_value>" ++ r) = some (lit "</arg_value>") :=
  wrapperAt_open (w := (lit "<arg_value>", lit "</arg_value>"))
    (show wrappers = wrappers.take 5 ++ _ :: wrappers.drop 6 from rfl) (by decide) r

theorem passed_glmArgs {args : List JsonArg} : Passed callEnd (args.flatMap glmArgText) := by
  induction args with
  | nil => exact .nil
  | cons a args ih =>
    rw [List.flatMap_cons, glmArgText_append]
    refine .wrapper ?_ (wrapperAt_argKey _) (skipWrapper_escape (o := lit "<arg_key") (by decide)
      argKeyEnd_closeTag _ _) ?_
    · exact not_prefix_of_incomparable (by decide) (by decide)
    · refine .wrapper ?_ (wrapperAt_argValue _) (skipWrapper_escape (o := lit "<arg_value")
        (by decide) argValueEnd_closeTag _ _) ih
      exact not_prefix_of_incomparable (by decide) (by decide)

theorem passed_name {name s : Bytes} (hname : 60 ∉ name) (hs : Passed callEnd s) :
    Passed callEnd (name ++ s) := by
  induction name with
  | nil => exact hs
  | cons c name ih =>
    have hc : c ≠ 60 := fun h => hname (by simp [h])
    refine .byte (callEnd_marker.not_prefix_cons hc) ?_ (ih fun h => hname (List.mem_cons_of_mem c h))
    rw [wrapperAt, Option.map_eq_none_iff, List.find?_eq_none]
    intro w hw
    simpa using (wrapper_marker w hw).not_prefix_cons hc

/-- The parameter that the parser makes of an argument. -/
def glmParam (a : JsonArg) : Param := ⟨a.key, a.value, lit "true"⟩

theorem glmArg_text {a : JsonArg} (hkey : Trimmed a.key) {r close : Bytes} (hclose : close <:+ r) :
    glmArg close (glmArgText a ++ r) = some (glmParam a, r) := by
  have hlen := hclose.length_le
  rw [glmArgText_append, glmArg, strip_append]
  dsimp only
  rw [glmArgKeyText, strstr_escape argKeyEnd_closeTag]
  dsimp only
  have hws : ∀ s : Bytes, jsonWs (lit "<arg_value>" ++ s) = lit "<arg_value>" ++ s := fun s =>
    jsonWs_cons_of_not_space (by decide)
  rw [if_neg (by simp only [List.length_append]; omega), upTo_append, List.drop_left, hws, strip_append]
  dsimp only
  rw [glmArgValueText, strstr_escape argValueEnd_closeTag]
  dsimp only
  rw [if_neg (by simp only [List.length_append]; omega), upTo_append, List.drop_left,
    trimSpan_of_trimmed (trimmed_escape hkey), unescape_escape argKeyEnd_closeTag,
    unescape_escape argValueEnd_closeTag]
  rfl

theorem many_glmArgs {args : List JsonArg} (h : ∀ a ∈ args, Trimmed a.key) {close r : Bytes}
    (hclose : close = callEnd ++ r) :
    Many (fun q => strip (jsonWs q) callEnd) (fun q => glmArg close (jsonWs q))
      (args.flatMap glmArgText ++ close) (args.map glmParam) r := by
  induction args with
  | nil =>
    refine .nil ?_
    rw [List.flatMap_nil, List.nil_append, hclose]
    have hws : jsonWs (callEnd ++ r) = callEnd ++ r := jsonWs_cons_of_not_space (by decide)
    rw [hws, strip_append]
  | cons a args ih =>
    rw [List.flatMap_cons, List.append_assoc, List.map_cons]
    have hws : jsonWs (glmArgText a ++ (args.flatMap glmArgText ++ close)) =
        glmArgText a ++ (args.flatMap glmArgText ++ close) := by
      rw [glmArgText_append]
      exact jsonWs_cons_of_not_space (by decide)
    refine .cons ?_ ?_ (ih fun b hb => h b (List.mem_cons_of_mem a hb))
    · rw [hws, glmArgText_append]
      exact strip_eq_none.2 (not_prefix_of_incomparable (by decide) (by decide))
    · rw [hws]
      exact glmArg_text (h a List.mem_cons_self) (List.suffix_append _ _)

theorem consumes_of_suffix {α : Type} {f : Reader α}
    (h : ∀ p a r, f p = some (a, r) → r <:+ p ∧ r.length < p.length) : Consumes f := by
  intro p a r hp
  obtain ⟨⟨x, hx⟩, hlt⟩ := h p a r hp
  refine ⟨x, ?_, hx.symm⟩
  rintro rfl
  rw [List.nil_append] at hx
  rw [hx] at hlt
  exact absurd hlt (lt_irrefl _)

theorem suffix_of_strip {s n r : Bytes} (h : strip s n = some r) : r <:+ s :=
  ⟨n, (strip_eq_some.1 h).symm⟩

theorem consumes_glmArg (close : Bytes) : Consumes (glmArg close) := by
  refine consumes_of_suffix fun p a r h => ?_
  unfold glmArg at h
  split at h
  · simp at h
  · next p1 h1 =>
    split at h
    · simp at h
    · next keyEnd h2 =>
      split_ifs at h
      dsimp only at h
      split at h
      · simp at h
      · next p3 h3 =>
        split at h
        · simp at h
        · next valueEnd h4 =>
          split_ifs at h
          obtain ⟨-, rfl⟩ := Prod.mk.inj (Option.some.inj h)
          have hs : valueEnd.drop (lit "</arg_value>").length <:+ p1 :=
            (List.drop_suffix _ _).trans ((suffix_of_strstr h4).trans ((suffix_of_strip h3).trans
              ((suffix_jsonWs _).trans ((List.drop_suffix _ _).trans (suffix_of_strstr h2)))))
          refine ⟨hs.trans (suffix_of_strip h1), ?_⟩
          have hp := strip_eq_some.1 h1
          have hlen := hs.length_le
          have h9 : (lit "<arg_key>").length = 9 := by decide
          rw [hp, List.length_append]
          omega

theorem glmNameEnd_text {name : Bytes} (hname : 60 ∉ name) (args : List JsonArg) (r : Bytes) :
    glmNameEnd (name ++ (args.flatMap glmArgText ++ (callEnd ++ r))) (callEnd ++ r) =
      args.flatMap glmArgText ++ (callEnd ++ r) := by
  have hkey : Marker 60 (lit "<arg_key>") := ⟨rfl, by decide⟩
  rw [glmNameEnd, strstr_append (hkey.clear_of_not_mem hname _)]
  cases args with
  | cons a args =>
    have hpre : lit "<arg_key>" <+: (a :: args).flatMap glmArgText ++ (callEnd ++ r) := by
      rw [List.flatMap_cons, List.append_assoc, glmArgText_append]
      exact List.prefix_append _ _
    rw [strstr_isPrefix hpre]
    dsimp only
    rw [if_neg]
    simp only [List.length_append]
    omega
  | nil =>
    rw [List.flatMap_nil, List.nil_append]
    split
    · rfl
    · next arg harg =>
      obtain ⟨a, ha, hpre, -⟩ := strstr_eq_some.1 harg
      have hne : a ≠ [] := by
        rintro rfl
        rw [List.nil_append] at ha
        exact not_prefix_of_incomparable (by decide) (by decide) (ha ▸ hpre)
      have := List.length_pos_of_ne_nil hne
      rw [if_pos]
      rw [ha, List.length_append]
      omega

/-- **A rendered GLM call is read back.** -/
theorem glmCall_text {name : Bytes} {args : List JsonArg} (hname : CallName name)
    (hkeys : ∀ a ∈ args, Trimmed a.key) (r : Bytes) :
    glmCall (callStart ++ (name ++ (args.flatMap glmArgText ++ (callEnd ++ r)))) =
      some ((name, args.map glmParam), r) := by
  have hclose : findToolStructuralText (name ++ (args.flatMap glmArgText ++ (callEnd ++ r))) callEnd
      false = some (callEnd ++ r) := by
    rw [← List.append_assoc]
    exact findToolStructuralText_first callEnd_marker (passed_name hname.no_lt passed_glmArgs)
      (List.prefix_append _ _)
  have hread := (readAll_eq_some ((consumes_glmArg (callEnd ++ r)).comp suffix_jsonWs)).mpr
    (many_glmArgs hkeys (r := r) rfl)
  simp only [glmCall, strip_append, hclose, glmNameEnd_text hname.no_lt, upTo_append,
    trimSpan_of_trimmed hname.trimmed, if_neg hname.ne_nil, hread, Option.map_some]

/-! ## Blocks of calls -/

section Block

variable {call : Reader (Bytes × List Param)} {text : ToolCall → Bytes}
  {result : ToolCall → Bytes × List Param} {sep : Bytes}

theorem many_calls (sep : Bytes) (hsep : ∀ c ∈ sep, isSpace c = true) {tcs : List ToolCall}
    (htext : ∀ tc ∈ tcs, callStart <+: text tc)
    (hread : ∀ tc ∈ tcs, ∀ r, call (text tc ++ r) = some (result tc, r)) :
    Many (fun q => if callStart <+: jsonWs q then none else some (jsonWs q))
      (fun q => call (jsonWs q)) (tcs.flatMap fun tc => sep ++ text tc) (tcs.map result) [] := by
  induction tcs with
  | nil =>
    rw [List.flatMap_nil]
    exact .nil (if_neg (by decide))
  | cons tc tcs ih =>
    have hpre := htext tc List.mem_cons_self
    obtain ⟨t, ht⟩ := id hpre
    have hws : ∀ r, jsonWs (sep ++ text tc ++ r) = text tc ++ r := by
      intro r
      rw [List.append_assoc, jsonWs_append_space hsep, ← ht]
      exact jsonWs_cons_of_not_space (by decide)
    rw [List.flatMap_cons, List.map_cons]
    refine .cons (q := tcs.flatMap fun tc => sep ++ text tc) ?_ ?_
      (ih (fun tc h => htext tc (List.mem_cons_of_mem _ h)) fun tc h =>
        hread tc (List.mem_cons_of_mem _ h))
    · rw [hws, if_pos (hpre.trans (List.prefix_append _ _))]
    · rw [hws, hread tc List.mem_cons_self]

end Block

theorem consumes_glmCall : Consumes glmCall := by
  refine consumes_of_suffix fun p a r h => ?_
  unfold glmCall at h
  split at h
  · simp at h
  · next p1 h1 =>
    split at h
    · simp at h
    · next close hclose =>
      dsimp only at h
      split_ifs at h
      obtain ⟨⟨params, r'⟩, hread, he⟩ := Option.map_eq_some_iff.mp h
      obtain rfl : r' = r := (Prod.mk.inj he).2
      have hsub : close <:+ p1 := suffix_of_findStructuralFrom List.suffix_rfl (by simp) hclose
      have hend : glmNameEnd p1 close <:+ p1 := by
        unfold glmNameEnd
        split
        · exact hsub
        · next arg harg =>
          split_ifs
          · exact hsub
          · exact suffix_of_strstr harg
      have hr : r' <:+ glmNameEnd p1 close :=
        suffix_of_many ((consumes_glmArg close).comp suffix_jsonWs)
          (fun q t ht => (suffix_of_strip ht).trans (suffix_jsonWs q)) (many_of_readMany hread)
      have hs := hr.trans hend
      refine ⟨hs.trans (suffix_of_strip h1), ?_⟩
      have hp := strip_eq_some.1 h1
      have hlen := hs.length_le
      have h11 : callStart.length = 11 := by decide
      rw [hp, List.length_append]
      omega

/-- The members of a call that `CallWith` names. -/
def ToolCall.args (tc : ToolCall) : List JsonArg := (jsonArgsParse tc.arguments).getD []

theorem CallWith.args_eq {ok : JsonArg → Prop} {tc : ToolCall} (h : CallWith ok tc) :
    jsonArgsParse tc.arguments = some tc.args ∧
      ∀ a ∈ tc.args, a.Canonical ∧ Trimmed a.key ∧ ok a := by
  obtain ⟨args, hargs, hok⟩ := h.args
  have : tc.args = args := by simp [ToolCall.args, hargs]
  rw [this]
  exact ⟨hargs, fun a ha => ⟨canonical_of_jsonArgsParse h.noNul hargs a ha, hok a ha⟩⟩

theorem glmCallText_eq {ok : JsonArg → Prop} {tc : ToolCall} (h : CallWith ok tc) :
    glmCallText [] tc = callStart ++ (tc.name ++ (tc.args.flatMap glmArgText ++ callEnd)) := by
  obtain ⟨hargs, -⟩ := h.args_eq
  simp [glmCallText, glmArgumentsFromJson, hargs, schemaProps, orderArgs]

theorem members_callOf {ok : JsonArg → Prop} {tc : ToolCall} (h : CallWith ok tc)
    {params : List Param} (hparams : params = tc.args.map JsonArg.param) :
    (callOf tc.name params).members = tc.members := by
  obtain ⟨hargs, hcanon⟩ := h.args_eq
  rw [ToolCall.members, ToolCall.members, callOf, hparams,
    jsonArgsParse_canonical fun a ha => (hcanon a ha).1, hargs]

theorem parseGlm_block {text : Bytes} {calls : List (Bytes × List Param)}
    (hstart : callStart <+: text) (hne : calls ≠ [])
    (hblock : callBlock glmCall text = some (calls, [])) :
    parseGlm false text = some ⟨[], none, calls.map fun c => callOf c.1 c.2, some text⟩ := by
  have hup : upTo text text = [] := by simp [upTo]
  have hnil : upTo text [] = text := by simp [upTo]
  rw [parseGlm, toolSearch, if_neg (by simp)]
  dsimp only
  rw [strstr_isPrefix hstart]
  dsimp only
  rw [hup, if_neg (by decide), hup, hblock]
  simp only [Option.bind_some, if_neg hne, hnil]
  rfl

/-- **GLM round trip.** -/
theorem glm_roundTrip {tcs : List ToolCall}
    (h : ∀ tc ∈ tcs, CallWith (fun a => a.isString = true) tc) :
    ∃ msg, parseGlm false (glmToolCallsText ⟨tcs, none⟩ []) = some msg ∧
      msg.calls.map ToolCall.members = tcs.map ToolCall.members := by
  cases tcs with
  | nil => exact ⟨⟨[], none, [], none⟩, by decide, rfl⟩
  | cons tc tcs =>
    have htext : ∀ t ∈ tc :: tcs, callStart <+: glmCallText [] t := by
      intro t ht
      rw [glmCallText_eq (h t ht)]
      exact List.prefix_append _ _
    have hread : ∀ t ∈ tc :: tcs, ∀ r, glmCall (glmCallText [] t ++ r) =
        some ((t.name, t.args.map glmParam), r) := by
      intro t ht r
      obtain ⟨-, hargs⟩ := (h t ht).args_eq
      rw [glmCallText_eq (h t ht)]
      simpa using glmCall_text (h t ht).name (fun a ha => (hargs a ha).2.1) r
    have hmany := many_calls [] (by simp) htext hread
    simp only [List.nil_append] at hmany
    have hblock : callBlock glmCall ((tc :: tcs).flatMap (glmCallText [])) =
        some ((tc :: tcs).map fun t => (t.name, t.args.map glmParam), []) :=
      (readAll_eq_some (consumes_glmCall.comp suffix_jsonWs)).mpr hmany
    have hrender : glmToolCallsText ⟨tc :: tcs, none⟩ [] =
        (tc :: tcs).flatMap (glmCallText []) := by
      simp [glmToolCallsText, ToolCalls.sampled]
    have hstart : callStart <+: (tc :: tcs).flatMap (glmCallText []) := by
      rw [List.flatMap_cons]
      exact (htext tc List.mem_cons_self).trans (List.prefix_append _ _)
    rw [hrender]
    refine ⟨_, parseGlm_block hstart (by simp) hblock, ?_⟩
    rw [List.map_map, List.map_map]
    refine List.map_congr_left fun t ht => members_callOf (h t ht) ?_
    obtain ⟨-, hargs⟩ := (h t ht).args_eq
    refine List.map_congr_left fun a ha => ?_
    have : a.isString = true := (hargs a ha).2.2
    simp [glmParam, JsonArg.param, this]

/-! ## Qwen -/

theorem parameterEnd_closeTag : CloseTag (lit "</parameter>") := ⟨⟨rfl, by decide⟩, by decide⟩

theorem no_gt_of_escapeFree {s : Bytes} (h : EscapeFree (lit ">") s) : 62 ∉ s := by
  intro hmem
  obtain ⟨a, b, rfl⟩ := List.append_of_mem hmem
  exact h (62 :: b) (List.suffix_append a _) (by simp) (.inl ⟨b, rfl⟩)

theorem tagName_append {s : Bytes} (hlt : 60 ∉ s) (hgt : 62 ∉ s) (r : Bytes) :
    tagName (s ++ 62 :: r) = some (s, r) := by
  have hall : ∀ c ∈ s, decide (c ≠ 60 ∧ c ≠ 62) = true := by
    intro c hc
    have h1 : c ≠ 60 := fun h => hlt (h ▸ hc)
    have h2 : c ≠ 62 := fun h => hgt (h ▸ hc)
    simp [h1, h2]
  have hstop : ∀ c, (62 :: r).head? = some c → decide (c ≠ 60 ∧ c ≠ 62) = false := by
    intro c hc
    obtain rfl : 62 = c := Option.some.inj hc
    rfl
  have hstrip : strip (62 :: r) [62] = some r := strip_append [62] r
  simp only [tagName, dropWhile_append_stop hall hstop, takeWhile_append_stop hall hstop, hstrip]

theorem stripValueNewlines_text (s : Bytes) : qwenStripValueNewlines (10 :: s ++ [10]) = s := by
  have hstrip : strip (10 :: s ++ [10]) [10] = some (s ++ [10]) := strip_append [10] _
  rw [qwenStripValueNewlines, hstrip]
  simp

theorem isJson_of_canonical {a : JsonArg} (h : a.Canonical) (hs : a.isString = false) :
    qwenParamValueIsJson a.value = true := by
  obtain ⟨v, hsp⟩ := h.json hs
  have hraw := jsonRawValue_spells hsp follow_nil
  have hq := h.unquoted hs
  obtain ⟨c, t, ht, hc⟩ := hsp.head
  rw [List.append_nil] at hraw
  rw [ht] at hraw hq ⊢
  rw [qwenParamValueIsJson, jsonWs_cons_of_not_space hc]
  split
  · next h => simp at h
  · next h =>
    obtain ⟨rfl, -⟩ := List.cons.inj h
    simp at hq
  · simp [hraw]

theorem qwenArgBody_eq {a : JsonArg} (h : a.Canonical) (ha : QwenArg a) :
    qwenArgBody a = if a.isString then toolTextEscape (lit "</parameter>") a.value else a.value := by
  cases hs : a.isString with
  | true => simp [qwenArgBody, hs]
  | false =>
    obtain ⟨v, hsp⟩ := h.json hs
    obtain ⟨c, t, ht, -⟩ := hsp.head
    have hmin : jsonMinifyRawValue a.value = a.value :=
      (jsonMinifyRawValue_spells hsp).trans (h.minified hs)
    have hne : a.value ≠ [] := by simp [ht]
    simp [qwenArgBody, hs, hmin, hne, escape_eq_self (ha.json hs)]

theorem qwenParam_text {a : JsonArg} (h : a.Canonical) (ha : QwenArg a) (name : Bytes) :
    qwenParam [] name a.key (10 :: qwenArgBody a ++ [10]) = a.param := by
  have hdecl : ∀ key, qwenParamDeclaredString [] name key = false := fun key => rfl
  have hbody := qwenArgBody_eq h ha
  rw [qwenParam, stripValueNewlines_text, hbody]
  cases hs : a.isString with
  | true =>
    simp only [hs, if_true, hdecl, ha.text hs, Bool.not_false, Bool.or_true,
      unescape_escape parameterEnd_closeTag, JsonArg.param]
  | false =>
    simp only [hdecl, isJson_of_canonical h hs, JsonArg.param, hs, Bool.false_eq_true, if_false,
      Bool.not_true, Bool.or_self]

theorem cut_qwenArgBody (a : JsonArg) (r : Bytes) :
    cut (10 :: qwenArgBody a ++ [10] ++ (lit "</parameter>" ++ r)) (lit "</parameter>") =
      some (10 :: qwenArgBody a ++ [10], r) := by
  have hclear : Clear (lit "</parameter>") (10 :: qwenArgBody a ++ [10]) (lit "</parameter>" ++ r) := by
    have hesc : ∃ s, qwenArgBody a = toolTextEscape (lit "</parameter>") s := ⟨_, rfl⟩
    obtain ⟨s, hs⟩ := hesc
    refine clear_append.2 ⟨clear_cons.2 ⟨?_, ?_⟩, ?_⟩
    · exact parameterEnd_closeTag.marker.not_prefix_cons (by decide)
    · rw [hs]
      refine clear_escape parameterEnd_closeTag s fun u hu hp => ?_
      exact prefix_of_prefix_cons (c := 10) (by decide) hp
    · exact parameterEnd_closeTag.marker.clear_of_not_mem (by decide) _
  exact cut_append hclear

theorem qwenArgText_append (a : JsonArg) (hkey : toolTextEscape (lit ">") a.key = a.key) (r : Bytes) :
    qwenArgText a ++ r = lit "<parameter=" ++ (a.key ++ 62 :: (10 :: qwenArgBody a ++ [10] ++
      (lit "</parameter>" ++ 10 :: r))) := by
  have h1 : lit ">\n" = [62, 10] := by decide
  have h2 : lit "\n</parameter>\n" = [10] ++ (lit "</parameter>" ++ [10]) := by decide
  simp [qwenArgText, hkey, h1, h2]

theorem qwenArg_text {a : JsonArg} (h : a.Canonical) (htrim : Trimmed a.key) (ha : QwenArg a)
    (name r : Bytes) : qwenArg [] name (qwenArgText a ++ r) = some (a.param, 10 :: r) := by
  have hgt := no_gt_of_escapeFree ha.key
  rw [qwenArgText_append a (escape_eq_self ha.key)]
  simp only [qwenArg, strip_append, tagName_append ha.no_lt hgt, cut_qwenArgBody,
    Option.map_some, trimSpan_of_trimmed htrim, qwenParam_text h ha]

theorem consumes_qwenArg (name : Bytes) : Consumes (qwenArg [] name) := by
  refine consumes_of_suffix fun p a r h => ?_
  unfold qwenArg at h
  split at h
  · simp at h
  · next q hq =>
    split at h
    · simp at h
    · next key value htag =>
      obtain ⟨⟨raw, r'⟩, hcut, he⟩ := Option.map_eq_some_iff.mp h
      obtain rfl : r' = r := (Prod.mk.inj he).2
      have hvalue : value <:+ q := by
        unfold tagName at htag
        split at htag
        · simp at htag
        · next t ht =>
          obtain rfl : t = value := (Prod.mk.inj (Option.some.inj htag)).2
          exact (suffix_of_strip ht).trans (List.dropWhile_suffix _)
      have hs := (suffix_of_cut hcut).trans hvalue
      refine ⟨hs.trans (suffix_of_strip hq), ?_⟩
      have hlen := hs.length_le
      have h11 : (lit "<parameter=").length = 11 := by decide
      rw [strip_eq_some.1 hq, List.length_append]
      omega

theorem many_qwenArgs {args : List JsonArg}
    (h : ∀ a ∈ args, a.Canonical ∧ Trimmed a.key ∧ QwenArg a) (name : Bytes) {w : Bytes}
    (hw : ∀ c ∈ w, isSpace c = true) (r : Bytes) :
    Many (fun q => strip (jsonWs q) (lit "</function>")) (fun q => qwenArg [] name (jsonWs q))
      (w ++ (args.flatMap qwenArgText ++ (lit "</function>" ++ r))) (args.map JsonArg.param) r := by
  induction args generalizing w with
  | nil =>
    have hws : jsonWs (w ++ (lit "</function>" ++ r)) = lit "</function>" ++ r := by
      rw [jsonWs_append_space hw]
      exact jsonWs_cons_of_not_space (by decide)
    refine .nil ?_
    rw [List.flatMap_nil, List.nil_append, hws, strip_append]
  | cons a args ih =>
    obtain ⟨hcanon, htrim, hq⟩ := h a List.mem_cons_self
    have hws : jsonWs (w ++ (qwenArgText a ++ (args.flatMap qwenArgText ++ (lit "</function>" ++ r)))) =
        qwenArgText a ++ (args.flatMap qwenArgText ++ (lit "</function>" ++ r)) := by
      rw [jsonWs_append_space hw, qwenArgText_append a (escape_eq_self hq.key)]
      exact jsonWs_cons_of_not_space (by decide)
    rw [List.flatMap_cons, List.append_assoc, List.map_cons]
    refine .cons ?_ ?_ (ih (fun b hb => h b (List.mem_cons_of_mem a hb)) (w := [10]) (by decide))
    · rw [hws, qwenArgText_append a (escape_eq_self hq.key)]
      exact strip_eq_none.2 (not_prefix_of_incomparable (by decide) (by decide))
    · rw [hws, qwenArg_text hcanon htrim hq]
      rfl

theorem consumes_qwenCall : Consumes (qwenCall []) := by
  refine consumes_of_suffix fun p a r h => ?_
  unfold qwenCall at h
  split at h
  · simp at h
  · next p1 h1 =>
    split at h
    · simp at h
    · next p2 h2 =>
      split at h
      · simp at h
      · next tag p3 h3 =>
        dsimp only at h
        split_ifs at h
        split at h
        · simp at h
        · next params r' hread =>
          obtain ⟨r'', hend, he⟩ := Option.map_eq_some_iff.mp h
          obtain rfl : r'' = r := (Prod.mk.inj he).2
          have h3' : p3 <:+ p2 := by
            unfold tagName at h3
            split at h3
            · simp at h3
            · next t ht =>
              obtain rfl : t = p3 := (Prod.mk.inj (Option.some.inj h3)).2
              exact (suffix_of_strip ht).trans (List.dropWhile_suffix _)
          have hr : r' <:+ p3 := suffix_of_many ((consumes_qwenArg _).comp suffix_jsonWs)
            (fun q t ht => (suffix_of_strip ht).trans (suffix_jsonWs q)) (many_of_readMany hread)
          have hs : r'' <:+ p1 := ((suffix_of_strip hend).trans (suffix_jsonWs r')).trans
            (hr.trans (h3'.trans ((suffix_of_strip h2).trans (suffix_jsonWs p1))))
          refine ⟨hs.trans (suffix_of_strip h1), ?_⟩
          have hlen := hs.length_le
          have h11 : callStart.length = 11 := by decide
          rw [strip_eq_some.1 h1, List.length_append]
          omega

theorem qwenCallText_eq {ok : JsonArg → Prop} {tc : ToolCall} (h : CallWith ok tc) (r : Bytes) :
    qwenCallText [] tc ++ r = callStart ++ (10 :: (lit "<function=" ++ (tc.name ++ 62 :: ([10] ++
      (tc.args.flatMap qwenArgText ++ (lit "</function>" ++ 10 :: (callEnd ++ r))))))) := by
  obtain ⟨hargs, -⟩ := h.args_eq
  have h1 : lit "\n<function=" = 10 :: lit "<function=" := by decide
  have h2 : lit ">\n" = [62, 10] := by decide
  have h3 : lit "</function>\n" = lit "</function>" ++ [10] := by decide
  simp [qwenCallText, qwenArgumentsText, hargs, schemaProps, orderArgs, h1, h2, h3]

/-- **A rendered Qwen call is read back.** -/
theorem qwenCall_text {tc : ToolCall} (h : CallWith QwenArg tc) (r : Bytes) :
    qwenCall [] (qwenCallText [] tc ++ r) = some ((tc.name, tc.args.map JsonArg.param), r) := by
  obtain ⟨-, hargs⟩ := h.args_eq
  have hfn : ∀ s : Bytes, jsonWs (10 :: (lit "<function=" ++ s)) = lit "<function=" ++ s := fun s =>
    (jsonWs_append_space (w := [10]) (by decide)).trans (jsonWs_cons_of_not_space (by decide))
  have hcall : jsonWs (10 :: (callEnd ++ r)) = callEnd ++ r :=
    (jsonWs_append_space (w := [10]) (by decide)).trans (jsonWs_cons_of_not_space (by decide))
  have hread := (readAll_eq_some ((consumes_qwenArg tc.name).comp suffix_jsonWs)).mpr
    (many_qwenArgs hargs tc.name (w := [10]) (by decide) (10 :: (callEnd ++ r)))
  rw [qwenCallText_eq h]
  simp only [qwenCall, strip_append, hfn, tagName_append h.name.no_lt h.name.no_gt,
    trimSpan_of_trimmed h.name.trimmed, if_neg h.name.ne_nil, hread, hcall, Option.map_some]

theorem parseQwen_block {w text : Bytes} {calls : List (Bytes × List Param)}
    (hw : ∀ c ∈ w, c = 10) (hstart : callStart <+: text) (hne : calls ≠ [])
    (hblock : callBlock (qwenCall []) text = some (calls, [])) :
    parseQwen [] false (w ++ text) =
      some ⟨[], none, calls.map fun c => callOf c.1 c.2, some (w ++ text)⟩ := by
  have hfind : strstr (w ++ text) callStart = some text := by
    rw [strstr_append (callStart_marker.clear_of_not_mem (fun h => ?_) text), strstr_isPrefix hstart]
    exact absurd (hw 60 h) (by decide)
  have hbefore : (upTo (w ++ text) text).rdropWhile (fun c => c == 10 || c == 32) = [] := by
    rw [upTo_append, List.rdropWhile_eq_nil_iff]
    intro c hc
    simp [hw c hc]
  have hnil : upTo (w ++ text) [] = w ++ text := by simp [upTo]
  rw [parseQwen, toolSearch, if_neg (by simp)]
  dsimp only
  rw [hfind]
  dsimp only
  rw [hbefore, hblock]
  simp only [Option.bind_some, if_neg hne, List.length_nil, List.drop_zero, hnil]
  rfl

/-- **Qwen round trip.** -/
theorem qwen_roundTrip {tcs : List ToolCall} (h : ∀ tc ∈ tcs, CallWith QwenArg tc)
    (hasContent : Bool) :
    ∃ msg, parseQwen [] false (qwenToolCallsText ⟨tcs, none⟩ hasContent []) = some msg ∧
      msg.calls.map ToolCall.members = tcs.map ToolCall.members := by
  cases tcs with
  | nil => exact ⟨⟨[], none, [], none⟩, by cases hasContent <;> decide, rfl⟩
  | cons tc tcs =>
    have htext : ∀ t ∈ tc :: tcs, callStart <+: qwenCallText [] t := by
      intro t ht
      have := qwenCallText_eq (h t ht) []
      rw [List.append_nil] at this
      rw [this]
      exact List.prefix_append _ _
    have hread : ∀ t ∈ tc :: tcs, ∀ r, qwenCall [] (qwenCallText [] t ++ r) =
        some ((t.name, t.args.map JsonArg.param), r) := fun t ht r => qwenCall_text (h t ht) r
    have hrest := many_calls [10] (by decide)
      (fun t ht => htext t (List.mem_cons_of_mem tc ht)) fun t ht => hread t (List.mem_cons_of_mem tc ht)
    have hfirst : ∀ r, jsonWs (qwenCallText [] tc ++ r) = qwenCallText [] tc ++ r := by
      intro r
      rw [qwenCallText_eq (h tc List.mem_cons_self)]
      exact jsonWs_cons_of_not_space (by decide)
    have hstart : callStart <+: qwenCallText [] tc ++ tcs.flatMap fun t => [10] ++ qwenCallText [] t :=
      (htext tc List.mem_cons_self).trans (List.prefix_append _ _)
    have hmany : Many (fun q => if callStart <+: jsonWs q then none else some (jsonWs q))
        (fun q => qwenCall [] (jsonWs q))
        (qwenCallText [] tc ++ tcs.flatMap fun t => [10] ++ qwenCallText [] t)
        ((tc :: tcs).map fun t => (t.name, t.args.map JsonArg.param)) [] := by
      refine .cons ?_ ?_ hrest
      · rw [hfirst, if_pos hstart]
      · rw [hfirst, hread tc List.mem_cons_self]
    have hblock := (readAll_eq_some (consumes_qwenCall.comp suffix_jsonWs)).mpr hmany
    have hrender : qwenToolCallsText ⟨tc :: tcs, none⟩ hasContent [] =
        (if hasContent then [10, 10] else []) ++
          (qwenCallText [] tc ++ tcs.flatMap fun t => [10] ++ qwenCallText [] t) := by
      simp [qwenToolCallsText, ToolCalls.sampled]
    have hw : ∀ c ∈ (if hasContent then [10, 10] else [] : Bytes), c = 10 := by
      cases hasContent <;> simp
    rw [hrender]
    refine ⟨_, parseQwen_block hw hstart (by simp) hblock, ?_⟩
    rw [List.map_map, List.map_map]
    exact List.map_congr_left fun t ht => members_callOf (h t ht) rfl

/-- **Rendered GLM and Qwen calls are read back by their parsers.** -/
theorem calls_roundTrip {glm qwen : List ToolCall}
    (hglm : ∀ tc ∈ glm, CallWith (fun a => a.isString = true) tc)
    (hqwen : ∀ tc ∈ qwen, CallWith QwenArg tc) (hasContent : Bool) :
    (∃ msg, parseGlm false (glmToolCallsText ⟨glm, none⟩ []) = some msg ∧
      msg.calls.map ToolCall.members = glm.map ToolCall.members) ∧
    ∃ msg, parseQwen [] false (qwenToolCallsText ⟨qwen, none⟩ hasContent []) = some msg ∧
      msg.calls.map ToolCall.members = qwen.map ToolCall.members :=
  ⟨glm_roundTrip hglm, qwen_roundTrip hqwen hasContent⟩

theorem calls_roundTrip_two :
    (∃ msg, parseGlm false (glmToolCallsText
        ⟨[⟨lit "f", lit "\x7b\"a<b\": \"</arg_value> 1\"\x7d"⟩], none⟩ []) = some msg ∧
      msg.calls.map ToolCall.members =
        [⟨lit "f", lit "\x7b\"a<b\": \"</arg_value> 1\"\x7d"⟩].map ToolCall.members) ∧
    ∃ msg, parseQwen [] false (qwenToolCallsText
        ⟨[⟨lit "g", lit "\x7b\"s\": \"</parameter> 1\", \"n\": [1, 2]\x7d"⟩], none⟩ true []) = some msg ∧
      msg.calls.map ToolCall.members =
        [⟨lit "g", lit "\x7b\"s\": \"</parameter> 1\", \"n\": [1, 2]\x7d"⟩].map
          ToolCall.members := by
  have trimmed : ∀ s : Bytes, (s.head?.all fun c => !isSpace c) = true →
      (s.getLast?.all fun c => !isSpace c) = true → Trimmed s := by
    intro s hhead hlast
    exact ⟨fun c hc => by simpa [hc] using hhead, fun c hc => by simpa [hc] using hlast⟩
  have hname : ∀ c : UInt8, c ≠ 60 → c ≠ 62 → isSpace c = false → CallName [c] := by
    intro c hlt hgt hc
    exact ⟨by simp, by simpa using hlt.symm, by simpa using hgt.symm,
      trimmed _ (by simp [hc]) (by simp [hc])⟩
  refine calls_roundTrip (fun tc htc => ?_) (fun tc htc => ?_) true
  · obtain rfl := List.mem_singleton.mp htc
    refine ⟨hname 102 (by decide) (by decide) (by decide), by decide,
      [⟨lit "a<b", lit "</arg_value> 1", true⟩], by decide, fun a ha => ?_⟩
    obtain rfl := List.mem_singleton.mp ha
    exact ⟨trimmed _ (by decide) (by decide), rfl⟩
  · obtain rfl := List.mem_singleton.mp htc
    refine ⟨hname 103 (by decide) (by decide) (by decide), by decide,
      [⟨lit "s", lit "</parameter> 1", true⟩, ⟨lit "n", lit "[1,2]", false⟩], by decide,
      fun a ha => ?_⟩
    rcases List.mem_pair.mp ha with rfl | rfl
    · refine ⟨trimmed _ (by decide) (by decide), by decide, ?_, ?_, ?_⟩
      · decide
      · decide
      · decide
    · refine ⟨trimmed _ (by decide) (by decide), by decide, ?_, ?_, ?_⟩
      · decide
      · decide
      · decide

/-- A string that is JSON comes back as JSON, and neither keys nor JSON texts are unescaped. -/
theorem not_calls_roundTrip :
    ¬ ∀ tcs : List ToolCall, (∀ tc ∈ tcs, CallWith (fun _ => True) tc) →
      ∃ msg, parseQwen [] false (qwenToolCallsText ⟨tcs, none⟩ false []) = some msg ∧
        msg.calls.map ToolCall.members = tcs.map ToolCall.members := by
  intro h
  obtain ⟨msg, hmsg, hcalls⟩ := h [⟨lit "f", lit "\x7b\"a\": \"42\"\x7d"⟩] fun tc htc => by
    obtain rfl := List.mem_singleton.mp htc
    refine ⟨⟨by decide, by decide, by decide, ⟨?_, ?_⟩⟩, by decide,
      [⟨lit "a", lit "42", true⟩], by decide, fun a ha => ?_⟩
    · rintro c ⟨⟩
      decide
    · rintro c ⟨⟩
      decide
    · obtain rfl := List.mem_singleton.mp ha
      refine ⟨⟨?_, ?_⟩, trivial⟩
      · rintro c ⟨⟩
        decide
      · rintro c ⟨⟩
        decide
  have hread : (parseQwen [] false (qwenToolCallsText
      ⟨[⟨lit "f", lit "\x7b\"a\": \"42\"\x7d"⟩], none⟩ false [])).map
        (fun msg => msg.calls.map ToolCall.members) =
      some [(lit "f", some [⟨lit "a", lit "42", false⟩])] := by
    decide
  rw [hmsg, Option.map_some, hcalls] at hread
  revert hread
  decide

end Ds4.Server
