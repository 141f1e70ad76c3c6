import Mathlib.Data.List.DropRight
import Ds4.Server.ToolText

/-!
# The parsers of generated messages

`parse_deepseek_generated_message_ex`, `parse_glm_generated_message_ex` and
`parse_qwen_generated_message_ex`. A pointer into the text is the text behind it, so the earlier of
two pointers is the longer text. The parameters of a call are kept as the arguments of
`tool_call_json_args_add`, which folds them into the argument text; a message that a parser refuses
is `none`.
-/

namespace Ds4.Server

open Ds4.Lib

/-! ## Marks -/

/-- The tags of a DSML style. -/
structure DsmlMarks where
  toolCallsStart : Bytes
  toolCallsEnd : Bytes
  invokeStart : Bytes
  invokeEnd : Bytes
  paramStart : Bytes
  paramEnd : Bytes

/-- The `style` of a DSML block. -/
inductive DsmlStyle
  | dsml
  | plain
  | short
  | dsml41
  deriving DecidableEq

/-- The tags between an opening `<` and what stands behind it. -/
def marksWith (bar calls : String) : DsmlMarks where
  toolCallsStart := lit "<" ++ lit bar ++ lit calls ++ lit ">"
  toolCallsEnd := lit "</" ++ lit bar ++ lit calls ++ lit ">"
  invokeStart := lit "<" ++ lit bar ++ lit "invoke"
  invokeEnd := lit "</" ++ lit bar ++ lit "invoke>"
  paramStart := lit "<" ++ lit bar ++ lit "parameter"
  paramEnd := lit "</" ++ lit bar ++ lit "parameter>"

/-- The tags of each style. -/
def DsmlStyle.marks : DsmlStyle → DsmlMarks
  | .dsml => marksWith "｜DSML｜" "tool_calls"
  | .plain => marksWith "" "tool_calls"
  | .short => marksWith "DSML｜" "tool_calls"
  | .dsml41 => marksWith "｜DSML｜ " "calls"

/-! ## Searching -/

/-- The earlier of two places. -/
def earlier : Option Bytes → Option Bytes → Option Bytes
  | best, none => best
  | none, some c => some c
  | some b, some c => if b.length < c.length then some c else some b

/-- The earliest place of one of the marks. -/
def earliestOf (marks : List Bytes) (s : Bytes) : Option Bytes :=
  (marks.map (strstr s)).foldl earlier none

/-- The marks that open tool calls. -/
def toolStarts : List Bytes :=
  [DsmlStyle.dsml41.marks.toolCallsStart, DsmlStyle.dsml.marks.toolCallsStart,
    DsmlStyle.short.marks.toolCallsStart, DsmlStyle.plain.marks.toolCallsStart, lit "<tool_call>"]

/-- The marks that close tool calls. -/
def toolEnds : List Bytes :=
  [DsmlStyle.dsml41.marks.toolCallsEnd, DsmlStyle.dsml.marks.toolCallsEnd,
    DsmlStyle.short.marks.toolCallsEnd, DsmlStyle.plain.marks.toolCallsEnd, lit "</tool_call>"]

/-- `find_any_tool_start`. -/
def findAnyToolStart (s : Bytes) : Option Bytes := earliestOf toolStarts s

/-- `find_any_tool_end`. -/
def findAnyToolEnd (s : Bytes) : Option Bytes := earliestOf toolEnds s

/-- The wrappers of argument keys and values. -/
def wrappers : List (Bytes × Bytes) :=
  [(DsmlStyle.dsml41.marks.paramStart, DsmlStyle.dsml41.marks.paramEnd),
    (DsmlStyle.dsml.marks.paramStart, DsmlStyle.dsml.marks.paramEnd),
    (DsmlStyle.short.marks.paramStart, DsmlStyle.short.marks.paramEnd),
    (DsmlStyle.plain.marks.paramStart, DsmlStyle.plain.marks.paramEnd),
    (lit "<arg_key>", lit "</arg_key>"),
    (lit "<arg_value>", lit "</arg_value>")]

/-- The closing tag of the wrapper that opens here. -/
def wrapperAt (s : Bytes) : Option Bytes :=
  (wrappers.find? fun w => decide (w.1 <+: s)).map Prod.snd

/-- The text behind the wrapper that opens here. -/
def skipWrapper (s close : Bytes) : Option Bytes :=
  match cut s [62] with
  | none => none
  | some (_, t) => (cut t close).map Prod.snd

/-- The loop of `find_tool_structural_text`, at most `n` rounds of it. -/
def findStructuralFrom (needle : Bytes) (last : Bool) : Nat → Option Bytes → Bytes → Option Bytes
  | 0, found, _ => found
  | _ + 1, found, [] => found
  | n + 1, found, c :: s =>
    if needle <+: c :: s ∧ !last then some (c :: s)
    else
      let found := if needle <+: c :: s then some (c :: s) else found
      match wrapperAt (c :: s) with
      | none => findStructuralFrom needle last n found s
      | some close =>
        match skipWrapper (c :: s) close with
        | none => found
        | some t => findStructuralFrom needle last n found t

/-- `find_tool_structural_text`. -/
def findToolStructuralText (s needle : Bytes) (last : Bool) : Option Bytes :=
  findStructuralFrom needle last s.length none s

/-- `trim_tool_separator_ws`. -/
def trimEnd (s : Bytes) : Bytes := s.rdropWhile isSpace

/-- `trim_const_span`. -/
def trimSpan (s : Bytes) : Bytes := trimEnd (jsonWs s)

/-! ## Messages -/

/-- `tool_call`, as a parser fills it. -/
structure ToolCall where
  name : Bytes
  arguments : Bytes
  deriving DecidableEq

/-- What a parser returns. -/
structure Message where
  content : Bytes
  reasoning : Option Bytes
  calls : List ToolCall
  rawToolText : Option Bytes
  deriving DecidableEq

/-- The opening tag of the reasoning. -/
def thinkStart : Bytes := lit "<think>"

/-- The closing tag of the reasoning. -/
def thinkEnd : Bytes := lit "</think>"

/-- The text behind an opening tag of the reasoning, if there is one. -/
def dropThink (s : Bytes) : Bytes := (strip s thinkStart).getD s

/-- `split_reasoning_content`: the content and the reasoning. -/
def splitReasoningContent (s : Bytes) : Bytes × Option Bytes :=
  match cut (dropThink s) thinkEnd with
  | some (reasoning, content) => (content, some reasoning)
  | none => (s, none)

/-- `ds4_local_unterminated_reasoning`. -/
def unterminatedReasoning (text : Bytes) : Message := ⟨[], some (dropThink text), [], none⟩

/-- The text in which tools are searched, and whether they stand in open reasoning. -/
def toolSearch (candidate complete : Bytes → Option Bytes) (requireThinkingClosed : Bool)
    (text : Bytes) : Option (Bytes × Bool) :=
  if requireThinkingClosed then
    match findToolStructuralText text thinkEnd true with
    | some t => some (t.drop thinkEnd.length, false)
    | none =>
      match candidate text with
      | none => none
      | some c => if (complete c).isSome then some (c, true) else none
  else some (text, false)

/-- Content and reasoning in front of a tool block. -/
def splitBeforeTool (recovered : Bool) (before : Bytes) : Bytes × Option Bytes :=
  if recovered then ([], some (dropThink before)) else splitReasoningContent before

/-! ## Parameters -/

/-- What `tool_call_json_args_add` is given for a parameter. -/
structure Param where
  name : Bytes
  value : Bytes
  isString : Bytes
  deriving DecidableEq

/-- The value of a parameter in the argument text. -/
def Param.json (p : Param) : Bytes :=
  if p.isString = lit "true" then jsonEscape p.value
  else
    let min := jsonMinifyRawValue p.value
    if min = [] then lit "null" else min

/-- `tool_call_json_args_add`. -/
def argsAdd (args : Bytes) (p : Param) : Bytes :=
  args ++ (if args = [] then [] else lit ", ") ++ jsonEscape p.name ++ lit ": " ++ p.json

/-- The members of an argument object. -/
def argsMembers (params : List Param) : Bytes := params.foldl argsAdd []

/-- The argument object around its members. -/
def argsObject (params : List Param) : Bytes := lit "\x7b" ++ argsMembers params ++ lit "\x7d"

/-! ## DSML -/

/-- The tag of a parameter: its name, its `string` attribute, and the text behind it. -/
def paramTag (m : DsmlMarks) (p : Bytes) : Option (Bytes × Option Bytes × Bytes) :=
  if m.paramStart <+: p then
    match cut p [62] with
    | none => none
    | some (tag, value) =>
      (dsmlAttr (tag ++ [62]) (lit "name")).map fun name =>
        (name, dsmlAttr (tag ++ [62]) (lit "string"), value)
  else none

/-- The body of a parameter up to the first closing tag. -/
def paramBody (m : DsmlMarks) (name : Bytes) (isString : Option Bytes) : Reader Param := fun value =>
  (cut value m.paramEnd).map fun (raw, r) =>
    let type := isString.getD (lit "true")
    (⟨name, if type = lit "true" then toolTextUnescape raw m.paramEnd else raw, type⟩, r)

/-- `dsml_parse_leaf_param_json`. -/
def leafParam (m : DsmlMarks) : Reader Param := fun p =>
  match paramTag m p with
  | none => none
  | some (name, isString, value) => paramBody m name isString value

/-- A parameter of a DSML call: a body, or the members of a nested object. -/
inductive DsmlParam
  | body (p : Param)
  | nested (name : Bytes) (members : List Param)

/-- What `tool_call_json_args_add` is given for a parameter of a call. -/
def DsmlParam.param : DsmlParam → Param
  | .body p => p
  | .nested name members => ⟨name, argsObject members, lit "false"⟩

/-- The members that `dsml_parse_nested_params_object` reads. -/
def nestedParams (m : DsmlMarks) : Reader (List Param) := fun p =>
  (readAll (fun q => if m.paramStart <+: jsonWs q then none else some (jsonWs q))
    (fun q => leafParam m (jsonWs q)) p).bind fun (members, r) =>
    if members = [] then none else some (members, r)

/-- A parameter of a call. -/
def param (m : DsmlMarks) : Reader DsmlParam := fun p =>
  match paramTag m p with
  | none => none
  | some (name, isString, value) =>
    if isString = none ∧ m.paramStart <+: jsonWs value then
      (nestedParams m value).map fun (members, r) =>
        (.nested name members, (strip (jsonWs r) m.paramEnd).getD (jsonWs r))
    else (paramBody m name isString value).map fun (p, r) => (.body p, r)

/-- An invocation: its name and its parameters. -/
def invoke (m : DsmlMarks) : Reader (Bytes × List DsmlParam) := fun p =>
  if m.invokeStart <+: p then
    match cut p [62] with
    | none => none
    | some (tag, q) =>
      (dsmlAttr (tag ++ [62]) (lit "name")).bind fun name =>
        (readAll (fun q => strip (jsonWs q) m.invokeEnd) (fun q => param m (jsonWs q)) q).map
          fun (params, r) => ((name, params), r)
  else none

/-- The invocations behind the opening tag, up to the closing tag. -/
def invokes (m : DsmlMarks) : Reader (List (Bytes × List DsmlParam)) :=
  readAll (fun q => strip (jsonWs q) m.toolCallsEnd) fun q => invoke m (jsonWs q)

/-- The call of a name with its parameters. -/
def callOf (name : Bytes) (params : List Param) : ToolCall := ⟨name, argsObject params⟩

/-- The call of an invocation. -/
def dsmlCall (c : Bytes × List DsmlParam) : ToolCall := callOf c.1 (c.2.map DsmlParam.param)

/-- The first place of a mark, one behind an empty line first. -/
def findStart (s mark : Bytes) : Option Bytes := strstr s (10 :: 10 :: mark) <|> strstr s mark

/-- The start of the tool calls and their style. -/
def deepseekStart (s : Bytes) : Option (Bytes × DsmlStyle) :=
  let find (style : DsmlStyle) := (findStart s style.marks.toolCallsStart).map fun t => (t, style)
  match find .dsml <|> find .short <|> find .plain, find .dsml41 with
  | start, none => start
  | none, some v41 => some v41
  | some start, some v41 => if start.1.length < v41.1.length then some v41 else some start

/-- The calls of a DSML block: the invocations, and the text behind the block. -/
def deepseekBlock (start : Bytes) (style : DsmlStyle) :
    Option (List (Bytes × List DsmlParam) × Bytes) :=
  match cut start style.marks.toolCallsStart with
  | none => none
  | some (_, p) => invokes style.marks p

/-- `parse_deepseek_generated_message_ex`. -/
def parseDeepseek (requireThinkingClosed : Bool) (text : Bytes) : Option Message :=
  match toolSearch findAnyToolStart findAnyToolEnd requireThinkingClosed text with
  | none => some (unterminatedReasoning text)
  | some (search, recovered) =>
    match deepseekStart search with
    | none =>
      let (content, reasoning) := splitReasoningContent text
      some ⟨content, reasoning, [], none⟩
    | some (start, style) =>
      (deepseekBlock start style).map fun (calls, r) =>
        let (content, reasoning) := splitBeforeTool recovered (trimEnd (upTo text start))
        ⟨content, reasoning, calls.map dsmlCall, some (upTo start r)⟩

/-! ## GLM -/

/-- `<tool_call>`, of GLM and Qwen. -/
def callStart : Bytes := lit "<tool_call>"

/-- `</tool_call>`, of GLM and Qwen. -/
def callEnd : Bytes := lit "</tool_call>"

/-- An argument of a GLM call, which stands in front of `close`. -/
def glmArg (close : Bytes) : Reader Param := fun p =>
  match strip p (lit "<arg_key>") with
  | none => none
  | some p =>
    match strstr p (lit "</arg_key>") with
    | none => none
    | some keyEnd =>
      if keyEnd.length < close.length then none
      else
        let key := toolTextUnescape (trimSpan (upTo p keyEnd)) (lit "</arg_key>")
        match strip (jsonWs (keyEnd.drop (lit "</arg_key>").length)) (lit "<arg_value>") with
        | none => none
        | some p =>
          match strstr p (lit "</arg_value>") with
          | none => none
          | some valueEnd =>
            if valueEnd.length < close.length then none
            else
              let value := toolTextUnescape (upTo p valueEnd) (lit "</arg_value>")
              some (⟨key, value, lit "true"⟩, valueEnd.drop (lit "</arg_value>").length)

/-- Where the name of a call ends: at its first argument, or at the end of the call. -/
def glmNameEnd (p close : Bytes) : Bytes :=
  match strstr p (lit "<arg_key>") with
  | none => close
  | some arg => if arg.length < close.length then close else arg

/-- A GLM call. -/
def glmCall : Reader (Bytes × List Param) := fun p =>
  match strip p callStart with
  | none => none
  | some p =>
    match findToolStructuralText p callEnd false with
    | none => none
    | some close =>
      let name := trimSpan (upTo p (glmNameEnd p close))
      if name = [] then none
      else
        (readAll (fun q => strip (jsonWs q) callEnd) (fun q => glmArg close (jsonWs q))
          (glmNameEnd p close)).map fun (params, r) => ((name, params), r)

/-- Calls one after the other; the text behind them begins at no white space. -/
def callBlock (call : Reader (Bytes × List Param)) : Reader (List (Bytes × List Param)) :=
  readAll (fun q => if callStart <+: jsonWs q then none else some (jsonWs q))
    fun q => call (jsonWs q)

/-- `parse_glm_generated_message_ex`. -/
def parseGlm (requireThinkingClosed : Bool) (text : Bytes) : Option Message :=
  match toolSearch (strstr · callStart) (strstr · callEnd) requireThinkingClosed text with
  | none => some (unterminatedReasoning text)
  | some (search, recovered) =>
    match strstr search callStart with
    | none =>
      let (content, reasoning) := splitReasoningContent text
      some ⟨content, reasoning, [], none⟩
    | some start =>
      let before := upTo text start
      let rawStart := if [10, 10] <:+ before then 10 :: 10 :: start else start
      (callBlock glmCall start).bind fun (calls, r) =>
        if calls = [] then none
        else
          let (content, reasoning) := splitBeforeTool recovered (trimEnd (upTo text rawStart))
          some ⟨content, reasoning, calls.map (fun c => callOf c.1 c.2), some (upTo rawStart r)⟩

/-! ## Qwen -/

/-- `tool_schema_order`: the properties of a tool with their schemas. -/
structure ToolSchemaOrder where
  name : Bytes
  prop : List (Bytes × Bytes)

/-- Whether a schema says that a value is a string. -/
def schemaIsString (schema : Bytes) : Bool :=
  match jsonArgsParse schema with
  | none => false
  | some args => args.any fun arg => arg.key == lit "type" && arg.isString && arg.value == lit "string"

/-- `qwen_param_declared_string`. -/
def qwenParamDeclaredString (orders : List ToolSchemaOrder) (name key : Bytes) : Bool :=
  match orders.find? fun order => order.name == name with
  | none => false
  | some order =>
    match order.prop.find? fun prop => prop.1 == key with
    | none => false
    | some prop => schemaIsString prop.2

/-- `qwen_param_value_is_json`. -/
def qwenParamValueIsJson (s : Bytes) : Bool :=
  match jsonWs s with
  | [] => false
  | 34 :: _ => false
  | p =>
    match jsonRawValue p with
    | none => false
    | some (_, r) => jsonWs r = []

/-- `qwen_strip_value_newlines`. -/
def qwenStripValueNewlines (s : Bytes) : Bytes :=
  let s := (strip s [10]).getD s
  if [10] <:+ s then s.dropLast else s

/-- The text up to the first `<` or `>`, which has to be `>`, and the text behind it. -/
def tagName : Reader Bytes := fun p =>
  match strip (p.dropWhile fun c => c ≠ 60 ∧ c ≠ 62) [62] with
  | none => none
  | some r => some (p.takeWhile fun c => c ≠ 60 ∧ c ≠ 62, r)

/-- The body of a Qwen parameter between its tags. -/
def qwenParam (orders : List ToolSchemaOrder) (name key raw : Bytes) : Param :=
  let value := qwenStripValueNewlines raw
  if qwenParamDeclaredString orders name key || !qwenParamValueIsJson value then
    ⟨key, toolTextUnescape value (lit "</parameter>"), lit "true"⟩
  else ⟨key, value, lit "false"⟩

/-- A parameter of a Qwen call. -/
def qwenArg (orders : List ToolSchemaOrder) (name : Bytes) : Reader Param := fun p =>
  match strip p (lit "<parameter=") with
  | none => none
  | some q =>
    match tagName q with
    | none => none
    | some (key, value) =>
      (cut value (lit "</parameter>")).map fun (raw, r) =>
        (qwenParam orders name (trimSpan key) raw, r)

/-- A Qwen call. -/
def qwenCall (orders : List ToolSchemaOrder) : Reader (Bytes × List Param) := fun p =>
  match strip p callStart with
  | none => none
  | some p =>
    match strip (jsonWs p) (lit "<function=") with
    | none => none
    | some p =>
      match tagName p with
      | none => none
      | some (tag, p) =>
        let name := trimSpan tag
        if name = [] then none
        else
          match readAll (fun q => strip (jsonWs q) (lit "</function>"))
            (fun q => qwenArg orders name (jsonWs q)) p with
          | none => none
          | some (params, r) => (strip (jsonWs r) callEnd).map fun r => ((name, params), r)

/-- `qwen_trim_split`. -/
def qwenTrimSplit (split : Bytes × Option Bytes) : Bytes × Option Bytes :=
  (split.1.dropWhile (· == 10), split.2.map (·.rdropWhile (· == 10)))

/-- `parse_qwen_generated_message_ex`. -/
def parseQwen (orders : List ToolSchemaOrder) (requireThinkingClosed : Bool) (text : Bytes) :
    Option Message :=
  match toolSearch (strstr · callStart) (strstr · callEnd) requireThinkingClosed text with
  | none => some (unterminatedReasoning text)
  | some (search, recovered) =>
    match strstr search callStart with
    | none =>
      let (content, reasoning) := qwenTrimSplit (splitReasoningContent text)
      some ⟨content, reasoning, [], none⟩
    | some start =>
      let before := (upTo text start).rdropWhile fun c => c == 10 || c == 32
      (callBlock (qwenCall orders) start).bind fun (calls, r) =>
        if calls = [] then none
        else
          let (content, reasoning) := qwenTrimSplit (splitBeforeTool recovered (trimEnd before))
          some ⟨content, reasoning, calls.map (fun c => callOf c.1 c.2), some (upTo (text.drop before.length) r)⟩

/-! ## The parser of a syntax -/

/-- `server_model_syntax`. -/
inductive ServerModelSyntax
  | deepseek
  | deepseek41
  | glm
  | qwen
  deriving DecidableEq

/-- `parse_generated_message_ex_for_syntax`. -/
def parseGeneratedMessage (model : ServerModelSyntax) (requireThinkingClosed : Bool)
    (text : Bytes) : Option Message :=
  match model with
  | .glm => parseGlm requireThinkingClosed text
  | .qwen => parseQwen [] requireThinkingClosed text
  | .deepseek | .deepseek41 => parseDeepseek requireThinkingClosed text

end Ds4.Server
