import Ds4.Server.Parse

/-!
# Rendering tool calls

`append_glm_tool_calls_text` and `append_qwen_tool_calls_text` write the calls of an assistant turn
in the syntax that their parsers read. A block that was sampled is written as it was.
-/

namespace Ds4.Server

open Ds4.Lib

/-! ## Calls and the order of their arguments -/

/-- `tool_calls`. -/
structure ToolCalls where
  calls : List ToolCall
  rawToolText : Option Bytes

/-- The sampled text of the calls, when there is one. -/
def ToolCalls.sampled (calls : ToolCalls) : Option Bytes :=
  calls.rawToolText.filter fun raw => raw ≠ []

/-- The properties of a tool in the order of its schema: `tool_schema_orders_find`. -/
def schemaProps (orders : List ToolSchemaOrder) (name : Bytes) : List Bytes :=
  match orders.find? fun order => order.name == name with
  | none => []
  | some order => order.prop.map Prod.fst

/-- The arguments in the order in which they are written: those of the schema first. -/
def orderArgs : List Bytes → List JsonArg → List JsonArg
  | [], args => args
  | prop :: props, args =>
    match args.find? fun arg => arg.key == prop with
    | none => orderArgs props args
    | some arg => arg :: orderArgs props (args.eraseP fun arg => arg.key == prop)

/-! ## GLM -/

/-- `append_glm_arg_key_text`. -/
def glmArgKeyText (s : Bytes) : Bytes := toolTextEscape (lit "</arg_key>") s

/-- `append_glm_arg_value_text`. -/
def glmArgValueText (s : Bytes) : Bytes := toolTextEscape (lit "</arg_value>") s

/-- `append_glm_arg`. -/
def glmArgText (arg : JsonArg) : Bytes :=
  lit "<arg_key>" ++ glmArgKeyText arg.key ++ lit "</arg_key><arg_value>" ++
    glmArgValueText arg.value ++ lit "</arg_value>"

/-- `append_glm_arguments_from_json`. -/
def glmArgumentsFromJson (props : List Bytes) (json : Bytes) : Option Bytes :=
  (jsonArgsParse json).map fun args => (orderArgs props args).flatMap glmArgText

/-- One call of `append_glm_tool_calls_text`. -/
def glmCallText (orders : List ToolSchemaOrder) (tc : ToolCall) : Bytes :=
  callStart ++ tc.name ++
    (match glmArgumentsFromJson (schemaProps orders tc.name) tc.arguments with
      | some text => text
      | none => lit "<arg_key>arguments</arg_key><arg_value>" ++ glmArgValueText tc.arguments ++
        lit "</arg_value>") ++ callEnd

/-- `append_glm_tool_calls_text`. -/
def glmToolCallsText (calls : ToolCalls) (orders : List ToolSchemaOrder) : Bytes :=
  if calls.calls = [] then []
  else
    match calls.sampled with
    | some raw => raw
    | none => calls.calls.flatMap (glmCallText orders)

/-! ## Qwen -/

/-- The body of a Qwen parameter. -/
def qwenArgBody (arg : JsonArg) : Bytes :=
  toolTextEscape (lit "</parameter>")
    (if arg.isString then arg.value
      else
        let min := jsonMinifyRawValue arg.value
        if min = [] then lit "null" else min)

/-- A parameter of a Qwen call. -/
def qwenArgText (arg : JsonArg) : Bytes :=
  lit "<parameter=" ++ toolTextEscape (lit ">") arg.key ++ lit ">\n" ++ qwenArgBody arg ++
    lit "\n</parameter>\n"

/-- The parameters of a Qwen call. -/
def qwenArgumentsText (props : List Bytes) (json : Bytes) : Bytes :=
  match jsonArgsParse json with
  | some args => (orderArgs props args).flatMap qwenArgText
  | none =>
    if json = [] then []
    else lit "<parameter=arguments>\n" ++ toolTextEscape (lit "</parameter>") json ++
      lit "\n</parameter>\n"

/-- One call of `append_qwen_tool_calls_text`, behind the newlines in front of it. -/
def qwenCallText (orders : List ToolSchemaOrder) (tc : ToolCall) : Bytes :=
  callStart ++ lit "\n<function=" ++ tc.name ++ lit ">\n" ++
    qwenArgumentsText (schemaProps orders tc.name) tc.arguments ++ lit "</function>\n" ++ callEnd

/-- `append_qwen_tool_calls_text`. -/
def qwenToolCallsText (calls : ToolCalls) (hasContent : Bool) (orders : List ToolSchemaOrder) :
    Bytes :=
  match calls.calls with
  | [] => []
  | tc :: tcs =>
    match calls.sampled with
    | some raw => raw
    | none =>
      (if hasContent then [10, 10] else []) ++ qwenCallText orders tc ++
        tcs.flatMap fun tc => 10 :: qwenCallText orders tc

end Ds4.Server
