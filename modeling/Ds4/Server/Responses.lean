import Ds4.Server.StreamText

/-!
# The event stream of the Responses API

`responses_sse_created`, `responses_sse_stream_update` and `responses_sse_finish_live`. The events
that were written are kept in `sent`, each with its sequence number; a write succeeds. A text of an
event is what `json_escape` writes of it: the C string of the bytes.
-/

namespace Ds4.Server

open Ds4.Lib

/-! ## Events -/

/-- The status of an output item. -/
inductive ItemStatus
  | inProgress
  | completed
  | incomplete
  deriving DecidableEq

/-- The status of a response. -/
inductive ResponseStatus
  | completed
  | incomplete
  | failed
  deriving DecidableEq

/-- An output item, as events and the terminal response carry it. -/
inductive OutputItem
  | reasoning (id : Bytes) (status : ItemStatus) (summary : List Bytes)
  | message (id : Bytes) (status : ItemStatus) (content : List Bytes)
  | functionCall (id : Bytes) (status : ItemStatus) (name : Bytes) (space : Option Bytes)
      (callId arguments : Bytes)
  | toolSearchCall (id : Bytes) (status : ItemStatus) (callId arguments : Bytes)
  deriving DecidableEq

/-- `append_responses_usage_json`. -/
structure ResponsesUsage where
  inputTokens : Int
  cachedTokens : Int
  cacheWriteTokens : Int
  outputTokens : Int
  totalTokens : Int
  deriving DecidableEq

/-- The response of a terminal event; `error` is there when it failed, `maxTokens` when it ran out
of tokens. -/
structure TerminalResponse where
  id : Bytes
  createdAt : Int
  status : ResponseStatus
  model : Bytes
  error : Bool
  maxTokens : Bool
  output : List OutputItem
  usage : ResponsesUsage
  deriving DecidableEq

/-- An event; the type of a terminal event is the status that it reports. -/
inductive ResponsesEvent
  | created (id : Bytes) (createdAt : Int) (model : Bytes)
  | itemAdded (outputIndex : Int) (item : OutputItem)
  | itemDone (outputIndex : Int) (item : OutputItem)
  | summaryPartAdded (itemId : Bytes) (outputIndex : Int) (text : Bytes)
  | summaryTextDelta (itemId : Bytes) (outputIndex : Int) (delta : Bytes)
  | summaryTextDone (itemId : Bytes) (outputIndex : Int) (text : Bytes)
  | summaryPartDone (itemId : Bytes) (outputIndex : Int) (text : Bytes)
  | contentPartAdded (itemId : Bytes) (outputIndex : Int) (text : Bytes)
  | outputTextDelta (itemId : Bytes) (outputIndex : Int) (delta : Bytes)
  | outputTextDone (itemId : Bytes) (outputIndex : Int) (text : Bytes)
  | contentPartDone (itemId : Bytes) (outputIndex : Int) (text : Bytes)
  | argumentsDelta (itemId : Bytes) (outputIndex : Int) (delta : Bytes)
  | argumentsDone (itemId : Bytes) (outputIndex : Int) (name : Bytes) (space : Option Bytes)
      (arguments : Bytes)
  | terminal (type : ResponseStatus) (response : TerminalResponse)
  deriving DecidableEq

/-! ## Requests and the stream -/

/-- `tool_schema_order` with what the Responses API keeps of a tool. -/
structure ResponsesTool extends ToolSchemaOrder where
  wireName : Option Bytes
  space : Option Bytes
  responsesToolSearch : Bool

/-- What the stream reads of a `request`. -/
structure ResponsesRequest where
  thinkModeEnabled : Bool
  hasTools : Bool
  reasoningSummaryEmit : Bool
  model : Bytes
  toolOrders : List ResponsesTool
  cacheReadTokens : Int
  cacheWriteTokens : Int

/-- A parsed call and the id that the server gave it. -/
structure IdentifiedCall extends ToolCall where
  id : Option Bytes

/-- The ids that `responses_random_id` draws; `call` and `callId` are those of the calls. -/
structure ResponsesIds where
  response : Bytes
  reasoning : Bytes
  message : Bytes
  call : Nat → Bytes
  callId : Nat → Bytes

/-- `responses_stream_mode`. -/
inductive ResponsesMode
  | thinking
  | text
  | suppress
  deriving DecidableEq

/-- `responses_stream`, with the events that were written. -/
structure ResponsesStream where
  mode : ResponsesMode
  emitPos : Nat
  active : Bool
  checkedThinkPrefix : Bool
  reasoningItemOpened : Bool
  reasoningItemClosed : Bool
  reasoningSummaryStarted : Bool
  reasoningClosedNaturally : Bool
  messageItemOpened : Bool
  messageTextPartOpen : Bool
  messageItemClosed : Bool
  reasoningEmittedAny : Bool
  messageEmittedAny : Bool
  reasoningText : Bytes
  messageText : Bytes
  responseId : Bytes
  reasoningId : Bytes
  messageId : Bytes
  reasoningIndex : Int
  messageIndex : Int
  nextOutputIndex : Int
  sequence : Int
  sent : List (Int × ResponsesEvent)

/-- A buffer that is offered to a stream and the length of it that may be sent. -/
structure Offer where
  raw : Bytes
  rawLen : Nat

namespace ResponsesStream

/-- `responses_stream_init`, for a stream that is active. -/
def init (r : ResponsesRequest) (ids : ResponsesIds) : ResponsesStream where
  mode := if r.thinkModeEnabled then .thinking else .text
  emitPos := 0
  active := true
  checkedThinkPrefix := false
  reasoningItemOpened := false
  reasoningItemClosed := false
  reasoningSummaryStarted := false
  reasoningClosedNaturally := false
  messageItemOpened := false
  messageTextPartOpen := false
  messageItemClosed := false
  reasoningEmittedAny := false
  messageEmittedAny := false
  reasoningText := []
  messageText := []
  responseId := ids.response
  reasoningId := ids.reasoning
  messageId := ids.message
  reasoningIndex := -1
  messageIndex := -1
  nextOutputIndex := 0
  sequence := 0
  sent := []

/-- `responses_sse_emit_event`. -/
def emit (st : ResponsesStream) (e : ResponsesEvent) : ResponsesStream :=
  { st with sent := st.sent ++ [(st.sequence, e)], sequence := st.sequence + 1 }

/-- `responses_sse_created`. -/
def created (st : ResponsesStream) (r : ResponsesRequest) (createdAt : Int) : ResponsesStream :=
  st.emit (.created st.responseId createdAt r.model)

/-! ## The reasoning item -/

/-- `responses_sse_reasoning_added`. -/
def reasoningAdded (st : ResponsesStream) : ResponsesStream :=
  st.emit (.itemAdded st.reasoningIndex (.reasoning st.reasoningId .inProgress []))

/-- `responses_sse_reasoning_summary_part_added`. -/
def reasoningSummaryPartAdded (st : ResponsesStream) : ResponsesStream :=
  st.emit (.summaryPartAdded st.reasoningId st.reasoningIndex [])

/-- `responses_sse_reasoning_delta`. -/
def reasoningDelta (st : ResponsesStream) (text : Bytes) : ResponsesStream :=
  if text = [] then st
  else st.emit (.summaryTextDelta st.reasoningId st.reasoningIndex (cString text))

/-- The status of the reasoning item: partial when `</think>` was not seen. -/
def reasoningStatus (st : ResponsesStream) : ItemStatus :=
  if st.reasoningClosedNaturally then .completed else .incomplete

/-- The reasoning item at its end. -/
def reasoningItem (st : ResponsesStream) : OutputItem :=
  .reasoning st.reasoningId st.reasoningStatus
    (if st.reasoningText = [] then [] else [cString st.reasoningText])

/-- `responses_sse_reasoning_done`. -/
def reasoningDone (st : ResponsesStream) : ResponsesStream :=
  let st := st.emit (.summaryTextDone st.reasoningId st.reasoningIndex (cString st.reasoningText))
  let st :=
    if st.reasoningSummaryStarted then
      st.emit (.summaryPartDone st.reasoningId st.reasoningIndex (cString st.reasoningText))
    else st
  st.emit (.itemDone st.reasoningIndex st.reasoningItem)

/-- Opens the reasoning item where it is not open. -/
def openReasoningItem (st : ResponsesStream) : ResponsesStream :=
  if st.reasoningItemOpened then st
  else
    let st := { st with
      reasoningIndex := st.nextOutputIndex, nextOutputIndex := st.nextOutputIndex + 1 }
    { st.reasoningAdded with reasoningItemOpened := true }

/-- Starts the summary where it has not begun. -/
def startSummary (st : ResponsesStream) : ResponsesStream :=
  if st.reasoningSummaryStarted then st
  else { st.reasoningSummaryPartAdded with reasoningSummaryStarted := true }

/-- Sends a piece of reasoning. -/
def sendReasoningText (st : ResponsesStream) (text : Bytes) : ResponsesStream :=
  let st := (st.openReasoningItem.startSummary).reasoningDelta text
  { st with reasoningText := st.reasoningText ++ text, reasoningEmittedAny := true }

/-! ## The message item -/

/-- `responses_sse_message_added`. -/
def messageAdded (st : ResponsesStream) : ResponsesStream :=
  st.emit (.itemAdded st.messageIndex (.message st.messageId .inProgress []))

/-- `responses_sse_message_text_part_added`. -/
def messageTextPartAdded (st : ResponsesStream) : ResponsesStream :=
  st.emit (.contentPartAdded st.messageId st.messageIndex [])

/-- `responses_sse_output_text_delta`. -/
def outputTextDelta (st : ResponsesStream) (text : Bytes) : ResponsesStream :=
  if text = [] then st
  else st.emit (.outputTextDelta st.messageId st.messageIndex (cString text))

/-- `responses_item_status_for_finish`. -/
def itemStatusForFinish (finish : Option Bytes) : ItemStatus :=
  if finish = some (lit "length") ∨ finish = some (lit "error") then .incomplete else .completed

/-- The message item at its end. -/
def messageItem (st : ResponsesStream) (finish : Option Bytes) : OutputItem :=
  .message st.messageId (itemStatusForFinish finish) [cString st.messageText]

/-- `responses_sse_message_done`. -/
def messageDone (st : ResponsesStream) (finish : Option Bytes) : ResponsesStream :=
  let st := st.emit (.outputTextDone st.messageId st.messageIndex (cString st.messageText))
  let st := st.emit (.contentPartDone st.messageId st.messageIndex (cString st.messageText))
  st.emit (.itemDone st.messageIndex (st.messageItem finish))

/-- Opens the message item where it is not open. -/
def openMessageItem (st : ResponsesStream) : ResponsesStream :=
  if st.messageItemOpened then st
  else
    let st := { st with
      messageIndex := st.nextOutputIndex, nextOutputIndex := st.nextOutputIndex + 1 }
    { st.messageAdded with messageItemOpened := true }

/-- Opens the text part where it is not open. -/
def openTextPart (st : ResponsesStream) : ResponsesStream :=
  if st.messageTextPartOpen then st
  else { st.messageTextPartAdded with messageTextPartOpen := true }

/-- Sends a piece of the message. -/
def sendMessageText (st : ResponsesStream) (text : Bytes) : ResponsesStream :=
  let st := (st.openMessageItem.openTextPart).outputTextDelta text
  { st with messageText := st.messageText ++ text, messageEmittedAny := true }

/-- Sends the buffer as message up to `limit`. -/
def sendTextTo (st : ResponsesStream) (raw : Bytes) (limit : Nat) : ResponsesStream :=
  if st.emitPos < limit then
    { st.sendMessageText (slice raw st.emitPos limit) with emitPos := limit }
  else st

/-! ## Updates -/

/-- Goes over the buffer as reasoning up to `limit`, and sends it when the client asked for it. -/
def sendReasoningTo (st : ResponsesStream) (r : ResponsesRequest) (raw : Bytes) (limit : Nat) :
    ResponsesStream :=
  if st.emitPos < limit then
    let st' :=
      if r.reasoningSummaryEmit then st.sendReasoningText (slice raw st.emitPos limit) else st
    { st' with emitPos := limit }
  else st

/-- The part of `responses_sse_stream_update` for text. -/
def updateText (st : ResponsesStream) (r : ResponsesRequest) (o : Offer) (final : Bool) :
    ResponsesStream :=
  let tool := findTool r.hasTools o.raw st.emitPos
  let st := st.sendTextTo o.raw
    (textStreamSafeLimit o.raw st.emitPos o.rawLen r.hasTools final)
  match tool with
  | some t => { st with emitPos := t, mode := .suppress }
  | none => if final then { st with mode := .suppress } else st

/-- Skips a `<think>` that the model repeats. -/
def checkThinkPrefix (st : ResponsesStream) (o : Offer) : ResponsesStream :=
  if st.checkedThinkPrefix then st
  else { st with
    emitPos := thinkPrefixPos o.raw o.rawLen st.emitPos, checkedThinkPrefix := true }

/-- The part of `responses_sse_stream_update` for reasoning. -/
def updateThinking (st : ResponsesStream) (r : ResponsesRequest) (o : Offer) (final : Bool) :
    ResponsesStream :=
  if !st.checkedThinkPrefix && thinkPrefixPending o.raw o.rawLen final then st
  else
    let st := st.checkThinkPrefix o
    let close := findThinkEnd o.raw st.emitPos
    let tool := findTool r.hasTools o.raw st.emitPos
    let st := st.sendReasoningTo r o.raw
      (thinkingLimit o.raw st.emitPos o.rawLen tool close final)
    if toolBeforeClose tool close then
      match tool, completeTool o.raw tool with
      | some t, true => { st with emitPos := t, mode := .suppress }
      | _, _ => st
    else
      match close with
      | some c =>
        updateText { st with
          emitPos := c + thinkEnd.length, mode := .text, reasoningClosedNaturally := true } r o final
      | none => if final then { st with mode := .suppress } else st

/-- `responses_sse_stream_update`. -/
def update (st : ResponsesStream) (r : ResponsesRequest) (o : Offer) (final : Bool) :
    ResponsesStream :=
  if st.active then
    match st.mode with
    | .thinking => st.updateThinking r o final
    | .text => st.updateText r o final
    | .suppress => st
  else st

/-! ## Calls -/

/-- `responses_tool_item`. -/
structure ToolItem where
  fcId : Bytes
  callId : Bytes
  outputIndex : Int

/-- An item of `responses_tool_items_build`; `call_id` holds 63 bytes. -/
def toolItem (ids : ResponsesIds) (start : Int) (i : Nat) (tc : IdentifiedCall) : ToolItem where
  fcId := ids.call i
  callId := match tc.id.filter fun id => id ≠ [] with
    | some id => id.take 63
    | none => ids.callId i
  outputIndex := start + i

/-- `tool_schema_orders_find`. -/
def findOrder (orders : List ResponsesTool) (name : Bytes) : Option ResponsesTool :=
  orders.find? fun order => order.name == name

/-- `responses_tool_call_is_tool_search`. -/
def isToolSearch (tc : IdentifiedCall) (order : Option ResponsesTool) : Bool :=
  tc.name == lit "tool_search" && (order.map ResponsesTool.responsesToolSearch).getD true

/-- The name of a call on the wire. -/
def wireName (tc : IdentifiedCall) (order : Option ResponsesTool) : Bytes :=
  (order.bind ResponsesTool.wireName).getD tc.name

/-- `responses_append_function_call_item`. -/
def functionCallItem (orders : List ResponsesTool) (tc : IdentifiedCall) (item : ToolItem)
    (status : ItemStatus) (withArgs : Bool) : OutputItem :=
  let order := findOrder orders tc.name
  if isToolSearch tc order then
    .toolSearchCall item.fcId status item.callId
      (if withArgs then jsonObjectOrEmpty tc.arguments else lit "\x7b\x7d")
  else
    .functionCall item.fcId status (wireName tc order) (order.bind ResponsesTool.space) item.callId
      (if withArgs then jsonObjectOrEmpty tc.arguments else [])

/-- `responses_sse_function_call_event`. -/
def functionCallEvent (st : ResponsesStream) (r : ResponsesRequest) (tc : IdentifiedCall)
    (item : ToolItem) (finish : Option Bytes) (done : Bool) : ResponsesStream :=
  if done then
    st.emit (.itemDone item.outputIndex
      (functionCallItem r.toolOrders tc item (itemStatusForFinish finish) true))
  else
    st.emit (.itemAdded item.outputIndex (functionCallItem r.toolOrders tc item .inProgress false))

/-- `responses_sse_function_call_arguments_done`. -/
def functionCallArgumentsDone (st : ResponsesStream) (r : ResponsesRequest) (tc : IdentifiedCall)
    (item : ToolItem) : ResponsesStream :=
  let order := findOrder r.toolOrders tc.name
  if isToolSearch tc order then st
  else
    let args := jsonObjectOrEmpty tc.arguments
    (st.emit (.argumentsDelta item.fcId item.outputIndex args)).emit
      (.argumentsDone item.fcId item.outputIndex (wireName tc order)
        (order.bind ResponsesTool.space) args)

/-- The events of one call. -/
def sendCall (r : ResponsesRequest) (finish : Option Bytes) (st : ResponsesStream)
    (call : IdentifiedCall × ToolItem) : ResponsesStream :=
  let st := st.functionCallEvent r call.1 call.2 finish false
  let st := st.functionCallArgumentsDone r call.1 call.2
  st.functionCallEvent r call.1 call.2 finish true

/-! ## The end -/

/-- `responses_status_for_finish`. -/
def statusForFinish (finish : Option Bytes) : ResponseStatus :=
  if finish = some (lit "length") then .incomplete
  else if finish = some (lit "error") then .failed
  else .completed

/-- `clamp_usage_tokens`. -/
def clampUsageTokens (value max : Int) : Int :=
  if value < 0 then 0 else if 0 ≤ max ∧ max < value then max else value

/-- `append_responses_usage_json`. -/
def usage (r : ResponsesRequest) (inputTokens outputTokens : Int) : ResponsesUsage :=
  let cachedTokens := clampUsageTokens r.cacheReadTokens inputTokens
  { inputTokens := inputTokens
    cachedTokens := cachedTokens
    cacheWriteTokens := clampUsageTokens r.cacheWriteTokens (inputTokens - cachedTokens)
    outputTokens := outputTokens
    totalTokens := inputTokens + outputTokens }

/-- The output of the terminal response. -/
def output (st : ResponsesStream) (r : ResponsesRequest) (calls : List (IdentifiedCall × ToolItem))
    (finish : Option Bytes) : List OutputItem :=
  (if st.reasoningEmittedAny then [st.reasoningItem] else []) ++
    (if st.messageEmittedAny then [st.messageItem finish] else []) ++
    calls.map fun call =>
      functionCallItem r.toolOrders call.1 call.2 (itemStatusForFinish finish) true

/-- `responses_sse_completed`. -/
def completed (st : ResponsesStream) (r : ResponsesRequest)
    (calls : List (IdentifiedCall × ToolItem)) (finish : Option Bytes)
    (promptTokens completionTokens createdAt : Int) : ResponsesStream :=
  let status := statusForFinish finish
  st.emit (.terminal status
    { id := st.responseId
      createdAt := createdAt
      status := status
      model := r.model
      error := status = .failed
      maxTokens := status = .incomplete
      output := st.output r calls finish
      usage := usage r promptTokens completionTokens })

/-- Closes the reasoning item where it is open. -/
def closeReasoningItem (st : ResponsesStream) : ResponsesStream :=
  if st.reasoningItemOpened && !st.reasoningItemClosed then
    { st.reasoningDone with reasoningItemClosed := true }
  else st

/-- Closes the message item where it is open. -/
def closeMessageItem (st : ResponsesStream) (finish : Option Bytes) : ResponsesStream :=
  if st.messageItemOpened && !st.messageItemClosed then
    { st.messageDone finish with messageItemClosed := true }
  else st

/-- Takes output indexes for the calls. -/
def reserve (st : ResponsesStream) (n : Nat) : ResponsesStream :=
  { st with nextOutputIndex := st.nextOutputIndex + n }

/-- `responses_sse_finish_live`; only whether there is a recovered content is looked at. -/
def finishLive (st : ResponsesStream) (r : ResponsesRequest) (ids : ResponsesIds) (o : Offer)
    (recoveredContent : Option Bytes) (calls : List IdentifiedCall) (finish : Option Bytes)
    (promptTokens completionTokens createdAt : Int) : ResponsesStream :=
  let st := (st.update r o true).closeReasoningItem
  let st := if recoveredContent.isSome then st.sendTextTo o.raw o.rawLen else st
  let st := st.closeMessageItem finish
  let items := calls.mapIdx fun i tc => (tc, toolItem ids st.nextOutputIndex i tc)
  (items.foldl (sendCall r finish) (st.reserve calls.length)).completed r items finish promptTokens
    completionTokens createdAt

end ResponsesStream

end Ds4.Server
