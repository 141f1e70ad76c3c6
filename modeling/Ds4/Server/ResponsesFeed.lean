import Ds4.Lib.Feed
import Ds4.Server.Responses

/-!
# The Responses stream is well formed

The events of a response are a feed of its output items: each is announced once, grows by deltas, is
reported and done once, and the terminal response lists the items that were done. A text with a NUL
breaks this: a delta and a report are C strings, so a report ends at the first NUL and the deltas
behind it do not.
-/

namespace Ds4.Server

open Ds4.Lib Ds4.Lib.Feed

/-! ## The law -/

/-- The text of an item; the arguments of a tool search are no text. -/
def OutputItem.text : OutputItem → Bytes
  | .reasoning _ _ summary => summary.flatten
  | .message _ _ content => content.flatten
  | .functionCall _ _ _ _ _ arguments => arguments
  | .toolSearchCall .. => []

namespace ResponsesEvent

/-- What an event says about an item. -/
def notice : ResponsesEvent → Option (Notice Int UInt8)
  | .created .. => none
  | .itemAdded i _ => some (.add i)
  | .itemDone i item => some (.done i item.text)
  | .summaryPartAdded _ i text => some (.piece i text)
  | .summaryTextDelta _ i delta => some (.piece i delta)
  | .summaryTextDone _ i text => some (.whole i text)
  | .summaryPartDone _ i text => some (.whole i text)
  | .contentPartAdded _ i text => some (.piece i text)
  | .outputTextDelta _ i delta => some (.piece i delta)
  | .outputTextDone _ i text => some (.whole i text)
  | .contentPartDone _ i text => some (.whole i text)
  | .argumentsDelta _ i delta => some (.piece i delta)
  | .argumentsDone _ i _ _ arguments => some (.whole i arguments)
  | .terminal .. => none

/-- The item that an event reports as done. -/
def doneItem : ResponsesEvent → Option (Int × OutputItem)
  | .itemDone i item => some (i, item)
  | _ => none

/-- The response of a terminal event. -/
def response : ResponsesEvent → Option TerminalResponse
  | .terminal _ response => some response
  | _ => none

end ResponsesEvent

/-- What the events say about items. -/
def notices (events : List (Int × ResponsesEvent)) : List (Notice Int UInt8) :=
  events.filterMap fun e => e.2.notice

/-- The items that the events report as done. -/
def doneItems (events : List (Int × ResponsesEvent)) : List (Int × OutputItem) :=
  events.filterMap fun e => e.2.doneItem

/-- The indexes `0..n-1`. -/
def indexes (n : Nat) : List Int := (List.range n).map fun i : Nat => (i : Int)

/-- Items with their indexes. -/
def numbered (items : List OutputItem) : List (Int × OutputItem) := (indexes items.length).zip items

/-- A well-formed event stream that ends with `response`. -/
structure WellFormed (events : List (Int × ResponsesEvent)) (response : TerminalResponse) :
    Prop where
  sequence : events.map Prod.fst = indexes events.length
  terminal : ∃ front type n, events = front ++ [(n, .terminal type response)] ∧
    ∀ e ∈ front, e.2.response = none
  indexes : (notices events).filterMap Notice.added = indexes response.output.length
  known : ∀ n ∈ notices events, n.index ∈ Ds4.Server.indexes response.output.length
  lifecycle : ∀ e ∈ numbered response.output, ∃ (pieces : List Bytes) (k : Nat),
    pieces.flatten = e.2.text ∧
      (notices events).filter (fun n => n.index = e.1) =
        .add e.1 :: pieces.map (.piece e.1) ++ List.replicate k (.whole e.1 e.2.text) ++
          [.done e.1 e.2.text]
  done : doneItems events = numbered response.output

/-! ## The log of the events -/

/-- The events before the terminal one, the entries of a listener, and the items that are done. -/
structure Log (sent : List (Int × ResponsesEvent)) (sequence : Int) (es : List (Entry Int UInt8))
    (done : List (Int × OutputItem)) : Prop where
  numbers : sent.map Prod.fst = indexes sent.length
  next : sequence = sent.length
  heard : Heard (notices sent) es
  done : doneItems sent = done
  running : ∀ e ∈ sent, e.2.response = none

theorem indexes_succ (n : Nat) : indexes (n + 1) = indexes n ++ [(n : Int)] := by
  simp [indexes, List.range_succ]

section Log

variable {sent : List (Int × ResponsesEvent)} {n : Int} {es es' : List (Entry Int UInt8)}
  {done : List (Int × OutputItem)}

theorem log_nil : Log [] 0 [] [] := ⟨rfl, rfl, .nil, rfl, by simp⟩

theorem Log.snoc (h : Log sent n es done) {e : ResponsesEvent}
    (hheard : Heard (notices (sent ++ [(n, e)])) es') (he : e.response = none) :
    Log (sent ++ [(n, e)]) (n + 1) es' (done ++ e.doneItem.toList) := by
  obtain ⟨hnumbers, hnext, -, hdone, hrunning⟩ := h
  refine ⟨?_, ?_, hheard, ?_, ?_⟩
  · rw [List.map_append, hnumbers, List.length_append, List.length_singleton, indexes_succ, hnext]
    rfl
  · rw [hnext]
    simp
  · rw [doneItems, List.filterMap_append, ← doneItems, hdone]
    cases hd : e.doneItem <;> simp [hd]
  · intro d hd
    rcases List.mem_append.mp hd with hd | hd
    · exact hrunning d hd
    · obtain rfl := List.mem_singleton.mp hd
      exact he

theorem Log.say (h : Log sent n es done) {e : ResponsesEvent} {m : Notice Int UInt8}
    (hm : e.notice = some m) (hear : hear es m = some es') (he : e.response = none)
    (hd : e.doneItem = none) : Log (sent ++ [(n, e)]) (n + 1) es' done := by
  have hheard : Heard (notices (sent ++ [(n, e)])) es' := by
    rw [notices, List.filterMap_append, ← notices]
    simpa [hm] using Heard.snoc h.heard hear
  have := h.snoc hheard he
  rwa [hd, Option.toList_none, List.append_nil] at this

theorem Log.finish (h : Log sent n es done) {i : Int} {a : OutputItem}
    (hear : hear es (.done i a.text) = some es') :
    Log (sent ++ [(n, .itemDone i a)]) (n + 1) es' (done ++ [(i, a)]) := by
  refine h.snoc (e := .itemDone i a) ?_ rfl
  rw [notices, List.filterMap_append, ← notices]
  exact Heard.snoc h.heard hear

end Log

/-! ## The invariant of the updates -/

namespace ResponsesStream

variable {st : ResponsesStream} {r : ResponsesRequest}

/-- The entry of the reasoning item. -/
def reasoningEntry (st : ResponsesStream) (phase : Phase) : List (Entry Int UInt8) :=
  if st.reasoningItemOpened then [⟨st.reasoningIndex, st.reasoningText, phase⟩] else []

/-- The entry of the message item. -/
def messageEntry (st : ResponsesStream) (phase : Phase) : List (Entry Int UInt8) :=
  if st.messageItemOpened then [⟨st.messageIndex, st.messageText, phase⟩] else []

/-- The flags of an item agree. -/
structure Flags (st : ResponsesStream) : Prop where
  summary : st.reasoningSummaryStarted = st.reasoningItemOpened
  reasoning : st.reasoningEmittedAny = st.reasoningItemOpened
  part : st.messageTextPartOpen = st.messageItemOpened
  message : st.messageEmittedAny = st.messageItemOpened

/-- The stream in front of its end: the log and the indexes of the items. -/
structure Growing (st : ResponsesStream) (reasoning : Phase) (done : List (Int × OutputItem)) :
    Prop where
  reasoningIndex : st.reasoningItemOpened = true → st.reasoningIndex = 0
  messageIndex : st.messageItemOpened = true →
    st.messageIndex = if st.reasoningItemOpened then 1 else 0
  next : st.nextOutputIndex =
    (if st.reasoningItemOpened then 1 else 0) + if st.messageItemOpened then 1 else 0
  reasoningEmpty : st.reasoningItemOpened = false → st.reasoningText = []
  messageEmpty : st.messageItemOpened = false → st.messageText = []
  reasoningNul : 0 ∉ st.reasoningText
  messageNul : 0 ∉ st.messageText
  log : Log st.sent st.sequence (st.reasoningEntry reasoning ++ st.messageEntry .growing) done

theorem not_mem_slice {raw : Bytes} (h : 0 ∉ raw) (start limit : Nat) :
    0 ∉ slice raw start limit :=
  fun hc => h (List.mem_of_mem_drop (List.mem_of_mem_take hc))

theorem Growing.at {reasoning : Phase} {done : List (Int × OutputItem)}
    (h : st.Growing reasoning done) (pos : Nat) :
    Growing { st with emitPos := pos } reasoning done := by
  obtain ⟨h1, h2, h3, h4, h5, h6, h7, h8⟩ := h
  exact ⟨h1, h2, h3, h4, h5, h6, h7, h8⟩

theorem Flags.at (h : st.Flags) (pos : Nat) : Flags { st with emitPos := pos } := by
  obtain ⟨h1, h2, h3, h4⟩ := h
  exact ⟨h1, h2, h3, h4⟩

theorem hear_piece {i : Int} {s : Bytes} {pre post : List (Entry Int UInt8)}
    (hpre : i ∉ pre.map Entry.index) (t : Bytes) :
    hear (pre ++ ⟨i, s, .growing⟩ :: post) (.piece i t) =
      some (pre ++ ⟨i, s ++ t, .growing⟩ :: post) :=
  hear_entry hpre rfl rfl

theorem hear_first {i : Int} {s : Bytes} {post : List (Entry Int UInt8)} (t : Bytes) :
    hear (⟨i, s, .growing⟩ :: post) (.piece i t) = some (⟨i, s ++ t, .growing⟩ :: post) :=
  if_pos rfl

/-! ### Reasoning -/

theorem Growing.openReasoningItem (h : st.Growing .growing []) (hm : st.messageItemOpened = false) :
    st.openReasoningItem.Growing .growing [] := by
  unfold ResponsesStream.openReasoningItem
  split_ifs with hopen
  · exact h
  · obtain ⟨-, h2, h3, h4, h5, h6, h7, hlog⟩ := h
    have hnext : st.nextOutputIndex = 0 := by simpa [hopen, hm] using h3
    have htext : st.reasoningText = [] := h4 (by simpa using hopen)
    refine ⟨fun _ => hnext, fun hm' => ?_, ?_, fun _ => htext, h5, h6, h7, ?_⟩
    · exact absurd (hm.symm.trans hm') (by simp)
    · simp [reasoningAdded, emit, hnext, hm]
    · have hes : st.reasoningEntry .growing ++ st.messageEntry .growing = [] := by
        simp [reasoningEntry, messageEntry, hopen, hm]
      rw [hes] at hlog
      have := hlog.say (e := .itemAdded st.nextOutputIndex (.reasoning st.reasoningId .inProgress []))
        rfl (hear_add (by simp)) rfl rfl
      simpa [reasoningEntry, messageEntry, reasoningAdded, emit, hm, htext] using this

theorem Growing.startSummary (h : st.Growing .growing []) (ho : st.reasoningItemOpened = true)
    (hm : st.messageItemOpened = false) : st.startSummary.Growing .growing [] := by
  unfold ResponsesStream.startSummary
  split_ifs with hstart
  · exact h
  · obtain ⟨h1, h2, h3, h4, h5, h6, h7, hlog⟩ := h
    refine ⟨h1, h2, h3, h4, h5, h6, h7, ?_⟩
    have hes : st.reasoningEntry .growing ++ st.messageEntry .growing =
        [⟨st.reasoningIndex, st.reasoningText, .growing⟩] := by
      simp [reasoningEntry, messageEntry, ho, hm]
    rw [hes] at hlog
    have := hlog.say (e := .summaryPartAdded st.reasoningId st.reasoningIndex []) rfl
      (hear_first _) rfl rfl
    simpa [reasoningEntry, messageEntry, reasoningSummaryPartAdded, emit, ho, hm] using this

theorem Growing.reasoningDelta (h : st.Growing .growing []) (ho : st.reasoningItemOpened = true)
    (hm : st.messageItemOpened = false) {text : Bytes} (htext : 0 ∉ text) :
    Growing { st.reasoningDelta text with
      reasoningText := (st.reasoningDelta text).reasoningText ++ text,
      reasoningEmittedAny := true } .growing [] := by
  obtain ⟨h1, h2, h3, h4, h5, h6, h7, hlog⟩ := h
  have hes : st.reasoningEntry .growing ++ st.messageEntry .growing =
      [⟨st.reasoningIndex, st.reasoningText, .growing⟩] := by
    simp [reasoningEntry, messageEntry, ho, hm]
  rw [hes] at hlog
  unfold ResponsesStream.reasoningDelta
  split_ifs with hnil
  · refine ⟨h1, h2, h3, fun hf => absurd (ho.symm.trans hf) (by simp), h5, by simp [h6, htext], h7, ?_⟩
    simpa [reasoningEntry, messageEntry, ho, hm, hnil] using hlog
  · refine ⟨h1, h2, h3, fun hf => absurd (ho.symm.trans hf) (by simp), h5, by simp [emit, h6, htext],
      h7, ?_⟩
    have := hlog.say (e := .summaryTextDelta st.reasoningId st.reasoningIndex (cString text)) rfl
      (hear_first _) rfl rfl
    simpa [reasoningEntry, messageEntry, emit, ho, hm, cString_eq_self htext] using this

@[simp] theorem openReasoningItem_opened : st.openReasoningItem.reasoningItemOpened = true := by
  unfold ResponsesStream.openReasoningItem
  split_ifs with h
  · exact h
  · rfl

@[simp] theorem openReasoningItem_message :
    st.openReasoningItem.messageItemOpened = st.messageItemOpened := by
  unfold ResponsesStream.openReasoningItem
  split_ifs <;> rfl

@[simp] theorem startSummary_opened :
    st.startSummary.reasoningItemOpened = st.reasoningItemOpened := by
  unfold ResponsesStream.startSummary
  split_ifs <;> rfl

@[simp] theorem startSummary_message : st.startSummary.messageItemOpened = st.messageItemOpened := by
  unfold ResponsesStream.startSummary
  split_ifs <;> rfl

/-- **Sending reasoning keeps the invariant.** -/
theorem Growing.sendReasoningText (h : st.Growing .growing []) (hm : st.messageItemOpened = false)
    {text : Bytes} (htext : 0 ∉ text) : (st.sendReasoningText text).Growing .growing [] :=
  ((h.openReasoningItem hm).startSummary (by simp) (by simpa using hm)).reasoningDelta (by simp)
    (by simpa using hm) htext

/-! ### Messages -/

section Message

variable {reasoning : Phase} {done : List (Int × OutputItem)}

theorem Growing.nextIndex_not_mem (h : st.Growing reasoning done)
    (hm : st.messageItemOpened = false) (phase : Phase) :
    st.nextOutputIndex ∉ (st.reasoningEntry phase).map Entry.index := by
  have hnext := h.next
  cases hr : st.reasoningItemOpened with
  | false => simp [reasoningEntry, hr]
  | true => simp [reasoningEntry, hr, hm, h.reasoningIndex hr, hnext]

theorem Growing.messageIndex_not_mem (h : st.Growing reasoning done)
    (hm : st.messageItemOpened = true) (phase : Phase) :
    st.messageIndex ∉ (st.reasoningEntry phase).map Entry.index := by
  have hindex := h.messageIndex hm
  cases hr : st.reasoningItemOpened with
  | false => simp [reasoningEntry, hr]
  | true => simp [reasoningEntry, hr, h.reasoningIndex hr, hindex]

theorem Growing.openMessageItem (h : st.Growing reasoning done) :
    st.openMessageItem.Growing reasoning done := by
  unfold ResponsesStream.openMessageItem
  split_ifs with hopen
  · exact h
  · have hm : st.messageItemOpened = false := by simpa using hopen
    have hnew := h.nextIndex_not_mem hm reasoning
    obtain ⟨h1, -, h3, h4, h5, h6, h7, hlog⟩ := h
    have hnext : st.nextOutputIndex = if st.reasoningItemOpened then 1 else 0 := by
      simpa [hopen] using h3
    refine ⟨h1, fun _ => hnext, ?_, h4, fun _ => h5 hm, h6, h7, ?_⟩
    · simp [messageAdded, emit, hnext]
    · have hes : st.messageEntry .growing = [] := by simp [messageEntry, hm]
      rw [hes, List.append_nil] at hlog
      have := hlog.say (e := .itemAdded st.nextOutputIndex (.message st.messageId .inProgress []))
        rfl (hear_add hnew) rfl rfl
      simpa [reasoningEntry, messageEntry, messageAdded, emit, h5 hm] using this

theorem Growing.openTextPart (h : st.Growing reasoning done) (ho : st.messageItemOpened = true) :
    st.openTextPart.Growing reasoning done := by
  unfold ResponsesStream.openTextPart
  split_ifs with hopen
  · exact h
  · have hnot := h.messageIndex_not_mem ho reasoning
    obtain ⟨h1, h2, h3, h4, h5, h6, h7, hlog⟩ := h
    refine ⟨h1, h2, h3, h4, h5, h6, h7, ?_⟩
    have hes : st.messageEntry .growing = [⟨st.messageIndex, st.messageText, .growing⟩] := by
      simp [messageEntry, ho]
    rw [hes] at hlog
    have := hlog.say (e := .contentPartAdded st.messageId st.messageIndex []) rfl
      (hear_piece hnot []) rfl rfl
    simpa [reasoningEntry, messageEntry, messageTextPartAdded, emit, ho] using this

theorem Growing.outputTextDelta (h : st.Growing reasoning done) (ho : st.messageItemOpened = true)
    {text : Bytes} (htext : 0 ∉ text) :
    Growing { st.outputTextDelta text with
      messageText := (st.outputTextDelta text).messageText ++ text,
      messageEmittedAny := true } reasoning done := by
  have hnot := h.messageIndex_not_mem ho reasoning
  obtain ⟨h1, h2, h3, h4, h5, h6, h7, hlog⟩ := h
  have hes : st.messageEntry .growing = [⟨st.messageIndex, st.messageText, .growing⟩] := by
    simp [messageEntry, ho]
  rw [hes] at hlog
  unfold ResponsesStream.outputTextDelta
  split_ifs with hnil
  · refine ⟨h1, h2, h3, h4, fun hf => absurd (ho.symm.trans hf) (by simp), h6, by simp [h7, htext], ?_⟩
    simpa [reasoningEntry, messageEntry, ho, hnil] using hlog
  · refine ⟨h1, h2, h3, h4, fun hf => absurd (ho.symm.trans hf) (by simp), h6,
      by simp [emit, h7, htext], ?_⟩
    have := hlog.say (e := .outputTextDelta st.messageId st.messageIndex (cString text)) rfl
      (hear_piece hnot (cString text)) rfl rfl
    simpa [reasoningEntry, messageEntry, emit, ho, cString_eq_self htext] using this

@[simp] theorem openMessageItem_opened : st.openMessageItem.messageItemOpened = true := by
  unfold ResponsesStream.openMessageItem
  split_ifs with h
  · exact h
  · rfl

@[simp] theorem openTextPart_opened : st.openTextPart.messageItemOpened = st.messageItemOpened := by
  unfold ResponsesStream.openTextPart
  split_ifs <;> rfl

/-- **Sending text keeps the invariant.** -/
theorem Growing.sendMessageText (h : st.Growing reasoning done) {text : Bytes} (htext : 0 ∉ text) :
    (st.sendMessageText text).Growing reasoning done :=
  (h.openMessageItem.openTextPart (by simp)).outputTextDelta (by simp) htext

theorem Growing.sendTextTo (h : st.Growing reasoning done) {raw : Bytes} (hraw : 0 ∉ raw)
    (limit : Nat) : (st.sendTextTo raw limit).Growing reasoning done := by
  unfold ResponsesStream.sendTextTo
  split_ifs
  · exact (h.sendMessageText (not_mem_slice hraw st.emitPos limit)).at limit
  · exact h

end Message

/-! ### Updates -/

/-- The stream while it is updated. -/
structure Running (st : ResponsesStream) : Prop where
  growing : st.Growing .growing []
  flags : st.Flags
  reasoningOpen : st.reasoningItemClosed = false
  messageOpen : st.messageItemClosed = false
  order : st.mode = .thinking → st.messageItemOpened = false

theorem Flags.sendReasoningText (h : st.Flags) (text : Bytes) : (st.sendReasoningText text).Flags := by
  obtain ⟨h1, h2, h3, h4⟩ := h
  unfold ResponsesStream.sendReasoningText ResponsesStream.openReasoningItem
    ResponsesStream.startSummary ResponsesStream.reasoningDelta
  constructor
  all_goals
    dsimp only
    split_ifs <;> simp_all [reasoningAdded, reasoningSummaryPartAdded, emit]

theorem Flags.sendMessageText (h : st.Flags) (text : Bytes) : (st.sendMessageText text).Flags := by
  obtain ⟨h1, h2, h3, h4⟩ := h
  unfold ResponsesStream.sendMessageText ResponsesStream.openMessageItem
    ResponsesStream.openTextPart ResponsesStream.outputTextDelta
  constructor
  all_goals
    dsimp only
    split_ifs <;> simp_all [messageAdded, messageTextPartAdded, emit]

/-- What sending does not touch. -/
structure SameState (st st' : ResponsesStream) : Prop where
  mode : st'.mode = st.mode
  active : st'.active = st.active
  reasoningClosed : st'.reasoningItemClosed = st.reasoningItemClosed
  messageClosed : st'.messageItemClosed = st.messageItemClosed

theorem SameState.trans {st₁ st₂ st₃ : ResponsesStream} (h : SameState st₁ st₂)
    (h' : SameState st₂ st₃) : SameState st₁ st₃ :=
  ⟨h'.mode.trans h.mode, h'.active.trans h.active, h'.reasoningClosed.trans h.reasoningClosed,
    h'.messageClosed.trans h.messageClosed⟩

theorem openReasoningItem_same (st : ResponsesStream) : SameState st st.openReasoningItem := by
  unfold ResponsesStream.openReasoningItem
  split_ifs <;> exact ⟨rfl, rfl, rfl, rfl⟩

theorem startSummary_same (st : ResponsesStream) : SameState st st.startSummary := by
  unfold ResponsesStream.startSummary
  split_ifs <;> exact ⟨rfl, rfl, rfl, rfl⟩

theorem reasoningDelta_same (st : ResponsesStream) (text : Bytes) : SameState st (st.reasoningDelta text) := by
  unfold ResponsesStream.reasoningDelta
  split_ifs <;> exact ⟨rfl, rfl, rfl, rfl⟩

theorem sendReasoningText_same (st : ResponsesStream) (text : Bytes) : SameState st (st.sendReasoningText text) := by
  have := (openReasoningItem_same st).trans ((startSummary_same _).trans (reasoningDelta_same _ text))
  exact ⟨this.mode, this.active, this.reasoningClosed, this.messageClosed⟩

theorem sendReasoningText_message (text : Bytes) :
    (st.sendReasoningText text).messageItemOpened = st.messageItemOpened := by
  unfold ResponsesStream.sendReasoningText ResponsesStream.reasoningDelta
  dsimp only
  split_ifs <;> simp [emit]

theorem openMessageItem_same (st : ResponsesStream) : SameState st st.openMessageItem := by
  unfold ResponsesStream.openMessageItem
  split_ifs <;> exact ⟨rfl, rfl, rfl, rfl⟩

theorem openTextPart_same (st : ResponsesStream) : SameState st st.openTextPart := by
  unfold ResponsesStream.openTextPart
  split_ifs <;> exact ⟨rfl, rfl, rfl, rfl⟩

theorem outputTextDelta_same (st : ResponsesStream) (text : Bytes) : SameState st (st.outputTextDelta text) := by
  unfold ResponsesStream.outputTextDelta
  split_ifs <;> exact ⟨rfl, rfl, rfl, rfl⟩

theorem sendMessageText_same (st : ResponsesStream) (text : Bytes) : SameState st (st.sendMessageText text) := by
  have := (openMessageItem_same st).trans ((openTextPart_same _).trans (outputTextDelta_same _ text))
  exact ⟨this.mode, this.active, this.reasoningClosed, this.messageClosed⟩

theorem Running.sendReasoningTo (h : st.Running) (hmode : st.mode = .thinking) {raw : Bytes}
    (hraw : 0 ∉ raw) (limit : Nat) :
    (st.sendReasoningTo r raw limit).Running ∧ (st.sendReasoningTo r raw limit).mode = .thinking := by
  have hm := h.order hmode
  unfold ResponsesStream.sendReasoningTo
  split_ifs
  · have hsame := sendReasoningText_same st (slice raw st.emitPos limit)
    refine ⟨⟨(h.growing.sendReasoningText hm (not_mem_slice hraw st.emitPos limit)).at limit,
      (h.flags.sendReasoningText (slice raw st.emitPos limit)).at limit, ?_, ?_, ?_⟩,
      hsame.mode.trans hmode⟩
    · exact hsame.reasoningClosed.trans h.reasoningOpen
    · exact hsame.messageClosed.trans h.messageOpen
    · intro _
      exact (sendReasoningText_message _).trans hm
  · obtain ⟨hg, hf, hr, hmo, ho⟩ := h
    exact ⟨⟨hg.at limit, hf.at limit, hr, hmo, ho⟩, hmode⟩
  · exact ⟨h, hmode⟩

theorem Flags.sendTextTo (h : st.Flags) (raw : Bytes) (limit : Nat) :
    (st.sendTextTo raw limit).Flags := by
  unfold ResponsesStream.sendTextTo
  split_ifs
  · exact (h.sendMessageText (slice raw st.emitPos limit)).at limit
  · exact h

theorem sendTextTo_same (st : ResponsesStream) (raw : Bytes) (limit : Nat) : SameState st (st.sendTextTo raw limit) := by
  unfold ResponsesStream.sendTextTo
  split_ifs
  · obtain ⟨h1, h2, h3, h4⟩ := sendMessageText_same st (slice raw st.emitPos limit)
    exact ⟨h1, h2, h3, h4⟩
  · exact ⟨rfl, rfl, rfl, rfl⟩

theorem Running.move (h : st.Running) {m : ResponsesMode} (hmode : m ≠ .thinking) (pos : Nat)
    (natural : Bool) :
    Running { st with emitPos := pos, mode := m, reasoningClosedNaturally := natural } := by
  obtain ⟨⟨h1, h2, h3, h4, h5, h6, h7, h8⟩, ⟨f1, f2, f3, f4⟩, hr, hm, ho⟩ := h
  exact ⟨⟨h1, h2, h3, h4, h5, h6, h7, h8⟩, ⟨f1, f2, f3, f4⟩, hr, hm, fun hf => absurd hf hmode⟩

theorem Running.updateText (h : st.Running) (hmode : st.mode = .text) {o : Offer}
    (ho : 0 ∉ o.raw) (final : Bool) : (st.updateText r o final).Running := by
  have hsame := sendTextTo_same st o.raw
    (textStreamSafeLimit o.raw st.emitPos o.rawLen r.hasTools final)
  have hsent : (st.sendTextTo o.raw
      (textStreamSafeLimit o.raw st.emitPos o.rawLen r.hasTools final)).Running := by
    refine ⟨h.growing.sendTextTo ho _, h.flags.sendTextTo _ _, ?_, ?_, ?_⟩
    · exact hsame.reasoningClosed.trans h.reasoningOpen
    · exact hsame.messageClosed.trans h.messageOpen
    · intro hf
      rw [hsame.mode, hmode] at hf
      cases hf
  unfold ResponsesStream.updateText
  dsimp only
  split
  · exact hsent.move (by decide) _ _
  · split_ifs
    · exact hsent.move (by decide) _ _
    · exact hsent

theorem Running.checkThinkPrefix (h : st.Running) (o : Offer) : (st.checkThinkPrefix o).Running := by
  unfold ResponsesStream.checkThinkPrefix
  split_ifs
  · exact h
  · obtain ⟨⟨h1, h2, h3, h4, h5, h6, h7, h8⟩, ⟨f1, f2, f3, f4⟩, hr, hm, ho⟩ := h
    exact ⟨⟨h1, h2, h3, h4, h5, h6, h7, h8⟩, ⟨f1, f2, f3, f4⟩, hr, hm, ho⟩

theorem checkThinkPrefix_mode (o : Offer) : (st.checkThinkPrefix o).mode = st.mode := by
  unfold ResponsesStream.checkThinkPrefix
  split_ifs <;> rfl

theorem Running.updateThinking (h : st.Running) (hmode : st.mode = .thinking) {o : Offer}
    (ho : 0 ∉ o.raw) (final : Bool) : (st.updateThinking r o final).Running := by
  unfold ResponsesStream.updateThinking
  split
  · exact h
  · dsimp only
    obtain ⟨hsent, hsentMode⟩ := (h.checkThinkPrefix o).sendReasoningTo (r := r)
      ((checkThinkPrefix_mode o).trans hmode) ho
      (thinkingLimit o.raw (st.checkThinkPrefix o).emitPos o.rawLen
        (findTool r.hasTools o.raw (st.checkThinkPrefix o).emitPos)
        (findThinkEnd o.raw (st.checkThinkPrefix o).emitPos) final)
    split
    · split
      · exact hsent.move (by decide) _ _
      · exact hsent
    · split
      · exact (hsent.move (m := .text) (by decide) _ true).updateText rfl ho final
      · split_ifs
        · exact hsent.move (by decide) _ _
        · exact hsent

/-- **An update keeps the invariant.** -/
theorem Running.update (h : st.Running) {o : Offer} (ho : 0 ∉ o.raw) (final : Bool) :
    (st.update r o final).Running := by
  unfold ResponsesStream.update
  split_ifs
  · split
    · next hmode => exact h.updateThinking hmode ho final
    · next hmode => exact h.updateText hmode ho final
    · exact h
  · exact h

/-! ## The end of the stream -/

/-- The entry of an item that is done. -/
def doneEntry (e : Int × OutputItem) : Entry Int UInt8 := ⟨e.1, e.2.text, .done⟩

/-- The reasoning item, when there is one. -/
def doneReasoning (st : ResponsesStream) : List (Int × OutputItem) :=
  if st.reasoningItemOpened then [(st.reasoningIndex, st.reasoningItem)] else []

/-- The message item, when there is one. -/
def doneMessage (st : ResponsesStream) (finish : Option Bytes) : List (Int × OutputItem) :=
  if st.messageItemOpened then [(st.messageIndex, st.messageItem finish)] else []

theorem reasoningItem_text (h : 0 ∉ st.reasoningText) :
    st.reasoningItem.text = st.reasoningText := by
  rw [reasoningItem, OutputItem.text]
  split_ifs with hnil
  · simp [hnil]
  · simp [cString_eq_self h]

theorem hear_whole {i : Int} {s : Bytes} {pre post : List (Entry Int UInt8)} {phase : Phase}
    (hphase : phase ≠ .done) (hpre : i ∉ pre.map Entry.index) :
    hear (pre ++ ⟨i, s, phase⟩ :: post) (.whole i s) = some (pre ++ ⟨i, s, .whole⟩ :: post) :=
  hear_entry hpre rfl (if_pos ⟨hphase, rfl⟩)

theorem hear_done {i : Int} {s : Bytes} {pre post : List (Entry Int UInt8)} {phase : Phase}
    (hphase : phase ≠ .done) (hpre : i ∉ pre.map Entry.index) :
    hear (pre ++ ⟨i, s, phase⟩ :: post) (.done i s) = some (pre ++ ⟨i, s, .done⟩ :: post) :=
  hear_entry hpre rfl (if_pos ⟨hphase, rfl⟩)

theorem reasoningDone_eq (h : st.reasoningSummaryStarted = true) :
    st.reasoningDone =
      ((st.emit (.summaryTextDone st.reasoningId st.reasoningIndex (cString st.reasoningText))).emit
        (.summaryPartDone st.reasoningId st.reasoningIndex (cString st.reasoningText))).emit
          (.itemDone st.reasoningIndex st.reasoningItem) := by
  have hemit : ∀ e, (st.emit e).reasoningSummaryStarted = true := fun _ => h
  rw [reasoningDone, if_pos (hemit _)]
  rfl

/-- **The reasoning item ends.** -/
theorem Running.closeReasoningItem (h : st.Running) :
    st.closeReasoningItem.Growing .done st.doneReasoning := by
  obtain ⟨⟨h1, h2, h3, h4, h5, h6, h7, hlog⟩, ⟨f1, f2, f3, f4⟩, hr, hm, -⟩ := h
  unfold ResponsesStream.closeReasoningItem
  cases hopen : st.reasoningItemOpened with
  | false =>
    simp only [Bool.false_and, Bool.false_eq_true, if_false]
    refine ⟨h1, h2, h3, h4, h5, h6, h7, ?_⟩
    simpa [reasoningEntry, doneReasoning, hopen] using hlog
  | true =>
    rw [hopen] at f1
    simp only [hr, Bool.not_false, Bool.and_self, if_true]
    rw [reasoningDone_eq f1]
    refine ⟨h1, h2, h3, h4, h5, h6, h7, ?_⟩
    · have hes : st.reasoningEntry .growing ++ st.messageEntry .growing =
          [] ++ ⟨st.reasoningIndex, st.reasoningText, .growing⟩ :: st.messageEntry .growing := by
        simp [reasoningEntry, hopen]
      rw [hes] at hlog
      have hwhole := hlog.say (e := .summaryTextDone st.reasoningId st.reasoningIndex
        st.reasoningText) rfl (hear_whole (by decide) (by simp)) rfl rfl
      have hpart := hwhole.say (e := .summaryPartDone st.reasoningId st.reasoningIndex
        st.reasoningText) rfl (hear_whole (by decide) (by simp)) rfl rfl
      have hdone := hpart.finish (i := st.reasoningIndex) (a := st.reasoningItem)
        (by rw [reasoningItem_text h6]; exact hear_done (by decide) (by simp))
      simpa [emit, doneReasoning, reasoningEntry, messageEntry, hopen, cString_eq_self h6]
        using hdone

/-- **The message item ends.** -/
theorem closeMessageItem_log (h : st.Growing .done st.doneReasoning)
    (hm : st.messageItemClosed = false) (finish : Option Bytes) :
    Log (st.closeMessageItem finish).sent (st.closeMessageItem finish).sequence
      ((st.doneReasoning ++ st.doneMessage finish).map doneEntry)
      (st.doneReasoning ++ st.doneMessage finish) := by
  have hes : st.reasoningEntry .done = st.doneReasoning.map doneEntry := by
    unfold reasoningEntry doneReasoning
    split_ifs
    · simp [doneEntry, reasoningItem_text h.reasoningNul]
    · rfl
  have hlog := h.log
  unfold ResponsesStream.closeMessageItem
  cases hopen : st.messageItemOpened with
  | false =>
    simpa [doneMessage, messageEntry, hopen, hes] using hlog
  | true =>
    have hnot := h.messageIndex_not_mem hopen .done
    have hmes : st.messageEntry .growing = [⟨st.messageIndex, st.messageText, .growing⟩] := by
      simp [messageEntry, hopen]
    rw [hmes] at hlog
    have hwhole := hlog.say (e := .outputTextDone st.messageId st.messageIndex st.messageText) rfl
      (hear_whole (by decide) hnot) rfl rfl
    have hpart := hwhole.say (e := .contentPartDone st.messageId st.messageIndex st.messageText) rfl
      (hear_whole (by decide) hnot) rfl rfl
    have htext : (st.messageItem finish).text = st.messageText := by
      simp [messageItem, OutputItem.text, cString_eq_self h.messageNul]
    have hdone := hpart.finish (i := st.messageIndex) (a := st.messageItem finish)
      (by rw [htext]; exact hear_done (by decide) hnot)
    simp only [hm, Bool.not_false, Bool.and_self, if_true]
    simpa [messageDone, emit, doneMessage, messageItem, doneEntry, hes, hopen, OutputItem.text,
      cString_eq_self h.messageNul] using hdone

/-! ## Calls -/

/-- The item of a call at its end. -/
def doneCall (r : ResponsesRequest) (finish : Option Bytes) (call : IdentifiedCall × ToolItem) :
    Int × OutputItem :=
  (call.2.outputIndex, functionCallItem r.toolOrders call.1 call.2 (itemStatusForFinish finish) true)

theorem doneEntry_index (l : List (Int × OutputItem)) :
    (l.map doneEntry).map Entry.index = l.map Prod.fst := by
  rw [List.map_map]
  rfl

/-- **The events of a call.** -/
theorem log_sendCall (r : ResponsesRequest) (finish : Option Bytes)
    {done : List (Int × OutputItem)} {call : IdentifiedCall × ToolItem}
    (h : Log st.sent st.sequence (done.map doneEntry) done)
    (hnew : call.2.outputIndex ∉ done.map Prod.fst) :
    Log (sendCall r finish st call).sent (sendCall r finish st call).sequence
      ((done ++ [doneCall r finish call]).map doneEntry) (done ++ [doneCall r finish call]) := by
  obtain ⟨tc, item⟩ := call
  have hnot : item.outputIndex ∉ (done.map doneEntry).map Entry.index := by
    rw [doneEntry_index]
    exact hnew
  have hadd := h.say (e := .itemAdded item.outputIndex
    (functionCallItem r.toolOrders tc item .inProgress false)) rfl (hear_add hnot) rfl rfl
  cases hsearch : isToolSearch tc (findOrder r.toolOrders tc.name) with
  | true =>
    have htext : (functionCallItem r.toolOrders tc item (itemStatusForFinish finish) true).text =
        [] := by
      simp [functionCallItem, hsearch, OutputItem.text]
    have hdone := hadd.finish (i := item.outputIndex)
      (by rw [htext]; exact hear_done (by decide) hnot)
    simpa [sendCall, functionCallEvent, functionCallArgumentsDone, hsearch, emit, doneEntry,
      doneCall, htext] using hdone
  | false =>
    have htext : (functionCallItem r.toolOrders tc item (itemStatusForFinish finish) true).text =
        jsonObjectOrEmpty tc.arguments := by
      simp [functionCallItem, hsearch, OutputItem.text]
    have hdelta := hadd.say (e := .argumentsDelta item.fcId item.outputIndex
      (jsonObjectOrEmpty tc.arguments)) rfl (hear_piece hnot _) rfl rfl
    have hwhole := hdelta.say (e := .argumentsDone item.fcId item.outputIndex
      (wireName tc (findOrder r.toolOrders tc.name))
      ((findOrder r.toolOrders tc.name).bind ResponsesTool.space) (jsonObjectOrEmpty tc.arguments))
      rfl (hear_whole (by decide) hnot) rfl rfl
    have hdone := hwhole.finish (i := item.outputIndex)
      (by rw [htext]; exact hear_done (by decide) hnot)
    simpa [sendCall, functionCallEvent, functionCallArgumentsDone, hsearch, emit, doneEntry,
      doneCall, htext] using hdone

theorem log_calls (r : ResponsesRequest) (finish : Option Bytes)
    {calls : List (IdentifiedCall × ToolItem)} {done : List (Int × OutputItem)}
    (h : Log st.sent st.sequence (done.map doneEntry) done)
    (hnew : (done.map Prod.fst ++ calls.map fun call => call.2.outputIndex).Nodup) :
    Log (calls.foldl (sendCall r finish) st).sent (calls.foldl (sendCall r finish) st).sequence
      ((done ++ calls.map (doneCall r finish)).map doneEntry)
      (done ++ calls.map (doneCall r finish)) := by
  induction calls generalizing st done with
  | nil => simpa using h
  | cons call calls ih =>
    have hfresh : call.2.outputIndex ∉ done.map Prod.fst := by
      intro hmem
      exact (List.nodup_append.mp hnew).2.2 _ hmem _ List.mem_cons_self rfl
    have := ih (log_sendCall r finish h hfresh) (by
      simpa [doneCall] using hnew)
    simpa using this

@[simp] theorem emit_output (e : ResponsesEvent) (calls : List (IdentifiedCall × ToolItem))
    (finish : Option Bytes) : (st.emit e).output r calls finish = st.output r calls finish := rfl

theorem sendCall_output (call : IdentifiedCall × ToolItem)
    (calls : List (IdentifiedCall × ToolItem)) (finish : Option Bytes) :
    (sendCall r finish st call).output r calls finish = st.output r calls finish := by
  cases hsearch : isToolSearch call.1 (findOrder r.toolOrders call.1.name) <;>
    simp [sendCall, functionCallEvent, functionCallArgumentsDone, hsearch]

theorem foldl_sendCall_output (l calls : List (IdentifiedCall × ToolItem)) (finish : Option Bytes) :
    (l.foldl (sendCall r finish) st).output r calls finish = st.output r calls finish := by
  induction l generalizing st with
  | nil => rfl
  | cons call l ih => rw [List.foldl_cons, ih, sendCall_output]

/-! ## The whole stream -/

theorem eq_numbered {done : List (Int × OutputItem)} {items : List OutputItem}
    (hindexes : done.map Prod.fst = indexes done.length) (hitems : done.map Prod.snd = items) :
    done = numbered items := by
  have hlen : items.length = done.length := by rw [← hitems, List.length_map]
  rw [numbered, hlen]
  exact List.zip_of_prod hindexes hitems

theorem wellFormed_terminal {sent : List (Int × ResponsesEvent)} {n : Int}
    {done : List (Int × OutputItem)} {response : TerminalResponse} (type : ResponseStatus)
    (h : Log sent n (done.map doneEntry) done) (hdone : done = numbered response.output) :
    WellFormed (sent ++ [(n, .terminal type response)]) response := by
  have hnotices : notices (sent ++ [(n, .terminal type response)]) = notices sent := by
    simp [notices, ResponsesEvent.notice]
  have hfst : done.map Prod.fst = indexes response.output.length := by
    rw [hdone, numbered, List.map_fst_zip (by simp [indexes])]
  obtain ⟨hadded, -, hknown, htold⟩ := h.heard.knows
  rw [doneEntry_index, hfst] at hadded hknown
  refine ⟨?_, ⟨sent, type, n, rfl, h.running⟩, ?_, ?_, ?_, ?_⟩
  · rw [List.map_append, h.numbers, List.length_append, List.length_singleton, indexes_succ, h.next]
    rfl
  · rw [hnotices, hadded]
  · rw [hnotices]
    exact hknown
  · intro e he
    rw [← hdone] at he
    obtain ⟨pieces, k, hp, -, hfilter⟩ := htold (doneEntry e) (List.mem_map_of_mem he)
    refine ⟨pieces, k, hp, ?_⟩
    rw [hnotices]
    exact hfilter.trans (by simp [doneEntry])
  · rw [← hdone, ← h.done]
    simp [doneItems, ResponsesEvent.doneItem]

theorem running_created (r : ResponsesRequest) (ids : ResponsesIds) (createdAt : Int) :
    ((init r ids).created r createdAt).Running := by
  have hlog := log_nil.snoc (e := .created ids.response createdAt r.model)
    (show Heard (notices _) [] from Heard.nil) rfl
  refine ⟨⟨fun hf => ?_, fun hf => ?_, rfl, fun _ => rfl, fun _ => rfl, by simp [init, created, emit],
    by simp [init, created, emit], hlog⟩, ⟨rfl, rfl, rfl, rfl⟩, rfl, rfl, fun _ => rfl⟩
  · cases hf
  · cases hf

/-- The run of a request: the created event, the updates, and the end. -/
def run (r : ResponsesRequest) (ids : ResponsesIds) (offers : List Offer) (last : Offer)
    (recoveredContent : Option Bytes) (calls : List IdentifiedCall) (finish : Option Bytes)
    (promptTokens completionTokens createdAt : Int) : ResponsesStream :=
  (offers.foldl (fun st o => st.update r o false) ((init r ids).created r createdAt)).finishLive r ids
    last recoveredContent calls finish promptTokens completionTokens createdAt

theorem running_updates {offers : List Offer} (hoffers : ∀ o ∈ offers, 0 ∉ o.raw)
    (h : st.Running) : (offers.foldl (fun st o => st.update r o false) st).Running := by
  induction offers generalizing st with
  | nil => exact h
  | cons o offers ih =>
    exact ih (fun p hp => hoffers p (List.mem_cons_of_mem o hp))
      (h.update (hoffers o List.mem_cons_self) false)
/-- The same reasoning item. -/
structure SameReasoning (st st' : ResponsesStream) : Prop where
  opened : st'.reasoningItemOpened = st.reasoningItemOpened
  index : st'.reasoningIndex = st.reasoningIndex
  id : st'.reasoningId = st.reasoningId
  natural : st'.reasoningClosedNaturally = st.reasoningClosedNaturally
  text : st'.reasoningText = st.reasoningText

theorem SameReasoning.trans {st₁ st₂ st₃ : ResponsesStream} (h : SameReasoning st₁ st₂)
    (h' : SameReasoning st₂ st₃) : SameReasoning st₁ st₃ :=
  ⟨h'.opened.trans h.opened, h'.index.trans h.index, h'.id.trans h.id, h'.natural.trans h.natural,
    h'.text.trans h.text⟩

theorem SameReasoning.done {st st' : ResponsesStream} (h : SameReasoning st st') :
    st'.doneReasoning = st.doneReasoning := by
  simp [doneReasoning, reasoningItem, reasoningStatus, h.opened, h.index, h.id, h.natural, h.text]

theorem openMessageItem_reasoning (st : ResponsesStream) : SameReasoning st st.openMessageItem := by
  unfold ResponsesStream.openMessageItem
  split_ifs <;> exact ⟨rfl, rfl, rfl, rfl, rfl⟩

theorem openTextPart_reasoning (st : ResponsesStream) : SameReasoning st st.openTextPart := by
  unfold ResponsesStream.openTextPart
  split_ifs <;> exact ⟨rfl, rfl, rfl, rfl, rfl⟩

theorem outputTextDelta_reasoning (st : ResponsesStream) (text : Bytes) :
    SameReasoning st (st.outputTextDelta text) := by
  unfold ResponsesStream.outputTextDelta
  split_ifs <;> exact ⟨rfl, rfl, rfl, rfl, rfl⟩

theorem sendTextTo_reasoning (st : ResponsesStream) (raw : Bytes) (limit : Nat) :
    SameReasoning st (st.sendTextTo raw limit) := by
  unfold ResponsesStream.sendTextTo
  split_ifs
  · have := (openMessageItem_reasoning st).trans ((openTextPart_reasoning _).trans
      (outputTextDelta_reasoning _ (slice raw st.emitPos limit)))
    exact ⟨this.opened, this.index, this.id, this.natural, this.text⟩
  · exact ⟨rfl, rfl, rfl, rfl, rfl⟩

theorem reasoningDone_reasoning (st : ResponsesStream) : SameReasoning st st.reasoningDone := by
  unfold ResponsesStream.reasoningDone
  dsimp only
  split_ifs <;> exact ⟨rfl, rfl, rfl, rfl, rfl⟩

theorem closeReasoningItem_reasoning (st : ResponsesStream) :
    SameReasoning st st.closeReasoningItem := by
  unfold ResponsesStream.closeReasoningItem
  split_ifs
  · obtain ⟨h1, h2, h3, h4, h5⟩ := reasoningDone_reasoning st
    exact ⟨h1, h2, h3, h4, h5⟩
  · exact ⟨rfl, rfl, rfl, rfl, rfl⟩

theorem reasoningDone_message (st : ResponsesStream) :
    st.reasoningDone.messageItemClosed = st.messageItemClosed := by
  unfold ResponsesStream.reasoningDone
  dsimp only
  split_ifs <;> rfl

theorem closeReasoningItem_message (st : ResponsesStream) :
    st.closeReasoningItem.messageItemClosed = st.messageItemClosed := by
  unfold ResponsesStream.closeReasoningItem
  split_ifs
  · exact reasoningDone_message st
  · rfl

theorem Flags.closeReasoningItem (h : st.Flags) : st.closeReasoningItem.Flags := by
  obtain ⟨f1, f2, f3, f4⟩ := h
  unfold ResponsesStream.closeReasoningItem
  split_ifs
  · rw [ResponsesStream.reasoningDone]
    dsimp only
    split_ifs <;> exact ⟨f1, f2, f3, f4⟩
  · exact ⟨f1, f2, f3, f4⟩

/-- The stream in front of the calls. -/
structure Ending (st : ResponsesStream) : Prop where
  growing : st.Growing .done st.doneReasoning
  flags : st.Flags
  messageOpen : st.messageItemClosed = false

theorem Running.ending (h : st.Running) : st.closeReasoningItem.Ending := by
  refine ⟨?_, h.flags.closeReasoningItem, (closeReasoningItem_message st).trans h.messageOpen⟩
  rw [(closeReasoningItem_reasoning st).done]
  exact h.closeReasoningItem

theorem Ending.sendTextTo (h : st.Ending) {raw : Bytes} (hraw : 0 ∉ raw) (limit : Nat) :
    (st.sendTextTo raw limit).Ending := by
  refine ⟨?_, h.flags.sendTextTo raw limit, ?_⟩
  · rw [(sendTextTo_reasoning st raw limit).done]
    exact h.growing.sendTextTo hraw limit
  · exact (sendTextTo_same st raw limit).messageClosed.trans h.messageOpen

theorem Ending.indexes (h : st.Ending) (finish : Option Bytes) :
    (st.doneReasoning ++ st.doneMessage finish).map Prod.fst =
        indexes (st.doneReasoning ++ st.doneMessage finish).length ∧
      st.nextOutputIndex = (st.doneReasoning ++ st.doneMessage finish).length := by
  have hr := h.growing.reasoningIndex
  have hm := h.growing.messageIndex
  have hn := h.growing.next
  cases hro : st.reasoningItemOpened <;> cases hmo : st.messageItemOpened <;>
    simp_all [doneReasoning, doneMessage, Ds4.Server.indexes, List.range_succ]

theorem closeMessageItem_next (finish : Option Bytes) :
    (st.closeMessageItem finish).nextOutputIndex = st.nextOutputIndex := by
  unfold ResponsesStream.closeMessageItem
  split_ifs <;> rfl

theorem closeMessageItem_output (calls : List (IdentifiedCall × ToolItem)) (finish : Option Bytes) :
    (st.closeMessageItem finish).output r calls finish = st.output r calls finish := by
  unfold ResponsesStream.closeMessageItem
  split_ifs
  · change (st.messageDone finish).output r calls finish = st.output r calls finish
    simp only [messageDone, emit_output]
  · rfl

theorem Ending.output (h : st.Ending) (calls : List (IdentifiedCall × ToolItem))
    (finish : Option Bytes) :
    st.output r calls finish = (st.doneReasoning ++ st.doneMessage finish ++
      calls.map (doneCall r finish)).map Prod.snd := by
  obtain ⟨-, f2, -, f4⟩ := h.flags
  unfold ResponsesStream.output doneReasoning doneMessage
  rw [f2, f4]
  cases st.reasoningItemOpened <;> cases st.messageItemOpened <;> simp [doneCall]

theorem mapIdx_indexes (ids : ResponsesIds) (start : Nat) (calls : List IdentifiedCall) :
    (calls.mapIdx fun i tc => (tc, toolItem ids start i tc)).map (fun call => call.2.outputIndex) =
      (List.range' start calls.length).map fun i : Nat => (i : Int) := by
  apply List.ext_getElem
  · simp
  · intro i h1 h2
    simp [toolItem]

theorem indexes_append (m n : Nat) :
    indexes m ++ (List.range' m n).map (fun i : Nat => (i : Int)) = indexes (m + n) := by
  rw [indexes, indexes, ← List.map_append, List.range_eq_range', List.range_eq_range',
    ← List.range'_append_1, Nat.zero_add]

theorem nodup_indexes (n : Nat) : (indexes n).Nodup :=
  List.nodup_range.map fun _ _ h => Int.ofNat.inj h

/-- **The events of a response are well formed.** -/
theorem run_wellFormed (r : ResponsesRequest) (ids : ResponsesIds) {offers : List Offer}
    {last : Offer} (hoffers : ∀ o ∈ offers, 0 ∉ o.raw) (hlast : 0 ∉ last.raw)
    (recoveredContent : Option Bytes) (calls : List IdentifiedCall) (finish : Option Bytes)
    (promptTokens completionTokens createdAt : Int) :
    ∃ response, WellFormed (run r ids offers last recoveredContent calls finish promptTokens
      completionTokens createdAt).sent response := by
  have hupdated := (running_updates (r := r) hoffers (running_created r ids createdAt)).update
    (r := r) hlast true
  unfold run finishLive
  dsimp only
  generalize (offers.foldl (fun st o => st.update r o false) ((init r ids).created r createdAt)).update
    r last true = st at hupdated
  have hend : Ending (if recoveredContent.isSome = true then
      st.closeReasoningItem.sendTextTo last.raw last.rawLen else st.closeReasoningItem) := by
    split_ifs
    · exact hupdated.ending.sendTextTo hlast _
    · exact hupdated.ending
  generalize (if recoveredContent.isSome = true then
      st.closeReasoningItem.sendTextTo last.raw last.rawLen else st.closeReasoningItem) = st₁ at hend
  obtain ⟨hfst, hnext⟩ := hend.indexes finish
  have hlog : Log ((st₁.closeMessageItem finish).reserve calls.length).sent
      ((st₁.closeMessageItem finish).reserve calls.length).sequence _ _ :=
    closeMessageItem_log hend.growing hend.messageOpen finish
  rw [closeMessageItem_next, hnext]
  have hnumbers := mapIdx_indexes ids (st₁.doneReasoning ++ st₁.doneMessage finish).length calls
  generalize hitems : calls.mapIdx (fun i tc => (tc, toolItem ids
    (st₁.doneReasoning ++ st₁.doneMessage finish).length i tc)) = items at hnumbers ⊢
  have hlen : items.length = calls.length := by simp [← hitems]
  have hall : (st₁.doneReasoning ++ st₁.doneMessage finish).map Prod.fst ++
      items.map (fun call => call.2.outputIndex) = indexes
        ((st₁.doneReasoning ++ st₁.doneMessage finish).length + calls.length) := by
    rw [hfst, hnumbers, indexes_append]
  have hcalls := log_calls r finish hlog (hall ▸ nodup_indexes _)
  refine ⟨_, wellFormed_terminal _ hcalls (eq_numbered ?_ ?_)⟩
  · rw [List.map_append, List.map_map, List.length_append, List.length_map, hlen]
    exact hall
  · dsimp only
    rw [foldl_sendCall_output]
    exact ((closeMessageItem_output items finish).trans (hend.output items finish)).symm

theorem run_wellFormed_call :
    ∃ response, WellFormed (run ⟨true, true, true, lit "m", [], 0, 0⟩
      ⟨lit "resp", lit "rs", lit "msg", fun _ => lit "fc", fun _ => lit "call"⟩
      [⟨lit "plan</think>ok", 8⟩] ⟨lit "plan</think>ok <tool_calls>", 27⟩ none
      [⟨⟨lit "f", lit "\x7b\x7d"⟩, none⟩] (some (lit "tool_calls")) 3 9 0).sent response :=
  run_wellFormed _ _ (by decide) (by decide) _ _ _ _ _ _

/-- The text of the pieces of a feed. -/
def pieceText (ns : List (Notice Int UInt8)) : Bytes :=
  ns.flatMap fun
    | .piece _ t => t
    | _ => []

theorem pieceText_of_wellFormed {events : List (Int × ResponsesEvent)} {response : TerminalResponse}
    (h : WellFormed events response) :
    ∀ e ∈ doneItems events, pieceText ((notices events).filter fun n => n.index = e.1) = e.2.text := by
  intro e he
  rw [h.done] at he
  obtain ⟨pieces, k, hp, hfilter⟩ := h.lifecycle e he
  have hpieces : ∀ l : List Bytes, pieceText (l.map (.piece e.1)) = l.flatten := by
    intro l
    induction l with
    | nil => rfl
    | cons t l ih => exact congrArg (t ++ ·) ih
  have hwhole : pieceText (List.replicate k (.whole e.1 e.2.text)) = [] := by
    simp [pieceText]
  rw [hfilter, pieceText, List.flatMap_append, List.flatMap_append, List.flatMap_cons, ← pieceText,
    ← pieceText, hwhole, hpieces, hp]
  simp

/-- A text with a NUL: the deltas are `a` and `b`, and the item is reported as `a`. -/
theorem not_run_wellFormed :
    ¬ ∃ response, WellFormed (run ⟨false, false, false, lit "m", [], 0, 0⟩
      ⟨lit "resp", lit "rs", lit "msg", fun _ => lit "fc", fun _ => lit "call"⟩ [⟨[97, 0], 2⟩]
      ⟨[97, 0, 98], 3⟩ none [] (some (lit "stop")) 3 3 0).sent response := by
  rintro ⟨response, h⟩
  have := pieceText_of_wellFormed h
  revert this
  decide

end ResponsesStream

end Ds4.Server
