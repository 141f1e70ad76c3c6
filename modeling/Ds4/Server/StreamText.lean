import Ds4.Server.Parse
import Mathlib.Data.List.GetD

/-!
# What a stream may send

A stream is offered a buffer `raw` and the length of it that may be sent. It keeps the place up to
which it has sent, and decides from the buffer how far it may go: not into a mark that may begin,
not into the white space in front of one, not into a character whose bytes are not all there.
-/

namespace Ds4.Server

open Ds4.Lib

/-! ## Places -/

/-- The place of what a search finds in the C string at `start`. -/
def findAt (find : Bytes → Option Bytes) (raw : Bytes) (start : Nat) : Option Nat :=
  let s := cString (raw.drop start)
  (find s).map fun t => start + (s.length - t.length)

/-- The bytes from `start` to `limit`. -/
def slice (raw : Bytes) (start limit : Nat) : Bytes := (raw.drop start).take (limit - start)

theorem getD_of_isPrefix {a b : Bytes} (h : a <+: b) {i : Nat} (hi : i < a.length) :
    b.getD i 0 = a.getD i 0 := by
  obtain ⟨t, rfl⟩ := h
  rw [List.getD_append _ _ _ _ hi]

theorem getD_of_isPrefix_drop {a b : Bytes} {q i : Nat} (h : a <+: b.drop q) (hq : q ≤ i)
    (hi : i < q + a.length) : b.getD i 0 = a.getD (i - q) 0 := by
  rw [← getD_of_isPrefix h (by omega), List.getD_eq_getElem?_getD, List.getD_eq_getElem?_getD,
    List.getElem?_drop, Nat.add_sub_cancel' hq]

theorem slice_append_drop {b : Bytes} {start limit : Nat} (h : start ≤ limit) :
    slice b start limit ++ b.drop limit = b.drop start := by
  have := List.take_append_drop (limit - start) (b.drop start)
  rwa [List.drop_drop, Nat.add_sub_cancel' h] at this

theorem length_slice {b : Bytes} {start limit : Nat} (h : limit ≤ b.length) :
    (slice b start limit).length = limit - start := by
  rw [slice, List.length_take, List.length_drop]
  omega

theorem getD_slice {b : Bytes} {start limit i : Nat} (h : limit ≤ b.length) (hi : i < limit - start) :
    (slice b start limit).getD i 0 = b.getD (start + i) 0 := by
  have hp : slice b start limit <+: b.drop start := List.take_prefix _ _
  have := getD_of_isPrefix_drop (i := start + i) hp (by omega) (by rw [length_slice h]; omega)
  rw [this, Nat.add_sub_cancel_left]

theorem slice_of_isPrefix {a b : Bytes} (h : a <+: b) {start limit : Nat} (hl : limit ≤ a.length) :
    slice a start limit = slice b start limit := by
  obtain ⟨t, rfl⟩ := h
  rcases Nat.le_total limit start with hs | hs
  · rw [slice, slice, Nat.sub_eq_zero_of_le hs, List.take_zero, List.take_zero]
  · rw [slice, slice, List.drop_append_of_le_length (by omega), List.take_append_of_le_length]
    rw [List.length_drop]
    omega

/-- `</think>` from `start` on. -/
def findThinkEnd (raw : Bytes) (start : Nat) : Option Nat :=
  findAt (fun s => strstr s thinkEnd) raw start

/-- A tool mark from `start` on, for a request with tools. -/
def findTool (hasTools : Bool) (raw : Bytes) (start : Nat) : Option Nat :=
  if hasTools then findAt findAnyToolStart raw start else none

/-- The tool mark at `tool` stands in front of the close. -/
def toolBeforeClose (tool close : Option Nat) : Bool :=
  match tool, close with
  | none, _ => false
  | some _, none => true
  | some t, some c => t < c

/-- The block of the tool mark at `tool` has an end. -/
def completeTool (raw : Bytes) (tool : Option Nat) : Bool :=
  match tool with
  | none => false
  | some t => (findAt findAnyToolEnd raw t).isSome

/-! ## Limits -/

/-- `trim_tool_separator_ws`. -/
def trimToolSeparatorWs (raw : Bytes) (start : Nat) : Nat → Nat
  | 0 => 0
  | limit + 1 =>
    if start < limit + 1 ∧ isSpace (raw.getD limit 0) then trimToolSeparatorWs raw start limit
    else limit + 1

/-- `utf8_expected_len`. -/
def utf8ExpectedLen (c : UInt8) : Nat :=
  if c < 0x80 then 1
  else if 0xc2 ≤ c ∧ c ≤ 0xdf then 2
  else if 0xe0 ≤ c ∧ c ≤ 0xef then 3
  else if 0xf0 ≤ c ∧ c ≤ 0xf4 then 4
  else 1

/-- A byte that continues a character. -/
def isContinuation (c : UInt8) : Bool := c &&& 0xc0 == 0x80

/-- The place in front of at most `n` continuation bytes. -/
def utf8Back (s : Bytes) (start : Nat) : Nat → Nat → Nat
  | 0, p => p
  | n + 1, p =>
    if start < p ∧ isContinuation (s.getD (p - 1) 0) then utf8Back s start n (p - 1) else p

/-- `utf8_stream_safe_len`. -/
def utf8StreamSafeLen (s : Bytes) (start limit : Nat) (final : Bool) : Nat :=
  if final ∨ limit ≤ start then limit
  else
    let p := utf8Back s start 4 limit
    if p = limit then
      if 1 < utf8ExpectedLen (s.getD (limit - 1) 0) then limit - 1 else limit
    else if p = start ∧ isContinuation (s.getD p 0) then start
    else if limit - (p - 1) < utf8ExpectedLen (s.getD (p - 1) 0) then p - 1
    else limit

/-- The last `<` between `scan` and the given place. -/
def lastOpen (raw : Bytes) (scan : Nat) : Nat → Option Nat
  | 0 => none
  | i + 1 =>
    if i + 1 ≤ scan then none else if raw.getD i 0 = 60 then some i else lastOpen raw scan i

/-- `text_stream_safe_limit`. -/
def textStreamSafeLimit (raw : Bytes) (start rawLen : Nat) (hasTools final : Bool) : Nat :=
  if rawLen ≤ start then rawLen
  else if hasTools then
    match findAt findAnyToolStart raw start with
    | some tool => utf8StreamSafeLen raw start (trimToolSeparatorWs raw start tool) true
    | none =>
      if final then rawLen
      else
        -- a mark of tool calls is at most 80 bytes long
        let scan := if 80 < rawLen - start then rawLen - 80 else start
        let limit := trimToolSeparatorWs raw start rawLen
        let limit := match lastOpen raw scan rawLen with
          | some marker => min marker limit
          | none => limit
        utf8StreamSafeLen raw start (trimToolSeparatorWs raw start limit) false
  else utf8StreamSafeLen raw start rawLen final

/-- How far reasoning may be sent: up to a tool mark or a close, or short of a close that may
begin. -/
def thinkingLimit (raw : Bytes) (start rawLen : Nat) (tool close : Option Nat) (final : Bool) :
    Nat :=
  match toolBeforeClose tool close, tool, close with
  | true, some t, _ => trimToolSeparatorWs raw start t
  | _, _, some c => c
  | _, _, none =>
    if final then rawLen
    else utf8StreamSafeLen raw start (if 7 < rawLen then rawLen - 7 else start) false

/-- The prefix `<think>` may still come. -/
def thinkPrefixPending (raw : Bytes) (rawLen : Nat) (final : Bool) : Bool :=
  rawLen < thinkStart.length && decide (raw.take rawLen <+: thinkStart) && !final

/-- The place behind the prefix `<think>`, when the text begins with it. -/
def thinkPrefixPos (raw : Bytes) (rawLen emitPos : Nat) : Nat :=
  if thinkStart.length ≤ rawLen ∧ thinkStart <+: raw then thinkStart.length else emitPos

end Ds4.Server
