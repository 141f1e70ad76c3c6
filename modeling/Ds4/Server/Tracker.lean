import Ds4.Lib.Growing
import Ds4.Server.StreamText

/-!
# The decode tracker

`dsml_decode_tracker_update` follows a generated text through its tool calls: where the next token
stands decides how it is sampled. It is called with the whole text after every token and goes on
from where it stopped. A round of its loops either goes on or returns (`trackTurn`), and it returns
where only more text can tell.
-/

namespace Ds4.Server

open Ds4.Lib

/-! ## Marks in a text -/

/-- `raw_full_lit`. -/
def rawFullLit (raw : Bytes) (pos : Nat) (l : Bytes) : Prop := pos ≤ raw.length ∧ l <+: raw.drop pos

/-- `raw_partial_lit`. -/
def rawPartialLit (raw : Bytes) (pos : Nat) (l : Bytes) : Prop :=
  pos ≤ raw.length ∧ raw.length - pos < l.length ∧ raw.drop pos <+: l

instance (raw : Bytes) (pos : Nat) (l : Bytes) : Decidable (rawFullLit raw pos l) :=
  inferInstanceAs (Decidable (_ ∧ _))

instance (raw : Bytes) (pos : Nat) (l : Bytes) : Decidable (rawPartialLit raw pos l) :=
  inferInstanceAs (Decidable (_ ∧ _ ∧ _))

/-- `find_lit_bounded` from `start` on: the place of the mark. -/
def findLitBounded (raw : Bytes) (start : Nat) (l : Bytes) : Option Nat :=
  (strstr (raw.drop start) l).map fun t => raw.length - t.length

/-! ## Syntaxes -/

/-- Neither mark begins with the other. -/
def Apart (a b : Bytes) : Prop := ¬ a <+: b ∧ ¬ b <+: a

instance (a b : Bytes) : Decidable (Apart a b) := inferInstanceAs (Decidable (_ ∧ _))

/-- `dsml_syntax`. No two of the tags that the tracker tells apart begin alike. -/
structure DsmlSyntax extends DsmlMarks where
  apart : [toolCallsEnd, invokeEnd, invokeStart, paramStart].Pairwise Apart
  ne_nil : toolCallsStart ≠ [] ∧ invokeEnd ≠ [] ∧ paramEnd ≠ []

/-- The syntax of a DSML style. -/
def DsmlStyle.tagSyntax (style : DsmlStyle) : DsmlSyntax where
  toDsmlMarks := style.marks
  apart := by cases style <;> decide
  ne_nil := by cases style <;> decide

/-- `dsml_syntaxes`. -/
def dsmlSyntaxes : List DsmlSyntax :=
  [DsmlStyle.dsml41.tagSyntax, DsmlStyle.dsml.tagSyntax, DsmlStyle.short.tagSyntax, DsmlStyle.plain.tagSyntax]

/-- `glm_tool_syntax`. -/
def glmToolSyntax : DsmlSyntax where
  toolCallsStart := lit "<tool_call>"
  toolCallsEnd := lit "</tool_call>"
  invokeStart := lit "<arg_key>"
  invokeEnd := lit "</arg_key>"
  paramStart := lit "<arg_value>"
  paramEnd := lit "</arg_value>"
  apart := by decide
  ne_nil := by decide

/-- `qwen_tool_syntax`. -/
def qwenToolSyntax : DsmlSyntax where
  toolCallsStart := lit "<tool_call>"
  toolCallsEnd := lit "</tool_call>"
  invokeStart := lit "<function="
  invokeEnd := lit "</function>"
  paramStart := lit "<parameter="
  paramEnd := lit "</parameter>"
  apart := by decide
  ne_nil := by decide

/-- `dsml_max_tool_start_len`. -/
def dsmlMaxToolStartLen : Nat :=
  dsmlSyntaxes.foldl (fun best syn => max best syn.toolCallsStart.length) 0

/-- One round of the loop of `dsml_find_tool_start`. -/
def earlierStart (raw : Bytes) (start : Nat) (best : Option (Nat × DsmlSyntax)) (syn : DsmlSyntax) :
    Option (Nat × DsmlSyntax) :=
  match findLitBounded raw start syn.toolCallsStart, best with
  | none, best => best
  | some p, none => some (p, syn)
  | some p, some (b, s) => if p < b then some (p, syn) else some (b, s)

/-- `dsml_find_tool_start_from`: the place behind the first mark, and its syntax. -/
def dsmlFindToolStartFrom (raw : Bytes) (start : Nat) : Option (Nat × DsmlSyntax) :=
  if raw.length < start then none
  else (dsmlSyntaxes.foldl (earlierStart raw start) none).map
    fun (b, syn) => (b + syn.toolCallsStart.length, syn)

/-- `dsml_attr_is_string_true`. -/
def dsmlAttrIsStringTrue (raw : Bytes) (tagStart tagEnd : Nat) : Bool :=
  if tagEnd ≤ tagStart ∨ raw.length < tagEnd then false
  else dsmlAttr (cString (slice raw tagStart tagEnd)) (lit "string") == some (lit "true")

/-! ## The tracker -/

/-- `dsml_decode_state`. -/
inductive DsmlDecodeState
  | outside
  | structural
  | stringBody
  | jsonStructural
  | jsonString
  deriving DecidableEq

/-- `dsml_track_mode`, with the syntax `syn` that was found. -/
inductive DsmlTrackMode
  | search
  | structural (syn : DsmlSyntax)
  | stringBody (syn : DsmlSyntax)
  | jsonParam (syn : DsmlSyntax)
  | done (syn : DsmlSyntax)

/-- Where a tracker stands. -/
structure DsmlPlace where
  mode : DsmlTrackMode
  pos : Nat
  jsonInString : Bool
  jsonEscaped : Bool

/-- `dsml_decode_tracker`. -/
structure DsmlDecodeTracker where
  place : DsmlPlace
  decode : DsmlDecodeState
  modelSyntax : ServerModelSyntax

/-- `dsml_decode_tracker_init`. -/
def dsmlDecodeTrackerInit (modelSyntax : ServerModelSyntax) : DsmlDecodeTracker where
  place := ⟨.search, 0, false, false⟩
  decode := .outside
  modelSyntax := modelSyntax

/-- A round of a loop: it goes on, or it returns with a decode state. What the source writes to
`decode` before it goes on is written again before it returns. -/
abbrev TrackTurn := DsmlPlace ⊕ (DsmlPlace × DsmlDecodeState)

/-- The tool start that the search looks for. -/
def trackFindStart (modelSyntax : ServerModelSyntax) (raw : Bytes) (start : Nat) :
    Option (Nat × DsmlSyntax) :=
  match modelSyntax with
  | .glm => (findLitBounded raw start glmToolSyntax.toolCallsStart).map
      fun b => (b + glmToolSyntax.toolCallsStart.length, glmToolSyntax)
  | .qwen => (findLitBounded raw start qwenToolSyntax.toolCallsStart).map
      fun b => (b + qwenToolSyntax.toolCallsStart.length, qwenToolSyntax)
  | .deepseek | .deepseek41 => dsmlFindToolStartFrom raw start

/-- `DSML_TRACK_SEARCH`. -/
def searchTurn (modelSyntax : ServerModelSyntax) (raw : Bytes) (p : DsmlPlace) : TrackTurn :=
  match trackFindStart modelSyntax raw p.pos with
  | none =>
    let hold := dsmlMaxToolStartLen
    .inr ({ p with pos := if hold < raw.length then raw.length - hold else 0 }, .outside)
  | some (pos, syn) => .inl { p with mode := .structural syn, pos := pos }

/-- A round of `DSML_TRACK_STRING_BODY`. -/
def stringTurn (syn : DsmlSyntax) (raw : Bytes) (p : DsmlPlace) : TrackTurn :=
  if p.pos < raw.length then
    if rawFullLit raw p.pos syn.paramEnd then
      .inl { p with mode := .structural syn, pos := p.pos + syn.paramEnd.length }
    else if rawPartialLit raw p.pos syn.paramEnd then
      .inr (p, if 2 ≤ raw.length - p.pos then .structural else .stringBody)
    else .inl { p with pos := p.pos + 1 }
  else .inr (p, .stringBody)

/-- A byte of a JSON parameter. -/
def jsonByte (p : DsmlPlace) (c : UInt8) : DsmlPlace :=
  let p := { p with pos := p.pos + 1 }
  if p.jsonInString then
    if p.jsonEscaped then { p with jsonEscaped := false }
    else if c = 92 then { p with jsonEscaped := true }
    else if c = 34 then { p with jsonInString := false }
    else p
  else if c = 34 then { p with jsonInString := true }
  else p

/-- A round of `DSML_TRACK_JSON_PARAM`. -/
def jsonTurn (syn : DsmlSyntax) (raw : Bytes) (p : DsmlPlace) : TrackTurn :=
  if p.pos < raw.length then
    if !p.jsonInString ∧ rawFullLit raw p.pos syn.paramEnd then
      .inl { p with mode := .structural syn, pos := p.pos + syn.paramEnd.length }
    else if !p.jsonInString ∧ rawPartialLit raw p.pos syn.paramEnd then
      .inr (p, if 2 ≤ raw.length - p.pos then .structural else .jsonStructural)
    else .inl (jsonByte p (raw.getD p.pos 0))
  else .inr (p, if p.jsonInString then .jsonString else .jsonStructural)

/-- The place behind the white space. -/
def skipSpace (raw : Bytes) (pos : Nat) : Nat := pos + ((raw.drop pos).takeWhile isSpace).length

/-- A parameter begins behind its tag. -/
def startParam (modelSyntax : ServerModelSyntax) (syn : DsmlSyntax) (raw : Bytes) (p : DsmlPlace)
    (tagAfter : Nat) : DsmlPlace :=
  let stringValue := modelSyntax = .glm ∨ modelSyntax = .qwen ∨
    dsmlAttrIsStringTrue raw p.pos tagAfter
  if stringValue then { p with mode := .stringBody syn, pos := tagAfter }
  else { mode := .jsonParam syn, pos := tagAfter, jsonInString := false, jsonEscaped := false }

/-- A round of `DSML_TRACK_STRUCTURAL` behind the white space. -/
def tagTurn (modelSyntax : ServerModelSyntax) (syn : DsmlSyntax) (raw : Bytes) (p : DsmlPlace) :
    TrackTurn :=
  if raw.length ≤ p.pos then .inr (p, .structural)
  else if rawFullLit raw p.pos syn.toolCallsEnd then
    .inr ({ p with mode := .done syn, pos := p.pos + syn.toolCallsEnd.length }, .outside)
  else if rawFullLit raw p.pos syn.invokeEnd then
    .inl { p with pos := p.pos + syn.invokeEnd.length }
  else if rawFullLit raw p.pos syn.invokeStart then
    match findLitBounded raw p.pos [62] with
    | none => .inr (p, .structural)
    | some tagEnd => .inl { p with pos := tagEnd + 1 }
  else if rawFullLit raw p.pos syn.paramStart then
    match findLitBounded raw p.pos [62] with
    | none => .inr (p, .structural)
    | some tagEnd => .inl (startParam modelSyntax syn raw p (tagEnd + 1))
  else if rawPartialLit raw p.pos syn.toolCallsEnd ∨ rawPartialLit raw p.pos syn.invokeStart ∨
      rawPartialLit raw p.pos syn.invokeEnd ∨ rawPartialLit raw p.pos syn.paramStart ∨
      rawPartialLit raw p.pos syn.paramEnd then
    .inr (p, .structural)
  else if modelSyntax = .glm then .inl { p with pos := p.pos + 1 }
  else .inr (p, .structural)

/-- A round of the loops of `dsml_decode_tracker_update`. -/
def trackTurn (modelSyntax : ServerModelSyntax) (raw : Bytes) (p : DsmlPlace) : TrackTurn :=
  match p.mode with
  | .done _ => .inr (p, .outside)
  | .search => searchTurn modelSyntax raw p
  | .stringBody syn => stringTurn syn raw p
  | .jsonParam syn => jsonTurn syn raw p
  | .structural syn => tagTurn modelSyntax syn raw { p with pos := skipSpace raw p.pos }

/-- `dsml_decode_tracker_update`. A round for each byte and one to return are enough
(`exists_readAll`). -/
def dsmlDecodeTrackerUpdate (dt : DsmlDecodeTracker) (raw : Bytes) : DsmlDecodeTracker :=
  match Growing.readAll (trackTurn dt.modelSyntax) raw dt.place with
  | some (place, decode) => { dt with place := place, decode := decode }
  | none => dt

end Ds4.Server
