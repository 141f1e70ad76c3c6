import Ds4.Lib.LineText

/-!
# The read and more tools

`agent_read_range_from` reads lines of a file up to a number of lines and a number of bytes, and leaves
where the next call goes on. What a round of its loop reads is a token of the file: a byte, or a line
ending, with `fgetc` and `ungetc` looking behind a CR for its LF.
-/

namespace Ds4.Agent

open Ds4.Lib

/-! ## Arguments -/

/-- `INT_MAX`. -/
def intMax : Nat := 2147483647

/-- The digits that `strtol` reads, as a number. -/
def digitsValue (digits : Bytes) : Nat := digits.foldl (fun v c => 10 * v + (c.toNat - 48)) 0

/-- `strtol` in base 10, with the text behind the number; a `long` has 64 bits. -/
def strtol (s : Bytes) : Option (Int × Bytes) :=
  let body := s.dropWhile isSpace
  let (negative, body) := match body with
    | 45 :: r => (true, r)
    | 43 :: r => (false, r)
    | r => (false, r)
  let digits := body.takeWhile fun c => 48 ≤ c && c ≤ 57
  let value : Int := if negative then -(digitsValue digits : Int) else digitsValue digits
  if digits = [] then none
  else some (max (-2 ^ 63) (min (2 ^ 63 - 1) value), body.dropWhile fun c => 48 ≤ c && c ≤ 57)

/-- `agent_parse_int_default`. -/
def agentParseIntDefault (s : Option Bytes) (default min max : Int) : Int :=
  match strtol (s.getD []) with
  | none => default
  | some (v, rest) =>
    if (rest.dropWhile fun c => c == 32 || c == 9 || c == 13 || c == 10) ≠ [] then default
    else
      let v := if v < min then min else v
      if v > max then max else v

/-- Lower case of an ASCII letter, as `strcasecmp` compares. -/
def foldCase (s : Bytes) : Bytes := s.map fun c => if 65 ≤ c ∧ c ≤ 90 then c + 32 else c

/-- `agent_parse_bool_default`. -/
def agentParseBoolDefault (s : Option Bytes) (default : Bool) : Bool :=
  let s := s.getD []
  if s = [] then default
  else if foldCase s = lit "true" ∨ foldCase s = lit "yes" ∨ s = lit "1" then true
  else if foldCase s = lit "false" ∨ foldCase s = lit "no" ∨ s = lit "0" then false
  else default

/-- `agent_read_default_lines`, for a context size. -/
def agentReadDefaultLines (ctx : Int) : Nat :=
  if ctx > 0 ∧ ctx ≤ 8192 then 120
  else if ctx > 0 ∧ ctx ≤ 16384 then 240
  else 500

/-! ## The loop -/

/-- `AGENT_TOOL_MAX_BYTES - 4096`. -/
def readBodyLimit : Nat := 128 * 1024 - 4096

/-- The label of a line. -/
def lineLabel (line : Nat) (beginning : Bool) : Bytes :=
  lit (toString line ++ (if beginning then "" else " (continued)") ++ " ")

/-- What the loop keeps. -/
structure ReadState where
  body : Bytes
  line : Nat
  lines : Nat
  beginning : Bool
  labelDue : Bool
  lastLine : Nat
  deriving DecidableEq

/-- What ends the loop early. -/
inductive ReadError
  | binary
  | overflow
  deriving DecidableEq

/-- The loop that looks for the first line. -/
def skipLoop (startLine : Nat) : Nat → List Token → Nat × List Token
  | line, [] => (line, [])
  | line, t :: ts =>
    if line < startLine then skipLoop startLine (if t.ending then line + 1 else line) ts
    else (line, t :: ts)

/-- The body is full in front of a byte; the rest of a character still fits. -/
def bodyFull (body : Bytes) (c : UInt8) : Bool :=
  readBodyLimit ≤ body.length && ((c &&& 0xc0) != 0x80 || readBodyLimit + 3 ≤ body.length)

/-- A round of the loop without its checks. -/
def ReadState.push (s : ReadState) (bare : Bool) (t : Token) : ReadState :=
  let body := s.body ++ (if s.labelDue && !bare then lineLabel s.line s.beginning else []) ++
    if bare then t.raw else t.plain
  if t.ending then
    { body, line := s.line + 1, lines := s.lines + 1, beginning := true, labelDue := true,
      lastLine := s.line }
  else { s with body, beginning := false, labelDue := false, lastLine := s.line }

/-- The loop of `agent_read_range_from`, with the tokens that it leaves. -/
def readLoop (whole : Bool) (maxLines : Nat) (bare : Bool) :
    List Token → ReadState → Except ReadError (ReadState × List Token)
  | [], s => .ok (s, [])
  | t :: ts, s =>
    if !whole && maxLines ≤ s.lines then .ok (s, t :: ts)
    else if bodyFull s.body (t.raw.headD 0) then .ok (s, t :: ts)
    else if t.raw.headD 0 = 0 then .error .binary
    else if t.ending && s.line == intMax then .error .overflow
    else readLoop whole maxLines bare ts (s.push bare t)

/-! ## The tools -/

/-- Where the next `more` goes on. -/
structure More where
  path : String
  nextLine : Nat
  bare : Bool
  valid : Bool
  byteOffset : Nat
  midLine : Bool
  deriving DecidableEq

/-- `agent_worker_set_more`. -/
def agentWorkerSetMore (path : Option String) (nextLine : Nat) (bare : Bool) : More :=
  { path := path.getD "", nextLine, bare, valid := path.getD "" ≠ "" && 0 < nextLine,
    byteOffset := 0, midLine := false }

/-- What the calls on the file meet. -/
structure FileCalls where
  openError : Option String
  content : Bytes
  seek : Bool
  read : Bool
  tell : Bool
  peek : Bool
  strerror : String

/-- What a read puts out. -/
structure ReadReport where
  path : String
  startLine : Nat
  lastLine : Nat
  bare : Bool
  body : Bytes
  more : Bool
  line : Nat
  nextOffset : Nat
  withinLine : Bool
  deriving DecidableEq

/-- The text of a read. -/
def ReadReport.text (r : ReadReport) : Bytes :=
  (if r.bare then [] else
    lit (r.path ++ ": lines " ++ toString (if r.lastLine ≠ 0 then r.startLine else 0) ++ "-" ++
      toString r.lastLine ++ (if r.more then " (partial read)" else " (end of file)") ++ "\n")) ++
  r.body ++
  if r.more then
    lit ("\n[Read truncated. continue_offset=" ++ toString r.line ++ "; continue_byte_offset=" ++
      toString r.nextOffset ++ (if r.withinLine then " (within line)" else "") ++
      ". Call more to continue.]\n")
  else []

/-- The text of a read that fails. -/
def readFailed (strerror : String) : String := "Tool error: read failed: " ++ strerror ++ "\n"

/-- `agent_read_range_from` behind the opening of the file. -/
def readOpened (calls : FileCalls) (path : String) (startLine maxLines : Nat) (whole bare : Bool)
    (offset : Nat) (midLine : Bool) : Except String ReadReport :=
  if 0 < offset && !calls.seek then .error (readFailed calls.strerror)
  else
    let (line, ts) := if 0 < offset then (startLine, tokens (calls.content.drop offset))
      else skipLoop startLine 1 (tokens calls.content)
    match readLoop whole maxLines bare ts ⟨[], line, 0, !midLine, true, 0⟩ with
    | .error .binary => .error "Tool error: read encountered binary data\n"
    | .error .overflow => .error (readFailed "Value too large for defined data type")
    | .ok (s, rest) =>
      if !calls.read || !calls.tell || !calls.peek then .error (readFailed calls.strerror)
      else if whole && !rest.isEmpty then
        .error ("Tool error: whole read exceeds the 128 KiB output limit; " ++
          "use read and more for chunks\n")
      else
        .ok { path, startLine, lastLine := s.lastLine, bare, body := s.body, more := !rest.isEmpty,
              line := s.line, nextOffset := calls.content.length - (rawText rest).length,
              withinLine := !s.beginning }

/-- `agent_read_range_from`, with where the next call goes on. -/
def agentReadRangeFrom (calls : FileCalls) (more : More) (ctx : Int) (path : Option String)
    (startLine maxLines : Int) (whole bare setMore : Bool) (offset : Nat) (midLine : Bool) :
    Except String ReadReport × More :=
  if path.getD "" = "" then (.error "Tool error: read requires path\n", more)
  else
    let path := path.getD ""
    let startLine := if startLine < 1 then 1 else startLine.toNat
    let maxLines := if maxLines ≤ 0 then agentReadDefaultLines ctx else maxLines.toNat
    let result : Except String ReadReport := match calls.openError with
      | some error => .error (readFailed error)
      | none => readOpened calls path startLine maxLines whole bare offset midLine
    match result with
    | .error error => (.error error, if setMore then agentWorkerSetMore none 0 false else more)
    | .ok r =>
      (.ok r,
        if setMore then
          { agentWorkerSetMore (if r.more then some path else none) (if r.more then r.line else 0)
              bare with
            byteOffset := r.nextOffset, midLine := r.withinLine }
        else more)

/-- `agent_tool_read`. -/
def agentToolRead (calls : FileCalls) (more : More) (ctx : Int) (path : Option String)
    (whole startLine maxLines raw : Option Bytes) : Except String ReadReport × More :=
  agentReadRangeFrom calls more ctx path
    (agentParseIntDefault startLine 1 1 intMax)
    (agentParseIntDefault maxLines (agentReadDefaultLines ctx) 1 intMax)
    (agentParseBoolDefault whole false) (agentParseBoolDefault raw false) true 0 false

/-- `agent_tool_more`. -/
def agentToolMore (calls : FileCalls) (more : More) (ctx : Int) (count : Option Bytes) :
    Except String ReadReport × More :=
  if !more.valid then (.error "Tool error: no previous output to continue\n", more)
  else
    agentReadRangeFrom calls more ctx (some more.path) more.nextLine
      (agentParseIntDefault count (agentReadDefaultLines ctx) 1 intMax) false more.bare true
      more.byteOffset more.midLine

end Ds4.Agent
