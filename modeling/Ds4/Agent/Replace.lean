import Ds4.Agent.Edit

/-!
# Replacing a file

`agent_replace_file` writes a new file next to the old one and renames it. Its calls run one after
another on a disk that holds both files; the outcome of each call is an argument, and a list of
transfers that ends early is a process that gets no further. The steps in front of the rename leave
the target alone (`keeps_prepare`), and what is renamed is the whole new content (`replace_ok`).
-/

namespace Ds4.Agent

open Ds4.Lib

/-! ## Calls -/

/-- The target of a replacement and the temporary file next to it. -/
structure Disk where
  target : Option Bytes
  temp : Option Bytes
  deriving DecidableEq

/-- Why a replacement ends early. -/
inductive ReplaceFailure
  | failed
  | refused
  | changed
  | stopped
  deriving DecidableEq

/-- What `agent_replace_file` reports. -/
def ReplaceFailure.text (path strerror : String) : ReplaceFailure → String
  | .failed => "replace " ++ path ++ ": " ++ strerror
  | .refused => "refusing to replace non-regular or hard-linked file: " ++ path
  | .changed => "file changed while editing; read it again: " ++ path
  | .stopped => ""

/-- What one `read` or `write` does. -/
inductive Transfer
  | interrupted
  | failed
  | moved (n : Nat)

/-- The outcomes of the calls of `agent_replace_file`. -/
structure ReplaceCalls where
  lstat : Bool
  realpath : Bool
  openSource : Bool
  fstat : Bool
  regular : Bool
  links : Nat
  reads : List Transfer
  pathFits : Bool
  tempFits : Bool
  mkstemp : Bool
  unlinkTemp : Bool
  reopenTemp : Bool
  writes : List Transfer
  fchown : Bool
  fchmod : Bool
  copyAttributes : Bool
  fsync : Bool
  close : Bool
  sameVersion : Bool
  rename : Bool
  link : Bool
  unlinkLinked : Bool
  cleanup : Bool

/-- A call on the disk: it fails, or the next one follows. -/
abbrev Step := Disk → Except (ReplaceFailure × Disk) Disk

/-- Calls one after another. -/
def runSteps : List Step → Step
  | [], d => .ok d
  | step :: steps, d => (step d).bind (runSteps steps)

/-- A call that changes nothing on the disk. -/
def check (ok : Bool) (failure : ReplaceFailure) : Step := fun d =>
  if ok then .ok d else .error (failure, d)

/-- The loop that compares the old file with the expected bytes. -/
def compareLoop : List Transfer → Bytes → Bytes → Except ReplaceFailure Unit
  | _, _, [] => .ok ()
  | [], _, _ => .error .stopped
  | .interrupted :: calls, file, expected => compareLoop calls file expected
  | .failed :: _, _, _ => .error .failed
  | .moved n :: calls, file, expected =>
    let got := file.take (min n (min 8192 expected.length))
    if got = [] ∨ ¬ got <+: expected then .error .changed
    else compareLoop calls (file.drop got.length) (expected.drop got.length)

/-- The loop that writes the rest of the new content behind what is in the temporary file. -/
def writeLoop : List Transfer → Bytes → Bytes → Except (ReplaceFailure × Bytes) Bytes
  | _, temp, [] => .ok temp
  | [], temp, _ => .error (.stopped, temp)
  | .interrupted :: calls, temp, rest => writeLoop calls temp rest
  | .failed :: _, temp, _ => .error (.failed, temp)
  | .moved n :: calls, temp, rest =>
    if n = 0 then .error (.failed, temp) else writeLoop calls (temp ++ rest.take n) (rest.drop n)

/-- The comparison of the old file with the bytes that the edit read. -/
def compareSource (calls : ReplaceCalls) (file : Bytes) (expected : Option Bytes) : Step := fun d =>
  match expected with
  | none => .ok d
  | some expected =>
    if file.length ≠ expected.length then .error (.changed, d)
    else match compareLoop calls.reads file expected with
      | .error failure => .error (failure, d)
      | .ok () => .ok d

/-- The checks of an old file. -/
def inspectOld (calls : ReplaceCalls) (file : Bytes) (expected : Option Bytes) : List Step :=
  [check calls.realpath .failed, check (calls.openSource && calls.fstat) .failed,
    check (calls.regular && calls.links == 1) .refused, compareSource calls file expected]

/-- The checks of a new file. -/
def inspectNew (calls : ReplaceCalls) (expected : Option Bytes) : List Step :=
  [check expected.isNone .changed, check calls.pathFits .failed]

/-- The checks in front of the temporary file. -/
def inspect (calls : ReplaceCalls) (expected : Option Bytes) : Step := fun d =>
  match d.target with
  | none => runSteps (inspectNew calls expected) d
  | some file => runSteps (inspectOld calls file expected) d

/-- `mkstemp`, and for a new file its replacement by one with the mode of the process. -/
def openTemp (calls : ReplaceCalls) : Step := fun d =>
  if !calls.mkstemp then .error (.failed, d)
  else if d.target.isSome then .ok { d with temp := some [] }
  else if !calls.unlinkTemp then .error (.failed, { d with temp := some [] })
  else if !calls.reopenTemp then .error (.failed, d)
  else .ok { d with temp := some [] }

/-- The write loop on the temporary file. -/
def writeTemp (calls : ReplaceCalls) (data : Bytes) : Step := fun d =>
  match writeLoop calls.writes [] data with
  | .error (failure, temp) => .error (failure, { d with temp := some temp })
  | .ok temp => .ok { d with temp := some temp }

/-- The attributes of an old file. -/
def copyMode (calls : ReplaceCalls) : Step := fun d =>
  if d.target.isSome then
    runSteps [check calls.fchown .failed, check calls.fchmod .failed,
      check calls.copyAttributes .failed] d
  else .ok d

/-- The calls in front of the commit. -/
def prepare (calls : ReplaceCalls) (data : Bytes) (expected : Option Bytes) : List Step :=
  [check calls.lstat .failed, inspect calls expected, check calls.tempFits .failed, openTemp calls,
    writeTemp calls data, copyMode calls, check calls.fsync .failed, check calls.close .failed]

/-- `rename` of the temporary file over an old one, `link` of it to a new one. -/
def commit (calls : ReplaceCalls) : Step := fun d =>
  if d.target.isSome then
    if !calls.sameVersion then .error (.changed, d)
    else if !calls.rename then .error (.failed, d)
    else .ok { target := d.temp, temp := none }
  else if !calls.link then .error (.failed, d)
  else .ok { target := d.temp, temp := if calls.unlinkLinked then none else d.temp }

/-- The removal of the temporary file behind `done`, by a process that is still there. -/
def abandon (calls : ReplaceCalls) (failure : ReplaceFailure) (d : Disk) : Disk :=
  if calls.cleanup && failure != .stopped then { d with temp := none } else d

/-- `agent_replace_file`, with the disk that it leaves. -/
def agentReplaceFile (calls : ReplaceCalls) (data : Bytes) (expected : Option Bytes) (d : Disk) :
    Except ReplaceFailure Unit × Disk :=
  match runSteps (prepare calls data expected ++ [commit calls]) d with
  | .ok d => (.ok (), d)
  | .error (failure, d) => (.error failure, abandon calls failure d)

/-! ## Tools -/

/-- `AGENT_FILE_MAX_BYTES`. -/
def agentFileMaxBytes : Nat := 16 * 1024 * 1024

/-- What `agent_read_file_bytes` meets: an error of the opening or a content, and an error of a read. -/
structure ReadCalls where
  openError : Option String
  readError : Option String

/-- `agent_read_file_bytes`. -/
def agentReadFileBytes (path : String) (calls : ReadCalls) (file : Option Bytes) :
    Except String Bytes :=
  match file, calls.openError with
  | _, some error => .error ("open " ++ path ++ ": " ++ error)
  | none, none => .error ("open " ++ path ++ ": No such file or directory")
  | some data, none =>
    if data.length > agentFileMaxBytes then
      .error ("file too large: " ++ path ++ " exceeds 16777216 bytes")
    else match calls.readError with
      | some error => .error ("read " ++ path ++ ": " ++ error)
      | none => .ok data

/-- `agent_preflight_edit_old`. -/
def agentPreflightEditOld (path : Option String) (old : Option Bytes) (allowUpto : Bool)
    (reads : ReadCalls) (file : Option Bytes) : Except String Unit :=
  match path with
  | none => .ok ()
  | some path =>
    if path = "" then .ok ()
    else if old.getD [] = [] then .error "edit requires non-empty old text"
    else (agentReadFileBytes path reads file).bind fun data =>
      (agentEditFindOldSpan data (old.getD []) allowUpto).map fun _ => ()

/-- The text of an error of a tool. -/
def toolError (text : String) : String := "Tool error: " ++ text ++ "\n"

/-- The new content in `agent_apply_file_splice`. -/
def splice (data : Bytes) (offset removeLen : Nat) (insert : Bytes) : Bytes :=
  data.take offset ++ insert ++ data.drop (offset + removeLen)

/-- `agent_apply_file_splice`, with the first line of its report. -/
def agentApplyFileSplice (path strerror : String) (calls : ReplaceCalls) (data : Bytes)
    (offset removeLen : Nat) (insert : Bytes) (kind : String) (d : Disk) :
    Except String String × Disk :=
  match agentReplaceFile calls (splice data offset removeLen insert) (some data) d with
  | (.error failure, d) => (.error (toolError (failure.text path strerror)), d)
  | (.ok (), d) => (.ok ("Edited " ++ path ++ " using " ++ kind ++ "\n"), d)

/-- `agent_tool_edit`. -/
def agentToolEdit (path : Option String) (old new : Option Bytes) (allowUpto : Bool)
    (reads : ReadCalls) (strerror : String) (calls : ReplaceCalls) (d : Disk) :
    Except String String × Disk :=
  if path.getD "" = "" then (.error "Tool error: edit requires path\n", d)
  else if old.getD [] = [] then (.error "Tool error: edit requires non-empty old text\n", d)
  else match new with
  | none => (.error "Tool error: edit requires new text\n", d)
  | some new =>
    match agentReadFileBytes (path.getD "") reads d.target with
    | .error error => (.error (toolError error), d)
    | .ok data =>
      match agentEditFindOldSpan data (old.getD []) allowUpto with
      | .error error => (.error (toolError error), d)
      | .ok span =>
        agentApplyFileSplice (path.getD "") strerror calls data span.offset span.length new
          (if span.anchored then "anchored old/new replacement" else "old/new replacement") d

/-- `agent_tool_write`. -/
def agentToolWrite (path : Option String) (content : Option Bytes) (strerror : String)
    (calls : ReplaceCalls) (d : Disk) : Except String String × Disk :=
  if path.getD "" = "" then (.error "Tool error: write requires path\n", d)
  else match content with
  | none => (.error "Tool error: write requires content\n", d)
  | some content =>
    match agentReplaceFile calls content none d with
    | (.error failure, d) => (.error (toolError (failure.text (path.getD "") strerror)), d)
    | (.ok (), d) =>
      (.ok ("Wrote " ++ toString content.length ++ " bytes to " ++ path.getD "" ++ "\n"), d)

end Ds4.Agent
