import Ds4.Lib.Reader
import Ds4.Lib.Recent

/-!
# The JSON reader of the server

A request text is a byte string without NUL, and the pointer into it is the text that is left.
`jsonValue` is `json_skip_value` with the value it walks over kept as a tree; a number is kept as
the text that `strtod` converts. `levels` is `JSON_MAX_NESTING - depth`.
-/

namespace Ds4.Server

open Ds4.Lib

/-! ## White space, escapes and strings -/

/-- A C string ends at its first NUL. -/
def cString (b : Bytes) : Bytes := b.takeWhile fun c => c ≠ 0

theorem cString_eq_self {s : Bytes} (h : 0 ∉ s) : cString s = s := by
  rw [cString, List.takeWhile_eq_self_iff]
  intro c hc
  simpa using ne_of_mem_of_not_mem hc h

/-- `json_ws` and `skip_ascii_ws`. -/
def jsonWs (p : Bytes) : Bytes := p.dropWhile isSpace

/-- `json_hex`. -/
def jsonHex (c : UInt8) : Option Nat :=
  if 48 ≤ c ∧ c ≤ 57 then some (c.toNat - 48)
  else if 97 ≤ c ∧ c ≤ 102 then some (10 + c.toNat - 97)
  else if 65 ≤ c ∧ c ≤ 70 then some (10 + c.toNat - 65)
  else none

/-- `utf8_put`. -/
def utf8Put (cp : Nat) : Bytes :=
  let cp := if cp > 0x10ffff ∨ (0xd800 ≤ cp ∧ cp ≤ 0xdfff) then 0xfffd else cp
  let low (n : Nat) : UInt8 := .ofNat (0x80 + n % 64)
  if cp ≤ 0x7f then [.ofNat cp]
  else if cp ≤ 0x7ff then [.ofNat (0xc0 + cp / 64), low cp]
  else if cp ≤ 0xffff then [.ofNat (0xe0 + cp / 4096), low (cp / 64), low cp]
  else [.ofNat (0xf0 + cp / 262144), low (cp / 4096), low (cp / 64), low cp]

/-- `json_u16`. -/
def jsonU16 : Reader Nat
  | 92 :: 117 :: a :: b :: c :: d :: r =>
    match jsonHex a, jsonHex b, jsonHex c, jsonHex d with
    | some a, some b, some c, some d => some (((a * 16 + b) * 16 + c) * 16 + d, r)
    | _, _, _, _ => none
  | _ => none

/-- The character of a `\u` escape, or of two that form a surrogate pair. -/
def jsonUnicode (p : Bytes) : Option (Bytes × Bytes) :=
  match jsonU16 p with
  | none => none
  | some (cp, r) =>
    if 0xd800 ≤ cp ∧ cp ≤ 0xdbff then
      match jsonU16 r with
      | some (lo, r') =>
        if 0xdc00 ≤ lo ∧ lo ≤ 0xdfff then
          some (utf8Put (0x10000 + (cp - 0xd800) * 1024 + (lo - 0xdc00)), r')
        else some (utf8Put 0xfffd, r)
      | none => some (utf8Put 0xfffd, r)
    else some (utf8Put cp, r)

/-- The escapes of one letter. -/
def jsonUnescape (c : UInt8) : Option UInt8 :=
  if c = 34 ∨ c = 92 ∨ c = 47 then some c
  else if c = 98 then some 8
  else if c = 102 then some 12
  else if c = 110 then some 10
  else if c = 114 then some 13
  else if c = 116 then some 9
  else none

/-- One round of the loop of `json_string`. -/
def jsonChar : Reader Bytes
  | [] => none
  | c :: r =>
    if c = 92 then
      match r with
      | [] => none
      | e :: r' => if e = 117 then jsonUnicode (c :: r) else (jsonUnescape e).map fun b => ([b], r')
    else some ([c], r)

/-- `json_string`, with what a caller can see of the string. -/
def jsonString : Reader Bytes := fun p =>
  match jsonWs p with
  | 34 :: r =>
    (readAll (fun q => strip q [34]) jsonChar r).map fun (chunks, r') => (cString chunks.flatten, r')
  | _ => none

/-- The escape of one byte in `json_escape`. -/
def jsonEscapeByte (c : UInt8) : Bytes :=
  let hex (n : UInt8) : UInt8 := if n < 10 then 48 + n else 87 + n
  if c = 34 ∨ c = 92 then [92, c]
  else if c = 10 then [92, 110]
  else if c = 13 then [92, 114]
  else if c = 9 then [92, 116]
  else if c < 32 then [92, 117, 48, 48, hex (c / 16), hex (c % 16)]
  else [c]

/-- `json_escape_fragment_n`. -/
def jsonEscapeFragment (s : Bytes) : Bytes := s.flatMap jsonEscapeByte

/-- The loop of `json_escape`, which stops at the first NUL. -/
def jsonEscapeLoop : Bytes → Bytes
  | [] => []
  | c :: s => if c = 0 then [] else jsonEscapeByte c ++ jsonEscapeLoop s

/-- `json_escape`. -/
def jsonEscape (s : Bytes) : Bytes := 34 :: jsonEscapeLoop s ++ [34]

theorem jsonEscapeLoop_eq (s : Bytes) : jsonEscapeLoop s = jsonEscapeFragment (cString s) := by
  induction s with
  | nil => rfl
  | cons c s ih =>
    rw [jsonEscapeLoop, cString, List.takeWhile_cons, ih]
    by_cases hc : c = 0
    · simp [hc, jsonEscapeFragment]
    · simp [hc, jsonEscapeFragment, cString]

/-! ## Numbers -/

/-- `isdigit`. -/
def isDigit (c : UInt8) : Bool := 48 ≤ c && c ≤ 57

/-- A hexadecimal digit. -/
def isHexDigit (c : UInt8) : Bool := (jsonHex c).isSome

/-- Lower case of an ASCII letter. -/
def toLower (c : UInt8) : UInt8 := if 65 ≤ c ∧ c ≤ 90 then c + 32 else c

/-- Digits with at most one radix point, and at least one digit. -/
def isMantissa (digit : UInt8 → Bool) (x : Bytes) : Bool :=
  let tail := x.dropWhile digit
  let fraction := match tail with
    | 46 :: f => f
    | f => f
  fraction.all digit && x.any digit

/-- The exponent behind its letter: an optional sign and digits. -/
def isExponent (x : Bytes) : Bool :=
  let digits := match x with
    | 43 :: d => d
    | 45 :: d => d
    | d => d
  !digits.isEmpty && digits.all isDigit

/-- A number with an optional exponent that begins with the letter `e`. -/
def isScaled (digit : UInt8 → Bool) (e : UInt8) (x : Bytes) : Bool :=
  let mantissa := x.takeWhile fun c => toLower c ≠ e
  isMantissa digit mantissa &&
    match x.dropWhile fun c => toLower c ≠ e with
    | [] => true
    | _ :: y => isExponent y

/-- A digit, a letter or an underscore. -/
def isNanChar (c : UInt8) : Bool := isDigit c || (97 ≤ toLower c && toLower c ≤ 122) || c == 95

/-- The spellings of a NaN. -/
def isNan (x : Bytes) : Bool :=
  (x.take 3).map toLower == lit "nan" &&
    match x.drop 3 with
    | [] => true
    | c :: y => c == 40 && y.getLast? == some 41 && y.dropLast.all isNanChar

/-- The expected form of a subject of `strtod` behind its sign. -/
def isUnsignedSubject (x : Bytes) : Bool :=
  isScaled isDigit 101 x ||
    ((x.take 2).map toLower == lit "0x" && isScaled isHexDigit 112 (x.drop 2)) ||
    x.map toLower == lit "inf" || x.map toLower == lit "infinity" || isNan x

/-- The expected form of a subject of `strtod`. -/
def isSubject (x : Bytes) : Bool :=
  match x with
  | 43 :: y => isUnsignedSubject y
  | 45 :: y => isUnsignedSubject y
  | y => isUnsignedSubject y

/-- `strtod`: the longest prefix of the expected form. -/
def strtodSubject (p : Bytes) : Bytes := Recent.prune isSubject p

/-! ## Values -/

/-- A value as it is written. -/
inductive Json
  | string (s : Bytes)
  | word (w : Bytes)
  | number (text : Bytes)
  | array (items : List Json)
  | object (members : List (Bytes × Json))

/-- A word or a number. -/
def jsonScalar : Reader Json := fun p =>
  if lit "true" <+: p then some (.word (lit "true"), p.drop 4)
  else if lit "false" <+: p then some (.word (lit "false"), p.drop 5)
  else if lit "null" <+: p then some (.word (lit "null"), p.drop 4)
  else
    let x := strtodSubject p
    if x = [] then none else some (.number x, p.drop x.length)

/-- An item behind a comma. -/
def jsonNext {α : Type} (item : Reader α) : Reader α := fun p =>
  match strip (jsonWs p) [44] with
  | none => none
  | some r => item r

/-- The items of an array or the members of an object, up to the bracket. -/
def jsonItems {α : Type} (item : Reader α) (close : UInt8) : Reader (List α) := fun p =>
  match item p with
  | none => none
  | some (a, q) =>
    (readAll (fun p => strip (jsonWs p) [close]) (jsonNext item) q).map fun (as, r) => (a :: as, r)

/-- What stands behind an opening bracket. -/
def jsonSequence {α : Type} (item : Reader α) (close : UInt8) : Reader (List α) := fun p =>
  match strip (jsonWs p) [close] with
  | some r => some ([], r)
  | none => jsonItems item close p

/-- A member of an object. -/
def jsonMember (value : Reader Json) : Reader (Bytes × Json) := fun p =>
  match jsonString p with
  | none => none
  | some (key, q) =>
    match strip (jsonWs q) [58] with
    | none => none
    | some r => (value r).map fun (v, r') => ((key, v), r')

/-- `json_skip_value_depth`, given how a value one level deeper is read. -/
def jsonValueWith (deeper : Option (Reader Json)) : Reader Json := fun p =>
  match jsonWs p with
  | 34 :: r => (jsonString (34 :: r)).map fun (s, q) => (.string s, q)
  | 123 :: r => deeper.bind fun value =>
    (jsonSequence (jsonMember value) 125 r).map fun (ms, q) => (.object ms, q)
  | 91 :: r => deeper.bind fun value =>
    (jsonSequence value 93 r).map fun (vs, q) => (.array vs, q)
  | q => jsonScalar q

/-- `json_skip_value_depth`. -/
def jsonValue : Nat → Reader Json
  | 0 => jsonValueWith none
  | levels + 1 => jsonValueWith (some (jsonValue levels))

/-- `JSON_MAX_NESTING`. -/
def jsonMaxNesting : Nat := 256

/-- `json_skip_value`. -/
def jsonSkipValue (p : Bytes) : Option Bytes := (jsonValue jsonMaxNesting p).map Prod.snd

/-- `json_raw_value`. -/
def jsonRawValue : Reader Bytes := fun p =>
  (jsonSkipValue (jsonWs p)).map fun r => (upTo (jsonWs p) r, r)

/-- The copying loop of `json_minify_raw_value`. -/
def minifyCopy : Bool → Bool → Bytes → Bytes
  | _, _, [] => []
  | true, escape, c :: s =>
    c :: if escape then minifyCopy true false s
      else if c = 92 then minifyCopy true true s
      else if c = 34 then minifyCopy false false s
      else minifyCopy true false s
  | false, escape, c :: s =>
    if c = 34 then c :: minifyCopy true escape s
    else if !isSpace c then c :: minifyCopy false escape s
    else minifyCopy false escape s

/-- `json_minify_raw_value`. -/
def jsonMinifyRawValue (json : Bytes) : Bytes :=
  match jsonSkipValue (jsonWs json) with
  | none => json
  | some r => minifyCopy false false (upTo (jsonWs json) r)

/-! ## Tool arguments -/

/-- `json_arg`. -/
structure JsonArg where
  key : Bytes
  value : Bytes
  isString : Bool
  deriving DecidableEq

/-- The value of a member in `json_args_parse`. -/
def jsonArgValue (key : Bytes) : Reader JsonArg := fun p =>
  if p.head? = some 34 then (jsonString p).map fun (value, q) => (⟨key, value, true⟩, q)
  else (jsonRawValue p).map fun (raw, q) => (⟨key, jsonMinifyRawValue raw, false⟩, q)

/-- The optional comma between members. -/
def skipComma (p : Bytes) : Bytes := (strip p [44]).getD p

/-- One round of the loop of `json_args_parse`. -/
def jsonArg : Reader JsonArg := fun p =>
  match jsonString p with
  | none => none
  | some (key, q) =>
    match strip (jsonWs q) [58] with
    | none => none
    | some r =>
      (jsonArgValue key (jsonWs r)).map fun (arg, r') => (arg, jsonWs (skipComma (jsonWs r')))

/-- `json_args_parse`. -/
def jsonArgsParse (json : Bytes) : Option (List JsonArg) :=
  match strip (jsonWs json) [123] with
  | none => none
  | some r => (readAll (fun q => strip q [125]) jsonArg (jsonWs r)).map Prod.fst

/-- `append_json_arg_pair`. -/
def jsonArgPair (arg : JsonArg) : Bytes :=
  jsonEscape arg.key ++ lit ":" ++ if arg.isString then jsonEscape arg.value else arg.value

/-- `append_json_object_or_empty`. -/
def jsonObjectOrEmpty (json : Bytes) : Bytes :=
  match jsonArgsParse json with
  | none => lit "\x7b\x7d"
  | some args => lit "\x7b" ++ [44].intercalate (args.map jsonArgPair) ++ lit "\x7d"

end Ds4.Server
