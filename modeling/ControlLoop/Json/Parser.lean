/-
Reading JSON text.

The parser walks a list of characters. Where it stops it remembers the
text that is left, and how many bytes of that were looked at; line and
column follow from the bytes before it.
-/
import ControlLoop.Json.Failure
import ControlLoop.Number.Reading
import ControlLoop.Text.Bytes

namespace ControlLoop.Json

open Number (Binary)

/-- Where and why reading stopped. -/
structure Stop where
  cause : Cause
  rest : List Char
  /-- How many bytes of the rest were looked at. -/
  ahead : Nat

/-- A fault in the text consumed so far. -/
def stopAt (fault : Fault) (rest : List Char) : Except Stop α := .error ⟨.fault fault, rest, 0⟩

/-- A fault in the next byte. -/
def stopBefore (fault : Fault) (rest : List Char) : Except Stop α := .error ⟨.fault fault, rest, 1⟩

def isSpace (c : Char) : Bool := c = ' ' || c = '\n' || c = '\t' || c = '\r'

def skipSpace (cs : List Char) : List Char := cs.dropWhile isSpace

/-- The rest of a literal name. -/
def readIdent : List Char → List Char → Except Stop (List Char)
  | [], cs => .ok cs
  | _ :: _, [] => stopAt .endInValue []
  | x :: xs, c :: cs => if c = x then readIdent xs cs else stopBefore .noIdent (c :: cs)

-- ================================================== numbers

/-- The greatest integer that is kept as one. -/
def maxWord : Nat := 0xffffffffffffffff

def digitOf (c : Char) : Nat := c.toNat - '0'.toNat

/-- Leading digits, as long as they fit a word: the number so far, how many were added, and the
rest. -/
def takeDigits (n count : Nat) : List Char → Nat × Nat × List Char
  | [] => (n, count, [])
  | c :: cs =>
    if c.isDigit && n * 10 + digitOf c ≤ maxWord then
      takeDigits (n * 10 + digitOf c) (count + 1) cs
    else (n, count, c :: cs)

def floatOf (negative : Bool) (digits : Nat) (exponent : Int) (cs : List Char) :
    Except Stop (Json × List Char) :=
  match Number.ofDecimal negative digits exponent with
  | some x => .ok (.float x, cs)
  | none => stopAt .numberOutOfRange cs

/-- The greatest exponent that is still counted. -/
def maxExponent : Nat := 0x7fffffff

/-- The digits of an exponent; `none` for the number when it is too large to count, with the text
behind the digit that was too many. -/
def takeExponent (n : Nat) : List Char → Option Nat × List Char
  | [] => (some n, [])
  | c :: cs =>
    if c.isDigit then
      if n * 10 + digitOf c ≤ maxExponent then takeExponent (n * 10 + digitOf c) cs
      else (none, cs)
    else (some n, c :: cs)

/-- The part behind an exponent mark. -/
def readExponent (negative : Bool) (digits : Nat) (shift : Int) (cs : List Char) :
    Except Stop (Json × List Char) :=
  let (down, cs) := match cs with
    | '+' :: cs => (false, cs)
    | '-' :: cs => (true, cs)
    | cs => (false, cs)
  match cs with
  | [] => stopAt .endInValue []
  | c :: cs =>
    if !c.isDigit then stopBefore .badNumber (c :: cs)
    else
      match takeExponent (digitOf c) cs with
      | (some e, cs) => floatOf negative digits (if down then shift - e else shift + e) cs
      | (none, cs) =>
        if digits ≠ 0 && !down then stopAt .numberOutOfRange cs
        else floatOf negative 0 0 (cs.dropWhile Char.isDigit)

/-- An exponent, if there is one. -/
def readTail (negative : Bool) (digits : Nat) (shift : Int) (cs : List Char) :
    Except Stop (Json × List Char) :=
  match cs with
  | 'e' :: cs | 'E' :: cs => readExponent negative digits shift cs
  | cs => floatOf negative digits shift cs

/-- The part behind a decimal point. Digits that no longer fit are passed over. -/
def readFraction (negative : Bool) (digits : Nat) (shift : Int) (cs : List Char) :
    Except Stop (Json × List Char) :=
  let (digits, count, rest) := takeDigits digits 0 cs
  match rest with
  | c :: _ =>
    if c.isDigit then readTail negative digits (shift - count) (rest.dropWhile Char.isDigit)
    else if count = 0 then stopBefore .badNumber rest
    else readTail negative digits (shift - count) rest
  | [] =>
    if count = 0 then stopBefore .endInValue []
    else readTail negative digits (shift - count) []

/-- The part behind the digits of an integer that no longer fit a word. -/
def readLong (negative : Bool) (digits : Nat) (cs : List Char) : Except Stop (Json × List Char) :=
  let more := cs.takeWhile Char.isDigit
  match cs.dropWhile Char.isDigit with
  | '.' :: rest => readFraction negative digits more.length rest
  | rest => readTail negative digits more.length rest

/-- A number: its first digit is the next character. -/
def readNumber (negative : Bool) (cs : List Char) : Except Stop (Json × List Char) :=
  match cs with
  | [] => stopAt .endInValue []
  | c :: rest =>
    if !c.isDigit then stopBefore .badNumber (c :: rest)
    else
      let (digits, _, rest) :=
        if c = '0' then (0, 0, rest) else takeDigits (digitOf c) 0 rest
      match rest with
      | '.' :: rest => readFraction negative digits 0 rest
      | 'e' :: rest | 'E' :: rest => readExponent negative digits 0 rest
      | rest =>
        if (rest.head?.map Char.isDigit).getD false then
          if digits = 0 then stopBefore .badNumber rest else readLong negative digits rest
        else if !negative then .ok (.int digits, rest)
        else if digits = 0 || 0x8000000000000000 < digits then floatOf true digits 0 rest
        else .ok (.int (-digits), rest)

-- ================================================== strings

/-- The value of a hexadecimal digit. -/
def hexValue (c : Char) : Option Nat :=
  if c.isDigit then some (c.toNat - '0'.toNat)
  else if 'a' ≤ c && c ≤ 'f' then some (c.toNat - 'a'.toNat + 10)
  else if 'A' ≤ c && c ≤ 'F' then some (c.toNat - 'A'.toNat + 10)
  else none

/-- Four bytes that are no hexadecimal digits, or the end of the text before them. -/
def stopInHex (cs : List Char) : Except Stop α :=
  if (String.ofList (cs.take 4)).utf8ByteSize < 4 then stopAt .endInString []
  else .error ⟨.fault .badEscape, cs, 4⟩

/-- Four hexadecimal digits. -/
def readHex (cs : List Char) : Except Stop (Nat × List Char) :=
  match cs with
  | a :: b :: c :: d :: rest =>
    match hexValue a, hexValue b, hexValue c, hexValue d with
    | some a, some b, some c, some d => .ok (((a * 16 + b) * 16 + c) * 16 + d, rest)
    | _, _, _, _ => stopInHex cs
  | cs => stopInHex cs

/-- The character of an escape by code: of one code unit, or of a surrogate pair. -/
def readCode (cs : List Char) : Except Stop (Char × List Char) := do
  let (n, cs) ← readHex cs
  if 0xdc00 ≤ n ∧ n ≤ 0xdfff then stopAt .loneSurrogate cs
  else if n < 0xd800 ∨ 0xdbff < n then .ok (Char.ofNat n, cs)
  else
    match cs with
    | [] => stopAt .endInString []
    | '\\' :: 'u' :: cs =>
      let (m, cs) ← readHex cs
      if 0xdc00 ≤ m ∧ m ≤ 0xdfff then
        .ok (Char.ofNat ((n - 0xd800) * 0x400 + (m - 0xdc00) + 0x10000), cs)
      else stopAt .loneSurrogate cs
    | ['\\'] => stopAt .endInString []
    | '\\' :: cs => stopBefore .cutPair cs
    | cs => stopBefore .cutPair cs

/-- The character of an escape. -/
def readEscape (cs : List Char) : Except Stop (Char × List Char) :=
  match cs with
  | [] => stopAt .endInString []
  | '"' :: cs => .ok ('"', cs)
  | '\\' :: cs => .ok ('\\', cs)
  | '/' :: cs => .ok ('/', cs)
  | 'b' :: cs => .ok ('\x08', cs)
  | 'f' :: cs => .ok ('\x0c', cs)
  | 'n' :: cs => .ok ('\n', cs)
  | 'r' :: cs => .ok ('\r', cs)
  | 't' :: cs => .ok ('\t', cs)
  | 'u' :: cs => readCode cs
  | cs => stopBefore .badEscape cs

/-- A string whose opening quote was consumed, up to its closing quote; `seen` holds its
characters so far, last first. Every round consumes a character, so more fuel than there is text
is enough. -/
def readString (seen : List Char) : Nat → List Char → Except Stop (String × List Char)
  | 0, cs => stopAt .endInString cs
  | _ + 1, [] => stopAt .endInString []
  | _ + 1, '"' :: cs => .ok (String.ofList seen.reverse, cs)
  | fuel + 1, '\\' :: cs => do
    let (c, cs) ← readEscape cs
    readString (c :: seen) fuel cs
  | fuel + 1, c :: cs =>
    if c.toNat < 0x20 then stopBefore .controlInString (c :: cs)
    else readString (c :: seen) fuel cs

-- ======================================== lists and objects

/-- The text behind a bracket that closes a list, if it is next. -/
def behindBracket (cs : List Char) : List Char :=
  match skipSpace cs with
  | ']' :: cs => cs
  | cs => cs

/-- The text behind a brace that closes an object, if it is next. -/
def behindBrace (cs : List Char) : List Char :=
  match skipSpace cs with
  | '\x7d' :: cs => cs
  | cs => cs

/-- The text that begins with the next item of a list, or none where the list ends. -/
def nextItem (first : Bool) (cs : List Char) : Except Stop (Option (List Char)) :=
  match skipSpace cs with
  | [] => stopBefore .endInList []
  | ']' :: _ => .ok none
  | c :: cs =>
    if first then .ok (some (c :: cs))
    else if c = ',' then
      match skipSpace cs with
      | ']' :: cs => stopBefore .trailingComma (']' :: cs)
      | [] => stopBefore .endInValue []
      | cs => .ok (some cs)
    else stopBefore .noListComma (c :: cs)

/-- The key of the next field of an object and the text behind it, or none where the object
ends. -/
def nextKey (first : Bool) (fuel : Nat) (cs : List Char) :
    Except Stop (Option (String × List Char)) :=
  match skipSpace cs with
  | [] => stopBefore .endInObject []
  | '\x7d' :: _ => .ok none
  | c :: cs => do
    let cs ←
      if first then .ok (c :: cs)
      else if c = ',' then
        match skipSpace cs with
        | '\x7d' :: cs => stopBefore .trailingComma ('\x7d' :: cs)
        | [] => stopBefore .endInValue []
        | cs => .ok cs
      else stopBefore .noObjectComma (c :: cs)
    match cs with
    | '"' :: cs => do .ok (some (← readString [] fuel cs))
    | cs => stopBefore .keyNotString cs

/-- The text behind the colon of a field. -/
def readColon (cs : List Char) : Except Stop (List Char) :=
  match skipSpace cs with
  | [] => stopBefore .endInObject []
  | ':' :: cs => .ok cs
  | cs => stopBefore .noColon cs

-- ================================================== values

/-- How deep lists and objects may nest in a value. -/
def maxDepth : Nat := 127

mutual

/-- A value. `depth` levels of lists and objects may still open. Every character costs at most two
rounds, so twice the length of the text and two more is fuel enough, also for the strings. -/
def readValue (depth : Nat) : Nat → List Char → Except Stop (Json × List Char)
  | 0, cs => stopBefore .endInValue cs
  | fuel + 1, cs =>
    match skipSpace cs with
    | [] => stopBefore .endInValue []
    | 'n' :: cs => do .ok (.null, ← readIdent ['u', 'l', 'l'] cs)
    | 't' :: cs => do .ok (.bool true, ← readIdent ['r', 'u', 'e'] cs)
    | 'f' :: cs => do .ok (.bool false, ← readIdent ['a', 'l', 's', 'e'] cs)
    | '-' :: cs => readNumber true cs
    | '"' :: cs => do
      let (s, cs) ← readString [] fuel cs
      .ok (.string s, cs)
    | '[' :: cs =>
      if depth = 0 then stopBefore .tooDeep ('[' :: cs)
      else do
        let (items, cs) ← readItems (depth - 1) true [] fuel cs
        .ok (.array items, cs)
    | '\x7b' :: cs =>
      if depth = 0 then stopBefore .tooDeep ('\x7b' :: cs)
      else do
        let (fields, cs) ← readFields (depth - 1) true [] fuel cs
        .ok (Json.ofFields fields, cs)
    | c :: cs =>
      if c.isDigit then readNumber false (c :: cs) else stopBefore .noValue (c :: cs)

/-- The items of a list up to its bracket; `seen` holds those read, last first. -/
def readItems (depth : Nat) (first : Bool) (seen : List Json) :
    Nat → List Char → Except Stop (List Json × List Char)
  | 0, cs => stopBefore .endInList cs
  | fuel + 1, cs => do
    match ← nextItem first cs with
    | none => .ok (seen.reverse, behindBracket cs)
    | some cs =>
      let (v, cs) ← readValue depth fuel cs
      readItems depth false (v :: seen) fuel cs

/-- The fields of an object up to its brace; `seen` holds those read, last first. -/
def readFields (depth : Nat) (first : Bool) (seen : Fields) :
    Nat → List Char → Except Stop (Fields × List Char)
  | 0, cs => stopBefore .endInObject cs
  | fuel + 1, cs => do
    match ← nextKey first fuel cs with
    | none => .ok (seen.reverse, behindBrace cs)
    | some (k, cs) =>
      let (v, cs) ← readValue depth fuel (← readColon cs)
      readFields depth false ((k, v) :: seen) fuel cs

end

/-- Enough fuel to read a value. -/
def fuelFor (cs : List Char) : Nat := 2 * cs.length + 2

-- ============================================= whole texts

/-- The line and column where reading a text stopped: the line is one more than the line breaks
among the bytes that were looked at, the column the number of those bytes behind the last of
them. -/
def Stop.position (stop : Stop) (text : String) : Nat × Nat :=
  let consumed := text.utf8ByteSize - (String.ofList stop.rest).utf8ByteSize
  ((Text.utf8 text).take (consumed + stop.ahead)).foldl
    (fun (line, column) (b : UInt8) => if b = 10 then (line + 1, 0) else (line, column + 1)) (1, 0)

/-- Read a whole text, in which nothing but spaces may follow what is read. -/
def readWhole (read : List Char → Except Stop (α × List Char)) (s : String) : Except Failure α :=
  let outcome : Except Stop α := do
    let (a, rest) ← read s.toList
    match skipSpace rest with
    | [] => .ok a
    | rest => stopBefore .trailingCharacters rest
  outcome.mapError fun stop =>
    let (line, column) := stop.position s
    .stopped stop.cause line column

/-- Read a whole text as one value. -/
def parse (s : String) : Except Failure Json :=
  readWhole (fun cs => readValue maxDepth (fuelFor cs) cs) s

end ControlLoop.Json
