/-
What goes wrong between JSON text, JSON values and typed data.
-/
import ControlLoop.Json.Printer

namespace ControlLoop.Json

/-- What breaks the grammar of JSON text. -/
inductive Fault where
  | endInValue
  | endInList
  | endInObject
  | endInString
  | noColon
  | noListComma
  | noObjectComma
  | noIdent
  | noValue
  | badEscape
  | badNumber
  | numberOutOfRange
  | controlInString
  | keyNotString
  | loneSurrogate
  | trailingComma
  | trailingCharacters
  | cutPair
  | tooDeep
  deriving DecidableEq, Repr

def Fault.message : Fault → String
  | .endInValue => "EOF while parsing a value"
  | .endInList => "EOF while parsing a list"
  | .endInObject => "EOF while parsing an object"
  | .endInString => "EOF while parsing a string"
  | .noColon => "expected `:`"
  | .noListComma => "expected `,` or `]`"
  | .noObjectComma => "expected `,` or `\x7d`"
  | .noIdent => "expected ident"
  | .noValue => "expected value"
  | .badEscape => "invalid escape"
  | .badNumber => "invalid number"
  | .numberOutOfRange => "number out of range"
  | .controlInString => "control character (\\u0000-\\u001F) found while parsing a string"
  | .keyNotString => "key must be a string"
  | .loneSurrogate => "lone leading surrogate in hex escape"
  | .trailingComma => "trailing comma"
  | .trailingCharacters => "trailing characters"
  | .cutPair => "unexpected end of hex escape"
  | .tooDeep => "recursion limit exceeded"

/-- A value that is not of the shape a reader wants. What was found is told as it is described. -/
inductive Mismatch where
  | missingField (name : String)
  | duplicateField (name : String)
  | wrongType (found expected : String)
  | wrongValue (found expected : String)
  | wrongLength (length : Nat) (expected : String)
  /-- The type of the value fits, but not what it says. -/
  | refused (reason : String)

def Mismatch.message : Mismatch → String
  | .missingField name => s!"missing field `{name}`"
  | .duplicateField name => s!"duplicate field `{name}`"
  | .wrongType found expected => s!"invalid type: {found}, expected {expected}"
  | .wrongValue found expected => s!"invalid value: {found}, expected {expected}"
  | .wrongLength length expected => s!"invalid length {length}, expected {expected}"
  | .refused reason => reason

/-- Why reading a text stopped. -/
inductive Cause where
  /-- The text is no JSON. -/
  | fault (fault : Fault)
  /-- The text holds something else than is wanted. -/
  | mismatch (mismatch : Mismatch)

def Cause.message : Cause → String
  | .fault f => f.message
  | .mismatch m => m.message

/-- Why a value could not be read or written. -/
inductive Failure where
  /-- Reading a text stopped: why, and at which line and column. -/
  | stopped (cause : Cause) (line column : Nat)
  /-- A value is not of the shape that is wanted. -/
  | mismatch (mismatch : Mismatch)
  /-- A map was to be written whose keys are no texts. -/
  | keyNotString
  /-- An integer beyond 64 bits was to become a value. -/
  | numberOutOfRange
  /-- The value itself refused to be written, perhaps naming a line and a column. -/
  | refused (reason : String) (position : Option (Nat × Nat))

/-- A place in a text. -/
def positionText (line column : Nat) : String := s!" at line {line} column {column}"

def Failure.message : Failure → String
  | .stopped cause line column => cause.message ++ positionText line column
  | .mismatch m => m.message
  | .keyNotString => "key must be a string"
  | .numberOutOfRange => "number out of range"
  | .refused reason none => reason
  | .refused reason (some (line, column)) => reason ++ positionText line column

-- =================================== positions in reasons

/-- A word and what follows it, where the word comes last in a text. -/
def splitLast (word : List Char) : List Char → Option (List Char × List Char)
  | [] => none
  | c :: cs =>
    match splitLast word cs with
    | some (before, behind) => some (c :: before, behind)
    | none => if word.isPrefixOf (c :: cs) then some ([], (c :: cs).drop word.length) else none

/-- Digits as a number of 64 bits. -/
def wordOfDigits (digits : List Char) : Option Nat :=
  let n := digits.foldl (fun n c => 10 * n + (c.toNat - '0'.toNat)) 0
  if digits.isEmpty || 0xffffffffffffffff < n then none else some n

/-- A text that consists of a line, the word for a column, and a column. -/
def readPosition (cs : List Char) : Option (Nat × Nat) :=
  let word := " column ".toList
  let rest := cs.dropWhile Char.isDigit
  if word.isPrefixOf rest then
    let column := rest.drop word.length
    if column.all Char.isDigit then do
      some (← wordOfDigits (cs.takeWhile Char.isDigit), ← wordOfDigits column)
    else none
  else none

/-- The refusal for a reason. A position at its end is told apart from it; line zero is none. -/
def Failure.ofReason (reason : String) : Failure :=
  let parts := do
    let (before, behind) ← splitLast " at line ".toList reason.toList
    some (String.ofList before, ← readPosition behind)
  match parts with
  | none => .refused reason none
  | some (before, line, column) => .refused before (if line = 0 then none else some (line, column))

end ControlLoop.Json
