/-
JSON text: compact, without spaces, everything but quotes, backslashes
and control characters standing for itself.
-/
import ControlLoop.Json.Value

namespace ControlLoop.Json

open Number (binary64 jsonLayout)

/-- How one character is written in a JSON string. -/
def escapedChar (c : Char) : List Char :=
  if c = '"' then ['\\', '"']
  else if c = '\\' then ['\\', '\\']
  else if c = '\x08' then ['\\', 'b']
  else if c = '\x0c' then ['\\', 'f']
  else if c = '\n' then ['\\', 'n']
  else if c = '\r' then ['\\', 'r']
  else if c = '\t' then ['\\', 't']
  else if c.toNat < 0x20 then
    ['\\', 'u', '0', '0', Nat.digitChar (c.toNat / 16), Nat.digitChar (c.toNat % 16)]
  else [c]

def boolText (b : Bool) : String := if b then "true" else "false"

/-- A JSON string. -/
def stringText (s : String) : String :=
  String.ofList ('"' :: (s.toList.flatMap escapedChar ++ ['"']))

/-- A list in brackets. -/
def arrayText (items : List String) : String := "[" ++ ",".intercalate items ++ "]"

/-- Fields in braces. -/
def objectText (fields : List String) : String := "\x7b" ++ ",".intercalate fields ++ "\x7d"

/-- A field, its value already text. -/
def fieldText (k value : String) : String := stringText k ++ ":" ++ value

mutual

/-- The text of a value. -/
def text : Json → String
  | .null => "null"
  | .bool b => boolText b
  | .int n => toString n
  | .float x => x.text binary64 jsonLayout
  | .string s => stringText s
  | .array items => arrayText (itemTexts items)
  | .object fields => objectText (fieldTexts fields)

def itemTexts : List Json → List String
  | [] => []
  | v :: rest => text v :: itemTexts rest

def fieldTexts : List (String × Json) → List String
  | [] => []
  | (k, v) :: rest => fieldText k (text v) :: fieldTexts rest

end

/-- What kind of value was found, for messages about the wrong one. -/
def described : Json → String
  | .null => "null"
  | .bool b => "boolean `" ++ boolText b ++ "`"
  | .int n => s!"integer `{n}`"
  | .float x => "floating point `" ++ x.text binary64 jsonLayout ++ "`"
  | .string s => "string " ++ Text.quoted s
  | .array _ => "sequence"
  | .object _ => "map"

end ControlLoop.Json
