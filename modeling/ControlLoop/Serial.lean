/-
Values on their way into JSON.

A value can be written as text, which keeps the order and the repeats
of its fields and every integer, or turned into a JSON value, which
sorts the fields, keeps the last of each name, and holds integers of 64
bits only. Both can fail: a map may have keys that are no texts, and a
value may refuse.
-/
import ControlLoop.Json.Failure

namespace ControlLoop

open Number (Binary binary32 binary64 jsonLayout jsonSingleLayout)

/-- The key of a field as its owner has it. -/
inductive FieldKey where
  | text (k : String)
  /-- A key that is no text, such as a list. -/
  | compound
  deriving DecidableEq

/-- A value that can be written. -/
inductive Serial where
  | null
  | bool (b : Bool)
  | int (n : Int)
  | float (x : Binary)
  /-- A number of 32 bits, which needs fewer digits. -/
  | single (x : Binary)
  /-- An infinity, or no number at all. -/
  | nonfinite
  | string (s : String)
  | list (items : List Serial)
  | record (fields : List (FieldKey × Serial))
  | refusing (reason : String)
  deriving Inhabited

namespace Serial

open Json (Failure boolText stringText arrayText objectText fieldText)

mutual

/-- A JSON value, which writes itself. -/
def ofJson : Json → Serial
  | .null => .null
  | .bool b => .bool b
  | .int n => .int n
  | .float x => .float x
  | .string s => .string s
  | .array items => .list (ofItems items)
  | .object fields => .record (ofFields fields)

def ofItems : List Json → List Serial
  | [] => []
  | v :: rest => ofJson v :: ofItems rest

def ofFields : List (String × Json) → List (FieldKey × Serial)
  | [] => []
  | (k, v) :: rest => (.text k, ofJson v) :: ofFields rest

end

/-- The text of a key. -/
def keyText : FieldKey → Except Failure String
  | .text k => .ok k
  | .compound => .error .keyNotString

mutual

/-- The JSON text of a value: fields in their order, repeats kept. -/
def text : Serial → Except Failure String
  | .null => .ok "null"
  | .bool b => .ok (boolText b)
  | .int n => .ok (toString n)
  | .float x => .ok (x.text binary64 jsonLayout)
  | .single x => .ok (x.text binary32 jsonSingleLayout)
  | .nonfinite => .ok "null"
  | .string s => .ok (stringText s)
  | .list items => do .ok (arrayText (← itemTexts items))
  | .record fields => do .ok (objectText (← fieldTexts fields))
  | .refusing reason => .error (.ofReason reason)

def itemTexts : List Serial → Except Failure (List String)
  | [] => .ok []
  | v :: rest => do
    let t ← text v
    .ok (t :: (← itemTexts rest))

def fieldTexts : List (FieldKey × Serial) → Except Failure (List String)
  | [] => .ok []
  | (k, v) :: rest => do
    let k ← keyText k
    let t ← text v
    .ok (fieldText k t :: (← fieldTexts rest))

end

/-- The integers of a JSON value. -/
def fitsWord (n : Int) : Bool := -0x8000000000000000 ≤ n && n ≤ 0xffffffffffffffff

mutual

/-- The JSON value of a value: fields sorted, of a repeated name the last. -/
def toJson : Serial → Except Failure Json
  | .null => .ok .null
  | .bool b => .ok (.bool b)
  | .int n => if fitsWord n then .ok (.int n) else .error .numberOutOfRange
  | .float x => .ok (.float x)
  | .single x => .ok (((x.convert binary64).map Json.float).getD .null)
  | .nonfinite => .ok .null
  | .string s => .ok (.string s)
  | .list items => do .ok (.array (← itemsToJson items))
  | .record fields => do .ok (Json.ofFields (← fieldsToJson fields))
  | .refusing reason => .error (.ofReason reason)

def itemsToJson : List Serial → Except Failure (List Json)
  | [] => .ok []
  | v :: rest => do
    let j ← toJson v
    .ok (j :: (← itemsToJson rest))

def fieldsToJson : List (FieldKey × Serial) → Except Failure (List (String × Json))
  | [] => .ok []
  | (k, v) :: rest => do
    let k ← keyText k
    let j ← toJson v
    .ok ((k, j) :: (← fieldsToJson rest))

end

end Serial

end ControlLoop
