/-
JSON values.

A number written without fraction or exponent is an integer and differs
from the floating number of the same value; the two floating zeros are
equal. The fields of an object are kept in key order, one per key, so
an object built by `Json.ofFields` does not show the order it was
written in.
-/
import ControlLoop.SortedMap
import ControlLoop.Number.Layout
import ControlLoop.Text.Quoted

namespace ControlLoop

open Number (Binary)

/-- A JSON value. -/
inductive Json where
  | null
  | bool (b : Bool)
  | int (n : Int)
  | float (x : Binary)
  | string (s : String)
  | array (items : List Json)
  | object (fields : List (String × Json))
  deriving Inhabited

namespace Json

/-- The fields of a JSON object. -/
abbrev Fields := List (String × Json)

/-- The object of some fields; of a repeated key the last wins. -/
def ofFields (fields : Fields) : Json := .object (Entries.ofList fields)

/-- A field for what is there, none for what is not. -/
def fieldFor (name : String) (write : α → Json) : Option α → Fields
  | none => []
  | some a => [(name, write a)]

/-- Texts under texts, as an object. -/
def ofTextMap (m : SortedMap String String) : Json :=
  .object (m.toList.map fun (k, v) => (k, .string v))

/-- A text, or null. -/
def ofOption (f : α → Json) : Option α → Json
  | none => .null
  | some a => f a

mutual

/-- Equality of values. -/
def same : Json → Json → Bool
  | .null, .null => true
  | .bool a, .bool b => a == b
  | .int a, .int b => a == b
  | .float a, .float b => a.cmp b == .eq
  | .string a, .string b => a == b
  | .array a, .array b => sameItems a b
  | .object a, .object b => sameFields a b
  | _, _ => false

/-- Item by item. -/
def sameItems : List Json → List Json → Bool
  | [], [] => true
  | a :: as, b :: bs => same a b && sameItems as bs
  | _, _ => false

/-- Field by field, in order. -/
def sameFields : List (String × Json) → List (String × Json) → Bool
  | [], [] => true
  | (k, a) :: as, (l, b) :: bs => k == l && same a b && sameFields as bs
  | _, _ => false

end

/-- The value of a field; null where there is none. -/
def field (k : String) (fields : Fields) : Json :=
  (Entries.lookup k fields).getD .null

end Json

end ControlLoop
