/-
The texts among the values inside a JSON value. The keys of objects are
none of them.
-/
import ControlLoop.Json.Value

namespace ControlLoop.Json

mutual

/-- The texts in a value, in order. -/
def texts : Json → List String
  | .string s => [s]
  | .array items => textsOfItems items
  | .object fields => textsOfFields fields
  | _ => []

def textsOfItems : List Json → List String
  | [] => []
  | v :: rest => texts v ++ textsOfItems rest

def textsOfFields : List (String × Json) → List String
  | [] => []
  | (_, v) :: rest => texts v ++ textsOfFields rest

end

mutual

/-- Put other texts in the place of those in a value. -/
def mapTexts (f : String → String) : Json → Json
  | .string s => .string (f s)
  | .array items => .array (mapItemTexts f items)
  | .object fields => .object (mapFieldTexts f fields)
  | v => v

def mapItemTexts (f : String → String) : List Json → List Json
  | [] => []
  | v :: rest => mapTexts f v :: mapItemTexts f rest

def mapFieldTexts (f : String → String) : List (String × Json) → List (String × Json)
  | [] => []
  | (k, v) :: rest => (k, mapTexts f v) :: mapFieldTexts f rest

end

end ControlLoop.Json
