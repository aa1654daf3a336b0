/-
The JSON form of a condition.

The fields are written in the order of the structure. A condition is
read from an object, whose fields are checked in the order of the
object before any is missed, or from a list of all six values.
-/
import ControlLoop.Conditions
import ControlLoop.Json.Decode
import ControlLoop.Serial

namespace ControlLoop.Condition

open Json (Fields Mismatch asString asInt64 asOption optionalField requiredField)

/-- The fields as they are written; an unknown generation is left out. -/
def toSerial (c : Condition) : Serial :=
  .record ([(.text "type", .string c.topic), (.text "status", .string c.status),
      (.text "lastTransitionTime", .string c.lastTransitionTime),
      (.text "reason", .string c.reason), (.text "message", .string c.message)]
    ++ match c.observedGeneration with
      | none => []
      | some n => [(.text "observedGeneration", .int n)])

/-- The fields that hold texts. -/
def textFields : List String := ["type", "status", "lastTransitionTime", "reason", "message"]

/-- Whether the value of a field has the right type; unknown fields may hold anything. -/
def checkField (k : String) (v : Json) : Except Mismatch Unit :=
  if k ∈ textFields then (asString v).map fun _ => ()
  else if k = "observedGeneration" then (asOption asInt64 v).map fun _ => ()
  else .ok ()

def checkFields : Fields → Except Mismatch Unit
  | [] => .ok ()
  | (k, v) :: rest => do
    checkField k v
    checkFields rest

/-- Read a condition from the fields of an object. -/
def ofFields (fields : Fields) : Except Mismatch Condition := do
  checkFields fields
  .ok {
    topic := ← requiredField asString "type" fields
    status := ← requiredField asString "status" fields
    lastTransitionTime := ← requiredField asString "lastTransitionTime" fields
    reason := ← requiredField asString "reason" fields
    message := ← requiredField asString "message" fields
    observedGeneration := ← optionalField asInt64 "observedGeneration" fields }

/-- The value at a place in a list that must have it. -/
def itemAt (read : Json → Except Mismatch α) (items : List Json) (i : Nat) :
    Except Mismatch α :=
  match items[i]? with
  | none => .error (.wrongLength i "struct Condition with 6 elements")
  | some v => read v

/-- Read a condition from the list of its values. -/
def ofItems (items : List Json) : Except Mismatch Condition := do
  let c : Condition := {
    topic := ← itemAt asString items 0
    status := ← itemAt asString items 1
    lastTransitionTime := ← itemAt asString items 2
    reason := ← itemAt asString items 3
    message := ← itemAt asString items 4
    observedGeneration := ← itemAt (asOption asInt64) items 5 }
  if items.length = 6 then .ok c
  else .error (.wrongLength items.length "fewer elements in array")

/-- Read a condition. -/
def ofJson : Json → Except Mismatch Condition
  | .object fields => ofFields fields
  | .array items => ofItems items
  | v => .error (.wrongType v.described "struct Condition")

end ControlLoop.Condition
