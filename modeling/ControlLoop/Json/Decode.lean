/-
Reading typed data out of JSON values.
-/
import ControlLoop.Json.Failure
import ControlLoop.SortedMap

namespace ControlLoop.Json

-- ======================================================== values

def asString : Json → Except Mismatch String
  | .string s => .ok s
  | v => .error (.wrongType v.described "a string")

def asBool : Json → Except Mismatch Bool
  | .bool b => .ok b
  | v => .error (.wrongType v.described "a boolean")

/-- An integer in a range whose end is left out. -/
def asIntIn (low high : Int) (expected : String) : Json → Except Mismatch Int
  | .int n =>
    if low ≤ n ∧ n < high then .ok n
    else .error (.wrongValue (Json.int n).described expected)
  | v => .error (.wrongType v.described expected)

/-- An integer of 64 bits with sign. -/
def asInt64 : Json → Except Mismatch Int :=
  asIntIn (-0x8000000000000000) 0x8000000000000000 "i64"

/-- A whole number of 64 bits. -/
def asNat64 (v : Json) : Except Mismatch Nat :=
  (asIntIn 0 0x10000000000000000 "u64" v).map Int.toNat

def asList (read : Json → Except Mismatch α) : Json → Except Mismatch (List α)
  | .array items => items.mapM read
  | v => .error (.wrongType v.described "a sequence")

/-- Nothing, where there is null. -/
def asOption (read : Json → Except Mismatch α) : Json → Except Mismatch (Option α)
  | .null => .ok none
  | v => (read v).map some

/-- The fields of an object. -/
def asFields : Json → Except Mismatch Fields
  | .object fields => .ok fields
  | v => .error (.wrongType v.described "a map")

def asTextMap (v : Json) : Except Mismatch (SortedMap String String) := do
  .ok (SortedMap.ofList (← (← asFields v).mapM fun (k, v) => do .ok (k, ← asString v)))

-- ======================================================== fields

/-- A field that must be there. -/
def requiredField (read : Json → Except Mismatch α) (name : String) (fields : Fields) :
    Except Mismatch α :=
  match Entries.lookup name fields with
  | some v => read v
  | none => .error (.missingField name)

/-- A field that may be missing or null. -/
def optionalField (read : Json → Except Mismatch α) (name : String) (fields : Fields) :
    Except Mismatch (Option α) :=
  asOption read (field name fields)

end ControlLoop.Json
