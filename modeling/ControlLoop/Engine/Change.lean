/-
A short description of how two values differ: the fields that differ,
at most two levels deep, in the order of their names. A field that is
absent counts as null.
-/
import ControlLoop.Serial

namespace ControlLoop.Change

/-- What is said when no field can be named. -/
def fallback : String := "pending disruptive update"

/-- How deep fields are named. -/
def maxDepth : Nat := 2

/-- The names that occur on either side, in order. -/
def fieldNames (before after : List (String × Json)) : List String :=
  (SortedMap.ofKeys (before.map (·.1) ++ after.map (·.1))).keys

/-- A field below a path; the path of the whole is empty. -/
def below (path field : String) : String := if path.isEmpty then field else s!"{path}.{field}"

/-- The paths at which two values differ. The whole has no path of its own. -/
def paths (path : String) : Nat → Json → Json → List String
  | depth + 1, .object before, .object after =>
    (fieldNames before after).flatMap fun f =>
      let b := Json.field f before
      let a := Json.field f after
      if b.same a then [] else paths (below path f) depth b a
  | _, before, after => if before.same after || path.isEmpty then [] else [path]

/-- The description of a change from one value to another. -/
def describe (before after : Json) : String :=
  match paths "" maxDepth before after with
  | [] => fallback
  | ps => "changes to " ++ ", ".intercalate ps

/-- The description of a change between values that have yet to be written. -/
def describeSerial (before after : Serial) : String :=
  match before.toJson, after.toJson with
  | .ok b, .ok a => describe b a
  | _, _ => fallback

end ControlLoop.Change
