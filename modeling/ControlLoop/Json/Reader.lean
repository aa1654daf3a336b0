/-
Reading typed data out of JSON text.

A reader takes a value of its type from the front of a text. It stops
at the first thing that does not fit, be it the grammar or a type, so
of two faults the one that stands first counts. A value of the wrong
type is read to its end before it is refused, unless it is a list or an
object.

Two kinds of records are told apart. In a tolerant one a field may come
more than once; each time it must be well formed, and the last one
counts. In a strict one no field that is known may be repeated, and the
record may also be a list of its values in their order. Fields that are
not known are passed over in both.
-/
import ControlLoop.Json.Skipping
import ControlLoop.SortedMap

namespace ControlLoop.Json

/-- What takes a value from the front of a text, and leaves the rest. -/
abbrev Reader (α : Type) := List Char → Except Stop (α × List Char)

namespace Reader

/-- The text in front of this rest held something else than was wanted. -/
def misfit (m : Mismatch) (rest : List Char) : Except Stop α := .error ⟨.mismatch m, rest, 0⟩

/-- The next value is not of the type that is wanted. -/
def wrongType (expected : String) (cs : List Char) : Except Stop α :=
  match skipSpace cs with
  | '[' :: cs => misfit (.wrongType (Json.array []).described expected) ('[' :: cs)
  | '\x7b' :: cs => misfit (.wrongType (Json.object []).described expected) ('\x7b' :: cs)
  | cs => do
    let (v, rest) ← readValue 0 (fuelFor cs) cs
    misfit (.wrongType v.described expected) rest

-- ================================================== scalars

/-- A text that means something; what does not is refused behind it. -/
def textOf (expected : String) (meaning : String → Except Mismatch α) : Reader α := fun cs =>
  match skipSpace cs with
  | '"' :: cs => do
    let (s, cs) ← readString [] (fuelFor cs) cs
    match meaning s with
    | .ok a => .ok (a, cs)
    | .error m => misfit m cs
  | cs => wrongType expected cs

def text : Reader String := textOf "a string" .ok

def truth : Reader Bool := fun cs =>
  match skipSpace cs with
  | 't' :: cs => do .ok (true, ← readIdent ['r', 'u', 'e'] cs)
  | 'f' :: cs => do .ok (false, ← readIdent ['a', 'l', 's', 'e'] cs)
  | cs => wrongType "a boolean" cs

/-- An integer in a range whose end is left out. -/
def integer (low high : Int) (expected : String) : Reader Int := fun cs =>
  match skipSpace cs with
  | c :: cs =>
    if c = '-' || c.isDigit then do
      let (v, rest) ← readValue 0 (fuelFor (c :: cs)) (c :: cs)
      match v with
      | .int n =>
        if low ≤ n ∧ n < high then .ok (n, rest)
        else misfit (.wrongValue v.described expected) rest
      | v => misfit (.wrongType v.described expected) rest
    else wrongType expected (c :: cs)
  | [] => wrongType expected []

/-- An integer of 64 bits with sign. -/
def int64 : Reader Int := integer (-0x8000000000000000) 0x8000000000000000 "i64"

/-- Null. -/
def nothing : Reader Unit := fun cs =>
  match skipSpace cs with
  | 'n' :: cs => do .ok ((), ← readIdent ['u', 'l', 'l'] cs)
  | cs => wrongType "null" cs

/-- Nothing, where there is null. -/
def nullable (read : Reader α) : Reader (Option α) := fun cs =>
  match skipSpace cs with
  | 'n' :: cs => do .ok (none, ← readIdent ['u', 'l', 'l'] cs)
  | cs => do
    let (a, cs) ← read cs
    .ok (some a, cs)

/-- Read and forget. -/
def checked (read : Reader α) : Reader Unit := fun cs => do .ok ((), (← read cs).2)

-- ================================================== lists

/-- The items of a list up to its bracket; `seen` holds those read, last first. Every item takes
a character, so more fuel than there is text is enough. -/
def items (read : Reader α) (first : Bool) (seen : List α) : Nat → Reader (List α)
  | 0, cs => stopBefore .endInList cs
  | fuel + 1, cs => do
    match ← nextItem first cs with
    | none => .ok (seen.reverse, behindBracket cs)
    | some cs =>
      let (a, cs) ← read cs
      items read false (a :: seen) fuel cs

def list (read : Reader α) : Reader (List α) := fun cs =>
  match skipSpace cs with
  | '[' :: cs => items read true [] (fuelFor cs) cs
  | cs => wrongType "a sequence" cs

-- ================================================== objects

/-- The fields of an object up to its brace. A step gets the key and what was read before, in front
of the colon. -/
def fields (step : String → α → Reader α) (first : Bool) (a : α) : Nat → Reader α
  | 0, cs => stopBefore .endInObject cs
  | fuel + 1, cs => do
    match ← nextKey first (fuelFor cs) cs with
    | none => .ok (a, behindBrace cs)
    | some (k, cs) =>
      let (a, cs) ← step k a cs
      fields step false a fuel cs

/-- An object, field by field from a start. -/
def object (expected : String) (step : String → α → Reader α) (start : α) : Reader α := fun cs =>
  match skipSpace cs with
  | '\x7b' :: cs => fields step true start (fuelFor cs) cs
  | cs => wrongType expected cs

/-- Texts under texts. -/
def textMap : Reader (SortedMap String String) :=
  object "a map" (fun k m cs => do
    let (s, cs) ← text (← readColon cs)
    .ok (m.insert k s, cs)) ∅

end Reader

-- ================================================== records

/-- A known field of a record: its name, and how its value is read into what was read of the record
before. -/
structure FieldReader (α : Type) where
  name : String
  read : α → Reader α

namespace FieldReader

/-- A field that sets something. -/
def ofSet (name : String) (read : Reader β) (set : β → α → α) : FieldReader α where
  name := name
  read a cs := do
    let (b, cs) ← read cs
    .ok (set b a, cs)

/-- A field of a part as a field of the whole. -/
def within (part : α → β) (put : β → α → α) (f : FieldReader β) : FieldReader α where
  name := f.name
  read a cs := do
    let (b, cs) ← f.read (part a) cs
    .ok (put b a, cs)

/-- A field whose value only has to be of a type. -/
def ofCheck (name : String) (read : Reader β) : FieldReader α := ofSet name read fun _ a => a

end FieldReader

namespace Reader

/-- Pass over a value. -/
def skipped : Reader Unit := fun cs => do .ok ((), ← skipValue (fuelFor cs) cs)

/-- Read a value in which so many levels may open. -/
def value (depth : Nat) : Reader Json := fun cs => readValue depth (fuelFor cs) cs

/-- The value of a field, which a reader takes where the field is not known. -/
def fieldValue (known : List (FieldReader α)) (unknown : Reader Unit) (k : String) (a : α) :
    Reader α := fun cs => do
  let cs ← readColon cs
  match known.find? (·.name = k) with
  | some f => f.read a cs
  | none => do .ok (a, (← unknown cs).2)

/-- A tolerant record. A list is entered before it is refused. -/
def record (expected : String) (known : List (FieldReader α)) (start : α) : Reader α := fun cs =>
  match skipSpace cs with
  | '[' :: cs => misfit (.wrongType (Json.array []).described expected) (behindMisfit cs)
  | cs => object expected (fieldValue known skipped) start cs
where
  /-- The text behind the bracket or the comma that comes next. -/
  behindMisfit (cs : List Char) : List Char :=
    match skipSpace cs with
    | ']' :: cs => cs
    | ',' :: cs => skipSpace cs
    | cs => cs

/-- A field of a strict record, and the names of the known ones that came so far. -/
def uniqueField (known : List (FieldReader α)) (unknown : Reader Unit) (k : String)
    (state : List String × α) : Reader (List String × α) := fun cs => do
  let (seen, a) := state
  if seen.contains k then misfit (.duplicateField k) (behindBrace cs)
  else
    let (a, cs) ← fieldValue known unknown k a cs
    .ok ((if known.any (·.name = k) then k :: seen else seen, a), cs)

/-- A strict record that is an object, with the fields that it must have. -/
def strictObject (expected : String) (known : List (FieldReader α)) (unknown : Reader Unit)
    (required : List String) (start : α) : Reader α := fun cs => do
  let ((seen, a), cs) ← object expected (uniqueField known unknown) ([], start) cs
  match required.find? (!seen.contains ·) with
  | some name => misfit (.missingField name) cs
  | none => .ok (a, cs)

/-- The values of a strict record as the items of a list, of which so many came before. Fields at
the end may be missing, unless they are required. -/
def strictItems (expected : String) (required : List String) (count : Nat) (a : α) :
    List (FieldReader α) → Reader α
  | [], cs => do
    match ← nextItem (count == 0) cs with
    | none => .ok (a, behindBracket cs)
    | some cs => stopBefore .trailingCharacters cs
  | f :: fs, cs => do
    match ← nextItem (count == 0) cs with
    | none =>
      if (f :: fs).any (required.contains ·.name) then
        misfit (.wrongLength count expected) (behindBracket cs)
      else .ok (a, behindBracket cs)
    | some cs =>
      let (a, cs) ← f.read a cs
      strictItems expected required (count + 1) a fs cs

/-- A strict record, with the fields that it must have. -/
def strictRecord (expected : String) (known : List (FieldReader α)) (required : List String)
    (start : α) : Reader α := fun cs =>
  match skipSpace cs with
  | '[' :: cs => strictItems s!"{expected} with {known.length} elements" required 0 start known cs
  | cs => strictObject expected known skipped required start cs

end Reader

end ControlLoop.Json
