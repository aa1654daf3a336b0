/-
The digest of a desired state, composed of named contributions.

A contribution that is empty is skipped, so tracking a new field leaves
the digests of all objects alone until someone sets it. A name that
contributes again replaces what it contributed before.
-/
import ControlLoop.Digest.Content
import ControlLoop.Object.Metadata

namespace ControlLoop

/-- One part of a desired state. -/
inductive Contribution where
  | text (value : String)
  /-- Texts whose order does not matter. -/
  | set (values : List String)
  /-- Texts whose order matters. -/
  | list (values : List String)
  | map (m : TextMap)
  | value (v : Serial)

/-- Whether a value counts as nothing: null, false, a zero, or an empty text, list or object. -/
def Json.isVoid : Json → Bool
  | .null => true
  | .bool b => !b
  | .int n => n = 0
  | .float x => x.isZero
  | .string s => s.isEmpty
  | .array items => items.isEmpty
  | .object fields => fields.isEmpty

/-- The digest of a contribution; none for an empty one. A written value is brought into its
sorted form first. -/
def Contribution.digest? : Contribution → Except Json.Failure (Option String)
  | .text t => .ok (if t.isEmpty then none else some (Digest.ofSequence [t]))
  | .set values => .ok (if values.isEmpty then none else some (Digest.ofSet values))
  | .list values => .ok (if values.isEmpty then none else some (Digest.ofSequence values))
  | .map m => .ok (if m.isEmpty then none else some (Digest.ofMap m))
  | .value v => do
    let j ← v.toJson
    .ok (if j.isVoid then none else some (Digest.ofSequence [j.text]))

/-- The digests contributed so far, by name. -/
structure DesiredState where
  items : TextMap
  deriving DecidableEq

namespace DesiredState

def empty : DesiredState := ⟨∅⟩

def isEmpty (d : DesiredState) : Bool := d.items.isEmpty

/-- Record a contribution under a name, unless it is empty. -/
def add (d : DesiredState) (name : String) (c : Contribution) :
    Except Json.Failure DesiredState := do
  match ← c.digest? with
  | none => .ok d
  | some digest => .ok ⟨d.items.insert name digest⟩

/-- Record a text under a name, unless it is empty. -/
def addText (d : DesiredState) (name text : String) : DesiredState :=
  if text.isEmpty then d else ⟨d.items.insert name (Digest.ofSequence [text])⟩

/-- Record contributions one after the other. One that cannot be written is passed over, and the
last failure is told. -/
def addEach (d : DesiredState) : List (String × Contribution) → DesiredState × Option Json.Failure
  | [] => (d, none)
  | (name, c) :: rest =>
    match d.add name c with
    | .ok d => d.addEach rest
    | .error f =>
      let (d, later) := d.addEach rest
      (d, later <|> some f)

/-- The composed digest. -/
def digest (d : DesiredState) : String := Digest.ofMap d.items

-- ======================================================= on objects

/-- The annotation that holds the digest of the state an object was made for. -/
def mark : String := "dbcluster.io/desired-state-hash"

/-- Write the composed digest onto an object. -/
def annotate (d : DesiredState) (m : Metadata) : Metadata := m.annotate mark d.digest

/-- The digest that was written onto an object. -/
def recorded? (m : Metadata) : Option String := m.annotation? mark

end DesiredState

end ControlLoop
