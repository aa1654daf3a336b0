/-
A store in memory, with versions and with failures on request.

Every write gives the object a new version, never one that was given
out before. Names are unique, a replace must carry the version that is
stored, and what is not there cannot be deleted. Writes to chosen names
and all lists can be made to fail; a failed call changes nothing.
-/
import ControlLoop.Store

namespace ControlLoop

/-- The writes that a store in memory remembers. -/
inductive WriteKind where
  | create
  | replace
  | delete
  deriving DecidableEq, Repr

def WriteKind.text : WriteKind → String
  | .create => "create"
  | .replace => "replace"
  | .delete => "delete"

/-- The state of a store in memory. -/
structure Memory (β : Type) where
  objects : SortedMap Key (Object β)
  nextVersion : Nat
  /-- Every write that succeeded, in order. -/
  log : List (WriteKind × Key)
  /-- Names whose writes fail as unavailable. -/
  unavailable : SortedSet String
  /-- Names whose writes fail with a conflict. -/
  conflicting : SortedSet String
  listsFail : Bool

namespace Memory

variable {β : Type}

def empty : Memory β := ⟨∅, 1, [], ∅, ∅, false⟩

instance : Inhabited (Memory β) := ⟨empty⟩

-- ==================================================== reading

def object? (m : Memory β) (k : Key) : Option (Object β) := m.objects.get? k

def keys (m : Memory β) : List Key := m.objects.keys

/-- How often a key was written in a way. -/
def count (m : Memory β) (kind : WriteKind) (k : Key) : Nat := m.log.count (kind, k)

-- ==================================================== failures

def failWrites (m : Memory β) (name : String) : Memory β :=
  { m with unavailable := m.unavailable.insert name () }

def conflictWrites (m : Memory β) (name : String) : Memory β :=
  { m with conflicting := m.conflicting.insert name () }

def failLists (m : Memory β) : Memory β := { m with listsFail := true }

/-- End all failures on request. -/
def heal (m : Memory β) : Memory β :=
  { m with unavailable := ∅, conflicting := ∅, listsFail := false }

/-- The failure that a write to a key is to meet, if any. -/
def refusal? (m : Memory β) (k : Key) : Option Error :=
  if m.unavailable.contains k.name then some (.unavailable k.text)
  else if m.conflicting.contains k.name then some (.conflict k.text)
  else none

-- ====================================================== writing

/-- The text of a version. -/
def versionText (n : Nat) : String := toString n

/-- Give an object the next version. -/
def stamp (m : Memory β) (o : Object β) : Object β :=
  o.modifyMetadata fun md => { md with resourceVersion := some (versionText m.nextVersion) }

/-- Give an object that has no unique id one made from the next version. -/
def identify (m : Memory β) (o : Object β) : Object β :=
  o.modifyMetadata fun md =>
    { md with uid := md.uid <|> some ("uid-" ++ versionText m.nextVersion) }

/-- Store an object under its key and use up a version. -/
def put (m : Memory β) (o : Object β) : Memory β :=
  { m with objects := m.objects.insert o.key o, nextVersion := m.nextVersion + 1 }

def record (m : Memory β) (kind : WriteKind) (k : Key) : Memory β :=
  { m with log := m.log ++ [(kind, k)] }

/-- Put an object into the store without a write being made. -/
def seed (m : Memory β) (o : Object β) : Object β × Memory β :=
  let stored := m.stamp o
  (stored, m.put stored)

def create (m : Memory β) (o : Object β) : Except Error (Object β) × Memory β :=
  match m.refusal? o.key with
  | some e => (.error e, m)
  | none =>
    if m.objects.contains o.key then (.error (.conflict s!"{o.key.text} already exists"), m)
    else
      let stored := m.identify (m.stamp o)
      (.ok stored, (m.put stored).record .create o.key)

def replace (m : Memory β) (o : Object β) : Except Error (Object β) × Memory β :=
  match m.refusal? o.key with
  | some e => (.error e, m)
  | none =>
    match m.objects.get? o.key with
    | none => (.error (.notFound o.key.text), m)
    | some current =>
      if o.metadata.resourceVersion ≠ current.metadata.resourceVersion then
        (.error (.conflict o.key.text), m)
      else
        let stored := m.stamp o
        (.ok stored, (m.put stored).record .replace o.key)

def delete (m : Memory β) (k : Key) : Except Error Unit × Memory β :=
  match m.refusal? k with
  | some e => (.error e, m)
  | none =>
    if m.objects.contains k then
      (.ok (), { m with objects := m.objects.erase k }.record .delete k)
    else (.error (.notFound k.text), m)

def list (m : Memory β) (space : String) (selector : TextMap) :
    Except Error (List (Object β)) :=
  if m.listsFail then .error (.unavailable s!"list {space}")
  else .ok (Object.matching m.objects space selector)

/-- The store whose state is the memory. -/
def store : Store (Memory β) β where
  list space selector m := (m.list space selector, m)
  get k m := (.ok (m.object? k), m)
  create o m := m.create o
  replace o m := m.replace o
  delete k _ m := m.delete k

end Memory

end ControlLoop
