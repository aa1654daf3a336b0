/-
The drain protocol over the members in a store.

A pass reads the states of all members from one snapshot, works out who
moves, and writes each new state onto the snapshot's copy of the
member. The version that the copy carries makes sure that a member
which was written in the meantime is left alone.
-/
import ControlLoop.Drain.Group
import ControlLoop.Store.Memory

namespace ControlLoop.Drain

variable {β : Type}

/-- The stored objects of a moment, by key. -/
abbrev Snapshot (β : Type) := SortedMap Key (Object β)

namespace Snapshot

/-- The states of the members whose annotations describe one. -/
def group (snapshot : Snapshot β) : Group Key :=
  SortedMap.ofList (snapshot.toList.filterMap fun (k, o) =>
    match state o.metadata with
    | .ok s => some (k, s)
    | .error _ => none)

/-- What is wrong with the other members. -/
def errors (snapshot : Snapshot β) : List Error :=
  snapshot.toList.filterMap fun (_, o) =>
    match state o.metadata with
    | .ok _ => none
    | .error e => some e

end Snapshot

/-- A member that a pass moved, or tried to. -/
structure Move where
  member : Key
  state : DrainState
  /-- Why the write was refused. -/
  error : Option Error

/-- Write a state onto the snapshot's copy of a member. -/
def writeState (now : String) (snapshot : Snapshot β) (k : Key) (s : DrainState)
    (m : Memory β) : Option Error × Memory β :=
  match snapshot.get? k with
  | none => (none, m)
  | some o =>
    match m.replace (o.modifyMetadata (apply now s)) with
    | (.ok _, m) => (none, m)
    | (.error e, m) => (some e, m)

/-- Write states one after the other. -/
def writeStates (now : String) (snapshot : Snapshot β) :
    List (Key × DrainState) → Memory β → List Move × Memory β
  | [], m => ([], m)
  | (k, s) :: rest, m =>
    let (error, m) := writeState now snapshot k s m
    let (moves, m) := writeStates now snapshot rest m
    (⟨k, s, error⟩ :: moves, m)

/-- A pass over a snapshot: the members that were to move, and the store after it. -/
def pass (now : String) (snapshot : Snapshot β) (m : Memory β) : List Move × Memory β :=
  writeStates now snapshot (Snapshot.group snapshot).transitions.toList m

end ControlLoop.Drain
