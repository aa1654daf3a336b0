/-
The next steps of a group of members.

Every member that was asked to drain is acknowledged. Only while nobody
is asked to drain and nobody has finished, the first acknowledged
member in the order of the ids gets leave to go.
-/
import ControlLoop.Drain

namespace ControlLoop.Drain

variable {ι : Type} [Ord ι]

/-- The states of the members of a group, by id. -/
abbrev Group (ι : Type) [Ord ι] := SortedMap ι DrainState

/-- Someone is about to be acknowledged, or has leave to go. -/
def Group.isBlocked (g : Group ι) : Bool :=
  g.values.any fun s => s = .draining || s = .finished

/-- The first member that waits for leave to go. -/
def Group.firstAcknowledged (g : Group ι) : Option ι :=
  (g.toList.find? fun (_, s) => s = .acknowledged).map (·.1)

variable [Std.TransOrd ι]

/-- The members that move, with their new states. -/
def Group.transitions (g : Group ι) : Group ι :=
  let acknowledged := g.toList.filterMap fun (id, s) =>
    if s = .draining then some (id, DrainState.acknowledged) else none
  let promoted :=
    if g.isBlocked then none else g.firstAcknowledged.map fun id => (id, DrainState.finished)
  SortedMap.ofList (acknowledged ++ promoted.toList)

end ControlLoop.Drain
