/-
What the library asks of a store of objects: listing, reading, creating,
replacing and deleting, each of which may fail.

A replace carries the version of the object that it is based on and is
refused if someone else wrote first. A store is a record of functions
on a state of its own, so a store in memory, one behind a connection
and one that anybody else writes to are all stores in the same sense.
-/
import ControlLoop.Error
import ControlLoop.Object

namespace ControlLoop

/-- What becomes of the objects that depend on a deleted one. -/
inductive Propagation where
  | background
  | foreground
  | orphan
  deriving DecidableEq, Repr

def Propagation.text : Propagation → String
  | .background => "Background"
  | .foreground => "Foreground"
  | .orphan => "Orphan"

/-- A store of objects with bodies `β`, on states `σ`. -/
structure Store (σ β : Type) where
  /-- The objects in a namespace that carry every label of a selector. -/
  list : (space : String) → (selector : TextMap) → σ → Except Error (List (Object β)) × σ
  get : Key → σ → Except Error (Option (Object β)) × σ
  /-- Fails with a conflict if the name is taken. -/
  create : Object β → σ → Except Error (Object β) × σ
  /-- Fails with a conflict if the object was written since the version it carries. -/
  replace : Object β → σ → Except Error (Object β) × σ
  delete : Key → Propagation → σ → Except Error Unit × σ

/-- The objects of a namespace that carry every label of a selector, in key order. -/
def Object.matching {β : Type} (objects : SortedMap Key (Object β)) (space : String)
    (selector : TextMap) : List (Object β) :=
  (objects.toList.filter fun (k, o) =>
    k.space = space && o.metadata.matchesLabels selector).map (·.2)

end ControlLoop
