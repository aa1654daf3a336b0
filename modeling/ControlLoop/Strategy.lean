/-
What the library is told about one kind of children.

A strategy builds new objects and brings existing ones up to date. Its
update functions get the object as it is stored and change only what
they own; the result is compared with what is stored, so a function
that turns an absent field into an empty one causes a write each time.
A strategy has a state of its own, in which it can keep what it is
shown, and which each of its functions that is given a key may change.
-/
import ControlLoop.Conditions
import ControlLoop.Store

namespace ControlLoop

/-- How a released disruptive change is made. -/
inductive UpdateMode where
  /-- Delete the object, so that it is created anew. -/
  | recreate
  /-- Write the change onto the object. -/
  | inPlace
  deriving DecidableEq, Repr

/-- A strategy for objects with bodies `β`, on states `τ`. -/
structure Strategy (τ β : Type) where
  /-- The wanted object, without names, selector labels and owner. -/
  newObject : Key → τ → Object β × τ
  /-- Changes that disturb nobody. -/
  updateInPlace : Key → Object β → τ → Object β × τ := fun _ o t => (o, t)
  /-- Disruptive changes, where they are written onto the object. -/
  rollInPlace : Key → Object β → τ → Object β × τ := fun _ o t => (o, t)
  /-- Disruptive changes, where any difference means that the object is created anew. -/
  rollRecreate : Key → Object β → τ → Object β × τ := fun _ o t => (o, t)
  updateMode : τ → UpdateMode := fun _ => .recreate
  propagation : τ → Propagation := fun _ => .background
  /-- Shown each object that exists, also one that is kept from going. -/
  status : Key → Object β → τ → τ := fun _ _ t => t
  /-- A reason to keep an object that nobody wants. -/
  prepareTurndown : Key → Object β → τ → Option OrphanStatus × τ := fun _ _ t => (none, t)
  /-- Shown each object that is kept from going, with the reason. -/
  orphanStatus : Key → Object β → OrphanStatus → τ → τ := fun _ _ _ t => t

/-- The disruptive changes of a mode. -/
def Strategy.roll {τ β : Type} (s : Strategy τ β) :
    UpdateMode → Key → Object β → τ → Object β × τ
  | .recreate => s.rollRecreate
  | .inPlace => s.rollInPlace

end ControlLoop
