/-
A group and its history, for a controller that may look at an old
state of it.

A pass computes the next steps from one state of the history and writes
some of them, each only if the member still is as it was in that state.
-/
import ControlLoop.Drain.Group

namespace ControlLoop.Drain

variable {ι : Type} [Ord ι] [Std.TransOrd ι]

/-- The states a group has been in: the latest one, and all of them from the first on. -/
structure History (ι : Type) [Ord ι] where
  current : Group ι
  states : List (Group ι)

namespace History

/-- A history that begins now. -/
def start (g : Group ι) : History ι := ⟨g, [g]⟩

/-- Go on to a new state. -/
def push (h : History ι) (g : Group ι) : History ι := ⟨g, h.states ++ [g]⟩

/-- The state a pass looks at: the latest where none is named. -/
def view (h : History ι) : Option Nat → Group ι
  | none => h.current
  | some n => h.states.getD n h.current

end History

/-- Write a step if the member still is as the pass saw it. -/
def Group.writeUnchanged (seen live : Group ι) (id : ι) (s : DrainState) : Group ι :=
  if live.get? id = seen.get? id then live.insert id s else live

/-- What happens to a group. -/
inductive Event (ι : Type) where
  | set (id : ι) (s : DrainState)
  | remove (id : ι)
  /-- A pass over a state of the history; where ids are given, only their steps are written. -/
  | pass (view : Option Nat) (only : Option (List ι))

/-- Let an event happen: the steps that a pass computed, and the history after it. -/
def History.step [DecidableEq ι] (h : History ι) : Event ι → Option (Group ι) × History ι
  | .set id s => (none, h.push (h.current.insert id s))
  | .remove id => (none, h.push (h.current.erase id))
  | .pass view only =>
    let seen := h.view view
    let steps := seen.transitions
    let chosen := steps.toList.filter fun (id, _) => (only.map (·.contains id)).getD true
    let live := chosen.foldl (fun live (id, s) => Group.writeUnchanged seen live id s) h.current
    (some steps, h.push live)

end ControlLoop.Drain
