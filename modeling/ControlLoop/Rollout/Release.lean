/-
Which member of a cascading group is released next.

An unhealthy member in flight ends the cascade, and one member at most
is in flight. The primary goes last; among the others the one whose
drain has come furthest goes first, and then the one with the smaller
id.
-/
import ControlLoop.Drain
import ControlLoop.Rollout

namespace ControlLoop.Rollout

/-- A member of a group as the choice of the next release sees it. -/
structure Candidate where
  id : String
  scheduled : Bool
  released : Bool
  healthy : Bool
  primary : Bool
  drain : DrainState
  deriving DecidableEq

/-- What to do about a cascade. -/
inductive Decision where
  /-- Release this member now. -/
  | release (id : String)
  /-- A release is in flight. -/
  | wait
  /-- A released member is unhealthy. -/
  | abort (id : String)
  /-- Nothing is scheduled. -/
  | done
  deriving DecidableEq, Repr

namespace Candidate

/-- Waiting to be released. -/
def isWaiting (c : Candidate) : Bool := c.scheduled && !c.released

/-- In flight: released and not done yet. -/
def isInFlight (c : Candidate) : Bool := c.released && c.scheduled

/-- In flight and unwell. -/
def isSick (c : Candidate) : Bool := c.released && !c.healthy

/-- The order of release. -/
def order (a b : Candidate) : Ordering :=
  (compare a.primary b.primary).then
    ((compare b.drain.rank a.drain.rank).then (compare a.id b.id))

end Candidate

/-- The first of the members that no other precedes. -/
def firstInOrder : List Candidate → Option Candidate
  | [] => none
  | c :: cs =>
    match firstInOrder cs with
    | none => some c
    | some best => some (if (c.order best).isLE then c else best)

/-- The next step of a cascade. -/
def next (candidates : List Candidate) : Decision :=
  match candidates.find? Candidate.isSick with
  | some sick => .abort sick.id
  | none =>
    if candidates.any Candidate.isInFlight then .wait
    else
      match firstInOrder (candidates.filter Candidate.isWaiting) with
      | some c => .release c.id
      | none => .done

end ControlLoop.Rollout
