/-
Status conditions of a parent object.

A list of conditions has one entry for each type. The transition time
of an entry moves only when its status does; everything else follows
the latest report. The turndown condition sums up the children that
were kept although nobody wants them any more.
-/
import ControlLoop.Object.Key

namespace ControlLoop

/-- One aspect of the status of an object. -/
structure Condition where
  /-- What the condition is about; `type` in the JSON form. -/
  topic : String
  status : String
  lastTransitionTime : String
  reason : String
  message : String
  observedGeneration : Option Int
  deriving DecidableEq

/-- Why an object that should go was kept. -/
structure OrphanStatus where
  reason : String
  message : String
  deriving DecidableEq

namespace Condition

def statusTrue : String := "True"

def statusFalse : String := "False"

/-- The condition that is true while children are kept from going. -/
def turndownBlocked : String := "TurndownBlocked"

/-- A newer report on the same topic. -/
def update (old new : Condition) : Condition :=
  { new with
    topic := old.topic
    lastTransitionTime :=
      if old.status = new.status then old.lastTransitionTime else new.lastTransitionTime }

/-- Report a condition: the entry on its topic is updated, a new topic is appended. -/
def set (c : Condition) : List Condition → List Condition
  | [] => [c]
  | old :: rest => if old.topic = c.topic then old.update c :: rest else old :: set c rest

/-- The entry on a topic. -/
def find? (topic : String) (cs : List Condition) : Option Condition :=
  cs.find? (·.topic = topic)

/-- Whether there is an entry on a topic and its status is true. -/
def isTrue (topic : String) (cs : List Condition) : Bool :=
  (find? topic cs).any (·.status = statusTrue)

/-- The reason that all share, if they do. -/
def sharedReason : List String → String
  | [] => "Multiple"
  | r :: rest => if rest.all (· = r) then r else "Multiple"

/-- Sum up the children that were kept. -/
def turndown (now : String) (orphans : SortedMap Key OrphanStatus) : Condition :=
  if orphans.isEmpty then
    { topic := turndownBlocked
      status := statusFalse
      lastTransitionTime := now
      reason := "NothingBlocked"
      message := "No children are waiting for turndown"
      observedGeneration := none }
  else
    { topic := turndownBlocked
      status := statusTrue
      lastTransitionTime := now
      reason := sharedReason (orphans.values.map (·.reason))
      message :=
        "; ".intercalate (orphans.toList.map fun (k, s) => s!"{k.text}: {s.message}")
      observedGeneration := none }

end Condition

end ControlLoop
