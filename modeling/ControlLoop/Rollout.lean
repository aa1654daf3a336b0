/-
The rollout protocol: disruptive changes wait until they are released.

A pending change is `scheduled` with a description of what would
change; someone with a wider view marks the object `released`; only
then is the change made. A parent marked `cascade` asks for its
children to be released one after the other. The three annotations are
independent of each other.
-/
import ControlLoop.Object.Metadata

namespace ControlLoop.Rollout

def scheduledMark : String := "rollout.dbcluster.io/scheduled"

def releasedMark : String := "rollout.dbcluster.io/released"

def cascadeMark : String := "rollout.dbcluster.io/cascade"

/-- Mark a pending change, with a description of what would change. -/
def schedule (description : String) (m : Metadata) : Metadata :=
  m.annotate scheduledMark description

def unschedule (m : Metadata) : Metadata := m.unannotate scheduledMark

def isScheduled (m : Metadata) : Bool := m.isAnnotated scheduledMark

/-- Allow the pending change to be made. -/
def release (m : Metadata) : Metadata := m.annotate releasedMark "true"

def unrelease (m : Metadata) : Metadata := m.unannotate releasedMark

def isReleased (m : Metadata) : Bool := m.isAnnotated releasedMark

/-- Ask for all scheduled children of a parent to be released in turn. -/
def cascade (m : Metadata) : Metadata := m.annotate cascadeMark "true"

def uncascade (m : Metadata) : Metadata := m.unannotate cascadeMark

def isCascading (m : Metadata) : Bool := m.isAnnotated cascadeMark

end ControlLoop.Rollout
