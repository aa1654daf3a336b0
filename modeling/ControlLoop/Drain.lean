/-
The drain protocol: how the members of a group are taken away so that
at most one at a time has leave to go.

The state of a member lives in annotations on it. `started` holds the
reason someone gave for the drain, `acknowledged` and `finished` the
time at which the controller reached that step; `finished` without
`acknowledged` is never written, so it is reported and not guessed at.
The time of writing is a parameter of every function that writes it.
-/
import ControlLoop.Error
import ControlLoop.Object.Metadata

namespace ControlLoop

/-- How far the drain of a member has come. -/
inductive DrainState where
  | notDraining
  | draining
  | acknowledged
  | finished
  deriving DecidableEq, Repr

namespace DrainState

def text : DrainState → String
  | .notDraining => "NotDraining"
  | .draining => "Draining"
  | .acknowledged => "Acknowledged"
  | .finished => "Finished"

/-- Later steps have higher ranks. -/
def rank : DrainState → Nat
  | .notDraining => 0
  | .draining => 1
  | .acknowledged => 2
  | .finished => 3

end DrainState

namespace Drain

def supportedMark : String := "drain.dbcluster.io/supported"

def startedMark : String := "drain.dbcluster.io/started"

def acknowledgedMark : String := "drain.dbcluster.io/acknowledged"

def finishedMark : String := "drain.dbcluster.io/finished"

/-- What the `supported` annotation tells its readers. -/
def supportedValue : String := "ensure that the drain protocol is followed before deleting"

/-- Whether the object is marked as following the protocol. -/
def isSupported (m : Metadata) : Bool := m.isAnnotated supportedMark

def markSupported (m : Metadata) : Metadata := m.annotate supportedMark supportedValue

/-- Annotations that describe no state. -/
def invalidState (m : Metadata) : Error :=
  .invalidDrainState m.key.text s!"{finishedMark} is set without {acknowledgedMark}"

/-- The state that the annotations describe. -/
def state (m : Metadata) : Except Error DrainState :=
  match m.isAnnotated acknowledgedMark, m.isAnnotated finishedMark with
  | false, true => .error (invalidState m)
  | true, true => .ok .finished
  | true, false => .ok .acknowledged
  | false, false =>
    if m.isAnnotated startedMark then .ok .draining else .ok .notDraining

/-- Ask for a drain; an earlier request keeps its reason. -/
def start (reason : String) (m : Metadata) : Metadata :=
  m.modifyAnnotations (·.insertIfNew startedMark reason)

/-- Note that the controller works on the drain. -/
def acknowledge (now : String) (m : Metadata) : Metadata :=
  m.modifyAnnotations fun as =>
    (as.insertIfNew startedMark "").insertIfNew acknowledgedMark now

/-- Note that the member may go. -/
def finish (now : String) (m : Metadata) : Metadata :=
  (acknowledge now m).modifyAnnotations (·.insertIfNew finishedMark now)

/-- Remove every annotation of the protocol but `supported`. -/
def clear (m : Metadata) : Metadata :=
  ((m.unannotate startedMark).unannotate acknowledgedMark).unannotate
    finishedMark

/-- Make the annotations describe a state; what is there and belongs to the state stays. -/
def apply (now : String) (s : DrainState) (m : Metadata) : Metadata :=
  match s with
  | .notDraining => clear m
  | .draining =>
    start "" (m.modifyAnnotations fun as =>
      (as.erase acknowledgedMark).erase finishedMark)
  | .acknowledged => acknowledge now (m.modifyAnnotations (·.erase finishedMark))
  | .finished => finish now m

end Drain

end ControlLoop
