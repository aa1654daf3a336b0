/-
Strategies for config maps that are given as data.

A script lists the edits of each update function and the names that are
kept from going. It can also keep every object that follows the drain
protocol and has not finished. Its strategy reads a clock for each list
of edits that it makes, and remembers what it is shown.
-/
import ControlLoop.Clock
import ControlLoop.Strategy
import ControlLoop.Strategy.Edit

namespace ControlLoop

/-- A strategy for config maps, as data. -/
structure Script where
  /-- The object that creation starts from. -/
  base : Object ConfigMap
  create : List Edit
  inPlace : List Edit
  rollInPlace : List Edit
  rollRecreate : List Edit
  mode : UpdateMode
  propagation : Propagation
  /-- Names that are kept from going, and why. -/
  keep : SortedMap String OrphanStatus
  /-- Keep objects that follow the drain protocol until they have finished. -/
  drainGate : Bool
  /-- Nothing but creation is given. -/
  minimal : Bool

/-- The state of a scripted strategy: its clock, and what it was shown, oldest first. -/
structure Sightings where
  clock : Clock
  /-- The objects that exist, with their versions. -/
  statuses : List (Key × Option String)
  /-- The objects that were kept from going. -/
  orphans : List (Key × OrphanStatus)

/-- Nothing was shown yet. -/
def Sightings.start (clock : Clock) : Sightings := ⟨clock, [], []⟩

namespace Script

/-- The script that creates empty objects and changes nothing. -/
def empty : Script :=
  ⟨⟨Metadata.empty, ConfigMap.empty⟩, [], [], [], [], .recreate, .background, ∅, false, false⟩

/-- What is said of an object that is still draining. -/
def drainReason (m : Metadata) : Option OrphanStatus :=
  match Drain.state m with
  | .ok .finished => none
  | .ok s => some ⟨s.text, "waiting for drain"⟩
  | .error e => some ⟨e.kind, e.message⟩

/-- Why an object is kept from going, if it is. -/
def keepReason (s : Script) (k : Key) (m : Metadata) : Option OrphanStatus :=
  match s.keep.get? k.name with
  | some reason => some reason
  | none => if s.drainGate && Drain.isSupported m then drainReason m else none

/-- Make edits at the time that the clock shows. -/
def edited (edits : List Edit) (k : Key) (o : Object ConfigMap) (seen : Sightings) :
    Object ConfigMap × Sightings :=
  let (now, clock) := seen.clock.read
  (Edit.applyAll now k.name edits o, { seen with clock })

/-- The strategy of a script. -/
def strategy (s : Script) : Strategy Sightings ConfigMap :=
  let newObject := fun k => edited s.create k s.base
  if s.minimal then { newObject }
  else
    { newObject
      updateInPlace := edited s.inPlace
      rollInPlace := edited s.rollInPlace
      rollRecreate := edited s.rollRecreate
      updateMode := fun _ => s.mode
      propagation := fun _ => s.propagation
      status := fun k o seen =>
        { seen with statuses := seen.statuses ++ [(k, o.metadata.resourceVersion)] }
      prepareTurndown := fun k o seen => (s.keepReason k o.metadata, seen)
      orphanStatus := fun k _ reason seen =>
        { seen with orphans := seen.orphans ++ [(k, reason)] } }

end Script

end ControlLoop
