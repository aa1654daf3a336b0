/-
A cascade over the config maps in a store: every one of them is a
candidate, and the one that is next is marked as released.
-/
import ControlLoop.Object.ConfigMap
import ControlLoop.Rollout.Release
import ControlLoop.Store.Memory

namespace ControlLoop.Rollout

/-- The data field that marks a primary. -/
def primaryField : String := "primary"

/-- The data field that marks an unhealthy member. -/
def sickField : String := "sick"

/-- How far the drain of an object has come; what describes no state counts as not draining. -/
def drainStateOf (m : Metadata) : DrainState := (Drain.state m).toOption.getD .notDraining

/-- An object as a candidate for release. -/
def Candidate.ofObject (o : Object ConfigMap) : Candidate where
  id := o.key.name
  scheduled := isScheduled o.metadata
  released := isReleased o.metadata
  healthy := !o.body.dataMap.contains sickField
  primary := o.body.dataMap.contains primaryField
  drain := drainStateOf o.metadata

/-- The stored objects as candidates, in key order. -/
def candidates (m : Memory ConfigMap) : List Candidate := m.objects.values.map Candidate.ofObject

/-- Mark the first object of a name as released. -/
def releaseStored (name : String) (m : Memory ConfigMap) : Memory ConfigMap :=
  match m.objects.values.find? (·.key.name = name) with
  | some o => (m.seed (o.modifyMetadata release)).2
  | none => m

/-- Take the next step of a cascade. -/
def cascadeStep (m : Memory ConfigMap) : Decision × Memory ConfigMap :=
  match next (candidates m) with
  | .release id => (.release id, releaseStored id m)
  | decision => (decision, m)

end ControlLoop.Rollout
