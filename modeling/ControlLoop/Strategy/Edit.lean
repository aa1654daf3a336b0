/-
Single changes to a config map, as data. A list of them describes what
a strategy does to an object.
-/
import ControlLoop.Digest.DesiredState
import ControlLoop.Drain
import ControlLoop.Object.ConfigMap
import ControlLoop.Rollout

namespace ControlLoop

/-- A change to a config map. -/
inductive Edit where
  | setData (field value : String)
  | removeData (field : String)
  /-- Leave no map of data at all. -/
  | clearData
  /-- Have a map of data, if only an empty one. -/
  | touchData
  | setLabel (field value : String)
  | removeLabel (field : String)
  | annotate (field value : String)
  | unannotate (field : String)
  | setImmutable (value : Option Bool)
  /-- Write the digest of one named text. -/
  | digest (name value : String)
  | schedule (description : String)
  | release
  | unrelease
  /-- Ask for the deletion of the object. -/
  | terminate
  | markSupported
  | startDrain (reason : String)
  | applyDrain (state : DrainState)
  | setVersion (version : Option String)
  /-- Leave no list of owners at all. -/
  | dropOwners

namespace Edit

/-- What stands for the name of the object in a value. -/
def namePlace : String := "\x7bname\x7d"

/-- A value with the name of the object put in. -/
def fill (name value : String) : String := value.replace namePlace name

/-- When an object was asked to go, where the moment does not matter. -/
def someInstant : Timestamp := ⟨2024, 1, 1, 0, 0, 0⟩

def modifyData (f : Option TextMap → Option TextMap) (o : Object ConfigMap) : Object ConfigMap :=
  { o with body := { o.body with data := f o.body.data } }

/-- Make a change at a time to an object under a name. -/
def apply (now name : String) (o : Object ConfigMap) : Edit → Object ConfigMap
  | .setData k v => modifyData (fun d => some ((d.getD ∅).insert k (fill name v))) o
  | .removeData k => modifyData (·.map (·.erase k)) o
  | .clearData => modifyData (fun _ => none) o
  | .touchData => modifyData (fun d => some (d.getD ∅)) o
  | .setLabel k v =>
    o.modifyMetadata fun m => { m with labels := some (m.labelMap.insert k (fill name v)) }
  | .removeLabel k => o.modifyMetadata fun m => { m with labels := m.labels.map (·.erase k) }
  | .annotate k v => o.modifyMetadata (·.annotate k (fill name v))
  | .unannotate k => o.modifyMetadata (·.unannotate k)
  | .setImmutable b => { o with body := { o.body with immutable := b } }
  | .digest n v => o.modifyMetadata (DesiredState.empty.addText n (fill name v)).annotate
  | .schedule d => o.modifyMetadata (Rollout.schedule d)
  | .release => o.modifyMetadata Rollout.release
  | .unrelease => o.modifyMetadata Rollout.unrelease
  | .terminate => o.modifyMetadata fun m => { m with deletionTimestamp := some someInstant }
  | .markSupported => o.modifyMetadata Drain.markSupported
  | .startDrain reason => o.modifyMetadata (Drain.start reason)
  | .applyDrain s => o.modifyMetadata (Drain.apply now s)
  | .setVersion v => o.modifyMetadata fun m => { m with resourceVersion := v }
  | .dropOwners => o.modifyMetadata fun m => { m with ownerReferences := none }

/-- Make changes in order. -/
def applyAll (now name : String) (edits : List Edit) (o : Object ConfigMap) : Object ConfigMap :=
  edits.foldl (apply now name) o

end Edit

end ControlLoop
