/-
What every stored object says about itself: its names, the version it
was stored under, its labels and annotations, who owns it, and whether
it is being deleted.

An absent map of labels or annotations is kept apart from an empty one,
because a write is due whenever an object differs from the stored one
in anything at all.
-/
import ControlLoop.Object.Key
import ControlLoop.SortedMap
import ControlLoop.Timestamp

namespace ControlLoop

/-- An entry in the list of an object's owners. -/
structure OwnerReference where
  apiVersion : String
  kind : String
  name : String
  uid : String
  controller : Option Bool
  blockOwnerDeletion : Option Bool
  deriving DecidableEq

/-- The metadata of an object. -/
structure Metadata where
  name : Option String
  generateName : Option String
  /-- The namespace. -/
  space : Option String
  uid : Option String
  resourceVersion : Option String
  labels : Option TextMap
  annotations : Option TextMap
  /-- When the deletion of the object was asked for. -/
  deletionTimestamp : Option Timestamp
  ownerReferences : Option (List OwnerReference)
  deriving DecidableEq

namespace Metadata

def empty : Metadata := ⟨none, none, none, none, none, none, none, none, none⟩

instance : Inhabited Metadata := ⟨empty⟩

/-- The name, or the start of the name to be generated. -/
def nameText (m : Metadata) : String := (m.name <|> m.generateName).getD ""

/-- The namespace; empty for an object outside of namespaces. -/
def spaceText (m : Metadata) : String := m.space.getD ""

def key (m : Metadata) : Key := ⟨m.spaceText, m.nameText⟩

/-- Whether a reference made from the key finds the object: not where the namespace is there and
empty, as the reference then has none. -/
def isFoundByKey (m : Metadata) : Bool := m.key.refSpace = m.space

/-- Someone asked for the deletion of the object. -/
def isTerminating (m : Metadata) : Bool := m.deletionTimestamp.isSome

def labelMap (m : Metadata) : TextMap := m.labels.getD ∅

-- ================================================== annotations

def annotationMap (m : Metadata) : TextMap := m.annotations.getD ∅

def annotation? (m : Metadata) (k : String) : Option String := m.annotationMap.get? k

def isAnnotated (m : Metadata) (k : String) : Bool := m.annotationMap.contains k

/-- Change the annotations; an absent map is created. -/
def modifyAnnotations (m : Metadata) (f : TextMap → TextMap) : Metadata :=
  { m with annotations := some (f m.annotationMap) }

def annotate (m : Metadata) (k v : String) : Metadata :=
  m.modifyAnnotations (·.insert k v)

/-- Remove an annotation; an absent map stays absent and an emptied one stays. -/
def unannotate (m : Metadata) (k : String) : Metadata :=
  { m with annotations := m.annotations.map (·.erase k) }

-- ======================================================= labels

/-- Whether every label of a selector is there with the same value. -/
def matchesLabels (m : Metadata) (selector : TextMap) : Bool :=
  selector.toList.all fun (k, v) => m.labelMap.get? k = some v

/-- Add the labels of a map over those that are there. -/
def addLabels (m : Metadata) (labels : TextMap) : Metadata :=
  { m with labels := some (m.labelMap.union labels) }

end Metadata

/-- A label map as a list of equalities. -/
def selectorText (labels : TextMap) : String :=
  ",".intercalate (labels.toList.map fun (k, v) => s!"{k}={v}")

end ControlLoop
