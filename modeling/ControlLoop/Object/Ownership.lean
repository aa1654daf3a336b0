/-
Parents and the children they own.

A parent owns an object that carries a reference to its unique id; a
parent that has no id yet owns nothing.
-/
import ControlLoop.Object.Metadata

namespace ControlLoop

/-- The object that owns a set of generated children. -/
structure Parent where
  apiVersion : String
  kind : String
  name : String
  /-- The namespace of the parent and of its children. -/
  space : String
  uid : String
  deriving DecidableEq

namespace Parent

/-- An object of some kind as a parent. -/
def ofMetadata (apiVersion kind : String) (m : Metadata) : Parent :=
  ⟨apiVersion, kind, m.nameText, m.spaceText, m.uid.getD ""⟩

/-- The reference that every child carries. -/
def ownerReference (p : Parent) : OwnerReference :=
  ⟨p.apiVersion, p.kind, p.name, p.uid, some true, some true⟩

def owns (p : Parent) (m : Metadata) : Bool :=
  !p.uid.isEmpty && (m.ownerReferences.getD []).any fun o => o.uid = p.uid

/-- Add the reference to the parent, unless it owns the object already. -/
def adopt (p : Parent) (m : Metadata) : Metadata :=
  if p.owns m then m
  else { m with ownerReferences := some (m.ownerReferences.getD [] ++ [p.ownerReference]) }

end Parent

end ControlLoop
