/-
Stored objects: metadata, which all kinds share, and a body, which is
the kind's own.
-/
import ControlLoop.Object.Encoding

namespace ControlLoop

open Json (Reader FieldReader behindBrace)
open Json.Reader (text nullable record misfit)

/-- A kind of object, by the type of its bodies. -/
class Resource (β : Type) where
  /-- The group and version of the API that serves the kind. -/
  apiVersion : String
  kind : String
  /-- The name of the kind in paths. -/
  plural : String
  /-- The fields of a body in the JSON form of an object. -/
  bodyFields : β → Json.Fields
  /-- The body of an object that has none of its fields. -/
  emptyBody : β
  /-- How the fields of a body are read. -/
  knownFields : List (FieldReader β)

/-- An object of one kind. -/
structure Object (β : Type) where
  metadata : Metadata
  body : β
  deriving DecidableEq

namespace Object

variable {β : Type}

def key (o : Object β) : Key := o.metadata.key

/-- Change the metadata alone. -/
def modifyMetadata (o : Object β) (f : Metadata → Metadata) : Object β :=
  { o with metadata := f o.metadata }

variable [Resource β]

/-- The JSON form of an object, which names its kind. -/
def toJson (o : Object β) : Json :=
  Json.ofFields ([("apiVersion", .string (Resource.apiVersion β)),
      ("kind", .string (Resource.kind β)), ("metadata", o.metadata.toJson)]
    ++ Resource.bodyFields o.body)

/-- A field that may be missing, but holds no other than this text. Another one is refused behind
the object, if that ends here. -/
def fixedField (name expected : String) : FieldReader (Object β) where
  name := name
  read o cs := do
    let (s, cs) ← text cs
    if s = expected then .ok (o, cs)
    else misfit (.wrongValue (Json.string s).described expected) (behindBrace cs)

/-- Read an object. Absent metadata is empty; a version or kind that is given must be the
kind's. -/
def reader : Reader (Object β) :=
  record (Resource.kind β)
    ([fixedField "apiVersion" (Resource.apiVersion β), fixedField "kind" (Resource.kind β),
      .ofSet "metadata" (nullable Metadata.reader) fun m o =>
        { o with metadata := m.getD Metadata.empty }]
      ++ Resource.knownFields.map (.within body fun b o => { o with body := b }))
    ⟨Metadata.empty, Resource.emptyBody⟩

end Object

end ControlLoop
