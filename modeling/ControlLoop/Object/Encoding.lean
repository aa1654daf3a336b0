/-
The JSON form of metadata. Fields that are absent are left out, and
fields that mean nothing here are passed over.
-/
import ControlLoop.Json.Reader
import ControlLoop.Object.Ownership

namespace ControlLoop

open Json (Reader FieldReader fieldFor)
open Json.Reader (text textOf textMap truth nullable list record)

namespace OwnerReference

def toJson (o : OwnerReference) : Json :=
  Json.ofFields ([("apiVersion", .string o.apiVersion), ("kind", .string o.kind),
      ("name", .string o.name), ("uid", .string o.uid)]
    ++ fieldFor "controller" .bool o.controller
    ++ fieldFor "blockOwnerDeletion" .bool o.blockOwnerDeletion)

def empty : OwnerReference := ⟨"", "", "", "", none, none⟩

/-- A text, which is empty where there is null. -/
def textField (name : String) (set : String → OwnerReference → OwnerReference) :
    FieldReader OwnerReference :=
  .ofSet name (nullable text) fun s => set (s.getD "")

/-- Read an owner. A field that is missing is empty. -/
def reader : Reader OwnerReference :=
  record "OwnerReference" [
    textField "apiVersion" fun s o => { o with apiVersion := s },
    textField "kind" fun s o => { o with kind := s },
    textField "name" fun s o => { o with name := s },
    textField "uid" fun s o => { o with uid := s },
    .ofSet "controller" (nullable truth) fun b o => { o with controller := b },
    .ofSet "blockOwnerDeletion" (nullable truth) fun b o => { o with blockOwnerDeletion := b }]
    empty

end OwnerReference

/-- Read a moment from a text. -/
def Timestamp.reader : Reader Timestamp :=
  textOf "an RFC 3339 formatted date and time string" fun s =>
    (Timestamp.parse s).mapError fun f => .refused f.message

namespace Metadata

def toJson (m : Metadata) : Json :=
  Json.ofFields (fieldFor "name" .string m.name
    ++ fieldFor "generateName" .string m.generateName
    ++ fieldFor "namespace" .string m.space
    ++ fieldFor "uid" .string m.uid
    ++ fieldFor "resourceVersion" .string m.resourceVersion
    ++ fieldFor "labels" Json.ofTextMap m.labels
    ++ fieldFor "annotations" Json.ofTextMap m.annotations
    ++ fieldFor "deletionTimestamp" (fun t => .string (Timestamp.text t)) m.deletionTimestamp
    ++ fieldFor "ownerReferences" (fun os => .array (os.map OwnerReference.toJson))
      m.ownerReferences)

/-- Read metadata. A field that is missing is absent. -/
def reader : Reader Metadata :=
  record "ObjectMeta" [
    .ofSet "name" (nullable text) fun s m => { m with name := s },
    .ofSet "generateName" (nullable text) fun s m => { m with generateName := s },
    .ofSet "namespace" (nullable text) fun s m => { m with space := s },
    .ofSet "uid" (nullable text) fun s m => { m with uid := s },
    .ofSet "resourceVersion" (nullable text) fun s m => { m with resourceVersion := s },
    .ofSet "labels" (nullable textMap) fun l m => { m with labels := l },
    .ofSet "annotations" (nullable textMap) fun a m => { m with annotations := a },
    .ofSet "deletionTimestamp" (nullable Timestamp.reader) fun t m =>
      { m with deletionTimestamp := t },
    .ofSet "ownerReferences" (nullable (list OwnerReference.reader)) fun os m =>
      { m with ownerReferences := os }]
    empty

end Metadata

end ControlLoop
